/-
# Tables in which some records hold a key

A record of a table may hold a key (`key x = some k`). The keys that are held stay
distinct when a record joins with a new key, and when one changes and the key it then
holds was its own or nobody's. `Kept` compares two states of a table place by place.
-/
import Mathlib.Data.List.Nodup

namespace IrcBot.Lib.Keyed

variable {α κ : Type} {key : α → Option κ} {l : List α}

theorem mem_filterMap_modify {f : α → α} {i : Nat} {k : κ}
    (h : k ∈ (l.modify i f).filterMap key) :
    k ∈ l.filterMap key ∨ ∃ x, l[i]? = some x ∧ key (f x) = some k := by
  by_cases hi : i < l.length
  · obtain ⟨before, x, after, rfl, rfl, hmodify⟩ := List.exists_of_modify f hi
    rw [hmodify, List.filterMap_append, List.mem_append] at h
    rw [List.filterMap_append, List.mem_append]
    rcases h with h | h
    · exact .inl (.inl h)
    · obtain ⟨y, hy, hk⟩ := List.mem_filterMap.mp h
      rcases List.mem_cons.mp hy with rfl | hy
      · exact .inr ⟨x, by simp, hk⟩
      · exact .inl (.inr (List.mem_filterMap.mpr ⟨y, List.mem_cons_of_mem _ hy, hk⟩))
  · rw [List.modify_eq_self (by omega)] at h
    exact .inl h

/-- A record of a modified list is an old one, or the one that was modified. -/
theorem mem_modify {i : Nat} {f : α → α} {x : α} (h : x ∈ l.modify i f) :
    x ∈ l ∨ ∃ y, l[i]? = some y ∧ x = f y := by
  have hmem : x ∈ (l.modify i f).filterMap some := by
    rw [List.filterMap_some]
    exact h
  rcases mem_filterMap_modify hmem with hold | ⟨y, hy, heq⟩
  · rw [List.filterMap_some] at hold
    exact .inl hold
  · exact .inr ⟨y, hy, (Option.some.inj heq).symm⟩

/-- A record that changes keeps the keys distinct, if its key is then its own or new. -/
theorem nodup_filterMap_modify {f : α → α} {i : Nat} (h : (l.filterMap key).Nodup)
    (hnew : ∀ x k, l[i]? = some x → key (f x) = some k →
      key x = some k ∨ k ∉ l.filterMap key) :
    ((l.modify i f).filterMap key).Nodup := by
  by_cases hi : i < l.length
  · obtain ⟨before, x, after, rfl, rfl, hmodify⟩ := List.exists_of_modify f hi
    have hnew := hnew x
    simp only [List.getElem?_append_right (Nat.le_refl _), Nat.sub_self, List.getElem?_cons_zero,
      forall_const] at hnew
    have hothers : (before.filterMap key ++ after.filterMap key).Nodup := by
      refine h.sublist ?_
      rw [List.filterMap_append]
      exact (List.Sublist.refl _).append ((List.sublist_cons_self x after).filterMap key)
    rw [hmodify, List.filterMap_append]
    cases hk : key (f x) with
    | none =>
        rw [List.filterMap_cons_none hk]
        exact hothers
    | some k =>
        rw [List.filterMap_cons_some hk]
        refine List.nodup_middle.mpr (List.nodup_cons.mpr ⟨fun hmem => ?_, hothers⟩)
        rcases hnew k hk with hold | hfree
        · rw [List.filterMap_append, List.filterMap_cons_some hold] at h
          exact (List.nodup_cons.mp (List.nodup_middle.mp h)).1 hmem
        · refine hfree ?_
          rw [List.filterMap_append, List.mem_append]
          rcases List.mem_append.mp hmem with hmem | hmem
          · exact .inl hmem
          · exact .inr (((List.sublist_cons_self x after).filterMap key).subset hmem)
  · rw [List.modify_eq_self (by omega)]
    exact h

/-- A record that joins keeps the keys distinct, if its key is new. -/
theorem nodup_filterMap_concat {x : α} (h : (l.filterMap key).Nodup)
    (hnew : ∀ k, key x = some k → k ∉ l.filterMap key) : ((l ++ [x]).filterMap key).Nodup := by
  rw [List.filterMap_append]
  cases hk : key x with
  | none =>
      rw [List.filterMap_cons_none hk, List.filterMap_nil, List.append_nil]
      exact h
  | some k =>
      rw [List.filterMap_cons_some hk, List.filterMap_nil]
      exact List.nodup_append.mpr ⟨h, List.nodup_singleton k, fun a ha c hc heq => by
        rw [List.mem_singleton.mp hc] at heq
        exact hnew k hk (heq ▸ ha)⟩

/-! ### Place by place -/

/-- Every record of `l` has one it is related to, in the same place of `l'`. -/
def Kept (R : α → α → Prop) (l l' : List α) : Prop :=
  ∀ (i : Nat) (x : α), l[i]? = some x → ∃ x', l'[i]? = some x' ∧ R x x'

variable {R : α → α → Prop}

theorem Kept.trans {l₁ l₂ l₃ : List α} (htrans : ∀ x y z, R x y → R y z → R x z)
    (h : Kept R l₁ l₂) (h' : Kept R l₂ l₃) : Kept R l₁ l₃ := by
  intro i x hx
  obtain ⟨y, hy, hxy⟩ := h i x hx
  obtain ⟨z, hz, hyz⟩ := h' i y hy
  exact ⟨z, hz, htrans x y z hxy hyz⟩

theorem kept_map {f : α → α} (hf : ∀ x, R x (f x)) : Kept R l (l.map f) := by
  intro i x hx
  exact ⟨f x, by rw [List.getElem?_map, hx, Option.map_some], hf x⟩

theorem kept_modify {f : α → α} {i : Nat} (hrefl : ∀ x, R x x) (hf : ∀ x, R x (f x)) :
    Kept R l (l.modify i f) := by
  intro j x hx
  rw [List.getElem?_modify, hx]
  by_cases hij : i = j
  · exact ⟨f x, by simp [hij], hf x⟩
  · exact ⟨x, by simp [hij], hrefl x⟩

theorem kept_concat {y : α} (hrefl : ∀ x, R x x) : Kept R l (l ++ [y]) := by
  intro i x hx
  have hlt := (List.getElem?_eq_some_iff.mp hx).1
  exact ⟨x, by rw [List.getElem?_append_left hlt, hx], hrefl x⟩

theorem kept_refl (hrefl : ∀ x, R x x) : Kept R l l := fun _ x hx => ⟨x, hx, hrefl x⟩

end IrcBot.Lib.Keyed
