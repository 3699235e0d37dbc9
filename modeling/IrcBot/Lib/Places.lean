/-
# Lists whose records are known by their places

Each record has a key of its own. Another list may run in parallel with the records, and a record
may be remembered by its place; `place` finds the place of a key again after the list was changed.

* `place_concat`, `place_eraseIdx` — where a key is after a record was put at the end or taken out.
* `eraseIdx_eq_filter`, `set_eq_map` — what is done at a place is done to the key that is there.
* `find_cyclic` — a search over the places from `start` on, around the end of the list, finds what a
  search of the rotated list finds.
-/
import Mathlib.Data.List.Nodup
import Mathlib.Data.List.Rotate

namespace IrcBot.Lib.Places

variable {α κ : Type} [DecidableEq κ] {key : α → κ} {l : List α} {i : Nat} {k : κ}

/-- Where the record with a key stands. -/
def place (key : α → κ) (l : List α) (k : κ) : Option Nat := l.findIdx? fun x => key x == k

theorem place_eq_findIdx (l : List α) (k : κ) : place key l k = (l.map key).findIdx? (· == k) := by
  rw [List.findIdx?_map]
  rfl

theorem place_some (h : place key l k = some i) : ∃ x, l[i]? = some x ∧ key x = k := by
  obtain ⟨hi, hkey, -⟩ := List.findIdx?_eq_some_iff_getElem.mp h
  exact ⟨l[i], List.getElem?_eq_getElem hi, eq_of_beq hkey⟩

theorem place_eq_none_iff : place key l k = none ↔ k ∉ l.map key := by
  rw [place, List.findIdx?_eq_none_iff, List.mem_map]
  simp

/-- With keys that are distinct a key stands in one place. -/
theorem place_eq_some_iff (h : (l.map key).Nodup) :
    place key l k = some i ↔ ∃ x, l[i]? = some x ∧ key x = k := by
  refine ⟨place_some, fun ⟨x, hx, hkey⟩ => ?_⟩
  cases hplace : place key l k with
  | none => exact absurd (List.mem_map.mpr ⟨x, List.mem_of_getElem? hx, hkey⟩) (place_eq_none_iff.mp hplace)
  | some j =>
      obtain ⟨y, hy, hkeyy⟩ := place_some hplace
      have hxi : (l.map key)[i]? = some k := by rw [List.getElem?_map, hx, Option.map_some, hkey]
      have hyj : (l.map key)[j]? = some k := by rw [List.getElem?_map, hy, Option.map_some, hkeyy]
      obtain ⟨hlt, -⟩ := List.getElem?_eq_some_iff.mp hyj
      exact congrArg some ((List.getElem?_inj hlt h).mp (hyj.trans hxi.symm))

theorem place_concat (hk : k ∈ l.map key) (x : α) : place key (l ++ [x]) k = place key l k := by
  cases hplace : place key l k with
  | none => exact absurd hk (place_eq_none_iff.mp hplace)
  | some j => rw [place, List.findIdx?_append, ← place, hplace, Option.some_or]

/-- A list around one of its places. -/
theorem eq_append_of_getElem? {x : α} (h : l[i]? = some x) :
    ∃ before after, l = before ++ x :: after ∧ before.length = i := by
  obtain ⟨hi, rfl⟩ := List.getElem?_eq_some_iff.mp h
  refine ⟨l.take i, l.drop (i + 1), ?_, by simp; omega⟩
  rw [← List.drop_eq_getElem_cons hi, List.take_append_drop]

omit [DecidableEq κ] in
/-- The keys around a place are others. -/
theorem ne_of_nodup {x : α} {before after : List α} (h : ((before ++ x :: after).map key).Nodup) :
    (∀ y ∈ before, key y ≠ key x) ∧ ∀ y ∈ after, key y ≠ key x := by
  rw [List.map_append, List.map_cons, List.nodup_append] at h
  obtain ⟨-, hafter, hcross⟩ := h
  refine ⟨fun y hy => hcross _ (List.mem_map_of_mem hy) _ List.mem_cons_self, fun y hy heq => ?_⟩
  exact (List.nodup_cons.mp hafter).1 (List.mem_map.mpr ⟨y, hy, heq⟩)

/-- To take out a place is to take out its key. -/
theorem eraseIdx_eq_filter (h : (l.map key).Nodup) {x : α} (hx : l[i]? = some x) :
    l.eraseIdx i = l.filter fun y => key y ≠ key x := by
  obtain ⟨before, after, rfl, rfl⟩ := eq_append_of_getElem? hx
  obtain ⟨hbefore, hafter⟩ := ne_of_nodup h
  rw [List.eraseIdx_append_of_length_le (Nat.le_refl _), Nat.sub_self, List.eraseIdx_cons_zero,
    List.filter_append, List.filter_cons_of_neg (by simp),
      List.filter_eq_self.mpr (by simpa using hbefore),
    List.filter_eq_self.mpr (by simpa using hafter)]

/-- To put something at a place is to put it at its key. -/
theorem set_eq_map (h : (l.map key).Nodup) {x : α} (hx : l[i]? = some x) (f : α → α) :
    l.set i (f x) = l.map fun y => if key y = key x then f y else y := by
  obtain ⟨before, after, rfl, rfl⟩ := eq_append_of_getElem? hx
  obtain ⟨hbefore, hafter⟩ := ne_of_nodup h
  have hsame {ys : List α} (hys : ∀ y ∈ ys, key y ≠ key x) :
      ys.map (fun y => if key y = key x then f y else y) = ys :=
    (List.map_congr_left fun y hy => if_neg (hys y hy)).trans (List.map_id' ys)
  rw [List.set_append_right _ _ (Nat.le_refl _), Nat.sub_self, List.set_cons_zero, List.map_append,
    List.map_cons,
    if_pos rfl, hsame hbefore, hsame hafter]

/-- **Where a key is after a record was taken out**: nowhere if it was its own, else where it was,
or one place ahead. -/
theorem place_eraseIdx (h : (l.map key).Nodup) (hi : i < l.length) :
    place key (l.eraseIdx i) k = (place key l k).bind fun j =>
      if j = i then none else if i < j then some (j - 1) else some j := by
  obtain ⟨before, after, hl, hlen⟩ := eq_append_of_getElem? (List.getElem?_eq_getElem hi)
  generalize l[i] = x at hl
  subst hl hlen
  obtain ⟨hbefore, hafter⟩ := ne_of_nodup h
  rw [List.eraseIdx_append_of_length_le (Nat.le_refl _), Nat.sub_self, List.eraseIdx_cons_zero,
    place, place,
    List.findIdx?_append, List.findIdx?_append, List.findIdx?_cons]
  cases hplace : before.findIdx? fun y => key y == k with
  | some j =>
      have hlt : j < before.length := (List.findIdx?_eq_some_iff_findIdx_eq.mp hplace).1
      rw [Option.some_or, Option.some_or, Option.bind_some, if_neg (by omega), if_neg (by omega)]
  | none =>
      rw [Option.none_or, Option.none_or]
      by_cases hk : key x = k
      · have hnone : after.findIdx? (fun y => key y == k) = none :=
          List.findIdx?_eq_none_iff.mpr fun y hy => beq_false_of_ne (hk ▸ hafter y hy)
        rw [if_pos (beq_iff_eq.mpr hk), hnone, Option.map_none, Option.map_some, Option.bind_some,
          Nat.zero_add,
          if_pos rfl]
      · rw [if_neg (by simpa using hk)]
        cases after.findIdx? fun y => key y == k with
        | none => rfl
        | some j =>
            simp only [Option.map_some, Option.bind_some]
            rw [if_neg (by omega), if_pos (by omega)]
            congr 1
            omega

/-! ### Around the end of the list -/

theorem find_map_of_getElem? {places : List Nat} : ∀ {r : List α},
    places.map (fun i => l[i]?) = r.map some → ∀ p : α → Bool,
      (places.find? fun i => (l[i]?).any p).bind (fun i => l[i]?) = r.find? p := by
  induction places with
  | nil =>
      intro r h p
      obtain rfl : r = [] := by simpa using h.symm
      rfl
  | cons i places ih =>
      intro r h p
      cases r with
      | nil => cases h
      | cons x r =>
          rw [List.map_cons, List.map_cons, List.cons.injEq] at h
          rw [List.find?_cons, h.1, Option.any_some, List.find?_cons]
          cases p x with
          | true => exact h.1
          | false => exact ih h.2 p

/-- The places from `start` on, around the end of the list. -/
def cyclic (start n : Nat) : List Nat := (List.range n).map fun k => (start + k) % n

theorem map_cyclic (start : Nat) :
    (cyclic start l.length).map (fun i => l[i]?) = (l.rotate start).map some := by
  refine List.ext_getElem (by simp [cyclic]) fun m hm _ => ?_
  rw [List.length_map, cyclic, List.length_map, List.length_range] at hm
  have hget := List.getElem?_rotate (n := start) hm
  rw [List.getElem?_eq_getElem (by simpa using hm)] at hget
  simp [cyclic, Nat.add_comm start m, ← hget]

/-- **A search around the end of the list** finds what a search of the rotated list does. -/
theorem find_cyclic (start : Nat) (p : α → Bool) :
    ((cyclic start l.length).find? fun i => (l[i]?).any p).bind (fun i => l[i]?) =
    (l.rotate start).find? p :=
  find_map_of_getElem? (map_cyclic start) p

theorem lt_of_mem_cyclic {start n : Nat} (h : i ∈ cyclic start n) : i < n := by
  obtain ⟨k, hk, rfl⟩ := List.mem_map.mp h
  exact Nat.mod_lt _ (Nat.lt_of_le_of_lt (Nat.zero_le k) (List.mem_range.mp hk))

end IrcBot.Lib.Places
