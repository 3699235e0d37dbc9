/-
# A set and its mirror

Two lists stand for one set when they have the same keys, each of them once, in whatever
order and in whatever spelling. One of them may be kept by moving its last entry into the
place of one that goes.

* `Mirrors.concat`, `Mirrors.filter` — an entry that joins both, and entries that leave both,
  keep the lists alike.
* `perm_swap_remove` — to remove the entry of a key by a swap is to filter it out, up to order.
-/
import Mathlib.Data.List.Nodup
import Mathlib.Data.List.Perm.Basic

namespace IrcBot.Lib.Mirror

variable {α β κ : Type}

/-- The entries of both lists have the same keys, each of them once. -/
structure Mirrors (key : α → κ) (name : β → κ) (l : List α) (m : List β) : Prop where
  perm : (l.map key).Perm (m.map name)
  nodup : (m.map name).Nodup

section

variable {key : α → κ} {name : β → κ} {l : List α} {m : List β} (h : Mirrors key name l m)
include h

theorem Mirrors.length_eq : l.length = m.length := by
  rw [← List.length_map (f := key), h.perm.length_eq, List.length_map]

theorem Mirrors.nodup_left : (l.map key).Nodup := h.perm.nodup_iff.mpr h.nodup

theorem Mirrors.mem_iff (k : κ) : k ∈ l.map key ↔ k ∈ m.map name := h.perm.mem_iff

/-- The order does not matter. -/
theorem Mirrors.of_perm {l' : List α} (hperm : l'.Perm l) : Mirrors key name l' m :=
  ⟨(hperm.map key).trans h.perm, h.nodup⟩

/-- An entry with a new key joins both. -/
theorem Mirrors.concat {x : α} {y : β} (hkey : key x = name y) (hnew : name y ∉ m.map name) :
    Mirrors key name (l ++ [x]) (m ++ [y]) where
  perm := by
    rw [List.map_append, List.map_append, List.map_singleton, List.map_singleton, hkey]
    exact h.perm.append_right [name y]
  nodup := by
    rw [List.map_append, List.map_singleton]
    exact List.nodup_append_comm.mp (List.nodup_cons.mpr ⟨hnew, h.nodup⟩)

/-- The entries of some keys leave both. -/
theorem Mirrors.filter (p : κ → Bool) :
    Mirrors key name (l.filter (p <| key ·)) (m.filter (p <| name ·)) := by
  have hkeys {γ : Type} (f : γ → κ) (xs : List γ) :
      (xs.filter (p <| f ·)).map f = (xs.map f).filter p := by
    rw [List.filter_map]
    rfl
  constructor
  · rw [hkeys, hkeys]
    exact h.perm.filter p
  · rw [hkeys]
    exact h.nodup.filter p

end

/-- The entry of a key is the only one that goes. -/
theorem eraseIdx_eq_filter [DecidableEq κ] {key : α → κ} {k : κ} {l : List α} {i : Nat}
    (hnodup : (l.map key).Nodup) (hi : l.findIdx? (key · = k) = some i) :
    l.eraseIdx i = l.filter (key · ≠ k) := by
  induction l generalizing i with
  | nil => cases hi
  | cons x l ih =>
      rw [List.map_cons, List.nodup_cons] at hnodup
      rw [List.findIdx?_cons] at hi
      split at hi
      · rename_i hx
        cases hi
        have hothers : ∀ y ∈ l, decide (key y ≠ k) = true := by
          intro y hy
          refine decide_eq_true fun heq => hnodup.1 ?_
          rw [of_decide_eq_true hx, ← heq]
          exact List.mem_map_of_mem hy
        rw [List.filter_cons_of_neg (by simpa using hx), List.filter_eq_self.mpr hothers]
        rfl
      · rename_i hx
        obtain ⟨j, hj, rfl⟩ := Option.map_eq_some_iff.mp hi
        rw [List.eraseIdx_cons_succ, ih hnodup.2 hj, List.filter_cons_of_pos (by simpa using hx)]

/-- The last entry moves to the place of the one that goes. -/
theorem perm_swap_remove [DecidableEq κ] {key : α → κ} {k : κ} {l : List α} {i : Nat} {last : α}
    (hnodup : (l.map key).Nodup) (hi : l.findIdx? (key · = k) = some i)
    (hlast : l.getLast? = some last) :
    ((l.set i last).dropLast).Perm (l.filter (key · ≠ k)) := by
  rw [← eraseIdx_eq_filter hnodup hi]
  obtain ⟨hlt, -, -⟩ := List.findIdx?_eq_some_iff_getElem.mp hi
  obtain ⟨front, rfl⟩ := List.getLast?_eq_some_iff.mp hlast
  rw [List.length_append, List.length_singleton] at hlt
  by_cases hfront : i < front.length
  · rw [List.set_append_left _ _ hfront, List.dropLast_concat,
      List.eraseIdx_append_of_lt_length hfront]
    exact (List.set_perm_cons_eraseIdx hfront last).trans (List.perm_append_singleton last _).symm
  · obtain rfl : i = front.length := by omega
    rw [List.set_append_right _ _ (Nat.le_refl _), List.dropLast_append_of_ne_nil (by simp),
      List.eraseIdx_append_of_length_le (Nat.le_refl _), Nat.sub_self]
    exact List.Perm.refl _

end IrcBot.Lib.Mirror
