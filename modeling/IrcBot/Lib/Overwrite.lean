/-
# Stores that are written slot by slot

A write gives one slot a value; what stood there before is lost.

* `run_apply` — a slot holds what was last written to it.
* `run_eq_iff` — two lists of writes leave every store the same exactly when they write the
  same last to each slot.
* `lastWrite_edits` — where the writes to one slot at a time are replaced, a slot holds what
  was last put in their place, and else what it held.
-/
import Mathlib.Logic.Function.Basic
import Mathlib.Logic.Nontrivial.Basic
import Mathlib.Tactic.Common

namespace IrcBot.Lib.Overwrite

variable {κ β : Type} [DecidableEq κ]

def run (s : κ → β) (ws : List (κ × β)) : κ → β :=
  ws.foldl (fun s w => Function.update s w.1 w.2) s

/-- What is last written to a slot, if anything is. -/
def lastWrite (k : κ) : List (κ × β) → Option β
  | [] => none
  | w :: ws => (lastWrite k ws).or (if w.1 = k then some w.2 else none)

variable {s : κ → β} {ws ws' : List (κ × β)} {k : κ}

/-- A slot holds what was last written to it. -/
theorem run_apply (ws : List (κ × β)) : ∀ (s : κ → β) (k : κ),
    run s ws k = (lastWrite k ws).getD (s k) := by
  induction ws with
  | nil =>
      intro s k
      rfl
  | cons w ws ih =>
      intro s k
      show run (Function.update s w.1 w.2) ws k = _
      rw [ih, lastWrite]
      cases lastWrite k ws with
      | some v => rfl
      | none =>
          by_cases hk : w.1 = k
          · subst hk
            simp
          · rw [Function.update_of_ne (Ne.symm hk), if_neg hk]
            rfl

/-- **When two lists of writes come to the same.** -/
theorem run_eq_iff [Nontrivial β] :
    (∀ s : κ → β, run s ws = run s ws') ↔ ∀ k, lastWrite k ws = lastWrite k ws' := by
  constructor
  · intro h k
    have hslot (v : β) : (lastWrite k ws).getD v = (lastWrite k ws').getD v := by
      have hrun := congrFun (h fun _ => v) k
      rwa [run_apply, run_apply] at hrun
    cases hlast : lastWrite k ws with
    | none =>
        cases hlast' : lastWrite k ws' with
        | none => rfl
        | some v =>
            -- a store that holds something else there
            obtain ⟨u, hu⟩ := exists_ne v
            have hu' := hslot u
            rw [hlast, hlast'] at hu'
            exact absurd hu' hu
    | some v =>
        cases hlast' : lastWrite k ws' with
        | none =>
            obtain ⟨u, hu⟩ := exists_ne v
            have hu' := hslot u
            rw [hlast, hlast'] at hu'
            exact absurd hu'.symm hu
        | some v' =>
            have hv := hslot v
            rw [hlast, hlast'] at hv
            exact congrArg some hv
  · intro h s
    funext k
    rw [run_apply, run_apply, h k]

/-! ### Edits of a list of writes -/

@[simp] theorem lastWrite_nil : lastWrite k ([] : List (κ × β)) = none := rfl

theorem lastWrite_append (ws ws' : List (κ × β)) :
    lastWrite k (ws ++ ws') = (lastWrite k ws').or (lastWrite k ws) := by
  induction ws with
  | nil => exact Option.or_none.symm
  | cons w ws ih => rw [List.cons_append, lastWrite, ih, lastWrite, Option.or_assoc]

theorem lastWrite_eq_none_iff : lastWrite k ws = none ↔ ∀ w ∈ ws, w.1 ≠ k := by
  induction ws with
  | nil => exact iff_of_true rfl fun w hw => absurd hw List.not_mem_nil
  | cons w ws ih =>
      rw [lastWrite, Option.or_eq_none_iff, ih, List.forall_mem_cons, and_comm]
      refine and_congr_left fun _ => ?_
      split
      · rename_i heq
        exact iff_of_false (Option.some_ne_none _) fun hne => hne heq
      · rename_i hne
        exact iff_of_true rfl hne

/-- The writes to a slot replaced by one write, or by none. -/
def edit (ws : List (κ × β)) (e : κ × Option β) : List (κ × β) :=
  ws.filter (fun w => decide (w.1 ≠ e.1)) ++ (e.2.map fun v => (e.1, v)).toList

theorem lastWrite_filter_self (ws : List (κ × β)) :
    lastWrite k (ws.filter fun w => decide (w.1 ≠ k)) = none :=
  lastWrite_eq_none_iff.mpr fun _ hw => of_decide_eq_true (List.mem_filter.mp hw).2

theorem lastWrite_filter_of_ne {j : κ} (hne : j ≠ k) (ws : List (κ × β)) :
    lastWrite j (ws.filter fun w => decide (w.1 ≠ k)) = lastWrite j ws := by
  induction ws with
  | nil => rfl
  | cons w ws ih =>
      by_cases hw : w.1 = k
      · rw [List.filter_cons_of_neg (by simpa using hw), ih, lastWrite,
          if_neg fun h => hne (h.symm.trans hw), Option.or_none]
      · rw [List.filter_cons_of_pos (by simpa using hw), lastWrite, ih, lastWrite]

/-- An edit decides its own slot. -/
theorem lastWrite_edit_self (ws : List (κ × β)) (e : κ × Option β) :
    lastWrite e.1 (edit ws e) = e.2 := by
  rw [edit, lastWrite_append, lastWrite_filter_self, Option.or_none]
  cases hv : e.2 with
  | none => rfl
  | some v =>
      rw [Option.map_some, Option.toList_some, lastWrite, if_pos rfl]
      rfl

/-- An edit leaves the other slots alone. -/
theorem lastWrite_edit_of_ne {e : κ × Option β} (hne : k ≠ e.1) (ws : List (κ × β)) :
    lastWrite k (edit ws e) = lastWrite k ws := by
  have hown : lastWrite k (e.2.map fun v => (e.1, v)).toList = none :=
    lastWrite_eq_none_iff.mpr fun w hw => by
      obtain ⟨v, -, rfl⟩ := Option.map_eq_some_iff.mp (Option.mem_toList.mp hw)
      exact hne.symm
  rw [edit, lastWrite_append, hown, Option.none_or, lastWrite_filter_of_ne hne]

/-- **What a slot holds after several edits.** -/
theorem lastWrite_edits (es : List (κ × Option β)) : ∀ ws : List (κ × β),
    lastWrite k (es.foldl edit ws) = (lastWrite k es).getD (lastWrite k ws) := by
  induction es with
  | nil => exact fun _ => rfl
  | cons e es ih =>
      intro ws
      rw [List.foldl_cons, ih, lastWrite]
      cases lastWrite k es with
      | some v => rfl
      | none =>
          by_cases hk : e.1 = k
          · rw [if_pos hk, ← hk, lastWrite_edit_self]
            rfl
          · rw [if_neg hk, lastWrite_edit_of_ne (Ne.symm hk)]
            rfl

end IrcBot.Lib.Overwrite
