/-
# At most `N` in any window

A limiter that keeps the times of the last `N` sends in a ring and lets the next one go when the
oldest of them is at least `W` ago. Histories are newest first, and 0 is a place never written.

* `Paced.countP_le` — so paced, no window of length `W` holds more than `N` sends.
* `Holds.oldest`, `Holds.mark` — the ring always knows the send that matters.
-/
import Mathlib.Data.List.Basic
import Mathlib.Tactic.Common

namespace IrcBot.Lib.SlidingWindow

/-! ### Paced histories -/

/-- Each send comes `W` after the one `N` places before it, and no send before an older one. -/
inductive Paced (N : Nat) (W : Int) : List Int → Prop
  | nil : Paced N W []
  | cons {t : Int} {ts : List Int} (h : Paced N W ts) (hclock : ∀ u ∈ ts.head?, u ≤ t)
      (hgap : ∀ u ∈ ts[N - 1]?, W ≤ t - u) : Paced N W (t :: ts)

section

variable {N : Nat} {W : Int} {ts : List Int}

theorem Paced.le_head (h : Paced N W ts) :
    ∀ {t : Int}, (∀ u ∈ ts.head?, u ≤ t) → ∀ u ∈ ts, u ≤ t := by
  induction h with
  | nil => exact fun _ u hu => nomatch hu
  | @cons s ts h hclock hgap ih =>
      intro t ht u hu
      have hs : s ≤ t := ht s rfl
      rcases List.mem_cons.mp hu with rfl | hu
      · exact hs
      · exact Int.le_trans (ih hclock u hu) hs

theorem Paced.pairwise (h : Paced N W ts) : ts.Pairwise (· ≥ ·) := by
  induction h with
  | nil => exact .nil
  | cons h hclock _ ih => exact List.pairwise_cons.mpr ⟨h.le_head hclock, ih⟩

/-- **A paced history has no more than `N` sends in a window.** -/
theorem Paced.countP_le (hN : 0 < N) (h : Paced N W ts) (T : Int) :
    ts.countP (fun t => decide (T ≤ t ∧ t < T + W)) ≤ N := by
  induction h with
  | nil => exact Nat.zero_le _
  | @cons t ts h hclock hgap ih =>
      by_cases ht : T ≤ t ∧ t < T + W
      · -- what lies `N` places back is before the window, and so is all behind it
        rw [← List.take_append_drop N (t :: ts), List.countP_append]
        have hback : ((t :: ts).drop N).countP (fun t => decide (T ≤ t ∧ t < T + W)) = 0 := by
          rw [List.countP_eq_zero]
          intro u hu
          have hdrop : (t :: ts).drop N = ts.drop (N - 1) := by
            obtain ⟨n, rfl⟩ := Nat.exists_eq_succ_of_ne_zero (Nat.ne_of_gt hN)
            rfl
          rw [hdrop] at hu
          obtain ⟨v, vs, hvs⟩ := List.exists_cons_of_ne_nil (List.ne_nil_of_mem hu)
          have hv : ts[N - 1]? = some v := by
            rw [← List.head?_drop, hvs]
            rfl
          have hsorted := (h.pairwise.sublist (List.drop_sublist (N - 1) ts))
          rw [hvs] at hsorted hu
          have huv : u ≤ v := by
            rcases List.mem_cons.mp hu with rfl | hu
            · exact Int.le_refl u
            · exact (List.pairwise_cons.mp hsorted).1 u hu
          have hgap' := hgap v hv
          rw [decide_eq_true_eq]
          omega
        rw [hback, Nat.add_zero]
        exact Nat.le_trans List.countP_le_length (List.length_take_le _ _)
      · rw [List.countP_cons_of_neg (by simpa using ht)]
        exact ih

end

/-! ### The ring -/

/-- The times of the last sends; `next` is the place the next send overwrites. -/
structure Ring where
  slots : List Int
  next : Nat

namespace Ring

def oldest (r : Ring) : Int := r.slots.getD r.next 0

def mark (r : Ring) (N : Nat) (t : Int) : Ring := ⟨r.slots.set r.next t, (r.next + 1) % N⟩

end Ring

/-- The ring holds the last `N` sends, the newest just before `next`. -/
structure Holds (N : Nat) (r : Ring) (ts : List Int) : Prop where
  length_slots : r.slots.length = N
  next_lt : r.next < N
  slot : ∀ i < N, r.slots[(r.next + (N - 1 - i)) % N]? = some (ts.getD i 0)

section

variable {N : Nat} {r : Ring} {ts : List Int}

theorem holds_nil (hN : 0 < N) : Holds N ⟨List.replicate N 0, 0⟩ [] :=
  ⟨List.length_replicate, hN, fun i _ => by
    rw [List.getElem?_replicate_of_lt (Nat.mod_lt _ hN)]
    rfl⟩

/-- The place to be overwritten holds the send `N` places back. -/
theorem Holds.oldest (h : Holds N r ts) : r.oldest = ts.getD (N - 1) 0 := by
  have hN : 0 < N := Nat.zero_lt_of_lt h.next_lt
  have hslot := h.slot (N - 1) (Nat.sub_lt hN Nat.one_pos)
  rw [Nat.sub_self, Nat.add_zero, Nat.mod_eq_of_lt h.next_lt] at hslot
  rw [Ring.oldest, List.getD_eq_getElem?_getD, hslot]
  rfl

theorem Holds.mark (h : Holds N r ts) (t : Int) : Holds N (r.mark N t) (t :: ts) := by
  have hN : 0 < N := Nat.zero_lt_of_lt h.next_lt
  have hnext := h.next_lt
  refine ⟨(List.length_set ..).trans h.length_slots, Nat.mod_lt _ hN, fun i hi => ?_⟩
  rw [Ring.mark]
  dsimp only
  rw [Nat.mod_add_mod]
  cases i with
  | zero =>
      have hplace : (r.next + 1 + (N - 1 - 0)) % N = r.next := by
        rw [show r.next + 1 + (N - 1 - 0) = r.next + N by omega, Nat.add_mod_right,
          Nat.mod_eq_of_lt hnext]
      rw [hplace, List.getElem?_set_self (h.length_slots.symm ▸ hnext)]
      rfl
  | succ i =>
      have hplace : (r.next + 1 + (N - 1 - (i + 1))) % N = (r.next + (N - 1 - i)) % N := by
        congr 1
        omega
      have hother : r.next ≠ (r.next + (N - 1 - i)) % N := by
        rcases Nat.lt_or_ge (r.next + (N - 1 - i)) N with hlt | hge
        · rw [Nat.mod_eq_of_lt hlt]
          omega
        · rw [Nat.mod_eq_sub_mod hge, Nat.mod_eq_of_lt (by omega)]
          omega
      rw [hplace, List.getElem?_set_ne hother, h.slot i (by omega)]
      rfl

/-- A send that the ring lets go keeps the pace. -/
theorem Holds.allows {W : Int} (h : Holds N r ts) (hpaced : Paced N W ts) (hpos : ∀ u ∈ ts, u ≠ 0)
    {t : Int} (hclock : ∀ u ∈ ts.head?, u ≤ t) (hfree : r.oldest = 0 ∨ W ≤ t - r.oldest) :
    Paced N W (t :: ts) := by
  refine .cons hpaced hclock fun u hu => ?_
  have hold : r.oldest = u := by
    rw [h.oldest, List.getD_eq_getElem?_getD, hu]
    rfl
  rw [hold] at hfree
  exact hfree.resolve_left (hpos u (List.mem_of_getElem? hu))

end

end IrcBot.Lib.SlidingWindow
