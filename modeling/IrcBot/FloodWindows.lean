/-
# What a flood window counts (`chanflood.rs`)

A window has a start and a count, no list of times. It never trips for less than N + 1 events within
S seconds, and 2N + 1 events within S seconds trip it, wherever they fall in the windows.

* `Filled.windowHit` — the events a window has counted are the last ones.
* `flood_window` — both bounds, over a run of events.
-/
import IrcBot.Chanflood

namespace IrcBot.FloodWindows

open Chanflood

/-! ### Runs -/

/-- The window after some events. -/
def windowAfter (n s : Int) (w : FloodWindow) (times : List Int) : FloodWindow :=
  times.foldl (fun w t => (windowHit w n s t).2) w

/-- The event at place `i` trips the window. -/
def TripsAt (n s : Int) (times : List Int) (i : Nat) : Prop :=
  ∃ t, times[i]? = some t ∧ (windowHit (windowAfter n s {} (times.take i)) n s t).1 = true

/-- The clock of a run does not go back. -/
def Ordered (times : List Int) : Prop := times.Pairwise (· ≤ ·)

section

variable {n s : Int} {w : FloodWindow} {t : Int}

/-- An event opens the window again, or it falls into it. -/
theorem windowHit_cases (n s : Int) (w : FloodWindow) (t : Int) :
    (w.count ≤ 0 ∨ s * 1000 ≤ t - w.startMs) ∧
        windowHit w n s t = (if n < 1 then (true, ⟨0, 0⟩) else (false, ⟨t, 1⟩)) ∨
      (0 < w.count ∧ t - w.startMs < s * 1000) ∧
        windowHit w n s t =
          (if n < w.count + 1 then (true, ⟨0, 0⟩) else (false, ⟨w.startMs, w.count + 1⟩)) := by
  by_cases hopen : w.count ≤ 0 ∨ s * 1000 ≤ t - w.startMs
  · left
    constructor
    · exact hopen
    · simp only [windowHit, if_pos hopen, Int.zero_add]
  · right
    constructor
    · constructor <;> omega
    · simp only [windowHit, if_neg hopen]

/-! ### Soundness -/

/-- The window holds the last events: their number, and the time of the first of them. -/
structure Filled (n : Int) (times : List Int) (w : FloodWindow) : Prop where
  nonneg : 0 ≤ w.count
  le : w.count ≤ n
  start : 0 < w.count → ∃ i : Nat, (i : Int) + w.count = times.length ∧ times[i]? = some w.startMs

theorem filled_nil (hn : 0 ≤ n) : Filled n [] {} := by
  constructor
  · exact Int.le_refl 0
  · exact hn
  · intro h
    exact absurd h (Int.lt_irrefl 0)

theorem Filled.windowHit {times : List Int} (h : Filled n times w) (hn : 0 ≤ n) (t : Int) :
    Filled n (times ++ [t]) (windowHit w n s t).2 := by
  have hzero : Filled n (times ++ [t]) ⟨0, 0⟩ := by
    constructor
    · exact Int.le_refl 0
    · exact hn
    · intro h
      exact absurd h (Int.lt_irrefl 0)
  rcases windowHit_cases n s w t with ⟨-, heq⟩ | ⟨⟨hpos, -⟩, heq⟩
  · rw [heq]
    split
    · exact hzero
    · constructor
      · exact Int.one_nonneg
      · dsimp only
        omega
      · intro _
        refine ⟨times.length, ?_, List.getElem?_concat_length⟩
        simp
  · rw [heq]
    split
    · exact hzero
    · obtain ⟨i, hlen, hstart⟩ := h.start hpos
      constructor
      · dsimp only
        omega
      · dsimp only
        omega
      · intro _
        refine ⟨i, ?_, ?_⟩
        · rw [List.length_append, List.length_singleton]
          dsimp only
          omega
        · rw [List.getElem?_append_left (by omega)]
          exact hstart

theorem filled_windowAfter (hn : 0 ≤ n) (times : List Int) :
    Filled n times (windowAfter n s {} times) := by
  induction times using List.reverseRecOn with
  | nil => exact filled_nil hn
  | append_singleton times t ih =>
      rw [windowAfter, List.foldl_append]
      exact Filled.windowHit ih hn t

/-- **A trip is earned**: it is the last of N + 1 events within S seconds. -/
theorem tripsAt_sound (hn : 0 ≤ n) (hs : 0 < s) {times : List Int} {i : Nat}
    (h : TripsAt n s times i) :
    ∃ (j : Nat) (t u : Int), (j : Int) + n ≤ i ∧ times[i]? = some t ∧ times[j]? = some u ∧
      t - u < s * 1000 := by
  obtain ⟨t, ht, htrip⟩ := h
  have hi := (List.getElem?_eq_some_iff.mp ht).1
  have hfilled := filled_windowAfter (s := s) hn (times.take i)
  rcases windowHit_cases n s (windowAfter n s {} (times.take i)) t with
    ⟨-, heq⟩ | ⟨⟨hpos, hin⟩, heq⟩
  · rw [heq] at htrip
    split at htrip
    · exact ⟨i, t, t, by omega, ht, ht, by omega⟩
    · cases htrip
  · rw [heq] at htrip
    split at htrip
    · obtain ⟨j, hlen, hstart⟩ := hfilled.start hpos
      rw [List.length_take_of_le (Nat.le_of_lt hi)] at hlen
      rw [List.getElem?_take_of_lt (by omega)] at hstart
      exact ⟨j, t, _, by omega, ht, hstart, hin⟩
    · cases htrip

/-! ### Completeness -/

/-- One of the events trips the window. -/
def Trips (n s : Int) (w : FloodWindow) (times : List Int) : Prop :=
  ∃ i t, times[i]? = some t ∧ (windowHit (windowAfter n s w (times.take i)) n s t).1 = true

theorem Trips.head {times : List Int} (h : (windowHit w n s t).1 = true) :
    Trips n s w (t :: times) :=
  ⟨0, t, rfl, h⟩

theorem Trips.tail {times : List Int} (h : Trips n s (windowHit w n s t).2 times) :
    Trips n s w (t :: times) := by
  obtain ⟨i, u, hu, htrip⟩ := h
  exact ⟨i + 1, u, hu, htrip⟩

/-- Events that fall into an open window fill it. -/
theorem trips_of_within {times : List Int} : ∀ {w : FloodWindow}, 0 < w.count →
    (∀ t ∈ times, t - w.startMs < s * 1000) → n < w.count + times.length → w.count ≤ n →
    Trips n s w times := by
  induction times with
  | nil =>
      intro w _ _ hlen hle
      rw [List.length_nil] at hlen
      omega
  | cons t times ih =>
      intro w hpos hin hlen hle
      rw [List.length_cons] at hlen
      have ht := hin t List.mem_cons_self
      rcases windowHit_cases n s w t with ⟨hopen, -⟩ | ⟨-, heq⟩
      · omega
      · by_cases hfull : n < w.count + 1
        · apply Trips.head
          rw [heq, if_pos hfull]
        · apply Trips.tail
          rw [heq, if_neg hfull]
          apply ih
          · dsimp only
            omega
          · intro u hu
            exact hin u (List.mem_cons_of_mem t hu)
          · dsimp only
            omega
          · dsimp only
            omega

/-- A burst trips the window, whatever the window holds when it starts: the events of the burst that
fall into the old window fill it, or enough of them are left for the new one. -/
theorem trips_of_burst {times : List Int} : ∀ {w : FloodWindow}, 0 ≤ w.count → w.count ≤ n →
    (∀ t ∈ times, ∀ u ∈ times, u - t < s * 1000) → 2 * n + 1 ≤ w.count + times.length →
    Trips n s w times := by
  induction times with
  | nil =>
      intro w hnonneg hle _ hlen
      rw [List.length_nil] at hlen
      omega
  | cons t times ih =>
      intro w hnonneg hle hspan hlen
      rw [List.length_cons] at hlen
      rcases windowHit_cases n s w t with ⟨-, heq⟩ | ⟨⟨hpos, -⟩, heq⟩
      · by_cases hfull : n < 1
        · apply Trips.head
          rw [heq, if_pos hfull]
        · apply Trips.tail
          rw [heq, if_neg hfull]
          apply trips_of_within
          · exact Int.one_pos
          · intro u hu
            exact hspan t List.mem_cons_self u (List.mem_cons_of_mem t hu)
          · dsimp only
            omega
          · dsimp only
            omega
      · by_cases hfull : n < w.count + 1
        · apply Trips.head
          rw [heq, if_pos hfull]
        · apply Trips.tail
          rw [heq, if_neg hfull]
          apply ih
          · dsimp only
            omega
          · dsimp only
            omega
          · intro u hu v hv
            exact hspan u (List.mem_cons_of_mem t hu) v (List.mem_cons_of_mem t hv)
          · dsimp only
            omega

end

/-! ### Both bounds -/

theorem Ordered.le {times : List Int} (h : Ordered times) {i j : Nat} {t u : Int} (hij : i ≤ j)
    (ht : times[i]? = some t) (hu : times[j]? = some u) : t ≤ u := by
  obtain ⟨hi, rfl⟩ := List.getElem?_eq_some_iff.mp ht
  obtain ⟨hj, rfl⟩ := List.getElem?_eq_some_iff.mp hu
  rcases Nat.lt_or_eq_of_le hij with hlt | rfl
  · exact List.pairwise_iff_getElem.mp h i j hi hj hlt
  · exact Int.le_refl _

/-- **A burst is noticed**: one of 2N + 1 events within S seconds trips the window. -/
theorem tripsAt_complete {n : Nat} {s : Int} {times : List Int} (hordered : Ordered times) {k : Nat}
    {t u : Int} (ht : times[k]? = some t) (hu : times[k + 2 * n]? = some u)
    (hspan : u - t < s * 1000) : ∃ i, k ≤ i ∧ i ≤ k + 2 * n ∧ TripsAt n s times i := by
  have hfilled := filled_windowAfter (s := s) (Int.natCast_nonneg n) (times.take k)
  have hlast := (List.getElem?_eq_some_iff.mp hu).1
  have hplace {i : Nat} {v : Int} (hv : ((times.drop k).take (2 * n + 1))[i]? = some v) :
      times[k + i]? = some v ∧ i ≤ 2 * n := by
    have hi := (List.getElem?_eq_some_iff.mp hv).1
    rw [List.length_take, List.length_drop] at hi
    rw [List.getElem?_take_of_lt (by omega), List.getElem?_drop] at hv
    exact ⟨hv, by omega⟩
  have hwithin : ∀ a ∈ (times.drop k).take (2 * n + 1), ∀ b ∈ (times.drop k).take (2 * n + 1),
      b - a < s * 1000 := by
    intro a ha b hb
    obtain ⟨i, hi⟩ := List.mem_iff_getElem?.mp ha
    obtain ⟨j, hj⟩ := List.mem_iff_getElem?.mp hb
    have hfirst := hordered.le (Nat.le_add_right k i) ht (hplace hi).1
    have hend := hordered.le (Nat.add_le_add_left (hplace hj).2 k) (hplace hj).1 hu
    omega
  have hlen : 2 * (n : Int) + 1 ≤ (windowAfter n s {} (times.take k)).count +
      ((times.drop k).take (2 * n + 1)).length := by
    have hnonneg := hfilled.nonneg
    rw [List.length_take, List.length_drop]
    omega
  obtain ⟨i, v, hv, htrip⟩ := trips_of_burst hfilled.nonneg hfilled.le hwithin hlen
  obtain ⟨htime, hle⟩ := hplace hv
  refine ⟨k + i, Nat.le_add_right k i, Nat.add_le_add_left hle k, v, htime, ?_⟩
  rw [List.take_take, Nat.min_eq_left (Nat.le_succ_of_le hle)] at htrip
  rw [List.take_add, windowAfter, List.foldl_append]
  exact htrip

/-- **What a window counts**: a trip is the last of N + 1 events within S seconds, and one of any
2N + 1 events within S seconds is a trip. -/
theorem flood_window {n s : Nat} (hs : 0 < s) {times : List Int} (hordered : Ordered times) :
    (∀ i, TripsAt n s times i → ∃ (j : Nat) (t u : Int), j + n ≤ i ∧ times[i]? = some t ∧
      times[j]? = some u ∧ t - u < s * 1000) ∧
    ∀ (k : Nat) (t u : Int), times[k]? = some t → times[k + 2 * n]? = some u → u - t < s * 1000 →
      ∃ i, k ≤ i ∧ i ≤ k + 2 * n ∧ TripsAt n s times i := by
  constructor
  · intro i h
    obtain ⟨j, t, u, hji, ht, hu, hspan⟩ := tripsAt_sound (Int.natCast_nonneg n) (by omega) h
    exact ⟨j, t, u, by omega, ht, hu, hspan⟩
  · intro k t u ht hu hspan
    exact tripsAt_complete hordered ht hu hspan

/-- Two events each second and a limit of two in three seconds. -/
theorem flood_window_steady : Ordered [0, 500, 1000, 1500, 2000] ∧
    ∃ i, 0 ≤ i ∧ i ≤ 4 ∧ TripsAt 2 3 [0, 500, 1000, 1500, 2000] i := by
  have hordered : Ordered [0, 500, 1000, 1500, 2000] := by simp [Ordered]
  constructor
  · exact hordered
  · exact (flood_window (n := 2) (s := 3) (by decide) hordered).2 0 0 2000 rfl rfl (by decide)

end IrcBot.FloodWindows
