/-
# A replay cache: a bounded ring with a lifetime

A ring of `size` slots remembers keys with the time at which each was recorded.
A key counts as seen while a slot holds it with a time at most `ttl` ago; a
record overwrites the oldest slot. `Tracks` ties the ring to the history of all
records, newest first.

* `Tracks.record`, `Tracks.seen_of_recent` — the last `size` records are in the
  ring, so the newest of them are seen for their whole lifetime.
* `Run`, `Run.nodup` — a receiver that accepts a message only while its stamp is at
  most `early` ahead of the clock and at most `late` behind it, and only when its
  key is not seen, accepts no message twice when `early + late ≤ ttl`.
* `fresh_cons` — as long as fewer than `size` different keys are recorded within
  any one lifetime, a key that is not seen has not been recorded within the last
  lifetime at all: the ring never drops a record that is still alive.
-/
import Mathlib.Data.Finset.Card
import Mathlib.Data.Finset.Dedup
import Mathlib.Data.List.Pairwise
import Mathlib.Tactic.Common

namespace IrcBot.Lib.ReplayRing

variable {κ : Type} {size : Nat}

/-- A ring of keys and the times they were recorded at; `next` is the slot the
next record overwrites. -/
structure Ring (κ : Type) (size : Nat) where
  slots : List (κ × Int)
  length_slots : slots.length = size
  next : Fin size

namespace Ring

/-- A slot holds `k` with a time at most `ttl` ago. -/
def seen [DecidableEq κ] (r : Ring κ size) (ttl : Int) (k : κ) (now : Int) : Bool :=
  r.slots.any fun e => e.1 == k && decide (now - e.2 ≤ ttl)

/-- Record `k` over the oldest slot. -/
def record (r : Ring κ size) (k : κ) (now : Int) : Ring κ size :=
  ⟨r.slots.set r.next (k, now), by rw [List.length_set, r.length_slots],
    ⟨(r.next + 1) % size, Nat.mod_lt _ r.next.pos⟩⟩

end Ring

/-- The slot of the `i`-th newest record. -/
def slotOf (r : Ring κ size) (i : Nat) : Nat := (r.next + size - 1 - i) % size

/-- The ring holds the last `size` records of the history, each in its slot. -/
def Tracks (r : Ring κ size) (hist : List (κ × Int)) : Prop :=
  ∀ i, i < size → ∀ e, hist[i]? = some e → r.slots[slotOf r i]? = some e

theorem tracks_nil (r : Ring κ size) : Tracks r [] := by
  intro i _ e he
  simp at he

theorem slotOf_record_zero (r : Ring κ size) (k : κ) (now : Int) :
    slotOf (r.record k now) 0 = r.next := by
  have hlt := r.next.isLt
  simp only [slotOf, Ring.record]
  rcases Nat.lt_or_ge (r.next + 1) size with h | h
  · rw [Nat.mod_eq_of_lt h, show (r.next : Nat) + 1 + size - 1 - 0 = r.next + size by omega,
      Nat.add_mod_right, Nat.mod_eq_of_lt hlt]
  · have hend : (r.next : Nat) + 1 = size := by omega
    rw [hend, Nat.mod_self, Nat.mod_eq_of_lt (by omega)]
    omega

/-- A record moves every older one a place further back, and leaves its slot. -/
theorem slotOf_record_succ (r : Ring κ size) (k : κ) (now : Int) {i : Nat} (hi : i + 1 < size) :
    slotOf (r.record k now) (i + 1) = slotOf r i ∧ slotOf r i ≠ r.next := by
  have hlt := r.next.isLt
  simp only [slotOf, Ring.record]
  have hold : ((r.next : Nat) + size - 1 - i) % size =
      if i < r.next then (r.next : Nat) - 1 - i else r.next + size - 1 - i := by
    split
    · rw [show (r.next : Nat) + size - 1 - i = (r.next - 1 - i) + size by omega,
        Nat.add_mod_right, Nat.mod_eq_of_lt (by omega)]
    · exact Nat.mod_eq_of_lt (by omega)
  rw [hold]
  rcases Nat.lt_or_ge (r.next + 1) size with h | h
  · rw [Nat.mod_eq_of_lt h, show (r.next : Nat) + 1 + size - 1 - (i + 1) = r.next + size - 1 - i
      by omega, hold]
    refine ⟨rfl, ?_⟩
    split <;> omega
  · have hend : (r.next : Nat) + 1 = size := by omega
    rw [hend, Nat.mod_self, Nat.mod_eq_of_lt (by omega), if_pos (by omega)]
    omega

/-- A record joins the history. -/
theorem Tracks.record {r : Ring κ size} {hist : List (κ × Int)} (h : Tracks r hist) (k : κ)
    (now : Int) : Tracks (r.record k now) ((k, now) :: hist) := by
  intro i hi e he
  cases i with
  | zero =>
      obtain rfl : (k, now) = e := by simpa using he
      rw [slotOf_record_zero]
      simp [Ring.record, r.length_slots]
  | succ i =>
      obtain ⟨hslot, hne⟩ := slotOf_record_succ r k now hi
      rw [hslot]
      have hold := h i (by omega) e (by simpa using he)
      simpa [Ring.record, List.getElem?_set, Ne.symm hne] using hold

/-- One of the last `size` records is seen for its whole lifetime. -/
theorem Tracks.seen_of_recent [DecidableEq κ] {r : Ring κ size} {hist : List (κ × Int)}
    (h : Tracks r hist)
    {i : Nat} (hi : i < size) {k : κ} {t now ttl : Int} (he : hist[i]? = some (k, t))
    (halive : now - t ≤ ttl) : r.seen ttl k now = true := by
  have hmem := List.mem_of_getElem? (h i hi (k, t) he)
  rw [Ring.seen, List.any_eq_true]
  exact ⟨(k, t), hmem, by simp [halive]⟩

/-! ### What a key that is not seen has not done -/

variable [DecidableEq κ]

/-- The different keys recorded within the lifetime that starts at `T`. -/
def keysWithin (ttl T : Int) (hist : List (κ × Int)) : Finset κ :=
  ((hist.filter fun e => decide (T ≤ e.2 ∧ e.2 ≤ T + ttl)).map Prod.fst).toFinset

/-- Fewer than `n` different keys are recorded within any one lifetime. -/
def Sparse (ttl : Int) (n : Nat) (hist : List (κ × Int)) : Prop :=
  ∀ T, (keysWithin ttl T hist).card < n

/-- The clock did not go back: newest first, times do not increase. -/
def Ordered (hist : List (κ × Int)) : Prop :=
  hist.Pairwise fun e f => f.2 ≤ e.2

/-- Two records of one key lie more than a lifetime apart. -/
def Fresh (ttl : Int) (hist : List (κ × Int)) : Prop :=
  hist.Pairwise fun e f => e.1 = f.1 → ttl < e.2 - f.2

theorem keysWithin_mono {ttl T : Int} {h₁ h₂ : List (κ × Int)} (h : h₁.Sublist h₂) :
    keysWithin ttl T h₁ ⊆ keysWithin ttl T h₂ := by
  intro k hk
  simp only [keysWithin, List.mem_toFinset, List.mem_map, List.mem_filter] at hk ⊢
  obtain ⟨e, ⟨he, hw⟩, rfl⟩ := hk
  exact ⟨e, ⟨h.subset he, hw⟩, rfl⟩

theorem Sparse.mono {ttl : Int} {n : Nat} {h₁ h₂ : List (κ × Int)} (hs : Sparse ttl n h₂)
    (h : h₁.Sublist h₂) : Sparse ttl n h₁ :=
  fun T => (Finset.card_le_card (keysWithin_mono h)).trans_lt (hs T)

/-- A history of fewer than `n` records is sparse. -/
theorem sparse_of_length_lt {ttl : Int} {n : Nat} {hist : List (κ × Int)} (h : hist.length < n) :
    Sparse ttl n hist := by
  intro T
  refine (List.toFinset_card_le _).trans_lt (lt_of_le_of_lt ?_ h)
  rw [List.length_map]
  exact List.length_filter_le _ _

/-- Within one lifetime the records carry different keys, so there are no more of
them than keys. -/
theorem length_le_card_keysWithin {ttl T : Int} {hist : List (κ × Int)} (hfresh : Fresh ttl hist)
    (hin : ∀ e ∈ hist, T ≤ e.2 ∧ e.2 ≤ T + ttl) :
    hist.length ≤ (keysWithin ttl T hist).card := by
  have hnodup : (hist.map Prod.fst).Nodup := by
    rw [List.Nodup, List.pairwise_map]
    refine List.Pairwise.imp_of_mem ?_ hfresh
    intro e f he hf hef heq
    have h₁ := hin e he
    have h₂ := hin f hf
    have := hef heq
    omega
  have hall : hist.filter (fun e => decide (T ≤ e.2 ∧ e.2 ≤ T + ttl)) = hist :=
    List.filter_eq_self.mpr fun e he => decide_eq_true (hin e he)
  rw [keysWithin, hall, List.toFinset_card_of_nodup hnodup, List.length_map]

/-- A record within the last lifetime is among the last `n`, when no lifetime
sees `n` different keys. -/
theorem index_lt_of_sparse {ttl now : Int} {n : Nat} {hist : List (κ × Int)}
    (hfresh : Fresh ttl hist) (hord : Ordered hist) (hsparse : Sparse ttl n hist)
    (hnow : ∀ e ∈ hist, e.2 ≤ now) {i : Nat} {f : κ × Int} (hf : hist[i]? = some f)
    (halive : now - f.2 ≤ ttl) : i < n := by
  obtain ⟨hlt, hget⟩ := List.getElem?_eq_some_iff.mp hf
  have hsub : (hist.take (i + 1)).Sublist hist := List.take_sublist _ _
  have hin : ∀ e ∈ hist.take (i + 1), f.2 ≤ e.2 ∧ e.2 ≤ f.2 + ttl := by
    intro e he
    have hle := hnow e (hsub.subset he)
    obtain ⟨j, hj, rfl⟩ := List.getElem_of_mem he
    rw [List.length_take] at hj
    rw [List.getElem_take] at hle ⊢
    refine ⟨?_, by omega⟩
    rcases Nat.lt_or_ge j i with hji | hji
    · have := List.pairwise_iff_getElem.mp hord j i (by omega) hlt hji
      rwa [hget] at this
    · obtain rfl : j = i := by omega
      rw [hget]
  have hlen := length_le_card_keysWithin (hfresh.sublist hsub) hin
  have hcard := (hsparse.mono hsub) f.2
  rw [List.length_take] at hlen
  omega

/-- **A key that is not seen is fresh.** If the ring tracks a fresh history in
which no lifetime sees `size` different keys, a key the ring does not show was
not recorded within the last lifetime. -/
theorem fresh_cons {ttl now : Int} {r : Ring κ size} {hist : List (κ × Int)} {k : κ}
    (htracks : Tracks r hist) (hfresh : Fresh ttl hist) (hord : Ordered hist)
    (hsparse : Sparse ttl size hist) (hnow : ∀ e ∈ hist, e.2 ≤ now)
    (hunseen : r.seen ttl k now = false) : Fresh ttl ((k, now) :: hist) := by
  refine List.pairwise_cons.mpr ⟨fun (k', t) hf hk => ?_, hfresh⟩
  obtain rfl : k = k' := hk
  by_contra halive
  simp only [not_lt] at halive
  obtain ⟨i, hi⟩ := List.getElem?_of_mem hf
  have hlt := index_lt_of_sparse hfresh hord hsparse hnow hi halive
  have hseen := htracks.seen_of_recent hlt hi halive
  simp [hseen] at hunseen

/-! ### A receiver with a window for stamps -/

/-- A message accepted: its key, its stamp and when it came in. -/
structure Receipt (κ : Type) where
  key : κ
  stamp : Int
  time : Int

/-- The record an acceptance leaves. -/
def Receipt.entry (e : Receipt κ) : κ × Int := (e.key, e.time)

/-- Runs of a receiver: its ring, its clock and what it has accepted, newest
first. -/
inductive Run (ttl early late : Int) : Ring κ size → Int → List (Receipt κ) → Prop
  | start (r : Ring κ size) (t : Int) : Run ttl early late r t []
  | tick {r t t' tr} (h : Run ttl early late r t tr) (hle : t ≤ t') : Run ttl early late r t' tr
  | accept {r t tr} (h : Run ttl early late r t tr) (k : κ) (stamp : Int)
      (hearly : stamp - t ≤ early) (hlate : t - stamp ≤ late) (hunseen : r.seen ttl k t = false) :
      Run ttl early late (r.record k t) t (⟨k, stamp, t⟩ :: tr)

section Runs

variable {ttl early late : Int} {r : Ring κ size} {t : Int} {tr : List (Receipt κ)}

/-- The ring tracks what was accepted, in the order of the clock. -/
theorem Run.tracks (h : Run ttl early late r t tr) :
    Tracks r (tr.map Receipt.entry) ∧ Ordered (tr.map Receipt.entry) ∧
      ∀ e ∈ tr.map Receipt.entry, e.2 ≤ t := by
  induction h with
  | start r t => exact ⟨tracks_nil r, .nil, by simp⟩
  | tick _ hle ih => exact ⟨ih.1, ih.2.1, fun e he => (ih.2.2 e he).trans hle⟩
  | accept _ k stamp _ _ _ ih =>
      obtain ⟨htracks, hord, hnow⟩ := ih
      refine ⟨htracks.record k _, List.pairwise_cons.mpr ⟨hnow, hord⟩, ?_⟩
      simpa [Receipt.entry] using hnow

/-- Every accepted message came in while its stamp was in the window. -/
theorem Run.window (h : Run ttl early late r t tr) :
    ∀ e ∈ tr, e.stamp - e.time ≤ early ∧ e.time - e.stamp ≤ late := by
  induction h with
  | start => simp
  | tick _ _ ih => exact ih
  | accept _ k stamp hearly hlate _ ih =>
      simp only [List.mem_cons, forall_eq_or_imp]
      exact ⟨⟨hearly, hlate⟩, ih⟩

/-- Two acceptances of one key lie more than a lifetime apart. -/
theorem Run.fresh (h : Run ttl early late r t tr) :
    Sparse ttl size (tr.map Receipt.entry) → Fresh ttl (tr.map Receipt.entry) := by
  induction h with
  | start => exact fun _ => .nil
  | tick _ _ ih => exact ih
  | accept hrun k stamp _ _ hunseen ih =>
      intro hsparse
      have hrest := hsparse.mono (List.sublist_cons_self _ _)
      obtain ⟨htracks, hord, hnow⟩ := hrun.tracks
      exact fresh_cons htracks (ih hrest) hord hrest hnow hunseen

/-- **No message is accepted twice**, when the window for its stamp is no longer
than the lifetime of its key. -/
theorem Run.nodup (h : Run ttl early late r t tr) (hwindow : early + late ≤ ttl)
    (hsparse : Sparse ttl size (tr.map Receipt.entry)) :
    tr.Pairwise fun e f => ¬(e.key = f.key ∧ e.stamp = f.stamp) := by
  have hfresh := List.pairwise_map.mp (h.fresh hsparse)
  refine List.Pairwise.imp_of_mem (fun {e f} he hf hapart => ?_) hfresh
  rintro ⟨hkey, hstamp⟩
  have hlong : ttl < e.time - f.time := hapart hkey
  have := (h.window e he).2
  have := (h.window f hf).1
  omega

end Runs

end IrcBot.Lib.ReplayRing
