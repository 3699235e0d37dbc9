/-
# Taking a stream apart

A splitter takes the first item off what has arrived, waits for more, or refuses what it sees.
What it has once said of a stream it says of every longer one.

* `split_append` — the items of a stream are those of its front, and then those of what the front
  left over with the rest behind it. So it does not matter where the stream is cut.
-/
import Mathlib.Data.List.Basic
import Mathlib.Tactic.Common

namespace IrcBot.Lib

/-- A splitter. `next` is none while the first item is not complete, and `some none` where none
can begin as the stream does. -/
structure Splitter (α β : Type) where
  next : List α → Option (Option (β × List α))
  shorter : ∀ {a rest : List α} {x : β}, next a = some (some (x, rest)) → rest.length < a.length
  stable : ∀ {a : List α} (b : List α) {x : β} {rest : List α},
    next a = some (some (x, rest)) → next (a ++ b) = some (some (x, rest ++ b))
  refused : ∀ {a : List α} (b : List α), next a = some none → next (a ++ b) = some none

namespace Splitter

variable {α β : Type} (S : Splitter α β)

/-- The items of a stream and what is left, or nothing where the stream is refused. -/
def split (a : List α) : List β × Option (List α) :=
  match h : S.next a with
  | none => ([], some a)
  | some none => ([], none)
  | some (some (x, rest)) =>
      have := S.shorter h
      (x :: (split rest).1, (split rest).2)
termination_by a.length

variable {S} {a b rest : List α} {x : β}

theorem split_none (h : S.next a = none) : S.split a = ([], some a) := by
  rw [split]
  split
  · rfl
  · rename_i heq
    cases h.symm.trans heq
  · rename_i heq
    cases h.symm.trans heq

theorem split_refused (h : S.next a = some none) : S.split a = ([], none) := by
  rw [split]
  split
  · rename_i heq
    cases h.symm.trans heq
  · rfl
  · rename_i heq
    cases h.symm.trans heq

theorem split_item (h : S.next a = some (some (x, rest))) :
    S.split a = (x :: (S.split rest).1, (S.split rest).2) := by
  rw [split]
  split
  · rename_i heq
    cases h.symm.trans heq
  · rename_i heq
    cases h.symm.trans heq
  · rename_i heq
    cases h.symm.trans heq
    rfl

/-- Induction along the items of a stream. -/
theorem split_induction {motive : List α → Prop} (hmore : ∀ a, S.next a = none → motive a)
    (hrefused : ∀ a, S.next a = some none → motive a)
    (hitem : ∀ a x rest, S.next a = some (some (x, rest)) → motive rest → motive a) (a : List α) :
    motive a := by
  induction hlen : a.length using Nat.strongRecOn generalizing a with
  | ind n ih =>
      cases hnext : S.next a with
      | none => exact hmore a hnext
      | some o =>
          cases o with
          | none => exact hrefused a hnext
          | some p =>
              obtain ⟨x, rest⟩ := p
              exact hitem a x rest hnext (ih rest.length (hlen ▸ S.shorter hnext) rest rfl)

/-- What is left has no item in front. -/
theorem next_split_snd {r : List α} (h : (S.split a).2 = some r) : S.next r = none := by
  induction a using S.split_induction with
  | hmore a hnext =>
      rw [split_none hnext] at h
      cases h
      exact hnext
  | hrefused a hnext =>
      rw [split_refused hnext] at h
      cases h
  | hitem a x rest hnext ih =>
      rw [split_item hnext] at h
      exact ih h

/-- **A stream that was left over is taken apart with the rest behind it.** -/
theorem split_append {r : List α} (h : (S.split a).2 = some r) (b : List α) :
    S.split (a ++ b) = ((S.split a).1 ++ (S.split (r ++ b)).1, (S.split (r ++ b)).2) := by
  induction a using S.split_induction with
  | hmore a hnext =>
      rw [split_none hnext] at h ⊢
      cases h
      rfl
  | hrefused a hnext =>
      rw [split_refused hnext] at h
      cases h
  | hitem a x rest hnext ih =>
      rw [split_item hnext] at h ⊢
      rw [split_item (S.stable b hnext), ih h]
      rfl

/-- What a stream is refused for stays. -/
theorem split_append_refused (h : (S.split a).2 = none) (b : List α) :
    S.split (a ++ b) = S.split a := by
  induction a using S.split_induction with
  | hmore a hnext =>
      rw [split_none hnext] at h
      cases h
  | hrefused a hnext => rw [split_refused hnext, split_refused (S.refused b hnext)]
  | hitem a x rest hnext ih =>
      rw [split_item hnext] at h ⊢
      rw [split_item (S.stable b hnext), ih h]

end Splitter

end IrcBot.Lib
