/-
# Queues in lanes

A bounded queue with several lanes, each first-in first-out. A `Policy` says when there is
room, which lane gives up its oldest entry for a new one, and when the new one is refused;
`Steps` are the histories it allows.

* `Steps.fifo` — the entries of a lane leave it in the order in which they came.
* `Steps.split` — what happened was allowed where it happened.
-/
import Mathlib.Logic.Function.Basic
import Mathlib.Tactic.Common

namespace IrcBot.Lib.Lanes

variable {ι α : Type} [DecidableEq ι]

/-- What can happen to an entry. -/
inductive Event (ι α : Type) where
  | queued (lane : ι) (x : α)
  /-- It gave way to a newer one. -/
  | evicted (lane : ι) (x : α)
  | taken (lane : ι) (x : α)
  | refused (lane : ι) (x : α)
  /-- It was in the lane already. -/
  | duplicate (lane : ι) (x : α)

structure Policy (ι α : Type) where
  room : (ι → List α) → Prop
  evicts : (ι → List α) → ι → Prop
  refuses : (ι → List α) → ι → Prop

inductive Step (p : Policy ι α) (q : ι → List α) : Event ι α → (ι → List α) → Prop where
  | queued {lane : ι} {x : α} (hroom : p.room q) :
      Step p q (.queued lane x) (Function.update q lane (q lane ++ [x]))
  | evicted {lane : ι} {x : α} {xs : List α} (hevicts : p.evicts q lane) (hq : q lane = x :: xs) :
      Step p q (.evicted lane x) (Function.update q lane xs)
  | taken {lane : ι} {x : α} {xs : List α} (hq : q lane = x :: xs) :
      Step p q (.taken lane x) (Function.update q lane xs)
  | refused {lane : ι} {x : α} (hrefuses : p.refuses q lane) : Step p q (.refused lane x) q
  | duplicate {lane : ι} {x : α} (hq : x ∈ q lane) : Step p q (.duplicate lane x) q

/-- Histories, oldest event first. -/
inductive Steps (p : Policy ι α) : (ι → List α) → List (Event ι α) → (ι → List α) → Prop where
  | refl (q : ι → List α) : Steps p q [] q
  | step {q q' q'' : ι → List α} {e : Event ι α} {es : List (Event ι α)} (h : Step p q e q')
      (hs : Steps p q' es q'') : Steps p q (e :: es) q''

/-- The entry that an event puts into a lane. -/
def Event.put (lane : ι) : Event ι α → Option α
  | .queued l x => if l = lane then some x else none
  | _ => none

/-- The entry that an event takes out of a lane. -/
def Event.out (lane : ι) : Event ι α → Option α
  | .evicted l x => if l = lane then some x else none
  | .taken l x => if l = lane then some x else none
  | _ => none

/-- What came into a lane, and what left it, oldest first. -/
def arrived (es : List (Event ι α)) (lane : ι) : List α := es.filterMap (Event.put lane)
def left (es : List (Event ι α)) (lane : ι) : List α := es.filterMap (Event.out lane)

section

variable {p : Policy ι α} {q q' q'' : ι → List α} {e : Event ι α} {es es' : List (Event ι α)}

theorem Step.one (h : Step p q e q') : Steps p q [e] q' := .step h (.refl q')

theorem Steps.trans (h : Steps p q es q') (h' : Steps p q' es' q'') :
    Steps p q (es ++ es') q'' := by
  induction h with
  | refl q => exact h'
  | step hstep _ ih => exact .step hstep (ih h')

theorem Step.fifo (h : Step p q e q') (lane : ι) :
    q lane ++ (e.put lane).toList = (e.out lane).toList ++ q' lane := by
  cases h with
  | @queued l x _ =>
      by_cases hl : l = lane
      · subst hl
        simp [Event.put, Event.out]
      · simp [Event.put, Event.out, hl, Function.update_of_ne (Ne.symm hl)]
  | @evicted l x xs _ hq =>
      by_cases hl : l = lane
      · subst hl
        simp [Event.put, Event.out, hq]
      · simp [Event.put, Event.out, hl, Function.update_of_ne (Ne.symm hl)]
  | @taken l x xs hq =>
      by_cases hl : l = lane
      · subst hl
        simp [Event.put, Event.out, hq]
      · simp [Event.put, Event.out, hl, Function.update_of_ne (Ne.symm hl)]
  | refused _ => simp [Event.put, Event.out]
  | duplicate _ => simp [Event.put, Event.out]

/-- **Each lane is first-in first-out.** -/
theorem Steps.fifo (h : Steps p q es q') (lane : ι) :
    q lane ++ arrived es lane = left es lane ++ q' lane := by
  induction h with
  | refl q => simp [arrived, left]
  | @step q q₁ q₂ e es hstep _ ih =>
      have hone := hstep.fifo lane
      have hput : arrived (e :: es) lane = (e.put lane).toList ++ arrived es lane := by
        unfold arrived
        cases he : e.put lane <;> simp [he]
      have hout : left (e :: es) lane = (e.out lane).toList ++ left es lane := by
        unfold left
        cases he : e.out lane <;> simp [he]
      rw [hput, hout, ← List.append_assoc, hone, List.append_assoc, ih, List.append_assoc]

/-- A history, cut at one of its events. -/
theorem Steps.split (es₁ : List (Event ι α)) : ∀ {q q' : ι → List α} {es₂ : List (Event ι α)},
    Steps p q (es₁ ++ e :: es₂) q' → ∃ q₁ q₂, Steps p q es₁ q₁ ∧ Step p q₁ e q₂ ∧
      Steps p q₂ es₂ q' := by
  induction es₁ with
  | nil =>
      intro q q' es₂ h
      cases h with
      | step hstep hs => exact ⟨q, _, .refl q, hstep, hs⟩
  | cons e' es₁ ih =>
      intro q q' es₂ h
      cases h with
      | step hstep hs =>
          obtain ⟨q₁, q₂, hs₁, hmid, hs₂⟩ := ih hs
          exact ⟨q₁, q₂, .step hstep hs₁, hmid, hs₂⟩

/-- What holds of the entries that come holds of those in the lanes. -/
theorem Steps.forall_mem {P : α → Prop} (h : Steps p q es q')
    (hes : ∀ lane x, .queued lane x ∈ es → P x) (hq : ∀ lane, ∀ x ∈ q lane, P x) :
    ∀ lane, ∀ x ∈ q' lane, P x := by
  intro lane x hx
  have hmem : x ∈ q lane ++ arrived es lane := by
    rw [h.fifo lane]
    exact List.mem_append_right _ hx
  rcases List.mem_append.mp hmem with hmem | hmem
  · exact hq lane x hmem
  · obtain ⟨e, he, hput⟩ := List.mem_filterMap.mp hmem
    cases e with
    | queued l y =>
        simp only [Event.put, Option.ite_none_right_eq_some, Option.some.injEq] at hput
        obtain ⟨rfl, rfl⟩ := hput
        exact hes l y he
    | evicted _ _ => cases hput
    | taken _ _ => cases hput
    | refused _ _ => cases hput
    | duplicate _ _ => cases hput

/-- Taking the first `n` entries of a lane. -/
theorem steps_take (p : Policy ι α) (lane : ι) (n : Nat) : ∀ q : ι → List α,
    Steps p q (((q lane).take n).map (.taken lane)) (Function.update q lane ((q lane).drop n)) := by
  induction n with
  | zero =>
      intro q
      simpa using Steps.refl q
  | succ n ih =>
      intro q
      cases hq : q lane with
      | nil =>
          have hsame : Function.update q lane [] = q := by rw [← hq, Function.update_eq_self]
          rw [List.take_nil, List.drop_nil, List.map_nil, hsame]
          exact .refl q
      | cons x xs =>
          have hrest := ih (Function.update q lane xs)
          rw [Function.update_self, Function.update_idem] at hrest
          exact .step (.taken hq) hrest

end

end IrcBot.Lib.Lanes
