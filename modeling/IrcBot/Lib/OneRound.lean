/-
# A reconciler that converges in one round

A reconciler looks at a state part by part and plans the commands that bring each part to
where it is wanted. `Settles` says what makes one round enough: carrying out the plan of a
part leaves nothing planned for it, and leaves the plans of the other parts as they are.

* `Settles.apart_plans` — the plans of other parts leave the plan of a part alone.
* `Settles.oneRound` — after all plans, made from one look at the state, nothing is planned.
-/
import Mathlib.Data.List.Nodup
import Mathlib.Data.Set.Defs

namespace IrcBot.Lib.OneRound

variable {ι σ κ : Type} {exec : σ → κ → σ} {plan : ι → σ → List κ} {ok : σ → Prop} {parts : Set ι}

/-- The plans of the parts do their work and stay apart, in states that are `ok`. -/
structure Settles (exec : σ → κ → σ) (plan : ι → σ → List κ) (ok : σ → Prop) (parts : Set ι) :
    Prop where
  keeps : ∀ i ∈ parts, ∀ s, ok s → ok ((plan i s).foldl exec s)
  done : ∀ i ∈ parts, ∀ s, ok s → plan i ((plan i s).foldl exec s) = []
  apart : ∀ i ∈ parts, ∀ j ∈ parts, i ≠ j → ∀ s, ok s →
    plan j ((plan i s).foldl exec s) = plan j s

/-- The plans of `is`, made from one look at the state. -/
def plans (plan : ι → σ → List κ) (is : List ι) (s : σ) : List κ := is.flatMap (plan · s)

/-- The plan of another part may be carried out first. -/
theorem Settles.plans_after (h : Settles exec plan ok parts) {i : ι} {is : List ι} (hi : i ∉ is)
    (hpart : i ∈ parts) (hparts : ∀ j ∈ is, j ∈ parts) {s : σ} (hs : ok s) :
    plans plan is ((plan i s).foldl exec s) = plans plan is s := by
  unfold plans
  refine List.flatMap_congr fun j hj => h.apart i hpart j (hparts j hj) ?_ s hs
  rintro rfl
  exact hi hj

theorem Settles.foldl_plans_cons (h : Settles exec plan ok parts) {i : ι} {is : List ι}
    (hi : i ∉ is) (hpart : i ∈ parts) (hparts : ∀ j ∈ is, j ∈ parts) {s : σ} (hs : ok s) :
    (plans plan (i :: is) s).foldl exec s =
      (plans plan is ((plan i s).foldl exec s)).foldl exec ((plan i s).foldl exec s) := by
  rw [h.plans_after hi hpart hparts hs, plans, List.flatMap_cons, List.foldl_append]
  rfl

/-- The plans of other parts leave the plan of a part alone. -/
theorem Settles.apart_plans (h : Settles exec plan ok parts) {i : ι} (hpart : i ∈ parts)
    (is : List ι) (hnd : is.Nodup) (hparts : ∀ j ∈ is, j ∈ parts) (hi : i ∉ is) :
    ∀ s, ok s → plan i ((plans plan is s).foldl exec s) = plan i s := by
  induction is with
  | nil => exact fun s _ => rfl
  | cons j is ih =>
      intro s hs
      rw [List.nodup_cons] at hnd
      rw [List.mem_cons, not_or] at hi
      have hj := hparts j List.mem_cons_self
      have hrest := fun k hk => hparts k (List.mem_cons_of_mem j hk)
      rw [h.foldl_plans_cons hnd.1 hj hrest hs, ih hnd.2 hrest hi.2 _ (h.keeps j hj s hs)]
      exact h.apart j hj i hpart (Ne.symm hi.1) s hs

theorem Settles.keeps_plans (h : Settles exec plan ok parts) (is : List ι) (hnd : is.Nodup)
    (hparts : ∀ j ∈ is, j ∈ parts) : ∀ s, ok s → ok ((plans plan is s).foldl exec s) := by
  induction is with
  | nil => exact fun s hs => hs
  | cons i is ih =>
      intro s hs
      rw [List.nodup_cons] at hnd
      have hi := hparts i List.mem_cons_self
      have hothers := fun k hk => hparts k (List.mem_cons_of_mem i hk)
      rw [h.foldl_plans_cons hnd.1 hi hothers hs]
      exact ih hnd.2 hothers _ (h.keeps i hi s hs)

/-- **One round is enough.** -/
theorem Settles.oneRound (h : Settles exec plan ok parts) (is : List ι) (hnd : is.Nodup)
    (hparts : ∀ j ∈ is, j ∈ parts) :
    ∀ s, ok s → plans plan is ((plans plan is s).foldl exec s) = [] := by
  induction is with
  | nil => exact fun s _ => rfl
  | cons i is ih =>
      intro s hs
      rw [List.nodup_cons] at hnd
      have hi := hparts i List.mem_cons_self
      have hothers := fun k hk => hparts k (List.mem_cons_of_mem i hk)
      have hok := h.keeps i hi s hs
      have hrest := ih hnd.2 hothers _ hok
      have hfirst := h.apart_plans hi is hnd.2 hothers hnd.1 _ hok
      rw [h.foldl_plans_cons hnd.1 hi hothers hs]
      rw [h.done i hi s hs] at hfirst
      unfold plans at hfirst hrest ⊢
      rw [List.flatMap_cons, hfirst, hrest, List.nil_append]

end IrcBot.Lib.OneRound
