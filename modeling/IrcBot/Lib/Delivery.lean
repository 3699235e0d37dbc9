/-
# What arrives of a numbered stream

A stream is sent as items numbered from zero. The channel may lose items, or bring some again; it
does not swap any two that arrive for the first time.

* `InOrder.foldl_eq` — a reader that passes over what it has had before ends where one would end
  that had each item once.
* `afterLoss_of_all` — where no piece is lost, nothing is left out.
-/
import Mathlib.Data.List.Basic
import Mathlib.Tactic.Common

namespace IrcBot.Lib.Delivery

variable {α σ : Type*}

/-! ### Repeats -/

/-- Numbers as they arrive, once all before `n` have: each is the next, or was there before. In the
end all `total` have arrived. -/
inductive InOrder (total : Nat) : Nat → List Nat → Prop
  | done : InOrder total total []
  | next {n : Nat} {rest : List Nat} (hn : n < total) (h : InOrder total (n + 1) rest) :
      InOrder total n (n :: rest)
  | again {n k : Nat} {rest : List Nat} (hk : k < n) (h : InOrder total n rest) :
      InOrder total n (k :: rest)

theorem InOrder.le {total n : Nat} {order : List Nat} (h : InOrder total n order) : n ≤ total := by
  induction h with
  | done => exact Nat.le_refl _
  | next hn _ _ => exact Nat.le_of_lt hn
  | again _ _ ih => exact ih

/-- A reader that stands at `state n` once it has had the items before `n`, and stays there when one
of them comes again, ends where it has had them all. -/
theorem InOrder.foldl_eq {step : σ → Nat → σ} {state : Nat → σ} {total : Nat}
    (hnext : ∀ n < total, step (state n) n = state (n + 1))
    (hagain : ∀ n ≤ total, ∀ k < n, step (state n) k = state n) {n : Nat} {order : List Nat}
    (h : InOrder total n order) : order.foldl step (state n) = state total := by
  induction h with
  | done => rfl
  | next hn _ ih => rw [List.foldl_cons, hnext _ hn, ih]
  | again hk h ih => rw [List.foldl_cons, hagain _ h.le _ hk, ih]

/-! ### Losses -/

variable (arrives : Nat → Bool)

/-- The items that arrive, of those from `n` on. -/
def kept (n : Nat) : List α → List α
  | [] => []
  | x :: xs => if arrives n then x :: kept (n + 1) xs else kept (n + 1) xs

theorem kept_of_all (n : Nat) (xs : List α) : kept (fun _ => true) n xs = xs := by
  induction xs generalizing n with
  | nil => rfl
  | cons x xs ih => rw [kept, if_pos rfl, ih]

theorem mem_of_mem_kept {n : Nat} {xs : List α} {x : α} (h : x ∈ kept arrives n xs) : x ∈ xs := by
  induction xs generalizing n with
  | nil => exact h
  | cons y xs ih =>
      rw [kept] at h
      split at h
      · rcases List.mem_cons.mp h with rfl | h
        · exact List.mem_cons_self
        · exact List.mem_cons_of_mem y (ih h)
      · exact List.mem_cons_of_mem y (ih h)

/-- What is left of the pieces from `n` on, after the last that is lost; `t` is what was left
before them. -/
def afterLoss (n : Nat) (t : List α) : List (List α) → List α
  | [] => t
  | p :: ps => afterLoss (n + 1) (if arrives n then t ++ p else []) ps

/-- Where no piece is lost, nothing is left out. -/
theorem afterLoss_of_all {n : Nat} {t : List α} {ps : List (List α)}
    (h : ∀ i < ps.length, arrives (n + i) = true) : afterLoss arrives n t ps = t ++ ps.flatten := by
  induction ps generalizing n t with
  | nil => simp [afterLoss]
  | cons p ps ih =>
      have hfirst : arrives n = true := h 0 (by simp)
      rw [afterLoss, hfirst, if_pos rfl, ih, List.flatten_cons, List.append_assoc]
      intro i hi
      rw [show n + 1 + i = n + (i + 1) by omega]
      exact h (i + 1) (by simpa using hi)

end IrcBot.Lib.Delivery
