/-
# Token buckets

A bucket is refilled with the time that passes, up to `burst` times `interval`, and a
token costs `interval`.

* `Run.credit` — the credit never leaves its bounds.
* `Run.cost_le` — in any window of time, the tokens cost at most a full bucket and the time
  that passed.
-/
import Mathlib.Algebra.Order.Ring.Int
import Mathlib.Data.List.Basic
import Mathlib.Tactic.Linarith

namespace IrcBot.Lib.TokenBucket

structure Bucket where
  burst : Int
  interval : Int
  credit : Int
  /-- When it was refilled. -/
  last : Int
deriving DecidableEq, Repr

namespace Bucket

def cap (b : Bucket) : Int := b.burst * b.interval

def refill (b : Bucket) (now : Int) : Bucket :=
  { b with credit := min b.cap (b.credit + max 0 (now - b.last)), last := now }

def take (b : Bucket) : Bucket := { b with credit := b.credit - b.interval }

end Bucket

/-- The tokens of a window. -/
def inWindow (t₁ t₂ : Int) (taken : List Int) : Nat := taken.countP fun t => t₁ ≤ t && t ≤ t₂

/-- Runs from `b₀`: refills as time goes on, and tokens that the credit pays for. They are
listed with the time of the last refill. -/
inductive Run (b₀ : Bucket) : Bucket → List Int → Prop where
  | start : Run b₀ b₀ []
  | refill {b : Bucket} {taken : List Int} (h : Run b₀ b taken) (now : Int) (hnow : b.last ≤ now) :
      Run b₀ (b.refill now) taken
  | take {b : Bucket} {taken : List Int} (h : Run b₀ b taken) (hpaid : b.interval ≤ b.credit) :
      Run b₀ b.take (taken ++ [b.last])

section

variable {b₀ b : Bucket} {taken : List Int}

/-- The credit is within its bounds. -/
structure Bucket.Ok (b : Bucket) : Prop where
  interval_nonneg : 0 ≤ b.interval
  credit_nonneg : 0 ≤ b.credit
  credit_le : b.credit ≤ b.cap

theorem Run.limits (h : Run b₀ b taken) : b.burst = b₀.burst ∧ b.interval = b₀.interval := by
  induction h with
  | start => exact ⟨rfl, rfl⟩
  | refill _ _ _ ih => exact ih
  | take _ _ ih => exact ih

/-- **The credit stays within its bounds.** -/
theorem Run.credit (h : Run b₀ b taken) (hok : b₀.Ok) : b.Ok := by
  induction h with
  | start => exact hok
  | @refill b taken _ now _ ih =>
      obtain ⟨hint, hcredit, hle⟩ := ih
      refine ⟨hint, ?_, min_le_left _ _⟩
      exact le_min (le_trans hcredit hle) (add_nonneg hcredit (le_max_left _ _))
  | take _ hpaid ih =>
      obtain ⟨hint, _, hle⟩ := ih
      refine ⟨hint, sub_nonneg.mpr hpaid, ?_⟩
      exact le_trans (sub_le_self _ hint) hle

/-- Nothing was taken after the last refill. -/
theorem Run.le_last (h : Run b₀ b taken) : ∀ t ∈ taken, t ≤ b.last := by
  induction h with
  | start => simp
  | refill _ _ hnow ih => exact fun t ht => le_trans (ih t ht) hnow
  | take _ _ ih =>
      intro t ht
      rcases List.mem_append.mp ht with ht | ht
      · exact ih t ht
      · exact le_of_eq (List.mem_singleton.mp ht)

theorem inWindow_append (t₁ t₂ : Int) (xs ys : List Int) :
    inWindow t₁ t₂ (xs ++ ys) = inWindow t₁ t₂ xs + inWindow t₁ t₂ ys := List.countP_append

theorem inWindow_single (t₁ t₂ t : Int) :
    inWindow t₁ t₂ [t] = if t₁ ≤ t ∧ t ≤ t₂ then 1 else 0 := by
  simp [inWindow, List.countP_cons]

theorem inWindow_of_lt {t₁ t₂ t : Int} {xs : List Int} (h : ∀ x ∈ xs, x ≤ t) (ht : t < t₁) :
    inWindow t₁ t₂ xs = 0 := by
  refine List.countP_eq_zero.mpr fun x hx => ?_
  simp only [Bool.and_eq_true, decide_eq_true_eq, not_and]
  intro hle
  have := h x hx
  omega

/-- What was taken up to now, with what is left, is at most a full bucket and the time that
passed. -/
theorem Run.cost_now (h : Run b₀ b taken) (hok : b₀.Ok) :
    ∀ t₁ t₂, t₁ ≤ b.last → b.last ≤ t₂ →
      b.interval * inWindow t₁ t₂ taken + b.credit ≤ b.cap + (b.last - t₁) := by
  induction h with
  | start =>
      intro t₁ t₂ h₁ _
      have := hok.credit_le
      simp only [inWindow, List.countP_nil, Nat.cast_zero, mul_zero, zero_add]
      linarith
  | @refill b taken h now hnow ih =>
      intro t₁ t₂ h₁ h₂
      have hcredit : (b.refill now).credit ≤ b.cap := min_le_left _ _
      have hgain : (b.refill now).credit ≤ b.credit + (now - b.last) :=
        le_trans (min_le_right _ _) (by rw [max_eq_right (sub_nonneg.mpr hnow)])
      rcases le_or_gt t₁ b.last with hle | hgt
      · have := ih t₁ t₂ hle (le_trans hnow h₂)
        simp only [Bucket.refill, Bucket.cap] at *
        linarith
      · rw [inWindow_of_lt h.le_last hgt]
        simp only [Bucket.refill, Bucket.cap, Nat.cast_zero, mul_zero, zero_add] at *
        linarith
  | @take b taken h hpaid ih =>
      intro t₁ t₂ h₁ h₂
      have := ih t₁ t₂ h₁ h₂
      have hone : inWindow t₁ t₂ [b.last] = 1 := by
        rw [inWindow_single, if_pos ⟨h₁, h₂⟩]
      rw [inWindow_append, hone]
      simp only [Bucket.take, Bucket.cap, Nat.cast_add, Nat.cast_one, mul_add, mul_one] at *
      linarith

/-- **In any window, the tokens cost at most a full bucket and the time that passed.** -/
theorem Run.cost_le (h : Run b₀ b taken) (hok : b₀.Ok) {t₁ t₂ : Int} (ht : t₁ ≤ t₂) :
    b.interval * inWindow t₁ t₂ taken ≤ b.cap + (t₂ - t₁) := by
  have hcap (x : Bucket) (hx : x.Ok) : 0 ≤ x.cap := le_trans hx.credit_nonneg hx.credit_le
  induction h with
  | start =>
      have := hcap b₀ hok
      simp only [inWindow, List.countP_nil, Nat.cast_zero, mul_zero]
      linarith
  | refill _ _ _ ih => exact ih
  | @take b taken h hpaid ih =>
      rw [inWindow_append]
      rcases lt_or_ge t₂ b.last with hlt | hge
      · rw [inWindow_single, if_neg fun hin => absurd hin.2 (not_le.mpr hlt), Nat.add_zero]
        exact ih
      · rcases lt_or_ge b.last t₁ with hlt | hge₁
        · rw [inWindow_single, if_neg fun hin => absurd hin.1 (not_le.mpr hlt), Nat.add_zero]
          exact ih
        · have hnow := (h.take hpaid).cost_now hok t₁ t₂ hge₁ hge
          have hleft := ((h.take hpaid).credit hok).credit_nonneg
          rw [inWindow_append] at hnow
          simp only [Bucket.take, Bucket.cap] at *
          linarith

end

end IrcBot.Lib.TokenBucket
