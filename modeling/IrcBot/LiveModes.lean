/-
# The live modes (`chanlive.rs`)

The modes a channel has are kept as one bit for each letter, with the key and the limit next
to them. What setting one letter does to the others:

* `liveHas_setLive` — a letter is set or cleared, the others stay.
* `applyLetter_flag`, `applyLetter_key`, `applyLetter_unkey`, `applyLetter_limit`,
  `applyLetter_unlimit` — what the letters of a MODE line do to the live modes.
-/
import IrcBot.Chanlive

namespace IrcBot.LiveModes

open Cstr Chanlive

/-! ### The bits -/

/-- The place of a letter's bit. -/
def liveIdx (p : UInt8) : Nat := if 97 ≤ p ∧ p ≤ 122 then p.toNat - 97 else 26 + (p.toNat - 65)

theorem liveBit_eq {p : UInt8} (hp : isAlpha p = true) :
    (liveBit p).toBitVec = BitVec.twoPow 64 (liveIdx p) := by
  have hall : ∀ n : Fin 256, isAlpha (UInt8.ofFin n) = true →
      (liveBit (UInt8.ofFin n)).toBitVec = BitVec.twoPow 64 (liveIdx (UInt8.ofFin n)) := by
    decide +kernel
  exact hall p.toFin hp

theorem liveIdx_lt {p : UInt8} (hp : isAlpha p = true) : liveIdx p < 64 := by
  have hall : ∀ n : Fin 256, isAlpha (UInt8.ofFin n) = true → liveIdx (UInt8.ofFin n) < 64 := by
    decide +kernel
  exact hall p.toFin hp

theorem liveIdx_inj {p q : UInt8} (hp : isAlpha p = true) (hq : isAlpha q = true)
    (h : liveIdx p = liveIdx q) : p = q := by
  unfold liveIdx at h
  unfold isAlpha at hp hq
  simp only [Bool.or_eq_true, Bool.and_eq_true, decide_eq_true_eq, UInt8.le_iff_toNat_le] at hp hq h
  apply UInt8.toNat_inj.mp
  simp only [UInt8.reduceToNat] at hp hq h
  split at h <;> split at h <;> omega

/-- A letter is on when its bit is. -/
theorem liveHas_eq (c : Chan) {p : UInt8} (hp : isAlpha p = true) :
    liveHas c p = c.liveFlags.toBitVec.getLsbD (liveIdx p) := by
  have hne (x : UInt64) : (x != 0) = (x.toBitVec != 0#64) := by
    rw [Bool.eq_iff_iff, bne_iff_ne, bne_iff_ne, ne_eq, ne_eq, not_iff_not, ← UInt64.toBitVec_inj]
    rfl
  have hpow : BitVec.twoPow 64 (liveIdx p) ≠ 0#64 := by
    intro h
    have hbit := congrArg (·.getLsbD (liveIdx p)) h
    simp [liveIdx_lt hp] at hbit
  unfold liveHas
  rw [hne, hne, UInt64.toBitVec_and, liveBit_eq hp, BitVec.and_twoPow]
  cases c.liveFlags.toBitVec.getLsbD (liveIdx p) <;> simp [hpow]

/-- **One letter is set or cleared, the others stay.** -/
theorem liveHas_setLive (c : Chan) {p q : UInt8} (hp : isAlpha p = true) (hq : isAlpha q = true)
    (adding : Bool) :
    liveHas (setLive c p adding) q = if q = p then adding else liveHas c q := by
  rw [liveHas_eq _ hq, liveHas_eq _ hq]
  have hplace : (BitVec.twoPow 64 (liveIdx p)).getLsbD (liveIdx q) = decide (q = p) := by
    rw [BitVec.getLsbD_twoPow]
    by_cases h : q = p
    · simp [h, liveIdx_lt hp]
    · have hidx : liveIdx p ≠ liveIdx q := fun heq => h (liveIdx_inj hq hp heq.symm)
      simp [h, hidx]
  unfold setLive
  cases adding with
  | true =>
      simp only [↓reduceIte, UInt64.toBitVec_or, liveBit_eq hp, BitVec.getLsbD_or, hplace]
      by_cases h : q = p <;> simp [h]
  | false =>
      simp only [Bool.false_eq_true, ↓reduceIte, UInt64.toBitVec_and, UInt64.toBitVec_not,
        liveBit_eq hp, BitVec.getLsbD_and, BitVec.getLsbD_not, hplace]
      by_cases h : q = p <;> simp [h, liveIdx_lt hq]

/-! ### The letters -/

section

variable (is : Isupport) (now : Int) (from324 : Bool) (c : Chan)

theorem applyLetter_flag {adding : Bool} {m : UInt8} (halpha : isAlpha m = true)
    (hb : m ≠ byte 'b') (hk : m ≠ byte 'k') (hl : m ≠ byte 'l')
    (hflag : is.modeHasArg m adding = false) (a : Option Str) :
    applyLetter is now from324 c adding m a = setLive c m adding := by
  have hpre : is.isPrefixMode m = false := by
    rw [← Bool.not_eq_true]
    intro h
    unfold Isupport.modeHasArg at hflag
    rw [if_pos h] at hflag
    cases hflag
  unfold applyLetter
  rw [if_neg hb, if_neg hk, if_neg hl, hpre, if_neg Bool.false_ne_true, hflag, halpha]
  rfl

theorem applyLetter_key (a : Str) :
    applyLetter is now from324 c true (byte 'k') (some a) =
      { setLive c (byte 'k') true with liveKey := trunc a maxKey } := rfl

theorem applyLetter_unkey (a : Option Str) :
    applyLetter is now from324 c false (byte 'k') a =
      { setLive c (byte 'k') false with liveKey := [] } := rfl

theorem applyLetter_limit {a : Str} (ha : allDigits a = true) :
    applyLetter is now from324 c true (byte 'l') (some a) =
      { setLive c (byte 'l') true with liveLimit := atoll a } := by
  unfold applyLetter
  rw [if_neg (by decide), if_neg (by decide), if_pos rfl, if_pos rfl, Option.filter_some, if_pos ha]

theorem applyLetter_unlimit (a : Option Str) :
    applyLetter is now from324 c false (byte 'l') a =
      { setLive c (byte 'l') false with liveLimit := 0 } := rfl

end

end IrcBot.LiveModes
