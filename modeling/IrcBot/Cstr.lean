/-
# C string helpers (`cstr.rs`)

Strings are the byte lists the protocol code works on: `Str` is a Rust `str`
seen through `as_bytes`. The helpers here cut, tokenise and scan such strings
by the rules of `snprintf`, `strtok_r`, `strtoll` and `sscanf`, as the bot's
peers do.

* `trunc_of_lt`, `trunc_isPrefix`, `length_trunc_le` — what a bounded copy keeps.
* `eqIc_iff` — `strcasecmp` compares lower-cased strings, so it is an
  equivalence.
* `strtoll_dec` — `strtoll` reads back every number that `%lld` prints.
* `setNot_append` — an `sscanf` field that runs up to a delimiter reads all of it.
* `notMem_of_mem_sscanf` — and nothing that is read holds a delimiter.
-/
import Mathlib.Data.List.Basic
import Mathlib.Data.List.TakeWhile
import Mathlib.Tactic.Common

namespace IrcBot

/-- A string, as bytes. -/
abbrev Str := List UInt8

/-- The byte of an ASCII character. -/
abbrev byte (c : Char) : UInt8 := c.toUInt8

/-- An ASCII string literal. -/
def str (s : String) : Str := s.toList.map byte

namespace Cstr

/-- What a run over a string finds of every byte of it. -/
theorem forall_of_all {p : UInt8 → Prop} [DecidablePred p] {s : Str}
    (h : (s.all fun c => decide (p c)) = true) : ∀ c ∈ s, p c := by
  simpa using h

/-! ### ASCII case -/

/-- `to_ascii_lowercase` of one byte. -/
def lower (b : UInt8) : UInt8 := if 65 ≤ b ∧ b ≤ 90 then b + 32 else b

@[simp] theorem lower_lower (b : UInt8) : lower (lower b) = lower b := by
  unfold lower
  grind

/-- `eq_ignore_ascii_case`. -/
def eqIc (a b : Str) : Bool := a.map lower == b.map lower

/-- `starts_with_ic`. -/
def startsWithIc (s pre : Str) : Bool := pre.length ≤ s.length && eqIc (s.take pre.length) pre

@[simp] theorem eqIc_iff {a b : Str} : eqIc a b = true ↔ a.map lower = b.map lower := by
  simp [eqIc]

theorem eqIc_refl (a : Str) : eqIc a a = true := by simp

/-- Only the letters have a case. -/
theorem eq_of_lower {c d : UInt8} (hd : ¬ (97 ≤ d ∧ d ≤ 122)) (h : lower c = d) : c = d := by
  unfold lower at h
  split at h
  · rename_i hc
    obtain ⟨hc₁, hc₂⟩ := hc
    rw [UInt8.le_iff_toNat_le] at hc₁ hc₂
    refine absurd ?_ hd
    rw [← h, UInt8.le_iff_toNat_le, UInt8.le_iff_toNat_le, UInt8.toNat_add]
    simp only [UInt8.reduceToNat] at *
    omega
  · exact h

/-! ### Bounded copies -/

/-- `is_char_boundary(n)`: not in front of a UTF-8 continuation byte. -/
def isCharBoundary (s : Str) (n : Nat) : Bool :=
  match s[n]? with
  | some b => b < 128 || 192 ≤ b
  | none => true

/-- The last character boundary at or before `n`. -/
def cutBack (s : Str) : Nat → Nat
  | 0 => 0
  | n + 1 => if isCharBoundary s (n + 1) then n + 1 else cutBack s n

/-- What `snprintf` leaves in a `char[cap]`. -/
def trunc (s : Str) (cap : Nat) : Str :=
  let max := cap - 1
  if s.length ≤ max then s else s.take (cutBack s max)

/-- The part of `s` before its first NUL. -/
def untilNul (s : Str) : Str := s.takeWhile (· ≠ 0)

theorem cutBack_le (s : Str) (n : Nat) : cutBack s n ≤ n := by
  induction n with
  | zero => rfl
  | succ n ih =>
      unfold cutBack
      split
      · exact le_rfl
      · exact ih.trans (Nat.le_succ n)

/-- A cut that falls on a boundary stays where it is. -/
theorem cutBack_of_boundary {s : Str} {n : Nat} (h : isCharBoundary s n = true) :
    cutBack s n = n := by
  cases n with
  | zero => rfl
  | succ n => simp [cutBack, h]

/-- A string that fits its buffer is copied whole. -/
theorem trunc_of_lt {s : Str} {cap : Nat} (h : s.length < cap) : trunc s cap = s := by
  unfold trunc
  rw [if_pos (by omega)]

theorem trunc_isPrefix (s : Str) (cap : Nat) : trunc s cap <+: s := by
  unfold trunc
  dsimp only
  split
  · exact List.prefix_rfl
  · exact List.take_prefix _ _

/-- A bounded copy leaves room for the final NUL. -/
theorem length_trunc_le (s : Str) (cap : Nat) : (trunc s cap).length ≤ cap - 1 := by
  unfold trunc
  dsimp only
  split
  · assumption
  · rw [List.length_take]
    exact (Nat.min_le_left _ _).trans (cutBack_le s _)

theorem untilNul_eq_self {s : Str} (h : (0 : UInt8) ∉ s) : untilNul s = s :=
  List.takeWhile_eq_self_iff.mpr fun b hb => by
    have hne : b ≠ 0 := by
      rintro rfl
      exact h hb
    simpa using hne

/-! ### Numbers -/

def i64Min : Int := -9223372036854775808
def i64Max : Int := 9223372036854775807

/-- The result of a checked `i64` operation. -/
def checkedI64 (x : Int) : Option Int := if i64Min ≤ x ∧ x ≤ i64Max then some x else none

/-- `as i32`. -/
def toI32 (x : Int) : Int := (x + 2147483648) % 4294967296 - 2147483648

def isCSpace (b : UInt8) : Bool := b == 32 || (9 ≤ b && b ≤ 13)

def isDigit (b : UInt8) : Bool := 48 ≤ b && b ≤ 57

/-- The value after one more digit; `none` once it has overflowed. -/
def digitStep (neg : Bool) (v : Option Int) (b : UInt8) : Option Int :=
  let d : Int := (b - 48).toNat
  v.bind fun v => (checkedI64 (v * 10)).bind fun x => checkedI64 (if neg then x - d else x + d)

/-- `strtoll(s, &end, 10)`: the value, saturated, and how many bytes it took
(none where no digit was found). -/
def strtoll (s : Str) : Int × Nat :=
  let ws := s.takeWhile isCSpace
  let b := s.dropWhile isCSpace
  let neg := b.head? = some (byte '-')
  let sign := if b.head? = some (byte '+') ∨ b.head? = some (byte '-') then 1 else 0
  let digits := (b.drop sign).takeWhile isDigit
  if digits = [] then (0, 0)
  else
    let v := (digits.foldl (digitStep neg) (some 0)).getD (if neg then i64Min else i64Max)
    (v, ws.length + sign + digits.length)

/-- `atoll(s)`. -/
def atoll (s : Str) : Int := (strtoll s).1

/-- `atoi(s)`. -/
def atoi (s : Str) : Int := toI32 (atoll s)

/-- The digits of a number, as `format!` prints them. -/
def decNat (n : Nat) : Str := (Nat.toDigits 10 n).map byte

/-- An integer, as `format!` prints it. -/
def dec (i : Int) : Str := if i < 0 then byte '-' :: decNat i.natAbs else decNat i.natAbs

/-! ### `strtok_r` -/

/-- One `strtok_r` step: skip delimiters, then the next token and what the save
pointer is left at. With no delimiters the token is everything left. -/
def tokNext (delims : Str) (rest : Str) : Option Str × Str :=
  let s := rest.dropWhile (· ∈ delims)
  if s = [] then (none, [])
  else (some (s.takeWhile (· ∉ delims)), (s.dropWhile (· ∉ delims)).drop 1)

/-! ### `sscanf` -/

/-- `%N[^set]`: one to `max` bytes, none of them in `excl`. -/
def setNot (max : Nat) (excl : Str) (r : Str) : Option (Str × Str) :=
  let n := cutBack r ((r.take max).takeWhile (· ∉ excl)).length
  if n = 0 then none else some (r.take n, r.drop n)

/-- A literal in the format. -/
def lit (l : Str) (r : Str) : Option Str :=
  if l.isPrefixOf r then some (r.drop l.length) else none

/-- `%Ns`: skip white space, then one to `max` bytes that are not white space. -/
def word (max : Nat) (r : Str) : Option (Str × Str) :=
  let r := r.dropWhile isCSpace
  let n := cutBack r ((r.take max).takeWhile (!isCSpace ·)).length
  if n = 0 then none else some (r.take n, r.drop n)

/-- One `sscanf` directive. -/
inductive Fmt where
  | set (max : Nat) (excl : Str)
  | lit (l : Str)
  | int
  | word (max : Nat)
deriving DecidableEq, Repr

/-- One successful conversion. -/
inductive Conv where
  | s (v : Str)
  | i (v : Int)
deriving DecidableEq, Repr

/-- The string of a conversion, empty for a number. -/
def Conv.str : Conv → Str
  | .s v => v
  | .i _ => []

/-- The number of a conversion, 0 for a string. -/
def Conv.int : Conv → Int
  | .i v => v
  | .s _ => 0

/-- `sscanf`: the conversions made before the first failure, in order. -/
def sscanf (input : Str) : List Fmt → List Conv
  | [] => []
  | .set max excl :: fmt =>
      match setNot max excl input with
      | some (v, rest) => .s v :: sscanf rest fmt
      | none => []
  | .lit l :: fmt =>
      match lit l input with
      | some rest => sscanf rest fmt
      | none => []
  | .int :: fmt =>
      match strtoll input with
      | (_, 0) => []
      | (v, used) => .i v :: sscanf (input.drop used) fmt
  | .word max :: fmt =>
      match word max input with
      | some (v, rest) => .s v :: sscanf rest fmt
      | none => []

attribute [grind =] sscanf

/-! ### Reading back a number -/

/-- The byte of one decimal digit. -/
def digitByte (d : Nat) : UInt8 := byte (Nat.digitChar d)

theorem isDigit_digitByte {d : Nat} (hd : d < 10) : isDigit (digitByte d) = true := by
  revert d
  decide

theorem toNat_digitByte {d : Nat} (hd : d < 10) : (digitByte d - 48).toNat = d := by
  revert d
  decide

/-- A number prints its leading digits, then its last one. -/
theorem decNat_eq (n : Nat) :
    decNat n = if n < 10 then [digitByte n] else decNat (n / 10) ++ [digitByte (n % 10)] := by
  unfold decNat
  rw [Nat.toDigits_eq_if (by decide)]
  split
  · rfl
  · rw [List.map_append]
    rfl

theorem decNat_ne_nil (n : Nat) : decNat n ≠ [] := by
  rw [decNat, ne_eq, List.map_eq_nil_iff]
  exact Nat.toDigits_ne_nil

theorem isDigit_of_mem_decNat {n : Nat} {c : UInt8} (hc : c ∈ decNat n) : isDigit c = true := by
  induction n using Nat.strongRecOn with
  | ind n ih =>
      rw [decNat_eq] at hc
      split at hc
      · obtain rfl : c = digitByte n := by simpa using hc
        exact isDigit_digitByte ‹n < 10›
      · rcases List.mem_append.mp hc with hlead | hlast
        · exact ih (n / 10) (by omega) hlead
        · obtain rfl : c = digitByte (n % 10) := by simpa using hlast
          exact isDigit_digitByte (Nat.mod_lt _ (by decide))

theorem mem_dec {i : Int} {b : UInt8} (hb : b ∈ dec i) : isDigit b = true ∨ b = byte '-' := by
  unfold dec at hb
  split at hb
  · rcases List.mem_cons.mp hb with rfl | hb
    · exact .inr rfl
    · exact .inl (isDigit_of_mem_decNat hb)
  · exact .inl (isDigit_of_mem_decNat hb)

/-- What is neither a digit nor a minus is in no number. -/
theorem notMem_dec {i : Int} {b : UInt8} (hdigit : isDigit b = false) (hminus : b ≠ byte '-') :
    b ∉ dec i := by
  intro hb
  rcases mem_dec hb with h | h
  · simp [hdigit] at h
  · exact hminus h

/-- The digits of a number that fits are read without overflow. -/
theorem foldl_digitStep_decNat (neg : Bool) {n : Nat}
    (hfits : if neg then (n : Int) ≤ -i64Min else (n : Int) ≤ i64Max) :
    (decNat n).foldl (digitStep neg) (some 0) = some (if neg then -(n : Int) else n) := by
  have hstep (v d : Nat) (hd : d < 10) (hv : if neg then ((v * 10 + d : Nat) : Int) ≤ -i64Min
      else ((v * 10 + d : Nat) : Int) ≤ i64Max) :
      digitStep neg (some (if neg then -(v : Int) else v)) (digitByte d) =
        some (if neg then -((v * 10 + d : Nat) : Int) else (v * 10 + d : Nat)) := by
    simp only [digitStep, toNat_digitByte hd, Option.bind_some, checkedI64]
    cases neg with
    | false =>
        simp only [i64Min, i64Max, Bool.false_eq_true, if_false] at hv ⊢
        rw [if_pos (by omega), Option.bind_some, if_pos (by omega)]
        congr 1
    | true =>
        simp only [i64Min, i64Max, if_true] at hv ⊢
        rw [if_pos (by omega), Option.bind_some, if_pos (by omega)]
        congr 1
        omega
  induction n using Nat.strongRecOn with
  | ind n ih =>
      rw [decNat_eq]
      split
      · rename_i hlt
        have h0 := hstep 0 n hlt (by simpa using hfits)
        simpa using h0
      · rename_i hge
        have hdiv : n / 10 * 10 + n % 10 = n := by omega
        have hle : (n / 10 : Nat) ≤ n := Nat.div_le_self _ _
        rw [List.foldl_append, ih (n / 10) (by omega) (by cases neg <;> simp at hfits ⊢ <;> omega)]
        have hlast := hstep (n / 10) (n % 10) (Nat.mod_lt _ (by decide)) (by rwa [hdiv])
        rw [hdiv] at hlast
        exact hlast

theorem not_space_of_isDigit {d : UInt8} (h : isDigit d = true) :
    isCSpace d = false ∧ d ≠ byte '-' ∧ d ≠ byte '+' := by
  have hlow : 48 ≤ d := by
    simp only [isDigit, Bool.and_eq_true, decide_eq_true_eq] at h
    exact h.1
  refine ⟨?_, ?_, ?_⟩
  · simp only [isCSpace]
    grind
  · rintro rfl
    exact absurd hlow (by decide)
  · rintro rfl
    exact absurd hlow (by decide)

/-- **`strtoll` reads back what `dec` prints**, and stops behind it. -/
theorem strtoll_dec {i : Int} (hmin : i64Min ≤ i) (hmax : i ≤ i64Max) {rest : Str}
    (hrest : ∀ c ∈ rest.head?, isDigit c = false) :
    strtoll (dec i ++ rest) = (i, (dec i).length) := by
  have hdigits : (decNat i.natAbs ++ rest).takeWhile isDigit = decNat i.natAbs := by
    rw [List.takeWhile_append_of_pos fun c hc => isDigit_of_mem_decNat hc]
    cases rest with
    | nil => simp
    | cons c rest => simp [hrest c rfl]
  have hne := decNat_ne_nil i.natAbs
  by_cases hneg : i < 0
  · have hfold := foldl_digitStep_decNat true (n := i.natAbs) (by
      simp only [i64Min, if_true] at hmin ⊢
      omega)
    have hdec : dec i ++ rest = byte '-' :: (decNat i.natAbs ++ rest) := by simp [dec, hneg]
    have hval : -(i.natAbs : Int) = i := by omega
    rw [if_pos rfl, hval] at hfold
    rw [hdec]
    simp [strtoll, show isCSpace (byte '-') = false by decide, hdigits, hne, hfold, dec, hneg]
    omega
  · obtain ⟨d, ds, hd⟩ := List.exists_cons_of_ne_nil hne
    have hdigit : isDigit d = true := isDigit_of_mem_decNat (n := i.natAbs) (by simp [hd])
    obtain ⟨hspace, hminus, hplus⟩ := not_space_of_isDigit hdigit
    have hfold := foldl_digitStep_decNat false (n := i.natAbs) (by
      simp only [i64Max, Bool.false_eq_true, if_false] at hmax ⊢
      omega)
    have hval : (i.natAbs : Int) = i := by omega
    have hdec : dec i = decNat i.natAbs := by simp [dec, hneg]
    rw [hdec]
    rw [hd] at hdigits hfold ⊢
    simp [strtoll, hspace, hminus, hplus, hdigit] at hdigits ⊢
    simp only [List.foldl_cons, Bool.false_eq_true, if_false, hval] at hfold
    simp [hdigits, hfold]

/-! ### Reading back a field -/

/-- **A field is read whole**: one that fits, holds no delimiter, and is followed
by one or by the end. -/
theorem setNot_append {max : Nat} {excl v rest : Str} (hne : v ≠ []) (hlen : v.length ≤ max)
    (hv : ∀ b ∈ v, b ∉ excl) (hrest : ∀ c ∈ rest.head?, c ∈ excl ∧ c < 128) :
    setNot max excl (v ++ rest) = some (v, rest) := by
  have hstop : (rest.take (max - v.length)).takeWhile (· ∉ excl) = [] := by
    cases rest with
    | nil => simp
    | cons c rest =>
        obtain ⟨hexcl, -⟩ := hrest c rfl
        cases max - v.length with
        | zero => rfl
        | succ n => simp [hexcl]
  have hboundary : isCharBoundary (v ++ rest) v.length = true := by
    cases rest with
    | nil => simp [isCharBoundary]
    | cons c rest =>
        obtain ⟨-, hascii⟩ := hrest c rfl
        simp [isCharBoundary, hascii]
  have htake : ((v ++ rest).take max).takeWhile (· ∉ excl) = v := by
    rw [List.take_append, List.take_of_length_le hlen,
      List.takeWhile_append_of_pos (by simpa using hv), hstop, List.append_nil]
  unfold setNot
  rw [htake, cutBack_of_boundary hboundary]
  simp [hne]

theorem le_cutBack {s : Str} {m : Nat} (hb : isCharBoundary s m = true) {n : Nat} (hmn : m ≤ n) :
    m ≤ cutBack s n := by
  induction n with
  | zero =>
      obtain rfl : m = 0 := Nat.le_zero.mp hmn
      exact Nat.zero_le _
  | succ n ih =>
      unfold cutBack
      split
      · exact hmn
      · rename_i hnot
        have hne : m ≠ n + 1 := by
          rintro rfl
          exact hnot hb
        exact ih (by omega)

/-- A field that is too long is cut at its width, between two characters. -/
theorem setNot_full {excl v rest : Str} (hne : v ≠ []) (hv : ∀ b ∈ v, b ∉ excl)
    (hrest : ∀ c ∈ rest.head?, c < 128 ∨ 192 ≤ c) :
    setNot v.length excl (v ++ rest) = some (v, rest) := by
  have htake : ((v ++ rest).take v.length).takeWhile (· ∉ excl) = v := by
    rw [List.take_left]
    exact List.takeWhile_eq_self_iff.mpr (by simpa using hv)
  have hboundary : isCharBoundary (v ++ rest) v.length = true := by
    cases rest with
    | nil => simp [isCharBoundary]
    | cons c rest => simpa [isCharBoundary] using hrest c rfl
  unfold setNot
  rw [htake, cutBack_of_boundary hboundary]
  simp [hne]

/-- A word that takes the whole rest. -/
theorem word_all {max : Nat} {v : Str} (hne : v ≠ []) (hlen : v.length ≤ max)
    (hv : ∀ b ∈ v, isCSpace b = false) : word max v = some (v, []) := by
  have hskip : v.dropWhile isCSpace = v := by
    cases v with
    | nil => rfl
    | cons c v => simp [hv c]
  have htake : (v.take max).takeWhile (!isCSpace ·) = v := by
    rw [List.take_of_length_le hlen]
    exact List.takeWhile_eq_self_iff.mpr (by simpa using hv)
  have hboundary : isCharBoundary v v.length = true := by simp [isCharBoundary]
  unfold word
  dsimp only
  rw [hskip, htake, cutBack_of_boundary hboundary]
  simp [hne]

/-- A copy of an ASCII string is its front. -/
theorem trunc_of_ascii {s : Str} (h : ∀ b ∈ s, b < 128) (cap : Nat) :
    trunc s cap = s.take (cap - 1) := by
  unfold trunc
  dsimp only
  split
  · rename_i hle
    exact (List.take_of_length_le hle).symm
  · rename_i hlt
    have hboundary : isCharBoundary s (cap - 1) = true := by
      have hget := List.getElem?_eq_getElem (l := s) (i := cap - 1) (by omega)
      simp [isCharBoundary, hget, h _ (List.getElem_mem _)]
    rw [cutBack_of_boundary hboundary]

@[simp] theorem lit_append (l r : Str) : lit l (l ++ r) = some r := by
  simp [lit]

/-- What a field has read came from the input, and the rest is the rest. -/
theorem setNot_eq_some {max : Nat} {excl r v rest : Str} (h : setNot max excl r = some (v, rest)) :
    r = v ++ rest ∧ ∀ b ∈ v, b ∉ excl := by
  unfold setNot at h
  dsimp only at h
  split at h
  · simp at h
  · simp only [Option.some.injEq, Prod.mk.injEq] at h
    obtain ⟨rfl, rfl⟩ := h
    refine ⟨(List.take_append_drop _ _).symm, fun b hb => ?_⟩
    have hle := cutBack_le r ((r.take max).takeWhile (· ∉ excl)).length
    have hpre : (r.take max).takeWhile (· ∉ excl) <+: r :=
      (List.takeWhile_prefix _).trans (List.take_prefix _ _)
    have hmem := List.take_subset_take_left r hle hb
    rw [← List.prefix_iff_eq_take.mp hpre] at hmem
    simpa using List.mem_takeWhile_imp hmem

/-- A field is never longer than its width. -/
theorem length_setNot_le {max : Nat} {excl r v rest : Str}
    (h : setNot max excl r = some (v, rest)) : v.length ≤ max := by
  unfold setNot at h
  dsimp only at h
  split at h
  · simp at h
  · simp only [Option.some.injEq, Prod.mk.injEq] at h
    obtain ⟨rfl, -⟩ := h
    have hle := cutBack_le r ((r.take max).takeWhile (· ∉ excl)).length
    have hwidth := (List.takeWhile_prefix (· ∉ excl) (l := r.take max)).length_le
    exact (List.length_take_le _ _).trans (hle.trans (hwidth.trans (List.length_take_le _ _)))

theorem length_word_le {max : Nat} {r v rest : Str} (h : word max r = some (v, rest)) :
    v.length ≤ max := by
  unfold word at h
  dsimp only at h
  split at h
  · simp at h
  · simp only [Option.some.injEq, Prod.mk.injEq] at h
    obtain ⟨rfl, -⟩ := h
    have hle := cutBack_le (r.dropWhile isCSpace)
      (((r.dropWhile isCSpace).take max).takeWhile (!isCSpace ·)).length
    have hwidth := (List.takeWhile_prefix (!isCSpace ·)
      (l := (r.dropWhile isCSpace).take max)).length_le
    exact (List.length_take_le _ _).trans (hle.trans (hwidth.trans (List.length_take_le _ _)))

theorem lit_eq_some {l r rest : Str} (h : lit l r = some rest) : r = l ++ rest := by
  unfold lit at h
  split at h
  · rename_i hpre
    obtain rfl : r.drop l.length = rest := by simpa using h
    exact (List.prefix_iff_eq_append.mp (List.isPrefixOf_iff_prefix.mp hpre)).symm
  · simp at h

theorem word_eq_some {max : Nat} {r v rest : Str} (h : word max r = some (v, rest)) :
    (v ++ rest) <:+ r := by
  unfold word at h
  dsimp only at h
  split at h
  · simp at h
  · obtain ⟨rfl, rfl⟩ : _ = v ∧ _ = rest := by simpa using h
    rw [List.take_append_drop]
    exact List.dropWhile_suffix _

/-- A directive that cannot read `c` into a string. -/
def Fmt.Excludes (c : UInt8) : Fmt → Prop
  | .set _ excl => c ∈ excl
  | .lit _ => True
  | .int => True
  | .word _ => False

/-- A byte that the input does not hold, or that every field stops at, is in no
string that was read. -/
theorem notMem_of_mem_sscanf {c : UInt8} (fmt : List Fmt) :
    ∀ (input : Str), c ∉ input ∨ (∀ f ∈ fmt, f.Excludes c) →
      ∀ v ∈ sscanf input fmt, c ∉ v.str := by
  induction fmt with
  | nil =>
      intro input _ v hv
      simp [sscanf] at hv
  | cons f fmt ih =>
      intro input hc v hv
      have hrest {rest : Str} (hsub : rest ⊆ input) :
          c ∉ rest ∨ ∀ f ∈ fmt, f.Excludes c :=
        hc.imp (fun h hmem => h (hsub hmem)) fun h f hf => h f (List.mem_cons_of_mem _ hf)
      have hhead : c ∉ input ∨ f.Excludes c := hc.imp_right fun h => h f List.mem_cons_self
      cases f with
      | set max excl =>
          unfold sscanf at hv
          split at hv
          · rename_i s rest hset
            obtain ⟨rfl, hexcl⟩ := setNot_eq_some hset
            rcases List.mem_cons.mp hv with rfl | hv
            · rcases hhead with hin | hexc
              · exact fun hmem => hin (List.mem_append_left _ hmem)
              · exact fun hmem => hexcl c hmem hexc
            · exact ih rest (hrest (List.subset_append_right _ _)) v hv
          · simp at hv
      | lit l =>
          unfold sscanf at hv
          split at hv
          · rename_i rest hlit
            obtain rfl := lit_eq_some hlit
            exact ih rest (hrest (List.subset_append_right _ _)) v hv
          · simp at hv
      | int =>
          unfold sscanf at hv
          split at hv
          · simp at hv
          · rcases List.mem_cons.mp hv with rfl | hv
            · simp [Conv.str]
            · exact ih _ (hrest (List.drop_subset _ _)) v hv
      | word max =>
          unfold sscanf at hv
          split at hv
          · rename_i s rest hword
            have hsub := (word_eq_some hword).subset
            rcases List.mem_cons.mp hv with rfl | hv
            · rcases hhead with hin | hexc
              · exact fun hmem => hin (hsub (List.mem_append_left _ hmem))
              · exact hexc.elim
            · exact ih rest (hrest fun b hb => hsub (List.mem_append_right _ hb)) v hv
          · simp at hv

/-! ### Reading a field in front of the rest -/

/-- A field in front of a `|` is read whole. -/
theorem sscanf_field {max : Nat} {v rest : Str} {fmt : List Fmt} (hne : v ≠ [])
    (hlen : v.length ≤ max) (hv : byte '|' ∉ v) :
    sscanf (v ++ byte '|' :: rest) (.set max [byte '|'] :: fmt) =
      .s v :: sscanf (byte '|' :: rest) fmt := by
  have hset : setNot max [byte '|'] (v ++ byte '|' :: rest) = some (v, byte '|' :: rest) := by
    refine setNot_append hne hlen (fun b hb => ?_) fun c hc => ?_
    · rintro hmem
      obtain rfl : b = byte '|' := by simpa using hmem
      exact hv hb
    · obtain rfl : byte '|' = c := by simpa using hc
      exact ⟨by simp, by decide⟩
  rw [sscanf, hset]

/-- An empty field is not read at all. -/
theorem sscanf_field_nil {max : Nat} {rest : Str} {fmt : List Fmt} :
    sscanf (byte '|' :: rest) (.set max [byte '|'] :: fmt) = [] := by
  have hset : setNot max [byte '|'] (byte '|' :: rest) = none := by
    cases max with
    | zero => rfl
    | succ n => simp [setNot, cutBack]
  grind

theorem sscanf_lit {l rest : Str} {fmt : List Fmt} :
    sscanf (l ++ rest) (.lit l :: fmt) = sscanf rest fmt := by
  grind [lit_append]

theorem sscanf_pipe {rest : Str} {fmt : List Fmt} :
    sscanf (byte '|' :: rest) (.lit [byte '|'] :: fmt) = sscanf rest fmt :=
  sscanf_lit (l := [byte '|'])

theorem sscanf_pipes {rest : Str} {fmt : List Fmt} :
    sscanf (byte '|' :: byte '|' :: rest) (.lit [byte '|', byte '|'] :: fmt) = sscanf rest fmt :=
  sscanf_lit (l := [byte '|', byte '|'])

/-- A number in front of something that is no digit. -/
theorem sscanf_int {i : Int} {rest : Str} {fmt : List Fmt} (hmin : i64Min ≤ i) (hmax : i ≤ i64Max)
    (hrest : ∀ c ∈ rest.head?, isDigit c = false) :
    sscanf (dec i ++ rest) (.int :: fmt) = .i i :: sscanf rest fmt := by
  have hne : (dec i).length ≠ 0 := by
    unfold dec
    split
    · simp
    · simpa using decNat_ne_nil i.natAbs
  rw [sscanf, strtoll_dec hmin hmax hrest]
  split
  · rename_i heq
    simp only [Prod.mk.injEq] at heq
    exact absurd heq.2 hne
  · rename_i v used _ heq
    simp only [Prod.mk.injEq] at heq
    obtain ⟨rfl, rfl⟩ := heq
    rw [List.drop_left]

/-- A number at the end. -/
theorem sscanf_int_end {i : Int} (hmin : i64Min ≤ i) (hmax : i ≤ i64Max) :
    sscanf (dec i) [.int] = [.i i] := by
  have hread : sscanf (dec i ++ []) [.int] = .i i :: sscanf [] [] :=
    sscanf_int hmin hmax (by simp)
  rwa [List.append_nil] at hread

/-! ### What a conversion can be -/

theorem checkedI64_eq_some {x y : Int} (h : checkedI64 x = some y) :
    y = x ∧ i64Min ≤ y ∧ y ≤ i64Max := by
  unfold checkedI64 at h
  split at h
  · rename_i hfits
    obtain rfl := Option.some.inj h
    exact ⟨rfl, hfits⟩
  · cases h

theorem foldl_digitStep_range {neg : Bool} {digits : Str} : ∀ {v : Option Int} {x : Int},
    (∀ y, v = some y → i64Min ≤ y ∧ y ≤ i64Max) → digits.foldl (digitStep neg) v = some x →
      i64Min ≤ x ∧ x ≤ i64Max := by
  induction digits with
  | nil => exact fun hv h => hv _ h
  | cons d digits ih =>
      intro v x _ h
      refine ih (fun y hy => ?_) h
      obtain ⟨v, -, hy⟩ := Option.bind_eq_some_iff.mp hy
      obtain ⟨w, -, hy⟩ := Option.bind_eq_some_iff.mp hy
      exact (checkedI64_eq_some hy).2

/-- What `strtoll` reads is an `i64`. -/
theorem strtoll_range (s : Str) : i64Min ≤ (strtoll s).1 ∧ (strtoll s).1 ≤ i64Max := by
  have hvalue (neg : Bool) (digits : Str) (sat : Int) (hsat : i64Min ≤ sat ∧ sat ≤ i64Max) :
      i64Min ≤ (digits.foldl (digitStep neg) (some 0)).getD sat ∧
        (digits.foldl (digitStep neg) (some 0)).getD sat ≤ i64Max := by
    cases hfold : digits.foldl (digitStep neg) (some 0) with
    | none => exact hsat
    | some x =>
        refine foldl_digitStep_range (fun y hy => ?_) hfold
        obtain rfl := Option.some.inj hy
        decide
  have hsat (p : Prop) [Decidable p] : i64Min ≤ (if p then i64Min else i64Max) ∧
      (if p then i64Min else i64Max) ≤ i64Max := by
    split <;> decide
  unfold strtoll
  dsimp only
  by_cases hdigits : ((s.dropWhile isCSpace).drop (if (s.dropWhile isCSpace).head? = some (byte '+') ∨
      (s.dropWhile isCSpace).head? = some (byte '-') then 1 else 0)).takeWhile isDigit = []
  · rw [if_pos hdigits]
    decide
  · rw [if_neg hdigits]
    exact hvalue _ _ _ (hsat _)

/-- What a directive can convert to. -/
def Fmt.Gives : Fmt → Conv → Prop
  | .set max excl, c => c.str ≠ [] ∧ c.str.length ≤ max ∧ ∀ b ∈ c.str, b ∉ excl
  | .int, c => c.str = [] ∧ i64Min ≤ c.int ∧ c.int ≤ i64Max
  | .word max, c => c.str.length ≤ max
  | .lit _, _ => False

def Fmt.converts : Fmt → Bool
  | .lit _ => false
  | .set _ _ => true
  | .int => true
  | .word _ => true

theorem setNot_ne_nil {max : Nat} {excl r v rest : Str} (h : setNot max excl r = some (v, rest)) :
    v ≠ [] := by
  unfold setNot at h
  dsimp only at h
  split at h
  · cases h
  · rename_i hpos
    obtain ⟨rfl, -⟩ := Prod.mk.inj (Option.some.inj h)
    intro hnil
    have hlen := congrArg List.length hnil
    rw [List.length_take, List.length_nil] at hlen
    have hle := cutBack_le r ((r.take max).takeWhile (· ∉ excl)).length
    have hwidth := (List.takeWhile_prefix (· ∉ excl) (l := r.take max)).length_le
    have htake := List.length_take_le' max r
    omega

/-- The conversions are those of the directives, in order. -/
theorem sscanf_gives {fmt : List Fmt} : ∀ {input : Str} {i : Nat} {c : Conv},
    (sscanf input fmt)[i]? = some c →
      ∃ f, (fmt.filter Fmt.converts)[i]? = some f ∧ f.Gives c := by
  induction fmt with
  | nil => exact fun h => nomatch h
  | cons f fmt ih =>
      intro input i c h
      cases f with
      | set max excl =>
          rw [sscanf] at h
          split at h
          · rename_i v rest hset
            rw [List.filter_cons_of_pos rfl]
            cases i with
            | zero =>
                obtain rfl := Option.some.inj h
                exact ⟨_, rfl, setNot_ne_nil hset, length_setNot_le hset, (setNot_eq_some hset).2⟩
            | succ i => exact ih h
          · cases h
      | lit l =>
          rw [sscanf] at h
          rw [List.filter_cons_of_neg Bool.false_ne_true]
          split at h
          · exact ih h
          · cases h
      | int =>
          rw [sscanf] at h
          split at h
          · cases h
          · rename_i v used _ hread
            rw [List.filter_cons_of_pos rfl]
            cases i with
            | zero =>
                obtain rfl := Option.some.inj h
                have hrange := strtoll_range input
                rw [hread] at hrange
                exact ⟨_, rfl, rfl, hrange⟩
            | succ i => exact ih h
      | word max =>
          rw [sscanf] at h
          split at h
          · rename_i v rest hword
            rw [List.filter_cons_of_pos rfl]
            cases i with
            | zero =>
                obtain rfl := Option.some.inj h
                exact ⟨_, rfl, length_word_le hword⟩
            | succ i => exact ih h
          · cases h

/-! ### Fields -/

/-- Split on `|` into at most `max` fields; a trailing `|` yields an empty
field. -/
def splitFields (s : Str) : Nat → List Str
  | 0 => []
  | max + 1 =>
      match s.dropWhile (· ≠ byte '|') with
      | [] => [s]
      | _ :: rest => s.takeWhile (· ≠ byte '|') :: splitFields rest max

def isHexDigit (b : UInt8) : Bool :=
  isDigit b || (65 ≤ b && b ≤ 70) || (97 ≤ b && b ≤ 102)

/-- The "8-4-4-4-12" hexadecimal shape. -/
def isUuid (s : Str) : Bool :=
  s.length == 36 &&
    s.zipIdx.all fun (c, i) => if i ∈ [8, 13, 18, 23] then c == byte '-' else isHexDigit c

/-- Dashes in the UUID positions only. -/
def hasUuidDashes (s : Str) : Bool :=
  s.length == 36 && [8, 13, 18, 23].all fun i => s[i]? == some (byte '-')

/-- The nick part of a mask (up to `!`), bounded to `cap - 1` bytes. -/
def maskNick (mask : Str) (cap : Nat) : Str := trunc (mask.takeWhile (· ≠ byte '!')) cap

end Cstr

end IrcBot
