/-
# Texts of IP addresses

An IPv4 address is four numbers with dots between them, an IPv6 address eight groups of hex digits
with colons, of which one run of zero groups may be left out. The readers take an address from the
front of a text and leave the rest.

* `V4.parse_text`, `V6.parse_text` — what an address is written as is read back.
* `V6.read_mapped` — so is an IPv4 address in the form of an IPv6 one.
-/
import Mathlib.Algebra.Group.Nat.Defs
import Mathlib.Data.List.Basic
import Mathlib.Data.List.Induction
import Mathlib.Tactic.Common

namespace IrcBot.Lib.IpText

/-! ### Numbers -/

/-- The value of a digit or letter, 36 for anything else. -/
def digitVal (c : UInt8) : Nat :=
  if 48 ≤ c ∧ c ≤ 57 then c.toNat - 48
  else if 97 ≤ c ∧ c ≤ 122 then c.toNat - 87
  else if 65 ≤ c ∧ c ≤ 90 then c.toNat - 55
  else 36

def isDigit (base : Nat) (c : UInt8) : Bool := decide (digitVal c < base)

/-- The value of digits. -/
def value (base : Nat) (digits : List UInt8) : Nat :=
  digits.foldl (fun n c => n * base + digitVal c) 0

/-- A number of at most `max` digits, below `limit`. -/
def readNumber (base max limit : Nat) (zeroFirst : Bool) (s : List UInt8) :
    Option (Nat × List UInt8) :=
  let digits := s.takeWhile (isDigit base)
  if digits.isEmpty || max < digits.length then none
  else if !zeroFirst && digits.head? == some 48 && 1 < digits.length then none
  else if limit ≤ value base digits then none
  else some (value base digits, s.drop digits.length)

/-- The digits of a number. -/
def numText (base n : Nat) : List UInt8 := (Nat.toDigits base n).map Char.toUInt8

section Numbers

variable {base : Nat}

theorem digitVal_digitChar {d : Nat} (hd : d < 16) : digitVal (Nat.digitChar d).toUInt8 = d := by
  revert d
  decide

/-- A number is written as its leading digits, then its last one. -/
theorem numText_eq (hbase : 1 < base) (n : Nat) :
    numText base n =
      if n < base then [(Nat.digitChar n).toUInt8]
      else numText base (n / base) ++ [(Nat.digitChar (n % base)).toUInt8] := by
  unfold numText
  rw [Nat.toDigits_eq_if hbase]
  split
  · rfl
  · rw [List.map_append]
    rfl

theorem numText_ne_nil (n : Nat) : numText base n ≠ [] := by
  rw [numText, ne_eq, List.map_eq_nil_iff]
  exact Nat.toDigits_ne_nil

theorem isDigit_of_mem_numText (hbase : 1 < base) (hle : base ≤ 16) {n : Nat} {c : UInt8}
    (hc : c ∈ numText base n) : isDigit base c = true := by
  have hlast {d : Nat} (hd : d < base) : isDigit base (Nat.digitChar d).toUInt8 = true := by
    rw [isDigit, digitVal_digitChar (Nat.lt_of_lt_of_le hd hle)]
    exact decide_eq_true hd
  induction n using Nat.strongRecOn with
  | ind n ih =>
      rw [numText_eq hbase] at hc
      split at hc
      · obtain rfl := List.mem_singleton.mp hc
        exact hlast ‹n < base›
      · rcases List.mem_append.mp hc with hlead | hc
        · exact ih (n / base) (Nat.div_lt_self (by omega) hbase) hlead
        · obtain rfl := List.mem_singleton.mp hc
          exact hlast (Nat.mod_lt _ (by omega))

theorem value_numText (hbase : 1 < base) (hle : base ≤ 16) (n : Nat) :
    value base (numText base n) = n := by
  induction n using Nat.strongRecOn with
  | ind n ih =>
      rw [numText_eq hbase]
      split
      · rename_i hlt
        simp [value, digitVal_digitChar (Nat.lt_of_lt_of_le hlt hle)]
      · have hlead := ih (n / base) (Nat.div_lt_self (by omega) hbase)
        have hdigit : n % base < 16 := Nat.lt_of_lt_of_le (Nat.mod_lt _ (by omega)) hle
        rw [value, List.foldl_append, ← value, hlead, List.foldl_cons, List.foldl_nil,
          digitVal_digitChar hdigit, Nat.mul_comm]
        exact Nat.div_add_mod n base

/-- A number that does not print as one digit begins with no zero. -/
theorem head_numText (hbase : 1 < base) (hle : base ≤ 16) {n : Nat} (hn : base ≤ n) :
    (numText base n).head? ≠ some 48 := by
  have hone : ∀ d < 16, 0 < d → (Nat.digitChar d).toUInt8 ≠ 48 := by decide
  induction n using Nat.strongRecOn with
  | ind n ih =>
      have hpos : 0 < n / base := Nat.div_pos hn (by omega)
      have hlt : n / base < n := Nat.div_lt_self (by omega) hbase
      rw [numText_eq hbase, if_neg (by omega), List.head?_append_of_ne_nil _ (numText_ne_nil _)]
      by_cases hlead : n / base < base
      · rw [numText_eq hbase, if_pos hlead, List.head?_cons, ne_eq, Option.some.injEq]
        exact hone _ (by omega) hpos
      · exact ih _ hlt (by omega)

theorem length_numText_le (hbase : 1 < base) {n k : Nat} (hk : 0 < k) :
    (numText base n).length ≤ k ↔ n < base ^ k := by
  rw [numText, List.length_map]
  exact Nat.length_toDigits_le_iff hbase hk

/-- What may follow a number. -/
def Ends (base : Nat) (rest : List UInt8) : Prop := ∀ c ∈ rest.head?, isDigit base c = false

theorem takeWhile_digits {digits rest : List UInt8} (hdigits : ∀ c ∈ digits, isDigit base c = true)
    (hrest : Ends base rest) : (digits ++ rest).takeWhile (isDigit base) = digits := by
  rw [List.takeWhile_append_of_pos hdigits]
  cases rest with
  | nil => simp
  | cons c rest =>
      have hc : ¬ isDigit base c = true := by simp [hrest c rfl]
      rw [List.takeWhile_cons_of_neg hc, List.append_nil]

/-- **A number is read back**, whatever ends it. -/
theorem readNumber_numText (hbase : 1 < base) (hle : base ≤ 16) {n max limit : Nat}
    (hmax : (numText base n).length ≤ max) (hlimit : n < limit) (zeroFirst : Bool)
    {rest : List UInt8} (hrest : Ends base rest) :
    readNumber base max limit zeroFirst (numText base n ++ rest) = some (n, rest) := by
  have hdigits := takeWhile_digits (fun c hc => isDigit_of_mem_numText (n := n) hbase hle hc) hrest
  have hempty : (numText base n).isEmpty = false := by simpa using numText_ne_nil n
  have hlead : ¬ (!zeroFirst && (numText base n).head? == some 48 &&
      decide (1 < (numText base n).length)) = true := by
    intro h
    simp only [Bool.and_eq_true, beq_iff_eq, decide_eq_true_eq] at h
    obtain ⟨⟨-, hzero⟩, hlong⟩ := h
    refine head_numText hbase hle ?_ hzero
    by_contra hsmall
    rw [numText_eq hbase, if_pos (by omega)] at hlong
    exact Nat.lt_irrefl 1 hlong
  unfold readNumber
  dsimp only
  rw [hdigits, value_numText hbase hle, hempty, if_neg (by simpa using hmax), if_neg hlead,
    if_neg (by omega), List.drop_left]

/-- There is no number where there is no digit. -/
theorem readNumber_eq_none {max limit : Nat} {zeroFirst : Bool} {s : List UInt8}
    (h : Ends base s) : readNumber base max limit zeroFirst s = none := by
  have hnone : s.takeWhile (isDigit base) = [] := by
    cases s with
    | nil => rfl
    | cons c s =>
        have hc : ¬ isDigit base c = true := by simp [h c rfl]
        exact List.takeWhile_cons_of_neg hc
  simp [readNumber, hnone]

/-- A number is taken from the front. -/
theorem readNumber_suffix {max limit n : Nat} {zeroFirst : Bool} {s rest : List UInt8}
    (h : readNumber base max limit zeroFirst s = some (n, rest)) : rest <:+ s ∧ n < limit := by
  unfold readNumber at h
  dsimp only at h
  split at h
  · cases h
  · split at h
    · cases h
    · split at h
      · cases h
      · rename_i hlimit
        cases h
        exact ⟨List.drop_suffix _ _, by omega⟩

end Numbers

/-- A separator before all but the first part. -/
def readSep {α : Type} (sep : UInt8) (first : Bool) (inner : List UInt8 → Option (α × List UInt8))
    (s : List UInt8) : Option (α × List UInt8) :=
  if first then inner s
  else
    match s with
    | [] => none
    | c :: s => if c = sep then inner s else none

@[simp] theorem readSep_first {α : Type} (sep : UInt8)
    (inner : List UInt8 → Option (α × List UInt8)) (s : List UInt8) :
    readSep sep true inner s = inner s := rfl

@[simp] theorem readSep_cons {α : Type} (sep : UInt8)
    (inner : List UInt8 → Option (α × List UInt8)) (s : List UInt8) :
    readSep sep false inner (sep :: s) = inner s := if_pos rfl

/-! ### IPv4 -/

/-- An IPv4 address, by its bytes. -/
structure V4 where
  a : UInt8
  b : UInt8
  c : UInt8
  d : UInt8
deriving DecidableEq, Repr

def dot : UInt8 := 46

/-- One byte of an address. -/
def readByte (first : Bool) (s : List UInt8) : Option (UInt8 × List UInt8) :=
  (readSep dot first (readNumber 10 3 256 false) s).map fun r => (UInt8.ofNat r.1, r.2)

namespace V4

def read (s : List UInt8) : Option (V4 × List UInt8) := do
  let (a, s) ← readByte true s
  let (b, s) ← readByte false s
  let (c, s) ← readByte false s
  let (d, s) ← readByte false s
  some (⟨a, b, c, d⟩, s)

/-- The whole text is an address. -/
def parse (s : List UInt8) : Option V4 :=
  if 15 < s.length then none
  else (read s).bind fun r => if r.2.isEmpty then some r.1 else none

def text (v : V4) : List UInt8 :=
  numText 10 v.a.toNat ++ dot :: (numText 10 v.b.toNat ++ dot :: (numText 10 v.c.toNat ++
    dot :: numText 10 v.d.toNat))

end V4

theorem length_byteText (b : UInt8) : (numText 10 b.toNat).length ≤ 3 :=
  (length_numText_le (by decide) (by decide)).mpr (by have := b.toNat_lt; omega)

theorem readNumber_byte (b : UInt8) {rest : List UInt8} (hrest : Ends 10 rest) :
    readNumber 10 3 256 false (numText 10 b.toNat ++ rest) = some (b.toNat, rest) :=
  readNumber_numText (by decide) (by decide) (length_byteText b) b.toNat_lt false hrest

theorem readByte_first (b : UInt8) {rest : List UInt8} (hrest : Ends 10 rest) :
    readByte true (numText 10 b.toNat ++ rest) = some (b, rest) := by
  rw [readByte, readSep_first, readNumber_byte b hrest, Option.map_some]
  exact congrArg (fun x => some (x, rest)) (UInt8.ofNat_toNat)

theorem readByte_next (b : UInt8) {rest : List UInt8} (hrest : Ends 10 rest) :
    readByte false (dot :: (numText 10 b.toNat ++ rest)) = some (b, rest) := by
  rw [readByte, readSep_cons, readNumber_byte b hrest, Option.map_some]
  exact congrArg (fun x => some (x, rest)) (UInt8.ofNat_toNat)

theorem ends_dot (s : List UInt8) : Ends 10 (dot :: s) := by
  intro c hc
  obtain rfl := Option.some.inj hc
  rfl

theorem V4.read_text (v : V4) (rest : List UInt8) (hrest : Ends 10 rest) :
    V4.read (v.text ++ rest) = some (v, rest) := by
  simp only [V4.text, V4.read, List.append_assoc, List.cons_append, Option.bind_eq_bind,
    readByte_first v.a (ends_dot _), readByte_next v.b (ends_dot _),
    readByte_next v.c (ends_dot _), readByte_next v.d hrest, Option.bind_some]

theorem V4.length_text (v : V4) : v.text.length ≤ 15 := by
  have ha := length_byteText v.a
  have hb := length_byteText v.b
  have hc := length_byteText v.c
  have hd := length_byteText v.d
  simp only [V4.text, List.length_append, List.length_cons]
  omega

/-- **An IPv4 address is read back.** -/
theorem V4.parse_text (v : V4) : V4.parse v.text = some v := by
  have hread := V4.read_text v [] (by intro c hc; cases hc)
  rw [List.append_nil] at hread
  rw [V4.parse, if_neg (Nat.not_lt.mpr v.length_text), hread]
  rfl

/-- An address has a dot in it. -/
theorem V4.read_eq_none {s : List UInt8} (h : dot ∉ s) : V4.read s = none := by
  cases hfirst : readByte true s with
  | none => rw [V4.read, hfirst]; rfl
  | some r =>
      obtain ⟨a, s'⟩ := r
      have hsuffix : s' <:+ s := by
        rw [readByte, readSep_first, Option.map_eq_some_iff] at hfirst
        obtain ⟨⟨n, rest⟩, hread, heq⟩ := hfirst
        cases heq
        exact (readNumber_suffix hread).1
      have hnext : readByte false s' = none := by
        cases s' with
        | nil => rfl
        | cons c s' =>
            have hc : c ≠ dot := by
              rintro rfl
              exact h (hsuffix.subset List.mem_cons_self)
            rw [readByte, readSep, if_neg (by decide), if_neg hc]
            rfl
      simp only [V4.read, hfirst, hnext, Option.bind_eq_bind, Option.bind_some, Option.bind_none]

/-! ### IPv6 -/

/-- An IPv6 address, by its groups. -/
structure V6 where
  groups : List UInt16
  length : groups.length = 8
deriving DecidableEq, Repr

def colon : UInt8 := 58

/-- The two groups that hold an IPv4 address. -/
def V4.groups (v : V4) : List UInt16 :=
  [UInt16.ofNat (v.a.toNat * 256 + v.b.toNat), UInt16.ofNat (v.c.toNat * 256 + v.d.toNat)]

/-- The bytes of a group. -/
def highByte (g : UInt16) : UInt8 := UInt8.ofNat (g.toNat / 256)

def lowByte (g : UInt16) : UInt8 := UInt8.ofNat (g.toNat % 256)

/-- What was read of an address: its groups, whether they end in an IPv4 address, and what is
left. -/
structure Groups where
  groups : List UInt16
  v4 : Bool
  rest : List UInt8

/-- Up to `left` groups; while there is room for two, they may be an IPv4 address, which ends
them. -/
def readGroups : Nat → Bool → List UInt8 → Groups
  | 0, _, s => ⟨[], false, s⟩
  | left + 1, first, s =>
      match if 0 < left then readSep colon first V4.read s else none with
      | some (v, s) => ⟨v.groups, true, s⟩
      | none =>
          match readSep colon first (readNumber 16 4 65536 true) s with
          | none => ⟨[], false, s⟩
          | some (g, s) =>
              let r := readGroups left false s
              ⟨UInt16.ofNat g :: r.groups, r.v4, r.rest⟩

namespace V6

/-- The address of eight groups. -/
def ofGroups (gs : List UInt16) : V6 where
  groups := (gs ++ List.replicate 8 0).take 8
  length := by
    rw [List.length_take, List.length_append, List.length_replicate]
    omega

/-- Groups at both ends, and zeros between them. -/
def filled (front back : List UInt16) : V6 :=
  ofGroups (front ++ List.replicate (8 - front.length - back.length) 0 ++ back)

def read (s : List UInt8) : Option (V6 × List UInt8) :=
  let front := readGroups 8 true s
  if front.groups.length = 8 then some (ofGroups front.groups, front.rest)
  else if front.v4 then none
  else if front.rest.take 2 ≠ [colon, colon] then none
  else
    let back := readGroups (8 - (front.groups.length + 1)) true (front.rest.drop 2)
    some (filled front.groups back.groups, back.rest)

/-- The whole text is an address. -/
def parse (s : List UInt8) : Option V6 :=
  (read s).bind fun r => if r.2.isEmpty then some r.1 else none

/-- `::ffff:0:0/96`: the address stands for an IPv4 one. -/
def toIpv4Mapped (v : V6) : Option V4 :=
  if v.groups.take 6 = [0, 0, 0, 0, 0, 0xffff] then
    let g := v.groups.getD 6 0
    let g' := v.groups.getD 7 0
    some ⟨highByte g, lowByte g, highByte g', lowByte g'⟩
  else none

end V6

/-! ### How an IPv6 address is written -/

/-- A group behind another one. -/
def nextText (g : UInt16) : List UInt8 := colon :: numText 16 g.toNat

/-- The groups with colons between them. -/
def groupsText : List UInt16 → List UInt8
  | [] => []
  | g :: gs => numText 16 g.toNat ++ gs.flatMap nextText

/-- A run of zero groups. -/
structure Span where
  start : Nat := 0
  len : Nat := 0

/-- The loop over the groups: the longest run of zeros so far, and the one that goes on. -/
def spanStep (r : Span × Span) (g : UInt16 × Nat) : Span × Span :=
  if g.1 = 0 then
    let cur : Span := ⟨if r.2.len = 0 then g.2 else r.2.start, r.2.len + 1⟩
    (if r.1.len < cur.len then cur else r.1, cur)
  else (r.1, {})

/-- The first of the longest runs of zeros. -/
def longest (gs : List UInt16) : Span := (gs.zipIdx.foldl spanStep ({}, {})).1

def V6.text (v : V6) : List UInt8 :=
  match v.toIpv4Mapped with
  | some v4 => [colon, colon, 102, 102, 102, 102, colon] ++ v4.text
  | none =>
      let z := longest v.groups
      if 1 < z.len then
        groupsText (v.groups.take z.start) ++ colon :: colon ::
          groupsText (v.groups.drop (z.start + z.len))
      else groupsText v.groups

/-! ### Reading an IPv6 address back -/

section

variable {rest : List UInt8}

theorem length_groupText (g : UInt16) : (numText 16 g.toNat).length ≤ 4 :=
  (length_numText_le (by decide) (by decide)).mpr (by have := g.toNat_lt; omega)

theorem readNumber_group (g : UInt16) (hrest : Ends 16 rest) :
    readNumber 16 4 65536 true (numText 16 g.toNat ++ rest) = some (g.toNat, rest) :=
  readNumber_numText (by decide) (by decide) (length_groupText g) g.toNat_lt true hrest

theorem dot_notMem_numText (n : Nat) : dot ∉ numText 16 n := by
  intro h
  have hdigit := isDigit_of_mem_numText (by decide) (by decide) h
  revert hdigit
  decide

theorem dot_notMem_nextTexts (gs : List UInt16) : dot ∉ gs.flatMap nextText := by
  intro h
  obtain ⟨g, -, hg⟩ := List.mem_flatMap.mp h
  rcases List.mem_cons.mp hg with hcolon | hnum
  · revert hcolon
    decide
  · exact dot_notMem_numText _ hnum

theorem dot_notMem_groupsText (gs : List UInt16) : dot ∉ groupsText gs := by
  cases gs with
  | nil => exact List.not_mem_nil
  | cons g gs =>
      rw [groupsText, List.mem_append, not_or]
      exact ⟨dot_notMem_numText _, dot_notMem_nextTexts gs⟩

/-- What may follow groups: it does not go on with a digit or with one more group, and no IPv4
address is in it. -/
structure Stops (rest : List UInt8) : Prop where
  ends : Ends 16 rest
  stop : readSep colon false (readNumber 16 4 65536 true) rest = none
  dot : dot ∉ rest

theorem stops_nil : Stops [] := by
  refine ⟨fun c hc => ?_, rfl, List.not_mem_nil⟩
  cases hc

theorem ends_colon (s : List UInt8) : Ends 16 (colon :: s) := by
  intro c hc
  obtain rfl := Option.some.inj hc
  decide

theorem stops_colons {s : List UInt8} (h : dot ∉ s) : Stops (colon :: colon :: s) where
  ends := ends_colon _
  stop := by
    rw [readSep_cons]
    exact readNumber_eq_none (ends_colon s)
  dot := by simp [h, show ¬ dot = colon by decide]

/-- No IPv4 address is read where there is no dot. -/
theorem readSep_v4_eq_none {left : Nat} {first : Bool} {s : List UInt8} (h : dot ∉ s) :
    (if 0 < left then readSep colon first V4.read s else none) = none := by
  split
  · cases first with
    | true => exact V4.read_eq_none h
    | false =>
        cases s with
        | nil => rfl
        | cons c s =>
            rw [readSep, if_neg (by decide)]
            split
            · exact V4.read_eq_none fun hdot => h (List.mem_cons_of_mem c hdot)
            · rfl
  · rfl

theorem readGroups_stop (left : Nat) {first : Bool} {s : List UInt8} (hdot : dot ∉ s)
    (hsep : readSep colon first (readNumber 16 4 65536 true) s = none) :
    readGroups left first s = ⟨[], false, s⟩ := by
  cases left with
  | zero => rfl
  | succ left =>
      unfold readGroups
      rw [readSep_v4_eq_none hdot]
      dsimp only
      rw [hsep]

/-- No group begins with a colon. -/
theorem readGroups_colon (left : Nat) (s : List UInt8) :
    readGroups left true (colon :: s) = ⟨[], false, colon :: s⟩ := by
  cases left with
  | zero => rfl
  | succ left =>
      have hv4 : readSep colon true V4.read (colon :: s) = none := by
        have hends : Ends 10 (colon :: s) := by
          intro c hc
          obtain rfl := Option.some.inj hc
          decide
        simp [V4.read, readByte, readNumber_eq_none hends]
      have hgroup : readSep colon true (readNumber 16 4 65536 true) (colon :: s) = none := by
        rw [readSep_first]
        exact readNumber_eq_none (ends_colon s)
      unfold readGroups
      rw [hv4, hgroup, ite_self]

/-- One group is taken. -/
theorem readGroups_group (left : Nat) {first : Bool} {g : UInt16} {s s' : List UInt8}
    (hdot : dot ∉ s)
    (hsep : readSep colon first (readNumber 16 4 65536 true) s = some (g.toNat, s')) :
    readGroups (left + 1) first s =
      ⟨g :: (readGroups left false s').groups, (readGroups left false s').v4,
        (readGroups left false s').rest⟩ := by
  conv_lhs => unfold readGroups
  rw [readSep_v4_eq_none hdot]
  dsimp only
  rw [hsep]
  dsimp only
  rw [UInt16.ofNat_toNat]

theorem ends_nextTexts (hrest : Stops rest) (gs : List UInt16) :
    Ends 16 (gs.flatMap nextText ++ rest) := by
  cases gs with
  | nil => exact hrest.ends
  | cons g gs => exact ends_colon _

theorem readGroups_nextTexts (hrest : Stops rest) (gs : List UInt16) {left : Nat}
    (hle : gs.length ≤ left) :
    readGroups left false (gs.flatMap nextText ++ rest) = ⟨gs, false, rest⟩ := by
  induction gs generalizing left with
  | nil => exact readGroups_stop left hrest.dot hrest.stop
  | cons g gs ih =>
      obtain ⟨left, rfl⟩ : ∃ k, left = k + 1 := ⟨left - 1, by simp at hle; omega⟩
      have hread : readSep colon false (readNumber 16 4 65536 true)
          ((g :: gs).flatMap nextText ++ rest) = some (g.toNat, gs.flatMap nextText ++ rest) := by
        rw [List.flatMap_cons, List.append_assoc, nextText, List.cons_append, readSep_cons]
        exact readNumber_group g (ends_nextTexts hrest gs)
      have hdot : dot ∉ (g :: gs).flatMap nextText ++ rest := by
        rw [List.mem_append, not_or]
        exact ⟨dot_notMem_nextTexts _, hrest.dot⟩
      rw [readGroups_group left hdot hread, ih (Nat.le_of_succ_le_succ hle)]

/-- **Groups are read back**, up to what follows them. -/
theorem readGroups_groupsText (hrest : Stops rest) (gs : List UInt16) (left : Nat)
    (hle : gs.length ≤ left) :
    readGroups left true (groupsText gs ++ rest) = ⟨gs, false, rest⟩ := by
  cases gs with
  | nil => exact readGroups_stop left hrest.dot (readNumber_eq_none hrest.ends)
  | cons g gs =>
      obtain ⟨left, rfl⟩ : ∃ k, left = k + 1 := ⟨left - 1, by simp at hle; omega⟩
      have hread : readSep colon true (readNumber 16 4 65536 true)
          (groupsText (g :: gs) ++ rest) = some (g.toNat, gs.flatMap nextText ++ rest) := by
        rw [groupsText, List.append_assoc, readSep_first]
        exact readNumber_group g (ends_nextTexts hrest gs)
      have hdot : dot ∉ groupsText (g :: gs) ++ rest := by
        rw [List.mem_append, not_or]
        exact ⟨dot_notMem_groupsText _, hrest.dot⟩
      rw [readGroups_group left hdot hread,
        readGroups_nextTexts hrest gs (Nat.le_of_succ_le_succ hle)]

end

/-! ### The run that is left out -/

/-- The groups of a run are zero. -/
structure IsRun (gs : List UInt16) (z : Span) : Prop where
  le : z.start + z.len ≤ gs.length
  zero : ∀ i, z.start ≤ i → i < z.start + z.len → gs[i]? = some 0

theorem isRun_empty (gs : List UInt16) : IsRun gs {} where
  le := Nat.zero_le _
  zero i _ hlt := absurd hlt (Nat.not_lt_zero i)

theorem IsRun.append {gs : List UInt16} {z : Span} (h : IsRun gs z) (g : UInt16) :
    IsRun (gs ++ [g]) z where
  le := by
    have hle := h.le
    rw [List.length_append]
    omega
  zero i hge hlt := by
    have hle := h.le
    rw [List.getElem?_append_left (by omega)]
    exact h.zero i hge hlt

/-- What the loop keeps after the groups so far. -/
structure Spans (gs : List UInt16) (r : Span × Span) : Prop where
  longest : IsRun gs r.1
  current : IsRun gs r.2
  last : r.2.len ≠ 0 → r.2.start + r.2.len = gs.length

theorem Spans.step {gs : List UInt16} {r : Span × Span} (h : Spans gs r) (g : UInt16) :
    Spans (gs ++ [g]) (spanStep r (g, gs.length)) := by
  unfold spanStep
  dsimp only
  by_cases hg : g = 0
  · rw [if_pos hg]
    have hrun : IsRun (gs ++ [g])
        ⟨if r.2.len = 0 then gs.length else r.2.start, r.2.len + 1⟩ := by
      by_cases hempty : r.2.len = 0
      · rw [if_pos hempty]
        constructor
        · simp [hempty]
        · intro i hge hlt
          obtain rfl : i = gs.length := by dsimp only at hge hlt; omega
          simp [hg]
      · rw [if_neg hempty]
        have hlast := h.last hempty
        constructor
        · dsimp only
          rw [List.length_append, List.length_singleton]
          omega
        · intro i hge hlt
          dsimp only at hge hlt
          by_cases hi : i < gs.length
          · rw [List.getElem?_append_left hi]
            exact h.current.zero i hge (by omega)
          · obtain rfl : i = gs.length := by omega
            simp [hg]
    refine ⟨?_, hrun, fun _ => ?_⟩
    · dsimp only
      split
      · exact hrun
      · exact h.longest.append g
    · by_cases hempty : r.2.len = 0
      · simp [hempty]
      · have hlast := h.last hempty
        dsimp only
        rw [if_neg hempty, List.length_append, List.length_singleton]
        omega
  · rw [if_neg hg]
    exact ⟨h.longest.append g, isRun_empty _, fun hne => absurd rfl hne⟩

theorem spans (gs : List UInt16) : Spans gs (gs.zipIdx.foldl spanStep ({}, {})) := by
  induction gs using List.reverseRecOn with
  | nil => exact ⟨isRun_empty _, isRun_empty _, fun hne => absurd rfl hne⟩
  | append_singleton gs g ih =>
      have hstep := ih.step g
      rw [List.zipIdx_append, List.foldl_append]
      simpa using hstep

/-- Without its run, a list of groups is two pieces with zeros between them. -/
theorem IsRun.split {gs : List UInt16} {z : Span} (h : IsRun gs z) :
    gs.take z.start ++ List.replicate z.len 0 ++ gs.drop (z.start + z.len) = gs := by
  have hle := h.le
  have hzeros : (gs.drop z.start).take z.len = List.replicate z.len 0 := by
    refine List.eq_replicate_iff.mpr ⟨by simp; omega, fun g hg => ?_⟩
    obtain ⟨i, hi, rfl⟩ := List.mem_iff_getElem.mp hg
    rw [List.length_take, List.length_drop] at hi
    have hzero := h.zero (z.start + i) (by omega) (by omega)
    rw [List.getElem_take, List.getElem_drop]
    exact (List.getElem?_eq_some_iff.mp hzero).2
  rw [← hzeros, List.append_assoc, ← List.drop_drop, List.take_append_drop,
    List.take_append_drop]

/-! ### Round trip -/

namespace V6

theorem ext_groups {v w : V6} (h : v.groups = w.groups) : v = w := by
  cases v
  cases w
  cases h
  rfl

theorem ofGroups_groups (v : V6) : ofGroups v.groups = v := by
  refine ext_groups ?_
  rw [ofGroups]
  exact List.take_left' v.length

theorem read_filled {front back : List UInt16} {s rest : List UInt8} {v4 : Bool}
    (hshort : front.length < 8) (hfront : readGroups 8 true s = ⟨front, false, colon :: colon :: rest⟩)
    (hback : readGroups (8 - (front.length + 1)) true rest = ⟨back, v4, []⟩) :
    read s = some (filled front back, []) := by
  unfold read
  dsimp only
  rw [hfront]
  dsimp only
  rw [if_neg (Nat.ne_of_lt hshort), if_neg (by decide), if_neg (by simp), List.drop_succ_cons,
    List.drop_succ_cons, List.drop_zero, hback]

/-- An address without a run of zeros. -/
theorem read_groupsText (v : V6) : read (groupsText v.groups) = some (v, []) := by
  have hread := readGroups_groupsText stops_nil v.groups 8 (Nat.le_of_eq v.length)
  rw [List.append_nil] at hread
  unfold read
  dsimp only
  rw [hread]
  dsimp only
  rw [if_pos v.length, ofGroups_groups]

/-- An address with a run of zeros left out. -/
theorem read_run {v : V6} {z : Span} (hrun : IsRun v.groups z) (hlen : 0 < z.len) :
    read (groupsText (v.groups.take z.start) ++ colon :: colon ::
      groupsText (v.groups.drop (z.start + z.len))) = some (v, []) := by
  have hle := hrun.le
  have hall := v.length
  have hfirst : (v.groups.take z.start).length = z.start := by
    rw [List.length_take]
    omega
  have hlast : (v.groups.drop (z.start + z.len)).length = 8 - (z.start + z.len) := by
    rw [List.length_drop, hall]
  have hfront := readGroups_groupsText
    (stops_colons (dot_notMem_groupsText (v.groups.drop (z.start + z.len))))
    (v.groups.take z.start) 8 (by omega)
  have hback := readGroups_groupsText stops_nil (v.groups.drop (z.start + z.len))
    (8 - ((v.groups.take z.start).length + 1)) (by omega)
  rw [List.append_nil] at hback
  have hzeros : 8 - z.start - (8 - (z.start + z.len)) = z.len := by omega
  rw [read_filled (by omega) hfront hback, filled, hfirst, hlast, hzeros, hrun.split,
    ofGroups_groups]

/-- A group is its two bytes. -/
theorem ofNat_bytes (g : UInt16) :
    UInt16.ofNat ((highByte g).toNat * 256 + (lowByte g).toNat) = g := by
  have hlt := g.toNat_lt
  have hsum : (highByte g).toNat * 256 + (lowByte g).toNat = g.toNat := by
    rw [highByte, lowByte, UInt8.toNat_ofNat', UInt8.toNat_ofNat']
    omega
  rw [hsum, UInt16.ofNat_toNat]

/-- The groups of an address that stands for an IPv4 one. -/
theorem groups_of_mapped {v : V6} {v4 : V4} (h : v.toIpv4Mapped = some v4) :
    v.groups = [0, 0, 0, 0, 0, 0xffff] ++ v4.groups := by
  unfold toIpv4Mapped at h
  dsimp only at h
  split at h
  · rename_i hfront
    obtain rfl := Option.some.inj h
    have hlen : (v.groups.drop 6).length = 2 := by rw [List.length_drop, v.length]
    obtain ⟨g, g', hback⟩ := List.length_eq_two.mp hlen
    have hall : v.groups = [0, 0, 0, 0, 0, 0xffff, g, g'] := by
      rw [← List.take_append_drop 6 v.groups, hfront, hback]
      rfl
    rw [V4.groups, ofNat_bytes, ofNat_bytes, hall]
    rfl
  · cases h

/-- **An IPv4 address in the form of an IPv6 one.** -/
theorem read_mapped {v : V6} {v4 : V4} (h : v.toIpv4Mapped = some v4) :
    read ([colon, colon, 102, 102, 102, 102, colon] ++ v4.text) = some (v, []) := by
  have hends : Ends 10 ([] : List UInt8) := by
    intro c hc
    cases hc
  have hffff : readNumber 16 4 65536 true (102 :: 102 :: 102 :: 102 :: colon :: v4.text) =
      some (0xffff, colon :: v4.text) :=
    readNumber_numText (n := 0xffff) (by decide) (by decide) (by decide) (by decide) true
      (ends_colon v4.text)
  have hletters : Ends 10 (102 :: 102 :: 102 :: 102 :: colon :: v4.text) := by
    intro c hc
    obtain rfl := Option.some.inj hc
    decide
  have hback : readGroups 7 true (102 :: 102 :: 102 :: 102 :: colon :: v4.text) =
      ⟨0xffff :: v4.groups, true, []⟩ := by
    have hv4 : readSep colon true V4.read (102 :: 102 :: 102 :: 102 :: colon :: v4.text) = none := by
      simp [V4.read, readByte, readNumber_eq_none hletters]
    have hnext : readSep colon false V4.read (colon :: v4.text) = some (v4, []) := by
      have hread := V4.read_text v4 [] hends
      rwa [List.append_nil] at hread
    rw [readGroups, hv4, ite_self]
    dsimp only
    rw [readSep_first, hffff]
    dsimp only
    rw [readGroups, if_pos (by decide), hnext]
    rfl
  have hread := read_filled (by decide) (readGroups_colon 8 (colon :: 102 :: 102 :: 102 :: 102 ::
    colon :: v4.text)) hback
  refine hread.trans (congrArg (fun v => some (v, [])) (ext_groups ?_))
  rw [groups_of_mapped h]
  rfl

/-- **An IPv6 address is read back.** -/
theorem parse_text (v : V6) : parse v.text = some v := by
  have hread : read v.text = some (v, []) := by
    unfold text
    split
    · exact read_mapped ‹_›
    · dsimp only
      split
      · exact read_run (spans v.groups).longest (by omega)
      · exact read_groupsText v
  rw [parse, hread]
  rfl

end V6

end IrcBot.Lib.IpText
