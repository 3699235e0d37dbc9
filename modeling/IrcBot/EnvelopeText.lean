/-
# The text of an envelope (`bot_comms.rs`)

`<ts>:<nonce>:<body>`: what `envelope_parse` takes, and what `b2_send` writes.

* `Shape.parse`, `shape_of_parse` — what is taken has this form, and each text of the form is
  taken.
* `envelope_exact` — both, and that an envelope is read as it was written.
-/
import IrcBot.B2
import IrcBot.Chancfg
import Mathlib.Data.Nat.Digits.Defs

namespace IrcBot.EnvelopeText

open Cstr Envelope

/-! ### Numbers -/

/-- What a digit stands for, also a hexadecimal one. -/
def digitValue (c : UInt8) : Nat := if isDigit c then (c - 48).toNat else (c - 87).toNat

/-- The number that digits stand for. -/
def value (base : Nat) (s : Str) : Nat := Nat.ofDigits base (s.reverse.map digitValue)

/-- A lower-case hexadecimal digit. -/
def HexDigit (c : UInt8) : Prop := isDigit c = true ∨ byte 'a' ≤ c ∧ c ≤ byte 'f'

theorem foldl_digits (base : Nat) (f : UInt8 → Nat) (s : Str) :
    s.foldl (fun n c => n * base + f c) 0 = Nat.ofDigits base (s.reverse.map f) := by
  induction s using List.reverseRecOn with
  | nil => rfl
  | append_singleton s c ih =>
      rw [List.foldl_append, List.foldl_cons, List.foldl_nil, ih, List.reverse_append,
        List.reverse_singleton, List.singleton_append, List.map_cons, Nat.ofDigits_cons,
        Nat.add_comm, Nat.mul_comm]

theorem decVal_eq {s : Str} (h : ∀ c ∈ s, isDigit c = true) : decVal s = value 10 s := by
  rw [decVal, foldl_digits, value]
  congr 1
  refine List.map_congr_left fun c hc => ?_
  rw [digitValue, if_pos (h c (List.mem_reverse.mp hc))]

theorem hexVal_eq (s : Str) : hexVal s = value 16 s := foldl_digits 16 digitValue s

theorem digitValue_lt {c : UInt8} (h : HexDigit c) : digitValue c < 16 := by
  unfold digitValue
  split
  · rename_i hdigit
    exact Nat.lt_of_lt_of_le (Chancfg.toNat_lt_of_isDigit hdigit) (by decide)
  · rename_i hdigit
    obtain ⟨hlo, hhi⟩ := h.resolve_left hdigit
    have hsub : (c - 87).toNat = c.toNat - 87 :=
      UInt8.toNat_sub_of_le c 87 (UInt8.le_trans (by decide) hlo)
    have hle : c.toNat ≤ 102 := UInt8.le_iff_toNat_le.mp hhi
    omega

/-- Sixteen hexadecimal digits fit an `u64`. -/
theorem value_lt {s : Str} (h : ∀ c ∈ s, HexDigit c) : value 16 s < 16 ^ s.length := by
  have hlt := Nat.ofDigits_lt_base_pow_length (b := 16) (l := s.reverse.map digitValue)
    (by decide) fun d hd => by
      obtain ⟨c, hc, rfl⟩ := List.mem_map.mp hd
      exact digitValue_lt (h c (List.mem_reverse.mp hc))
  rwa [List.length_map, List.length_reverse] at hlt

/-! ### What is taken -/

/-- `<1 to 19 digits that fit an i64>:<16 hexadecimal digits>:<body>`. -/
structure Shape (pt digits hex body : Str) : Prop where
  text : pt = digits ++ byte ':' :: (hex ++ byte ':' :: body)
  one_le : 1 ≤ digits.length
  le : digits.length ≤ 19
  digit : ∀ c ∈ digits, isDigit c = true
  fits : (value 10 digits : Int) ≤ i64Max
  sixteen : hex.length = 16
  hexDigit : ∀ c ∈ hex, HexDigit c
  body_ne : body ≠ []

theorem hexDigit_iff {c : UInt8} : (isDigit c || (97 ≤ c && c ≤ 102)) = true ↔ HexDigit c := by
  rw [Bool.or_eq_true, Bool.and_eq_true, decide_eq_true_eq, decide_eq_true_eq]
  rfl

theorem not_isDigit_colon : isDigit (byte ':') = false := by decide

/-- Each text of the form is taken, with its three parts. -/
theorem Shape.parse {pt digits hex body : Str} (h : Shape pt digits hex body) :
    envelopeParse pt = some ((value 10 digits : Int), UInt64.ofNat (value 16 hex), body) := by
  obtain ⟨rfl, hone, hle, hdigit, hfits, hsixteen, hhex, hbody⟩ := h
  have hdigits : (digits ++ byte ':' :: (hex ++ byte ':' :: body)).takeWhile isDigit = digits := by
    rw [List.takeWhile_append_of_pos hdigit]
    simp [not_isDigit_colon]
  have hcolon : (digits ++ byte ':' :: (hex ++ byte ':' :: body))[digits.length]? =
      some (byte ':') := by
    rw [List.getElem?_append_right le_rfl, Nat.sub_self]
    rfl
  have hrest : (digits ++ byte ':' :: (hex ++ byte ':' :: body)).drop (digits.length + 1) =
      hex ++ byte ':' :: body := by
    rw [← List.drop_drop, List.drop_left]
    rfl
  have hall : hex.all (fun c => isDigit c || (97 ≤ c && c ≤ 102)) = true :=
    List.all_eq_true.mpr fun c hc => hexDigit_iff.mpr (hhex c hc)
  have htake : (hex ++ byte ':' :: body).take 16 = hex := List.take_left' hsixteen
  have hsep : (hex ++ byte ':' :: body)[16]? = some (byte ':') := by
    rw [List.getElem?_append_right hsixteen.le, hsixteen]
    rfl
  have hdrop : (hex ++ byte ':' :: body).drop 17 = body := by
    rw [show 17 = hex.length + 1 by rw [hsixteen], ← List.drop_drop, List.drop_left]
    rfl
  have hlong : ¬ (hex ++ byte ':' :: body).length < 18 := by
    have hpos := List.length_pos_iff.mpr hbody
    rw [List.length_append, List.length_cons, hsixteen]
    omega
  have hstamp : ¬ (digits.length = 0 ∨ 19 < digits.length ∨ some (byte ':') ≠ some (byte ':')) := by
    rintro (h | h | h)
    · omega
    · omega
    · exact h rfl
  unfold envelopeParse
  dsimp only
  rw [hdigits, hcolon, hrest, htake, hsep, hdrop, decVal_eq hdigit, hexVal_eq, if_neg hstamp,
    if_neg (by simp only [hall]; simpa using hlong), if_neg (Int.not_lt.mpr hfits)]

/-- What is taken has the form. -/
theorem shape_of_parse {pt body : Str} {ts : Int} {nonce : UInt64}
    (h : envelopeParse pt = some (ts, nonce, body)) :
    ∃ digits hex, Shape pt digits hex body ∧ ts = (value 10 digits : Nat) ∧
      nonce.toNat = value 16 hex := by
  unfold envelopeParse at h
  dsimp only at h
  split at h
  · cases h
  rename_i hstamp
  split at h
  · cases h
  rename_i hrest
  split at h
  · cases h
  rename_i hfits
  simp only [Option.some.injEq, Prod.mk.injEq] at h
  obtain ⟨rfl, rfl, rfl⟩ := h
  generalize hdigits : pt.takeWhile isDigit = digits at *
  simp only [not_or, ne_eq, not_not] at hstamp
  obtain ⟨hpos, hle, hcolon⟩ := hstamp
  simp only [Bool.or_eq_true, not_or, decide_eq_true_eq, Bool.not_eq_true', Bool.not_eq_false,
    ne_eq, not_not] at hrest
  obtain ⟨⟨hlong, hall⟩, hsep⟩ := hrest
  have hdigit : ∀ c ∈ digits, isDigit c = true := fun c hc => by
    rw [← hdigits] at hc
    exact List.mem_takeWhile_imp hc
  -- the text in front of the first colon, and behind it
  obtain ⟨tail, htail⟩ : digits <+: pt := hdigits ▸ List.takeWhile_prefix _
  subst htail
  rw [List.getElem?_append_right le_rfl, Nat.sub_self] at hcolon
  obtain ⟨q, rfl⟩ : ∃ q, tail = byte ':' :: q := by
    cases tail with
    | nil => cases hcolon
    | cons c q => exact ⟨q, by rw [Option.some.inj hcolon]⟩
  have hq : (digits ++ byte ':' :: q).drop (digits.length + 1) = q := by
    rw [← List.drop_drop, List.drop_left]
    rfl
  rw [hq] at hlong hall hsep ⊢
  have hsixteen : (q.take 16).length = 16 := by
    rw [List.length_take]
    omega
  have hsplit : q = q.take 16 ++ byte ':' :: q.drop 17 := by
    obtain ⟨hlt, hget⟩ := List.getElem?_eq_some_iff.mp hsep
    rw [← hget, ← List.drop_eq_getElem_cons hlt, List.take_append_drop]
  have hhex : ∀ c ∈ q.take 16, HexDigit c := fun c hc =>
    hexDigit_iff.mp (List.all_eq_true.mp hall c hc)
  refine ⟨digits, q.take 16, ⟨by rw [← hsplit], by omega, by omega, hdigit, ?_, hsixteen, hhex, ?_⟩,
    by rw [decVal_eq hdigit], ?_⟩
  · rw [← decVal_eq hdigit]
    exact Int.not_lt.mp hfits
  · intro hnil
    have hlen := congrArg List.length hnil
    rw [List.length_drop, List.length_nil] at hlen
    omega
  · have hlt := value_lt hhex
    rw [hsixteen] at hlt
    rw [hexVal_eq, UInt64.toNat_ofNat']
    exact Nat.mod_eq_of_lt hlt

/-! ### What is written -/

theorem hexByte_hex (b : UInt8) : ∀ c ∈ B2.hexByte b, HexDigit c := by
  have hdigit : ∀ n < 16, isDigit (if n < 10 then 48 + n.toUInt8 else 87 + n.toUInt8) = true ∨
      97 ≤ (if n < 10 then 48 + n.toUInt8 else 87 + n.toUInt8) ∧
        (if n < 10 then 48 + n.toUInt8 else 87 + n.toUInt8) ≤ 102 := by decide
  have hb := b.toNat_lt
  rintro c hc
  rcases List.mem_pair.mp hc with rfl | rfl
  · exact hdigit _ (by omega)
  · exact hdigit _ (Nat.mod_lt _ (by decide))

theorem length_hex (nonce : Str) : (nonce.flatMap B2.hexByte).length = 2 * nonce.length := by
  induction nonce with
  | nil => rfl
  | cons b nonce ih =>
      rw [List.flatMap_cons, List.length_append, ih, List.length_cons]
      have hb : (B2.hexByte b).length = 2 := rfl
      omega

theorem hex_nonce (nonce : Str) : ∀ c ∈ nonce.flatMap B2.hexByte, HexDigit c := by
  intro c hc
  obtain ⟨b, -, hb⟩ := List.mem_flatMap.mp hc
  exact hexByte_hex b c hb

theorem length_decNat_i64 {now : Nat} (h : (now : Int) ≤ i64Max) : (decNat now).length ≤ 19 := by
  rw [decNat, List.length_map, Nat.length_toDigits_le_iff (by decide) (by decide)]
  unfold i64Max at h
  omega

theorem value_decNat (n : Nat) : value 10 (decNat n) = n := by
  rw [← decVal_eq fun c hc => isDigit_of_mem_decNat hc]
  exact Chancfg.number_decNat n

/-- A stamp, a nonce of eight bytes and a body, as they are written. -/
theorem shape_written {now : Nat} {nonce body : Str} (hnow : (now : Int) ≤ i64Max)
    (hnonce : nonce.length = 8) (hbody : body ≠ []) :
    Shape (decNat now ++ byte ':' :: (nonce.flatMap B2.hexByte ++ byte ':' :: body)) (decNat now)
      (nonce.flatMap B2.hexByte) body where
  text := rfl
  one_le := List.length_pos_iff.mpr (decNat_ne_nil now)
  le := length_decNat_i64 hnow
  digit c hc := isDigit_of_mem_decNat hc
  fits := by rwa [value_decNat]
  sixteen := by rw [length_hex, hnonce]
  hexDigit := hex_nonce nonce
  body_ne := hbody

/-- `to_be_bytes`. -/
def beBytes : Nat → Nat → Str
  | 0, _ => []
  | k + 1, n => beBytes k (n / 256) ++ [UInt8.ofNat n]

/-- An envelope, as `b2_send` writes it, with the nonce as its number. -/
def format (ts : Int) (nonce : UInt64) (body : Str) : Str :=
  dec ts ++ str ":" ++ (beBytes 8 nonce.toNat).flatMap B2.hexByte ++ str ":" ++ body

theorem value_append (base : Nat) (s t : Str) :
    value base (s ++ t) = value base s * base ^ t.length + value base t := by
  unfold value
  rw [List.reverse_append, List.map_append, Nat.ofDigits_append, List.length_map,
    List.length_reverse, Nat.add_comm, Nat.mul_comm]

theorem value_hexByte (b : UInt8) : value 16 (B2.hexByte b) = b.toNat := by
  have hdigit : ∀ n < 16, digitValue (if n < 10 then 48 + n.toUInt8 else 87 + n.toUInt8) = n := by
    decide
  have hb := b.toNat_lt
  have hhi := hdigit (b.toNat / 16) (by omega)
  have hlo := hdigit (b.toNat % 16) (Nat.mod_lt _ (by decide))
  have hpair : value 16 (B2.hexByte b) = b.toNat % 16 + 16 * (b.toNat / 16 + 16 * 0) := by
    simp only [value, B2.hexByte, List.reverse_cons, List.reverse_nil, List.nil_append,
      List.cons_append, List.map_cons, List.map_nil, Nat.ofDigits_cons, Nat.ofDigits_nil, hhi, hlo]
  rw [hpair]
  omega

theorem length_beBytes (k n : Nat) : (beBytes k n).length = k := by
  induction k generalizing n with
  | zero => rfl
  | succ k ih => rw [beBytes, List.length_append, ih, List.length_singleton]

/-- The hexadecimal digits of the bytes of a number stand for it. -/
theorem value_beBytes (k n : Nat) : value 16 ((beBytes k n).flatMap B2.hexByte) = n % 256 ^ k := by
  induction k generalizing n with
  | zero => rw [Nat.pow_zero, Nat.mod_one]; rfl
  | succ k ih =>
      have hlen : (B2.hexByte (UInt8.ofNat n)).length = 2 := rfl
      have hlow : n % 256 ^ (k + 1) = n % 256 + 256 * (n / 256 % 256 ^ k) := by
        rw [Nat.pow_succ', Nat.mod_mul]
      rw [beBytes, List.flatMap_append, List.flatMap_singleton, value_append, ih,
        value_hexByte, hlen,
        UInt8.toNat_ofNat', hlow]
      omega

/-- **The envelope is exact.** `envelope_parse` takes the texts of the form and no others, and
gives their parts; and every envelope is read as it was written, whatever is in its body. -/
theorem envelope_exact :
    (∀ (pt : Str) (ts : Int) (nonce : UInt64) (body : Str),
      envelopeParse pt = some (ts, nonce, body) ↔
        ∃ digits hex, Shape pt digits hex body ∧ ts = (value 10 digits : Nat) ∧
          nonce.toNat = value 16 hex) ∧
      ∀ (ts : Int) (nonce : UInt64) (body : Str), 0 ≤ ts → ts ≤ i64Max → body ≠ [] →
        envelopeParse (format ts nonce body) = some (ts, nonce, body) := by
  refine ⟨fun pt ts nonce body => ⟨shape_of_parse, ?_⟩, fun ts nonce body hts hmax hbody => ?_⟩
  · rintro ⟨digits, hex, hshape, rfl, hnonce⟩
    rw [hshape.parse, ← hnonce, UInt64.ofNat_toNat]
  · obtain ⟨now, rfl⟩ := Int.eq_ofNat_of_zero_le hts
    have hformat : format now nonce body = decNat now ++
        byte ':' :: ((beBytes 8 nonce.toNat).flatMap B2.hexByte ++ byte ':' :: body) := by
      have hdec : dec (now : Int) = decNat now := by simp [dec]
      simp [format, hdec, str]
    have hvalue : value 16 ((beBytes 8 nonce.toNat).flatMap B2.hexByte) = nonce.toNat := by
      rw [value_beBytes]
      exact Nat.mod_eq_of_lt nonce.toNat_lt
    rw [hformat, (shape_written hmax (length_beBytes 8 _) hbody).parse, value_decNat, hvalue,
      UInt64.ofNat_toNat]

/-- The largest stamp, and a body with separators in it. -/
theorem envelope_exact_colons :
    envelopeParse (format 9223372036854775807 255 (str "a:b:")) =
      some (9223372036854775807, 255, str "a:b:") :=
  envelope_exact.2 _ _ _ (by decide) (by decide) (by decide)

end IrcBot.EnvelopeText
