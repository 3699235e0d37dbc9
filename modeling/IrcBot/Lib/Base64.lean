/-
# Base64

The padded code, over any 64 digits and a sign that pads. Three bytes are four digits; a group
that is not full is padded. The decoder wants the padding, and the groups, to be complete; the
bits that no byte needs may be anything.

* `decode_encode` — what was encoded is read back, so different texts are encoded differently.
* `decode_padding` — how long a text that is read is, and that it is padded at its end only, by
  what its bytes are short of full groups.
-/
import Mathlib.Data.List.Basic
import Mathlib.Tactic.Common

namespace IrcBot.Lib

/-- The digits of a base64 code, and the sign that pads. -/
structure Base64 (γ : Type) where
  digit : Fin 64 → γ
  value : γ → Option (Fin 64)
  pad : γ
  value_digit : ∀ n, value (digit n) = some n
  value_pad : value pad = none

namespace Base64

/-! ### A group -/

/-- The four digits of three bytes. -/
def sextet₁ (a : UInt8) : Fin 64 := ⟨a.toNat / 4, by have := a.toNat_lt; omega⟩

def sextet₂ (a b : UInt8) : Fin 64 :=
  ⟨a.toNat % 4 * 16 + b.toNat / 16, by have := b.toNat_lt; omega⟩

def sextet₃ (b c : UInt8) : Fin 64 :=
  ⟨b.toNat % 16 * 4 + c.toNat / 64, by have := c.toNat_lt; omega⟩

def sextet₄ (c : UInt8) : Fin 64 := ⟨c.toNat % 64, by omega⟩

/-- The three bytes of four digits. -/
def octet₁ (x y : Fin 64) : UInt8 := UInt8.ofNat (x.val * 4 + y.val / 16)

def octet₂ (y z : Fin 64) : UInt8 := UInt8.ofNat (y.val % 16 * 16 + z.val / 4)

def octet₃ (z w : Fin 64) : UInt8 := UInt8.ofNat (z.val % 4 * 64 + w.val)

@[simp] theorem octet₁_sextet (a b : UInt8) : octet₁ (sextet₁ a) (sextet₂ a b) = a := by
  have ha := a.toNat_lt
  have hb := b.toNat_lt
  rw [octet₁, UInt8.ofNat_eq_iff_mod_eq_toNat]
  simp only [sextet₁, sextet₂]
  omega

@[simp] theorem octet₂_sextet (a b c : UInt8) : octet₂ (sextet₂ a b) (sextet₃ b c) = b := by
  have hb := b.toNat_lt
  have hc := c.toNat_lt
  rw [octet₂, UInt8.ofNat_eq_iff_mod_eq_toNat]
  simp only [sextet₂, sextet₃]
  omega

@[simp] theorem octet₃_sextet (b c : UInt8) : octet₃ (sextet₃ b c) (sextet₄ c) = c := by
  have hc := c.toNat_lt
  rw [octet₃, UInt8.ofNat_eq_iff_mod_eq_toNat]
  simp only [sextet₃, sextet₄]
  omega

/-! ### Texts -/

variable {γ : Type} (C : Base64 γ)

theorem pad_ne_digit (n : Fin 64) : C.digit n ≠ C.pad := by
  intro h
  have hn := C.value_digit n
  rw [h, C.value_pad] at hn
  cases hn

def encode : List UInt8 → List γ
  | a :: b :: c :: rest =>
      C.digit (sextet₁ a) :: C.digit (sextet₂ a b) :: C.digit (sextet₃ b c) ::
        C.digit (sextet₄ c) :: encode rest
  | [a, b] => [C.digit (sextet₁ a), C.digit (sextet₂ a b), C.digit (sextet₃ b 0), C.pad]
  | [a] => [C.digit (sextet₁ a), C.digit (sextet₂ a 0), C.pad, C.pad]
  | [] => []

section Decode

variable [DecidableEq γ]

/-- The bytes of a group. It may be padded where it is the last one. -/
def group (last : Bool) (a b c d : γ) : Option (List UInt8) :=
  if last ∧ d = C.pad then
    if c = C.pad then do
      let x ← C.value a
      let y ← C.value b
      some [octet₁ x y]
    else do
      let x ← C.value a
      let y ← C.value b
      let z ← C.value c
      some [octet₁ x y, octet₂ y z]
  else do
    let x ← C.value a
    let y ← C.value b
    let z ← C.value c
    let w ← C.value d
    some [octet₁ x y, octet₂ y z, octet₃ z w]

def decode : List γ → Option (List UInt8)
  | [] => some []
  | a :: b :: c :: d :: rest => do
      let bytes ← C.group rest.isEmpty a b c d
      let more ← decode rest
      some (bytes ++ more)
  | _ => none

/-- What was encoded is read back. -/
@[simp] theorem decode_encode (x : List UInt8) : C.decode (C.encode x) = some x := by
  induction x using encode.induct with
  | case1 a b c rest ih =>
      simp [encode, decode, group, C.value_digit, C.pad_ne_digit, ih]
  | case2 a b => simp [encode, decode, group, C.value_digit, C.pad_ne_digit]
  | case3 a => simp [encode, decode, group, C.value_digit]
  | case4 => rfl

theorem encode_injective : Function.Injective C.encode := by
  intro x y h
  have hx := C.decode_encode x
  rw [h, C.decode_encode] at hx
  simpa using hx.symm

end Decode

theorem length_encode (x : List UInt8) : (C.encode x).length = 4 * ((x.length + 2) / 3) := by
  induction x using encode.induct with
  | case1 a b c rest ih =>
      simp only [encode, List.length_cons, ih]
      omega
  | case2 a b => simp [encode]
  | case3 a => simp [encode]
  | case4 => rfl

theorem encode_ne_nil {x : List UInt8} (h : x ≠ []) : C.encode x ≠ [] := by
  rintro hnil
  have hlen := C.length_encode x
  rw [hnil, List.length_nil] at hlen
  have := List.length_pos_of_ne_nil h
  omega

theorem mem_encode {x : List UInt8} {c : γ} (h : c ∈ C.encode x) :
    c = C.pad ∨ ∃ n, c = C.digit n := by
  induction x using encode.induct with
  | case1 a b d rest ih =>
      simp only [encode, List.mem_cons] at h
      rcases h with h | h | h | h | h
      · exact .inr ⟨_, h⟩
      · exact .inr ⟨_, h⟩
      · exact .inr ⟨_, h⟩
      · exact .inr ⟨_, h⟩
      · exact ih h
  | case2 a b =>
      simp only [encode, List.mem_cons, List.not_mem_nil, or_false] at h
      rcases h with h | h | h | h
      · exact .inr ⟨_, h⟩
      · exact .inr ⟨_, h⟩
      · exact .inr ⟨_, h⟩
      · exact .inl h
  | case3 a =>
      simp only [encode, List.mem_cons, List.not_mem_nil, or_false] at h
      rcases h with h | h | h | h
      · exact .inr ⟨_, h⟩
      · exact .inr ⟨_, h⟩
      · exact .inl h
      · exact .inl h
  | case4 => cases h

/-! ### What is read -/

section Decode

variable [DecidableEq γ]

/-- How a group is padded: not at all, unless it is the last one. -/
theorem group_cases {last : Bool} {a b c d : γ} {bytes : List UInt8}
    (h : C.group last a b c d = some bytes) :
    a ≠ C.pad ∧ b ≠ C.pad ∧
      ((bytes.length = 3 ∧ c ≠ C.pad ∧ d ≠ C.pad) ∨
        (last = true ∧ bytes.length = 2 ∧ c ≠ C.pad ∧ d = C.pad) ∨
        (last = true ∧ bytes.length = 1 ∧ c = C.pad ∧ d = C.pad)) := by
  have hne {e : γ} {n : Fin 64} (he : C.value e = some n) : e ≠ C.pad := by
    rintro rfl
    rw [C.value_pad] at he
    cases he
  unfold group at h
  split at h
  · rename_i hlast
    split at h
    · rename_i hc
      simp only [Option.bind_eq_bind, Option.bind_eq_some_iff, Option.some.injEq] at h
      obtain ⟨x, hx, y, hy, rfl⟩ := h
      exact ⟨hne hx, hne hy, .inr (.inr ⟨hlast.1, rfl, hc, hlast.2⟩)⟩
    · rename_i hc
      simp only [Option.bind_eq_bind, Option.bind_eq_some_iff, Option.some.injEq] at h
      obtain ⟨x, hx, y, hy, z, hz, rfl⟩ := h
      exact ⟨hne hx, hne hy, .inr (.inl ⟨hlast.1, rfl, hc, hlast.2⟩)⟩
  · simp only [Option.bind_eq_bind, Option.bind_eq_some_iff, Option.some.injEq] at h
    obtain ⟨x, hx, y, hy, z, hz, w, hw, rfl⟩ := h
    exact ⟨hne hx, hne hy, .inl ⟨rfl, hne hz, hne hw⟩⟩

/-- A text that is read is padded at its end, by what its bytes are short of full groups. -/
theorem decode_padding {s : List γ} {x : List UInt8} (h : C.decode s = some x) :
    s.length = 4 * ((x.length + 2) / 3) ∧
      ∃ body, s = body ++ List.replicate ((3 - x.length % 3) % 3) C.pad ∧ C.pad ∉ body := by
  induction s using decode.induct generalizing x with
  | case1 =>
      cases h
      exact ⟨rfl, [], rfl, by simp⟩
  | case2 a b c d rest ih =>
      simp only [decode, Option.bind_eq_bind, Option.bind_eq_some_iff, Option.some.injEq] at h
      obtain ⟨bytes, hgroup, more, hmore, rfl⟩ := h
      obtain ⟨hlen, body, hrest, hbody⟩ := ih hmore
      obtain ⟨ha, hb, ⟨hthree, hc, hd⟩ | ⟨hlast, htwo, hc, hd⟩ | ⟨hlast, hone, hc, hd⟩⟩ :=
        C.group_cases hgroup
      · refine ⟨?_, a :: b :: c :: d :: body, ?_, ?_⟩
        · simp only [List.length_cons, List.length_append, hlen, hthree]
          omega
        · rw [List.length_append, hthree, show (3 + more.length) % 3 = more.length % 3 by omega]
          simpa using hrest
        · simp [ha.symm, hb.symm, hc.symm, hd.symm, hbody]
      · have hnil : rest = [] := by simpa using hlast
        subst hnil
        cases hmore
        refine ⟨by simp [htwo], [a, b, c], by simp [htwo, hd], ?_⟩
        simp [ha.symm, hb.symm, hc.symm]
      · have hnil : rest = [] := by simpa using hlast
        subst hnil
        cases hmore
        refine ⟨by simp [hone], [a, b], by simp [hone, hc, hd, List.replicate_succ], ?_⟩
        simp [ha.symm, hb.symm]
  | case3 s hnil hcons =>
      rcases s with _ | ⟨a, _ | ⟨b, _ | ⟨c, _ | ⟨d, rest⟩⟩⟩⟩
      · exact absurd rfl hnil
      · cases h
      · cases h
      · cases h
      · exact absurd rfl (hcons a b c d rest)

end Decode

end Base64

end IrcBot.Lib
