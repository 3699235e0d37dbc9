/-
# UTF-8

A text is what characters are encoded to, one after the other. A byte either begins a character or
goes on with one, so a text can be cut wherever a character begins, and no cut is more than three
bytes away.

* `isChar_utf8EncodeChar` — the forms that a character takes.
* `Text.cut`, `Text.exists_start` — where a text can be cut.
-/
import Mathlib.Data.List.Basic
import Mathlib.Tactic.Common

namespace IrcBot.Lib.Utf8

/-- The bytes of a text. -/
inductive Text : List UInt8 → Prop
  | nil : Text []
  | cons (c : Char) {rest : List UInt8} (h : Text rest) : Text (String.utf8EncodeChar c ++ rest)

/-- A byte that goes on with a character. -/
def Tail (b : UInt8) : Prop := 0x80 ≤ b ∧ b ≤ 0xBF

instance (b : UInt8) : Decidable (Tail b) := inferInstanceAs (Decidable (_ ∧ _))

/-- The forms of a character: none is longer than it has to be, and none is a surrogate. -/
inductive IsChar : List UInt8 → Prop
  | one {a : UInt8} (ha : a ≤ 0x7F) : IsChar [a]
  | two {a b : UInt8} (ha : 0xC2 ≤ a ∧ a ≤ 0xDF) (hb : Tail b) : IsChar [a, b]
  | three {a b c : UInt8} (ha : 0xE0 ≤ a ∧ a ≤ 0xEF) (hb : Tail b) (hlow : a = 0xE0 → 0xA0 ≤ b)
      (hhigh : a = 0xED → b ≤ 0x9F) (hc : Tail c) : IsChar [a, b, c]
  | four {a b c d : UInt8} (ha : 0xF0 ≤ a ∧ a ≤ 0xF4) (hb : Tail b) (hlow : a = 0xF0 → 0x90 ≤ b)
      (hhigh : a = 0xF4 → b ≤ 0x8F) (hc : Tail c) (hd : Tail d) : IsChar [a, b, c, d]

theorem tail_ofNat (n : Nat) : Tail (UInt8.ofNat (n % 64 + 128)) := by
  simp only [Tail, UInt8.le_iff_toNat_le, UInt8.toNat_ofNat', UInt8.reduceToNat]
  omega

theorem isChar_utf8EncodeChar (c : Char) : IsChar (String.utf8EncodeChar c) := by
  have hvalid := c.valid
  simp only [UInt32.isValidChar, Nat.isValidChar] at hvalid
  unfold String.utf8EncodeChar
  dsimp only
  generalize c.val.toNat = v at hvalid
  split
  · refine .one ?_
    simp only [UInt8.le_iff_toNat_le, UInt8.toNat_ofNat', UInt8.reduceToNat]
    omega
  · split
    · refine .two ?_ (tail_ofNat v)
      simp only [UInt8.le_iff_toNat_le, UInt8.toNat_ofNat', UInt8.reduceToNat]
      omega
    · split
      · refine .three ?_ (tail_ofNat _) ?_ ?_ (tail_ofNat v)
        · simp only [UInt8.le_iff_toNat_le, UInt8.toNat_ofNat', UInt8.reduceToNat]
          omega
        · simp only [UInt8.le_iff_toNat_le, ← UInt8.toNat_inj, UInt8.toNat_ofNat',
            UInt8.reduceToNat]
          omega
        · simp only [UInt8.le_iff_toNat_le, ← UInt8.toNat_inj, UInt8.toNat_ofNat',
            UInt8.reduceToNat]
          omega
      · refine .four ?_ (tail_ofNat _) ?_ ?_ (tail_ofNat _) (tail_ofNat v)
        · simp only [UInt8.le_iff_toNat_le, UInt8.toNat_ofNat', UInt8.reduceToNat]
          omega
        · simp only [UInt8.le_iff_toNat_le, ← UInt8.toNat_inj, UInt8.toNat_ofNat',
            UInt8.reduceToNat]
          omega
        · simp only [UInt8.le_iff_toNat_le, ← UInt8.toNat_inj, UInt8.toNat_ofNat',
            UInt8.reduceToNat]
          omega

/-- A character begins with a byte that goes on with none, and then goes on. -/
theorem IsChar.cases_tail {c : List UInt8} (h : IsChar c) :
    ∃ a rest, c = a :: rest ∧ ¬ Tail a ∧ (∀ b ∈ rest, Tail b) ∧ rest.length ≤ 3 := by
  have hnot {a : UInt8} (h : a ≤ 0x7F ∨ 0xC0 ≤ a) : ¬ Tail a := by
    simp only [Tail, UInt8.le_iff_toNat_le, UInt8.reduceToNat] at *
    omega
  have hle {a b : UInt8} (h : b ≤ a) (hb : 0xC0 ≤ b) : 0xC0 ≤ a := UInt8.le_trans hb h
  cases h with
  | one ha => exact ⟨_, _, rfl, hnot (.inl ha), by simp, by simp⟩
  | two ha hb =>
      exact ⟨_, _, rfl, hnot (.inr (hle ha.1 (by decide))), by simpa using hb, by simp⟩
  | three ha hb _ _ hc =>
      exact ⟨_, _, rfl, hnot (.inr (hle ha.1 (by decide))), by simpa using ⟨hb, hc⟩, by simp⟩
  | four ha hb _ _ hc hd =>
      exact ⟨_, _, rfl, hnot (.inr (hle ha.1 (by decide))), by simpa using ⟨hb, hc, hd⟩, by simp⟩

/-! ### Texts -/

theorem Text.append {a b : List UInt8} (ha : Text a) (hb : Text b) : Text (a ++ b) := by
  induction ha with
  | nil => exact hb
  | cons c _ ih =>
      rw [List.append_assoc]
      exact .cons c ih

/-- ASCII is a text. -/
theorem text_of_ascii {s : List UInt8} (h : ∀ b ∈ s, b < 0x80) : Text s := by
  induction s with
  | nil => exact .nil
  | cons b s ih =>
      have hb : b.toNat < 128 := h b (by simp)
      have hchar : String.utf8EncodeChar (Char.ofNat b.toNat) = [b] := by
        have hval : (Char.ofNat b.toNat).val.toNat = b.toNat := by
          have hv : b.toNat.isValidChar := .inl (by omega)
          rw [Char.ofNat, dif_pos hv]
          rfl
        unfold String.utf8EncodeChar
        dsimp only
        rw [hval, if_pos (by omega), UInt8.ofNat_toNat]
      have htext := Text.cons (Char.ofNat b.toNat) (ih fun c hc => h c (List.mem_cons_of_mem b hc))
      rwa [hchar] at htext

/-- A text can be cut where a character begins. -/
theorem Text.cut {s : List UInt8} (h : Text s) {n : Nat} (hn : ∀ b ∈ s[n]?, ¬ Tail b) :
    Text (s.take n) ∧ Text (s.drop n) := by
  induction h generalizing n with
  | nil => simp [Text.nil]
  | @cons c rest hrest ih =>
      obtain ⟨a, more, hchar, -, htail, -⟩ := (isChar_utf8EncodeChar c).cases_tail
      rcases Nat.lt_or_ge n (String.utf8EncodeChar c).length with hlt | hge
      · cases n with
        | zero => exact ⟨.nil, .cons c hrest⟩
        | succ n =>
            -- within the character, every byte goes on with it
            rw [hchar] at hlt hn
            have hlt : n < more.length := by simpa using hlt
            exact absurd (htail more[n] (List.getElem_mem hlt))
              (hn more[n] (by simp [List.getElem?_append_left hlt]))
      · rw [List.getElem?_append_right hge] at hn
        rw [List.take_append, List.take_of_length_le hge, List.drop_append,
          List.drop_eq_nil_of_le hge]
        exact ⟨.cons c (ih hn).1, (ih hn).2⟩

/-- A text begins with no byte that goes on with a character. -/
theorem Text.head {s : List UInt8} (h : Text s) : ∀ b ∈ s.head?, ¬ Tail b := by
  cases h with
  | nil => simp
  | @cons c rest _ =>
      obtain ⟨a, more, hchar, hhead, -, -⟩ := (isChar_utf8EncodeChar c).cases_tail
      simpa [hchar] using hhead

/-- Behind an ASCII byte a text goes on with the next character. -/
theorem Text.of_ascii_cons {a : UInt8} {s : List UInt8} (h : Text (a :: s)) (ha : a < 0x80) :
    Text s := by
  generalize hs : a :: s = t at h
  cases h with
  | nil => cases hs
  | @cons c rest hrest =>
      have hlead {d : UInt8} (hd : 0xC2 ≤ d) (heq : a = d) : False := by
        subst heq
        exact absurd (UInt8.lt_of_lt_of_le ha (UInt8.le_trans (by decide) hd)) (UInt8.lt_irrefl _)
      generalize hchar : String.utf8EncodeChar c = char at hs
      have hform := hchar ▸ isChar_utf8EncodeChar c
      cases hform with
      | one _ =>
          rw [List.singleton_append] at hs
          exact (List.cons.inj hs).2 ▸ hrest
      | two hd _ => exact (hlead hd.1 (List.cons.inj hs).1).elim
      | three hd _ _ _ _ => exact (hlead (UInt8.le_trans (by decide) hd.1) (List.cons.inj hs).1).elim
      | four hd _ _ _ _ _ =>
          exact (hlead (UInt8.le_trans (by decide) hd.1) (List.cons.inj hs).1).elim

/-- An ASCII byte stands between texts. -/
theorem Text.of_ascii_append {a b : List UInt8} {c : UInt8} (h : Text (a ++ c :: b))
    (hc : c < 0x80) : Text a ∧ Text b := by
  have hstart : ∀ x ∈ (a ++ c :: b)[a.length]?, ¬ Tail x := by
    intro x hx
    rw [List.getElem?_append_right (Nat.le_refl _), Nat.sub_self] at hx
    obtain rfl : c = x := by simpa using hx
    exact fun htail => absurd (UInt8.lt_of_lt_of_le hc htail.1) (UInt8.lt_irrefl _)
  obtain ⟨ha, hb⟩ := h.cut hstart
  rw [List.take_left] at ha
  rw [List.drop_left] at hb
  exact ⟨ha, hb.of_ascii_cons hc⟩

/-- A character begins among any four bytes. -/
theorem Text.exists_start {s : List UInt8} (h : Text s) (n : Nat) :
    ∃ m ≤ n, n < m + 4 ∧ ∀ b ∈ s[m]?, ¬ Tail b := by
  induction h generalizing n with
  | nil => exact ⟨n, Nat.le_refl n, by omega, by simp⟩
  | @cons c rest hrest ih =>
      obtain ⟨a, more, hchar, hhead, -, hlen⟩ := (isChar_utf8EncodeChar c).cases_tail
      rcases Nat.lt_or_ge n (String.utf8EncodeChar c).length with hlt | hge
      · rw [hchar] at hlt ⊢
        have : n < more.length + 1 := by simpa using hlt
        exact ⟨0, Nat.zero_le n, by omega, by simpa using hhead⟩
      · obtain ⟨m, hm, hnear, hstart⟩ := ih (n - (String.utf8EncodeChar c).length)
        refine ⟨m + (String.utf8EncodeChar c).length, by omega, by omega, ?_⟩
        rw [List.getElem?_append_right (by omega), Nat.add_sub_cancel]
        exact hstart

end IrcBot.Lib.Utf8
