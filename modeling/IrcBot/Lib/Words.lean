/-
# Words

The words of a list are the longest pieces of it without a separator. Of a text they are the
pieces without white space, character by character.

* `words_append_cons`, `words_eq_singleton`, `mem_words` — the words of a list.
* `chars_append` — the characters of a text.
* `splitWhitespace_append_cons`, `splitWhitespace_eq_singleton`, `mem_splitWhitespace` — the words
  of a text.
-/
import IrcBot.Lib.Utf8
import Mathlib.Data.List.SplitBy

namespace IrcBot.Lib

/-! ### Words of a list -/

section List

variable {α : Type} {p : α → Bool} {l w : List α}

/-- The longest pieces without a separator. -/
def words (p : α → Bool) (l : List α) : List (List α) := (l.splitOnP p).filter (!·.isEmpty)

theorem words_append_cons {sep : α} (hsep : p sep = true) (l rest : List α) :
    words p (l ++ sep :: rest) = words p l ++ words p rest := by
  rw [words, List.splitOnP_append_cons l rest hsep, List.filter_append]
  rfl

theorem words_eq_singleton (hne : w ≠ []) (hw : ∀ x ∈ w, p x = false) : words p w = [w] := by
  have hkept : (!w.isEmpty) = true := by simpa using hne
  rw [words, List.splitOnP_eq_singleton hw, List.filter_singleton, hkept]
  rfl

/-- No piece has a separator in it. -/
theorem mem_splitOnP (hw : w ∈ l.splitOnP p) : ∀ x ∈ w, x ∈ l ∧ p x = false := by
  induction l generalizing w with
  | nil =>
      rw [List.splitOnP_nil, List.mem_singleton] at hw
      simp [hw]
  | cons a l ih =>
      have hold {w : List α} (hw : w ∈ l.splitOnP p) : ∀ x ∈ w, x ∈ a :: l ∧ p x = false :=
        fun x hx => (ih hw x hx).imp_left (List.mem_cons_of_mem a)
      rw [List.splitOnP_cons_eq_if_modifyHead] at hw
      split at hw
      · rcases List.mem_cons.mp hw with rfl | hw
        · simp
        · exact hold hw
      · rename_i hnot
        cases hsplit : l.splitOnP p with
        | nil => exact absurd hsplit (List.splitOnP_ne_nil p l)
        | cons first rest =>
            rw [hsplit, List.modifyHead_cons] at hw
            rcases List.mem_cons.mp hw with rfl | hw
            · -- the first piece goes on from the new element
              refine List.forall_mem_cons.mpr ⟨⟨List.mem_cons_self, by simpa using hnot⟩, ?_⟩
              exact hold (by simp [hsplit])
            · exact hold (by simp [hsplit, hw])

theorem mem_words (hw : w ∈ words p l) : w ≠ [] ∧ ∀ x ∈ w, x ∈ l ∧ p x = false := by
  obtain ⟨hmem, hne⟩ := List.mem_filter.mp hw
  exact ⟨by simpa using hne, mem_splitOnP hmem⟩

end List

/-! ### Characters of a text -/

open Utf8

/-- The bytes, each character by itself. -/
def chars (s : List UInt8) : List (List UInt8) := s.splitBy fun _ b => Tail b

/-- A byte that begins a character, with those that go on with it. -/
def Starts (c : List UInt8) : Prop := ∃ a rest, c = a :: rest ∧ ¬ Tail a ∧ ∀ b ∈ rest, Tail b

@[simp] theorem flatten_chars (s : List UInt8) : (chars s).flatten = s := List.flatten_splitBy _ s

theorem chars_flatten {cs : List (List UInt8)} (h : ∀ c ∈ cs, Starts c) :
    chars cs.flatten = cs := by
  refine List.splitBy_flatten (fun hnil => ?_) (fun c hc => ?_) ?_
  · obtain ⟨a, rest, heq, -, -⟩ := h [] hnil
    cases heq
  · obtain ⟨a, rest, rfl, -, htail⟩ := h c hc
    refine List.isChain_iff_getElem.mpr fun i hi => decide_eq_true ?_
    exact htail _ (List.getElem_mem (Nat.lt_of_succ_lt_succ hi))
  · refine List.isChain_iff_getElem.mpr fun i hi => ?_
    obtain ⟨a, rest, hc, -, -⟩ := h cs[i] (List.getElem_mem _)
    obtain ⟨b, more, hd, hhead, -⟩ := h cs[i + 1] (List.getElem_mem _)
    refine ⟨by simp [hc], by simp [hd], ?_⟩
    simpa [hd] using hhead

theorem exists_chars {s : List UInt8} (h : Text s) :
    ∃ cs : List (List UInt8), cs.flatten = s ∧ ∀ c ∈ cs, Starts c := by
  induction h with
  | nil => exact ⟨[], rfl, by simp⟩
  | @cons c rest _ ih =>
      obtain ⟨cs, rfl, hstarts⟩ := ih
      obtain ⟨a, more, hchar, hhead, htail, -⟩ := (isChar_utf8EncodeChar c).cases_tail
      refine ⟨String.utf8EncodeChar c :: cs, rfl, List.forall_mem_cons.mpr ⟨?_, hstarts⟩⟩
      exact ⟨a, more, hchar, hhead, htail⟩

theorem starts_of_mem_chars {s c : List UInt8} (h : Text s) (hc : c ∈ chars s) : Starts c := by
  obtain ⟨cs, rfl, hstarts⟩ := exists_chars h
  rw [chars_flatten hstarts] at hc
  exact hstarts c hc

/-- The characters of two texts are those of the one and then those of the other. -/
theorem chars_append {a b : List UInt8} (ha : Text a) (hb : Text b) :
    chars (a ++ b) = chars a ++ chars b := by
  obtain ⟨cs, rfl, hcs⟩ := exists_chars ha
  obtain ⟨ds, rfl, hds⟩ := exists_chars hb
  rw [← List.flatten_append, chars_flatten hcs, chars_flatten hds]
  exact chars_flatten fun c hc => (List.mem_append.mp hc).elim (hcs c) (hds c)

theorem chars_append_cons {a b : List UInt8} {c : UInt8} (ha : Text a) (hb : Text b)
    (hc : c < 0x80) : chars (a ++ c :: b) = chars a ++ [c] :: chars b := by
  have htext : Text [c] := text_of_ascii (by simpa using hc)
  rw [← List.singleton_append (x := c), chars_append ha (htext.append hb), chars_append htext hb]
  rfl

/-- An ASCII byte of a text is a character. -/
theorem singleton_mem_chars {s : List UInt8} (h : Text s) {c : UInt8} (hc : c < 0x80)
    (hmem : c ∈ s) : [c] ∈ chars s := by
  obtain ⟨a, b, rfl⟩ := List.append_of_mem hmem
  obtain ⟨ha, hb⟩ := h.of_ascii_append hc
  rw [chars_append_cons ha hb hc]
  exact List.mem_append_right _ List.mem_cons_self

/-! ### Words of a text -/

/-- The characters that are white space. -/
def whiteSpace : List Nat :=
  [0x09, 0x0A, 0x0B, 0x0C, 0x0D, 0x20, 0x85, 0xA0, 0x1680, 0x2000, 0x2001, 0x2002, 0x2003, 0x2004,
    0x2005, 0x2006, 0x2007, 0x2008, 0x2009, 0x200A, 0x2028, 0x2029, 0x202F, 0x205F, 0x3000]

def isWhitespace (c : List UInt8) : Bool :=
  whiteSpace.any fun n => String.utf8EncodeChar (Char.ofNat n) == c

/-- The words of a text. -/
def splitWhitespace (s : List UInt8) : List (List UInt8) :=
  (words isWhitespace (chars s)).map List.flatten

/-- A text without white space. -/
def Unspaced (s : List UInt8) : Prop := ∀ c ∈ chars s, isWhitespace c = false

theorem unspaced_of_all {s : List UInt8}
    (h : (chars s).all (!isWhitespace ·) = true) : Unspaced s :=
  fun c hc => by simpa using List.all_eq_true.mp h c hc

theorem splitWhitespace_append_cons {a b : List UInt8} {c : UInt8} (ha : Text a) (hb : Text b)
    (hc : c < 0x80) (hspace : isWhitespace [c] = true) :
    splitWhitespace (a ++ c :: b) = splitWhitespace a ++ splitWhitespace b := by
  rw [splitWhitespace, chars_append_cons ha hb hc, words_append_cons hspace, List.map_append]
  rfl

theorem splitWhitespace_eq_singleton {s : List UInt8} (hne : s ≠ []) (hs : Unspaced s) :
    splitWhitespace s = [s] := by
  have hchars : chars s ≠ [] := List.splitBy_ne_nil.mpr hne
  rw [splitWhitespace, words_eq_singleton hchars hs, List.map_singleton, flatten_chars]

theorem mem_splitWhitespace {s w : List UInt8} (hs : Text s) (hw : w ∈ splitWhitespace s) :
    w ≠ [] ∧ Unspaced w := by
  obtain ⟨cs, hcs, rfl⟩ := List.mem_map.mp hw
  obtain ⟨hne, hmem⟩ := mem_words hcs
  have hchars : chars cs.flatten = cs :=
    chars_flatten fun c hc => starts_of_mem_chars hs (hmem c hc).1
  refine ⟨fun hnil => hne ?_, fun c hc => ?_⟩
  · rw [← hchars, hnil]
    rfl
  · rw [hchars] at hc
    exact (hmem c hc).2

end IrcBot.Lib
