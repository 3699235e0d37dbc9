/-
# The two spellings of a message

A last parameter without spaces can stand with a `:` in front or without: that is one
message, and `handle_line` takes both lines apart in the same way. The parameters are another
matter: what a handler cuts out of them is said here place by place.

* `splitLine_line` — the prefix, the command and the text behind it.
* `secondTok_text`, `tokens_text` — a token is a parameter as it is spelt;
  `getElem?_params` — all but the last are spelt alike.
-/
import IrcBot.HandleLine
import IrcBot.Lib.IrcMessage

namespace IrcBot.Spelling

open Cstr Chancfg Chanlive IrcLine HandleLine Lib.IrcMessage

/-! ### Parameters -/

/-- Parameters with a space between them. -/
def paramStr (ps : List Str) : Str := (words ps).tail

theorem byte_space : byte ' ' = space := by decide

theorem mem_blank {c : UInt8} : c ∈ str " " ↔ c = space := by
  rw [show str " " = [space] by decide, List.mem_singleton]

theorem words_cons (w : Str) (ws : List Str) : words (w :: ws) = space :: (w ++ words ws) := rfl

theorem paramStr_cons (w : Str) (ws : List Str) : paramStr (w :: ws) = w ++ words ws := rfl

variable {w : Str} {ws : List Str}

/-- The first token is the first parameter. -/
theorem tokNext_paramStr (hw : Word w) :
    tokNext (str " ") (paramStr (w :: ws)) = (some w, paramStr ws) := by
  obtain ⟨hne, hspace⟩ := hw
  have hall : ∀ c ∈ w, decide (c ∉ str " ") = true := by
    intro c hc
    exact decide_eq_true fun hblank => hspace (mem_blank.mp hblank ▸ hc)
  have hdrop : (w ++ words ws).dropWhile (· ∈ str " ") = w ++ words ws := by
    obtain ⟨c, w, rfl⟩ := List.exists_cons_of_ne_nil hne
    have hc := hall c List.mem_cons_self
    rw [List.cons_append, List.dropWhile_cons_of_neg (by simpa using hc)]
  have hwords : (words ws).takeWhile (· ∉ str " ") = [] ∧
      ((words ws).dropWhile (· ∉ str " ")).drop 1 = paramStr ws := by
    cases ws with
    | nil => exact ⟨rfl, rfl⟩
    | cons v vs =>
        have hs : ¬ decide (space ∉ str " ") = true := by decide
        rw [words_cons]
        refine ⟨List.takeWhile_cons_of_neg hs, ?_⟩
        rw [List.dropWhile_cons_of_neg (p := fun c => decide (c ∉ str " ")) hs]
        rfl
  unfold tokNext
  rw [paramStr_cons, hdrop, if_neg (by simp [hne]), List.takeWhile_append_of_pos hall,
    List.dropWhile_append_of_pos hall, hwords.1, hwords.2, List.append_nil]

@[simp] theorem tokNext_nil : tokNext (str " ") [] = (none, []) := rfl

/-- The second token is the second parameter. -/
theorem secondTok_paramStr (hws : ∀ w ∈ ws, Word w) : secondTok (paramStr ws) = ws[1]? := by
  unfold secondTok
  cases ws with
  | nil => rfl
  | cons w ws =>
      rw [tokNext_paramStr (hws w List.mem_cons_self)]
      cases ws with
      | nil => rfl
      | cons v vs => rw [tokNext_paramStr (hws v (by simp))]; rfl

theorem tokens_paramStr (hws : ∀ w ∈ ws, Word w) : tokens (paramStr ws) = ws := by
  induction ws with
  | nil => rfl
  | cons w ws ih =>
      have hw := hws w List.mem_cons_self
      have hfilter (rest : List Str) :
          (w :: rest).filter (fun s => !s.isEmpty) = w :: rest.filter fun s => !s.isEmpty :=
        List.filter_cons_of_pos (by simpa using hw.ne_nil)
      have ih := ih fun v hv => hws v (List.mem_cons_of_mem w hv)
      unfold tokens at ih ⊢
      cases ws with
      | nil =>
          rw [paramStr_cons, show words [] = [] from rfl, List.append_nil,
            byte_space, splitOn_of_notMem hw.no_space, hfilter]
          rfl
      | cons v vs =>
          rw [paramStr_cons, words_cons, byte_space, splitOn_append hw.no_space, hfilter]
          rw [byte_space] at ih
          exact congrArg (w :: ·) ih

theorem firstWord_paramStr (hw : Word w) : firstWord (paramStr (w :: ws)) = w := by
  have hall : ∀ c ∈ w, decide (c ≠ byte ' ') = true := by
    intro c hc
    exact decide_eq_true fun heq => hw.no_space (byte_space ▸ heq ▸ hc)
  unfold firstWord
  rw [paramStr_cons, List.takeWhile_append_of_pos hall]
  cases ws with
  | nil => exact List.append_nil w
  | cons v vs =>
      rw [words_cons, List.takeWhile_cons_of_neg (by decide), List.append_nil]

/-! ### A message and its spellings -/

/-- A parameter that is not mistaken for a last one. -/
structure Plain (w : Str) : Prop extends Word w where
  no_colon : w.head? ≠ some colon

theorem Plain.head_ne {w : Str} (h : Plain w) : w.head? ≠ some (byte ':') := h.no_colon

/-- A message whose last parameter can be spelt both ways. -/
structure Message where
  pre : Option Str
  command : Str
  middles : List Str
  last : Str
  pre_no_space : ∀ p ∈ pre, space ∉ p
  command_plain : Plain command
  middles_plain : ∀ w ∈ middles, Plain w
  last_plain : Plain last

namespace Message

variable (m : Message) (c : Bool)

/-- The last parameter as it is spelt: with a `:` in front, or without. -/
def spelt : Str := if c then colon :: m.last else m.last

def params : List Str := m.middles ++ [m.spelt c]

def text : Str := paramStr (m.params c)

/-- The line of a message. -/
def line : Str := m.pre.elim [] (fun p => colon :: p ++ [space]) ++ m.command ++ words (m.params c)

/-- The place of the last parameter. -/
def place : Nat := m.middles.length

theorem word_spelt : Word (m.spelt c) := by
  cases c with
  | false => exact m.last_plain.toWord
  | true => exact ⟨List.cons_ne_nil _ _, by simpa [spelt, space, colon] using m.last_plain.no_space⟩

theorem word_params : ∀ w ∈ m.params c, Word w := by
  intro w hw
  rcases List.mem_append.mp hw with h | h
  · exact (m.middles_plain w h).toWord
  · exact List.mem_singleton.mp h ▸ m.word_spelt c

/-- **Both spellings are the same message.** -/
theorem params_text :
    Lib.IrcMessage.params (words (m.params c)) = m.middles ++ [m.last] := by
  have hlast : Lib.IrcMessage.text (m.spelt c) = m.last := by
    cases c with
    | false => exact text_of_ne m.last_plain.no_colon
    | true => rfl
  have hmiddles : m.middles.map Lib.IrcMessage.text = m.middles := by
    conv_rhs => rw [← List.map_id m.middles]
    exact List.map_congr_left fun w hw => text_of_ne (m.middles_plain w hw).no_colon
  rw [(params_words (m.word_params c)).mpr]
  · rw [params, List.map_append, hmiddles, List.map_singleton, hlast]
  · intro w hw
    rw [params, List.dropLast_concat] at hw
    exact (m.middles_plain w hw).no_colon

theorem exists_params : ∃ w ws, m.params c = w :: ws :=
  List.exists_cons_of_ne_nil (by simp [params])

/-- The line is taken apart the same way whichever its spelling. -/
theorem splitLine_line : splitLine (m.line c) = some (m.pre, m.command, m.text c) := by
  have hrest : splitOnce (byte ' ') (m.command ++ words (m.params c)) =
    some (m.command, m.text c) := by
    obtain ⟨w, ws, hps⟩ := m.exists_params c
    rw [text, hps, words_cons, byte_space, splitOnce_append m.command_plain.no_space]
    rfl
  unfold splitLine line
  cases hpre : m.pre with
  | none =>
      have hhead : (m.command ++ words (m.params c)).head? ≠ some (byte ':') := by
        obtain ⟨x, xs, hx⟩ := List.exists_cons_of_ne_nil m.command_plain.ne_nil
        have hne := m.command_plain.no_colon
        rw [hx] at hne ⊢
        exact hne
      rw [Option.elim_none, List.nil_append, if_neg hhead, hrest]
      rfl
  | some p =>
      have hp := m.pre_no_space p (by rw [hpre]; rfl)
      rw [Option.elim_some, if_pos (by rfl)]
      show ((splitOnce (byte ' ') (p ++ [space] ++ m.command ++ words (m.params c))).bind _) = _
      rw [List.append_assoc, List.append_assoc, byte_space, List.singleton_append,
        splitOnce_append hp, Option.bind_some]
      show (splitOnce (byte ' ') (m.command ++ words (m.params c))).map _ = _
      rw [hrest]
      rfl

/-! ### What the handlers cut out -/

variable {m c}

/-- A parameter that is not the last one. -/
theorem getElem?_params {i : Nat} (hi : i ≠ m.place) : (m.params c)[i]? = m.middles[i]? := by
  unfold params
  rcases Nat.lt_or_gt_of_ne hi with hlt | hgt
  · exact List.getElem?_append_left hlt
  · have hout : m.middles.length + 1 ≤ i := hgt
    rw [List.getElem?_eq_none (by simpa using hout), List.getElem?_eq_none (by omega)]

theorem getElem?_place : (m.params c)[m.place]? = some (m.spelt c) := List.getElem?_concat_length

theorem secondTok_text : secondTok (m.text c) = (m.params c)[1]? :=
  secondTok_paramStr (m.word_params c)

theorem tokens_text : tokens (m.text c) = m.params c := tokens_paramStr (m.word_params c)

/-- Only a last parameter that stands alone begins the text with its `:`. -/
theorem head_text (h : m.place ≠ 0 ∨ c = false) : (m.text c).head? ≠ some colon := by
  have hplain {w : Str} (hw : Plain w) (rest : List Str) :
      (paramStr (w :: rest)).head? ≠ some colon := by
    obtain ⟨x, xs, rfl⟩ := List.exists_cons_of_ne_nil hw.ne_nil
    exact hw.no_colon
  unfold text params
  cases hmiddles : m.middles with
  | cons w ws => exact hplain (m.middles_plain w (by rw [hmiddles]; exact List.mem_cons_self)) _
  | nil =>
      have hc : c = false := h.resolve_left (not_not_intro (by rw [place, hmiddles]; rfl))
      subst hc
      exact hplain m.last_plain []

theorem text_of_place_zero (h : m.place = 0) : m.text c = m.spelt c := by
  rw [text, params, List.length_eq_zero_iff.mp h]
  exact List.append_nil _

theorem stripColon_text_of_zero (h : m.place = 0) : stripColon (m.text c) = m.last := by
  rw [text_of_place_zero h]
  cases c with
  | true => rfl
  | false => exact if_neg m.last_plain.no_colon

theorem stripColon_text (h : m.place ≠ 0) : stripColon (m.text c) = m.text c :=
  if_neg (head_text (.inl h))

end Message

/-- The length of parameters goes with that of the last one. -/
theorem length_paramStr_concat (ws : List Str) (x : Str) :
    (paramStr (ws ++ [x])).length = (words ws).length + x.length := by
  simp [paramStr, words, List.flatMap_append]

namespace Message

variable {m : Message}

theorem length_text : (m.text true).length = (m.text false).length + 1 := by
  rw [text, text, params, params, length_paramStr_concat, length_paramStr_concat]
  rfl

/-- A line that `handle_line` takes for a PING of the server. -/
theorem not_ping {c : Bool}
    (h : m.command = str "PING" → m.pre = none → m.place ≠ 0 ∨ c = false) :
    ¬ (str "PING :").isPrefixOf (m.line c) = true := by
  intro hping
  obtain ⟨t, ht⟩ := List.isPrefixOf_iff_prefix.mp hping
  cases hpre : m.pre with
  | some p =>
      have hhead := congrArg List.head? ht
      rw [line, hpre] at hhead
      revert hhead
      simp [str, colon]
      decide
  | none =>
      have hsplit := m.splitLine_line c
      rw [← ht, hpre] at hsplit
      have hsplit' : splitLine (str "PING :" ++ t) = some (none, str "PING", byte ':' :: t) := by
        rfl
      rw [hsplit', Option.some.injEq, Prod.mk.injEq, Prod.mk.injEq] at hsplit
      have htext := head_text (h hsplit.2.1.symm hpre)
      rw [← hsplit.2.2] at htext
      exact htext rfl

end Message

end IrcBot.Spelling
