/-
# What a MODE line means (`sendq.rs`)

`acts` is what a line means to the server: the changes of a MODE line, each with the argument
that RFC 1459 gives it, or the line as it stands.

* `acts_of_shape` — a line that the queue takes for one change means that change.
* `acts_packedLine_iff` — a packed line means its changes exactly when no argument that begins
  with `:` stands ahead of another one.
-/
import IrcBot.Chanlive
import IrcBot.Lib.IrcMessage
import IrcBot.SendqRuns

namespace IrcBot.Sendq

open Cstr Chanlive Lib.IrcMessage

/-! ### What a line means -/

/-- What the server is told. -/
inductive Act where
  /-- One change of a channel, whose name is folded to lower case. -/
  | mode (chan : Str) (change : (Bool × UInt8) × Option Str)
  | line (line : Str)
deriving DecidableEq, Repr

/-- A line, less its end. -/
def bodyOf (line : Str) : Str := line.takeWhile fun c => !isBreak c

/-- The sign of a change, as it is written. -/
def signByte (adding : Bool) : UInt8 := if adding then byte '+' else byte '-'

/-- The letters with arguments: the queue's rule for those it knows, and any for the others. -/
def takesArg (other : Bool → UInt8 → Bool) (x : Bool × UInt8) : Bool :=
  (needsArg (signByte x.1) x.2).getD (other x.1 x.2)

/-- What a line means. -/
def acts (other : Bool → UInt8 → Bool) (line : Str) : List Act :=
  if eqIc (verbOf line) (str "MODE") then
    match params ((bodyOf line).drop (verbOf line).length) with
    | chan :: modes :: args =>
        (Lib.ArgWalk.assign (takesArg other) (signed true modes) args).map (.mode (chan.map lower))
    | _ => []
  else [.line line]

/-! ### A line with one change -/

/-- What `mode_item_parse` makes sure of. -/
structure ModeItem.Ok (it : ModeItem) : Prop where
  chan_ne_nil : it.chan ≠ []
  chan_lt : it.chan.length < maxChan
  chan_clean : ∀ c ∈ it.chan, c ≠ byte ' ' ∧ isBreak c = false
  sign : it.sign = byte '+' ∨ it.sign = byte '-'
  needs : needsArg it.sign it.letter = some it.hasArg
  arg_iff : it.hasArg = !it.arg.isEmpty
  arg_lt : it.arg.length < 300
  arg_clean : ∀ c ∈ it.arg, c ≠ byte ' ' ∧ isBreak c = false

/-- A line with one change: the verb, the channel, the letter, and the argument if there is
one. -/
structure Shape (line : Str) (it : ModeItem) : Prop where
  ok : it.Ok
  shape : ∃ verb tail, line = verb ++ byte ' ' :: (it.chan ++ byte ' ' :: it.sign :: it.letter :: tail) ∧
    eqIc verb (str "MODE") = true ∧
    (bodyOf tail = byte ' ' :: it.arg ∨ bodyOf tail = [] ∧ it.arg = [])

theorem mem_of_needsArg {s c : UInt8} {b : Bool} (h : needsArg s c = some b) :
    c ∈ str "ovhbeIklimnpst" := by
  unfold needsArg at h
  split at h
  · rename_i hin
    have hsub : ∀ x ∈ str "ovhbeIk", x ∈ str "ovhbeIklimnpst" := forall_of_all (by decide)
    exact hsub c (by simpa using hin)
  · split at h
    · rename_i hl
      subst hl
      decide
    · split at h
      · rename_i hin
        have hsub : ∀ x ∈ str "imnpst", x ∈ str "ovhbeIklimnpst" :=
          forall_of_all (by decide)
        exact hsub c (by simpa using hin)
      · cases h

/-- A letter with a known rule is none of the characters that shape a line. -/
theorem plain_of_needsArg {s c : UInt8} {b : Bool} (h : needsArg s c = some b) :
    c ≠ byte ' ' ∧ isBreak c = false ∧ c ≠ byte '+' ∧ c ≠ byte '-' := by
  have hall : ∀ x ∈ str "ovhbeIklimnpst",
      x ≠ byte ' ' ∧ isBreak x = false ∧ x ≠ byte '+' ∧ x ≠ byte '-' := by decide +kernel
  exact hall c (mem_of_needsArg h)

theorem mem_takeWhile_clean {s : Str} {c : UInt8}
    (h : c ∈ s.takeWhile fun c => c != byte ' ' && !isBreak c) :
    c ≠ byte ' ' ∧ isBreak c = false := by
  have hc := List.mem_takeWhile_imp h
  simpa [Bool.and_eq_true] using hc

/-- A list up to where a test fails, and the rest of it. -/
theorem exists_takeWhile_append (p : UInt8 → Bool) (s : Str) :
    ∃ t, s = s.takeWhile p ++ t ∧ ∀ c ∈ t.head?, p c = false := by
  refine ⟨s.dropWhile p, List.takeWhile_append_dropWhile.symm, fun c hc => ?_⟩
  have hnot := List.head?_dropWhile_not p s
  rw [Option.mem_def.mp hc] at hnot
  simpa using hnot

theorem bodyOf_append {s : Str} (hs : ∀ c ∈ s, isBreak c = false) (t : Str) :
    bodyOf (s ++ t) = s ++ bodyOf t := List.takeWhile_append_of_pos fun c hc => by simp [hs c hc]

theorem bodyOf_cons {c : UInt8} (hc : isBreak c = false) (t : Str) :
    bodyOf (c :: t) = c :: bodyOf t := List.takeWhile_cons_of_pos (by simp [hc])

/-- The one word of a line. -/
theorem bodyOf_eq_word {a : Str}
    (h : a[(a.takeWhile fun c => c != byte ' ' && !isBreak c).length]? ≠ some (byte ' ')) :
    bodyOf a = a.takeWhile fun c => c != byte ' ' && !isBreak c := by
  obtain ⟨rest, ha, hrest⟩ := exists_takeWhile_append (fun c => c != byte ' ' && !isBreak c) a
  have hword := fun c hc => (mem_takeWhile_clean (s := a) (c := c) hc).2
  generalize a.takeWhile (fun c => c != byte ' ' && !isBreak c) = word at *
  subst ha
  rw [bodyOf_append hword]
  cases rest with
  | nil => exact List.append_nil word
  | cons c rest =>
      have hend : c ≠ byte ' ' := by
        rintro rfl
        simp at h
      have hbreak : isBreak c = true := by simpa [hend] using hrest c rfl
      rw [bodyOf, List.takeWhile_cons_of_neg (by simp [hbreak]), List.append_nil]

/-- The change, and what follows its letter. -/
theorem shape_of_modeChangeParse {chan p : Str} {it : ModeItem}
    (h : modeChangeParse chan p = some it) :
    it.chan = chan ∧ (it.sign = byte '+' ∨ it.sign = byte '-') ∧
      needsArg it.sign it.letter = some it.hasArg ∧ it.hasArg = !it.arg.isEmpty ∧
      it.arg.length < 300 ∧ (∀ c ∈ it.arg, c ≠ byte ' ' ∧ isBreak c = false) ∧
      ∃ tail, p = it.sign :: it.letter :: tail ∧
        (bodyOf tail = byte ' ' :: it.arg ∨ bodyOf tail = [] ∧ it.arg = []) := by
  rcases p with _ | ⟨s, _ | ⟨l, tail⟩⟩
  · cases h
  · simp [modeChangeParse] at h
  · unfold modeChangeParse at h
    simp only [List.getD_cons_zero, List.getD_cons_succ, List.drop_succ_cons, List.drop_zero] at h
    generalize ha : (if tail.head? == some (byte ' ') then tail.drop 1 else tail) = a at h
    split at h
    · cases h
    · rename_i hhead
      split at h
      · cases h
      · rename_i hend
        split at h
        · cases h
        · rename_i needs hneeds
          split at h
          · cases h
          · rename_i harg
            obtain rfl := Option.some.inj h
            simp only [Bool.or_eq_true, Bool.and_eq_true, decide_eq_true_eq, beq_iff_eq, not_or,
              not_and_or, not_le, not_not, ne_eq, Bool.not_eq_true'] at hhead harg hend
            obtain ⟨⟨⟨hsign, -⟩, -⟩, hthird⟩ := hhead
            obtain ⟨⟨hneedsArg, hlen⟩, -⟩ := harg
            refine ⟨rfl, hsign, hneeds, hneedsArg, hlen, fun c hc => mem_takeWhile_clean hc,
              tail, rfl, ?_⟩
            have hbody : bodyOf a = _ := bodyOf_eq_word hend
            split at ha
            · rename_i hspace
              obtain ⟨a', rfl⟩ : ∃ a', tail = byte ' ' :: a' := by
                cases tail with
                | nil => cases hspace
                | cons c a' => exact ⟨a', by simpa using hspace⟩
              rw [List.drop_one, List.tail_cons] at ha
              subst ha
              exact .inl (by rw [bodyOf_cons (by decide), hbody])
            · rename_i hspace
              subst ha
              -- the letter is the end of the line
              obtain ⟨a', rfl⟩ : ∃ a', tail = 13 :: a' := by
                cases tail with
                | nil => exact absurd hthird (by decide)
                | cons c a' =>
                    rw [List.getD_cons_zero] at hthird
                    rcases hthird with rfl | rfl
                    · exact absurd rfl hspace
                    · exact ⟨a', rfl⟩
              exact .inr ⟨rfl, rfl⟩

theorem verb_of_eqIc {x : Str} (h : eqIc x (str "MODE ") = true) :
    ∃ verb, x = verb ++ [byte ' '] ∧ eqIc verb (str "MODE") = true := by
  rw [eqIc_iff] at h
  obtain ⟨verb, space, rfl, hverb, hspace⟩ : ∃ verb space, x = verb ++ space ∧
      verb.map lower = (str "MODE").map lower ∧ space.map lower = [byte ' '] :=
    List.map_eq_append_iff.mp (h.trans (rfl : _ = (str "MODE").map lower ++ [byte ' ']))
  obtain ⟨c, rfl, hc⟩ := List.map_eq_singleton_iff.mp hspace
  obtain rfl := eq_of_lower (by decide) hc
  exact ⟨verb, rfl, eqIc_iff.mpr hverb⟩

/-- The letters of a verb neither part words nor end a line. -/
theorem clean_of_eqIc {verb : Str} (h : eqIc verb (str "MODE") = true) :
    ∀ c ∈ verb, c ≠ byte ' ' ∧ isBreak c = false := by
  intro c hc
  have hmem : lower c ∈ (str "MODE").map lower := by
    rw [← eqIc_iff.mp h]
    exact List.mem_map_of_mem hc
  have hall : ∀ d ∈ (str "MODE").map lower, d ≠ byte ' ' ∧ d ≠ 13 ∧ d ≠ 10 :=
    forall_of_all (by decide)
  obtain ⟨hspace, hcr, hlf⟩ := hall _ hmem
  refine ⟨?_, ?_⟩
  · rintro rfl
    exact hspace rfl
  · unfold isBreak
    rw [Bool.or_eq_false_iff, beq_eq_false_iff_ne, beq_eq_false_iff_ne]
    constructor
    · rintro rfl
      exact hcr rfl
    · rintro rfl
      exact hlf rfl

theorem shape_of_modeItemParse {line : Str} {it : ModeItem} (h : modeItemParse line = some it) :
    Shape line it := by
  unfold modeItemParse at h
  dsimp only at h
  split at h
  · cases h
  · rename_i hverb
    split at h
    · cases h
    · rename_i hchan
      simp only [Bool.or_eq_true, decide_eq_true_eq, not_or, not_le, ne_eq, not_not,
        Bool.not_eq_true', List.isEmpty_iff, Bool.not_eq_false] at hverb hchan
      obtain ⟨⟨⟨hne, hlt⟩, hspace⟩, -⟩ := hchan
      obtain ⟨hchan, hsign, hneeds, hhas, hlen, hclean, tail, htail, hbody⟩ :=
        shape_of_modeChangeParse h
      obtain ⟨verb, hverb, hmode⟩ := verb_of_eqIc hverb
      obtain ⟨rest, hp, -⟩ :=
        exists_takeWhile_append (fun c => c != byte ' ' && !isBreak c) (line.drop 5)
      have hword := fun c hc => mem_takeWhile_clean (s := line.drop 5) (c := c) hc
      generalize (line.drop 5).takeWhile (fun c => c != byte ' ' && !isBreak c) = word at *
      subst hchan
      rw [hp] at hspace htail
      obtain ⟨rest', rfl⟩ : ∃ rest', rest = byte ' ' :: rest' := by
        cases rest with
        | nil => simp at hspace
        | cons c rest' => exact ⟨rest', by simpa using hspace⟩
      have hrest : rest' = it.sign :: it.letter :: tail := by simpa using htail
      refine ⟨⟨hne, hlt, hword, hsign, hneeds, hhas, hlen, hclean⟩, verb, tail, ?_, hmode, hbody⟩
      calc line = line.take 5 ++ line.drop 5 := (List.take_append_drop 5 line).symm
        _ = _ := by rw [hverb, hp, hrest, List.append_assoc, List.singleton_append]

/-- What a MODE line means, as far as its words go. -/
theorem acts_line (other : Bool → UInt8 → Bool) {verb chan letters tail : Str} {args : List Str}
    (hmode : eqIc verb (str "MODE") = true) (hne : chan ≠ [])
    (hchan : ∀ c ∈ chan, c ≠ byte ' ' ∧ isBreak c = false) (hletters : letters ≠ [])
    (hclean : ∀ c ∈ letters, c ≠ byte ' ' ∧ isBreak c = false) (hsign : letters.head? ≠ some colon)
    (hargs : bodyOf tail = words args ∨ bodyOf tail = [byte ' '] ∧ args = []) :
    acts other (verb ++ byte ' ' :: (chan ++ byte ' ' :: (letters ++ tail))) =
      if chan.head? = some colon then []
      else (Lib.ArgWalk.assign (takesArg other) (signed true letters) (params (words args))).map
        (.mode (chan.map lower)) := by
  have hverb := clean_of_eqIc hmode
  have hchanWord : Word chan := ⟨hne, fun hmem => (hchan _ hmem).1 rfl⟩
  have hlettersWord : Word letters := ⟨hletters, fun hmem => (hclean _ hmem).1 rfl⟩
  have hverbOf : verbOf (verb ++ byte ' ' :: (chan ++ byte ' ' :: (letters ++ tail))) = verb := by
    rw [verbOf, List.takeWhile_append_of_pos fun c hc => by simp [hverb c hc],
      List.takeWhile_cons_of_neg (by simp), List.append_nil]
  have hbody : bodyOf (verb ++ byte ' ' :: (chan ++ byte ' ' :: (letters ++ tail))) =
      verb ++ byte ' ' :: (chan ++ byte ' ' :: (letters ++ bodyOf tail)) := by
    rw [bodyOf_append fun c hc => (hverb c hc).2, bodyOf_cons (by decide),
      bodyOf_append fun c hc => (hchan c hc).2, bodyOf_cons (by decide),
      bodyOf_append fun c hc => (hclean c hc).2]
  have hread : params (letters ++ bodyOf tail) = letters :: params (words args) := by
    rcases hargs with hargs | ⟨htail, rfl⟩
    · rw [hargs]
      exact params_words_cons hlettersWord hsign
    · rw [htail]
      exact params_cons hlettersWord hsign []
  unfold acts
  rw [hverbOf, if_pos hmode, hbody, List.drop_left]
  by_cases hcolon : chan.head? = some colon
  · obtain ⟨c, chan, rfl⟩ := List.exists_cons_of_ne_nil hne
    obtain rfl : c = colon := by simpa using hcolon
    have hwhole : params (byte ' ' :: (colon :: chan ++ byte ' ' :: (letters ++ bodyOf tail))) =
        [chan ++ byte ' ' :: (letters ++ bodyOf tail)] := params_colon _
    rw [hwhole, if_pos hcolon]
  · have hwords : params (byte ' ' :: (chan ++ byte ' ' :: (letters ++ bodyOf tail))) =
        chan :: params (letters ++ bodyOf tail) := params_cons hchanWord hcolon _
    rw [hwords, hread, if_neg hcolon]

/-- What the one change of a line means. A channel with a `:` takes the rest of its line. -/
def ModeItem.acts (it : ModeItem) : List Act :=
  if it.chan.head? = some colon then []
  else
    [.mode (it.chan.map lower)
      ((it.sign == byte '+', it.letter), if it.hasArg then some (text it.arg) else none)]

namespace ModeItem.Ok

variable {it : ModeItem}

theorem signByte_eq (h : it.Ok) : signByte (it.sign == byte '+') = it.sign := by
  rcases h.sign with hs | hs
  · rw [hs]
    rfl
  · rw [hs]
    rfl

theorem takesArg_eq (h : it.Ok) (other : Bool → UInt8 → Bool) :
    takesArg other (it.sign == byte '+', it.letter) = it.hasArg := by
  rw [takesArg, h.signByte_eq, h.needs, Option.getD_some]

theorem arg_word (h : it.Ok) (harg : it.hasArg = true) : Word it.arg := by
  refine ⟨?_, fun hmem => (h.arg_clean _ hmem).1 rfl⟩
  have hiff := h.arg_iff
  rw [harg] at hiff
  simpa using hiff.symm

theorem arg_nil (h : it.Ok) (harg : it.hasArg = false) : it.arg = [] := by
  have hiff := h.arg_iff
  rw [harg] at hiff
  simpa using hiff.symm

end ModeItem.Ok

/-- The letters of a list of changes, with their signs. -/
def changes (items : List ModeItem) : List (Bool × UInt8) :=
  items.map fun it => (it.sign == byte '+', it.letter)

/-- The arguments of those that have one. -/
def argsOf (items : List ModeItem) : List Str := (items.filter (·.hasArg)).map (·.arg)

theorem signed_letter {it : ModeItem} (h : it.Ok) (adding : Bool) (rest : Str) :
    signed adding (it.letter :: rest) = (adding, it.letter) :: signed adding rest := by
  obtain ⟨-, -, hplus, hminus⟩ := plain_of_needsArg h.needs
  rw [signed, if_neg hplus, if_neg hminus]

theorem signed_sign {it : ModeItem} (h : it.Ok) (adding : Bool) (rest : Str) :
    signed adding (it.sign :: rest) = signed (it.sign == byte '+') rest := by
  rcases h.sign with hs | hs
  · rw [hs, signed, if_pos rfl]
    rfl
  · rw [hs, signed, if_neg (by decide), if_pos rfl]
    rfl

/-- A sign is written where it changes, so that each letter is read with its own. -/
theorem signed_signedLetters (items : List ModeItem) : ∀ (cur : UInt8) (adding : Bool),
    (∀ it ∈ items, it.Ok) → (cur = signByte adding ∨ cur = 0) →
      signed adding (signedLetters cur items) = changes items := by
  induction items with
  | nil =>
      intro cur adding _ _
      rfl
  | cons it its ih =>
      intro cur adding hok hcur
      have hit := hok it List.mem_cons_self
      have hits := fun x hx => hok x (List.mem_cons_of_mem it hx)
      have hsign := hit.signByte_eq
      have hrest := ih it.sign (it.sign == byte '+') hits (.inl hsign.symm)
      unfold signedLetters
      split
      · rw [List.singleton_append, signed_sign hit, signed_letter hit, hrest]
        rfl
      · rename_i hsame
        have hcur' : it.sign = cur := not_not.mp hsame
        have hadding : adding = (it.sign == byte '+') := by
          rcases hcur with hcur | hcur
          · rw [hcur', hcur]
            cases adding <;> rfl
          · rcases hit.sign with hs | hs
            · rw [← hcur', hs] at hcur
              exact absurd hcur (by decide)
            · rw [← hcur', hs] at hcur
              exact absurd hcur (by decide)
        rw [List.nil_append, hadding, signed_letter hit, hrest]
        rfl

theorem packedArgs_eq (items : List ModeItem) : packedArgs items = words (argsOf items) := by
  rw [packedArgs, argsOf, words, List.flatMap_map]
  rfl

/-- Nothing but signs and letters. -/
theorem mem_signedLetters (items : List ModeItem) : ∀ {cur c : UInt8}, c ∈ signedLetters cur items →
    ∃ it ∈ items, c = it.sign ∨ c = it.letter := by
  induction items with
  | nil =>
      intro cur c hc
      cases hc
  | cons it its ih =>
      intro cur c hc
      rw [signedLetters] at hc
      rcases List.mem_append.mp hc with hc | hc
      · split at hc
        · exact ⟨it, List.mem_cons_self, .inl (List.mem_singleton.mp hc)⟩
        · cases hc
      · rcases List.mem_cons.mp hc with rfl | hc
        · exact ⟨it, List.mem_cons_self, .inr rfl⟩
        · obtain ⟨x, hx, heq⟩ := ih hc
          exact ⟨x, List.mem_cons_of_mem it hx, heq⟩

theorem ModeItem.Ok.sign_clean {it : ModeItem} (h : it.Ok) :
    it.sign ≠ byte ' ' ∧ isBreak it.sign = false ∧ it.sign ≠ 0 ∧ it.sign ≠ colon := by
  rcases h.sign with hs | hs
  · rw [hs]
    decide
  · rw [hs]
    decide

theorem clean_signedLetters {items : List ModeItem} {cur : UInt8} (hok : ∀ it ∈ items, it.Ok) :
    ∀ c ∈ signedLetters cur items, c ≠ byte ' ' ∧ isBreak c = false := by
  intro c hc
  obtain ⟨it, hit, rfl | rfl⟩ := mem_signedLetters items hc
  · exact ⟨(hok it hit).sign_clean.1, (hok it hit).sign_clean.2.1⟩
  · obtain ⟨hspace, hbreak, -, -⟩ := plain_of_needsArg (hok it hit).needs
    exact ⟨hspace, hbreak⟩

/-! ### Changes of one channel -/

/-- What a line with the letters and the arguments of some changes means. -/
theorem acts_letters (other : Bool → UInt8 → Bool) {verb chan tail : Str} {items : List ModeItem}
    (hmode : eqIc verb (str "MODE") = true) (hne : chan ≠ [])
    (hchan : ∀ c ∈ chan, c ≠ byte ' ' ∧ isBreak c = false) (hitems : items ≠ [])
    (hok : ∀ it ∈ items, it.Ok)
    (hargs : bodyOf tail = words (argsOf items) ∨ bodyOf tail = [byte ' '] ∧ argsOf items = []) :
    acts other (verb ++ byte ' ' :: (chan ++ byte ' ' :: (signedLetters 0 items ++ tail))) =
      if chan.head? = some colon then []
      else (Lib.ArgWalk.assign (takesArg other) (changes items) (params (words (argsOf items)))).map
        (.mode (chan.map lower)) := by
  obtain ⟨it, its, rfl⟩ := List.exists_cons_of_ne_nil hitems
  obtain ⟨-, -, hzero, hcolon⟩ := (hok it List.mem_cons_self).sign_clean
  have hhead : signedLetters 0 (it :: its) = it.sign :: it.letter :: signedLetters it.sign its := by
    rw [signedLetters, if_pos hzero, List.singleton_append]
  have hclean : ∀ c ∈ signedLetters 0 (it :: its), c ≠ byte ' ' ∧ isBreak c = false :=
    clean_signedLetters hok
  have hline := acts_line other hmode hne hchan (by simp [hhead]) hclean
    (by simp [hhead, hcolon]) hargs
  rw [hline, signed_signedLetters (it :: its) 0 true hok (.inr rfl)]

theorem head?_of_eqIc {a c : Str} (h : eqIc a c = true) :
    a.head? = some colon ↔ c.head? = some colon := by
  have hlower := congrArg List.head? (eqIc_iff.mp h)
  rw [List.head?_map, List.head?_map] at hlower
  have hcolon (s : Str) : s.head? = some colon ↔ s.head?.map lower = some colon := by
    cases s.head? with
    | none => simp
    | some x =>
        constructor
        · intro hx
          rw [hx]
          rfl
        · intro hx
          rw [eq_of_lower (by decide) (Option.some.inj hx)]
  rw [hcolon, hcolon, hlower]

/-- What changes of one channel mean, taken one by one. -/
theorem flatMap_acts (other : Bool → UInt8 → Bool) {chan : Str} {items : List ModeItem}
    (hok : ∀ it ∈ items, it.Ok) (hchan : ∀ it ∈ items, eqIc it.chan chan = true) :
    items.flatMap ModeItem.acts =
      if chan.head? = some colon then []
      else (Lib.ArgWalk.assign (takesArg other) (changes items) ((argsOf items).map text)).map
        (.mode (chan.map lower)) := by
  split
  · rename_i hcolon
    rw [List.flatMap_eq_nil_iff]
    intro it hit
    exact if_pos ((head?_of_eqIc (hchan it hit)).mpr hcolon)
  · rename_i hcolon
    rw [argsOf, List.map_map, changes, Lib.ArgWalk.assign_map (takesArg other) _ _ _ items
      fun it hit => (hok it hit).takesArg_eq other, List.map_map, ← List.flatMap_pure_eq_map]
    refine List.flatMap_congr fun it hit => ?_
    have hlower := eqIc_iff.mp (hchan it hit)
    rw [ModeItem.acts, if_neg (mt (head?_of_eqIc (hchan it hit)).mp hcolon), hlower]
    rfl

theorem word_of_mem_argsOf {items : List ModeItem} (hok : ∀ it ∈ items, it.Ok) :
    ∀ w ∈ argsOf items, Word w := by
  intro w hw
  obtain ⟨it, hit, rfl⟩ := List.mem_map.mp hw
  obtain ⟨hit, harg⟩ := List.mem_filter.mp hit
  exact (hok it hit).arg_word harg

theorem length_argsOf (other : Bool → UInt8 → Bool) {items : List ModeItem}
    (hok : ∀ it ∈ items, it.Ok) :
    (argsOf items).length = (changes items).countP (takesArg other) := by
  rw [argsOf, List.length_map, changes, List.countP_map, ← List.countP_eq_length_filter]
  refine List.countP_congr fun it hit => ?_
  rw [Function.comp, (hok it hit).takesArg_eq other]

/-- What a line with one change means. -/
theorem acts_of_shape (other : Bool → UInt8 → Bool) {line : Str} {it : ModeItem}
    (h : Shape line it) : acts other line = it.acts := by
  obtain ⟨hok, verb, tail, rfl, hmode, htail⟩ := h
  have hitems : ∀ x ∈ [it], x.Ok := by simpa using hok
  have hargs : bodyOf tail = words (argsOf [it]) ∨ bodyOf tail = [byte ' '] ∧ argsOf [it] = [] := by
    cases harg : it.hasArg with
    | true =>
        have hargs : argsOf [it] = [it.arg] := by simp [argsOf, harg]
        rcases htail with htail | ⟨-, hnil⟩
        · refine .inl (htail.trans ?_)
          rw [hargs, words, List.flatMap_singleton]
          rfl
        · exact absurd hnil (hok.arg_word harg).ne_nil
    | false =>
        have hargs : argsOf [it] = [] := by simp [argsOf, harg]
        rcases htail with htail | ⟨htail, -⟩
        · exact .inr ⟨by rw [htail, hok.arg_nil harg], hargs⟩
        · exact .inl (by rw [htail, hargs]; rfl)
  have hread : params (words (argsOf [it])) = (argsOf [it]).map text := by
    refine (params_words (word_of_mem_argsOf hitems)).mpr fun w hw => ?_
    have hlen : (argsOf [it]).dropLast.length = 0 := by
      have hle := List.length_filter_le (fun x : ModeItem => x.hasArg) [it]
      rw [List.length_singleton] at hle
      rw [List.length_dropLast, argsOf, List.length_map]
      omega
    rw [List.length_eq_zero_iff.mp hlen] at hw
    cases hw
  have hletters : signedLetters 0 [it] = [it.sign, it.letter] := by
    rw [signedLetters, if_pos hok.sign_clean.2.2.1]
    rfl
  have hline := acts_letters other hmode hok.chan_ne_nil hok.chan_clean (by simp) hitems hargs
  rw [hletters, hread, ← flatMap_acts other hitems (by simp), List.flatMap_singleton] at hline
  exact hline

/-- What a packed line means. -/
theorem acts_packedLine (other : Bool → UInt8 → Bool) {first : ModeItem} {its : List ModeItem}
    (hok : ∀ it ∈ first :: its, it.Ok) :
    acts other (packedLine first.chan (first :: its)) =
      if first.chan.head? = some colon then []
      else (Lib.ArgWalk.assign (takesArg other) (changes (first :: its))
        (params (words (argsOf (first :: its))))).map (.mode (first.chan.map lower)) := by
  have hfirst := hok first List.mem_cons_self
  have hclean : ∀ c ∈ packedArgs (first :: its), isBreak c = false := by
    intro c hc
    obtain ⟨it, hit, hc⟩ := List.mem_flatMap.mp hc
    rcases List.mem_cons.mp hc with rfl | hc
    · decide
    · exact ((hok it (List.mem_filter.mp hit).1).arg_clean c hc).2
  have hbody : bodyOf (packedArgs (first :: its) ++ crlf) = words (argsOf (first :: its)) := by
    rw [bodyOf_append hclean, ← packedArgs_eq]
    exact List.append_nil _
  have hshape : packedLine first.chan (first :: its) = str "MODE" ++ byte ' ' ::
      (first.chan ++ byte ' ' ::
        (signedLetters 0 (first :: its) ++ (packedArgs (first :: its) ++ crlf))) := by
    simp [packedLine, show str "MODE " = str "MODE" ++ [byte ' '] from rfl,
      show str " " = [byte ' '] from rfl]
  rw [hshape]
  exact acts_letters other rfl hfirst.chan_ne_nil hfirst.chan_clean (List.cons_ne_nil first its) hok
    (.inl hbody)

/-- **When a packed line means its changes**: no argument but the last begins with `:`, or
the channel does, and no line about it means anything. -/
theorem acts_packedLine_iff (other : Bool → UInt8 → Bool) {first : ModeItem} {its : List ModeItem}
    (hok : ∀ it ∈ first :: its, it.Ok) (hchan : ∀ it ∈ its, eqIc it.chan first.chan = true) :
    acts other (packedLine first.chan (first :: its)) = (first :: its).flatMap ModeItem.acts ↔
      first.chan.head? = some colon ∨
        ∀ a ∈ (argsOf (first :: its)).dropLast, a.head? ≠ some colon := by
  have hwords := word_of_mem_argsOf hok
  have hsame : ∀ it ∈ first :: its, eqIc it.chan first.chan = true := by
    simpa [eqIc_refl] using hchan
  rw [acts_packedLine other hok, flatMap_acts other hok hsame]
  by_cases hcolon : first.chan.head? = some colon
  · simp [hcolon]
  · rw [if_neg hcolon, if_neg hcolon, ← params_words hwords]
    constructor
    · intro heq
      have hassign := List.map_injective_iff.mpr (fun x y hxy => (Act.mode.inj hxy).2) heq
      have hlen := length_params_words_le hwords
      refine .inr (Lib.ArgWalk.assign_inj (takesArg other) (changes (first :: its)) ?_ ?_ hassign)
      · rw [List.length_map, length_argsOf other hok]
      · rwa [List.length_map]
    · rintro (h | h)
      · exact absurd h hcolon
      · rw [h]

/-- It means as many changes in either case. -/
theorem length_acts_packedLine (other : Bool → UInt8 → Bool) {first : ModeItem}
    {its : List ModeItem} (hok : ∀ it ∈ first :: its, it.Ok)
    (hchan : ∀ it ∈ its, eqIc it.chan first.chan = true) :
    (acts other (packedLine first.chan (first :: its))).length =
      ((first :: its).flatMap ModeItem.acts).length := by
  have hsame : ∀ it ∈ first :: its, eqIc it.chan first.chan = true := by
    simpa [eqIc_refl] using hchan
  rw [acts_packedLine other hok, flatMap_acts other hok hsame]
  split
  · rfl
  · have hlen (args : List Str) : (Lib.ArgWalk.assign (takesArg other) (changes (first :: its))
        args).length = (changes (first :: its)).length := by
      rw [← List.length_map Prod.fst, Lib.ArgWalk.map_fst_assign]
    rw [List.length_map, List.length_map, hlen, hlen]

end IrcBot.Sendq
