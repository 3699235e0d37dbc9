/-
# Whether the `:` of a last parameter matters (`irc_parser.rs`)

Each handler cuts up its parameters by itself, so whether a message has the same effect in
both of its spellings depends on the handler and on which parameter is the last.

* `Indifferent` — what must hold of a message, by its command.
* `dispatch_eq` — then no handler tells the spellings apart.
* `not_spelling_free` — of a MODE whose argument has the `:`, the bot does not see that it
  was given ops.
-/
import IrcBot.Spelling

namespace IrcBot.TrailingColon

open Cstr Chancfg Chanlive IrcLine HandleLine Lib.IrcMessage Spelling

/-! ### Handlers that look at the second parameter -/

section Fields

variable {m : Message} {b : BotState}

/-- Neither spelling of the last parameter names a channel the bot knows. -/
def NoChannel (b : BotState) (m : Message) : Prop := ∀ c, find b (m.spelt c) = none

theorem secondTok_eq (h : m.place ≠ 1) : secondTok (m.text true) = secondTok (m.text false) := by
  rw [Message.secondTok_text, Message.secondTok_text, Message.getElem?_params h.symm,
    Message.getElem?_params h.symm]

theorem secondChan_eq (h : m.place ≠ 1 ∨ NoChannel b m) :
    ServerNumerics.secondChan b (m.text true) = ServerNumerics.secondChan b (m.text false) := by
  unfold ServerNumerics.secondChan
  by_cases hplace : m.place = 1
  · have hnone := h.resolve_left (not_not_intro hplace)
    have hsecond (c : Bool) : (secondTok (m.text c)).bind (find b) = none := by
      rw [Message.secondTok_text, ← hplace, Message.getElem?_place]
      exact hnone c
    rw [hsecond, hsecond]
  · rw [secondTok_eq hplace]

theorem onInviteOnly_eq {P : Primitives} (h : m.place ≠ 1 ∨
      ∀ c, ∀ ci ∈ find b (m.spelt c), (b.chans.getD ci {}).isManaged = false) :
    ServerNumerics.onInviteOnly P b (m.text true) =
      ServerNumerics.onInviteOnly P b (m.text false) := by
  by_cases hplace : m.place = 1
  · have hunmanaged := h.resolve_left (not_not_intro hplace)
    have hrun (c : Bool) : ServerNumerics.onInviteOnly P b (m.text c) = b := by
      unfold ServerNumerics.onInviteOnly ServerNumerics.secondChan
      rw [Message.secondTok_text, ← hplace, Message.getElem?_place, Option.bind_some]
      cases hfind : find b (m.spelt c) with
      | none => rfl
      | some ci =>
          dsimp only
          rw [if_neg (by rw [hunmanaged c ci hfind]; exact Bool.false_ne_true)]
    rw [hrun, hrun]
  · unfold ServerNumerics.onInviteOnly ServerNumerics.secondChan
    rw [secondTok_eq hplace]

/-- Neither spelling of the last parameter reads as a channel, or as a refusal of the nick the bot
wants that is news. -/
structure NoRefusal (b : BotState) (m : Message) : Prop where
  no_channel : isChannel m.last = false
  no_target : m.command = str "432" →
    ∀ c, (eqIc (m.spelt c) b.targetNick && !eqIc b.nickRefused (m.spelt c)) = false

theorem onNickRefused_eq (h : m.place ≠ 1 ∨ NoRefusal b m) :
    Nicks.onNickRefused b m.command (m.text true) =
      Nicks.onNickRefused b m.command (m.text false) := by
  by_cases hplace : m.place = 1
  · have hno := h.resolve_left (not_not_intro hplace)
    have hsecond (c : Bool) : secondTok (m.text c) = some (m.spelt c) := by
      rw [Message.secondTok_text, ← hplace, Message.getElem?_place]
    have hchannel (c : Bool) : isChannel (m.spelt c) = false := by
      cases c with
      | true => rfl
      | false => exact hno.no_channel
    have hfinal (c : Bool) : ¬ (m.command = str "432" ∧
        (eqIc (m.spelt c) b.targetNick && !eqIc b.nickRefused (m.spelt c)) = true) := by
      rintro ⟨hcommand, htarget⟩
      rw [hno.no_target hcommand c] at htarget
      cases htarget
    have hrun (c : Bool) : Nicks.onNickRefused b m.command (m.text c) =
        if b.authed then { b with nickChangePending := false }
        else Nicks.generateNewNick { b with nickChangePending := false } := by
      have hc := hchannel c
      unfold isChannel at hc
      unfold Nicks.onNickRefused
      rw [hsecond c]
      simp only [Option.any_some]
      rw [if_neg (by rw [hc]; exact Bool.false_ne_true), if_neg (hfinal c)]
    rw [hrun, hrun]
  · unfold Nicks.onNickRefused
    rw [secondTok_eq hplace]

theorem ircTrailing_eq (h : m.place = 0) :
    ServerNumerics.ircTrailing (m.text true) = ServerNumerics.ircTrailing (m.text false) := by
  have hnone : ∀ s : Str, space ∉ s → ServerNumerics.ircTrailing.afterSpaceColon s = none := by
    intro s
    induction s with
    | nil => exact fun _ => rfl
    | cons x s ih =>
        intro hs
        cases s with
        | nil => rfl
        | cons y s =>
            have hx : ¬ (x = byte ' ' ∧ y = byte ':') := fun heq =>
              hs (by rw [heq.1, byte_space]; exact List.mem_cons_self)
            rw [ServerNumerics.ircTrailing.afterSpaceColon, if_neg hx]
            exact ih fun hmem => hs (List.mem_cons_of_mem x hmem)
  have hplain : ServerNumerics.ircTrailing m.last = m.last := by
    rw [ServerNumerics.ircTrailing, if_neg m.last_plain.head_ne, hnone m.last m.last_plain.no_space]
    rfl
  rw [Message.text_of_place_zero h, Message.text_of_place_zero h]
  exact hplain.symm

/-! ### 001 and 005 -/

/-- The first parameter of a 001 is the nick, unless it is too long for one. -/
theorem onWelcome_eq (h : m.place ≠ 0 ∨ maxNick ≤ m.last.length) :
    Nicks.onWelcome b (m.text true) = Nicks.onWelcome b (m.text false) := by
  by_cases hplace : m.place = 0
  · have hlong := h.resolve_left (not_not_intro hplace)
    have hfirst (c : Bool) : firstWord (m.text c) = m.spelt c := by
      rw [Message.text, Message.params, List.length_eq_zero_iff.mp hplace, List.nil_append,
        firstWord_paramStr (m.word_spelt c)]
    have hlen (c : Bool) : ¬ (m.spelt c).length < maxNick := by
      cases c with
      | true => exact Nat.not_lt.mpr (Nat.le_succ_of_le hlong)
      | false => exact Nat.not_lt.mpr hlong
    have hrun (c : Bool) : Nicks.onWelcome b (m.text c) =
        Nicks.requestOwnHostmask { b with authed := true } := by
      unfold Nicks.onWelcome
      rw [hfirst]
      refine congrArg Nicks.requestOwnHostmask (if_neg ?_)
      simp only [Bool.and_eq_true, decide_eq_true_eq]
      exact fun hshort => hlen c hshort.1.2
    rw [hrun, hrun]
  · obtain ⟨w, ws, hmiddles⟩ := List.exists_cons_of_ne_nil (List.ne_nil_of_length_pos
      (Nat.pos_of_ne_zero hplace))
    have hfirst (c : Bool) : firstWord (m.text c) = w := by
      rw [Message.text, Message.params, hmiddles, List.cons_append, firstWord_paramStr]
      exact (m.middles_plain w (by rw [hmiddles]; exact List.mem_cons_self)).toWord
    unfold Nicks.onWelcome
    rw [hfirst, hfirst]

/-- A token that says nothing about the server. -/
def saysNothing (tok : Str) : Prop := ∀ is, ServerNumerics.isupportToken is tok = is

theorem isupportParse_eq (is : Isupport)
    (h : m.place = 0 ∨ 120 ≤ m.last.length ∨ saysNothing m.last) :
    ServerNumerics.isupportParse is (m.text true) =
      ServerNumerics.isupportParse is (m.text false) := by
  unfold ServerNumerics.isupportParse
  rw [Message.tokens_text, Message.tokens_text, Message.params, Message.params]
  cases hmiddles : m.middles with
  | nil => rfl
  | cons w ws =>
      have hplace : m.place ≠ 0 := by rw [Message.place, hmiddles]; exact Nat.succ_ne_zero _
      have hplain : ∀ v ∈ ws, decide (v.head? ≠ some (byte ':')) = true := fun v hv =>
        decide_eq_true (m.middles_plain v
          (by rw [hmiddles]; exact List.mem_cons_of_mem w hv)).head_ne
      rw [List.cons_append, List.cons_append, List.tail_cons, List.tail_cons,
        List.takeWhile_append_of_pos hplain, List.takeWhile_append_of_pos hplain]
      have hcolon : [m.spelt true].takeWhile (fun v => decide (v.head? ≠ some (byte ':'))) = [] := rfl
      have hlast : [m.spelt false].takeWhile (fun v => decide (v.head? ≠ some (byte ':'))) =
          [m.last] :=
        List.takeWhile_cons_of_pos (decide_eq_true m.last_plain.head_ne)
      rw [hcolon, hlast, List.append_nil, List.filter_append, List.foldl_append]
      rcases h.resolve_left hplace with hlong | hnothing
      · rw [List.filter_cons_of_neg (by simpa using hlong)]
        rfl
      · by_cases hlong : m.last.length < 120
        · rw [List.filter_cons_of_pos (by simpa using hlong)]
          exact (hnothing _).symm
        · rw [List.filter_cons_of_neg (by simpa using hlong)]
          rfl

end Fields

/-! ### MODE words and their arguments -/

section Modes

variable {as : List Str} {x y : Str}

/-- A letter that takes its argument for `handle_mode_change` to look at it. -/
def loopReads (x : Bool × UInt8) : Bool := x.2 == byte 'o' || x.2 == byte 'k' && x.1

/-- A letter that takes its argument for the live modes: a limit is one of digits. -/
def applyReads (is : Isupport) (from324 : Bool) (last : Str) (x : Bool × UInt8) : Bool :=
  if x.2 = byte 'b' then !from324
  else if x.2 = byte 'k' then x.1
  else if x.2 = byte 'l' then x.1 && allDigits last
  else is.isPrefixMode x.2 && (x.2 == byte 'h' || x.2 == byte 'v')

/-- A letter that takes its argument for the live modes or for the enforcement. -/
def lineReads (is : Isupport) (last : Str) (x : Bool × UInt8) : Bool :=
  (str "ohb").contains x.2 || applyReads is false last x

/-- The letter of a mode word that takes the argument at `n`, if there is one, does not look
at it. -/
def Unread (takes reads : Bool × UInt8 → Bool) (modes : Str) (n : Nat) : Prop :=
  ∀ x ∈ Lib.ArgWalk.taker takes (signed true modes) n, reads x = false

theorem tokens_concat (has : ∀ w ∈ as, Word w) (hx : Word x) :
    tokens (paramStr (as ++ [x])) = as ++ [x] := by
  refine tokens_paramStr fun w hw => ?_
  rcases List.mem_append.mp hw with h | h
  · exact has w h
  · exact List.mem_singleton.mp h ▸ hx

theorem handleModeStep_unread {z : Bool × UInt8} (h : loopReads z = false) (ci : Nat)
    (managed : Bool) (b : BotState) (u v : Str) :
    IrcParser.handleModeStep ci managed b (z, some u) =
      IrcParser.handleModeStep ci managed b (z, some v) := by
  obtain ⟨adding, letter⟩ := z
  simp only [loopReads, Bool.or_eq_false_iff, beq_eq_false_iff_ne, ne_eq] at h
  unfold IrcParser.handleModeStep
  dsimp only
  rw [if_neg h.1, if_neg h.1]
  by_cases hk : letter = byte 'k'
  · have hadding : adding = false := by simpa [hk] using h.2
    subst hadding
    rfl
  · rw [if_neg hk, if_neg hk]

theorem withEntry_id (c : Chan) (nick : Str) : withEntry c nick (fun r => r) = c := by
  unfold withEntry
  split
  · rename_i i _
    have hmodify : c.roster.modify i (fun r => r) = c.roster := List.modify_id i c.roster
    rw [hmodify]
  · rfl

theorem applyStep_unread {is : Isupport} {from324 : Bool} {last : Str} {z : Bool × UInt8}
    (h : applyReads is from324 last z = false) (now : Int) (c : Chan) :
    applyStep is now from324 c (z, some (colon :: last)) =
      applyStep is now from324 c (z, some last) := by
  obtain ⟨adding, letter⟩ := z
  have hdigits : allDigits (colon :: last) = false := by
    simp [allDigits, show isDigit colon = false by decide]
  unfold applyReads at h
  unfold applyStep applyLetter
  dsimp only at h ⊢
  simp only [Option.isNone_some, Bool.and_false, Bool.false_and]
  rw [if_neg Bool.false_ne_true, if_neg Bool.false_ne_true]
  by_cases hb : letter = byte 'b'
  · rw [if_pos hb] at h
    have h324 : from324 = true := by simpa using h
    rw [if_pos hb, if_pos hb, if_pos h324, if_pos h324]
  rw [if_neg hb] at h
  rw [if_neg hb, if_neg hb]
  by_cases hk : letter = byte 'k'
  · rw [if_pos hk] at h
    obtain rfl : adding = false := h
    rw [if_pos hk, if_pos hk]
    rfl
  rw [if_neg hk] at h
  rw [if_neg hk, if_neg hk]
  by_cases hl : letter = byte 'l'
  · rw [if_pos hl] at h
    rw [if_pos hl, if_pos hl]
    cases adding with
    | false => rfl
    | true =>
        rw [Option.filter_some_neg (by simp [hdigits]), Option.filter_some_neg (by simpa using h)]
  rw [if_neg hl] at h
  rw [if_neg hl, if_neg hl]
  by_cases hstatus : is.isPrefixMode letter = true
  · -- a status that the roster does not keep
    rw [hstatus, Bool.true_and, Bool.or_eq_false_iff] at h
    rw [if_pos hstatus, if_pos hstatus]
    simp only [if_neg (ne_of_beq_false h.1), if_neg (ne_of_beq_false h.2), withEntry_id]
  · rw [if_neg hstatus, if_neg hstatus]

theorem onModeStep_unread {z : Bool × UInt8} (h : (str "ohb").contains z.2 = false)
    (sha256 : Str → Str) (is : Isupport) (ci : Nat) (src : ModeEvents.Source)
    (w : ModeEvents.Walk) (u v : Str) :
    ModeEvents.onModeStep sha256 is ci src w (z, some u) =
      ModeEvents.onModeStep sha256 is ci src w (z, some v) := by
  obtain ⟨adding, letter⟩ := z
  change (str "ohb").contains letter = false at h
  have hletters : letter ≠ byte 'o' ∧ letter ≠ byte 'h' ∧ letter ≠ byte 'b' := by
    refine ⟨?_, ?_, ?_⟩ <;> (rintro rfl; exact absurd h (by decide))
  obtain ⟨ho, hh, hb⟩ := hletters
  unfold ModeEvents.onModeStep ModeEvents.onModeLetter ModeEvents.ackOwn ModeEvents.countOps
  simp [ho, hh, hb]

section

variable {modes last : Str} (has : ∀ w ∈ as, Word w) (hcolon : Word (colon :: last)) (hlast : Word last)

include has hcolon hlast

/-- An argument that no letter looks at does not matter to the live modes, -/
theorem apply_unread (b : BotState) (ci : Nat) (from324 : Bool)
    (h : Unread (isupTakes b.isup) (applyReads b.isup from324 last) modes as.length) :
    apply b ci modes (paramStr (as ++ [colon :: last])) from324 =
      apply b ci modes (paramStr (as ++ [last])) from324 := by
  have hwalk (c : Chan) := Lib.ArgWalk.foldl_assign_last (signed true modes) c as
    fun z hz c => applyStep_unread (h z hz) b.now c
  unfold apply
  simp only [tokens_concat has hcolon, tokens_concat has hlast, applyLoop_eq, hwalk]

/-- nor to the bot's own ops and the key, -/
theorem handleModeLoop_unread (ci : Nat) (managed : Bool) (b : BotState)
    (h : Unread IrcParser.loopTakes loopReads modes as.length) :
    IrcParser.handleModeLoop ci managed b true modes (tokens (paramStr (as ++ [colon :: last]))) =
      IrcParser.handleModeLoop ci managed b true modes (tokens (paramStr (as ++ [last]))) := by
  simp only [tokens_concat has hcolon, tokens_concat has hlast, IrcParser.handleModeLoop_eq]
  exact Lib.ArgWalk.foldl_assign_last (signed true modes) b as
    fun z hz b => handleModeStep_unread (h z hz) ci managed b _ _

/-- nor to the enforcement. -/
theorem modeEvent_unread (sha256 : Str → Str) (b : BotState) (chan : Str) (pre : Option Str)
    (h : Unread (isupTakes b.isup) (fun z => (str "ohb").contains z.2) modes as.length) :
    ModeEvents.onMode sha256 b chan pre modes (paramStr (as ++ [colon :: last])) =
      ModeEvents.onMode sha256 b chan pre modes (paramStr (as ++ [last])) := by
  have hwalk (ci : Nat) (src : ModeEvents.Source) (w : ModeEvents.Walk) :=
    Lib.ArgWalk.foldl_assign_last (signed true modes) w as
      fun z hz w => onModeStep_unread (h z hz) sha256 b.isup ci src w (colon :: last) last
  unfold ModeEvents.onMode
  simp only [tokens_concat has hcolon, tokens_concat has hlast, ModeEvents.onModeLoop_eq, hwalk]

end

/-- A `:` in front of a mode word is no letter: not for the live modes, -/
theorem apply_colon (b : BotState) (ci : Nat) (modes : Str) (from324 : Bool) :
    apply b ci (colon :: modes) [] from324 = apply b ci modes [] from324 := by
  have hletter (c : Chan) : applyLetter b.isup b.now from324 c true colon none = c := by
    unfold applyLetter
    rw [if_neg (by decide), if_neg (by decide), if_neg (by decide)]
    split
    · rfl
    · rw [if_neg (by simp [show isAlpha colon = false by decide])]
  have hloop (c : Chan) : applyLoop b.isup b.now from324 c true (colon :: modes) [] =
      applyLoop b.isup b.now from324 c true modes [] := by
    rw [applyLoop, if_neg (by decide), if_neg (by decide)]
    split
    · rfl
    · rw [hletter]
  unfold apply
  simp only [show tokens [] = [] from rfl, hloop]

/-- nor for the bot's own ops and the key, -/
theorem handleModeLoop_colon (ci : Nat) (managed : Bool) (b : BotState) (modes : Str)
    (args : List Str) :
    IrcParser.handleModeLoop ci managed b true (colon :: modes) args =
      IrcParser.handleModeLoop ci managed b true modes args := by
  conv_lhs => unfold IrcParser.handleModeLoop
  rw [if_neg (by decide), if_neg (by decide), if_neg (by decide), if_neg (by decide),
    if_neg (by decide), if_neg (by decide)]

/-- nor for the enforcement. -/
theorem modeEvent_colon (sha256 : Str → Str) (b : BotState) (chan : Str) (pre : Option Str)
    (modes : Str) :
    ModeEvents.onMode sha256 b chan pre (colon :: modes) [] =
      ModeEvents.onMode sha256 b chan pre modes [] := by
  have hletter (ci : Nat) (src : ModeEvents.Source) (w : ModeEvents.Walk) :
      ModeEvents.onModeLetter sha256 ci src w true colon none = w := by
    unfold ModeEvents.onModeLetter ModeEvents.countOps ModeEvents.ackOwn
    simp [show ¬ colon = byte 'o' by decide, show ¬ colon = byte 'h' by decide,
      show ¬ colon = byte 'b' by decide, show ¬ colon = byte 'l' by decide,
      show colon ∉ str "imnpstkl" by decide]
  have hloop (is : Isupport) (ci : Nat) (src : ModeEvents.Source) (w : ModeEvents.Walk) :
      ModeEvents.onModeLoop sha256 is ci src w true (colon :: modes) [] =
        ModeEvents.onModeLoop sha256 is ci src w true modes [] := by
    rw [ModeEvents.onModeLoop, if_neg (by decide), if_neg (by decide)]
    split
    · rfl
    · rw [hletter]
  unfold ModeEvents.onMode
  simp only [show tokens [] = [] from rfl, hloop]

/-! ### MODE -/

theorem isup_handleModeChange (b : BotState) (channel modes args : Str) :
    (IrcParser.handleModeChange b channel modes args).isup = b.isup := by
  have hown (b : BotState) (ci : Nat) (adding : Bool) :
      (IrcParser.ownOp b ci adding).isup = b.isup := by
    unfold IrcParser.ownOp
    dsimp only
    split
    · obtain ⟨out, names, heq, -⟩ := HubRequests.grantHeldOps_eq _ ci
      rw [heq]
      rfl
    · split
      · rfl
      · obtain ⟨out, heq, -⟩ := ircPrintf_eq _ _
        rw [heq]
        rfl
  have hstep (ci : Nat) (managed : Bool) (b : BotState) (z : (Bool × UInt8) × Option Str) :
      (IrcParser.handleModeStep ci managed b z).isup = b.isup := by
    unfold IrcParser.handleModeStep
    split
    · cases z.2 with
      | none => rfl
      | some arg =>
          show (IrcParser.opChange b ci z.1.1 arg).isup = b.isup
          unfold IrcParser.opChange
          split
          · exact hown b ci z.1.1
          · rfl
    · split
      · rfl
      · split <;> rfl
  have hfold (ci : Nat) (managed : Bool) (zs : List ((Bool × UInt8) × Option Str)) :
      ∀ b, (zs.foldl (IrcParser.handleModeStep ci managed) b).isup = b.isup := by
    induction zs with
    | nil => exact fun b => rfl
    | cons z zs ih => exact fun b => (ih _).trans (hstep ci managed b z)
  unfold IrcParser.handleModeChange
  cases find b channel with
  | none => rfl
  | some ci =>
      dsimp only
      rw [IrcParser.handleModeLoop_eq, hfold]
      split <;> rfl

variable {P : Primitives} {b : BotState} {m : Message}

/-- A MODE on a channel the bot does not know. -/
theorem channelMode_unknown {t : Str} (h : find b t = none) (pre : Option Str) (modes args : Str) :
    channelMode P b pre t modes args = b := by
  have hchange : IrcParser.handleModeChange b t modes args = b := by
    unfold IrcParser.handleModeChange
    rw [h]
  have hevent : ModeEvents.onMode P.sha256 b t pre modes args = b := by
    unfold ModeEvents.onMode Jobs.inChan
    rw [h]
    rfl
  unfold channelMode shareModes
  simp only [hchange, hevent, h, ite_self, Option.filter_none]

theorem channelMode_colon (pre : Option Str) (t modes : Str) :
    channelMode P b pre t (colon :: modes) [] = channelMode P b pre t modes [] := by
  have hchange : IrcParser.handleModeChange b t (colon :: modes) [] =
      IrcParser.handleModeChange b t modes [] := by
    unfold IrcParser.handleModeChange
    simp only [apply_colon, handleModeLoop_colon]
  have hshare (b : BotState) : shareModes b t (colon :: modes) = shareModes b t modes := by
    unfold shareModes
    simp only [List.contains_cons, show (byte 'k' == colon) = false by decide,
      show (byte 'i' == colon) = false by decide, Bool.false_or]
  unfold channelMode
  simp only [hchange, modeEvent_colon, hshare]

/-- The argument lists are on the same side of what `chanlive::apply` and `on_mode` take. -/
theorem channelMode_unread (pre : Option Str) (t : Str) {modes last : Str} (has : ∀ w ∈ as, Word w)
    (hcolon : Word (colon :: last)) (hlast : Word last)
    (hloop : Unread IrcParser.loopTakes loopReads modes as.length)
    (hside : 1024 ≤ (paramStr (as ++ [last])).length ∨ (paramStr (as ++ [last])).length + 1 < 1024 ∧
      Unread (isupTakes b.isup) (lineReads b.isup last) modes as.length) :
    channelMode P b pre t modes (paramStr (as ++ [colon :: last])) =
      channelMode P b pre t modes (paramStr (as ++ [last])) := by
  have hlen : (paramStr (as ++ [colon :: last])).length = (paramStr (as ++ [last])).length + 1 := by
    rw [length_paramStr_concat, length_paramStr_concat]
    rfl
  have hlive (h : Unread (isupTakes b.isup) (lineReads b.isup last) modes as.length) :
      Unread (isupTakes b.isup) (applyReads b.isup false last) modes as.length :=
    fun z hz => (Bool.or_eq_false_iff.mp (h z hz)).2
  have hchange : IrcParser.handleModeChange b t modes (paramStr (as ++ [colon :: last])) =
      IrcParser.handleModeChange b t modes (paramStr (as ++ [last])) := by
    unfold IrcParser.handleModeChange
    cases find b t with
    | none => rfl
    | some ci =>
        dsimp only
        rw [handleModeLoop_unread has hcolon hlast _ _ _ hloop, hlen]
        rcases hside with hlong | ⟨hshort, hisup⟩
        · rw [if_neg (by omega), if_neg (by omega)]
        · rw [if_pos hshort, if_pos (by omega),
            apply_unread has hcolon hlast b ci false (hlive hisup)]
  unfold channelMode
  dsimp only
  rw [hchange, hlen]
  rcases hside with hlong | ⟨hshort, hisup⟩
  · rw [if_neg (by omega), if_neg (by omega)]
  · rw [if_pos hshort, if_pos (by omega), modeEvent_unread has hcolon hlast P.sha256 _ t pre
      (by rw [isup_handleModeChange]; exact fun z hz => (Bool.or_eq_false_iff.mp (hisup z hz)).1)]

theorem tokNext_rest (s : Str) : (tokNext [] s).1.getD [] = s := by
  cases s with
  | nil => rfl
  | cons c s =>
      have hall : ∀ z ∈ c :: s, decide (z ∉ ([] : Str)) = true := fun z _ => by simp
      unfold tokNext
      simp only [List.dropWhile_cons_of_neg (p := fun z => decide (z ∈ ([] : Str))) (a := c) (l := s)
        (by simp)]
      rw [if_neg (List.cons_ne_nil c s), List.takeWhile_eq_self_iff.mpr hall]
      rfl

theorem onMode_paramStr (pre : Option Str) {t modes : Str} (args : List Str) (ht : Word t)
    (hmodes : Word modes) : onMode P b pre (paramStr (t :: modes :: args)) =
      if isChannel t then channelMode P b pre t modes (paramStr args) else b := by
  unfold onMode
  rw [tokNext_paramStr ht]
  dsimp only
  rw [tokNext_paramStr hmodes]
  dsimp only
  rw [tokNext_rest]
  rw [Option.filter_some]
  cases isChannel t <;> rfl

/-- No letter of a MODE line takes the last parameter to look at it. -/
structure ArgsUnread (b : BotState) (m : Message) : Prop where
  loop : Unread IrcParser.loopTakes loopReads (m.middles.getD 1 []) (m.place - 2)
  side : 1024 ≤ (paramStr (m.middles.drop 2 ++ [m.last])).length ∨
    (paramStr (m.middles.drop 2 ++ [m.last])).length + 1 < 1024 ∧
      Unread (isupTakes b.isup) (lineReads b.isup m.last) (m.middles.getD 1 []) (m.place - 2)

theorem onMode_eq (h : m.place ≤ 1 ∨
      (∀ t ∈ m.middles.head?, isChannel t = true → find b t = none) ∨ ArgsUnread b m) :
    onMode P b m.pre (m.text true) = onMode P b m.pre (m.text false) := by
  unfold Message.text Message.params
  have hword := fun w hw => (m.middles_plain w hw).toWord
  cases hmiddles : m.middles with
  | nil =>
      -- the target alone
      have hrun (c : Bool) : onMode P b m.pre (paramStr [m.spelt c]) = b := by
        unfold onMode
        rw [tokNext_paramStr (m.word_spelt c)]
        dsimp only
        split
        · rename_i hmodes
          cases hmodes
        · rfl
      rw [List.nil_append, List.nil_append, hrun, hrun]
  | cons t rest =>
      rw [hmiddles] at hword
      have ht := hword t List.mem_cons_self
      cases rest with
      | nil =>
          rw [List.singleton_append, List.singleton_append,
            onMode_paramStr m.pre [] ht (m.word_spelt _),
            onMode_paramStr m.pre [] ht (m.word_spelt _)]
          exact congrArg (if isChannel t then · else b) (channelMode_colon m.pre t m.last)
      | cons modes as =>
          have hmodes := hword modes (List.mem_cons_of_mem t List.mem_cons_self)
          have has : ∀ w ∈ as, Word w := fun w hw =>
            hword w (List.mem_cons_of_mem t (List.mem_cons_of_mem modes hw))
          have hplace : m.place = as.length + 2 := by rw [Message.place, hmiddles]; rfl
          rw [List.cons_append, List.cons_append, List.cons_append, List.cons_append,
            onMode_paramStr m.pre _ ht hmodes, onMode_paramStr m.pre _ ht hmodes]
          by_cases hchan : isChannel t = true
          · rw [if_pos hchan, if_pos hchan]
            rcases h with hfew | hunknown | hunread
            · omega
            · have hnone := hunknown t (by rw [hmiddles]; rfl) hchan
              rw [channelMode_unknown hnone, channelMode_unknown hnone]
            · obtain ⟨hloop, hside⟩ := hunread
              rw [hmiddles] at hloop hside
              have hlen : m.place - 2 = as.length := by omega
              rw [hlen] at hloop hside
              exact channelMode_unread m.pre t has (m.word_spelt true) (m.word_spelt false)
                hloop hside
          · rw [if_neg hchan, if_neg hchan]

end Modes

/-! ### 324, 329, 367, 368 -/

section Numerics

open ServerNumerics

variable {b : BotState} {m : Message}

theorem numeric_one (command w : Str) (hw : Word w) : numeric b command (paramStr [w]) = b := by
  unfold numeric
  rw [tokNext_paramStr hw]
  exact ite_self b

theorem numeric_paramStr (command : Str) {me chan : Str} (more : List Str) (hme : Word me)
    (hchan : Word chan) : numeric b command (paramStr (me :: chan :: more)) =
      if 1024 ≤ (paramStr (me :: chan :: more)).length then b
      else (find b chan).elim b fun ci => numericOn b ci command (paramStr more) := by
  unfold numeric
  rw [tokNext_paramStr hme]
  dsimp only
  rw [tokNext_paramStr hchan]
  dsimp only
  rw [Option.bind_some]
  cases find b chan <;> rfl

/-- Both spellings are on the same side of what `chanlive::numeric` takes, and make no
difference to what it does there. -/
def SameSide (m : Message) (inner : Prop) : Prop :=
  1024 ≤ (m.text false).length ∨ (m.text false).length + 1 < 1024 ∧ inner

/-- A reply about a channel, where the channel is not the last parameter. -/
theorem numeric_eq {command me chan : Str} {mid : List Str}
    (hmiddles : m.middles = me :: chan :: mid) {inner : Prop} (hinner : inner → ∀ ci,
      numericOn b ci command (paramStr (mid ++ [m.spelt true])) =
        numericOn b ci command (paramStr (mid ++ [m.spelt false])))
    (h : find b chan = none ∨ SameSide m inner) :
    numeric b command (m.text true) = numeric b command (m.text false) := by
  have hme := (m.middles_plain me (by rw [hmiddles]; exact List.mem_cons_self)).toWord
  have hchan := (m.middles_plain chan
    (by rw [hmiddles]; exact List.mem_cons_of_mem me List.mem_cons_self)).toWord
  have hrun (c : Bool) : numeric b command (m.text c) =
      if 1024 ≤ (m.text c).length then b
      else (find b chan).elim b fun ci =>
        numericOn b ci command (paramStr (mid ++ [m.spelt c])) := by
    unfold Message.text Message.params
    rw [hmiddles]
    exact numeric_paramStr command (mid ++ [m.spelt c]) hme hchan
  rw [hrun, hrun, Message.length_text]
  rcases h with hnone | hlong | ⟨hshort, hsame⟩
  · rw [hnone]
    exact (ite_self b).trans (ite_self b).symm
  · rw [if_pos (by omega), if_pos hlong]
  · rw [if_neg (by omega), if_neg (by omega)]
    cases find b chan with
    | none => rfl
    | some ci => exact hinner hsame ci

/-- The channel that a reply is about: its second parameter. -/
def chanOf (m : Message) : Str := m.middles.getD 1 []

/-- A reply whose last parameter is its channel, or that has none. -/
theorem numeric_short {c : Bool} (hshort : m.place ≤ 1)
    (h : m.place = 1 → find b (m.spelt c) = none) (command : Str) :
    numeric b command (m.text c) = b := by
  unfold Message.text Message.params
  cases hmiddles : m.middles with
  | nil => exact numeric_one command _ (m.word_spelt c)
  | cons me rest =>
      have hplace : m.place = rest.length + 1 := by rw [Message.place, hmiddles]; rfl
      have hrest : rest = [] := List.length_eq_zero_iff.mp (by omega)
      have hme := (m.middles_plain me (by rw [hmiddles]; exact List.mem_cons_self)).toWord
      subst hrest
      rw [List.singleton_append, numeric_paramStr command [] hme (m.word_spelt c), h hplace,
        Option.elim_none, ite_self]

theorem exists_two (h : 2 ≤ m.place) : ∃ me mid, m.middles = me :: chanOf m :: mid := by
  obtain ⟨me, rest, hmiddles⟩ := List.exists_cons_of_length_pos (show 0 < m.middles.length by
    exact Nat.lt_of_lt_of_le Nat.zero_lt_two h)
  have hrest : 0 < rest.length := by
    rw [Message.place, hmiddles, List.length_cons] at h
    omega
  obtain ⟨chan, mid, rfl⟩ := List.exists_cons_of_length_pos hrest
  refine ⟨me, mid, ?_⟩
  rw [chanOf, hmiddles]
  rfl

/-- 324, 329: what must hold for the spelling not to matter. -/
def ReplySame (b : BotState) (m : Message) (inner : Prop) : Prop :=
  m.place = 0 ∨ m.place = 1 ∧ NoChannel b m ∨
    2 ≤ m.place ∧ (find b (chanOf m) = none ∨ SameSide m inner)

theorem numeric_eq_of_same {command : Str} {inner : Prop} (h : ReplySame b m inner)
    (hinner : inner → ∀ me mid, m.middles = me :: chanOf m :: mid → ∀ ci,
      numericOn b ci command (paramStr (mid ++ [m.spelt true])) =
        numericOn b ci command (paramStr (mid ++ [m.spelt false]))) :
    numeric b command (m.text true) = numeric b command (m.text false) := by
  rcases h with hzero | ⟨hone, hno⟩ | ⟨htwo, hrest⟩
  · rw [numeric_short (by omega) (by omega), numeric_short (by omega) (by omega)]
  · rw [numeric_short (by omega) fun _ => hno true, numeric_short (by omega) fun _ => hno false]
  · obtain ⟨me, mid, hmiddles⟩ := exists_two htwo
    exact numeric_eq hmiddles (fun hsame => hinner hsame me mid hmiddles) hrest

/-- No letter of a 324 takes the last parameter to look at it. -/
def LettersUnread (b : BotState) (m : Message) : Prop :=
  m.place = 2 ∨
    Unread (isupTakes b.isup) (applyReads b.isup true m.last) (m.middles.getD 2 []) (m.place - 3)

theorem numericOn_324 {me : Str} {mid : List Str}
    (hmiddles : m.middles = me :: chanOf m :: mid) (h : LettersUnread b m) (ci : Nat) :
    numericOn b ci (str "324") (paramStr (mid ++ [m.spelt true])) =
      numericOn b ci (str "324") (paramStr (mid ++ [m.spelt false])) := by
  have hplace : m.place = mid.length + 2 := by rw [Message.place, hmiddles]; rfl
  unfold numericOn
  rw [if_pos rfl, if_pos rfl]
  cases mid with
  | nil =>
      rw [List.nil_append, List.nil_append, tokNext_paramStr (m.word_spelt true),
        tokNext_paramStr (m.word_spelt false)]
      dsimp only [Option.elim_some]
      exact congrArg (withChan · ci fun c => { c with enfDirty := true })
        (apply_colon b ci m.last true)
  | cons modes as =>
      have hword := fun w (hw : w ∈ me :: chanOf m :: modes :: as) =>
        (m.middles_plain w (hmiddles ▸ hw)).toWord
      have hmodes := hword modes (by simp)
      have htakes : Unread (isupTakes b.isup) (applyReads b.isup true m.last) modes as.length := by
        rcases h with htwo | htakes
        · rw [hplace] at htwo
          exact absurd htwo (by simp)
        · rw [hmiddles, show m.place - 3 = as.length by rw [hplace]; simp] at htakes
          exact htakes
      rw [List.cons_append, List.cons_append, tokNext_paramStr hmodes, tokNext_paramStr hmodes]
      dsimp only [Option.elim_some]
      exact congrArg (withChan · ci fun c => { c with enfDirty := true })
        (apply_unread (fun w hw => hword w (by simp [hw])) (m.word_spelt true) (m.word_spelt false)
          b ci true htakes)

theorem parseTs_colon (s : Str) : parseTs (colon :: s) = 0 := by
  unfold parseTs
  rw [if_pos (by simp [show isDigit colon = false by decide])]

/-- The last parameter is no time. -/
theorem parseTs_spelt (h : parseTs m.last = 0) : parseTs (m.spelt true) = parseTs (m.spelt false) :=
  (parseTs_colon m.last).trans h.symm

theorem numericOn_329 {me : Str} {mid : List Str}
    (hmiddles : m.middles = me :: chanOf m :: mid) (h : 3 ≤ m.place ∨ parseTs m.last = 0)
    (ci : Nat) :
    numericOn b ci (str "329") (paramStr (mid ++ [m.spelt true])) =
      numericOn b ci (str "329") (paramStr (mid ++ [m.spelt false])) := by
  have hplace : m.place = mid.length + 2 := by rw [Message.place, hmiddles]; rfl
  have hcreated : ((tokNext (str " ") (paramStr (mid ++ [m.spelt true]))).1.map parseTs).getD 0 =
      ((tokNext (str " ") (paramStr (mid ++ [m.spelt false]))).1.map parseTs).getD 0 := by
    cases mid with
    | nil =>
        rw [List.nil_append, List.nil_append, tokNext_paramStr (m.word_spelt true),
          tokNext_paramStr (m.word_spelt false)]
        refine parseTs_spelt (h.resolve_left ?_)
        rw [hplace]
        simp
    | cons ts more =>
        have hts := (m.middles_plain ts (by rw [hmiddles]; simp)).toWord
        rw [List.cons_append, List.cons_append, tokNext_paramStr hts, tokNext_paramStr hts]
  have hne : str "329" ≠ str "324" := by decide
  unfold numericOn
  rw [hcreated, if_neg hne, if_pos rfl, if_neg hne, if_pos rfl]

/-- The time of a 367 is no time, or not the last parameter. -/
def BanUnread (m : Message) : Prop := 5 ≤ m.place ∨ m.place = 4 ∧ parseTs m.last = 0

theorem numericOn_367 {me : Str} {mid : List Str} (hmiddles : m.middles = me :: chanOf m :: mid)
    (h : BanUnread m) (ci : Nat) :
    numericOn b ci (str "367") (paramStr (mid ++ [m.spelt true])) =
      numericOn b ci (str "367") (paramStr (mid ++ [m.spelt false])) := by
  have hplace : m.place = mid.length + 2 := by rw [Message.place, hmiddles]; rfl
  have hword : ∀ w ∈ mid, Word w :=
    fun w hw => (m.middles_plain w (by rw [hmiddles]; simp [hw])).toWord
  have htokens (c : Bool) : tokens (paramStr (mid ++ [m.spelt c])) = mid ++ [m.spelt c] :=
    tokens_concat hword (m.word_spelt c)
  have h1 : str "367" ≠ str "324" := by decide
  have h2 : str "367" ≠ str "329" := by decide
  unfold BanUnread at h
  unfold numericOn
  rw [htokens, htokens, if_neg h1, if_neg h2, if_pos rfl, if_neg h1, if_neg h2, if_pos rfl]
  -- the mask, who set it, when
  rcases mid with _ | ⟨mask, _ | ⟨setter, _ | ⟨ts, more⟩⟩⟩
  · simp at hplace
    omega
  · simp at hplace
    omega
  · simp only [List.length_cons, List.length_nil] at hplace
    have hts : parseTs m.last = 0 := (h.resolve_left (by omega)).2
    simp only [List.cons_append, List.nil_append, List.getElem?_cons_succ, List.getElem?_cons_zero,
      Option.map_some, Option.getD_some, parseTs_spelt hts]
    rfl
  · rfl

theorem unbanNoteBan_unknown {chan : Str} (h : find b chan = none) (mask : Str) :
    Requests.unbanNoteBan b chan mask = b := by
  unfold Requests.unbanNoteBan
  split
  · rfl
  · simp [h]

theorem onBanList_paramStr {me chan mask : Str} (more : List Str) (hme : Word me)
    (hchan : Word chan) (hmask : Word mask) :
    onBanList b (paramStr (me :: chan :: mask :: more)) =
      Requests.unbanNoteBan (numeric b (str "367") (paramStr (me :: chan :: mask :: more))) chan
        mask := by
  unfold onBanList
  rw [tokNext_paramStr hme]
  dsimp only
  rw [tokNext_paramStr hchan]
  dsimp only
  rw [tokNext_paramStr hmask]

/-- 367 without a mask. -/
theorem onBanList_short (h : m.place ≤ 1) (c : Bool) : onBanList b (m.text c) = b := by
  unfold Message.text Message.params
  cases hmiddles : m.middles with
  | nil =>
      unfold onBanList
      rw [List.nil_append, numeric_one _ _ (m.word_spelt c), tokNext_paramStr (m.word_spelt c)]
      rfl
  | cons me rest =>
      have hplace : m.place = rest.length + 1 := by rw [Message.place, hmiddles]; rfl
      have hrest : rest = [] := List.length_eq_zero_iff.mp (by omega)
      have hme := (m.middles_plain me (by rw [hmiddles]; exact List.mem_cons_self)).toWord
      subst hrest
      have hnumeric : numeric b (str "367") (paramStr [me, m.spelt c]) = b := by
        rw [numeric_paramStr _ [] hme (m.word_spelt c)]
        split
        · rfl
        · cases find b (m.spelt c) <;> rfl
      unfold onBanList
      rw [List.singleton_append, hnumeric, tokNext_paramStr hme]
      dsimp only
      rw [tokNext_paramStr (m.word_spelt c)]
      rfl

theorem onBanList_eq (h : m.place ≤ 1 ∨ 2 ≤ m.place ∧ find b (chanOf m) = none ∨
    3 ≤ m.place ∧ SameSide m (BanUnread m)) :
    onBanList b (m.text true) = onBanList b (m.text false) := by
  by_cases hshort : m.place ≤ 1
  · rw [onBanList_short hshort, onBanList_short hshort]
  · obtain ⟨me, mid, hmiddles⟩ := exists_two (show 2 ≤ m.place by omega)
    have hword := fun w (hw : w ∈ me :: chanOf m :: mid) => (m.middles_plain w (hmiddles ▸ hw)).toWord
    have hnumeric : numeric b (str "367") (m.text true) = numeric b (str "367") (m.text false) := by
      refine numeric_eq hmiddles (numericOn_367 hmiddles) ?_
      exact (h.resolve_left hshort).imp And.right And.right
    have hrun (c : Bool) (mask : Str) (more : List Str) (hmask : Word mask)
        (hparams : m.params c = me :: chanOf m :: mask :: more) : onBanList b (m.text c) =
          Requests.unbanNoteBan (numeric b (str "367") (m.text c)) (chanOf m) mask := by
      unfold Message.text
      rw [hparams]
      exact onBanList_paramStr more (hword me (by simp)) (hword (chanOf m) (by simp)) hmask
    have hparams (c : Bool) : m.params c = me :: chanOf m :: (mid ++ [m.spelt c]) := by
      rw [Message.params, hmiddles]
      rfl
    cases mid with
    | nil =>
        have hnone : find b (chanOf m) = none := by
          refine ((h.resolve_left hshort).resolve_right fun hthree => ?_).2
          rw [Message.place, hmiddles] at hthree
          exact absurd hthree.1 (by simp)
        have hsame (c : Bool) : numeric b (str "367") (m.text c) = b := by
          unfold Message.text
          rw [hparams c, numeric_paramStr _ _ (hword me (by simp)) (hword (chanOf m) (by simp)), hnone]
          exact ite_self b
        rw [hrun true (m.spelt true) [] (m.word_spelt true) (hparams true),
          hrun false (m.spelt false) [] (m.word_spelt false) (hparams false), hsame, hsame,
          unbanNoteBan_unknown hnone, unbanNoteBan_unknown hnone]
    | cons mask more =>
        have hmask := hword mask (by simp)
        rw [hrun true mask _ hmask (hparams true),
          hrun false mask _ hmask (hparams false), hnumeric]

theorem onEndOfBanList_eq (h : m.place = 0 ∨
    m.place = 1 ∧ NoChannel b m ∧ (∀ c, Channel.unbanJobFind b (m.spelt c) = none) ∨
      2 ≤ m.place ∧ (find b (chanOf m) = none ∨ SameSide m True)) :
    onEndOfBanList b (m.text true) = onEndOfBanList b (m.text false) := by
  have hnumeric : numeric b (str "368") (m.text true) = numeric b (str "368") (m.text false) := by
    refine numeric_eq_of_same (h.imp_right (Or.imp_left (And.imp_right And.left))) ?_
    intro _ me mid _ ci
    rfl
  unfold onEndOfBanList
  rw [hnumeric]
  by_cases hone : m.place = 1
  · obtain ⟨-, hno, hjob⟩ := (h.resolve_left (by omega)).resolve_right (by omega)
    have hrun (c : Bool) : (secondTok (m.text c)).elim b (Requests.unbanFinish b) = b := by
      rw [Message.secondTok_text, ← hone, Message.getElem?_place, Option.elim_some]
      unfold Requests.unbanFinish
      rw [hjob c]
    rw [numeric_short (by omega) fun _ => hno false]
    rw [hrun, hrun]
  · rw [secondTok_eq hone]

end Numerics

/-! ### 352 -/

section Senders

variable {P : Primitives} {R : Receivers} {b : BotState} {m : Message}

/-- The `:` is no halfop or voice symbol of the server, or one that the member has. -/
def SymbolsSame (b : BotState) (modes : Str) : Prop :=
  ∀ letter ∈ [byte 'h', byte 'v'],
    ServerNumerics.prefixSym b.isup letter (colon :: modes) =
      ServerNumerics.prefixSym b.isup letter modes

theorem whoMember_colon {chan modes : Str} (ident host nick : Str)
    (h : find b chan = none ∨ SymbolsSame b modes) :
    ServerNumerics.whoMember b chan ident host nick (colon :: modes) =
      ServerNumerics.whoMember b chan ident host nick modes := by
  have hop : (colon :: modes).contains (byte '@') = modes.contains (byte '@') := by
    rw [List.contains_cons, show (byte '@' == colon) = false by decide, Bool.false_or]
  unfold ServerNumerics.whoMember
  dsimp only
  rw [hop]
  -- the bot's own mask is noted first
  generalize hnoted : (if eqIc nick b.currentNick = true then
    JoinPart.updateOwnHostmask b (trunc (nick ++ str "!" ++ ident ++ str "@" ++ host) maxMaskLen)
      else b) = b'
  have hsame : b'.isup = b.isup ∧ b'.chans = b.chans := by
    rw [← hnoted]
    split
    · obtain ⟨host, ts, link, out, heq⟩ := JoinPart.updateOwnHostmask_eq b
        (trunc (nick ++ str "!" ++ ident ++ str "@" ++ host) maxMaskLen)
      rw [heq]
      exact ⟨rfl, rfl⟩
    · exact ⟨rfl, rfl⟩
  rcases h with hnone | hsyms
  · have hnone' : find b' chan = none := by rwa [Chancfg.find, hsame.2]
    rw [hnone']
  · rw [hsame.1, hsyms (byte 'h') (by simp), hsyms (byte 'v') (by simp)]

theorem onWhoReply_eq (h : m.place ≠ 6 ∨ find b (chanOf m) = none ∨ SymbolsSame b m.last) :
    ServerNumerics.onWhoReply b (m.text true) = ServerNumerics.onWhoReply b (m.text false) := by
  unfold ServerNumerics.onWhoReply
  unfold chanOf at h
  rw [Message.tokens_text, Message.tokens_text, Message.params, Message.params]
  have hplace : m.place = m.middles.length := rfl
  rw [hplace] at h
  generalize m.middles = middles at h ⊢
  rcases middles with
    _ | ⟨_, _ | ⟨chan, _ | ⟨ident, _ | ⟨host, _ | ⟨_, _ | ⟨nick, _ | ⟨modes, more⟩⟩⟩⟩⟩⟩⟩
  all_goals try rfl
  exact whoMember_colon ident host nick (h.resolve_left (not_not_intro rfl))

/-! ### PRIVMSG, NOTICE -/

theorem tokNext_all {s : Str} (hs : s ≠ []) : (tokNext [] s).1 = some s := by
  have hall := tokNext_rest s
  cases htok : (tokNext [] s).1 with
  | none => rw [htok] at hall; exact absurd hall.symm hs
  | some t => rw [htok] at hall; exact congrArg some hall

/-- The text of a line is the same in both spellings. -/
theorem textParts_eq (h : m.place = 1) : textParts (m.text true) = textParts (m.text false) := by
  obtain ⟨dest, rest, hmiddles⟩ := List.exists_cons_of_length_pos
    (show 0 < m.middles.length from Nat.lt_of_lt_of_eq Nat.one_pos h.symm)
  have hrest : rest = [] := by
    rw [Message.place, hmiddles] at h
    exact List.length_eq_zero_iff.mp (by simpa using h)
  subst hrest
  have hdest := (m.middles_plain dest (by rw [hmiddles]; exact List.mem_cons_self)).toWord
  have hrun (c : Bool) : textParts (m.text c) = (some dest, some m.last) := by
    have hlast : paramStr [m.spelt c] = m.spelt c := List.append_nil _
    have hcolon : stripColon (m.spelt c) = m.last := by
      cases c with
      | true => rfl
      | false => exact if_neg m.last_plain.head_ne
    unfold textParts Message.text Message.params
    rw [hmiddles, List.singleton_append, tokNext_paramStr hdest]
    dsimp only
    rw [hlast, tokNext_all (m.word_spelt c).ne_nil, Option.map_some, hcolon]
  rw [hrun, hrun]

/-- A line without a text. -/
theorem textParts_short (h : m.place = 0) (c : Bool) : (textParts (m.text c)).2 = none := by
  unfold textParts Message.text Message.params
  rw [List.length_eq_zero_iff.mp h, List.nil_append, tokNext_paramStr (m.word_spelt c)]
  rfl

/-- A test for a front part that has no blank, but for its end, sees no further than the first
blank of a text. -/
theorem isPrefixOf_blank {p : Str} (hp : space ∉ p.dropLast) (w t t' : Str) :
    p.isPrefixOf (w ++ space :: t) = p.isPrefixOf (w ++ space :: t') := by
  have hfront (t : Str) : p <+: w ++ space :: t → p <+: w ++ [space] := by
    intro h
    rw [List.append_cons] at h
    by_cases hlen : p.length ≤ (w ++ [space]).length
    · exact List.prefix_of_prefix_length_le h (List.prefix_append _ _) hlen
    · -- the blank would be inside
      obtain ⟨more, hmore⟩ := List.prefix_of_prefix_length_le (List.prefix_append _ t) h (by omega)
      subst hmore
      refine absurd ?_ hp
      rw [List.dropLast_append_of_ne_nil (by rintro rfl; simp at hlen)]
      simp
  have hback (t : Str) (h : p <+: w ++ [space]) : p <+: w ++ space :: t := by
    rw [List.append_cons]
    exact h.trans (List.prefix_append _ _)
  rw [Bool.eq_iff_iff, List.isPrefixOf_iff_prefix, List.isPrefixOf_iff_prefix]
  exact ⟨fun h => hback t' (hfront t h), fun h => hback t (hfront t' h)⟩

theorem startsWithIc_blank {p : Str} (hp : space ∉ (p.map lower).dropLast) (w t t' : Str) :
    startsWithIc (w ++ space :: t) p = startsWithIc (w ++ space :: t') p := by
  have hstarts (s : Str) : startsWithIc s p = (p.map lower).isPrefixOf (s.map lower) := by
    unfold startsWithIc
    rw [Bool.eq_iff_iff, List.isPrefixOf_iff_prefix, Bool.and_eq_true, decide_eq_true_eq, eqIc_iff,
      List.map_take]
    constructor
    · rintro ⟨-, heq⟩
      rw [← heq]
      exact List.take_prefix _ _
    · intro h
      have hlen := h.length_le
      rw [List.length_map, List.length_map] at hlen
      have htake := List.prefix_iff_eq_take.mp h
      rw [List.length_map] at htake
      exact ⟨hlen, htake.symm⟩
  rw [hstarts, hstarts, List.map_append, List.map_append, List.map_cons, List.map_cons,
    show lower space = space by decide]
  exact isPrefixOf_blank hp _ _ _

/-- Channel text counts by its first word. -/
theorem onText_blank (sha256 : Str → Str) (b : BotState) (chan nick user host : Str) {w : Str}
    (hw : w ≠ []) (t t' : Str) : onText sha256 b chan nick user host (w ++ space :: t) =
      onText sha256 b chan nick user host (w ++ space :: t') := by
  obtain ⟨x, w, rfl⟩ := List.exists_cons_of_ne_nil hw
  have haction := startsWithIc_blank (p := str "ACTION") (by decide) w t t'
  have htail (t : Str) : (x :: w ++ space :: t).tail = w ++ space :: t := rfl
  unfold onText
  rw [htail, htail, haction]
  rfl

theorem notice_blank (b : BotState) (nick user host dest : Str) {w : Str} (hw : w ≠ [])
    (t t' : Str) : notice P R b nick user host dest (w ++ space :: t) =
      notice P R b nick user host dest (w ++ space :: t') := by
  unfold notice
  rw [onText_blank P.sha256 b dest nick user host hw t t']
  obtain ⟨x, w, rfl⟩ := List.exists_cons_of_ne_nil hw
  rfl

/-- The text behind the first word of a private line goes to no frame's handler: it is for somebody
else, plain, or of a sender who is not listened to. -/
def FrameUnread (R : Receivers) (b : BotState) (nick user host dest message : Str) : Prop :=
  eqIc dest b.currentNick = true →
    let userHost := trunc (nuhOf nick user host) 256
    let ignored := R.hostIgnored b userHost
    if (str "~B2 ").isPrefixOf message then Auth.trustedBotByHost b userHost = none
    else ignored.1 = true ∨
      if (str "~A2A ").isPrefixOf message then (R.floodMsg ignored.2 userHost).1 = false
      else (str "~A2S ").isPrefixOf message = false ∧ (str "~A2 ").isPrefixOf message = false

theorem handlePrivateMessage_blank {nick user host dest w t : Str}
    (h : FrameUnread R b nick user host dest (w ++ space :: t)) (t' : Str) :
    handlePrivateMessage R b nick user host dest (w ++ space :: t') =
      handlePrivateMessage R b nick user host dest (w ++ space :: t) := by
  unfold FrameUnread at h
  unfold handlePrivateMessage
  dsimp only at h ⊢
  rw [isPrefixOf_blank (p := str "~B2 ") (by decide) w t' t,
    isPrefixOf_blank (p := str "~A2A ") (by decide) w t' t,
    isPrefixOf_blank (p := str "~A2S ") (by decide) w t' t,
    isPrefixOf_blank (p := str "~A2 ") (by decide) w t' t]
  by_cases hdest : eqIc dest b.currentNick = true
  · have h := h hdest
    rw [hdest, Bool.not_true, if_neg Bool.false_ne_true, if_neg Bool.false_ne_true]
    refine ite_congr rfl (fun hbot => ?_) fun hbot => ?_
    · rw [if_pos hbot] at h
      rw [h]
      rfl
    · rw [if_neg hbot] at h
      refine ite_congr rfl (fun _ => rfl) fun hlistened => ?_
      have h := h.resolve_left hlistened
      refine ite_congr rfl (fun hauth => ?_) fun hauth => ?_
      · rw [if_pos hauth] at h
        rw [h]
        rfl
      · rw [if_neg hauth] at h
        rw [h.1, h.2]
        rfl
  · rw [Bool.not_eq_true] at hdest
    rw [hdest]
    rfl

/-- A CTCP that is not counted out is neither a PING nor an answer to the bot's DCC offer. -/
def CtcpUnread (R : Receivers) (b : BotState) (dest : Str) (nuh : Option Str) (full : Bool)
    (message : Str) : Prop :=
  let ok := ctcpCounted R b nuh
  let ctcp := message.tail.dropLast
  ok.1 = true → startsWithIc ctcp (str "PING ") = false ∧
    (startsWithIc ctcp (str "DCC ") = true → (full && eqIc dest ok.2.currentNick) = false)

theorem onCtcp_blank {b : BotState} {nick dest w t : Str} {nuh : Option Str} {full : Bool}
    (hping : startsWithIc (w ++ space :: t) (str "PING ") = false)
    (hdcc : startsWithIc (w ++ space :: t) (str "DCC ") = true →
      (full && eqIc dest b.currentNick) = false) (t' : Str) :
    onCtcp R b nick dest nuh full (w ++ space :: t') =
      onCtcp R b nick dest nuh full (w ++ space :: t) := by
  have hversion (t : Str) : eqIc (w ++ space :: t) (str "VERSION") = false := by
    rw [Bool.eq_false_iff]
    intro heq
    have hmem : space ∈ (str "VERSION").map lower := by
      rw [← eqIc_iff.mp heq]
      exact List.mem_map.mpr ⟨space, by simp, by decide⟩
    exact absurd hmem (by decide)
  unfold onCtcp
  rw [startsWithIc_blank (p := str "DCC ") (by decide) w t' t,
    startsWithIc_blank (p := str "PING ") (by decide) w t' t, hversion, hversion, hping]
  refine ite_congr rfl (fun hoffer => ?_) fun _ => rfl
  rw [hdcc hoffer, if_neg Bool.false_ne_true, if_neg Bool.false_ne_true]

/-- The text behind the first word of a line from `nick` is not looked at. -/
def TextUnread (R : Receivers) (b : BotState) (nick : Str) (user host : Option Str)
    (dest message : Str) : Prop :=
  isChannel dest = true ∨
    if isCtcp message then
      CtcpUnread R b dest (srcNuh nick user host) (user.isSome && host.isSome) message
    else
      FrameUnread R b nick (user.getD (str "(null)")) (host.getD (str "(null)")) dest message

theorem privmsg_blank {nick dest w t t' : Str} {user host : Option Str} (hw : w ≠ []) (ht : t ≠ [])
    (hlast : t'.getLast? = t.getLast?)
    (h : TextUnread R b nick user host dest (w ++ space :: t)) :
    privmsg P R b nick user host dest (w ++ space :: t') =
      privmsg P R b nick user host dest (w ++ space :: t) := by
  have ht' : t' ≠ [] := by
    rintro rfl
    rw [List.getLast?_nil, eq_comm, List.getLast?_eq_none_iff] at hlast
    exact ht hlast
  unfold privmsg
  by_cases hchan : isChannel dest = true
  · rw [if_pos hchan, if_pos hchan]
    cases user with
    | none => rfl
    | some user =>
        cases host with
        | none => rfl
        | some host => exact onText_blank P.sha256 b dest nick user host hw t' t
  · rw [if_neg hchan, if_neg hchan]
    have h := h.resolve_left hchan
    obtain ⟨x, w, rfl⟩ := List.exists_cons_of_ne_nil hw
    have hctcp : isCtcp (x :: w ++ space :: t') = isCtcp (x :: w ++ space :: t) := by
      have hend (s : Str) (hs : s ≠ []) : (x :: w ++ space :: s).getLast? = s.getLast? := by
        rw [List.append_cons, List.getLast?_append_of_ne_nil _ hs]
      have hlen (s : Str) : decide (2 ≤ (x :: w ++ space :: s).length) = true :=
        decide_eq_true (by simp only [List.length_append, List.length_cons]; omega)
      unfold isCtcp
      rw [hend t' ht', hend t ht, hlast, hlen, hlen]
      rfl
    have hinner (s : Str) (hs : s ≠ []) :
        (x :: w ++ space :: s).tail.dropLast = w ++ space :: s.dropLast := by
      rw [List.cons_append, List.tail_cons, List.append_cons, List.dropLast_append_of_ne_nil hs,
        List.append_assoc, List.singleton_append]
    rw [hctcp]
    dsimp only
    refine ite_congr rfl (fun hc => ?_) fun hc => ?_
    · rw [if_pos hc] at h
      unfold CtcpUnread at h
      dsimp only at h
      refine ite_congr rfl (fun hok => ?_) fun _ => rfl
      obtain ⟨hping, hdcc⟩ := h hok
      rw [hinner t ht] at hping hdcc
      rw [hinner t ht, hinner t' ht']
      exact onCtcp_blank hping hdcc _
    · rw [if_neg hc] at h
      exact handlePrivateMessage_blank h t'

/-- The target of a private line, and its text as it is without the `:`. -/
def destOf (m : Message) : Str := m.middles.headD []

def messageOf (m : Message) : Str := paramStr (m.middles.drop 1 ++ [m.last])

theorem getLast?_paramStr_concat (ws : List Str) {x : Str} (hx : x ≠ []) :
    (paramStr (ws ++ [x])).getLast? = x.getLast? := by
  cases ws with
  | nil =>
      rw [List.nil_append, paramStr_cons]
      exact congrArg List.getLast? (List.append_nil x)
  | cons w ws =>
      have hwords : words (ws ++ [x]) = words ws ++ space :: x := by
        simp [words, List.flatMap_append]
      rw [List.cons_append, paramStr_cons, hwords, List.append_cons, ← List.append_assoc,
        List.getLast?_append_of_ne_nil _ hx]

/-- A text of several words. -/
theorem textParts_long (h : 2 ≤ m.place) : ∃ w ws, w ≠ [] ∧
    messageOf m = w ++ space :: paramStr (ws ++ [m.last]) ∧
    ∀ c, textParts (m.text c) =
      (some (destOf m), some (w ++ space :: paramStr (ws ++ [m.spelt c]))) := by
  obtain ⟨dest, rest, hmiddles⟩ := List.exists_cons_of_length_pos (show 0 < m.middles.length from
    Nat.lt_of_lt_of_le Nat.zero_lt_two h)
  have hrest : 0 < rest.length := by
    rw [Message.place, hmiddles, List.length_cons] at h
    omega
  obtain ⟨w, ws, rfl⟩ := List.exists_cons_of_length_pos hrest
  have hdest := (m.middles_plain dest (by rw [hmiddles]; exact List.mem_cons_self)).toWord
  have hw := m.middles_plain w (by rw [hmiddles]; simp)
  have hsplit (x : Str) : paramStr (w :: (ws ++ [x])) = w ++ space :: paramStr (ws ++ [x]) := by
    obtain ⟨v, vs, hvs⟩ := List.exists_cons_of_ne_nil (l := ws ++ [x]) (by simp)
    rw [hvs, paramStr_cons, words_cons, paramStr_cons]
  refine ⟨w, ws, hw.ne_nil, ?_, fun c => ?_⟩
  · rw [messageOf, hmiddles, List.drop_succ_cons, List.drop_zero, List.cons_append, hsplit]
  · have hne : w ++ space :: paramStr (ws ++ [m.spelt c]) ≠ [] := by simp
    have hhead : (w ++ space :: paramStr (ws ++ [m.spelt c])).head? ≠ some (byte ':') := by
      obtain ⟨x, xs, rfl⟩ := List.exists_cons_of_ne_nil hw.ne_nil
      exact hw.head_ne
    unfold textParts Message.text Message.params
    rw [hmiddles, List.cons_append, List.cons_append, tokNext_paramStr hdest, hsplit]
    dsimp only
    rw [tokNext_all hne, Option.map_some, stripColon, if_neg hhead, destOf, hmiddles]
    rfl

theorem onPrivmsg_eq {pre : Str} (h : m.place ≤ 1 ∨ ∀ nick ∈ (prefixParts pre).1,
      TextUnread R b nick (prefixParts pre).2.1 (prefixParts pre).2.2 (destOf m) (messageOf m)) :
    onPrivmsg P R b pre (m.text true) = onPrivmsg P R b pre (m.text false) := by
  by_cases hzero : m.place = 0
  · have hrun (c : Bool) : onPrivmsg P R b pre (m.text c) = b := by
      have hnone := textParts_short hzero c
      unfold onPrivmsg
      split
      · rename_i hparts
        rw [hparts] at hnone
        cases hnone
      · rfl
    rw [hrun, hrun]
  by_cases hone : m.place = 1
  · unfold onPrivmsg
    rw [textParts_eq hone]
  have hunread := h.resolve_left (by omega)
  obtain ⟨w, ws, hw, hmessage, hparts⟩ := textParts_long (show 2 ≤ m.place by omega)
  have hlast := getLast?_paramStr_concat ws (m.word_spelt false).ne_nil
  have hne : paramStr (ws ++ [m.last]) ≠ [] := by
    intro hnil
    rw [show m.spelt false = m.last from rfl, hnil] at hlast
    exact (m.word_spelt false).ne_nil (List.getLast?_eq_none_iff.mp hlast.symm)
  have hends : (paramStr (ws ++ [m.spelt true])).getLast? =
    (paramStr (ws ++ [m.last])).getLast? := by
    rw [getLast?_paramStr_concat ws (m.word_spelt true).ne_nil,
      getLast?_paramStr_concat ws m.last_plain.ne_nil]
    exact List.getLast?_cons_of_ne_nil m.last_plain.ne_nil
  unfold onPrivmsg
  rw [hparts, hparts]
  rcases hsender : prefixParts pre with ⟨nick, user, host⟩
  rw [hsender] at hunread
  cases nick with
  | none => rfl
  | some nick =>
      have hunread := hunread nick rfl
      rw [hmessage] at hunread
      exact privmsg_blank hw hne hends hunread

theorem onNotice_eq (pre : Str) :
    onNotice P R b pre (m.text true) = onNotice P R b pre (m.text false) := by
  by_cases hzero : m.place = 0
  · have hrun (c : Bool) : onNotice P R b pre (m.text c) = b := by
      have hnone := textParts_short hzero c
      unfold onNotice
      split
      · rfl
      · split
        · rename_i hparts
          rw [hparts] at hnone
          cases hnone
        · rfl
    rw [hrun, hrun]
  by_cases hone : m.place = 1
  · unfold onNotice
    rw [textParts_eq hone]
  · obtain ⟨w, ws, hw, -, hparts⟩ := textParts_long (show 2 ≤ m.place by omega)
    unfold onNotice
    rw [hparts, hparts]
    refine ite_congr rfl (fun _ => rfl) fun _ => ?_
    rcases prefixParts pre with ⟨_ | nick, _ | user, _ | host⟩
    all_goals try rfl
    exact notice_blank b nick user host (destOf m) hw _ _

/-! ### JOIN, PART, KICK, NICK -/

/-- The channel of a JOIN or a PART by somebody else. -/
theorem firstWord_eq : firstWord (stripColon (m.text true)) =
    firstWord (stripColon (m.text false)) := by
  by_cases hzero : m.place = 0
  · rw [Message.stripColon_text_of_zero hzero, Message.stripColon_text_of_zero hzero]
  · rw [Message.stripColon_text hzero, Message.stripColon_text hzero]
    obtain ⟨w, ws, hmiddles⟩ := List.exists_cons_of_length_pos (Nat.pos_of_ne_zero hzero)
    have hw := (m.middles_plain w (by rw [hmiddles]; exact List.mem_cons_self)).toWord
    unfold Message.text Message.params
    rw [hmiddles, List.cons_append, List.cons_append, firstWord_paramStr hw, firstWord_paramStr hw]

theorem onPart_eq (pre : Str) :
    JoinPart.onPart b pre (m.text true) = JoinPart.onPart b pre (m.text false) := by
  unfold JoinPart.onPart
  rw [firstWord_eq]

/-- The bot's own JOIN names its channel alone, or none the bot knows. -/
def OwnJoinSame (b : BotState) (m : Message) : Prop :=
  ∀ p ∈ m.pre, ∀ nick ∈ prefixNick p, JoinPart.takenForOwn b nick = true →
    m.place = 0 ∨ ∀ c, find b (m.text c) = none

theorem onJoin_eq {pre : Str} (hpre : m.pre = some pre) (h : OwnJoinSame b m) (sha256 : Str → Str) :
    JoinPart.onJoin sha256 b pre (m.text true) = JoinPart.onJoin sha256 b pre (m.text false) := by
  unfold JoinPart.onJoin
  cases hnick : prefixNick pre with
  | none => rfl
  | some nick =>
      dsimp only
      have hkeep (b' : BotState) (hchans : b'.chans = b.chans) (hcur : b'.currentNick = b.currentNick)
          (htarget : b'.targetNick = b.targetNick) :
          (if JoinPart.takenForOwn b' nick = true then JoinPart.ownJoin b' (stripColon (m.text true))
            else if (!pre.isEmpty && decide (pre.length < maxMaskLen) &&
                !(firstWord (stripColon (m.text true))).isEmpty &&
                  decide ((firstWord (stripColon (m.text true))).length < maxChan)) = true then
              Roster.onJoin sha256 b' (firstWord (stripColon (m.text true))) pre else b') =
          if JoinPart.takenForOwn b' nick = true then JoinPart.ownJoin b' (stripColon (m.text false))
            else if (!pre.isEmpty && decide (pre.length < maxMaskLen) &&
                !(firstWord (stripColon (m.text false))).isEmpty &&
                  decide ((firstWord (stripColon (m.text false))).length < maxChan)) = true then
              Roster.onJoin sha256 b' (firstWord (stripColon (m.text false))) pre else b' := by
        rw [firstWord_eq]
        by_cases hown : JoinPart.takenForOwn b' nick = true
        · rw [if_pos hown, if_pos hown]
          have hown' : JoinPart.takenForOwn b nick = true := by
            rwa [JoinPart.takenForOwn, hcur, htarget] at hown
          have hsame := h pre (by rw [hpre]; rfl) nick (by rw [hnick]; rfl) hown'
          by_cases hzero : m.place = 0
          · rw [Message.stripColon_text_of_zero hzero, Message.stripColon_text_of_zero hzero]
          · have hnone := hsame.resolve_left hzero
            have hrun (c : Bool) : JoinPart.ownJoin b' (stripColon (m.text c)) = b' := by
              have hnone' : find b' (m.text c) = none := by
                rw [Chancfg.find, hchans]
                exact hnone c
              rw [Message.stripColon_text hzero]
              unfold JoinPart.ownJoin
              rw [hnone']
            rw [hrun, hrun]
        · rw [if_neg hown, if_neg hown]
      split
      · obtain ⟨host, ts, link, out, heq⟩ := JoinPart.updateOwnHostmask_eq b pre
        exact hkeep _ (by rw [heq]) (by rw [heq]) (by rw [heq])
      · exact hkeep b rfl rfl rfl

theorem onKick_eq (h : m.place ≠ 1 ∨ ∀ chan ∈ m.middles.head?, find b chan = none) :
    onKick P b m.pre (m.text true) = onKick P b m.pre (m.text false) := by
  unfold Message.text Message.params
  have hword := fun w hw => (m.middles_plain w hw).toWord
  match hmiddles : m.middles with
  | [] =>
      have hrun (c : Bool) : onKick P b m.pre (paramStr [m.spelt c]) = b := by
        unfold onKick
        rw [tokNext_paramStr (m.word_spelt c)]
        rfl
      rw [List.nil_append, List.nil_append, hrun, hrun]
  | [chan] =>
      have hnone := (h.resolve_left (not_not_intro (by rw [Message.place, hmiddles]; rfl))) chan
        (by rw [hmiddles]; rfl)
      have hrun (c : Bool) : onKick P b m.pre (paramStr [chan, m.spelt c]) = b := by
        have hevent : ModeEvents.onKick P.sha256 b chan m.pre (m.spelt c) = b := by
          unfold ModeEvents.onKick Jobs.inChan
          rw [hnone]
          rfl
        unfold onKick
        rw [tokNext_paramStr (hword chan (by rw [hmiddles]; exact List.mem_cons_self))]
        dsimp only
        rw [tokNext_paramStr (m.word_spelt c)]
        dsimp only
        unfold ownKick
        rw [hevent, hnone]
        exact ite_self b
      rw [List.singleton_append, List.singleton_append, hrun, hrun]
  | chan :: victim :: more =>
      unfold onKick
      rw [List.cons_append, List.cons_append, List.cons_append, List.cons_append,
        tokNext_paramStr (hword chan (by rw [hmiddles]; simp)),
        tokNext_paramStr (hword chan (by rw [hmiddles]; simp))]
      dsimp only
      rw [tokNext_paramStr (hword victim (by rw [hmiddles]; simp)),
        tokNext_paramStr (hword victim (by rw [hmiddles]; simp))]

/-- The bot's own NICK is the new nick alone, or one that is cut ahead of what follows. -/
def OwnNickSame (b : BotState) (m : Message) : Prop :=
  ∀ p ∈ m.pre, ∀ old ∈ prefixNick p, eqIc old b.currentNick = true →
    m.place = 0 ∨ trunc (m.text true) maxNick = trunc (m.text false) maxNick

theorem validNick_blank {s : Str} (h : space ∈ s) (b : BotState) :
    Enforce.validNick b s = false := by
  unfold Enforce.validNick
  rw [Bool.and_eq_false_iff]
  refine .inr (List.all_eq_false.mpr ⟨space, h, ?_⟩)
  decide

/-- A nick with a space is nobody's: the member is forgotten. -/
theorem rosterOnNick_blank (sha256 : Str → Str) {s t : Str} (hs : space ∈ s) (ht : space ∈ t)
    (b : BotState) (old : Str) : Roster.onNick sha256 b old s = Roster.onNick sha256 b old t := by
  have hstep : Roster.onNickChan sha256 old s = Roster.onNickChan sha256 old t := by
    funext b ci
    unfold Roster.onNickChan
    simp only [validNick_blank hs, validNick_blank ht]
    rfl
  unfold Roster.onNick
  rw [hstep]

theorem space_mem_text (h : m.place ≠ 0) (c : Bool) : space ∈ m.text c := by
  obtain ⟨w, ws, hmiddles⟩ := List.exists_cons_of_length_pos (Nat.pos_of_ne_zero h)
  unfold Message.text Message.params
  rw [hmiddles, List.cons_append, paramStr_cons]
  refine List.mem_append_right w ?_
  obtain ⟨v, vs, hvs⟩ := List.exists_cons_of_ne_nil (l := ws ++ [m.spelt c]) (by simp)
  rw [hvs]
  exact List.mem_cons_self

theorem onNick_eq {pre : Str} (hpre : m.pre = some pre) (h : OwnNickSame b m) (sha256 : Str → Str) :
    Nicks.onNick sha256 b pre (m.text true) = Nicks.onNick sha256 b pre (m.text false) := by
  unfold Nicks.onNick
  cases hnick : prefixNick pre with
  | none => rfl
  | some old =>
      by_cases hzero : m.place = 0
      · rw [Message.stripColon_text_of_zero hzero, Message.stripColon_text_of_zero hzero]
      · have hcur (s : Str) : (Roster.onNick sha256 b old s).currentNick = b.currentNick :=
          congrArg Jobs.Standing.currentNick (Roster.standing_onNick sha256 b old s)
        dsimp only
        rw [Message.stripColon_text hzero, Message.stripColon_text hzero, hcur, hcur,
          rosterOnNick_blank sha256 (space_mem_text hzero true) (space_mem_text hzero false)]
        by_cases hown : eqIc old b.currentNick = true
        · have hcut := (h pre (by rw [hpre]; rfl) old (by rw [hnick]; rfl) hown).resolve_left hzero
          rw [hcut]
        · rw [Bool.not_eq_true] at hown
          rw [hown]
          rfl

end Senders

/-! ### `handle_line` -/

/-- What must hold of a message, by its command, for the `:` not to matter: the last parameter
is none that the handler looks at as a token, or one that it makes nothing of. -/
structure Indifferent (R : Receivers) (b : BotState) (m : Message) : Prop where
  fits : (m.line true).length < maxBuffer
  ping : m.command = str "PING" → m.pre = none → m.place ≠ 0
  welcome : m.command = str "001" → m.place ≠ 0 ∨ maxNick ≤ m.last.length
  serverName : m.command = str "004" → m.place ≠ 1
  nickRefused : m.command = str "433" ∨ m.command = str "432" ∨ m.command = str "437" →
    m.place ≠ 1 ∨ NoRefusal b m
  refusal : m.command = str "465" ∨ m.command = str "463" ∨ m.command = str "ERROR" → m.place = 0
  channel : m.command ∈ [str "474", str "475", str "405", str "315"] →
    m.place ≠ 1 ∨ NoChannel b m
  inviteOnly : m.command = str "473" → m.place ≠ 1 ∨
    ∀ c, ∀ ci ∈ find b (m.spelt c), (b.chans.getD ci {}).isManaged = false
  isupport : m.command = str "005" →
    m.place = 0 ∨ SameSide m (120 ≤ m.last.length ∨ saysNothing m.last)
  channelModes : m.command = str "324" → ReplySame b m (LettersUnread b m)
  created : m.command = str "329" →
    ReplySame b m (3 ≤ m.place ∨ ServerNumerics.parseTs m.last = 0)
  ban : m.command = str "367" → m.place ≤ 1 ∨ 2 ≤ m.place ∧ find b (chanOf m) = none ∨
    3 ≤ m.place ∧ SameSide m (BanUnread m)
  endOfBans : m.command = str "368" → m.place = 0 ∨
    m.place = 1 ∧ NoChannel b m ∧ (∀ c, Channel.unbanJobFind b (m.spelt c) = none) ∨
      2 ≤ m.place ∧ (find b (chanOf m) = none ∨ SameSide m True)
  mode : m.command = str "MODE" → m.place ≤ 1 ∨
    (∀ t ∈ m.middles.head?, isChannel t = true → find b t = none) ∨ ArgsUnread b m
  who : m.command = str "352" → m.place ≠ 6 ∨ find b (chanOf m) = none ∨ SymbolsSame b m.last
  privmsg : m.command = str "PRIVMSG" → ∀ p ∈ m.pre, m.place ≤ 1 ∨ ∀ nick ∈ (prefixParts p).1,
    TextUnread R b nick (prefixParts p).2.1 (prefixParts p).2.2 (destOf m) (messageOf m)
  join : m.command = str "JOIN" → OwnJoinSame b m
  kick : m.command = str "KICK" → m.place ≠ 1 ∨ ∀ chan ∈ m.middles.head?, find b chan = none
  nick : m.command = str "NICK" → OwnNickSame b m

section Line

variable {P : Primitives} {R : Receivers} {b : BotState} {m : Message}

theorem isup_eq (h : m.place = 0 ∨ SameSide m (120 ≤ m.last.length ∨ saysNothing m.last)) :
    (if (m.text true).length < 1024 then
        { b with isup := ServerNumerics.isupportParse b.isup (m.text true) } else b) =
      if (m.text false).length < 1024 then
        { b with isup := ServerNumerics.isupportParse b.isup (m.text false) } else b := by
  rcases h with hzero | hlong | ⟨hshort, hsame⟩
  · -- the bot's nick alone
    have hnone (c : Bool) : ServerNumerics.isupportParse b.isup (m.text c) = b.isup := by
      unfold ServerNumerics.isupportParse
      rw [Message.tokens_text, Message.params, List.length_eq_zero_iff.mp hzero]
      rfl
    rw [hnone, hnone, ite_self, ite_self]
  · rw [Message.length_text, if_neg (by omega), if_neg (by omega)]
  · rw [Message.length_text, if_pos hshort, if_pos (by omega), isupportParse_eq _ (.inr hsame)]

/-- A reply that only counts by having a second parameter. -/
theorem secondTok_elim_eq (x : BotState) :
    ((secondTok (m.text true)).elim b fun _ => x) =
    (secondTok (m.text false)).elim b fun _ => x := by
  by_cases hone : m.place = 1
  · rw [Message.secondTok_text, Message.secondTok_text, ← hone, Message.getElem?_place,
      Message.getElem?_place]
    rfl
  · rw [secondTok_eq hone]

theorem fromSender_congr {f g : BotState → Str → BotState}
    (h : ∀ p, m.pre = some p → f b p = g b p) : fromSender m.pre f b = fromSender m.pre g b := by
  unfold fromSender
  cases hpre : m.pre with
  | none => rfl
  | some p => exact h p hpre

theorem dispatch_eq (h : Indifferent R b m) :
    dispatch P R b m.pre m.command (m.text true) =
      dispatch P R b m.pre m.command (m.text false) := by
  have hchan (hc : m.command ∈ [str "474", str "475", str "405", str "315"]) :=
    secondChan_eq (h.channel hc)
  unfold dispatch
  refine ite_congr rfl (fun _ => rfl) fun _ => ?_
  refine ite_congr rfl (fun hc => by rw [secondTok_eq (h.serverName hc)]) fun _ => ?_
  refine ite_congr rfl (fun hc => onWelcome_eq (h.welcome hc)) fun _ => ?_
  refine ite_congr rfl (fun hc => onNickRefused_eq (h.nickRefused hc)) fun _ => ?_
  refine ite_congr rfl (fun hc => by
    rw [ircTrailing_eq (h.refusal (hc.imp_right .inl))]) fun _ => ?_
  refine ite_congr rfl (fun hc => by rw [ircTrailing_eq (h.refusal (.inr (.inr hc)))]) fun _ => ?_
  refine ite_congr rfl (fun hc => by
    unfold ServerNumerics.onLockout; rw [hchan (by simp [hc])]) fun _ => ?_
  refine ite_congr rfl (fun hc => by
    unfold ServerNumerics.onLockout; rw [hchan (by simp [hc])]) fun _ => ?_
  refine ite_congr rfl (fun hc => isup_eq (h.isupport hc)) fun _ => ?_
  refine ite_congr rfl (fun hc => ?_) fun _ => ?_
  · rcases hc with hc | hc
    · rw [hc]
      exact numeric_eq_of_same (h.channelModes hc) fun hsame me mid hmiddles =>
        numericOn_324 hmiddles hsame
    · rw [hc]
      exact numeric_eq_of_same (h.created hc) fun hsame me mid hmiddles =>
        numericOn_329 hmiddles hsame
  refine ite_congr rfl (fun hc => onBanList_eq (h.ban hc)) fun _ => ?_
  refine ite_congr rfl (fun hc => onEndOfBanList_eq (h.endOfBans hc)) fun _ => ?_
  refine ite_congr rfl (fun hc => by
    unfold ServerNumerics.onTooManyChannels; rw [hchan (by simp [hc])]) fun _ => ?_
  refine ite_congr rfl (fun hc => onInviteOnly_eq (h.inviteOnly hc)) fun _ => ?_
  refine ite_congr rfl (fun hc => onMode_eq (h.mode hc)) fun _ => ?_
  refine ite_congr rfl (fun hc => onWhoReply_eq (h.who hc)) fun _ => ?_
  refine ite_congr rfl (fun _ => secondTok_elim_eq _) fun _ => ?_
  refine ite_congr rfl (fun hc => by
    unfold ServerNumerics.onEndOfWho; rw [hchan (by simp [hc])]) fun _ => ?_
  refine ite_congr rfl (fun hc => fromSender_congr fun p hp => ?_) fun _ => ?_
  · exact onPrivmsg_eq (h.privmsg hc p (by rw [hp]; rfl))
  refine ite_congr rfl (fun _ => fromSender_congr fun p _ => onNotice_eq p) fun _ => ?_
  refine ite_congr rfl (fun hc => fromSender_congr fun p hp => ?_) fun _ => ?_
  · exact onJoin_eq hp (h.join hc) P.sha256
  refine ite_congr rfl (fun _ => fromSender_congr fun p _ => onPart_eq p) fun _ => ?_
  refine ite_congr rfl (fun hc => onKick_eq (h.kick hc)) fun _ => ?_
  refine ite_congr rfl (fun _ => rfl) fun _ => ?_
  exact ite_congr rfl (fun hc => fromSender_congr fun p hp => onNick_eq hp (h.nick hc) P.sha256)
    fun _ => rfl

theorem length_line : (m.line true).length = (m.line false).length + 1 := by
  have hwords (c : Bool) : (words (m.params c)).length =
      (words m.middles).length + 1 + (m.spelt c).length := by
    simp [words, Message.params, List.flatMap_append]
    omega
  have hline (c : Bool) : (m.line c).length =
      (m.pre.elim [] (fun p => colon :: p ++ [space]) ++ m.command).length +
        ((words m.middles).length + 1 + (m.spelt c).length) := by
    rw [Message.line, List.length_append, hwords]
  rw [hline, hline]
  rfl

/-- **Where the spelling of the last parameter does not matter**, the effect of a line is
the same with the `:` and without. -/
theorem handleLine_spelling (P : Primitives) (R : Receivers) (b : BotState) (m : Message)
    (h : Indifferent R b m) : handleLine P R b (m.line true) = handleLine P R b (m.line false) := by
  have hrun (c : Bool) (hping : m.command = str "PING" → m.pre = none → m.place ≠ 0 ∨ c = false)
      (hfits : (m.line c).length < maxBuffer) :
      handleLine P R b (m.line c) = dispatch P R b m.pre m.command (m.text c) := by
    unfold handleLine
    rw [if_neg (Message.not_ping hping), trunc_of_lt hfits, m.splitLine_line c]
  have hfits := h.fits
  rw [hrun true (fun hc hpre => .inl (h.ping hc hpre)) hfits,
    hrun false (fun _ _ => .inr rfl) (by rw [length_line] at hfits; omega), dispatch_eq h]

end Line

/-- A bot in a channel with one more member. -/
def present : BotState :=
  { connected := true, authed := true, currentNick := str "bot", targetNick := str "bot"
    chans := [{ name := str "#c", isManaged := true, status := .inside
                roster := [{ nick := str "alice", hostmask := str "alice!a@h" }] }] }

/-- Words as they stand in these lines. -/
def plain (w : Str) : Bool := !w.isEmpty && !w.contains space && w.head? != some colon

theorem plain_of {w : Str} (h : plain w = true) : Plain w := by
  simp only [plain, Bool.and_eq_true, Bool.not_eq_true', List.isEmpty_eq_false_iff, bne_iff_ne] at h
  exact ⟨⟨h.1.1, by simpa using h.1.2⟩, h.2⟩

/-- A voice, and an exception to the bans, which the bot keeps no list of. -/
def exception : Message where
  pre := some (str "op!o@h")
  command := str "MODE"
  middles := [str "#c", str "+ve", str "alice"]
  last := str "x!*@*"
  pre_no_space := by simp only [Option.mem_def, Option.some.injEq, forall_eq']; decide
  command_plain := plain_of (by decide)
  middles_plain := by
    simp only [List.mem_cons, List.not_mem_nil, or_false, forall_eq_or_imp, forall_eq]
    exact ⟨plain_of (by decide), plain_of (by decide), plain_of (by decide)⟩
  last_plain := plain_of (by decide)

theorem indifferent_exception : Indifferent Receivers.idle present exception where
  fits := by decide
  ping h := absurd h (by decide)
  welcome h := absurd h (by decide)
  serverName h := absurd h (by decide)
  nickRefused h := absurd h (by decide)
  refusal h := absurd h (by decide)
  channel h := absurd h (by decide)
  inviteOnly h := absurd h (by decide)
  isupport h := absurd h (by decide)
  channelModes h := absurd h (by decide)
  created h := absurd h (by decide)
  ban h := absurd h (by decide)
  endOfBans h := absurd h (by decide)
  mode _ := by
    refine .inr (.inr ⟨?_, .inr ⟨by decide, ?_⟩⟩)
    · unfold Unread
      decide +kernel
    · unfold Unread
      decide +kernel
  who h := absurd h (by decide)
  privmsg h := absurd h (by decide)
  join h := absurd h (by decide)
  kick h := absurd h (by decide)
  nick h := absurd h (by decide)

/-- The exception is passed over with the `:` and without. -/
theorem handleLine_spelling_exception :
    handleLine Primitives.clear Receivers.idle present (str ":op!o@h MODE #c +ve alice :x!*@*") =
      handleLine Primitives.clear Receivers.idle present (str ":op!o@h MODE #c +ve alice x!*@*") :=
  handleLine_spelling Primitives.clear Receivers.idle present exception indifferent_exception

/-- The server gives the bot ops. -/
def opsGiven : Message where
  pre := some (str "irc.example")
  command := str "MODE"
  middles := [str "#c", str "+o"]
  last := str "bot"
  pre_no_space := by simp only [Option.mem_def, Option.some.injEq, forall_eq']; decide
  command_plain := plain_of (by decide)
  middles_plain := by
    simp only [List.mem_cons, List.not_mem_nil, or_false, forall_eq_or_imp, forall_eq]
    exact ⟨plain_of (by decide), plain_of (by decide)⟩
  last_plain := plain_of (by decide)

/-- **The spelling does matter**: of `MODE #c +o :bot` the bot does not see that it was given
ops. -/
theorem not_spelling_free : ¬ ∀ (P : Primitives) (R : Receivers) (b : BotState) (m : Message),
    handleLine P R b (m.line true) = handleLine P R b (m.line false) := by
  intro h
  have hsame := congrArg (fun s : BotState => s.chans.any (·.iAmOpped))
    (h Primitives.clear Receivers.idle present opsGiven)
  revert hsame
  decide

end IrcBot.TrailingColon
