/-
# The bot's nick (`irc_parser.rs`, `irc_client.rs`)

The nick the bot wants, the one it has, and what it does to get from one to the other: it
asks for the wanted nick again and again, makes up another when it has to, and follows
what the server says.

* `currentNick_attemptNickChange` — asking for the wanted nick changes nothing yet;
  `currentNick_generateNewNick` — a made-up nick counts as the bot's own at once.
* `currentNick_onNickRefused` — a registered bot that is refused a nick keeps to it.
-/
import IrcBot.JoinPart

namespace IrcBot.Nicks

open Cstr HubPush IrcLine Jobs

/-! ### Asking -/

/-- `attempt_nick_change`. -/
def attemptNickChange (b : BotState) (nick : Str) : BotState :=
  let line := str "NICK " ++ nick ++ crlf
  let asked := if takesLine b line then b.nickAsked ++ [nick] else b.nickAsked
  { ircPrintf b line with nickAsked := asked, lastNickAttempt := b.now }

/-- What a made-up nick starts with: at most 8 of the wanted nick's characters, those that
every server takes. -/
def nickBase (target : Str) : Str :=
  let base := target.foldl (fun base ch =>
    if 8 ≤ base.length then base
    else if isRfcNick (if base.isEmpty then [ch] else [byte 'a', ch]) then base ++ [ch]
    else base) []
  if base.isEmpty then str "bot" else base

/-- The made-up nick of an attempt: a suffix, then a digit; `none` after the last. -/
def newNick (target : Str) (attempt : Nat) : Option Str :=
  match (str "_\x60^")[attempt]? with
  | some suffix => some (trunc (nickBase target ++ [suffix]) maxNick)
  | none =>
      let n := attempt - 3
      if n < 10 then some (trunc (nickBase target ++ decNat n) maxNick) else none

/-- `generate_new_nick`. -/
def generateNewNick (b : BotState) : BotState :=
  match newNick b.targetNick b.nickGenerationAttempt with
  | none => { b with nickGenerationAttempt := 0 }
  | some nick =>
      attemptNickChange
        { b with currentNick := nick, nickGenerationAttempt := b.nickGenerationAttempt + 1 } nick

/-- The `givenick` command: the bot lets go of its nick for a while. -/
def givenick (b : BotState) (nick : Str) : BotState :=
  let b := ircPrintf b (str "PRIVMSG " ++ nick ++ str " :You have about " ++ dec nickTakeTime ++
    str " seconds to retrieve." ++ crlf)
  { generateNewNick b with nickReleaseTime := b.now }

/-- The part of the timer that asks for the wanted nick again. -/
def reclaimNick (b : BotState) : BotState :=
  if b.authed && !b.nickChangePending && !eqIc b.currentNick b.targetNick &&
      !eqIc b.nickRefused b.targetNick && nickTakeTime < b.now - b.nickReleaseTime &&
      nickRetryTime < b.now - b.lastNickAttempt then attemptNickChange b b.targetNick
  else b

/-! ### What the server says -/

/-- `request_own_hostmask`. -/
def requestOwnHostmask (b : BotState) : BotState :=
  if b.currentNick.isEmpty then b else ircPrintf b (str "WHO " ++ b.currentNick ++ crlf)

/-- The hub hears of the nick. -/
def pushNick (b : BotState) : BotState :=
  if b.link.connected && b.link.authenticated then
    (pushDelta b (str "n") b.currentNick b.currentNickTs).2
  else b

/-- `on_welcome` (001). -/
def onWelcome (b : BotState) (params : Str) : BotState :=
  let b := { b with authed := true }
  let srvNick := firstWord params
  let b :=
    if !srvNick.isEmpty && srvNick.length < maxNick &&
        (b.currentNick != srvNick || !eqIc srvNick b.targetNick) then
      pushNick { b with currentNick := srvNick, currentNickTs := b.now }
    else b
  requestOwnHostmask b

/-- `on_nick_refused` (432, 433, 437). A 437 can name a channel instead; a 432 is final
for that nick on this server. -/
def onNickRefused (b : BotState) (command params : Str) : BotState :=
  let refused := secondTok params
  if refused.any fun r => r.head? = some (byte '#') || r.head? = some (byte '&') then b
  else
    let final := command = str "432" ∧
      refused.any fun r => eqIc r b.targetNick && !eqIc b.nickRefused r
    let b :=
      { b with
        nickChangePending := false
        nickRefused := if final then b.targetNick else b.nickRefused }
    if b.authed then b else generateNewNick b

section

variable (sha256 : Str → Str)

/-- `on_nick`. -/
def onNick (b : BotState) (pre params : Str) : BotState :=
  match prefixNick pre with
  | none => b
  | some old =>
      let new := stripColon params
      let b := Roster.onNick sha256 b old new
      if !eqIc old b.currentNick then b
      else
        let b := requestOwnHostmask (pushNick
          { b with currentNick := trunc new maxNick, currentNickTs := b.now })
        { b with
          nickChangePending := false
          nickGenerationAttempt :=
            if eqIc b.currentNick b.targetNick then 0 else b.nickGenerationAttempt }

end

/-! ### What each of these changes -/

/-- What counts for the bot's nick. -/
structure NickView where
  connected : Bool
  authed : Bool
  currentNick : Str
  nickAsked : List Str
deriving DecidableEq, Repr

def nickView (b : BotState) : NickView := ⟨b.connected, b.authed, b.currentNick, b.nickAsked⟩

theorem nickView_of_standing {b b' : BotState} (h : standing b' = standing b) :
    nickView b' = nickView b :=
  congrArg (fun s : Standing => NickView.mk s.connected s.authed s.currentNick s.nickAsked) h

theorem nickView_of_push {b b' : BotState} (h : SameButPush b b') : nickView b' = nickView b := by
  rw [h.eq]
  rfl

theorem nickView_ircPrintf (b : BotState) (line : Str) :
    nickView (ircPrintf b line) = nickView b := nickView_of_standing (standing_ircPrintf b line)

theorem nickView_requestOwnHostmask (b : BotState) :
    nickView (requestOwnHostmask b) = nickView b := by
  unfold requestOwnHostmask
  split
  · rfl
  · exact nickView_ircPrintf b _

theorem nickView_pushNick (b : BotState) : nickView (pushNick b) = nickView b := by
  unfold pushNick
  split
  · exact nickView_of_push (sameButPush_pushDelta b (str "n") b.currentNick b.currentNickTs)
  · rfl

/-- Asking for a nick changes nothing but what has been asked for. -/
theorem nickView_attemptNickChange (b : BotState) (nick : Str) :
    nickView (attemptNickChange b nick) =
      { nickView b with
        nickAsked :=
          if takesLine b (str "NICK " ++ nick ++ crlf) then b.nickAsked ++ [nick]
          else b.nickAsked } := by
  rw [← nickView_ircPrintf b (str "NICK " ++ nick ++ crlf)]
  rfl

/-! #### Made-up nicks -/

/-- A character that cannot end a line. -/
def Printable (s : Str) : Prop := ∀ c ∈ s, c ≠ 13 ∧ c ≠ 10 ∧ c ≠ 0

instance (s : Str) : Decidable (Printable s) :=
  inferInstanceAs (Decidable (∀ c ∈ s, c ≠ 13 ∧ c ≠ 10 ∧ c ≠ 0))

theorem Printable.append {s t : Str} (hs : Printable s) (ht : Printable t) : Printable (s ++ t) :=
  fun c hc => (List.mem_append.mp hc).elim (hs c) (ht c)

/-- A line with nothing but such characters goes out while the link is up. -/
theorem takesLine_printable (b : BotState) {s : Str} (hs : Printable s)
    (hlen : s.length + 2 < maxBuffer) : takesLine b (s ++ crlf) = b.connected := by
  have hbody : (s ++ crlf).length - 2 = s.length := by simp [crlf]
  have hsingle : isSingleLine (s ++ crlf) = true := by
    unfold isSingleLine
    rw [hbody, List.take_left, List.drop_left]
    have hnone : (s.any fun c => c == 13 || c == 10 || c == 0) = false := by
      rw [List.any_eq_false]
      intro c hc
      obtain ⟨h₁, h₂, h₃⟩ := hs c hc
      simp [h₁, h₂, h₃]
    simp [hnone, crlf]
  have hshort : s.length + crlf.length < maxBuffer := hlen
  simp [takesLine, hsingle, hshort]

/-- Every byte that a nick may hold can stand on a line. -/
theorem printable_of_isRfcNick {s : Str} (h : isRfcNick s = true) : Printable s := by
  intro c hc
  have hall : ∀ p ∈ s.zipIdx, (isAlpha p.1 || (str "[]\\`_^\x7b\x7d").contains p.1 ||
      ((isDigit p.1 || p.1 == byte '-') && p.2 != 0)) = true := by
    exact List.all_eq_true.mp (Bool.and_eq_true_iff.mp h).2
  obtain ⟨i, hi⟩ := List.mem_iff_getElem?.mp hc
  have hok := hall (c, i) (List.mem_zipIdx_iff_getElem?.mpr hi)
  refine ⟨?_, ?_, ?_⟩ <;>
    · rintro rfl
      dsimp only at hok
      generalize (i != 0) = later at hok
      revert hok
      cases later <;> decide

theorem nickBase_ok (target : Str) : Printable (nickBase target) := by
  unfold nickBase
  dsimp only
  have hfold : Printable (target.foldl (fun base ch =>
      if 8 ≤ base.length then base
      else if isRfcNick (if base.isEmpty then [ch] else [byte 'a', ch]) then base ++ [ch]
      else base) []) := by
    refine List.foldlRecOn target _ (motive := Printable) (fun c hc => absurd hc (by simp)) ?_
    intro base hbase ch _
    by_cases hlen : 8 ≤ base.length
    · rw [if_pos hlen]
      exact hbase
    · rw [if_neg hlen]
      by_cases hrfc : isRfcNick (if base.isEmpty then [ch] else [byte 'a', ch]) = true
      · rw [if_pos hrfc]
        refine hbase.append fun c hc => ?_
        obtain rfl := List.mem_singleton.mp hc
        refine printable_of_isRfcNick hrfc c ?_
        split <;> simp
      · rw [if_neg hrfc]
        exact hbase
  split
  · decide +kernel
  · exact hfold

/-- A made-up nick fits the bot's own limit, and a line. -/
theorem newNick_ok {target nick : Str} {attempt : Nat} (h : newNick target attempt = some nick) :
    Printable nick ∧ nick.length < maxNick := by
  have htrunc {s : Str} (hs : Printable s) :
      Printable (trunc s maxNick) ∧ (trunc s maxNick).length < maxNick :=
    ⟨fun c hc => hs c ((trunc_isPrefix s maxNick).subset hc),
      Nat.lt_of_le_of_lt (length_trunc_le s maxNick) (by decide)⟩
  unfold newNick at h
  split at h
  · rename_i suffix hsuffix
    obtain rfl := Option.some.inj h
    have hone : ∀ c ∈ str "_\x60^", Printable [c] := forall_of_all (by decide +kernel)
    exact htrunc ((nickBase_ok target).append (hone suffix (List.mem_of_getElem? hsuffix)))
  · dsimp only at h
    split at h
    · obtain rfl := Option.some.inj h
      refine htrunc ((nickBase_ok target).append fun c hc => ?_)
      have hdigit := isDigit_of_mem_decNat hc
      refine ⟨?_, ?_, ?_⟩ <;>
        · rintro rfl
          exact absurd hdigit (by decide)
    · cases h

/-- **A made-up nick counts as the bot's own as soon as it is asked for.** -/
theorem nickView_generateNewNick (b : BotState) :
    nickView (generateNewNick b) = nickView b ∨
      ∃ nick, nickView (generateNewNick b) =
        { nickView b with
          currentNick := nick
          nickAsked := if b.connected then b.nickAsked ++ [nick] else b.nickAsked } := by
  unfold generateNewNick
  split
  · exact .inl rfl
  · rename_i nick hnew
    obtain ⟨hprint, hlen⟩ := newNick_ok hnew
    have hline : Printable (str "NICK " ++ nick) :=
      Printable.append (by decide +kernel) hprint
    refine .inr ⟨nick, ?_⟩
    rw [nickView_attemptNickChange, takesLine_printable _ hline ?_]
    · rfl
    · have hmax : maxNick = 10 := rfl
      have hbuf : maxBuffer = 16384 := rfl
      have hword : (str "NICK ").length = 5 := rfl
      rw [List.length_append]
      omega

/-! #### What the server says -/

/-- The nick of a 001 is the bot's, if it fits. -/
theorem nickView_onWelcome (b : BotState) (params : Str) :
    nickView (onWelcome b params) =
      { nickView b with
        authed := true
        currentNick :=
          if (firstWord params).isEmpty ∨ maxNick ≤ (firstWord params).length then b.currentNick
          else firstWord params } := by
  unfold onWelcome
  dsimp only
  rw [nickView_requestOwnHostmask]
  by_cases hfits : (firstWord params).isEmpty ∨ maxNick ≤ (firstWord params).length
  · rw [if_pos hfits, if_neg ?_]
    · rfl
    · rintro hcond
      simp only [Bool.and_eq_true, Bool.not_eq_true', decide_eq_true_eq] at hcond
      rcases hfits with h | h
      · rw [h] at hcond
        exact absurd hcond.1.1 (by simp)
      · omega
  · rw [if_neg hfits]
    simp only [not_or, Bool.not_eq_true, Nat.not_le] at hfits
    split
    · rw [nickView_pushNick]
      rfl
    · rename_i hcond
      -- the nick is the one the bot has already
      have hsame : b.currentNick = firstWord params := by
        simp only [hfits.1, Bool.not_false, hfits.2, decide_true, Bool.and_true, Bool.true_and,
          Bool.or_eq_true, bne_iff_ne, ne_eq, Bool.not_eq_true', not_or, not_not] at hcond
        exact hcond.1
      rw [← hsame]
      rfl

/-- **A registered bot that is refused a nick keeps to the one it counts as its own.** -/
theorem nickView_onNickRefused {b : BotState} (hauthed : b.authed = true) (command params : Str) :
    nickView (onNickRefused b command params) = nickView b := by
  unfold onNickRefused
  dsimp only
  by_cases hchan : ((secondTok params).any fun r =>
      r.head? = some (byte '#') || r.head? = some (byte '&')) = true
  · rw [if_pos hchan]
  · rw [if_neg hchan, if_pos hauthed]
    rfl

/-- A NICK line counts for the bot when it comes from the nick it counts as its own. -/
theorem nickView_onNick (sha256 : Str → Str) (b : BotState) (pre params : Str) :
    nickView (onNick sha256 b pre params) =
      { nickView b with
        currentNick :=
          if (prefixNick pre).any (eqIc · b.currentNick) then trunc (stripColon params) maxNick
          else b.currentNick } := by
  unfold onNick
  cases prefixNick pre with
  | none => rfl
  | some old =>
      dsimp only
      have hroster := nickView_of_standing (Roster.standing_onNick sha256 b old (stripColon params))
      have hnick : (Roster.onNick sha256 b old (stripColon params)).currentNick = b.currentNick :=
        congrArg NickView.currentNick hroster
      rw [Option.any_some, hnick]
      cases eqIc old b.currentNick with
      | false =>
          rw [if_pos (by simp), if_neg (by simp)]
          exact hroster
      | true =>
          rw [if_neg (by simp), if_pos rfl]
          generalize hs : ({ Roster.onNick sha256 b old (stripColon params) with
            currentNick := trunc (stripColon params) maxNick
            currentNickTs := (Roster.onNick sha256 b old (stripColon params)).now } : BotState) = s
          have hview : nickView s =
              { nickView b with currentNick := trunc (stripColon params) maxNick } := by
            rw [← hs, ← hroster]
            rfl
          rw [← hview, ← nickView_pushNick s, ← nickView_requestOwnHostmask (pushNick s)]
          rfl

end IrcBot.Nicks
