/-
# JOIN and PART (`irc_parser.rs`)

The bot's own arrival or departure sets its status in the channel, takes its ops away and
forgets the live modes; somebody else's only touches the roster. A line counts as the
bot's own when its nick is the current nick or the one the bot wants.

* `membership_kept_iff` — a line of somebody who is not the bot leaves the bot's own
  membership alone exactly when that nick is not the wanted one, or there is nothing left
  to change.
* `not_membership_kept` — whoever holds the wanted nick parts the bot from a channel.
-/
import IrcBot.IrcLine
import IrcBot.Roster

namespace IrcBot.JoinPart

open Cstr Chancfg Chanlive HubPush IrcLine Jobs

/-! ### The lines -/

/-- The self test of both lines. -/
def takenForOwn (b : BotState) (nick : Str) : Bool :=
  eqIc nick b.currentNick || eqIc nick b.targetNick

/-- `sync_hostmask`. -/
def syncHostmask (b : BotState) : BotState :=
  if b.actualHostname.isEmpty || !linkReady b then b
  else (pushDelta b (str "h") b.actualHostname b.actualHostnameTs).2

/-- `update_own_hostmask`: the hub hears of it when the value changes. -/
def updateOwnHostmask (b : BotState) (mask : Str) : BotState :=
  if mask.isEmpty || b.actualHostname == mask then b
  else
    let b := { b with actualHostname := trunc mask maxMaskLen, actualHostnameTs := b.now }
    if b.link.connected && b.link.authenticated then syncHostmask b else b

/-- A channel the bot has just come to. -/
def joined (now : Int) (c : Chan) : Chan :=
  { liveReset { c with status := .inside, roster := [], iAmOpped := false } with
    lastWhoRequest := now }

/-- A channel the bot has just left. -/
def parted (c : Chan) : Chan :=
  liveReset { c with status := .out, roster := [], iAmOpped := false }

/-- The bot's own JOIN. A channel that was removed meanwhile is parted. -/
def ownJoin (b : BotState) (chan : Str) : BotState :=
  match find b chan with
  | none => b
  | some ci =>
      let c := b.chans.getD ci {}
      if !c.isManaged then
        withChan (ircPrintf b (str "PART " ++ c.name ++ str " :Channel removed" ++ crlf)) ci fun c =>
          { c with status := .out }
      else request (ircPrintf (withChan b ci (joined b.now)) (str "WHO " ++ c.name ++ crlf)) ci

/-- The bot's own PART. -/
def ownPart (b : BotState) (chan : Str) : BotState :=
  match find b chan with
  | none => b
  | some ci => withChan b ci parted

section

variable (sha256 : Str → Str)

/-- `on_join`. -/
def onJoin (b : BotState) (pre params : Str) : BotState :=
  match prefixNick pre with
  | none => b
  | some nick =>
      let maskOk := !pre.isEmpty && pre.length < maxMaskLen
      let b :=
        if maskOk && eqIc nick b.currentNick && pre.contains (byte '!') && pre.contains (byte '@')
        then updateOwnHostmask b pre
        else b
      if takenForOwn b nick then ownJoin b (stripColon params)
      else
        let chan := firstWord (stripColon params)
        if maskOk && !chan.isEmpty && chan.length < maxChan then Roster.onJoin sha256 b chan pre
        else b

/-- The PART branch of `handle_line`. -/
def onPart (b : BotState) (pre params : Str) : BotState :=
  match prefixNick pre with
  | none => b
  | some nick =>
      let chan := firstWord (stripColon params)
      if takenForOwn b nick then ownPart b chan
      else if !chan.isEmpty && chan.length < maxChan then Roster.onPart b chan nick
      else b

/-! ### What a change of one channel changes -/

/-- What an own hostmask leaves alone. -/
theorem updateOwnHostmask_eq (b : BotState) (mask : Str) : ∃ host ts link out,
    updateOwnHostmask b mask =
      { b with actualHostname := host, actualHostnameTs := ts, link := link, hubOut := out } := by
  have hdelta (b : BotState) (key value : Str) (ts : Int) :
      SameButLink b (pushDelta b key value ts).2 := by
    unfold pushDelta
    split
    · exact .refl b
    · dsimp only
      split
      · exact .refl b
      · exact sameButLink_sendFrame b _ _
  unfold updateOwnHostmask
  split
  · exact ⟨_, _, _, _, rfl⟩
  · dsimp only
    split
    · unfold syncHostmask
      split
      · exact ⟨_, _, _, _, rfl⟩
      · rw [(hdelta _ _ _ _).eq]
        exact ⟨_, _, _, _, rfl⟩
    · exact ⟨_, _, _, _, rfl⟩

/-- The bot's own standing in its channels. -/
def memberships (b : BotState) : List Membership := b.chans.map membership

theorem memberships_of_standing {b b' : BotState} (h : standing b' = standing b) :
    memberships b' = memberships b := congrArg Standing.channels h

theorem memberships_withChan_iff (b : BotState) (ci : Nat) (f : Chan → Chan) :
    memberships (withChan b ci f) = memberships b ↔
      ∀ c, b.chans[ci]? = some c → membership (f c) = membership c := by
  constructor
  · intro hsame c hc
    have hat := congrArg (·[ci]?) hsame
    simpa [memberships, withChan, hc] using hat
  · intro hkeep
    refine List.ext_getElem? fun j => ?_
    simp only [memberships, withChan, List.getElem?_map, List.getElem?_modify, Option.map_eq_map]
    cases hj : b.chans[j]? with
    | none => rfl
    | some c =>
        by_cases hci : ci = j
        · subst hci
          simp [hkeep c hj]
        · simp [hci]

/-! ### The bot's own lines -/

/-- The bot has just joined: a JOIN of its own changes nothing. -/
def JoinSettled (c : Chan) : Prop :=
  if c.isManaged then c.status = .inside ∧ c.iAmOpped = false ∧ c.liveKnown = false
  else c.status = .out

/-- The bot is out: a PART of its own changes nothing. -/
def PartSettled (c : Chan) : Prop :=
  c.status = .out ∧ c.iAmOpped = false ∧ c.liveKnown = false

theorem membership_eq_iff (c : Chan) (status : ChanStatus) (opped known : Bool) :
    (⟨c.name, status, opped, known⟩ : Membership) = membership c ↔
      c.status = status ∧ c.iAmOpped = opped ∧ c.liveKnown = known := by
  simp only [membership, Membership.mk.injEq, true_and]
  exact and_congr eq_comm (and_congr eq_comm eq_comm)

theorem memberships_ownJoin_iff (b : BotState) (chan : Str) :
    memberships (ownJoin b chan) = memberships b ↔
      ∀ c, byName b chan = some c → JoinSettled c := by
  unfold ownJoin byName
  cases hfind : find b chan with
  | none => simp
  | some ci =>
      obtain ⟨c, hc, -⟩ := find_eq_some hfind
      have hgetD : b.chans.getD ci {} = c := by
        rw [List.getD_eq_getElem?_getD, hc, Option.getD_some]
      dsimp only
      rw [Option.bind_some, hgetD, hc]
      simp only [Option.some.injEq, forall_eq']
      unfold JoinSettled
      have hchange (f : Chan → Chan) := memberships_withChan_iff b ci f
      simp only [hc, Option.some.injEq, forall_eq'] at hchange
      cases c.isManaged with
      | false =>
          -- the line that parts the channel changes no channel
          obtain ⟨out, hline, -⟩ :=
            ircPrintf_eq b (str "PART " ++ c.name ++ str " :Channel removed" ++ crlf)
          rw [if_pos (by simp), if_neg (by simp), hline]
          refine (hchange fun c => { c with status := .out }).trans ?_
          exact (membership_eq_iff c .out c.iAmOpped c.liveKnown).trans (by simp)
      | true =>
          rw [if_neg (by simp), if_pos rfl]
          unfold request
          have hlines (s : BotState) (l₁ l₂ l₃ : Str) :
              memberships (ircPrintf (ircPrintf (ircPrintf s l₁) l₂) l₃) = memberships s :=
            memberships_of_standing (by simp)
          rw [hlines]
          refine (hchange (joined b.now)).trans ?_
          exact membership_eq_iff c .inside false false

theorem memberships_ownPart_iff (b : BotState) (chan : Str) :
    memberships (ownPart b chan) = memberships b ↔
      ∀ c, byName b chan = some c → PartSettled c := by
  unfold ownPart byName
  cases find b chan with
  | none => simp
  | some ci =>
      dsimp only
      rw [Option.bind_some, memberships_withChan_iff]
      exact forall₂_congr fun c _ => membership_eq_iff c .out false false

/-! ### Somebody else's line -/

/-- **When a line of somebody else leaves the bot's own membership alone**: exactly when
its nick is not the one the bot wants, or the line, taken for the bot's own, has nothing
to change. -/
theorem membership_kept_iff (b : BotState) (pre params : Str)
    (hother : ∀ nick, prefixNick pre = some nick → eqIc nick b.currentNick = false) :
    (memberships (onJoin sha256 b pre params) = memberships b ↔
      (∀ nick, prefixNick pre = some nick → eqIc nick b.targetNick = false) ∨
        ∀ c, byName b (stripColon params) = some c → JoinSettled c) ∧
    (memberships (onPart b pre params) = memberships b ↔
      (∀ nick, prefixNick pre = some nick → eqIc nick b.targetNick = false) ∨
        ∀ c, byName b (firstWord (stripColon params)) = some c → PartSettled c) := by
  unfold onJoin onPart
  cases hnick : prefixNick pre with
  | none => simp
  | some nick =>
      have hcur : eqIc nick b.currentNick = false := hother nick hnick
      have hown : takenForOwn b nick = eqIc nick b.targetNick := by
        rw [takenForOwn, hcur, Bool.false_or]
      simp only [hcur, Bool.and_false, Bool.false_and, Bool.false_eq_true, if_false, hown,
        Option.some.injEq, forall_eq']
      cases eqIc nick b.targetNick with
      | true =>
          simp only [if_true, Bool.true_eq_false, false_or]
          exact ⟨memberships_ownJoin_iff b _, memberships_ownPart_iff b _⟩
      | false =>
          simp only [Bool.false_eq_true, if_false, true_or, iff_true]
          constructor
          · split
            · exact memberships_of_standing (Roster.standing_onJoin sha256 b _ pre)
            · rfl
          · split
            · exact memberships_of_standing (Roster.standing_onPart b _ nick)
            · rfl

end

/-- A bot that wants the nick `bot`, runs as `bot_` and is opped in a channel. -/
def runsAsOther : BotState :=
  { connected := true, targetNick := str "bot", currentNick := str "bot_"
    chans := [{ name := str "#c", status := .inside, isManaged := true, iAmOpped := true }] }

/-- Whoever holds the wanted nick parts the bot from the channel. -/
theorem not_membership_kept :
    ¬ ∀ (sha256 : Str → Str) (b : BotState) (pre params : Str),
      (∀ nick, prefixNick pre = some nick → eqIc nick b.currentNick = false) →
        memberships (onJoin sha256 b pre params) = memberships b ∧
          memberships (onPart b pre params) = memberships b := by
  intro hall
  have hpart := (hall id runsAsOther (str "bot!u@h") (str "#c") (by decide)).2
  revert hpart
  decide

/-- Whoever holds another nick does not. -/
theorem membership_kept_stranger :
    memberships (onPart runsAsOther (str "eve!u@h") (str "#c")) = memberships runsAsOther :=
  (membership_kept_iff id runsAsOther (str "eve!u@h") (str "#c") (by decide)).2.mpr
    (.inl (by decide))

end IrcBot.JoinPart
