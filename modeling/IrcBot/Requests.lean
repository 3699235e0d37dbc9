/-
# Asking for access and for ops (`channel.rs`, `irc_parser.rs`)

What the bot asks its peers for when the server keeps it out of a channel (unban, invite,
key) or leaves it without ops there: through the hub when that is up, else by ~B2 to one
trusted bot. The unban walk a peer has asked for follows the ban list as it comes in.
-/
import Mathlib.Data.List.DropRight
import IrcBot.Channel

namespace IrcBot.Requests

open Cstr Masks Auth Chancfg HubPush B2 Channel

variable (P : Primitives)

/-! ### Access to a channel -/

/-- `send_chan_request`. -/
def sendChanRequest (b : BotState) (kind : ChanReq) (channel : Str) : Bool × BotState :=
  if !b.link.connected || !b.link.authenticated || !b.link.sock then (false, b)
  else
    let payload := kind.token ++ str "|" ++ channel
    if maxChan + 16 ≤ payload.length then (false, b) else sendFrame b cmdChanRequest payload

/-- The command that asks a bot for access; `none` for an invite without a nick. -/
def accessCommand (b : BotState) (kind : ChanReq) (channel : Str) : Option Str :=
  match kind with
  | .unban => some (str "UNBAN " ++ channel)
  | .key => some (str "KEY " ++ channel)
  | .invite =>
      if b.currentNick.isEmpty then none
      else some (str "INVITE " ++ channel ++ str " " ++ b.currentNick)

/-- The walk of `access_fallback`, with `left` bots to go. -/
def fallbackLoop (kind : ChanReq) (channel : Str) : Nat → BotState → Bool × BotState
  | 0, b => (false, b)
  | left + 1, b =>
      let n := b.trustedBots.length
      let idx := b.chanReqFallbackIdx % n
      let b := { b with chanReqFallbackIdx := (idx + 1) % n }
      let nick := (b.trustedBots.getD idx {}).nick
      -- the bot's own record may be there; asking itself achieves nothing
      if nick.isEmpty || (!b.currentNick.isEmpty && eqIc nick b.currentNick) then
        fallbackLoop kind channel left b
      else
        match accessCommand b kind channel with
        | none => (false, b)
        | some command => (true, sendCommand P b nick command)

/-- `access_fallback`: one trusted bot per attempt, the next one each time. -/
def accessFallback (b : BotState) (kind : ChanReq) (channel : Str) : Bool × BotState :=
  fallbackLoop P kind channel b.trustedBots.length b

/-- `access_request`: rate limited for each channel and kind, and as a whole. -/
def accessRequest (b : BotState) (ci : Nat) (kind : ChanReq) : Bool × BotState :=
  match b.chans[ci]? with
  | none => (false, b)
  | some c =>
      let k := kind.idx
      let last := c.lastAccessRequest.getD k 0
      let tired := chanRequestMaxRetries ≤ c.accessRetryCount.getD k 0
      if !c.isManaged || c.joinDisabled || !b.authed then (false, b)
      else if tired && b.now - last ≤ chanRequestCooloff then (false, b)
      else
        -- a long quiet spell clears the retry count
        let b :=
          if tired then
            withChan b ci fun c => { c with accessRetryCount := c.accessRetryCount.set k 0 }
          else b
        if last ≠ 0 ∧ b.now - last < chanRequestRetryTime then (false, b)
        else if b.now - b.lastChanRequestSent < chanRequestMinInterval then (false, b)
        else
          let hub := sendChanRequest b kind c.name
          let sent := if hub.1 then hub else accessFallback P hub.2 kind c.name
          if !sent.1 then (false, sent.2)
          else
            let b := withChan sent.2 ci fun c =>
              { c with
                lastAccessRequest := c.lastAccessRequest.set k b.now
                accessRetryCount := c.accessRetryCount.set k (c.accessRetryCount.getD k 0 + 1) }
            (true, { b with lastChanRequestSent := b.now })

/-! ### The walk of a ban list -/

/-- `unban_note_ban`: one ban of the list. -/
def unbanNoteBan (b : BotState) (channel banMask : Str) : BotState :=
  match (unbanJobFind b channel).bind fun ji => b.unbanJobs[ji]?.map fun j => (ji, j) with
  | none => b
  | some (ji, j) =>
      let opped := ((find b channel).bind fun ci => b.chans[ci]?).any fun c =>
        c.status == .inside && c.iAmOpped
      if banMask.isEmpty then b
      else if unbanMaxRemovals ≤ j.removed || !wildcardMatch banMask j.hostmask then b
      else if !opped then b
      else
        let b := ircPrintf b (str "MODE " ++ channel ++ str " -b " ++ banMask ++ crlf)
        { b with
          unbanJobs := b.unbanJobs.modify ji fun j => { j with removed := j.removed + 1 } }

/-- `unban_finish`: the end of the list. -/
def unbanFinish (b : BotState) (channel : Str) : BotState :=
  match unbanJobFind b channel with
  | none => b
  | some ji => { b with unbanJobs := b.unbanJobs.modify ji fun j => { j with active := false } }

/-! ### Ops -/

/-- `trim_end_matches('_')`: a nick without what a collision adds. -/
def baseNick (s : Str) : Str := s.rdropWhile (· = byte '_')

/-- Where a trusted bot stands for `helper`: the exact hostmask, then the nick, then the
nick without the underscores of a collision. -/
def helperIs (tb : TrustedBot) (helper : RosterEntry) : Bool :=
  eqIc tb.mask helper.hostmask || startsWithIc tb.mask (helper.nick ++ str "!") ||
    (!(baseNick tb.nick).isEmpty && eqIc (baseNick tb.nick) (baseNick helper.nick))

/-- `find_uuid_for_helper`. -/
def findUuidForHelper (b : BotState) (helper : RosterEntry) : Option Str :=
  (b.trustedBots.find? fun tb => !tb.uuid.isEmpty && helperIs tb helper).map (·.uuid)

/-- `request_op`. -/
def requestOp (b : BotState) (targetUuid channel : Str) : Bool × BotState :=
  if !b.link.connected || !b.link.authenticated || !b.link.sock || targetUuid = b.botUuid then
    (false, b)
  else sendFrame b cmdOpRequest (trunc (targetUuid ++ str "|" ++ channel) 256)

/-- `random_index`. -/
def randomIndex (b : BotState) (n : Nat) : Nat :=
  match P.randomBytes b.monoMs 8 with
  | none => 0
  | some rnd => rnd.foldr (fun x v => v * 256 + x.toNat) 0 % n

/-- The trusted ops of a channel. -/
def opHelpers (b : BotState) (c : Chan) : List RosterEntry :=
  c.roster.filter fun e => e.isOp && (trustedBotByHost b e.hostmask).isSome

/-- One trusted op is asked, through the hub when it is known there. -/
def askHelper (b : BotState) (name : Str) (chosen : RosterEntry) : BotState :=
  let hub :=
    match findUuidForHelper b chosen with
    | some uuid => requestOp b uuid name
    | none => (false, b)
  if hub.1 then hub.2
  else
    b2Send P hub.2 (trustedBotByHost hub.2 chosen.hostmask) chosen.nick (str "OPME " ++ name)

/-- `on_end_of_who` (315) for channel `ci`: without ops the bot picks a trusted op from
the fresh roster and asks it, at most once in five seconds. -/
def endOfWho (b : BotState) (ci : Nat) : BotState :=
  let b := withChan b ci fun c => { c with enfDirty := true, enfOpsCheck := true, whoDone := true }
  match b.chans[ci]? with
  | none => b
  | some c =>
      if c.iAmOpped then
        withChan b ci fun c => { c with opRequestPending := false, opRequestRetryCount := 0 }
      else if c.opRequestPending && b.now - c.lastOpRequestTime < 60 then b
      else
        -- five minutes without an attempt clear the count
        let rested := 5 ≤ c.opRequestRetryCount && 300 < b.now - c.lastOpRequestTime
        let retries := if rested then 0 else c.opRequestRetryCount
        let b := withChan b ci fun c => { c with opRequestRetryCount := retries }
        let helpers := opHelpers b c
        if 5 ≤ retries then b
        -- not a failed attempt: back-dated, so the next WHO comes in half a minute
        else if helpers.isEmpty then
          withChan b ci fun c =>
            { c with opRequestPending := true, lastOpRequestTime := b.now - 30 }
        else
          let chosen := helpers.getD (randomIndex P b helpers.length) {}
          let b := withChan b ci fun c =>
            { c with lastOpRequestTime := b.now, opRequestPending := true }
          if opRequestMinInterval ≤ b.now - b.lastOpRequestSent then
            let b := { askHelper P b c.name chosen with lastOpRequestSent := b.now }
            withChan b ci fun c => { c with opRequestRetryCount := c.opRequestRetryCount + 1 }
          else b

end IrcBot.Requests
