/-
# What the bot sends up the hub link (`hub_client.rs`, `config::write`)

The bot's own records and reports, as frames. A push changes the link, the log of
frames and the marks that say what is still to be sent; `SameButPush` says so
once for all of them. Writing the config file itself changes nothing here; a
write that is not local-only is followed by a push.
-/
import IrcBot.Activity
import IrcBot.Chanenf
import IrcBot.Config

namespace IrcBot.HubPush

open Cstr Chancfg Config Activity

/-! ### Single records -/

/-- The stamp of a change, now where it has none. -/
def stampOrNow (b : BotState) (ts : Int) : Int := if ts ≠ 0 then ts else b.now

/-- `push_delta`: one key=value change. -/
def pushDelta (b : BotState) (key value : Str) (ts : Int) : Bool × BotState :=
  if key.isEmpty || !linkReady b then (false, b)
  else
    let payload := key ++ str "|" ++ value ++ str "|" ++ dec (stampOrNow b ts)
    if maxBuffer ≤ payload.length then (false, b) else sendFrame b cmdBotDelta payload

/-- `chan_line`. -/
def chanLine (c : Chan) : Str :=
  str "c|" ++ c.name ++ str "|" ++ c.key ++ str "|" ++ dec (toI32 c.modes.toNat) ++ str "|" ++
    addDel c.isManaged ++ str "|" ++ dec c.timestamp ++ str "\n"

/-- `push_channel`. -/
def pushChannel (b : BotState) (ci : Nat) : BotState :=
  if !linkReady b then b
  else
    match b.chans[ci]? with
    | none => b
    | some c =>
        if maxBuffer ≤ (chanLine c).length then b
        else
          match sendFrame b cmdConfigPush (chanLine c) with
          | (true, b) => withChan b ci fun c => { c with enfPending := false }
          | (false, b) => b

/-- `push_lines`. -/
def pushLines (b : BotState) (lines : Str) : Bool × BotState :=
  if !linkReady b || lines.isEmpty then (false, b) else sendFrame b cmdConfigPush lines

/-- `relay_bot_command`. -/
def relayBotCommand (b : BotState) (targetUuid frameLine : Str) : Bool × BotState :=
  if !b.link.connected || !b.link.authenticated || !b.link.sock then (false, b)
  else
    let payload := targetUuid ++ str "|" ++ frameLine
    if maxBuffer ≤ payload.length then (false, b) else sendFrame b cmdBotRelay payload

/-- `send_chan_reply`. -/
def sendChanReply (b : BotState) (requestId kind channel status data : Str) : Bool × BotState :=
  if !b.link.connected || !b.link.authenticated || !b.link.sock then (false, b)
  else
    let payload := requestId ++ str "|" ++ kind ++ str "|" ++ channel ++ str "|" ++ status ++
      str "|" ++ data
    if maxChan + maxKey + 96 ≤ payload.length then (false, b)
    else sendFrame b cmdChanReply payload

/-! ### The bot's config -/

/-- Lines one after the other until one is missing or does not fit. -/
def appendUntil (max : Nat) (out : Str) : List (Option Str) → Str
  | some l :: lines => if max ≤ out.length + l.length then out else appendUntil max (out ++ l) lines
  | _ => out

/-- A line, if it fits. -/
def appendIf (max : Nat) (out line : Str) : Str :=
  if out.length + line.length < max then out ++ line else out

/-- `generate_config_payload`. -/
def generateConfigPayload (b : BotState) : Str :=
  let max := maxBuffer - 64
  let hubOnly := b.isOptSet optHubOnlyMutations
  let chans := b.chans.filter fun c =>
    !(hubOnly && !c.enfPending) && !(c.timestamp == 0 && !c.isManaged)
  let out := appendUntil max [] (chans.map (some <| chanLine ·))
  let bans := b.cfgBans.filter fun x => x.pushPending && !b.botUuid.isEmpty && x.setter == b.botUuid
  let out := appendUntil max out (bans.map formatBLine)
  let out := appendIf max out (str "v|" ++ dec botProtoVersion ++ str "|1\n")
  let out :=
    if !b.actualHostname.isEmpty && 0 < b.actualHostnameTs then
      appendIf max out
        (str "h|" ++ b.actualHostname ++ str "|" ++ dec b.actualHostnameTs ++ str "\n")
    else out
  if !b.currentNick.isEmpty && 0 < b.currentNickTs then
    appendIf max out (str "n|" ++ b.currentNick ++ str "|" ++ dec b.currentNickTs ++ str "\n")
  else out

/-- `push_config`. -/
def pushConfig (b : BotState) : BotState :=
  if !linkReady b then b
  else
    let payload := generateConfigPayload b
    if payload.isEmpty then b
    else
      match sendFrame b cmdConfigPush payload with
      | (true, b) => { b with cfgBans := b.cfgBans.map fun x => { x with pushPending := false } }
      | (false, b) => b

/-- `config::write`, less the file. -/
def writeConfig (b : BotState) : BotState :=
  if !b.hubs.isEmpty && b.link.authenticated then pushConfig b else b

/-! ### Presence and upgrades -/

/-- The server the bot is on: the name the link reported beats the configured
entry. -/
def ircServer (b : BotState) : Str :=
  if !b.connected then []
  else
    trunc (if b.actualServerName.isEmpty then (b.ircServerIdx.bind fun i => b.serverList[i]?).getD []
      else b.actualServerName) (treeServerMax + 1)

/-- `send_presence`: when it changes, on a timer, or when forced. -/
def sendPresence (b : BotState) (force : Bool) : BotState :=
  if !linkReady b then b
  else
    let server := ircServer b
    if !force && server == b.link.presenceServer && b.link.lastPresenceSent != 0 &&
        b.now - b.link.lastPresenceSent < botPresenceReportInterval then b
    else
      let payload := botVersion ++ str "|" ++ server ++ str "|" ++ dec b.botStartTime ++ str "|" ++
        botUpdateVariant
      match sendFrame b cmdBotPresence payload with
      | (true, b) =>
          { b with link := { b.link with presenceServer := server, lastPresenceSent := b.now } }
      | (false, b) => b

/-- At most `n` characters of a UTF-8 string. -/
def takeChars : Nat → Str → Str
  | _, [] => []
  | n, c :: rest =>
      if 128 ≤ c && c < 192 then c :: takeChars n rest
      else
        match n with
        | 0 => []
        | n + 1 => c :: takeChars n rest

/-- `upgrade_field`. -/
def upgradeField (src : Str) : Str :=
  takeChars 191 (src.map fun c =>
    if c = byte '|' then byte '/' else if c < 0x20 ∨ c = 0x7f then byte ' ' else c)

/-- `send_upgrade_result`. -/
def sendUpgradeResult (b : BotState) (id status detail : Str) : BotState :=
  (sendFrame b cmdUpgradeResult (id ++ str "|" ++ b.botUuid ++ str "|" ++ status ++ str "|" ++
    botVersion ++ str "|" ++ upgradeField detail)).2

/-- `ops_ready`: what is still missing, or `ok` when the bot is back in every
channel of `wantOps`, opped. -/
def opsReady (b : BotState) (wantOps : List Str) : Except Str Unit :=
  if !b.authed then .error (str "back; IRC not reconnected")
  else
    match wantOps.filter fun w =>
        !b.chans.any fun c => eqIc c.name w && c.status == .inside && c.iAmOpped with
    | [] => .ok ()
    | missing => .error (str "back; not re-opped in " ++ (missing.intersperse (str " ")).flatten)

/-- `upgrade_ready_tick`: send a held "ok" once the bot is back, or at the limit
with what is missing. -/
def upgradeReadyTick (b : BotState) : BotState :=
  match b.upgradeReport with
  | none => b
  | some rep =>
      if !b.link.authenticated then b
      else
        match opsReady b rep.ops with
        | .ok () => sendUpgradeResult { b with upgradeReport := none } rep.id (str "ok") []
        | .error d =>
            if b.now - rep.since < upgradeOpsWait then b
            else sendUpgradeResult { b with upgradeReport := none } rep.id (str "ok") d

/-- `report_upgrade_result`. -/
def reportUpgradeResult (b : BotState) : BotState :=
  if b.upgradeReport.isSome then upgradeReadyTick b
  else
    match b.upgradeMarker with
    | none => b
    | some p =>
        let b := { b with upgradeMarker := none, upgradeInstalledId := p.id }
        if Chanenf.versionCmp botVersion p.version == .eq &&
            (p.variant.isEmpty || p.variant == botUpdateVariant) then
          upgradeReadyTick { b with upgradeReport := some { id := p.id, ops := p.ops, since := b.now } }
        else
          let wanted := if p.variant.isEmpty then p.version else p.version ++ str "/" ++ p.variant
          sendUpgradeResult b p.id (str "version-mismatch") (str "wanted " ++ wanted)

/-! ### Users and masks -/

/-- The chunk loop of `push_admin_delta`: `payload` holds the lines of the open
chunk. A line too long for a record is skipped. -/
def adminDeltaLoop (b : BotState) (payload : Str) : List Str → Bool × BotState
  | [] => if payload.isEmpty then (true, b) else sendFrame b cmdConfigPush payload
  | line :: lines =>
      if max cfgMaskLineMax cfgUserLineMax ≤ line.length then adminDeltaLoop b payload lines
      else if maxBuffer - 64 < payload.length + line.length then
        match sendFrame b cmdConfigPush payload with
        | (true, b) => adminDeltaLoop b line lines
        | (false, b) => (false, b)
      else adminDeltaLoop b (payload ++ line) lines

/-- `push_admin_delta`: every user and mask record. What could not be sent is
remembered and sent after the next authentication. -/
def pushAdminDelta (b : BotState) : BotState :=
  if !b.link.authenticated || !b.link.sock then
    if !b.hubs.isEmpty then { b with adminDeltaPending := true } else b
  else
    let b := { b with adminDeltaPending := true, configDirty := true }
    match adminDeltaLoop b []
        (b.userRecords.map formatUserLine ++ b.maskRecords.map formatMaskLine) with
    | (true, b) => { b with adminDeltaPending := false }
    | (false, b) => b

/-! ### What a push can change -/

/-- A push uses the link, and writes the marks of what has been sent. -/
structure SameButPush (b b' : BotState) : Prop where
  eq : b' = { b with
    link := b'.link, hubOut := b'.hubOut, chans := b'.chans, cfgBans := b'.cfgBans
    upgradeReport := b'.upgradeReport, upgradeInstalledId := b'.upgradeInstalledId
    upgradeMarker := b'.upgradeMarker, adminDeltaPending := b'.adminDeltaPending
    configDirty := b'.configDirty }

theorem SameButPush.refl (b : BotState) : SameButPush b b := ⟨rfl⟩

theorem SameButPush.trans {b₁ b₂ b₃ : BotState} (h : SameButPush b₁ b₂) (h' : SameButPush b₂ b₃) :
    SameButPush b₁ b₃ := by
  constructor
  rw [h'.eq, h.eq]

theorem sameButPush_of_link {b b' : BotState} (h : SameButLink b b') : SameButPush b b' := by
  constructor
  rw [h.eq]

theorem sameButPush_sendFrame (b : BotState) (cmd : UInt8) (payload : Str) :
    SameButPush b (sendFrame b cmd payload).2 :=
  sameButPush_of_link (sameButLink_sendFrame b cmd payload)

theorem sameButPush_pushDelta (b : BotState) (key value : Str) (ts : Int) :
    SameButPush b (pushDelta b key value ts).2 := by
  unfold pushDelta
  split
  · exact .refl b
  · dsimp only
    split
    · exact .refl b
    · exact sameButPush_sendFrame b _ _

theorem sameButPush_pushChannel (b : BotState) (ci : Nat) : SameButPush b (pushChannel b ci) := by
  unfold pushChannel
  split
  · exact .refl b
  · split
    · exact .refl b
    · split
      · exact .refl b
      · rename_i c _ _
        have hsend := sameButPush_sendFrame b cmdConfigPush (chanLine c)
        split
        · rename_i h
          rw [h] at hsend
          exact hsend.trans ⟨rfl⟩
        · rename_i h
          rw [h] at hsend
          exact hsend

theorem sameButLink_relayBotCommand (b : BotState) (targetUuid frameLine : Str) :
    SameButLink b (relayBotCommand b targetUuid frameLine).2 := by
  unfold relayBotCommand
  split
  · exact .refl b
  · dsimp only
    split
    · exact .refl b
    · exact sameButLink_sendFrame b _ _

theorem sameButLink_sendChanReply (b : BotState) (requestId kind channel status data : Str) :
    SameButLink b (sendChanReply b requestId kind channel status data).2 := by
  unfold sendChanReply
  split
  · exact .refl b
  · dsimp only
    split
    · exact .refl b
    · exact sameButLink_sendFrame b _ _

theorem sameButPush_relayBotCommand (b : BotState) (targetUuid frameLine : Str) :
    SameButPush b (relayBotCommand b targetUuid frameLine).2 :=
  sameButPush_of_link (sameButLink_relayBotCommand b targetUuid frameLine)

theorem sameButPush_sendChanReply (b : BotState) (requestId kind channel status data : Str) :
    SameButPush b (sendChanReply b requestId kind channel status data).2 :=
  sameButPush_of_link (sameButLink_sendChanReply b requestId kind channel status data)

theorem sameButPush_pushConfig (b : BotState) : SameButPush b (pushConfig b) := by
  unfold pushConfig
  split
  · exact .refl b
  · dsimp only
    split
    · exact .refl b
    · have hsend := sameButPush_sendFrame b cmdConfigPush (generateConfigPayload b)
      split
      · rename_i h
        rw [h] at hsend
        exact hsend.trans ⟨rfl⟩
      · rename_i h
        rw [h] at hsend
        exact hsend

theorem sameButPush_writeConfig (b : BotState) : SameButPush b (writeConfig b) := by
  unfold writeConfig
  split
  · exact sameButPush_pushConfig b
  · exact .refl b

theorem sameButLink_adminDeltaLoop (lines : List Str) :
    ∀ (b : BotState) (payload : Str), SameButLink b (adminDeltaLoop b payload lines).2 := by
  induction lines with
  | nil =>
      intro b payload
      unfold adminDeltaLoop
      split
      · exact .refl b
      · exact sameButLink_sendFrame b _ _
  | cons line lines ih =>
      intro b payload
      have hsend := sameButLink_sendFrame b cmdConfigPush payload
      unfold adminDeltaLoop
      split
      · exact ih b payload
      · split
        · split
          · rename_i h
            rw [h] at hsend
            exact hsend.trans (ih _ _)
          · rename_i h
            rw [h] at hsend
            exact hsend
        · exact ih b _

theorem sameButPush_pushAdminDelta (b : BotState) : SameButPush b (pushAdminDelta b) := by
  unfold pushAdminDelta
  split
  · split
    · exact ⟨rfl⟩
    · exact .refl b
  · dsimp only
    have hloop := sameButPush_of_link (sameButLink_adminDeltaLoop
      (b.userRecords.map formatUserLine ++ b.maskRecords.map formatMaskLine)
      { b with adminDeltaPending := true, configDirty := true } [])
    split
    · rename_i h
      rw [h] at hloop
      exact (SameButPush.trans ⟨rfl⟩ hloop).trans ⟨rfl⟩
    · rename_i h
      rw [h] at hloop
      exact SameButPush.trans ⟨rfl⟩ hloop

end IrcBot.HubPush
