/-
# The bot's state (`state.rs`)

The records the bot keeps and `BotState`, which holds them all. The last fields
of `BotState` are what the process sees of the outside world: the two clocks
and the logs of what has been handed to the IRC send queue and written to the
hub link. A handler is a function of the state at one reading of the
clocks.
-/
import IrcBot.Consts
import IrcBot.Lib.ReplayRing

namespace IrcBot

/-! ### Records -/

/-- `ChanStatus`. -/
inductive ChanStatus where
  | none
  | out
  | inside
deriving DecidableEq, Repr

/-- `M_K`, `M_I`: what the bot keeps of a channel's modes. -/
def mK : UInt32 := 64
def mI : UInt32 := 128

/-- `ChanReq`: one in-flight request per kind per channel. -/
inductive ChanReq where
  | unban
  | invite
  | key
deriving DecidableEq, Repr

def ChanReq.token : ChanReq → Str
  | .unban => str "unban"
  | .invite => str "invite"
  | .key => str "key"

/-- The place of a kind in the per-kind tables of a channel. -/
def ChanReq.idx : ChanReq → Nat
  | .unban => 0
  | .invite => 1
  | .key => 2

def ChanReq.fromToken (tok : Str) : Option ChanReq :=
  [ChanReq.unban, .invite, .key].find? fun k => Cstr.eqIc tok k.token

/-- An admin (`a`) or oper (`o`) record. -/
structure UserRecord where
  uuid : Str := []
  name : Str := []
  pubkeyB64 : Str := []
  hasPubkey : Bool := false
  typ : UInt8 := byte 'a'
  isActive : Bool := false
  lastSeen : Int := 0
  timestamp : Int := 0
  lastAuthReply : Int := 0
  actPending : Int := 0
deriving DecidableEq, Repr

/-- A parsed `a|`/`o|` line body. -/
structure UserLine where
  uuid : Str := []
  name : Str := []
  pubkeyB64 : Str := []
  hasPubkey : Bool := false
  isActive : Bool := false
  legacy : Bool := false
  lastSeen : Int := 0
  timestamp : Int := 0
deriving DecidableEq, Repr

/-- One trusted peer bot (`b|` line). -/
structure TrustedBot where
  mask : Str := []
  uuid : Str := []
  pubKey : Str := []
  hasPub : Bool := false
  ts : Int := 0
deriving DecidableEq, Repr

/-- Nick part of the mask. -/
def TrustedBot.nick (tb : TrustedBot) : Str := Cstr.maskNick tb.mask maxNick

structure MaskRecord where
  uuid : Str := []
  mask : Str := []
  isActive : Bool := false
  lastUsed : Int := 0
  timestamp : Int := 0
  actPending : Int := 0
deriving DecidableEq, Repr

/-- `authorised` caches the verdict on `hostmask`; it is valid while `authGen`
equals the state's. -/
structure RosterEntry where
  nick : Str := []
  hostmask : Str := []
  isOp : Bool := false
  isHalfop : Bool := false
  isVoice : Bool := false
  authorised : Bool := false
  authGen : UInt32 := 0
deriving DecidableEq, Repr

/-- `CsetId`: the settings of a `C|` or `D|` line. -/
inductive CsetId where
  | enforceModes | bitch | protectOps | revenge | stopNetHack | enforceBans | dynamicBans
  | dontKickOps | cycle | dynamicLimit | banTime | banType | banIdle | limitGap | limitDelay
  | ignoreTime
deriving DecidableEq, Repr

/-- `FloodKind`: the channel floods, the bot floods and the send queue. -/
inductive FloodKind where
  | chan | ctcp | join | nick | deop | kick | ban | botCmd | botMsg | botCtcp | sendq
deriving DecidableEq, Repr

/-- A flood override: `off`, or more than `n` events in `s` seconds. -/
inductive FloodSpec where
  | off
  | limit (n s : Int)
deriving DecidableEq, Repr

/-- A parsed settings field: only the overrides it names. -/
structure ChanSettings where
  val : CsetId → Option Int := fun _ => none
  fl : FloodKind → Option FloodSpec := fun _ => none
  badSendq : Bool := false

/-- One server-side ban in a channel's ban list. -/
structure LiveBan where
  mask : Str := []
  setter : Str := []
  when : Int := 0
deriving DecidableEq, Repr

/-- One `B|` record (a network ban). -/
structure CfgBan where
  chan : Str := []
  mask : Str := []
  flags : Str := []
  setter : Str := []
  reason : Str := []
  expires : Int := 0
  ts : Int := 0
  active : Bool := false
  pushPending : Bool := false
deriving DecidableEq, Repr

/-- 005 (RPL_ISUPPORT) values; the defaults are what a server that says nothing
is assumed to have. -/
structure Isupport where
  modes : Int := isupportModesDefault
  maxlistB : Int := 0
  prefixModes : Str := str "ov"
  prefixSyms : Str := str "@+"
  cmA : Str := str "beI"
  cmB : Str := str "k"
  cmC : Str := str "l"
  cmD : Str := str "imnpst"
  nicklen : Int := nicklenDefault
deriving DecidableEq, Repr

/-- One dedupe slot of the `CMD_CHAN_EVENT` limiter. -/
structure ChanEventSeen where
  key : Str := []
  when : Int := 0
deriving DecidableEq, Repr

/-- Rate-limit memory for `CMD_CHAN_EVENT`. -/
structure ChanEventLim where
  seen : List ChanEventSeen := List.replicate chanEventTrack {}
  window : List Int := List.replicate chanEventWindowMax 0
  widx : Nat := 0
  suppressed : Nat := 0
  supChan : Str := []
  supAction : Str := []
deriving DecidableEq, Repr

/-- One counting window; `startMs` means something while `count` is positive. -/
structure FloodWindow where
  startMs : Int := 0
  count : Int := 0
deriving DecidableEq, Repr

/-- One source host in one channel, with a window for each channel flood; an empty
`host` is a free slot. -/
structure FloodSrc where
  host : Str := []
  lastMs : Int := 0
  w : List FloodWindow := List.replicate flChanCount {}
  /-- Bit per kind: a victim was authorised. -/
  victimAuth : UInt8 := 0
deriving DecidableEq, Repr

structure Chan where
  name : Str := []
  key : Str := []
  status : ChanStatus := .none
  modes : UInt32 := 0
  isManaged : Bool := false
  timestamp : Int := 0
  lastWhoRequest : Int := 0
  roster : List RosterEntry := []
  lastJoinAttempt : Int := 0
  joinDisabled : Bool := false
  /-- When access was last requested, for each kind. -/
  lastAccessRequest : List Int := [0, 0, 0]
  accessRetryCount : List Int := [0, 0, 0]
  iAmOpped : Bool := false
  opRequestPending : Bool := false
  lastOpRequestTime : Int := 0
  opRequestRetryCount : Int := 0
  /-- OP_GRANTs (nick, when) that came in before the bot's own +o. -/
  opGrantHeld : List (Str × Int) := []
  cfgModes : Str := []
  cfgSettings : Str := []
  cfgSet : ChanSettings := {}
  cfgTs : Int := 0
  cfgActive : Bool := false
  enfDirty : Bool := false
  enfOpsCheck : Bool := false
  liveFlags : UInt64 := 0
  liveKey : Str := []
  liveLimit : Int := 0
  liveKnown : Bool := false
  liveCreated : Int := 0
  bans : List LiveBan := []
  banListOpen : Bool := false
  banListKnown : Bool := false
  whoDone : Bool := false
  flood : List FloodSrc := []
  enfLastLimit : Int := 0
  enfPending : Bool := false

/-- One "same action again" memory slot. -/
structure EnfRecent where
  key : Str := []
  whenMs : Int := 0
deriving DecidableEq, Repr

/-- `JobAct`: what a piece of in-channel work does. -/
inductive JobAct where
  | deop | dehalf | reop | kick | banNuh | banMask | unban | mode | limit
deriving DecidableEq, Repr

/-- A queued piece of in-channel work. -/
structure PendingJob where
  used : Bool := false
  act : JobAct := .deop
  chan : Str := []
  /-- Nick, nick!user@host or ban mask. -/
  target : Str := []
  reason : Str := []
  createdMs : Int := 0
deriving DecidableEq, Repr

/-- What is remembered of a ban on a channel; an empty `chan` is a free slot. -/
structure BanTrack where
  chan : Str := []
  mask : Str := []
  lastMatch : Int := 0
  /-- When this bot last sent +b for it. -/
  setAt : Int := 0
  /-- The last overlap check (cached 60 s), and its result. -/
  checkedAt : Int := 0
  overlapOk : Bool := false
deriving DecidableEq, Repr

/-- Repeat-offence memory, under lower(chan) `|` lower(host); an empty `key` is a
free slot. -/
structure Offence where
  key : Str := []
  when : Int := 0
  count : Nat := 0
deriving DecidableEq, Repr

/-- `UnbanJob`: a ban list being read for another bot. -/
structure UnbanJob where
  channel : Str := []
  hostmask : Str := []
  started : Int := 0
  removed : Int := 0
  active : Bool := false
deriving DecidableEq, Repr

/-- `PendingUpgrade`: what the marker of a hub-driven upgrade says. -/
structure PendingUpgrade where
  id : Str := []
  version : Str := []
  variant : Str := []
  ops : List Str := []
deriving DecidableEq, Repr

/-- `UpgradeReport`: a held "ok", with the channels to be back in first. -/
structure UpgradeReport where
  id : Str := []
  ops : List Str := []
  since : Int := 0
deriving DecidableEq, Repr

/-- One row of the hub-pushed bot tree. -/
structure BotTreeRow where
  kind : UInt8 := 0
  uuid : Str := []
  version : Str := []
deriving DecidableEq, Repr

/-- The cells behind the cached verdicts: the generation a verdict must carry, the
`cfg_gen` and the fingerprint it stands for, and when that was taken. -/
structure AuthCells where
  gen : UInt32 := 0
  seenCfgGen : UInt32 := 0
  fp : UInt64 := 0
  fpMs : Int := 0
deriving DecidableEq, Repr

/-- `NonceCache`: a ring of (nonce, time) with a TTL. -/
abbrev NonceCache (size : Nat) := Lib.ReplayRing.Ring UInt64 size

namespace NonceCache

def new (size : Nat) (hsize : 0 < size) : NonceCache size :=
  ⟨List.replicate size (0, 0), List.length_replicate, ⟨0, hsize⟩⟩

def seen {size : Nat} (c : NonceCache size) (nonce : UInt64) (now : Int) : Bool :=
  Lib.ReplayRing.Ring.seen c nonceTtlSeconds nonce now

def record {size : Nat} (c : NonceCache size) (nonce : UInt64) (now : Int) : NonceCache size :=
  Lib.ReplayRing.Ring.record c nonce now

end NonceCache

/-- Hub handshake progress. -/
inductive HubAuthState where
  | none
  | sentUuid
  | sentSignature
  | complete
deriving DecidableEq, Repr

/-- The hub link: the `hub_*` fields of the state, `sock` for `hub.is_some()`.
`sendLeft` is how many frames the socket still takes before a write fails
(`none` = any number). -/
structure HubLink where
  sock : Bool := false
  authState : HubAuthState := .none
  currentHub : Str := []
  connecting : Bool := false
  connected : Bool := false
  authenticated : Bool := false
  sessionKey : Str := []
  connectTime : Int := 0
  lastConnectAttempt : Int := 0
  lastPingTime : Int := 0
  lastActivity : Int := 0
  lastPongSent : Int := 0
  presenceServer : Str := []
  lastPresenceSent : Int := 0
  sendLeft : Option Nat := .none
deriving DecidableEq, Repr

/-- What a line is for that gives `nick` ops in a channel, or invites it there. -/
inductive Named where
  | op (channel nick : Str)
  | invite (nick channel : Str)
deriving DecidableEq, Repr

def Named.nick : Named → Str
  | .op _ nick => nick
  | .invite nick _ => nick

/-! ### The state -/

structure BotState where
  /-- `S_CONNECTED` of `status`. -/
  connected : Bool := false
  /-- `S_AUTHED` of `status`: registered with the server. -/
  authed : Bool := false
  serverList : List Str := []
  ircServerIdx : Option Nat := none
  targetNick : Str := []
  currentNick : Str := []
  currentNickTs : Int := 0
  nickGenerationAttempt : Nat := 0
  nickReleaseTime : Int := 0
  lastNickAttempt : Int := 0
  nickRefused : Str := []
  nickChangePending : Bool := false
  actualHostname : Str := []
  actualHostnameTs : Int := 0
  actualServerName : Str := []
  lastPongTime : Int := 0
  pongPending : Bool := false
  /-- What the server said as it refused the link, and whether a ban numeric was in it. -/
  ircRefusal : Str := []
  ircRefusalBan : Bool := false
  lastOpRequestSent : Int := 0
  lastChanRequestSent : Int := 0
  chanReqFallbackIdx : Nat := 0
  chans : List Chan := []
  trustedBots : List TrustedBot := []
  lastAuthReplyAny : Int := 0
  adminDeltaPending : Bool := false
  recentNonces : NonceCache nonceCacheSize := .new _ nonceCacheSize_pos
  adminNonces : NonceCache maxSeenHashes := .new _ maxSeenHashes_pos
  userRecords : List UserRecord := []
  maskRecords : List MaskRecord := []
  configDirty : Bool := false
  optFlags : Str := []
  optFlagsTs : Int := 0
  /-- The configured hubs' addresses. -/
  hubs : List Str := []
  link : HubLink := {}
  botStartTime : Int := 0
  botUuid : Str := []
  /-- Base64 of the identity private key. -/
  hubKey : Str := []
  /-- The decoded identity key, all zero while it is not set. -/
  hubKeyRaw : Str := List.replicate hubKeyRawLen 0
  selfPub : Str := List.replicate hubKeyRawLen 0
  selfPubSet : Bool := false
  isup : Isupport := {}
  netModes : Str := []
  netSettings : Str := []
  netSet : ChanSettings := {}
  netTs : Int := 0
  sendqBurst : Int := sendqDefBurst
  sendqIntervalMs : Int := sendqDefIntervalMs
  sendqCreditMs : Int := sendqDefBurst * sendqDefIntervalMs
  cfgBans : List CfgBan := []
  chanEvent : ChanEventLim := {}
  cfgGen : UInt32 := 0
  /-- `auth_gen`, `auth_seen_cfg_gen`, `auth_fp`, `auth_fp_ms`. -/
  auth : AuthCells := {}
  enfRecent : List EnfRecent := List.replicate enfRecent {}
  enfRecentIdx : Nat := 0
  jobs : List PendingJob := List.replicate maxPendingJobs {}
  banTrack : List BanTrack := []
  offences : List Offence := List.replicate maxOffences {}
  botTree : List BotTreeRow := []
  upgradeReport : Option UpgradeReport := none
  upgradeInstalledId : Str := []
  /-- The marker file of an upgrade, as it reads; it is consumed when read. -/
  upgradeMarker : Option PendingUpgrade := none
  unbanJobs : List UnbanJob := List.replicate maxUnbanJobs {}
  /-- `now()`, in seconds. -/
  now : Int := 0
  /-- `mono_ms()`. -/
  monoMs : Int := 0
  /-- Every line handed to the IRC send queue, oldest first. -/
  ircOut : List Str := []
  /-- Whom the MODE +o and INVITE lines among them name, oldest first. -/
  named : List Named := []
  /-- The nicks that the NICK lines among them ask for, oldest first. -/
  nickAsked : List Str := []
  /-- Every frame written to the hub link (opcode, payload), oldest first. -/
  hubOut : List (UInt8 × Str) := []

namespace BotState

/-- `is_opt_set`. -/
def isOptSet (b : BotState) (c : UInt8) : Bool := c ∈ b.optFlags

end BotState

/-! ### Nicks -/

def isAlpha (c : UInt8) : Bool := (65 ≤ c && c ≤ 90) || (97 ≤ c && c ≤ 122)

def isValidBotNick (nick : Str) : Bool :=
  !nick.isEmpty && nick.length < maxNick && !nick.contains (byte '|')

/-- A nick every server accepts, within the bot's own limit. -/
def isRfcNick (nick : Str) : Bool :=
  isValidBotNick nick && nick.zipIdx.all fun (c, i) =>
    isAlpha c || (str "[]\\`_^\x7b\x7d").contains c ||
      ((Cstr.isDigit c || c == byte '-') && i != 0)

/-! ### Last-writer-wins rules -/

/-- Timestamp for changing an existing replicated record: now, but always past
its previous stamp. -/
def lwwNextTs (now prev : Int) : Int := if prev < now then now else prev + 1

/-- LWW acceptance for an add/del record: newer wins; on a tie a delete beats an
add. -/
def lwwAccepts (inTs : Int) (inActive : Bool) (curTs : Int) (curActive : Bool) : Bool :=
  curTs < inTs || (inTs == curTs && curActive && !inActive)

/-- LWW acceptance for the opt flags: newer wins; on a tie the byte-wise greater
string wins. -/
def optAccepts (inTs : Int) (inFlags : Str) (curTs : Int) (curFlags : Str) : Bool :=
  curTs < inTs || (inTs == curTs && decide (curFlags < inFlags))

theorem lwwNextTs_gt (now prev : Int) : prev < lwwNextTs now prev := by
  unfold lwwNextTs
  split <;> omega

/-- An accepted record is never older than the one it replaces. -/
theorem le_of_lwwAccepts {inTs curTs : Int} {inActive curActive : Bool}
    (h : lwwAccepts inTs inActive curTs curActive = true) : curTs ≤ inTs := by
  simp [lwwAccepts] at h
  omega

end IrcBot
