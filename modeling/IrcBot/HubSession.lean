/-
# The handshake with a hub (`hub_client.rs`)

The bot dials a hub and sends its uuid, the hub sends a challenge signed by its pinned key, the
bot derives the session key and signs, and the hub acknowledges under that key. Every flag and
key of this is reset when the link goes.

* `handshake_safe` — the link counts as authenticated only after all of this happened on it,
  and before that no command is dispatched and no record is sent.
-/
import IrcBot.Envelope
import IrcBot.Links
import IrcBot.Lib.History

namespace IrcBot.HubSession

open Cstr Crypto Envelope Lib.History

/-! ### The state -/

/-- What happens on a link, by its number. -/
inductive Event where
  /-- The bot dialled `hub`, whose pinned key is `pin`. -/
  | opened (link : Nat) (hub : Str) (pin : Option Str)
  /-- Bytes of the handshake that the bot sends. -/
  | greeting (link : Nat) (data : Str)
  | packet (link : Nat) (body : Str)
  | command (link : Nat) (cmd : UInt8) (payload : Str)
  | record (link : Nat) (cmd : UInt8) (payload : Str)

/-- The bot, the pinned keys of its hubs, and the link: the key it is checked against, what
was read and not yet taken apart, its number, and a log of what happened. -/
structure Session where
  bot : BotState
  edPubs : List (Option Str) := []
  remotePub : Option Str := none
  rbuf : Str := []
  linkNo : Nat := 0
  log : List Event := []

namespace Session

def sock (s : Session) : Bool := s.bot.link.sock

def authenticated (s : Session) : Bool := s.bot.link.authenticated

def authState (s : Session) : HubAuthState := s.bot.link.authState

def sessionKey (s : Session) : Str := s.bot.link.sessionKey

def withLink (s : Session) (f : HubLink → HubLink) : Session :=
  { s with bot := { s.bot with link := f s.bot.link } }

def note (s : Session) (e : Event) : Session := { s with log := s.log ++ [e] }

/-- `disconnect`. -/
def disconnect (s : Session) : Session := { s with bot := hubDisconnect s.bot }

/-- `drop_link`. -/
def dropLink (s : Session) : Session :=
  s.withLink fun l =>
    { l with
      sock := false, connected := false, authenticated := false, connecting := false
      authState := .none, sessionKey := [] }

/-- `send_raw` of bytes of the handshake. -/
def sendRaw (s : Session) (data : Str) : Bool × Session :=
  if !s.sock then (false, s)
  else
    match s.bot.link.sendLeft with
    | some 0 => (false, s.disconnect)
    | left =>
        (true, (s.withLink fun l => { l with sendLeft := left.map (· - 1) }).note
          (.greeting s.linkNo data))

/-- `send_frame`. What gets as far as `send_raw` is logged, whatever comes of it there. -/
def sendFrame (s : Session) (cmd : UInt8) (payload : Str) : Bool × Session :=
  let sent := IrcBot.sendFrame s.bot cmd payload
  let s' := { s with bot := sent.2 }
  (sent.1,
    if s.authenticated && s.sock && payload.length ≤ maxBuffer - 64 then
      s'.note (.record s.linkNo cmd payload)
    else s')

end Session

/-- A length in front of what it counts. -/
def frame (data : Str) : Str :=
  let n := data.length
  [UInt8.ofNat (n >>> 24), UInt8.ofNat (n >>> 16), UInt8.ofNat (n >>> 8), UInt8.ofNat n] ++ data

/-- A big-endian length. -/
def beNat (bytes : Str) : Nat := bytes.foldl (fun n b => n * 256 + b.toNat) 0

/-! ### Connecting -/

/-- The link to a hub that took the connection; `budget` is how much the link takes before a
write fails. -/
def openLink (s : Session) (hub pin : Str) (budget : Option Nat) : Session :=
  ({ s with rbuf := [], linkNo := s.linkNo + 1 }.withLink fun l =>
    { l with
      sock := true, connected := true, authenticated := false, authState := .none
      currentHub := hub, sendLeft := budget }).note (.opened (s.linkNo + 1) hub (some pin))

/-- The end of `connect`: the uuid is sent. -/
def sendUuid (s : Session) : Session :=
  let sent := s.sendRaw (frame s.bot.botUuid)
  let s := if sent.1 then sent.2.withLink fun l => { l with authState := .sentUuid } else sent.2
  s.withLink fun l => { l with connecting := false }

/-- `connect`. The hub at `idx` is drawn at random; `reached` is whether its address resolves
and takes a connection. -/
def connect (s : Session) (idx : Nat) (reached : Bool) (budget : Option Nat) : Session :=
  let hold := s.withLink fun l => { l with lastConnectAttempt := s.bot.now + 3600 }
  if s.bot.hubs.isEmpty || s.sock || s.bot.link.connecting then s
  else if s.bot.botUuid.isEmpty || !hasUuidDashes s.bot.botUuid || s.bot.hubKey.isEmpty ||
      s.bot.hubKey.length ≠ combinedKeyB64 || (s.bot.hubs.headD []).isEmpty then hold
  else if s.bot.now - s.bot.link.lastConnectAttempt < hubReconnectDelay then s
  else
    let s := s.withLink fun l => { l with lastConnectAttempt := s.bot.now, connecting := true }
    let hub := s.bot.hubs.getD idx []
    -- against this hub's own pinned key, or not at all
    match s.edPubs.getD idx none with
    | none =>
        { s with remotePub := none }.withLink fun l =>
          { l with connecting := false, lastConnectAttempt := s.bot.now + 60 }
    | some pin =>
        let s := { s with remotePub := some pin }
        if !hub.contains (byte ':') || !reached then s.withLink fun l => { l with connecting := false }
        else sendUuid (openLink s hub pin budget)

section

variable (P : Primitives) (ed25519Sign : Str → Str → Str)

/-! ### The challenge and the acknowledgement -/

/-- What the hub signs. -/
def transcript (uuid challenge hubEph : Str) : Str :=
  str "irchub-hub-auth-v2|" ++ uuid ++ str "|" ++ challenge ++ hubEph

/-- `derive_session_key`. -/
def deriveSessionKey (b : BotState) (hubEph challenge : Str) : Option Str × BotState :=
  let keys := botKeyDecode P b
  (keys.1.bind fun k => (P.x25519 k.2 hubEph).bind fun shared =>
    P.hkdf shared challenge (str "irchub-bot-session-v1|" ++ b.botUuid), keys.2)

/-- `sign_challenge`. -/
def signChallenge (b : BotState) (challenge hubEph : Str) : Option Str × BotState :=
  let keys := botKeyDecode P b
  (keys.1.map fun k =>
    ed25519Sign k.1 (str "irchub-bot-challenge-v1|" ++ b.botUuid ++ str "|" ++ hubEph ++ challenge),
    keys.2)

/-- `handle_challenge`: challenge (32 bytes), the hub's ephemeral key (32), its signature (64). -/
def handleChallenge (s : Session) (body : Str) : Session :=
  if body.length ≠ 128 then s.disconnect
  else
    let challenge := body.take 32
    let hubEph := (body.drop 32).take 32
    match s.remotePub with
    | none => s.disconnect
    | some pin =>
        if !P.ed25519Verify pin (transcript s.bot.botUuid challenge hubEph) (body.drop 64) then
          s.disconnect
        else
          let derived := deriveSessionKey P s.bot hubEph challenge
          let s := { s with bot := derived.2 }
          match derived.1 with
          | none => s.disconnect
          | some key =>
              let s := s.withLink fun l => { l with sessionKey := key }
              let signed := signChallenge P ed25519Sign s.bot challenge hubEph
              let s := { s with bot := signed.2 }
              match signed.1 with
              | none => s.disconnect
              | some sig =>
                  let sent := s.sendRaw (frame sig)
                  if sent.1 then sent.2.withLink fun l => { l with authState := .sentSignature }
                  else sent.2

/-! ### What the rest of the bot does with the link -/

/-- The rest of the bot sends frames, closes and opens the link, decodes the identity key, and
changes what is none of the link's state. -/
inductive Op where
  | send (cmd : UInt8) (payload : Str)
  | disconnect
  | dropLink
  | connect (idx : Nat) (reached : Bool) (budget : Option Nat)
  | decodeKey
  | other (bot : BotState) (edPubs : List (Option Str))

def perform (s : Session) : Op → Session
  | .send cmd payload => (s.sendFrame cmd payload).2
  | .disconnect => s.disconnect
  | .dropLink => s.dropLink
  | .connect idx reached budget => connect s idx reached budget
  | .decodeKey => { s with bot := (botKeyDecode P s.bot).2 }
  | .other bot edPubs =>
      { s with
        edPubs
        bot := { bot with
          botUuid := s.bot.botUuid, hubKey := s.bot.hubKey, hubKeyRaw := s.bot.hubKeyRaw
          link := { bot.link with
            sock := s.sock, authenticated := s.authenticated, authState := s.authState
            sessionKey := s.sessionKey } } }

/-- What `handle_response` does with a command, and what follows the acknowledgement. -/
structure Rest where
  respond : Session → UInt8 → Str → List Op
  greet : Session → List Op

variable (R : Rest)

/-- `handle_ack`: one byte 1 under the session key. -/
def handleAck (s : Session) (body : Str) : Session :=
  if body.length < gcmIvLen + 1 + gcmTagLen then s.disconnect
  else if gcmOpen P s.sessionKey [] body ≠ some [1] then s.disconnect
  else
    let s := s.withLink fun l =>
      { l with
        authenticated := true, authState := .complete, lastActivity := s.bot.now
        connectTime := s.bot.now }
    (R.greet s).foldl (perform P) s

/-- The answer to a PING, at most once in 5 s. -/
def answerPing (s : Session) : Session :=
  if 5 ≤ s.bot.now - s.bot.link.lastPongSent then
    let sent := s.sendFrame cmdPing []
    if sent.1 then sent.2.withLink fun l => { l with lastPongSent := s.bot.now } else sent.2
  else s

/-- A packet that was opened. -/
def handlePlain (s : Session) (plain : Str) : Session :=
  let cmd := plain.headD 0
  let len := beNat ((plain.drop 1).take 4)
  if cmd = cmdPing then answerPing s
  else if plain.length ≤ 5 || len = 0 || plain.length - 5 < len then s
  else
    let payload := untilNul (fromUtf8Lossy ((plain.drop 5).take len))
    let s := s.note (.command s.linkNo cmd payload)
    (R.respond s cmd payload).foldl (perform P) s

/-- `process_packet`. -/
def processPacket (s : Session) (body : Str) : Session :=
  if !s.authenticated then
    match s.authState with
    | .sentUuid => handleChallenge P ed25519Sign s body
    | .sentSignature => handleAck P R s body
    | _ => s
  else
    let s := s.withLink fun l => { l with lastActivity := s.bot.now }
    if body.length ≤ gcmIvLen + gcmTagLen then s
    else
      match (gcmOpen P s.sessionKey [] body).filter (!·.isEmpty) with
      | none => s.disconnect
      | some plain => handlePlain P R s plain

/-! ### Reading -/

/-- The next packet and what follows it: none while it is not complete, and an error where its
length is out of range. -/
def nextPacket (rbuf : Str) : Option (Option (Str × Str)) :=
  let len := beNat (rbuf.take 4)
  if rbuf.length < 4 then none
  else if len = 0 || maxHubFrame < len then some none
  else if rbuf.length < 4 + len then none
  else some (some ((rbuf.drop 4).take len, rbuf.drop (4 + len)))

/-- Every complete packet, one at a time, while the link is the one with this number. The result
says whether it still is. `fuel` is at least the length of what was read. -/
def takePackets (token : Nat) : Nat → Session → Bool × Session
  | 0, s => (true, s)
  | fuel + 1, s =>
      if !s.sock || s.linkNo ≠ token then (false, s)
      else
        match nextPacket s.rbuf with
        | none => (true, s)
        | some none => (false, s.disconnect)
        | some (some (body, rest)) =>
            takePackets token fuel
              (processPacket P ed25519Sign R ({ s with rbuf := rest }.note (.packet token body)) body)

/-- `handle_event` of a readable link: what was read, and whether the hub closed it. -/
def handleEvent (s : Session) (token : Nat) (data : Str) (eof : Bool) : Session :=
  if !s.sock || s.linkNo ≠ token then s
  else
    let s := { s with rbuf := s.rbuf ++ data }
    let taken := takePackets P ed25519Sign R token s.rbuf.length s
    if taken.1 && eof && taken.2.sock && taken.2.linkNo = token then taken.2.disconnect else taken.2

/-- One step of the bot. -/
inductive Step where
  | op (o : Op)
  | read (token : Nat) (data : Str) (eof : Bool)

def step (s : Session) : Step → Session
  | .op o => perform P s o
  | .read token data eof => handleEvent P ed25519Sign R s token data eof

/-- The bot as it starts, with no link. -/
def start (b : BotState) (edPubs : List (Option Str)) : Session :=
  { bot := { b with link := {} }, edPubs }

def run (b : BotState) (edPubs : List (Option Str)) (steps : List Step) : Session :=
  steps.foldl (step P ed25519Sign R) (start b edPubs)

end

/-! ### What has to have happened -/

section

variable (P : Primitives) (b : BotState)

/-- On the link, after it was opened to a hub with a pinned key, a challenge of full length came
that verifies under this key, and `key` is derived from it. -/
def Challenged (link : Nat) (log : List Event) (key : Str) : Prop :=
  ∃ before body after hub pin, log = before ++ .packet link body :: after ∧
    .opened link hub (some pin) ∈ before ∧ body.length = 128 ∧
    P.ed25519Verify pin (transcript b.botUuid (body.take 32) ((body.drop 32).take 32))
      (body.drop 64) = true ∧
    (deriveSessionKey P b ((body.drop 32).take 32) (body.take 32)).1 = some key

/-- And then an acknowledgement that opens under this key. -/
def Proven (link : Nat) (log : List Event) : Prop :=
  ∃ before body after key, log = before ++ .packet link body :: after ∧
    Challenged P b link before key ∧ gcmOpen P key [] body = some [1]

/-- A command and a record need an authenticated link. -/
def needs (e : Event) (before : List Event) : Prop :=
  match e with
  | .command link _ _ => Proven P b link before
  | .record link _ _ => Proven P b link before
  | _ => True

/-- What the flags and keys of the link stand for. -/
structure Inv (s : Session) : Prop where
  uuid : s.bot.botUuid = b.botUuid
  keys : (botKeyDecode P s.bot).1 = (botKeyDecode P b).1
  closed : s.sock = false → s.authState = .none ∧ s.authenticated = false
  opened : s.sock = true → ∃ hub, .opened s.linkNo hub s.remotePub ∈ s.log
  key : s.authState = .sentSignature → Challenged P b s.linkNo s.log s.sessionKey
  auth : s.authenticated = true → Proven P b s.linkNo s.log
  preceded : Preceded (needs P b) s.log
  fresh : ∀ link hub pin, .opened link hub pin ∈ s.log → link ≤ s.linkNo
  once : ∀ link hub pin hub' pin', .opened link hub pin ∈ s.log →
    .opened link hub' pin' ∈ s.log → hub = hub' ∧ pin = pin'

end

section

variable {P : Primitives} {b : BotState}

theorem Challenged.mono {link : Nat} {log : List Event} {key : Str}
    (h : Challenged P b link log key) (more : List Event) :
    Challenged P b link (log ++ more) key := by
  obtain ⟨before, body, after, hub, pin, rfl, hrest⟩ := h
  exact ⟨before, body, after ++ more, hub, pin, by simp, hrest⟩

theorem Proven.mono {link : Nat} {log : List Event} (h : Proven P b link log) (more : List Event) :
    Proven P b link (log ++ more) := by
  obtain ⟨before, body, after, key, rfl, hrest⟩ := h
  exact ⟨before, body, after ++ more, key, by simp, hrest⟩

/-- The identity key is read off the raw copy and the base64 form. -/
theorem botKeyDecode_congr {c c' : BotState} (hraw : c'.hubKeyRaw = c.hubKeyRaw)
    (hkey : c'.hubKey = c.hubKey) : (botKeyDecode P c').1 = (botKeyDecode P c).1 := by
  unfold botKeyDecode
  rw [hraw, hkey]
  split
  · rfl
  · cases b64Decode P c.hubKey with
    | none => rfl
    | some dec =>
        dsimp only
        split <;> rfl

/-- What is decoded once is what is decoded again. -/
theorem botKeyDecode_twice (c : BotState) :
    (botKeyDecode P (botKeyDecode P c).2).1 = (botKeyDecode P c).1 := by
  by_cases hraw : (!c.hubKeyRaw.all (· == 0)) = true
  · have hsame : (botKeyDecode P c).2 = c := by
      unfold botKeyDecode
      rw [if_pos hraw]
    rw [hsame]
  · cases hdec : b64Decode P c.hubKey with
    | none =>
        have hsame : (botKeyDecode P c).2 = c := by
          unfold botKeyDecode
          rw [if_neg hraw, hdec]
        rw [hsame]
    | some dec =>
        by_cases hlen : dec.length = hubKeyRawLen
        · have hkept : botKeyDecode P c = (some (halves dec), { c with hubKeyRaw := dec }) := by
            unfold botKeyDecode
            rw [if_neg hraw, hdec]
            dsimp only
            rw [if_pos hlen]
          rw [hkept]
          unfold botKeyDecode
          dsimp only
          split
          · rfl
          · rw [hdec]
            dsimp only
            rw [if_pos hlen]
        · have hsame : (botKeyDecode P c).2 = c := by
            unfold botKeyDecode
            rw [if_neg hraw, hdec]
            dsimp only
            rw [if_neg hlen]
          rw [hsame]

/-- The derived key depends on the identity alone. -/
theorem deriveSessionKey_congr {c c' : BotState} (huuid : c'.botUuid = c.botUuid)
    (hkeys : (botKeyDecode P c').1 = (botKeyDecode P c).1) (hubEph challenge : Str) :
    (deriveSessionKey P c' hubEph challenge).1 = (deriveSessionKey P c hubEph challenge).1 := by
  unfold deriveSessionKey
  dsimp only
  rw [hkeys, huuid]

/-! ### Changes that keep the invariant -/

variable {s : Session}

theorem keys_withLink (s : Session) (f : HubLink → HubLink) :
    (botKeyDecode P (s.withLink f).bot).1 = (botKeyDecode P s.bot).1 := botKeyDecode_congr rfl rfl

/-- Nothing of the handshake differs. -/
structure Same (P : Primitives) (s s' : Session) : Prop where
  uuid : s'.bot.botUuid = s.bot.botUuid
  keys : (botKeyDecode P s'.bot).1 = (botKeyDecode P s.bot).1
  sock : s'.sock = s.sock
  authenticated : s'.authenticated = s.authenticated
  authState : s'.authState = s.authState
  sessionKey : s'.sessionKey = s.sessionKey
  remotePub : s'.remotePub = s.remotePub
  linkNo : s'.linkNo = s.linkNo
  log : s'.log = s.log

theorem Inv.same (h : Inv P b s) {s' : Session} (hsame : Same P s s') : Inv P b s' where
  uuid := hsame.uuid.trans h.uuid
  keys := hsame.keys.trans h.keys
  closed hsock := by
    rw [hsame.authState, hsame.authenticated]
    exact h.closed (hsame.sock ▸ hsock)
  opened hsock := by
    rw [hsame.linkNo, hsame.remotePub, hsame.log]
    exact h.opened (hsame.sock ▸ hsock)
  key hstate := by
    rw [hsame.linkNo, hsame.log, hsame.sessionKey]
    exact h.key (hsame.authState ▸ hstate)
  auth hauth := by
    rw [hsame.linkNo, hsame.log]
    exact h.auth (hsame.authenticated ▸ hauth)
  preceded := hsame.log ▸ h.preceded
  fresh := by
    rw [hsame.log, hsame.linkNo]
    exact h.fresh
  once := by
    rw [hsame.log]
    exact h.once

/-- Something is logged. -/
theorem Inv.note (h : Inv P b s) {e : Event} (hneeds : needs P b e s.log)
    (hopened : ∀ link hub pin, e ≠ .opened link hub pin) : Inv P b (s.note e) := by
  have hmem {link : Nat} {hub : Str} {pin : Option Str}
      (hin : .opened link hub pin ∈ s.log ++ [e]) : .opened link hub pin ∈ s.log := by
    rcases List.mem_append.mp hin with hin | hin
    · exact hin
    · exact absurd (List.mem_singleton.mp hin).symm (hopened link hub pin)
  constructor
  · exact h.uuid
  · exact h.keys
  · exact h.closed
  · intro hsock
    obtain ⟨hub, hin⟩ := h.opened hsock
    exact ⟨hub, List.mem_append_left _ hin⟩
  · exact fun hstate => (h.key hstate).mono [e]
  · exact fun hauth => (h.auth hauth).mono [e]
  · exact h.preceded.concat hneeds
  · exact fun link hub pin hin => h.fresh link hub pin (hmem hin)
  · exact fun link hub pin hub' pin' hin hin' => h.once link hub pin hub' pin' (hmem hin) (hmem hin')

/-- The link is closed, and with it all that the handshake had. -/
theorem Inv.close (h : Inv P b s) {s' : Session} (huuid : s'.bot.botUuid = s.bot.botUuid)
    (hkeys : (botKeyDecode P s'.bot).1 = (botKeyDecode P s.bot).1) (hsock : s'.sock = false)
    (hstate : s'.authState = .none) (hauth : s'.authenticated = false)
    (hlink : s'.linkNo = s.linkNo) (hlog : s'.log = s.log) : Inv P b s' where
  uuid := huuid.trans h.uuid
  keys := hkeys.trans h.keys
  closed _ := ⟨hstate, hauth⟩
  opened hopen := by
    rw [hsock] at hopen
    cases hopen
  key hsent := by
    rw [hstate] at hsent
    cases hsent
  auth hall := by
    rw [hauth] at hall
    cases hall
  preceded := hlog ▸ h.preceded
  fresh := by
    rw [hlog, hlink]
    exact h.fresh
  once := by
    rw [hlog]
    exact h.once

theorem Inv.disconnect (h : Inv P b s) : Inv P b s.disconnect :=
  h.close rfl (botKeyDecode_congr rfl rfl) rfl rfl rfl rfl rfl

theorem Inv.dropLink (h : Inv P b s) : Inv P b s.dropLink :=
  h.close rfl (botKeyDecode_congr rfl rfl) rfl rfl rfl rfl rfl

/-- `send_raw` logs the bytes or closes the link; it keeps the rest. -/
theorem sendRaw_cases (s : Session) (data : Str) :
    s.sendRaw data = (false, s) ∨ s.sendRaw data = (false, s.disconnect) ∨
      ∃ left, s.sendRaw data =
        (true, (s.withLink fun l => { l with sendLeft := left }).note (.greeting s.linkNo data)) := by
  unfold Session.sendRaw
  split
  · exact .inl rfl
  · split
    · exact .inr (.inl rfl)
    · exact .inr (.inr ⟨_, rfl⟩)

/-- So does `send_frame`, and only on an authenticated link. -/
theorem sendFrame_cases (s : Session) (cmd : UInt8) (payload : Str) :
    (s.sendFrame cmd payload).2 = s ∨
      s.authenticated = true ∧ ((s.sendFrame cmd payload).2 =
          s.disconnect.note (.record s.linkNo cmd payload) ∨
        ∃ left out, (s.sendFrame cmd payload).2 = ({ s with bot := { s.bot with
          link := { s.bot.link with sendLeft := left }, hubOut := out } } : Session).note
            (.record s.linkNo cmd payload)) := by
  unfold Session.sendFrame IrcBot.sendFrame
  by_cases hguard : (!s.bot.link.authenticated || !s.bot.link.sock) = true
  · left
    rw [if_pos hguard]
    have hoff : (s.authenticated && s.sock) = false := by
      unfold Session.authenticated Session.sock
      rw [Bool.or_eq_true] at hguard
      rcases hguard with hguard | hguard
      · rw [Bool.not_eq_true'] at hguard
        rw [hguard, Bool.false_and]
      · rw [Bool.not_eq_true'] at hguard
        rw [hguard, Bool.and_false]
    dsimp only
    rw [hoff, Bool.false_and, if_neg Bool.false_ne_true]
  · rw [if_neg hguard]
    simp only [Bool.or_eq_true, Bool.not_eq_true', not_or, Bool.not_eq_false] at hguard
    by_cases hlen : maxBuffer - 64 < payload.length
    · left
      rw [if_pos hlen]
      dsimp only
      rw [decide_eq_false (Nat.not_le.mpr hlen), Bool.and_false, if_neg Bool.false_ne_true]
    · right
      refine ⟨hguard.1, ?_⟩
      have hsock : ¬ (!s.bot.link.sock) = true := by
        rw [hguard.2]
        decide
      have hon : (s.authenticated && s.sock && decide (payload.length ≤ maxBuffer - 64)) = true := by
        unfold Session.authenticated Session.sock
        rw [hguard.1, hguard.2, decide_eq_true (Nat.not_lt.mp hlen)]
        rfl
      rw [if_neg hlen]
      dsimp only
      rw [hon, if_pos rfl]
      unfold IrcBot.sendRaw
      rw [if_neg hsock]
      cases hleft : s.bot.link.sendLeft with
      | none => exact .inr ⟨_, _, rfl⟩
      | some n =>
          cases n with
          | zero => exact .inl rfl
          | succ n => exact .inr ⟨_, _, rfl⟩

theorem Inv.sendFrame (h : Inv P b s) (cmd : UInt8) (payload : Str) :
    Inv P b (s.sendFrame cmd payload).2 := by
  rcases sendFrame_cases s cmd payload with heq | ⟨hauth, heq | ⟨left, out, heq⟩⟩
  · rw [heq]
    exact h
  · rw [heq]
    exact h.disconnect.note (h.auth hauth) (by simp)
  · rw [heq]
    refine Inv.note (h.same ?_) (h.auth hauth) (by simp)
    exact ⟨rfl, botKeyDecode_congr rfl rfl, rfl, rfl, rfl, rfl, rfl, rfl, rfl⟩

theorem Inv.sendLeft (h : Inv P b s) (left : Option Nat) :
    Inv P b (s.withLink fun l => { l with sendLeft := left }) :=
  h.same ⟨rfl, botKeyDecode_congr rfl rfl, rfl, rfl, rfl, rfl, rfl, rfl, rfl⟩

/-- The link is set to its next state. The signature goes out once the key is derived. -/
theorem Inv.setState (h : Inv P b s) (hsock : s.sock = true) {state : HubAuthState}
    (hkey : state = .sentSignature → Challenged P b s.linkNo s.log s.sessionKey) :
    Inv P b (s.withLink fun l => { l with authState := state }) where
  uuid := h.uuid
  keys := (keys_withLink s _).trans h.keys
  closed hclosed := by
    have hopen : (s.withLink fun l => { l with authState := state }).sock = true := hsock
    rw [hopen] at hclosed
    cases hclosed
  opened := h.opened
  key := hkey
  auth := h.auth
  preceded := h.preceded
  fresh := h.fresh
  once := h.once

/-- A greeting that goes out, and the state after it. -/
theorem Inv.greet (h : Inv P b s) (data : Str) {state : HubAuthState}
    (hkey : state = .sentSignature → Challenged P b s.linkNo s.log s.sessionKey) :
    Inv P b (if (s.sendRaw data).1 then (s.sendRaw data).2.withLink fun l => { l with authState := state }
      else (s.sendRaw data).2) := by
  rcases sendRaw_cases s data with heq | heq | ⟨left, heq⟩
  · rw [heq]
    exact h
  · rw [heq]
    exact h.disconnect
  · have hsock : s.sock = true := by
      unfold Session.sendRaw at heq
      split at heq
      · cases heq
      · simpa using ‹¬ (!s.sock) = true›
    rw [heq]
    have hsent := (h.sendLeft left).note (e := .greeting s.linkNo data) trivial (by simp)
    exact hsent.setState hsock fun hstate => (hkey hstate).mono [.greeting s.linkNo data]

/-- A new link has a number that no link had. -/
theorem Inv.openLink (h : Inv P b s) (hub pin : Str) (hpin : s.remotePub = some pin)
    (budget : Option Nat) : Inv P b (openLink s hub pin budget) where
  uuid := h.uuid
  keys := by
    rw [← h.keys]
    exact botKeyDecode_congr rfl rfl
  closed hclosed := Bool.noConfusion hclosed
  opened _ := by
    show ∃ hub', .opened (s.linkNo + 1) hub' s.remotePub ∈ s.log ++ _
    rw [hpin]
    exact ⟨hub, List.mem_append_right _ List.mem_cons_self⟩
  key hsent := HubAuthState.noConfusion hsent
  auth hall := Bool.noConfusion hall
  preceded := h.preceded.concat trivial
  fresh link hub' pin' hin := by
    rcases List.mem_append.mp hin with hin | hin
    · exact Nat.le_succ_of_le (h.fresh link hub' pin' hin)
    · have heq := List.mem_singleton.mp hin
      cases heq
      exact Nat.le_refl _
  once link hub' pin' hub'' pin'' hin hin' := by
    rcases List.mem_append.mp hin with hin | hin <;> rcases List.mem_append.mp hin' with hin' | hin'
    · exact h.once link hub' pin' hub'' pin'' hin hin'
    · have heq := List.mem_singleton.mp hin'
      cases heq
      exact absurd (h.fresh _ _ _ hin) (Nat.not_succ_le_self _)
    · have heq := List.mem_singleton.mp hin
      cases heq
      exact absurd (h.fresh _ _ _ hin') (Nat.not_succ_le_self _)
    · have heq := List.mem_singleton.mp hin
      have heq' := List.mem_singleton.mp hin'
      cases heq
      cases heq'
      exact ⟨rfl, rfl⟩

theorem Inv.sendUuid (h : Inv P b s) : Inv P b (sendUuid s) := by
  have hstate : HubAuthState.sentUuid = .sentSignature →
      Challenged P b s.linkNo s.log s.sessionKey := HubAuthState.noConfusion
  exact (h.greet (frame s.bot.botUuid) hstate).same ⟨rfl, keys_withLink _ _, rfl, rfl, rfl, rfl,
    rfl, rfl, rfl⟩

theorem Inv.connect (h : Inv P b s) (idx : Nat) (reached : Bool) (budget : Option Nat) :
    Inv P b (connect s idx reached budget) := by
  unfold HubSession.connect
  dsimp only
  split
  · exact h
  · rename_i hguard
    have hsock : s.sock = false := by
      simp only [Bool.or_eq_true, not_or, Bool.not_eq_true] at hguard
      exact hguard.1.2
    obtain ⟨hstate, hauth⟩ := h.closed hsock
    split
    · exact h.same ⟨rfl, keys_withLink _ _, rfl, rfl, rfl, rfl, rfl, rfl, rfl⟩
    · split
      · exact h
      · split
        · exact h.close rfl (botKeyDecode_congr rfl rfl) hsock hstate hauth rfl rfl
        · rename_i pin hpin
          split
          · exact h.close rfl (botKeyDecode_congr rfl rfl) hsock hstate hauth rfl rfl
          · refine (Inv.openLink (Inv.close h ?_ ?_ ?_ ?_ ?_ ?_ ?_) _ pin rfl budget).sendUuid
            · rfl
            · exact botKeyDecode_congr rfl rfl
            · exact hsock
            · exact hstate
            · exact hauth
            · rfl
            · rfl

/-- Decoding the identity key keeps it. -/
theorem Inv.decoded (h : Inv P b s) : Inv P b { s with bot := (botKeyDecode P s.bot).2 } := by
  have hkeys := botKeyDecode_twice (P := P) s.bot
  obtain ⟨raw, hraw⟩ := botKeyDecode_eq P s.bot
  rw [hraw] at hkeys ⊢
  exact h.same ⟨rfl, hkeys, rfl, rfl, rfl, rfl, rfl, rfl, rfl⟩

theorem sessionKey_decoded (s : Session) :
    ({ s with bot := (botKeyDecode P s.bot).2 } : Session).sessionKey = s.sessionKey := by
  obtain ⟨raw, hraw⟩ := botKeyDecode_eq P s.bot
  rw [hraw]
  rfl

theorem Inv.perform (h : Inv P b s) (o : Op) : Inv P b (perform P s o) := by
  cases o with
  | send cmd payload => exact h.sendFrame cmd payload
  | disconnect => exact h.disconnect
  | dropLink => exact h.dropLink
  | connect idx reached budget => exact h.connect idx reached budget
  | decodeKey =>
      exact h.decoded
  | other bot edPubs =>
      exact h.same ⟨rfl, botKeyDecode_congr rfl rfl, rfl, rfl, rfl, rfl, rfl, rfl, rfl⟩

theorem Inv.performAll (ops : List Op) : ∀ {s : Session}, Inv P b s →
    Inv P b (ops.foldl (HubSession.perform P) s) := by
  induction ops with
  | nil => exact fun h => h
  | cons o ops ih => exact fun h => ih (h.perform o)

/-! ### Packets -/

/-- A key is derived. -/
theorem Inv.setKey (h : Inv P b s) {key : Str} (hkey : Challenged P b s.linkNo s.log key) :
    Inv P b (s.withLink fun l => { l with sessionKey := key }) where
  uuid := h.uuid
  keys := (keys_withLink s _).trans h.keys
  closed := h.closed
  opened := h.opened
  key _ := hkey
  auth := h.auth
  preceded := h.preceded
  fresh := h.fresh
  once := h.once

variable (ed25519Sign : Str → Str → Str)

/-- A challenge that came on the link. -/
theorem Inv.handleChallenge (h : Inv P b s) (hsock : s.sock = true) (body : Str) :
    Inv P b (handleChallenge P ed25519Sign (s.note (.packet s.linkNo body)) body) := by
  have hpacket : Inv P b (s.note (.packet s.linkNo body)) := h.note trivial (by simp)
  obtain ⟨hub, hopened⟩ := h.opened hsock
  unfold HubSession.handleChallenge
  dsimp only
  split
  · exact hpacket.disconnect
  · rename_i hlen
    split
    · exact hpacket.disconnect
    · rename_i pin hpin
      split
      · exact hpacket.disconnect
      · rename_i hverify
        have hderived : Inv P b { s.note (.packet s.linkNo body) with
            bot := (deriveSessionKey P s.bot ((body.drop 32).take 32) (body.take 32)).2 } :=
          hpacket.decoded
        split
        · exact hderived.disconnect
        · rename_i key hkey
          have hpin' : s.remotePub = some pin := hpin
          rw [hpin'] at hopened
          have hchallenged : Challenged P b s.linkNo (s.log ++ [.packet s.linkNo body]) key := by
            refine ⟨s.log, body, [], hub, pin, rfl, hopened, not_not.mp hlen, ?_, ?_⟩
            · rw [← h.uuid]
              rw [Bool.not_eq_true', Bool.not_eq_false] at hverify
              exact hverify
            · rw [← deriveSessionKey_congr h.uuid h.keys]
              exact hkey
          have hset := (hderived.setKey hchallenged).decoded
          split
          · exact hset.disconnect
          · rename_i sig hsig
            refine hset.greet (frame sig) fun _ => ?_
            rw [sessionKey_decoded]
            exact hchallenged

variable (R : Rest)

/-- The acknowledgement that came on the link. -/
theorem Inv.handleAck (h : Inv P b s) (hstate : s.authState = .sentSignature) (body : Str) :
    Inv P b (handleAck P R (s.note (.packet s.linkNo body)) body) := by
  have hpacket : Inv P b (s.note (.packet s.linkNo body)) := h.note trivial (by simp)
  unfold HubSession.handleAck
  dsimp only
  split
  · exact hpacket.disconnect
  · split
    · exact hpacket.disconnect
    · rename_i hack
      have hproven : Proven P b s.linkNo (s.log ++ [.packet s.linkNo body]) :=
        ⟨s.log, body, [], s.sessionKey, rfl, h.key hstate, not_not.mp hack⟩
      refine Inv.performAll _ ?_
      constructor
      · exact hpacket.uuid
      · exact (keys_withLink _ _).trans hpacket.keys
      · intro hclosed
        have hoff := (h.closed hclosed).1
        rw [hstate] at hoff
        cases hoff
      · exact hpacket.opened
      · exact fun hsent => HubAuthState.noConfusion hsent
      · exact fun _ => hproven
      · exact hpacket.preceded
      · exact hpacket.fresh
      · exact hpacket.once

theorem Inv.handlePlain (h : Inv P b s) (hauth : s.authenticated = true) (plain : Str) :
    Inv P b (handlePlain P R s plain) := by
  unfold HubSession.handlePlain
  dsimp only
  split
  · unfold answerPing
    dsimp only
    split
    · split
      · exact (h.sendFrame cmdPing []).same
          ⟨rfl, keys_withLink _ _, rfl, rfl, rfl, rfl, rfl, rfl, rfl⟩
      · exact h.sendFrame cmdPing []
    · exact h
  · split
    · exact h
    · exact Inv.performAll _ (h.note (h.auth hauth) (by simp))

/-- **One packet** that came on the link. -/
theorem Inv.processPacket (h : Inv P b s) (hsock : s.sock = true) (body : Str) :
    Inv P b (processPacket P ed25519Sign R (s.note (.packet s.linkNo body)) body) := by
  have hpacket : Inv P b (s.note (.packet s.linkNo body)) := h.note trivial (by simp)
  unfold HubSession.processPacket
  dsimp only
  split
  · split
    · exact h.handleChallenge ed25519Sign hsock body
    · rename_i hstate
      exact h.handleAck R hstate body
    · exact hpacket
  · rename_i hauth
    have hactive : Inv P b ((s.note (.packet s.linkNo body)).withLink fun l =>
        { l with lastActivity := s.bot.now }) :=
      hpacket.same ⟨rfl, keys_withLink _ _, rfl, rfl, rfl, rfl, rfl, rfl, rfl⟩
    split
    · exact hactive
    · split
      · exact hactive.disconnect
      · refine hactive.handlePlain R ?_ _
        rw [Bool.not_eq_true', Bool.not_eq_false] at hauth
        exact hauth

theorem Inv.takePackets (token fuel : Nat) : ∀ {s : Session}, Inv P b s →
    Inv P b (takePackets P ed25519Sign R token fuel s).2 := by
  induction fuel with
  | zero => exact fun h => h
  | succ fuel ih =>
      intro s h
      unfold HubSession.takePackets
      split
      · exact h
      · rename_i hguard
        simp only [Bool.or_eq_true, not_or, Bool.not_eq_true', Bool.not_eq_false,
          decide_eq_true_eq, not_not] at hguard
        obtain ⟨hsock, rfl⟩ := hguard
        split
        · exact h
        · exact h.disconnect
        · rename_i body rest hnext
          have hrest : Inv P b { s with rbuf := rest } :=
            h.same ⟨rfl, rfl, rfl, rfl, rfl, rfl, rfl, rfl, rfl⟩
          exact ih (hrest.processPacket ed25519Sign R hsock body)

/-- **One step.** -/
theorem Inv.step (h : Inv P b s) (x : Step) : Inv P b (step P ed25519Sign R s x) := by
  cases x with
  | op o => exact h.perform o
  | read token data eof =>
      unfold HubSession.step handleEvent
      dsimp only
      split
      · exact h
      · have hread : Inv P b { s with rbuf := s.rbuf ++ data } :=
          h.same ⟨rfl, rfl, rfl, rfl, rfl, rfl, rfl, rfl, rfl⟩
        have htaken := hread.takePackets ed25519Sign R token (s.rbuf ++ data).length
        split
        · exact htaken.disconnect
        · exact htaken

theorem inv_start (P : Primitives) (b : BotState) (edPubs : List (Option Str)) :
    Inv P b (start b edPubs) where
  uuid := rfl
  keys := botKeyDecode_congr rfl rfl
  closed _ := ⟨rfl, rfl⟩
  opened hsock := Bool.noConfusion hsock
  key hstate := HubAuthState.noConfusion hstate
  auth hauth := Bool.noConfusion hauth
  preceded := preceded_nil
  fresh _ _ _ hin := absurd hin List.not_mem_nil
  once _ _ _ _ _ hin := absurd hin List.not_mem_nil

theorem inv_run (P : Primitives) (b : BotState) (edPubs : List (Option Str)) (steps : List Step) :
    Inv P b (run P ed25519Sign R b edPubs steps) := by
  have hsteps : ∀ {s : Session}, Inv P b s → Inv P b (steps.foldl (step P ed25519Sign R) s) := by
    induction steps with
    | nil => exact fun h => h
    | cons x steps ih => exact fun h => ih (h.step ed25519Sign R x)
  exact hsteps (inv_start P b edPubs)

end

/-- **The handshake is safe**: in every run the link is authenticated only if, after it was
opened, a challenge was verified on it and an acknowledgement opened under the key derived from
this challenge; each command that is dispatched and each record that is sent has this before
it; and a link is opened to one hub, with one pinned key. -/
theorem handshake_safe (P : Primitives) (ed25519Sign : Str → Str → Str) (R : Rest) (b : BotState)
    (edPubs : List (Option Str)) (steps : List Step) :
    ((run P ed25519Sign R b edPubs steps).authenticated = true →
        Proven P b (run P ed25519Sign R b edPubs steps).linkNo
          (run P ed25519Sign R b edPubs steps).log) ∧
      (∀ before link cmd payload after, (run P ed25519Sign R b edPubs steps).log =
        before ++ .command link cmd payload :: after → Proven P b link before) ∧
      (∀ before link cmd payload after, (run P ed25519Sign R b edPubs steps).log =
        before ++ .record link cmd payload :: after → Proven P b link before) ∧
      ∀ link hub pin hub' pin', .opened link hub pin ∈ (run P ed25519Sign R b edPubs steps).log →
        .opened link hub' pin' ∈ (run P ed25519Sign R b edPubs steps).log →
          hub = hub' ∧ pin = pin' := by
  have h := inv_run ed25519Sign R P b edPubs steps
  refine ⟨h.auth, ?_, ?_, h.once⟩
  · exact fun before link cmd payload after hlog => h.preceded before _ after hlog
  · exact fun before link cmd payload after hlog => h.preceded before _ after hlog

/-- A bot that dials a hub, and is answered with what the clear primitives take. -/
def dialling : BotState :=
  { now := 100, hubs := [str "hub:1"], hubKey := List.replicate combinedKeyB64 (byte 'A')
    botUuid := str "01234567-0123-0123-0123-0123456789ab" }

example : (run .clear (fun _ _ => [0]) ⟨fun _ _ _ => [], fun _ => [.send cmdConfigPush (str "v|2")]⟩
    dialling [some (str "pin")] [.op (.connect 0 true none),
      .read 1 (frame (List.replicate 128 7)) false,
      .read 1 (frame (List.replicate gcmIvLen 0 ++ [1] ++ List.replicate gcmTagLen 0)) false]).log.getLast?
        matches some (.record 1 _ _) := by
  decide +kernel

end IrcBot.HubSession
