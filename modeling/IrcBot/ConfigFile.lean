/-
# The config file (`config.rs`)

The state is one text, a record a line, which is encrypted under the password. `load` reads what
`serialize` writes and what older versions wrote: their records are migrated, and the file is
rewritten once.

The paths of the file system and the draws of random bytes are arguments.
-/
import IrcBot.BotAuth
import IrcBot.ChanRecord
import IrcBot.Envelope
import IrcBot.Lib.AtomicFile
import IrcBot.Lib.Words

namespace IrcBot.ConfigFile

open Cstr Crypto Chancfg Config Envelope ChanRecord BotAuth

/-! ### State -/

/-- A configured hub and its pinned Ed25519 key. -/
structure HubEntry where
  addr : Str := []
  edPub : Option Str := none
deriving DecidableEq, Repr

/-- The state, with what the file has of it and the model of the rest of the bot does not read. -/
structure FileState extends BotState where
  user : Str := []
  gecos : Str := []
  vhost : Str := []
  /-- `hubs`; the addresses by themselves are those of the rest of the model. -/
  hubEntries : List HubEntry := []
  hubRemoteEdPub : Option Str := none
  logLevel : UInt32 := defaultLogLevel
  logMaxSize : Nat := botLogFileSize

/-- A file that is being loaded. -/
structure Loading extends FileState where
  legacyUserLines : Nat := 0
  droppedBotpass : Bool := false

/-- What is drawn while the file is loaded: uuids for records that have none, an identity key, a
uuid for the bot. -/
structure Draws where
  uuids : Nat → Option Str
  keypair : Option Str
  botUuid : Option Str

section

variable (P : Primitives)

/-! ### Writing -/

def hubLine (h : HubEntry) : Str :=
  match h.edPub with
  | some k => str "h|" ++ h.addr ++ str "|" ++ P.b64Encode k ++ str "\n"
  | none => str "h|" ++ h.addr ++ str "\n"

/-- A line, unless there are too many bytes in it. -/
def within (limit : Nat) (line : Str) : Option Str :=
  if line.length < limit then some line else none

/-- The lines of `serialize`, in their order. -/
def lines (s : FileState) : Option (List Str) := do
  let settings ← s.chans.mapM formatCLine
  let defaults ← formatDLine s.toBotState
  let bans ← s.cfgBans.mapM formatBLine
  let users ← s.userRecords.mapM fun u => within cfgUserLineMax (formatUserLine u)
  let bots ← s.trustedBots.mapM fun tb => within cfgBlineMax (formatBotLine P tb)
  some ([str "n|" ++ s.targetNick ++ str "\n"]
    ++ s.serverList.map (fun server => str "s|" ++ server ++ str "\n")
    ++ s.chans.filterMap cfgChanLine
    ++ settings ++ [defaults] ++ bans ++ users ++ s.maskRecords.map formatMaskLine ++ bots
    ++ (if s.logLevel ≠ defaultLogLevel then
        [str "l|" ++ dec (toI32 s.logLevel.toNat) ++ str "\n"] else [])
    ++ (if s.logMaxSize ≠ botLogFileSize then [str "L|" ++ decNat s.logMaxSize ++ str "\n"] else [])
    ++ [str "u|" ++ s.user ++ str "\n", str "g|" ++ s.gecos ++ str "\n"]
    ++ (if s.vhost.isEmpty then [] else [str "v|" ++ s.vhost ++ str "\n"])
    ++ s.hubEntries.map (hubLine P)
    ++ (if s.hubKey.isEmpty then [] else [str "k|" ++ s.hubKey ++ str "\n"])
    ++ (if s.botUuid.isEmpty then [] else [str "i|" ++ s.botUuid ++ str "\n"])
    ++ (if !s.optFlags.isEmpty || 0 < s.optFlagsTs then
        [str "O|" ++ s.optFlags ++ str "|" ++ dec s.optFlagsTs ++ str "\n"] else [])
    ++ (if s.adminDeltaPending then [str "D|1\n"] else []))

/-- `serialize`: none where the text is too long. -/
def serialize (s : FileState) : Option Str :=
  (lines P s).bind fun ls => within maxConfigSize ls.flatten

/-! ### Reading a record -/

/-- `trim().parse::<u64>()`. -/
def parseTrimmedU64 (s : Str) : Option Nat :=
  let white (cs : List Str) : List Str := cs.dropWhile Lib.isWhitespace
  let s := (white (white (Lib.chars s)).reverse).reverse.flatten
  let digits := if s.head? = some (byte '+') then s.drop 1 else s
  if digits.isEmpty || !digits.all isDigit then none
  else if number digits < 2 ^ 64 then some (number digits) else none

/-- A stamp that a record of an old form has, or now. -/
def stampOr (now : Int) (ts : Int) : Int := if 0 < ts then ts else now

/-- The `a|` and `o|` records of before there were uuids: their password is never copied. -/
def loadOldUser (s : Loading) (typ : UInt8) (f : List Str) : Loading :=
  let stamp (i : Nat) : Int := stampOr s.now ((f[i]?).elim 0 atoll)
  let keep (u : UserRecord) : Loading :=
    { s with userRecords := s.userRecords ++ [u], legacyUserLines := s.legacyUserLines + 1 }
  if typ = byte 'a' then
    keep { typ, uuid := str "MIGRATE", isActive := true, timestamp := stamp 1 }
  else
    let mask := f.headD []
    if f.length < 3 || mask.isEmpty || maxMaskLen ≤ mask.length then s
    else
      keep { typ, uuid := str "MIGRATE_O", name := mask, isActive := f[2]? != some (str "del")
             timestamp := stamp 3 }

def loadUserLine (s : Loading) (typ : UInt8) (data : Str) : Loading :=
  if maxUserRecords ≤ s.userRecords.length then s
  else
    let f := splitFields data 5
    if isUuid (f.headD []) then
      match parseUserLine P data with
      | none => s
      | some ul =>
          { s with
            userRecords := s.userRecords ++ [{
              uuid := ul.uuid, name := ul.name, pubkeyB64 := ul.pubkeyB64, hasPubkey := ul.hasPubkey
              typ, isActive := ul.isActive, lastSeen := ul.lastSeen, timestamp := ul.timestamp }]
            legacyUserLines := s.legacyUserLines + (if ul.legacy then 1 else 0) }
    else loadOldUser s typ f

/-- `load_mask_line`: with a uuid, or of before there were uuids. -/
def loadMaskLine (s : Loading) (data : Str) : Loading :=
  if maxUserMasks ≤ s.maskRecords.length then s
  else if hasUuidDashes (HubSync.maskLineUuid data) then
    match splitPipes 5 data with
    | [uuid, mask, op, lastUsed, ts] =>
        { s with maskRecords := s.maskRecords ++ [{
            uuid := trunc uuid uuidBuf, mask := trunc mask maxMaskLen
            isActive := (str "add").isPrefixOf op, lastUsed := atoll lastUsed,
            timestamp := atoll ts }] }
    | _ => s
  else
    match sscanf data [.set 255 [byte '|'], .lit [byte '|'], .set 15 [byte '|'], .lit [byte '|'], .int] with
    | mask :: op :: rest =>
        { s with maskRecords := s.maskRecords ++ [{
            uuid := str "MIGRATE", mask := mask.str, isActive := op.str != str "del"
            timestamp := stampOr s.now ((rest.head?.map (·.int)).getD 0) }] }
    | _ => s

/-- `load_hub_line`: the pin is 32 bytes, or the first 32 of 64. -/
def loadHubLine (s : Loading) (data : Str) : Loading :=
  if maxServers ≤ s.hubEntries.length then s
  else
    let entry : HubEntry :=
      match splitOnce (byte '|') data with
      | none => { addr := trunc data 256 }
      | some (addr, key) =>
          { addr := trunc addr 256
            edPub := ((b64Decode P key).filter fun k =>
              k.length == 32 || k.length == hubKeyRawLen).map (·.take 32) }
    { s with hubEntries := s.hubEntries ++ [entry], hubs := s.hubs ++ [entry.addr] }

/-- The body of the loop of `load`. -/
def loadRecord (s : Loading) (typ : UInt8) (data : Str) : Loading :=
  if typ = byte 'n' then { s with targetNick := trunc data maxNick }
  else if typ = byte 's' then
    if s.serverList.length < maxServers then { s with serverList := s.serverList ++ [data] } else s
  else if typ = byte 'c' then { s with toBotState := loadChanLine s.toBotState data }
  else if typ = byte 'C' then { s with toBotState := (applyCLine s.toBotState data).2 }
  else if typ = byte 'B' then { s with toBotState := (applyBLine s.toBotState data).2 }
  else if typ = byte 'm' then loadMaskLine s data
  else if typ = byte 'a' ∨ typ = byte 'o' then loadUserLine P s typ data
  else if typ = byte 'p' then { s with droppedBotpass := true }
  else if typ = byte 'b' then
    if s.trustedBots.length < maxTrustedBots then
      match parseBotLine P data with
      | some tb => { s with trustedBots := s.trustedBots ++ [tb] }
      | none => s
    else s
  else if typ = byte 'l' then { s with logLevel := UInt32.ofInt (atoi data) }
  else if typ = byte 'L' then
    { s with logMaxSize := max botLogSizeMin (min ((parseTrimmedU64 data).getD 0) botLogSizeMax) }
  else if typ = byte 'u' then { s with user := trunc data 64 }
  else if typ = byte 'g' then { s with gecos := trunc data 128 }
  else if typ = byte 'v' then { s with vhost := trunc data 128 }
  else if typ = byte 'h' then loadHubLine P s data
  else if typ = byte 'k' then
    match (b64Decode P data).filter (·.length == hubKeyRawLen) with
    | some raw => { s with hubKey := trunc data maxHubKeySize, hubKeyRaw := raw }
    | none => s
  else if typ = byte 'j' then
    match (b64Decode P data).filter (·.length == 32) with
    | some k => { s with hubRemoteEdPub := some k }
    | none => s
  else if typ = byte 'i' then { s with botUuid := trunc data 64 }
  else if typ = byte 'D' then
    -- the two records under this letter never have the same shape
    if data.contains (byte '|') then { s with toBotState := (applyDLine s.toBotState data).2 }
    else { s with adminDeltaPending := data == str "1" }
  else if typ = byte 'O' then
    match parseOptLine data with
    | some (flags, ts) => { s with optFlags := flags, optFlagsTs := stampOr s.now ts }
    | none => s
  else s

/-- One line of the text. -/
def loadLine (s : Loading) (raw : Str) : Loading :=
  match untilNul (stripCr raw) with
  | typ :: sep :: data => if typ ≠ byte '#' ∧ sep = byte '|' then loadRecord P s typ data else s
  | _ => s

/-! ### Older records -/

/-- The nick of the mask that was an oper, or a number. -/
def oldName (mask : Str) (i : Nat) : Str :=
  match splitOnce (byte '!') mask with
  | some (nick, _) => trunc nick userNameBuf
  | none => str "oper" ++ decNat i

/-- The first name that none of the users has: as it is, or with a number behind it. -/
def freeName (users : List UserRecord) (derived : Str) : Str :=
  let numbered := (List.range (users.length + 1)).map fun i =>
    trunc derived (userNameBuf - 11) ++ str "_" ++ decNat (i + 2)
  ((derived :: numbered).find? fun name => users.all (·.name ≠ name)).getD derived

/-- One record of an oper that was a mask, with what has been migrated so far. -/
def migrateOper (now : Int) (r : List UserRecord × List MaskRecord) (u : UserRecord) (i : Nat)
    (uuid : Str) : List UserRecord × List MaskRecord :=
  let timestamp := if u.timestamp ≠ 0 then u.timestamp else now
  (r.1 ++ [{ uuid, name := freeName r.1 (oldName u.name i), typ := byte 'o', isActive := u.isActive
             timestamp }],
    if r.2.length < maxUserMasks then
      r.2 ++ [{ uuid, mask := trunc u.name maxMaskLen, isActive := u.isActive, timestamp }]
    else r.2)

/-- The loop over the opers; `k` uuids have been drawn. -/
def migrateOpers (now : Int) (uuids : Nat → Option Str) :
    Nat → List (UserRecord × Nat) → List UserRecord × List MaskRecord →
      List UserRecord × List MaskRecord
  | _, [], r => r
  | k, (u, i) :: us, r =>
      if u.uuid ≠ str "MIGRATE_O" ∨ maxUserRecords ≤ r.1.length then migrateOpers now uuids k us r
      else migrateOpers now uuids (k + 1) us (migrateOper now r u i ((uuids k).getD []))

/-- `migrate_legacy_records`. -/
def migrateLegacyRecords (uuids : Nat → Option Str) (s : Loading) : Loading :=
  let adminUuid := (uuids 0).getD []
  let admins : List UserRecord :=
    match s.userRecords.find? fun u => u.uuid == str "MIGRATE" && u.typ == byte 'a' with
    | some u => [{ uuid := adminUuid, name := str "admin", typ := byte 'a', isActive := true
                   timestamp := if u.timestamp ≠ 0 then u.timestamp else s.now }]
    | none => []
  let masks := ((s.maskRecords.filter (·.uuid == str "MIGRATE")).take maxUserMasks).map fun m =>
    { m with uuid := adminUuid, lastUsed := 0, actPending := 0 }
  let r := migrateOpers s.now uuids 1 s.userRecords.zipIdx (admins, masks)
  { s with
    userRecords := r.1 ++ (s.userRecords.filter fun u => !(str "MIGRATE").isPrefixOf u.uuid).take
      (maxUserRecords - r.1.length)
    maskRecords := r.2 ++ (s.maskRecords.filter (·.uuid != str "MIGRATE")).take
      (maxUserMasks - r.2.length) }

/-! ### Loading -/

/-- `self_pub_refresh`. -/
def selfPubRefresh (b : BotState) : BotState :=
  let b := { b with selfPubSet := false, selfPub := List.replicate hubKeyRawLen 0 }
  if b.hubKey.isEmpty && b.hubKeyRaw.all (· == 0) then b
  else
    match botKeyDecode P b with
    | (some (ed, x), b) => { b with selfPub := P.ed25519Public ed ++ P.x25519Public x, selfPubSet := true }
    | (none, b) => b

/-- A state that was loaded, whether it can be run with, and whether the file is rewritten. -/
structure Loaded where
  state : FileState
  ok : Bool
  rewrite : Bool

/-- What is missing in the text and made here. -/
def mint (d : Draws) (s : FileState) : FileState × Bool :=
  let (s, minted) :=
    if s.hubKey.isEmpty && s.hubEntries.isEmpty then
      match d.keypair with
      | some k => ({ s with hubKey := P.b64Encode k, hubKeyRaw := k }, true)
      | none => (s, false)
    else (s, false)
  if s.botUuid.isEmpty && s.hubEntries.isEmpty then
    match d.botUuid with
    | some u => ({ s with botUuid := u }, true)
    | none => (s, minted)
  else (s, minted)

/-- `load`, from the text on. -/
def loadText (d : Draws) (readOnly migrated : Bool) (text : Str) (s : FileState) : Loaded :=
  let l := (splitOn (byte '\n') text).foldl (loadLine P) { toFileState := s }
  let l := match l.hubRemoteEdPub with
    | some k => { l with hubEntries := l.hubEntries.map fun h => { h with edPub := h.edPub.or (some k) } }
    | none => l
  let migrates := l.userRecords.any (fun u => (str "MIGRATE").isPrefixOf u.uuid) ||
    l.maskRecords.any (·.uuid == str "MIGRATE")
  let l := if migrates then migrateLegacyRecords d.uuids l else l
  let (s, minted) := mint P d l.toFileState
  let s := { s with toBotState := selfPubRefresh P s.toBotState }
  { state := s
    ok := !s.targetNick.isEmpty && !s.serverList.isEmpty && !s.user.isEmpty
    rewrite := !readOnly &&
      (migrates || migrated || 0 < l.legacyUserLines || l.droppedBotpass || minted) }

end

/-! ### The file -/

/-- The tools, and PBKDF2-HMAC-SHA256 of a password and a salt, to 32 bytes. -/
structure FileTools extends Tools where
  pbkdf2 : Str → Str → Nat → Str

section

variable (T : FileTools)

/-- `derive_config_key`. -/
def deriveConfigKey (password salt : Str) : Str := T.pbkdf2 password salt pbkdf2Iterations

/-- `legacy_config_key`. -/
def legacyConfigKey (password salt : Str) : Str := T.sha256 (password ++ salt.take 8)

/-- `decrypt_file`, from its bytes on: the plaintext, and whether it was under the legacy key. -/
def decryptFile (password data : Str) : Option (Str × Bool) :=
  if data.length < saltSize + gcmIvLen + gcmTagLen then none
  else
    let salt := data.take saltSize
    let iv := (data.drop saltSize).take gcmIvLen
    let tag := (data.drop (saltSize + gcmIvLen)).take gcmTagLen
    let ct := data.drop (saltSize + gcmIvLen + gcmTagLen)
    if ct.isEmpty || maxConfigSize < ct.length then none
    else
      match T.gcmDecrypt (deriveConfigKey T password salt) iv [] ct tag with
      | some pt => some (pt, false)
      | none =>
          (T.gcmDecrypt (legacyConfigKey T password salt) iv [] ct tag).map fun pt => (pt, true)

/-- `load`: none where there is no file, or it cannot be decrypted. -/
def load (d : Draws) (readOnly : Bool) (password : Str) (file : Option Str) (s : FileState) :
    Option Loaded :=
  (file.bind (decryptFile T password)).map fun (pt, migrated) =>
    loadText T.toPrimitives d readOnly migrated (fromUtf8Lossy pt) s

/-- What becomes of the file. -/
inductive Plan where
  | keep
  | remove
  /-- The temporary file is written, chunk by chunk, and renamed. -/
  | replace (chunks : List Str)
deriving DecidableEq, Repr

/-- `write_file`, with the salt and the iv that were drawn. -/
def writeFile (password : Str) (salt iv : Option Str) (s : FileState) : Plan :=
  if maxPass ≤ password.length then .keep
  else
    match serialize T.toPrimitives s with
    | none => .keep
    | some plaintext =>
        if plaintext.isEmpty then .remove
        else
          match salt, iv with
          | some salt, some iv =>
              match T.gcmEncrypt (deriveConfigKey T password salt) iv [] plaintext with
              | some (ct, tag) => .replace [salt, iv, tag, ct]
              | none => .keep
          | _, _ => .keep

end

end IrcBot.ConfigFile
