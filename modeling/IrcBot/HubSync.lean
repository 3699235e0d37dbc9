/-
# Config data from the hub (`hub_client.rs`)

`processConfigData` takes a payload of record lines: users and masks are replaced
as tables when the payload carries any, everything else is merged record by
record under last-writer-wins. Nothing of it is echoed back.

* `sameButChannels_syncChannelLine` and its siblings — what each kind of line can
  change.
* `trustedBots_syncRecord` — the table that only lines of its own kind write.
-/
import IrcBot.HubPush

namespace IrcBot.HubSync

open Cstr Chancfg Config HubPush

/-! ### Channels -/

/-- A `c|` record from the hub. -/
structure HubChan where
  chan : Str := []
  key : Str := []
  modes : Int := 0
  op : Str := []
  ts : Int := 0
deriving DecidableEq, Repr

/-- A variable of the chained `sscanf` calls: the new conversion, or what an
earlier call left in it. -/
def carry (r : List Conv) (i : Nat) (old : Str) : Str := (r[i]?.map Conv.str).getD old

def carryInt (r : List Conv) (i : Nat) (old : Int) : Int := (r[i]?.map Conv.int).getD old

/-- `parse_hub_chan`: `chan|key|modes|op|ts`, `chan||modes|op|ts`, or the older
`chan|key|op|ts` and `chan||op|ts`. -/
def parseHubChan (data : Str) : Option HubChan :=
  let p := [byte '|']
  let pp := [byte '|', byte '|']
  let r := sscanf data [.set 64 p, .lit p, .set 30 p, .lit p, .int, .lit p, .set 7 p, .lit p, .int]
  let v : HubChan :=
    { chan := carry r 0 [], key := carry r 1 [], modes := carryInt r 2 0, op := carry r 3 []
      ts := carryInt r 4 0 }
  if 5 ≤ r.length then some v
  else
    let r := sscanf data [.set 64 p, .lit pp, .int, .lit p, .set 7 p, .lit p, .int]
    let v : HubChan :=
      { chan := carry r 0 v.chan, key := v.key, modes := carryInt r 1 0, op := carry r 2 v.op
        ts := carryInt r 3 v.ts }
    if 4 ≤ r.length then some { v with key := [] }
    else
      let r := sscanf data [.set 64 p, .lit p, .set 30 p, .lit p, .set 7 p, .lit p, .int]
      let v : HubChan :=
        { chan := carry r 0 v.chan, key := carry r 1 v.key, modes := 0, op := carry r 2 v.op
          ts := carryInt r 3 v.ts }
      if 3 ≤ r.length then some v
      else
        let r := sscanf data [.set 64 p, .lit pp, .set 7 p, .lit p, .int]
        let v : HubChan :=
          { chan := carry r 0 v.chan, key := [], modes := 0, op := carry r 1 v.op
            ts := carryInt r 2 v.ts }
        if 3 ≤ r.length then some v else none

/-- The fields a `c|` record writes. -/
def HubChan.store (p : HubChan) (c : Chan) : Chan :=
  { c with
    key := if p.key.isEmpty then c.key else trunc p.key maxKey
    modes := UInt32.ofInt (toI32 p.modes)
    isManaged := p.op == str "add", timestamp := p.ts }

/-- Part or join, after a synced record has changed whether the channel is
managed. -/
def followSync (b : BotState) (ci : Nat) (p : HubChan) (wasManaged : Bool) : BotState :=
  let isAdd := p.op == str "add"
  match b.chans[ci]? with
  | none => b
  | some c =>
      let b :=
        if wasManaged && !isAdd && c.status == .inside then
          withChan (ircPrintf b (str "PART " ++ p.chan ++ str " :Hub sync" ++ crlf)) ci fun c =>
            { c with status := .out }
        else b
      if !wasManaged && isAdd && c.status != .inside then
        if c.key.isEmpty then ircPrintf b (str "JOIN " ++ p.chan ++ crlf)
        else ircPrintf b (str "JOIN " ++ p.chan ++ str " " ++ c.key ++ crlf)
      else b

/-- `sync_channel_line`: whether the record was applied. -/
def syncChannelLine (b : BotState) (data : Str) : Bool × BotState :=
  match parseHubChan data with
  | none => (false, b)
  | some p =>
      let isAdd := p.op == str "add"
      match (find b p.chan).bind fun ci => b.chans[ci]?.map fun c => (ci, c) with
      | none =>
          if !isAdd then (false, b)
          else
            match add b p.chan with
            | none => (false, b)
            | some (ci, b) => (true, withChan b ci p.store)
      | some (ci, c) =>
          if !lwwAccepts p.ts isAdd c.timestamp c.isManaged then (false, b)
          else (true, followSync (withChan b ci p.store) ci p c.isManaged)

/-! ### Masks and users -/

/-- The first field of an `m|` line, which must look like a uuid. -/
def maskLineUuid (data : Str) : Str :=
  match splitOnce (byte '|') data with
  | some (f, _) => if f.length < 40 then f else []
  | none => []

/-- Index of the mask record, with one added if there is none yet and there is
room. -/
def maskSlot (masks : List MaskRecord) (uuid mask : Str) : Option (Nat × List MaskRecord) :=
  match masks.findIdx? fun m => m.uuid == uuid && eqIc m.mask mask with
  | some mi => some (mi, masks)
  | none =>
      if masks.length < maxUserMasks then some (masks.length, masks ++ [{ uuid, mask }]) else none

/-- `sync_mask_line`: whether the record was applied. -/
def syncMaskLine (b : BotState) (data : Str) : Bool × BotState :=
  if !hasUuidDashes (maskLineUuid data) then (false, b)
  else
    match splitPipes 5 data with
    | [f0, f1, f2, f3, f4] =>
        let uuid := trunc f0 uuidBuf
        let mask := trunc f1 maxMaskLen
        let isActive := (str "add").isPrefixOf (trunc f2 8)
        let ts := atoll f4
        match maskSlot b.maskRecords uuid mask with
        | none => (false, b)
        | some (mi, masks) =>
            match masks[mi]? with
            | none => (false, b)
            | some m =>
                if !lwwAccepts ts isActive m.timestamp m.isActive then
                  (false, { b with maskRecords := masks })
                else
                  let m := { m with isActive, lastUsed := max m.lastUsed (atoll f3), timestamp := ts }
                  (true, { b with maskRecords := masks.set mi m })
    | _ => (false, b)

/-- Index of the user record, with one added if there is none yet and there is
room. -/
def userSlot (users : List UserRecord) (uuid : Str) : Option (Nat × List UserRecord) :=
  match users.findIdx? fun u => u.uuid == uuid with
  | some ui => some (ui, users)
  | none =>
      if users.length < maxUserRecords then some (users.length, users ++ [{ uuid, typ := 0 }])
      else none

section

variable (P : Primitives)

/-- `sync_user_line`: whether the record was applied. -/
def syncUserLine (b : BotState) (typ : UInt8) (data : Str) : Bool × BotState :=
  match parseUserLine P data with
  | none => (false, b)
  | some ul =>
      match userSlot b.userRecords ul.uuid with
      | none => (false, b)
      | some (ui, users) =>
          match users[ui]? with
          | none => (false, b)
          | some u =>
              if !lwwAccepts ul.timestamp ul.isActive u.timestamp u.isActive then
                (false, { b with userRecords := users })
              else
                -- the hub is authoritative for the key too
                let u := { u with
                  name := ul.name, pubkeyB64 := ul.pubkeyB64, hasPubkey := ul.hasPubkey, typ := typ
                  isActive := ul.isActive, lastSeen := max u.lastSeen ul.lastSeen
                  timestamp := ul.timestamp }
                (true, { b with userRecords := users.set ui u })

/-! ### Trusted bots -/

/-- The records with later duplicates of `uuid` swept, and where the first one
is. -/
def sweepUuid (bots : List TrustedBot) (uuid : Str) : Option Nat × List TrustedBot :=
  if uuid.isEmpty then (none, bots)
  else
    match bots.findIdx? fun t => t.uuid == uuid with
    | none => (none, bots)
    | some i => (some i, bots.take (i + 1) ++ (bots.drop (i + 1)).filter (·.uuid != uuid))

/-- `sync_bot_line`: whether the record was applied, and the uuids listed so
far. -/
def syncBotLine (b : BotState) (data : Str) (listed : List Str) : Bool × List Str × BotState :=
  match parseBotLine P data with
  | none => (false, listed, b)
  | some inb =>
      let listed :=
        if !inb.uuid.isEmpty && listed.length < maxTrustedBots then listed ++ [inb.uuid] else listed
      let (byUuid, bots) := sweepUuid b.trustedBots inb.uuid
      let b := { b with trustedBots := bots }
      match (byUuid.or (bots.findIdx? fun t => t.mask == inb.mask)).bind fun i =>
          bots[i]?.map fun t => (i, t) with
      | some (i, ex) =>
          let keyIsNew := inb.hasPub && (!ex.hasPub || ex.pubKey != inb.pubKey)
          if ex.ts < inb.ts ∨ (inb.ts = ex.ts ∧ keyIsNew = true) then
            -- a keyless line of the older shape keeps the key on file
            let inb :=
              if !inb.hasPub && ex.hasPub && ex.uuid == inb.uuid then
                { inb with hasPub := true, pubKey := ex.pubKey }
              else inb
            (true, listed, { b with trustedBots := bots.set i inb })
          else (false, listed, b)
      | none =>
          if bots.length < maxTrustedBots then
            (true, listed, { b with trustedBots := bots ++ [inb] })
          else (false, listed, b)

/-! ### Opt flags and purges -/

/-- The `O|` arm. -/
def syncOptLine (b : BotState) (data : Str) : Bool × BotState :=
  match parseOptLine data with
  | some (flags, ts) =>
      if optAccepts ts flags b.optFlagsTs b.optFlags then
        (true, { b with optFlags := flags, optFlagsTs := if 0 < ts then ts else b.now })
      else (false, b)
  | none => (false, b)

/-- `parse::<i64>`: an optional sign, then digits only. -/
def parseI64 (s : Str) : Option Int :=
  let neg := s.head? = some (byte '-')
  let digits := if s.head? = some (byte '-') ∨ s.head? = some (byte '+') then s.drop 1 else s
  if digits.isEmpty || !digits.all isDigit then none
  else digits.foldl (digitStep neg) (some 0)

/-- A tombstone stamped before `cutoff` (0: any). -/
def purged (cutoff : Int) (active : Bool) (ts : Int) : Bool :=
  !active && (cutoff == 0 || ts < cutoff)

/-- `apply_purge`: drop the tombstones stamped before the cutoff. -/
def applyPurge (b : BotState) (arg : Str) : BotState :=
  match parseI64 (arg.dropWhile isCSpace) with
  | none => b
  | some cutoff =>
      if cutoff < 0 then b
      else
        let (banned, b') := purgeBans { b with
          chans := b.chans.filter fun c => !purged cutoff c.isManaged c.timestamp
          userRecords := b.userRecords.filter fun u => !purged cutoff u.isActive u.timestamp
          maskRecords := b.maskRecords.filter fun m => !purged cutoff m.isActive m.timestamp } cutoff
        let gone := (b.chans.length - b'.chans.length) +
          (b.userRecords.length - b'.userRecords.length) +
          (b.maskRecords.length - b'.maskRecords.length) + banned
        if 0 < gone then writeConfig b' else b'

/-! ### The payload -/

/-- A payload being processed: the state, the uuids of the `b|` lines so far and
how many updates were counted. -/
structure Syncing where
  b : BotState
  listed : List Str := []
  updates : Nat := 0

def Syncing.count (s : Syncing) (r : Bool × BotState) : Syncing :=
  { s with b := r.2, updates := if r.1 then s.updates + 1 else s.updates }

/-- A line of type `typ`. -/
def syncRecord (s : Syncing) (typ : UInt8) (data : Str) : Syncing :=
  if typ = byte 'c' then s.count (syncChannelLine s.b data)
  else if typ = byte 'm' then s.count (syncMaskLine s.b data)
  else if typ = byte 'C' then s.count (applyCLine s.b data)
  else if typ = byte 'D' then s.count (applyDLine s.b data)
  else if typ = byte 'B' then s.count (applyBLine s.b data)
  else if typ = byte 'a' ∨ typ = byte 'o' then s.count (syncUserLine P s.b typ data)
  else if typ = byte 'O' then s.count (syncOptLine s.b data)
  else if typ = byte 'b' then
    let (applied, listed, b) := syncBotLine P s.b data s.listed
    { s with listed }.count (applied, b)
  else s

/-- One line of a payload. -/
def syncLine (s : Syncing) (line : Str) : Syncing :=
  if line.length < 2 || line.head? == some (byte '#') then s
  else
    match lit (str "PURGE|") line with
    | some arg => { s with b := applyPurge s.b arg }
    | none =>
        match line with
        | typ :: sep :: data => if sep = byte '|' then syncRecord P s typ data else s
        | _ => s

/-- A line that starts with `typ|` for one of `typs`. -/
def isRecordOf (typs : List UInt8) (line : Str) : Bool :=
  match line with
  | typ :: sep :: _ => typs.contains typ && sep == byte '|'
  | _ => false

/-- A `T|` marker makes the `b|` lines the whole trusted set. -/
def sweepTrusted (s : Syncing) : Syncing :=
  let kept := s.b.trustedBots.filter fun t => !t.uuid.isEmpty && s.listed.contains t.uuid
  { s with
    b := { s.b with trustedBots := kept }
    updates := s.updates + (s.b.trustedBots.length - kept.length) }

/-- Keep the activity times that are newer here than in the tables received. -/
def keepActivity (users : List UserRecord) (masks : List MaskRecord) (b : BotState) : BotState :=
  { b with
    userRecords := b.userRecords.map fun u =>
      match users.find? fun s => s.uuid == u.uuid with
      | some s => { u with lastSeen := max u.lastSeen s.lastSeen }
      | none => u
    maskRecords := b.maskRecords.map fun m =>
      match masks.find? fun s => s.uuid == m.uuid && eqIc s.mask m.mask with
      | some s => { m with lastUsed := max m.lastUsed s.lastUsed }
      | none => m }

/-- The tables of users and masks, emptied when the payload replaces them. -/
def clearTables (b : BotState) (lines : List Str) : BotState :=
  { b with
    userRecords :=
      if lines.any (isRecordOf [byte 'a', byte 'o']) then [] else b.userRecords
    maskRecords := if lines.any (isRecordOf [byte 'm']) then [] else b.maskRecords }

/-- `process_config_data`, and how many updates it counted. The lines are those of
the payload cut to its maximal size; what is replaced is decided on all of it. -/
def processConfigData (b : BotState) (payload : Str) : Nat × BotState :=
  let lines := splitOn (byte '\n') payload
  let work := splitOn (byte '\n') (trunc payload maxConfigPayload)
  let s := work.foldl (syncLine P) { b := clearTables b lines }
  let s := if lines.any (isRecordOf [byte 'T']) then sweepTrusted s else s
  (s.updates, keepActivity b.userRecords b.maskRecords s.b)

end

/-! ### What a line can change -/

/-- A `c|` line writes the channels, and parts or joins. -/
structure SameButChannels (b b' : BotState) : Prop where
  eq : b' = { b with chans := b'.chans, ircOut := b'.ircOut }

theorem SameButChannels.refl (b : BotState) : SameButChannels b b := ⟨rfl⟩

theorem SameButChannels.trans {b₁ b₂ b₃ : BotState} (h : SameButChannels b₁ b₂)
    (h' : SameButChannels b₂ b₃) : SameButChannels b₁ b₃ := by
  constructor
  rw [h'.eq, h.eq]

theorem sameButChannels_ircPrintf (b : BotState) (line : Str) :
    SameButChannels b (ircPrintf b line) := by
  obtain ⟨out, h, -⟩ := ircPrintf_eq b line
  rw [h]
  exact ⟨rfl⟩

theorem sameButChannels_followSync (b : BotState) (ci : Nat) (p : HubChan) (wasManaged : Bool) :
    SameButChannels b (followSync b ci p wasManaged) := by
  unfold followSync
  split
  · exact .refl b
  · rename_i c _
    have hpart : SameButChannels b (if wasManaged && !(p.op == str "add") && c.status == .inside then
        withChan (ircPrintf b (str "PART " ++ p.chan ++ str " :Hub sync" ++ crlf)) ci fun c =>
          { c with status := .out }
        else b) := by
      split
      · exact (sameButChannels_ircPrintf b _).trans ⟨rfl⟩
      · exact .refl b
    dsimp only
    split
    · split
      · exact hpart.trans (sameButChannels_ircPrintf _ _)
      · exact hpart.trans (sameButChannels_ircPrintf _ _)
    · exact hpart

theorem sameButChannels_syncChannelLine (b : BotState) (data : Str) :
    SameButChannels b (syncChannelLine b data).2 := by
  unfold syncChannelLine
  split
  · exact .refl b
  · rename_i p _
    dsimp only
    split
    · split
      · exact .refl b
      · split
        · exact .refl b
        · rename_i ci b' hadd
          unfold add at hadd
          split at hadd
          · simp at hadd
          · obtain ⟨-, rfl⟩ : _ ∧ _ = b' := by simpa using hadd
            exact ⟨rfl⟩
    · split
      · exact .refl b
      · exact SameButChannels.trans ⟨rfl⟩ (sameButChannels_followSync _ _ p _)

theorem syncMaskLine_eq (b : BotState) (data : Str) :
    (syncMaskLine b data).2 = { b with maskRecords := (syncMaskLine b data).2.maskRecords } := by
  unfold syncMaskLine
  split
  · rfl
  · split
    · dsimp only
      split
      · rfl
      · split
        · rfl
        · split <;> rfl
    · rfl

theorem syncOptLine_eq (b : BotState) (data : Str) :
    (syncOptLine b data).2 = { b with
      optFlags := (syncOptLine b data).2.optFlags,
        optFlagsTs := (syncOptLine b data).2.optFlagsTs } := by
  unfold syncOptLine
  split
  · split <;> rfl
  · rfl

section

variable (P : Primitives)

theorem syncUserLine_eq (b : BotState) (typ : UInt8) (data : Str) :
    (syncUserLine P b typ data).2 =
      { b with userRecords := (syncUserLine P b typ data).2.userRecords } := by
  unfold syncUserLine
  split
  · rfl
  · split
    · rfl
    · split
      · rfl
      · split <;> rfl

theorem syncBotLine_eq (b : BotState) (data : Str) (listed : List Str) :
    (syncBotLine P b data listed).2.2 =
      { b with trustedBots := (syncBotLine P b data listed).2.2.trustedBots } := by
  unfold syncBotLine
  split
  · rfl
  · dsimp only
    split
    · split <;> rfl
    · split <;> rfl

@[simp] theorem Syncing.count_b (s : Syncing) (r : Bool × BotState) : (s.count r).b = r.2 := rfl

@[simp] theorem Syncing.count_listed (s : Syncing) (r : Bool × BotState) :
    (s.count r).listed = s.listed := rfl

/-- What a record does, kind by kind. -/
theorem syncRecord_cases {Q : Syncing → Prop} (s : Syncing) (typ : UInt8) (data : Str)
    (hchannel : Q (s.count (syncChannelLine s.b data)))
    (hmask : typ = byte 'm' → Q (s.count (syncMaskLine s.b data)))
    (hchancfg : ∀ r : Bool × BotState, SameButChancfg s.b r.2 → Q (s.count r))
    (huser : typ = byte 'a' ∨ typ = byte 'o' → Q (s.count (syncUserLine P s.b typ data)))
    (hopt : Q (s.count (syncOptLine s.b data)))
    (hbot : typ = byte 'b' → Q ({ s with listed := (syncBotLine P s.b data s.listed).2.1 }.count
      ((syncBotLine P s.b data s.listed).1, (syncBotLine P s.b data s.listed).2.2)))
    (hother : Q s) : Q (syncRecord P s typ data) := by
  unfold syncRecord
  split
  · exact hchannel
  · split
    · exact hmask ‹_›
    · split
      · exact hchancfg _ (sameButChancfg_applyCLine s.b data)
      · split
        · exact hchancfg _ (sameButChancfg_applyDLine s.b data)
        · split
          · exact hchancfg _ (sameButChancfg_applyBLine s.b data)
          · split
            · exact huser ‹_›
            · split
              · exact hopt
              · split
                · exact hbot ‹_›
                · exact hother

/-- A line that starts with a type and a bar is a record of that type. -/
theorem syncLine_record (s : Syncing) (typ : UInt8) (data : Str) :
    syncLine P s (typ :: byte '|' :: data) = syncRecord P s typ data := by
  have hlit : lit (str "PURGE|") (typ :: byte '|' :: data) = none := by
    have hbyte : byte 'U' ≠ byte '|' := by decide
    simp [lit, str, hbyte]
  unfold syncLine
  split
  · rename_i hskip
    have htyp : typ = byte '#' := by simpa using hskip
    subst htyp
    rfl
  · rw [hlit]
    exact if_pos rfl

/-- What a line does: nothing, a purge, or what its record does. -/
theorem syncLine_cases {Q : Syncing → Prop} (s : Syncing) (line : Str) (hskip : Q s)
    (hpurge : ∀ arg, lit (str "PURGE|") line = some arg → Q { s with b := applyPurge s.b arg })
    (hrecord : ∀ typ data, line = typ :: byte '|' :: data → Q (syncRecord P s typ data)) :
    Q (syncLine P s line) := by
  unfold syncLine
  split
  · exact hskip
  · split
    · exact hpurge _ ‹_›
    · split
      · split
        · rename_i hsep
          exact hrecord _ _ (by rw [hsep])
        · exact hskip
      · exact hskip

/-- The trusted bots, and the list of those named so far, are written by `b|` records
only. -/
theorem trustedBots_syncRecord (s : Syncing) {typ : UInt8} (data : Str) (h : typ ≠ byte 'b') :
    (syncRecord P s typ data).b.trustedBots = s.b.trustedBots ∧
      (syncRecord P s typ data).listed = s.listed := by
  refine syncRecord_cases P
    (Q := fun s' => s'.b.trustedBots = s.b.trustedBots ∧ s'.listed = s.listed) s typ data
    ⟨?_, rfl⟩ (fun _ => ⟨?_, rfl⟩) (fun r hr => ⟨?_, rfl⟩) (fun _ => ⟨?_, rfl⟩) ⟨?_, rfl⟩
    (fun htyp => ?_) ⟨rfl, rfl⟩
  · rw [Syncing.count_b, (sameButChannels_syncChannelLine s.b data).eq]
  · rw [Syncing.count_b, syncMaskLine_eq]
  · rw [Syncing.count_b, hr.eq]
  · rw [Syncing.count_b, syncUserLine_eq]
  · rw [Syncing.count_b, syncOptLine_eq]
  · exact absurd htyp h

end

end IrcBot.HubSync
