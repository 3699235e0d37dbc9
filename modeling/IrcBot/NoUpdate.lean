/-
# A payload that updates nothing (`hub_client.rs`)

The tables of users and masks are emptied before any line is read, and a line can
take a slot, or sweep out duplicates, without being counted. What becomes of the
tables when no line is counted.

* `quiet_syncLines` — such lines act on each table apart.
* `unchanged_iff` — the payloads that leave every table as it is.
-/
import IrcBot.TrustList
import IrcBot.Lib.Slots

namespace IrcBot.NoUpdate

open Cstr Chancfg Config HubPush HubSync TrustList Lib.Slots

/-! ### Records that are turned down -/

theorem onlyApplied_syncChannelLine (b : BotState) (data : Str) :
    OnlyApplied b (syncChannelLine b data) := by
  unfold syncChannelLine
  split
  · exact onlyApplied_refl b _
  · dsimp only
    split
    · split
      · exact onlyApplied_refl b _
      · split
        · exact onlyApplied_refl b _
        · exact onlyApplied_true b _
    · split
      · exact onlyApplied_refl b _
      · exact onlyApplied_true b _

/-- What tells the masks of the table apart. -/
def maskKey (m : MaskRecord) : Str × Str := (m.uuid, m.mask.map lower)

/-- A user's slot before a record has been written to it. -/
def blankUser (uuid : Str) : UserRecord := { uuid, typ := 0 }

/-- A mask's slot before a record has been written to it. -/
def blankMask (uuid mask : Str) : MaskRecord := { uuid, mask }

/-- The slot that an `m|` line is about. -/
def maskOf (data : Str) : Option MaskRecord :=
  if !hasUuidDashes (maskLineUuid data) then none
  else
    match splitPipes 5 data with
    | [f0, f1, _, _, _] => some (blankMask (trunc f0 uuidBuf) (trunc f1 maxMaskLen))
    | _ => none

/-- The slot of a line that is turned down stays taken. -/
theorem maskRecords_rejected {b : BotState} {data : Str} (h : (syncMaskLine b data).1 = false) :
    (syncMaskLine b data).2.maskRecords =
      match maskOf data with
      | some m => claim maskKey maxUserMasks b.maskRecords m
      | none => b.maskRecords := by
  unfold syncMaskLine at h ⊢
  unfold maskOf
  split
  · rfl
  · rename_i huuid
    rw [if_neg huuid] at h
    split
    · rename_i f0 f1 f2 f3 f4 hsplit
      simp only [hsplit] at h ⊢
      have hslot : maskSlot b.maskRecords (trunc f0 uuidBuf) (trunc f1 maxMaskLen) =
          slot maskKey maxUserMasks b.maskRecords
            (blankMask (trunc f0 uuidBuf) (trunc f1 maxMaskLen)) := rfl
      rw [hslot] at h ⊢
      split
      · rename_i hnone
        exact (slot_eq_none hnone).symm
      · rename_i mi masks hsome
        obtain ⟨hmasks, m, hm, -⟩ := slot_eq_some hsome
        rw [hsome] at h
        dsimp only at h
        rw [hm] at h ⊢
        dsimp only at h ⊢
        split
        · exact hmasks
        · rename_i haccepts
          rw [if_neg haccepts] at h
          simp at h
    · simp

section

variable (P : Primitives)

theorem userRecords_rejected {b : BotState} {typ : UInt8} {data : Str}
    (h : (syncUserLine P b typ data).1 = false) :
    (syncUserLine P b typ data).2.userRecords =
      match (parseUserLine P data).map fun ul => blankUser ul.uuid with
      | some u => claim (·.uuid) maxUserRecords b.userRecords u
      | none => b.userRecords := by
  unfold syncUserLine at h ⊢
  split
  · rename_i hparse
    rw [hparse]
    rfl
  · rename_i ul hparse
    rw [hparse] at h ⊢
    dsimp only [Option.map_some] at h ⊢
    have hslot : userSlot b.userRecords ul.uuid =
        slot (·.uuid) maxUserRecords b.userRecords (blankUser ul.uuid) := rfl
    rw [hslot] at h ⊢
    split
    · rename_i hnone
      exact (slot_eq_none hnone).symm
    · rename_i ui users hsome
      obtain ⟨husers, u, hu, -⟩ := slot_eq_some hsome
      rw [hsome] at h
      dsimp only at h
      rw [hu] at h ⊢
      dsimp only at h ⊢
      split
      · exact husers
      · rename_i haccepts
        rw [if_neg haccepts] at h
        simp at h

theorem trustedBots_rejected {b : BotState} {data : Str} {listed : List Str}
    (h : (syncBotLine P b data listed).1 = false) :
    (syncBotLine P b data listed).2.2.trustedBots =
      match parseBotLine P data with
      | some inb => (sweepUuid b.trustedBots inb.uuid).2
      | none => b.trustedBots := by
  unfold syncBotLine at h ⊢
  split
  · rename_i hparse
    rw [hparse]
  · rename_i inb hparse
    rw [hparse] at h ⊢
    dsimp only at h ⊢
    rcases hsweep : sweepUuid b.trustedBots inb.uuid with ⟨byUuid, bots⟩
    rw [hsweep] at h
    dsimp only at h ⊢
    split
    · rename_i i ex hfound
      rw [hfound] at h
      dsimp only at h
      split
      · rename_i hnewer
        rw [if_pos hnewer] at h
        simp at h
      · rfl
    · rename_i hfound
      rw [hfound] at h
      dsimp only at h
      split
      · rename_i hroom
        rw [if_pos hroom] at h
        simp at h
      · rfl

/-! ### Lines that are not counted -/

/-- The body of a record of one of `typs`. -/
def recordBody (typs : List UInt8) (line : Str) : Option Str :=
  match line with
  | typ :: sep :: data => if typs.contains typ && sep == byte '|' then some data else none
  | _ => none

/-- The tables a payload writes. -/
@[ext]
structure Tables where
  users : List UserRecord
  masks : List MaskRecord
  bots : List TrustedBot
  chans : List Chan
  bans : List CfgBan

def tables (b : BotState) : Tables :=
  { users := b.userRecords, masks := b.maskRecords, bots := b.trustedBots, chans := b.chans
    bans := b.cfgBans }

/-- The slot that a line for users is about. -/
def userOf (line : Str) : Option UserRecord :=
  ((recordBody [byte 'a', byte 'o'] line).bind (parseUserLine P)).map fun ul => blankUser ul.uuid

/-- A line that is not counted takes a slot for its user or mask, or sweeps the
duplicates of its bot. -/
def quietUsers (users : List UserRecord) (line : Str) : List UserRecord :=
  match userOf P line with
  | some u => claim (·.uuid) maxUserRecords users u
  | none => users

def quietMasks (masks : List MaskRecord) (line : Str) : List MaskRecord :=
  match (recordBody [byte 'm'] line).bind maskOf with
  | some m => claim maskKey maxUserMasks masks m
  | none => masks

def quietBots (bots : List TrustedBot) (line : Str) : List TrustedBot :=
  match (botBody line).bind (parseBotLine P) with
  | some inb => (sweepUuid bots inb.uuid).2
  | none => bots

def quiet (t : Tables) (line : Str) : Tables :=
  { t with
    users := quietUsers P t.users line, masks := quietMasks t.masks line
    bots := quietBots P t.bots line }

theorem applied_of_count {s : Syncing} {r : Bool × BotState}
    (h : (s.count r).updates = s.updates) : r.1 = false := by
  cases hr : r.1 with
  | false => rfl
  | true =>
      rw [Syncing.count, hr] at h
      simp at h

theorem updates_le_count (s : Syncing) (r : Bool × BotState) : s.updates ≤ (s.count r).updates := by
  unfold Syncing.count
  dsimp only
  split
  · exact Nat.le_succ _
  · exact Nat.le_refl _

theorem updates_le_syncLine (s : Syncing) (line : Str) :
    s.updates ≤ (syncLine P s line).updates := by
  refine syncLine_cases P (Q := fun s' => s.updates ≤ s'.updates) s line (Nat.le_refl _)
    (fun _ _ => Nat.le_refl _) fun typ data _ => ?_
  refine syncRecord_cases P (Q := fun s' => s.updates ≤ s'.updates) s typ data
    (updates_le_count s _) (fun _ => updates_le_count s _) (fun r _ => updates_le_count s r)
    (fun _ => updates_le_count s _) (updates_le_count s _) (fun _ => ?_) (Nat.le_refl _)
  exact updates_le_count { s with listed := (syncBotLine P s.b data s.listed).2.1 } _

theorem updates_le_syncLines {lines : List Str} : ∀ {s : Syncing},
    s.updates ≤ (lines.foldl (syncLine P) s).updates := by
  induction lines with
  | nil => exact Nat.le_refl _
  | cons line lines ih => exact (updates_le_syncLine P _ line).trans ih

/-- A record of another kind has no part in the tables of users, masks and bots. -/
theorem quiet_of_ne {typ : UInt8} (h : typ ≠ byte 'a' ∧ typ ≠ byte 'o' ∧ typ ≠ byte 'm' ∧
    typ ≠ byte 'b') (t : Tables) (data : Str) : quiet P t (typ :: byte '|' :: data) = t := by
  obtain ⟨ha, ho, hm, hb⟩ := h
  simp [quiet, quietUsers, quietMasks, quietBots, userOf, recordBody, botBody, ha, ho, hm, hb]

/-- A record that is not counted. -/
theorem quiet_syncRecord {s : Syncing} {typ : UInt8} {data : Str}
    (h : (syncRecord P s typ data).updates = s.updates) :
    tables (syncRecord P s typ data).b = quiet P (tables s.b) (typ :: byte '|' :: data) := by
  have hsame {r : Bool × BotState} (htyp : typ ≠ byte 'a' ∧ typ ≠ byte 'o' ∧ typ ≠ byte 'm' ∧
      typ ≠ byte 'b') (hr : OnlyApplied s.b r) (hcount : (s.count r).updates = s.updates) :
      tables (s.count r).b = quiet P (tables s.b) (typ :: byte '|' :: data) := by
    rw [quiet_of_ne P htyp, Syncing.count_b, hr (applied_of_count hcount)]
  unfold syncRecord at h ⊢
  split
  · rename_i htyp
    subst htyp
    exact hsame (by decide) (onlyApplied_syncChannelLine s.b data) h
  · rename_i hc
    rw [if_neg hc] at h
    split
    · rename_i htyp
      subst htyp
      have hmasks := maskRecords_rejected (applied_of_count h)
      rw [Syncing.count_b, syncMaskLine_eq, hmasks]
      rfl
    · rename_i hm
      rw [if_neg hm] at h
      split
      · rename_i htyp
        subst htyp
        exact hsame (by decide) (onlyApplied_applyCLine s.b data) h
      · rename_i hC
        rw [if_neg hC] at h
        split
        · rename_i htyp
          subst htyp
          exact hsame (by decide) (onlyApplied_applyDLine s.b data) h
        · rename_i hD
          rw [if_neg hD] at h
          split
          · rename_i htyp
            subst htyp
            exact hsame (by decide) (onlyApplied_applyBLine s.b data) h
          · rename_i hB
            rw [if_neg hB] at h
            split
            · rename_i htyp
              rw [if_pos htyp] at h
              have husers := userRecords_rejected P (applied_of_count h)
              rw [Syncing.count_b, syncUserLine_eq, husers]
              rcases htyp with rfl | rfl
              · rfl
              · rfl
            · rename_i huser
              rw [if_neg huser] at h
              split
              · rename_i htyp
                subst htyp
                rw [quiet_of_ne P (by decide), Syncing.count_b, syncOptLine_eq]
                rfl
              · rename_i hO
                rw [if_neg hO] at h
                split
                · rename_i htyp
                  subst htyp
                  have hbots := trustedBots_rejected P (applied_of_count h)
                  rw [Syncing.count_b, syncBotLine_eq, hbots]
                  rfl
                · rename_i hb
                  rw [quiet_of_ne P ⟨fun heq => huser (.inl heq), fun heq => huser (.inr heq), hm, hb⟩]

theorem quiet_syncLine {s : Syncing} {line : Str} (hpurge : lit (str "PURGE|") line = none)
    (h : (syncLine P s line).updates = s.updates) :
    tables (syncLine P s line).b = quiet P (tables s.b) line := by
  by_cases hrecord : ∃ typ data, line = typ :: byte '|' :: data
  · obtain ⟨typ, data, rfl⟩ := hrecord
    rw [syncLine_record] at h ⊢
    exact quiet_syncRecord P h
  · have hbody (typs : List UInt8) : recordBody typs line = none := by
      unfold recordBody
      split
      · rename_i typ sep data
        refine if_neg fun htyp => hrecord ⟨typ, data, ?_⟩
        simp only [Bool.and_eq_true, beq_iff_eq] at htyp
        rw [htyp.2]
      · rfl
    have hbot : botBody line = none := by
      unfold botBody
      split
      · rename_i typ sep data
        refine if_neg fun htyp => hrecord ⟨typ, data, ?_⟩
        rw [htyp.2]
      · rfl
    have hsame : syncLine P s line = s := by
      refine syncLine_cases P (Q := fun s' => s' = s) s line rfl (fun arg harg => ?_)
        fun typ data heq => absurd ⟨typ, data, heq⟩ hrecord
      rw [hpurge] at harg
      simp at harg
    rw [hsame]
    simp only [quiet, quietUsers, quietMasks, quietBots, userOf, hbody, hbot, Option.bind_none,
      Option.map_none]

/-- **Lines that are not counted act on each table apart.** -/
theorem quiet_syncLines {lines : List Str} : ∀ {s : Syncing},
    (∀ line ∈ lines, lit (str "PURGE|") line = none) →
    (lines.foldl (syncLine P) s).updates = s.updates →
    tables (lines.foldl (syncLine P) s).b = lines.foldl (quiet P) (tables s.b) := by
  induction lines with
  | nil => exact fun _ _ => rfl
  | cons line lines ih =>
      intro s hpurge h
      have hle := updates_le_syncLine P s line
      have hle' : (syncLine P s line).updates ≤
          (lines.foldl (syncLine P) (syncLine P s line)).updates := updates_le_syncLines P
      rw [List.foldl_cons] at h
      have hstep : (syncLine P s line).updates = s.updates := by omega
      rw [List.foldl_cons, List.foldl_cons,
        ih (fun l hl => hpurge l (List.mem_cons_of_mem _ hl)) (h.trans hstep.symm),
        quiet_syncLine P (hpurge line List.mem_cons_self) hstep]

theorem quiet_foldl (lines : List Str) (t : Tables) :
    lines.foldl (quiet P) t =
      { users := (lines.filterMap (userOf P)).foldl (claim (·.uuid) maxUserRecords) t.users
        masks := (lines.filterMap fun line => (recordBody [byte 'm'] line).bind maskOf).foldl
          (claim maskKey maxUserMasks) t.masks
        bots := (listedBots P lines).foldl (fun bots inb => (sweepUuid bots inb.uuid).2) t.bots
        chans := t.chans, bans := t.bans } := by
  induction lines generalizing t with
  | nil => rfl
  | cons line lines ih =>
      rw [List.foldl_cons, ih, listedBots, listedBots]
      simp only [List.filterMap_cons, quiet, quietUsers, quietMasks, quietBots]
      congr 1
      · cases userOf P line with
        | none => rfl
        | some u => rfl
      · cases (recordBody [byte 'm'] line).bind maskOf with
        | none => rfl
        | some m => rfl
      · cases (botBody line).bind (parseBotLine P) with
        | none => rfl
        | some inb => rfl

/-! ### The payload -/

def userClock : Clock fun u : UserRecord => u.uuid where
  time u := u.lastSeen
  stamp u t := { u with lastSeen := t }
  time_stamp _ _ := rfl
  stamp_stamp _ _ _ := rfl
  stamp_time _ := rfl
  key_stamp _ _ := rfl

def maskClock : Clock maskKey where
  time m := m.lastUsed
  stamp m t := { m with lastUsed := t }
  time_stamp _ _ := rfl
  stamp_stamp _ _ _ := rfl
  stamp_time _ := rfl
  key_stamp _ _ := rfl

/-- The payload replaces the users, and so for masks. -/
def hasUsers (payload : Str) : Bool :=
  (splitOn (byte '\n') payload).any (isRecordOf [byte 'a', byte 'o'])

def hasMasks (payload : Str) : Bool := (splitOn (byte '\n') payload).any (isRecordOf [byte 'm'])

theorem tables_keepActivity (users : List UserRecord) (masks : List MaskRecord) (b : BotState) :
    tables (keepActivity users masks b) =
      { tables b with
        users := b.userRecords.map (userClock.keep users)
        masks := b.maskRecords.map (maskClock.keep masks) } := by
  have husers : (fun u : UserRecord =>
      match users.find? fun s => s.uuid == u.uuid with
      | some s => { u with lastSeen := max u.lastSeen s.lastSeen }
      | none => u) = userClock.keep users := by
    funext u
    unfold Clock.keep
    dsimp only
    cases users.find? fun s => s.uuid == u.uuid with
    | none => rfl
    | some s => rfl
  have hmasks : (fun m : MaskRecord =>
      match masks.find? fun s => s.uuid == m.uuid && eqIc s.mask m.mask with
      | some s => { m with lastUsed := max m.lastUsed s.lastUsed }
      | none => m) = maskClock.keep masks := by
    funext m
    have hkey : (fun s => maskKey s == maskKey m) = fun s : MaskRecord =>
      s.uuid == m.uuid && eqIc s.mask m.mask := rfl
    unfold Clock.keep
    rw [hkey]
    cases masks.find? fun s => s.uuid == m.uuid && eqIc s.mask m.mask with
    | none => rfl
    | some s => rfl
  rw [← husers, ← hmasks]
  rfl

/-- The slots that the lines of an empty table take. -/
def userSlots (lines : List Str) : List UserRecord :=
  (lines.filterMap (userOf P)).foldl (claim (·.uuid) maxUserRecords) []

def maskSlots (lines : List Str) : List MaskRecord :=
  (lines.filterMap fun line => (recordBody [byte 'm'] line).bind maskOf).foldl
    (claim maskKey maxUserMasks) []

theorem exists_of_mem_workLines {payload line : Str} (h : line ∈ workLines payload) :
    ∃ line' ∈ splitOn (byte '\n') payload, line <+: line' :=
  prefix_of_mem_splitOn (trunc_isPrefix payload maxConfigPayload) h

/-- A payload whose lines are of other kinds has no body of a kind among those read. -/
theorem recordBody_workLines {typs : List UInt8} {payload : Str}
    (h : (splitOn (byte '\n') payload).any (isRecordOf typs) = false) {line : Str}
    (hline : line ∈ workLines payload) : recordBody typs line = none := by
  obtain ⟨line', hline', t, rfl⟩ := exists_of_mem_workLines hline
  have hnot := List.any_eq_false.mp h _ hline'
  unfold recordBody
  split
  · exact if_neg hnot
  · rfl

theorem quiet_sweepTrusted {s : Syncing} (h : (sweepTrusted s).updates = 0) :
    s.updates = 0 ∧ tables (sweepTrusted s).b = tables s.b := by
  unfold sweepTrusted at h ⊢
  dsimp only at h ⊢
  have hkept := List.filter_sublist (p := fun t : TrustedBot =>
    !t.uuid.isEmpty && s.listed.contains t.uuid) (l := s.b.trustedBots)
  refine ⟨by omega, ?_⟩
  rw [hkept.eq_of_length_le (by omega)]

/-- **What a payload without an update leaves of the tables.** -/
theorem tables_processConfigData {b : BotState} {payload : Str}
    (hpurge : ∀ line ∈ splitOn (byte '\n') payload, lit (str "PURGE|") line = none)
    (hzero : (processConfigData P b payload).1 = 0) :
    tables (processConfigData P b payload).2 =
      { users := (((workLines payload).filterMap (userOf P)).foldl
          (claim (·.uuid) maxUserRecords) (if hasUsers payload then [] else b.userRecords)).map
            (userClock.keep b.userRecords)
        masks := (((workLines payload).filterMap fun line =>
          (recordBody [byte 'm'] line).bind maskOf).foldl (claim maskKey maxUserMasks)
            (if hasMasks payload then [] else b.maskRecords)).map (maskClock.keep b.maskRecords)
        bots := (listedBots P (workLines payload)).foldl
          (fun bots inb => (sweepUuid bots inb.uuid).2) b.trustedBots
        chans := b.chans, bans := b.cfgBans } := by
  have hwork : ∀ line ∈ workLines payload, lit (str "PURGE|") line = none := by
    intro line hline
    obtain ⟨line', hline', hpre⟩ := exists_of_mem_workLines hline
    have hnone := hpurge line' hline'
    unfold lit at hnone ⊢
    split at hnone
    · simp at hnone
    · rename_i hnot
      refine if_neg fun hlit => hnot ?_
      rw [List.isPrefixOf_iff_prefix] at hlit ⊢
      exact hlit.trans hpre
  let start : Syncing := { b := clearTables b (splitOn (byte '\n') payload) }
  have hsweep : ((workLines payload).foldl (syncLine P) start).updates = start.updates ∧
      tables (processConfigData P b payload).2 =
        let t := tables ((workLines payload).foldl (syncLine P) start).b
        { t with
          users := t.users.map (userClock.keep b.userRecords)
          masks := t.masks.map (maskClock.keep b.maskRecords) } := by
    unfold processConfigData at hzero ⊢
    dsimp only at hzero ⊢
    split at hzero
    · rename_i hmarker
      rw [if_pos hmarker]
      obtain ⟨hcount, htables⟩ := quiet_sweepTrusted hzero
      refine ⟨hcount, ?_⟩
      rw [tables_keepActivity, htables]
      congr 1
    · rename_i hmarker
      rw [if_neg hmarker]
      exact ⟨hzero, tables_keepActivity _ _ _⟩
  rw [hsweep.2, quiet_syncLines P hwork hsweep.1, quiet_foldl]
  rfl

/-- The tables that such a payload leaves alone. -/
structure Spared (b : BotState) (payload : Str) : Prop where
  users :
    if hasUsers payload then
      (b.userRecords.map fun u => { u with lastSeen := 0 }) = userSlots P (workLines payload) ∧
        ∀ u ∈ b.userRecords, 0 ≤ u.lastSeen
    else ∀ u ∈ b.userRecords, ∀ s, (b.userRecords.find? (·.uuid == u.uuid)) = some s →
      s.lastSeen ≤ u.lastSeen
  masks :
    if hasMasks payload then
      (b.maskRecords.map fun m => { m with lastUsed := 0 }) = maskSlots (workLines payload) ∧
        ∀ m ∈ b.maskRecords, 0 ≤ m.lastUsed
    else ∀ m ∈ b.maskRecords, ∀ s,
      (b.maskRecords.find? fun s => s.uuid == m.uuid && eqIc s.mask m.mask) = some s →
        s.lastUsed ≤ m.lastUsed
  bots : ∀ inb ∈ listedBots P (workLines payload), inb.uuid ≠ [] →
    entries inb.uuid b.trustedBots ≤ 1

theorem foldl_sweepUuid_eq_self {lines : List TrustedBot} : ∀ bots : List TrustedBot,
    (lines.foldl (fun bots inb => (sweepUuid bots inb.uuid).2) bots).Sublist bots ∧
      (lines.foldl (fun bots inb => (sweepUuid bots inb.uuid).2) bots = bots ↔
        ∀ inb ∈ lines, inb.uuid ≠ [] → entries inb.uuid bots ≤ 1) := by
  induction lines with
  | nil => exact fun _ => ⟨List.Sublist.refl _, by simp⟩
  | cons inb lines ih =>
      intro bots
      obtain ⟨hsub, hself⟩ := sweepUuid_eq_self bots inb.uuid
      obtain ⟨hrest, hiff⟩ := ih (sweepUuid bots inb.uuid).2
      rw [List.foldl_cons, List.forall_mem_cons]
      refine ⟨hrest.trans hsub, ?_⟩
      constructor
      · intro heq
        have hstep : (sweepUuid bots inb.uuid).2 = bots := by
          refine hsub.eq_of_length_le ?_
          have hlen := hrest.length_le
          rwa [heq] at hlen
        rw [hstep] at hiff heq
        exact ⟨hself.mp hstep, hiff.mp heq⟩
      · rintro ⟨hone, hall⟩
        rw [hself.mpr hone] at hiff ⊢
        exact hiff.mpr hall

/-- The users, under a payload without an update. -/
theorem users_eq_iff (b : BotState) (payload : Str) :
    (((workLines payload).filterMap (userOf P)).foldl (claim (·.uuid) maxUserRecords)
        (if hasUsers payload then [] else b.userRecords)).map (userClock.keep b.userRecords) =
      b.userRecords ↔
    if hasUsers payload then
      (b.userRecords.map fun u => { u with lastSeen := 0 }) = userSlots P (workLines payload) ∧
        ∀ u ∈ b.userRecords, 0 ≤ u.lastSeen
    else ∀ u ∈ b.userRecords, ∀ s, (b.userRecords.find? (·.uuid == u.uuid)) = some s →
      s.lastSeen ≤ u.lastSeen := by
  by_cases h : hasUsers payload = true
  · rw [if_pos h, if_pos h]
    refine userClock.map_keep_iff (fun u hu => ?_) (nodup_foldl_claim List.nodup_nil)
    rcases mem_foldl_claim hu with hu | hu
    · exact absurd hu List.not_mem_nil
    · obtain ⟨line, -, hline⟩ := List.mem_filterMap.mp hu
      obtain ⟨ul, -, rfl⟩ := Option.map_eq_some_iff.mp hline
      rfl
  · have hnone : (workLines payload).filterMap (userOf P) = [] := by
      refine List.filterMap_eq_nil_iff.mpr fun line hline => ?_
      rw [userOf, recordBody_workLines (Bool.eq_false_iff.mpr h) hline]
      rfl
    rw [if_neg h, if_neg h, hnone]
    exact userClock.map_keep_self_iff

theorem masks_eq_iff (b : BotState) (payload : Str) :
    (((workLines payload).filterMap fun line => (recordBody [byte 'm'] line).bind maskOf).foldl
        (claim maskKey maxUserMasks)
        (if hasMasks payload then [] else b.maskRecords)).map (maskClock.keep b.maskRecords) =
      b.maskRecords ↔
    if hasMasks payload then
      (b.maskRecords.map fun m => { m with lastUsed := 0 }) = maskSlots (workLines payload) ∧
        ∀ m ∈ b.maskRecords, 0 ≤ m.lastUsed
    else ∀ m ∈ b.maskRecords, ∀ s,
      (b.maskRecords.find? fun s => s.uuid == m.uuid && eqIc s.mask m.mask) = some s →
        s.lastUsed ≤ m.lastUsed := by
  by_cases h : hasMasks payload = true
  · rw [if_pos h, if_pos h]
    refine maskClock.map_keep_iff (fun m hm => ?_) (nodup_foldl_claim List.nodup_nil)
    rcases mem_foldl_claim hm with hm | hm
    · exact absurd hm List.not_mem_nil
    · obtain ⟨line, -, hline⟩ := List.mem_filterMap.mp hm
      obtain ⟨data, -, hdata⟩ := Option.bind_eq_some_iff.mp hline
      unfold maskOf at hdata
      split at hdata
      · simp at hdata
      · split at hdata
        · obtain rfl := Option.some.inj hdata
          rfl
        · simp at hdata
  · have hnone : ((workLines payload).filterMap fun line =>
        (recordBody [byte 'm'] line).bind maskOf) = [] := by
      refine List.filterMap_eq_nil_iff.mpr fun line hline => ?_
      rw [recordBody_workLines (Bool.eq_false_iff.mpr h) hline]
      rfl
    rw [if_neg h, if_neg h, hnone]
    exact maskClock.map_keep_self_iff

/-- **A payload without an update changes no table exactly if it spares them.** -/
theorem unchanged_iff {b : BotState} {payload : Str}
    (hpurge : ∀ line ∈ splitOn (byte '\n') payload, lit (str "PURGE|") line = none)
    (hzero : (processConfigData P b payload).1 = 0) :
    tables (processConfigData P b payload).2 = tables b ↔ Spared P b payload := by
  rw [tables_processConfigData P hpurge hzero, Tables.ext_iff]
  constructor
  · rintro ⟨husers, hmasks, hbots, -, -⟩
    exact ⟨(users_eq_iff P b payload).mp husers, (masks_eq_iff b payload).mp hmasks,
      (foldl_sweepUuid_eq_self _).2.mp hbots⟩
  · rintro ⟨husers, hmasks, hbots⟩
    exact ⟨(users_eq_iff P b payload).mpr husers, (masks_eq_iff b payload).mpr hmasks,
      (foldl_sweepUuid_eq_self _).2.mpr hbots, rfl, rfl⟩

/-- A bot with something in every table. -/
def settled : BotState where
  optFlagsTs := 50
  userRecords := [
    { uuid := str "u1", name := str "alice", isActive := true, lastSeen := 90, timestamp := 5 },
    { uuid := str "u2", name := str "bob", typ := byte 'o', timestamp := 8 }]
  maskRecords := [
    { uuid := str "u1", mask := str "alice!*@home", isActive := true, lastUsed := 90, timestamp := 5 },
    { uuid := str "u1", mask := str "al!*@work", timestamp := 7 }]
  trustedBots := [
    { mask := str "leaf!u@h", uuid := str "b1", ts := 5 },
    { mask := str "twig!u@h", uuid := str "b2", ts := 6 }]
  chans := [
    { name := str "#c", isManaged := true, timestamp := 40, cfgModes := str "+nt", cfgTs := 100
      cfgActive := true },
    { name := str "#d", timestamp := 45 }]
  cfgBans := [
    { chan := str "#c", mask := str "*!*@bad", setter := str "alice", reason := str "spam", ts := 70
      active := true }]

/-- Older records of a channel, its settings, a ban, the flags and a bot, and a ban without a
mask. -/
def olderRecords : Str :=
  str "# nothing new\nc|#c||add|30\nC|#c|+s||add|90\nB|#c|*!*@bad|0||bob||del|60\nO|h|20\n" ++
    str "b|leaf!u@h|b1|3\nB|#c||0||bob||add|99\n"

/-- All of them are turned down, and each table stays. -/
theorem unchanged_olderRecords :
    tables (processConfigData .clear settled olderRecords).2 = tables settled := by
  refine (unchanged_iff .clear (by decide +kernel) (by decide +kernel)).mpr ⟨?_, ?_, ?_⟩
  · rw [if_neg (by decide +kernel)]
    decide +kernel
  · rw [if_neg (by decide +kernel)]
    decide +kernel
  · decide +kernel

/-- One malformed `a|` line empties the table of users. -/
theorem not_unchanged :
    ¬ ∀ (P : Primitives) (b : BotState) (payload : Str),
        (∀ line ∈ splitOn (byte '\n') payload, lit (str "PURGE|") line = none) →
        (processConfigData P b payload).1 = 0 →
          tables (processConfigData P b payload).2 = tables b := by
  intro hall
  let b : BotState :=
    { userRecords := [{ uuid := str "u", name := str "admin", isActive := true, timestamp := 5 }] }
  have hsame := hall .clear b (str "a|garbage") (by decide) (by decide)
  have husers := congrArg Tables.users hsame
  revert husers
  decide

end

end IrcBot.NoUpdate
