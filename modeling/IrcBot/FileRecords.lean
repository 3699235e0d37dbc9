/-
# The records of the config file

What `serialize` writes is one record after the other, each on a line of its own, and `load` reads
them in that order.

* `serialize_eq` — the text is that of the records of the state.
* `foldl_records` — reading the text is reading the records.
* `records_ok` — so it is for every state that can be saved.
-/
import IrcBot.BanTable
import IrcBot.ConfigFile
import IrcBot.Stamps

namespace IrcBot.ConfigFile

open Cstr Crypto Chancfg Config Envelope ChanRecord SettingsMerge Stamps

/-! ### Lines -/

/-- A text without a line break and without a NUL. -/
def OneLine (f : Str) : Prop := ∀ c ∈ f, c ≠ 0 ∧ c ≠ 10 ∧ c ≠ 13

instance : DecidablePred OneLine := List.decidableBAll fun c => c ≠ 0 ∧ c ≠ 10 ∧ c ≠ 13

/-- A field that stands in front of another. -/
def Field (f : Str) : Prop := OneLine f ∧ byte '|' ∉ f

instance : DecidablePred Field := fun f => inferInstanceAs (Decidable (OneLine f ∧ byte '|' ∉ f))

@[simp] theorem oneLine_nil : OneLine [] := by simp [OneLine]

@[simp] theorem oneLine_append {f g : Str} : OneLine (f ++ g) ↔ OneLine f ∧ OneLine g := by
  exact List.forall_mem_append

theorem oneLine_cons {c : UInt8} {f : Str} :
    OneLine (c :: f) ↔ (c ≠ 0 ∧ c ≠ 10 ∧ c ≠ 13) ∧ OneLine f := by
  simp [OneLine]

@[simp] theorem oneLine_dec (v : Int) : OneLine (dec v) := by
  intro c hc
  have hne {d : UInt8} (hdigit : isDigit d = false) (hminus : d ≠ byte '-') : c ≠ d := by
    rintro rfl
    exact notMem_dec hdigit hminus hc
  exact ⟨hne (by decide) (by decide), hne (by decide) (by decide), hne (by decide) (by decide)⟩

@[simp] theorem oneLine_decNat (n : Nat) : OneLine (decNat n) := oneLine_dec n

@[simp] theorem oneLine_addDel (active : Bool) : OneLine (addDel active) := by
  cases active <;> decide

@[simp] theorem oneLine_pipe : OneLine (str "|") := by decide

@[simp] theorem oneLine_sep {f : Str} : OneLine (byte '|' :: f) ↔ OneLine f := by
  rw [oneLine_cons]
  exact and_iff_right (by decide)

/-! ### Records -/

/-- A record: its letter, and what stands behind it. -/
abbrev Rec := UInt8 × Str

/-- The record as a line. -/
def Rec.text (r : Rec) : Str := r.1 :: byte '|' :: r.2 ++ str "\n"

/-- A record that is read as it was written. -/
structure Rec.Ok (r : Rec) : Prop where
  letter : r.1 ≠ 0 ∧ r.1 ≠ 10 ∧ r.1 ≠ 13 ∧ r.1 ≠ byte '#'
  body : OneLine r.2

theorem ok_record {c : UInt8} (hc : c ≠ 0 ∧ c ≠ 10 ∧ c ≠ 13 ∧ c ≠ byte '#') {f : Str}
    (hf : OneLine f) : Rec.Ok (c, f) := ⟨hc, hf⟩

/-- A record that may be missing. -/
theorem ok_ite {p : Prop} [Decidable p] {r : Rec} (h : p → r.Ok) :
    ∀ r' ∈ (if p then [r] else []), Rec.Ok r' := by
  split
  · exact List.forall_mem_singleton.mpr (h ‹_›)
  · exact List.forall_mem_nil _

theorem ok_unless {p : Prop} [Decidable p] {r : Rec} (h : ¬ p → r.Ok) :
    ∀ r' ∈ (if p then [] else [r]), Rec.Ok r' := by
  split
  · exact List.forall_mem_nil _
  · exact List.forall_mem_singleton.mpr (h ‹_›)

section

variable (P : Primitives)

theorem loadLine_record (l : Loading) {r : Rec} (h : r.Ok) :
    loadLine P l (r.1 :: byte '|' :: r.2) = loadRecord P l r.1 r.2 := by
  have hline : OneLine (r.1 :: byte '|' :: r.2) := by
    rw [oneLine_cons, oneLine_cons]
    exact ⟨⟨h.letter.1, h.letter.2.1, h.letter.2.2.1⟩, by decide, h.body⟩
  have hcr : (r.1 :: byte '|' :: r.2).getLast? ≠ some 13 := fun hlast =>
    (hline 13 (List.mem_of_getLast? hlast)).2.2 rfl
  have hnul : (0 : UInt8) ∉ r.1 :: byte '|' :: r.2 := fun hmem => (hline 0 hmem).1 rfl
  rw [loadLine, stripCr, if_neg hcr, untilNul_eq_self hnul]
  exact if_pos ⟨h.letter.2.2.2, rfl⟩

/-- **Reading the text is reading the records.** -/
theorem foldl_records {rs : List Rec} (h : ∀ r ∈ rs, r.Ok) (l : Loading) :
    (splitOn (byte '\n') (rs.flatMap Rec.text)).foldl (loadLine P) l =
      rs.foldl (fun l r => loadRecord P l r.1 r.2) l := by
  induction rs generalizing l with
  | nil => rfl
  | cons r rs ih =>
      have hr := h r List.mem_cons_self
      have hlf : byte '\n' ∉ r.1 :: byte '|' :: r.2 := by
        rw [List.mem_cons, List.mem_cons]
        rintro (heq | heq | hmem)
        · exact hr.letter.2.1 heq.symm
        · exact absurd heq (by decide)
        · exact (hr.body _ hmem).2.1 rfl
      have htext : (r :: rs).flatMap Rec.text =
          (r.1 :: byte '|' :: r.2) ++ byte '\n' :: rs.flatMap Rec.text := by
        rw [List.flatMap_cons, Rec.text, List.append_assoc]
        rfl
      rw [htext, splitOn_append hlf, List.foldl_cons, List.foldl_cons, loadLine_record P l hr]
      exact ih (fun r' hr' => h r' (List.mem_cons_of_mem r hr')) _

end

/-! ### The records of a state -/

/-- The settings of a channel. -/
def settingsOf (c : Chan) : CRecord := ⟨c.name, c.cfgModes, c.cfgSettings, c.cfgActive, c.cfgTs⟩

/-- A channel that has a `c|` record. -/
def listed (c : Chan) : Bool := c.timestamp != 0 || c.isManaged

def netBody (b : BotState) : Str := b.netModes ++ str "|" ++ b.netSettings ++ str "|" ++ dec b.netTs

def userBody (u : UserRecord) : Str :=
  u.uuid ++ byte '|' :: (u.name ++ byte '|' :: ((if u.hasPubkey then u.pubkeyB64 else []) ++
    byte '|' :: (addDel u.isActive ++ byte '|' :: (dec u.lastSeen ++ byte '|' ::
    (dec u.timestamp ++ byte '|' :: [])))))

def maskBody (m : MaskRecord) : Str :=
  m.uuid ++ byte '|' :: (m.mask ++ byte '|' :: (addDel m.isActive ++ byte '|' ::
    (dec m.lastUsed ++ byte '|' :: dec m.timestamp)))

section

variable (P : Primitives)

def botBody (tb : TrustedBot) : Str :=
  tb.mask ++ byte '|' :: (tb.uuid ++ byte '|' ::
    ((if tb.hasPub then P.b64Encode tb.pubKey else []) ++ byte '|' :: dec tb.ts))

def hubBody (h : HubEntry) : Str := h.addr ++ h.edPub.elim [] fun k => byte '|' :: P.b64Encode k

/-- The records that `serialize` writes. -/
def records (s : FileState) : List Rec :=
  (byte 'n', s.targetNick) :: s.serverList.map (byte 's', ·) ++
    (s.chans.filter listed).map (fun c => (byte 'c', cfgBody c)) ++
    (s.chans.filter fun c => 0 < c.cfgTs).map (fun c => (byte 'C', cBody (settingsOf c) c.cfgTs)) ++
    (if 0 < s.netTs then [(byte 'D', netBody s.toBotState)] else []) ++
    s.cfgBans.map (fun x => (byte 'B', bBody x x.ts)) ++
    s.userRecords.map (fun u => (u.typ, userBody u)) ++
    s.maskRecords.map (fun m => (byte 'm', maskBody m)) ++
    s.trustedBots.map (fun tb => (byte 'b', botBody P tb)) ++
    (if s.logLevel ≠ defaultLogLevel then [(byte 'l', dec (toI32 s.logLevel.toNat))] else []) ++
    (if s.logMaxSize ≠ botLogFileSize then [(byte 'L', decNat s.logMaxSize)] else []) ++
    [(byte 'u', s.user), (byte 'g', s.gecos)] ++
    (if s.vhost.isEmpty then [] else [(byte 'v', s.vhost)]) ++
    s.hubEntries.map (fun h => (byte 'h', hubBody P h)) ++
    (if s.hubKey.isEmpty then [] else [(byte 'k', s.hubKey)]) ++
    (if s.botUuid.isEmpty then [] else [(byte 'i', s.botUuid)]) ++
    (if !s.optFlags.isEmpty || 0 < s.optFlagsTs then
      [(byte 'O', s.optFlags ++ str "|" ++ dec s.optFlagsTs)] else []) ++
    (if s.adminDeltaPending then [(byte 'D', str "1")] else [])

/-! ### The lines of the records -/

theorem listed_iff {c : Chan} : listed c = true ↔ ¬ (c.timestamp = 0 ∧ (!c.isManaged) = true) := by
  rw [listed, Bool.or_eq_true, bne_iff_ne, Bool.not_eq_true', not_and_or, Bool.not_eq_false]

theorem cfgChanLine_text (c : Chan) :
    cfgChanLine c = if listed c then some (Rec.text (byte 'c', cfgBody c)) else none := by
  unfold cfgChanLine
  by_cases h : listed c = true
  · rw [if_neg (listed_iff.mp h), if_pos h]
    simp [Rec.text, cfgBody, str, byte]
  · rw [if_pos (not_not.mp (mt listed_iff.mpr h)), if_neg h]

theorem formatCLine_text {c : Chan} {line : Str} (h : formatCLine c = some line) :
    line = if 0 < c.cfgTs then Rec.text (byte 'C', cBody (settingsOf c) c.cfgTs) else [] := by
  unfold formatCLine at h
  split at h
  · rename_i hts
    rw [if_neg (Int.not_lt.mpr hts)]
    exact (Option.some.inj h).symm
  · rename_i hts
    rw [if_pos (Int.not_le.mp hts)]
    dsimp only at h
    split at h
    · rw [← Option.some.inj h]
      simp [Rec.text, cBody, settingsOf, str, byte]
    · cases h

theorem formatDLine_text {b : BotState} {line : Str} (h : formatDLine b = some line) :
    line = if 0 < b.netTs then Rec.text (byte 'D', netBody b) else [] := by
  unfold formatDLine at h
  split at h
  · rename_i hts
    rw [if_neg (Int.not_lt.mpr hts)]
    exact (Option.some.inj h).symm
  · rename_i hts
    rw [if_pos (Int.not_le.mp hts)]
    dsimp only at h
    split at h
    · rw [← Option.some.inj h]
      simp [Rec.text, netBody, str, byte]
    · cases h

theorem formatBLine_text {x : CfgBan} {line : Str} (h : formatBLine x = some line) :
    line = Rec.text (byte 'B', bBody x x.ts) := by
  unfold formatBLine at h
  dsimp only at h
  split at h
  · rw [← Option.some.inj h]
    simp [Rec.text, bBody, bHead, str, byte]
  · cases h

theorem formatUserLine_text (u : UserRecord) :
    formatUserLine u = Rec.text (u.typ, userBody u) := by
  simp [formatUserLine, Rec.text, userBody, str, byte]

theorem formatMaskLine_text (m : MaskRecord) :
    formatMaskLine m = Rec.text (byte 'm', maskBody m) := by
  simp [formatMaskLine, Rec.text, maskBody, str, byte]

theorem formatBotLine_text (tb : TrustedBot) :
    formatBotLine P tb = Rec.text (byte 'b', botBody P tb) := by
  simp [formatBotLine, Rec.text, botBody, str, byte]

theorem hubLine_text (h : HubEntry) : hubLine P h = Rec.text (byte 'h', hubBody P h) := by
  cases hpin : h.edPub <;> simp [hubLine, Rec.text, hubBody, hpin, str, byte]

theorem within_eq_some {limit : Nat} {line line' : Str} (h : within limit line = some line') :
    line' = line := by
  unfold within at h
  split at h
  · exact (Option.some.inj h).symm
  · cases h

/-- Where each line is the one of its record, so are all of them. -/
theorem eq_map_of_mapM {α : Type} {f : α → Option Str} {g : α → Str}
    (hf : ∀ a line, f a = some line → line = g a) {xs : List α} :
    ∀ {ls : List Str}, xs.mapM f = some ls → ls = xs.map g := by
  induction xs with
  | nil =>
      intro ls h
      exact (Option.some.inj h).symm
  | cons a xs ih =>
      intro ls h
      rw [List.mapM_cons, Option.bind_eq_bind, Option.bind_eq_some_iff] at h
      obtain ⟨line, hline, h⟩ := h
      rw [Option.bind_eq_bind, Option.bind_eq_some_iff] at h
      obtain ⟨rest, hrest, h⟩ := h
      rw [← Option.some.inj h, List.map_cons, ← ih hrest, ← hf a line hline]

/-- Where only some have a record, the lines of the others are empty. -/
theorem flatMap_ite {α : Type} (p : α → Prop) [DecidablePred p] (g : α → Str) (xs : List α) :
    (xs.flatMap fun a => if p a then g a else []) = (xs.filter p).flatMap g := by
  induction xs with
  | nil => rfl
  | cons a xs ih =>
      by_cases h : p a
      · rw [List.flatMap_cons, if_pos h, ih, List.filter_cons_of_pos (by simpa using h),
          List.flatMap_cons]
      · rw [List.flatMap_cons, if_neg h, ih, List.filter_cons_of_neg (by simpa using h),
          List.nil_append]

theorem filterMap_cfgChanLine (cs : List Chan) :
    cs.filterMap cfgChanLine = (cs.filter listed).map fun c => Rec.text (byte 'c', cfgBody c) := by
  induction cs with
  | nil => rfl
  | cons c cs ih =>
      rw [List.filterMap_cons, cfgChanLine_text]
      by_cases h : listed c = true
      · rw [if_pos h, List.filter_cons_of_pos h, List.map_cons, ih]
      · rw [if_neg h, List.filter_cons_of_neg h, ih]

/-- **The text is that of the records.** -/
theorem serialize_eq {s : FileState} {text : Str} (h : serialize P s = some text) :
    text = (records P s).flatMap Rec.text := by
  unfold serialize at h
  obtain ⟨ls, hls, htext⟩ := Option.bind_eq_some_iff.mp h
  obtain rfl := within_eq_some htext
  unfold lines at hls
  simp only [Option.bind_eq_bind, Option.bind_eq_some_iff] at hls
  obtain ⟨settings, hsettings, defaults, hdefaults, bans, hbans, users, husers, bots,
    hbots, hls⟩ := hls
  have hsettings := eq_map_of_mapM (fun _ _ => formatCLine_text) hsettings
  have hdefaults := formatDLine_text hdefaults
  have hbans := eq_map_of_mapM (fun _ _ => formatBLine_text) hbans
  have husers := eq_map_of_mapM (fun _ _ => within_eq_some) husers
  have hbots := eq_map_of_mapM (fun _ _ => within_eq_some) hbots
  rw [← Option.some.inj hls, hsettings, hdefaults, hbans, husers, hbots, filterMap_cfgChanLine]
  have htext (f : Str) :
      str "n|" ++ f ++ str "\n" = Rec.text (byte 'n', f) ∧
      str "s|" ++ f ++ str "\n" = Rec.text (byte 's', f) ∧
      str "l|" ++ f ++ str "\n" = Rec.text (byte 'l', f) ∧
      str "L|" ++ f ++ str "\n" = Rec.text (byte 'L', f) ∧
      str "u|" ++ f ++ str "\n" = Rec.text (byte 'u', f) ∧
      str "g|" ++ f ++ str "\n" = Rec.text (byte 'g', f) ∧
      str "v|" ++ f ++ str "\n" = Rec.text (byte 'v', f) ∧
      str "k|" ++ f ++ str "\n" = Rec.text (byte 'k', f) ∧
      str "i|" ++ f ++ str "\n" = Rec.text (byte 'i', f) := ⟨rfl, rfl, rfl, rfl, rfl, rfl,
        rfl, rfl, rfl⟩
  have hflags (f g : Str) :
      str "O|" ++ f ++ str "|" ++ g ++ str "\n" = Rec.text (byte 'O', f ++ str "|" ++ g) := rfl
  have hpending : str "D|1\n" = Rec.text (byte 'D', str "1") := rfl
  simp only [records, List.flatten_append, List.flatMap_append, List.flatMap_map,
    ← List.flatMap_def,
    flatMap_ite, htext, hflags, hpending, funext formatUserLine_text, funext formatMaskLine_text,
    funext (formatBotLine_text P), funext (hubLine_text P), apply_ite List.flatten,
    apply_ite (List.flatMap Rec.text), List.flatten_cons, List.flatten_nil, List.flatMap_cons,
    List.flatMap_nil, List.append_nil]

end

/-! ### What can be kept -/

structure SavableChan (c : Chan) : Prop where
  name : Field c.name
  name_ne : c.name ≠ []
  name_lt : c.name.length < maxChan
  key : Field c.key
  key_lt : c.key.length < maxKey
  stamp : listed c = true → 0 < c.timestamp ∧ c.timestamp ≤ i64Max
  settings : 0 < c.cfgTs → Chancmd.CChecks (settingsOf c)
  plain : ¬ 0 < c.cfgTs →
    c.cfgModes = [] ∧ c.cfgSettings = [] ∧ c.cfgTs = 0 ∧ c.cfgActive = false

section

variable (P : Primitives)

structure SavableUser (u : UserRecord) : Prop where
  uuid : isUuid u.uuid = true
  name : Field u.name
  name_ne : u.name ≠ []
  name_lt : u.name.length < userNameBuf
  key : u.hasPubkey = true → fieldPubkey P u.pubkeyB64 = some u.pubkeyB64
  no_key : u.hasPubkey = false → u.pubkeyB64 = []
  typ : u.typ = byte 'a' ∨ u.typ = byte 'o'
  seen : i64Min ≤ u.lastSeen ∧ u.lastSeen ≤ i64Max
  stamp : i64Min ≤ u.timestamp ∧ u.timestamp ≤ i64Max

structure SavableMask (m : MaskRecord) : Prop where
  uuid : Field m.uuid
  dashes : hasUuidDashes m.uuid = true
  mask : Field m.mask
  mask_lt : m.mask.length < maxMaskLen
  used : i64Min ≤ m.lastUsed ∧ m.lastUsed ≤ i64Max
  stamp : i64Min ≤ m.timestamp ∧ m.timestamp ≤ i64Max

structure SavableBot (tb : TrustedBot) : Prop where
  mask : Field tb.mask
  mask_ne : tb.mask ≠ []
  mask_lt : tb.mask.length < maxMaskLen
  uuid : Field tb.uuid
  uuid_lt : tb.uuid.length < uuidBuf
  key : tb.hasPub = true → pubkeyB64Decode P (P.b64Encode tb.pubKey) = some tb.pubKey
  no_key : tb.hasPub = false → tb.pubKey = []
  stamp : i64Min ≤ tb.ts ∧ tb.ts ≤ i64Max

structure SavableHub (h : HubEntry) : Prop where
  addr : Field h.addr
  addr_lt : h.addr.length < 256
  pin : ∀ k, h.edPub = some k → k.length = 32 ∧ OneLine (P.b64Encode k) ∧
    b64Decode P (P.b64Encode k) = some k

/-- The texts fit on their lines, the tables are within their limits and have no key twice. -/
structure Savable (s : FileState) : Prop where
  nick : OneLine s.targetNick
  nick_lt : s.targetNick.length < maxNick
  servers : ∀ x ∈ s.serverList, OneLine x
  servers_le : s.serverList.length ≤ maxServers
  chans : ∀ c ∈ s.chans, SavableChan c
  names : (s.chans.map fun c => c.name.map lower).Nodup
  net : 0 < s.netTs → validModesField s.netModes = true ∧ s.netSettings.length ≤ dSettingsMax ∧
    plainText s.netSettings = true ∧ s.netTs ≤ maxLl
  no_net : ¬ 0 < s.netTs → s.netModes = [] ∧ s.netSettings = [] ∧ s.netTs = 0
  bans : ∀ x ∈ s.cfgBans, BanChecks x
  bans_sound : BanTable.Sound s.cfgBans
  users : ∀ u ∈ s.userRecords, SavableUser P u
  users_le : s.userRecords.length ≤ maxUserRecords
  masks : ∀ m ∈ s.maskRecords, SavableMask m
  masks_le : s.maskRecords.length ≤ maxUserMasks
  bots : ∀ tb ∈ s.trustedBots, SavableBot P tb
  bots_le : s.trustedBots.length ≤ maxTrustedBots
  log_size : botLogSizeMin ≤ s.logMaxSize ∧ s.logMaxSize ≤ botLogSizeMax
  user : OneLine s.user
  user_lt : s.user.length < 64
  gecos : OneLine s.gecos
  gecos_lt : s.gecos.length < 128
  vhost : OneLine s.vhost
  vhost_lt : s.vhost.length < 128
  hubs : ∀ h ∈ s.hubEntries, SavableHub P h
  hubs_le : s.hubEntries.length ≤ maxServers
  addrs : s.hubs = s.hubEntries.map (·.addr)
  key : s.hubKey ≠ [] → OneLine s.hubKey ∧ s.hubKey.length < maxHubKeySize ∧
    b64Decode P s.hubKey = some s.hubKeyRaw ∧ s.hubKeyRaw.length = hubKeyRawLen
  no_key : s.hubKey = [] → s.hubKeyRaw = List.replicate hubKeyRawLen 0
  uuid : OneLine s.botUuid
  uuid_lt : s.botUuid.length < 64
  /-- A bot without a hub made its own key and uuid as it loaded its file. -/
  own : s.hubEntries = [] → s.hubKey ≠ [] ∧ s.botUuid ≠ []
  flags : ∀ c ∈ s.optFlags, isAlnum c = true
  flags_le : s.optFlags.length ≤ maxOptFlags
  flags_stamp : s.optFlagsTs ≤ i64Max ∧ (0 < s.optFlagsTs ∨ s.optFlags = [] ∧ s.optFlagsTs = 0)

/-! ### Every record is read -/

variable {P}

theorem oneLine_of_le {f : Str} (h : ∀ c ∈ f, 0x20 ≤ c) : OneLine f := by
  intro c hc
  have hle := h c hc
  refine ⟨?_, ?_, ?_⟩ <;> rintro rfl <;> exact absurd hle (by decide)

theorem oneLine_plainText {f : Str} (h : plainText f = true) : OneLine f := by
  simp only [plainText, List.all_eq_true, Bool.and_eq_true, decide_eq_true_eq] at h
  exact oneLine_of_le fun c hc => (h c hc).1.1

theorem oneLine_modes {f : Str} (h : validModesField f = true) : OneLine f := by
  simp only [validModesField, List.all_eq_true, Bool.and_eq_true, decide_eq_true_eq] at h
  exact oneLine_of_le fun c hc => (h.2 c hc).1.1

theorem oneLine_chanName {f : Str} (h : validChanName f = true) : OneLine f := by
  simp only [validChanName, List.all_eq_true, Bool.and_eq_true, decide_eq_true_eq] at h
  exact oneLine_of_le fun c hc => UInt8.le_of_lt (h.2 c hc).1.1.1

theorem isDigit_cases {c : UInt8} (h : isDigit c = true) : 0x20 ≤ c ∧ c ≠ byte '|' := by
  simp only [isDigit, Bool.and_eq_true, decide_eq_true_eq] at h
  refine ⟨UInt8.le_trans (by decide) h.1, ?_⟩
  rintro rfl
  exact absurd h.2 (by decide)

theorem isAlpha_cases {c : UInt8} (h : isAlpha c = true) : 0x20 ≤ c ∧ c ≠ byte '|' := by
  simp only [isAlpha, Bool.or_eq_true, Bool.and_eq_true, decide_eq_true_eq] at h
  rcases h with h | h
  · refine ⟨UInt8.le_trans (by decide) h.1, ?_⟩
    rintro rfl
    exact absurd h.2 (by decide)
  · refine ⟨UInt8.le_trans (by decide) h.1, ?_⟩
    rintro rfl
    exact absurd h.2 (by decide)

theorem field_of_cases {f : Str} (h : ∀ c ∈ f, 0x20 ≤ c ∧ c ≠ byte '|') : Field f :=
  ⟨oneLine_of_le fun c hc => (h c hc).1, fun hc => (h _ hc).2 rfl⟩

/-- A text that is checked byte by byte, each with its place. -/
theorem field_of_places {f : Str} {p : UInt8 × Nat → Bool} (h : f.zipIdx.all p = true)
    (hp : ∀ c i, p (c, i) = true → 0x20 ≤ c ∧ c ≠ byte '|') : Field f := by
  refine field_of_cases fun c hc => ?_
  obtain ⟨i, hi⟩ := List.mem_iff_getElem?.mp hc
  exact hp c i (List.all_eq_true.mp h (c, i) (List.mem_zipIdx_iff_getElem?.mpr hi))

theorem field_pubkey {f k : Str} (h : pubkeyB64Decode P f = some k) : Field f := by
  unfold pubkeyB64Decode at h
  dsimp only at h
  split at h
  · cases h
  · split at h
    · cases h
    · rename_i hall
      simp only [Bool.not_eq_true', Bool.not_eq_false] at hall
      refine field_of_places hall fun c i hc => ?_
      dsimp only at hc
      split at hc
      · obtain rfl := eq_of_beq hc
        decide
      · simp only [Bool.or_eq_true, beq_iff_eq] at hc
        rcases hc with (((hc | hc) | hc) | rfl) | rfl
        · exact isDigit_cases hc
        · exact isAlpha_cases (by rw [isAlpha, hc, Bool.true_or])
        · exact isAlpha_cases (by rw [isAlpha, hc, Bool.or_true])
        · decide
        · decide

theorem isHexDigit_cases {c : UInt8} (h : isHexDigit c = true) : 0x20 ≤ c ∧ c ≠ byte '|' := by
  simp only [isHexDigit, Bool.or_eq_true, Bool.and_eq_true, decide_eq_true_eq] at h
  rcases h with (h | h) | h
  · exact isDigit_cases h
  · refine isAlpha_cases ?_
    simp only [isAlpha, Bool.or_eq_true, Bool.and_eq_true, decide_eq_true_eq]
    exact .inl ⟨h.1, UInt8.le_trans h.2 (by decide)⟩
  · refine isAlpha_cases ?_
    simp only [isAlpha, Bool.or_eq_true, Bool.and_eq_true, decide_eq_true_eq]
    exact .inr ⟨h.1, UInt8.le_trans h.2 (by decide)⟩

theorem field_uuid {f : Str} (h : isUuid f = true) : Field f := by
  rw [isUuid, Bool.and_eq_true] at h
  refine field_of_places h.2 fun c i hc => ?_
  dsimp only at hc
  split at hc
  · obtain rfl := eq_of_beq hc
    decide
  · exact isHexDigit_cases hc

theorem fieldPubkey_eq {f k : Str} (h : fieldPubkey P f = some k) :
    f = k ∧ ∃ key, pubkeyB64Decode P f = some key := by
  unfold fieldPubkey at h
  split at h
  · cases h
  · obtain ⟨key, hkey, rfl⟩ := Option.map_eq_some_iff.mp h
    exact ⟨rfl, key, hkey⟩

theorem SavableUser.field_key {u : UserRecord} (h : SavableUser P u) :
    Field (if u.hasPubkey then u.pubkeyB64 else []) := by
  split
  · obtain ⟨-, key, hkey⟩ := fieldPubkey_eq (h.key ‹_›)
    exact field_pubkey hkey
  · exact ⟨oneLine_nil, List.not_mem_nil⟩

theorem SavableBot.field_key {tb : TrustedBot} (h : SavableBot P tb) :
    Field (if tb.hasPub then P.b64Encode tb.pubKey else []) := by
  split
  · exact field_pubkey (h.key ‹_›)
  · exact ⟨oneLine_nil, List.not_mem_nil⟩

theorem oneLine_bBody {x : CfgBan} (h : BanChecks x) : OneLine (bBody x x.ts) := by
  have hchan : OneLine x.chan := by
    by_cases hstar : x.chan = str "*"
    · rw [hstar]
      decide
    · exact oneLine_chanName (by simpa [hstar] using h.chan)
  have hmask : plainText x.mask = true := by
    have hmask := h.mask
    simp only [Bool.or_eq_true, not_or, Bool.not_eq_true', Bool.not_eq_false] at hmask
    exact hmask.1.2
  have hflags : plainText x.flags = true := by
    have hflags := h.flags
    simp only [Bool.or_eq_true, not_or, Bool.not_eq_true', Bool.not_eq_false] at hflags
    exact hflags.2
  have hsetter : plainText x.setter = true := by
    have hsetter := h.setter
    simp only [Bool.or_eq_true, not_or, Bool.not_eq_true', Bool.not_eq_false] at hsetter
    exact hsetter.2
  have hreason : OneLine x.reason := by
    have hreason := h.reason
    simp only [Bool.or_eq_true, not_or, List.any_eq_true, not_exists, not_and,
      decide_eq_true_eq] at hreason
    exact oneLine_of_le fun c hc => UInt8.not_lt.mp fun hlt => (hreason.2 c hc).1 hlt
  simp [bBody, bHead, hchan, oneLine_plainText hmask, oneLine_plainText hflags,
    oneLine_plainText hsetter, hreason]

/-- **Every record is read as it was written.** -/
theorem records_ok {s : FileState} (h : Savable P s) : ∀ r ∈ records P s, r.Ok := by
  have hflags : OneLine s.optFlags := oneLine_of_le fun c hc => by
    have halnum := h.flags c hc
    rw [isAlnum, Bool.or_eq_true] at halnum
    exact halnum.elim (fun hdigit => (isDigit_cases hdigit).1) fun halpha => (isAlpha_cases halpha).1
  simp only [records, List.forall_mem_append, List.forall_mem_cons, List.forall_mem_map, and_assoc]
  refine ⟨ok_record (by decide) h.nick, fun x hx => ok_record (by decide) (h.servers x hx),
    fun c hc => ok_record (by decide) ?_, fun c hc => ok_record (by decide) ?_,
    ok_ite fun hts => ok_record (by decide) ?_,
    fun x hx => ok_record (by decide) (oneLine_bBody (h.bans x hx)),
    fun u hu => ok_record ?_ ?_, fun m hm => ok_record (by decide) ?_,
    fun tb htb => ok_record (by decide) ?_, ok_ite fun _ => ok_record (by decide) (oneLine_dec _),
    ok_ite fun _ => ok_record (by decide) (oneLine_decNat _), ok_record (by decide) h.user,
    ok_record (by decide) h.gecos, List.forall_mem_nil _,
    ok_unless fun _ => ok_record (by decide) h.vhost, fun e he => ok_record (by decide) ?_,
    ok_unless fun hne => ok_record (by decide) (h.key fun hnil => hne (by rw [hnil]; rfl)).1,
    ok_unless fun _ => ok_record (by decide) h.uuid, ok_ite fun _ => ok_record (by decide) ?_,
      ok_ite fun _ => ok_record (by decide) (by decide)⟩
  · have hchan := h.chans c (List.mem_of_mem_filter hc)
    simp [cfgBody, hchan.name.1, hchan.key.1]
  · obtain ⟨hmem, hts⟩ := List.mem_filter.mp hc
    have hchecks := (h.chans c hmem).settings (of_decide_eq_true hts)
    have hname : OneLine c.name := oneLine_chanName hchecks.chan
    have hmodes : OneLine c.cfgModes := oneLine_modes hchecks.modes
    have hsettings : OneLine c.cfgSettings := oneLine_plainText hchecks.plain
    simp [cBody, settingsOf, hname, hmodes, hsettings]
  · obtain ⟨hmodes, -, hsettings, -⟩ := h.net hts
    simp [netBody, oneLine_modes hmodes, oneLine_plainText hsettings]
  · rcases (h.users u hu).typ with htyp | htyp <;> rw [htyp] <;> decide
  · have huser := h.users u hu
    simp [userBody, (field_uuid huser.uuid).1, huser.name.1, huser.field_key.1]
  · have hmask := h.masks m hm
    simp [maskBody, hmask.uuid.1, hmask.mask.1]
  · have hbot := h.bots tb htb
    simp [botBody, hbot.mask.1, hbot.uuid.1, hbot.field_key.1]
  · have hhub := h.hubs e he
    cases hpin : e.edPub with
    | none => simp [hubBody, hpin, hhub.addr.1]
    | some k => simp [hubBody, hpin, hhub.addr.1, (hhub.pin k hpin).2.1]
  · simp [hflags]

end

end IrcBot.ConfigFile
