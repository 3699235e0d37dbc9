/-
# What is left after a restart

The state is saved as one text and read from it by the next process. What the file keeps comes back
as it was, with one exception: settings of a channel that is not listed are kept while they are in
force, but not once they are deleted.

* `load_serialize` — the state that is read is the one that was saved.
-/
import IrcBot.FileChans
import IrcBot.ServerTokens

namespace IrcBot.ConfigFile

open Cstr Crypto Chancfg Config Envelope ChanRecord SettingsMerge Stamps BanTable LocalWrites

/-! ### What the file keeps -/

/-- What the file keeps of a channel. -/
structure KeptChan where
  name : Str
  key : Str
  isManaged : Bool
  timestamp : Int
  modes : Str
  settings : Str
  ts : Int
  active : Bool
deriving DecidableEq

/-- What the file keeps. -/
structure Durable where
  targetNick : Str
  serverList : List Str
  chans : List KeptChan
  netModes : Str
  netSettings : Str
  netTs : Int
  cfgBans : List CfgBan
  userRecords : List UserRecord
  maskRecords : List MaskRecord
  trustedBots : List TrustedBot
  logLevel : UInt32
  logMaxSize : Nat
  user : Str
  gecos : Str
  vhost : Str
  hubEntries : List HubEntry
  hubs : List Str
  hubKey : Str
  hubKeyRaw : Str
  botUuid : Str
  optFlags : Str
  optFlagsTs : Int
  adminDeltaPending : Bool
deriving DecidableEq

def keptChan (c : Chan) : KeptChan :=
  ⟨c.name, c.key, c.isManaged, c.timestamp, c.cfgModes, c.cfgSettings, c.cfgTs, c.cfgActive⟩

def keptBan (x : CfgBan) : CfgBan := { x with pushPending := false }

def keptUser (u : UserRecord) : UserRecord := { u with lastAuthReply := 0, actPending := 0 }

def keptMask (m : MaskRecord) : MaskRecord := { m with actPending := 0 }

def FileState.durable (s : FileState) : Durable where
  targetNick := s.targetNick
  serverList := s.serverList
  chans := s.chans.map keptChan
  netModes := s.netModes
  netSettings := s.netSettings
  netTs := s.netTs
  cfgBans := s.cfgBans.map keptBan
  userRecords := s.userRecords.map keptUser
  maskRecords := s.maskRecords.map keptMask
  trustedBots := s.trustedBots
  logLevel := s.logLevel
  logMaxSize := s.logMaxSize
  user := s.user
  gecos := s.gecos
  vhost := s.vhost
  hubEntries := s.hubEntries
  hubs := s.hubs
  hubKey := s.hubKey
  hubKeyRaw := s.hubKeyRaw
  botUuid := s.botUuid
  optFlags := s.optFlags
  optFlagsTs := s.optFlagsTs
  adminDeltaPending := s.adminDeltaPending

def KeptChan.listed (c : KeptChan) : Bool := c.timestamp != 0 || c.isManaged

/-- A channel that has settings in force and no record of its own. -/
def KeptChan.held (c : KeptChan) : Bool := !c.listed && c.active

/-- What comes back: the channels with a record, and then those that are held for their settings. -/
def Durable.back (d : Durable) : Durable :=
  { d with chans := d.chans.filter (·.listed) ++
      (d.chans.filter (·.held)).map fun c => { c with key := [] } }

/-! ### Network defaults and bans -/

/-- A `D|` record reaches nothing but the defaults of the network. -/
theorem applyDLine_frame (b : BotState) (data : Str) : ∃ modes settings set ts burst iv credit gen,
    (applyDLine b data).2 = { b with
      netModes := modes, netSettings := settings, netSet := set, netTs := ts, sendqBurst := burst
      sendqIntervalMs := iv, sendqCreditMs := credit, cfgGen := gen } := by
  have hsame : ∃ modes settings set ts burst iv credit gen, b = { b with
      netModes := modes, netSettings := settings, netSet := set, netTs := ts, sendqBurst := burst
      sendqIntervalMs := iv, sendqCreditMs := credit, cfgGen := gen } :=
    ⟨_, _, _, _, _, _, _, _, rfl⟩
  unfold applyDLine
  split
  · exact hsame
  · split
    · split
      · exact hsame
      · split
        · exact hsame
        · split
          · exact hsame
          · split
            · exact hsame
            · dsimp only
              split
              · exact ⟨_, _, _, _, _, _, _, _, rfl⟩
              · exact ⟨_, _, _, _, _, _, _, _, rfl⟩
    · exact hsame

/-- What is written of the network's settings is read back. -/
theorem readDLine_dBody (r : DRecord) (hlen : r.settings.length ≤ dSettingsMax)
    (hle : r.ts ≤ maxLl) : readDLine (dBody r r.ts) = some r := by
  have hmodes := validModesField_length r.validModes
  have hdec := length_dec_le (Int.le_of_lt r.pos) hle
  have hshort : ¬ dLineMax < (dBody r r.ts).length := by
    simp only [dBody, List.length_append, dLineMax, cModesMax, dSettingsMax,
      show (str "|").length = 1 from rfl] at hmodes hlen ⊢
    omega
  have hdata : dBody r r.ts = r.modes ++ byte '|' :: (r.settings ++ byte '|' :: dec r.ts) := by
    simp only [dBody, str, List.append_assoc]
    rfl
  have hsplit : splitPipes 3 (dBody r r.ts) = [r.modes, r.settings, dec r.ts] := by
    rw [hdata, splitPipes_append r.notMem_modes, splitPipes_append r.notMem_settings,
      splitPipes_of_notMem (Chancmd.pipe_notMem_dec r.ts)]
  have hstamp : parseLl (dec r.ts) = some r.ts := by
    rw [parseLl_dec (Int.le_of_lt r.pos), if_pos hle]
  rw [readDLine, if_neg hshort, hsplit]
  dsimp only
  rw [hstamp]
  exact dif_pos ⟨r.validModes, hlen, r.plainSettings, r.pos⟩

/-- They are taken where there are none yet. -/
theorem load_net {b : BotState} {modes settings : Str} {ts : Int}
    (hmodes : validModesField modes = true)
    (hlen : settings.length ≤ dSettingsMax) (hplain : plainText settings = true) (hpos : 0 < ts)
    (hle : ts ≤ maxLl) (hb : b.netTs = 0) : ∃ set burst iv credit gen,
      (applyDLine b (modes ++ str "|" ++ settings ++ str "|" ++ dec ts)).2 = { b with
        netModes := modes, netSettings := settings, netSet := set, netTs := ts, sendqBurst := burst
        sendqIntervalMs := iv, sendqCreditMs := credit, cfgGen := gen } := by
  let r : DRecord := ⟨modes, settings, ts, hmodes, hplain, hpos⟩
  have hread : readDLine (dBody r ts) = some r := readDLine_dBody r hlen hle
  have hnew : (netConfig b).level < r.level := by
    refine Prod.Lex.toLex_lt_toLex.mpr (.inl ?_)
    change b.netTs < ts
    rwa [hb]
  have hconfig := netConfig_applyDLine (b := b) hread
  rw [if_pos hnew] at hconfig
  obtain ⟨modes', settings', set, ts', burst, iv, credit, gen, hframe⟩ :=
    applyDLine_frame b (dBody r ts)
  rw [hframe] at hconfig
  obtain ⟨rfl, rfl, rfl⟩ : modes' = modes ∧ settings' = settings ∧ ts' = ts := by
    simpa [netConfig, DRecord.config, r] using hconfig
  exact ⟨set, burst, iv, credit, gen, hframe⟩

/-- A ban of a new key goes to the end of the table. -/
theorem banStore_new {b : BotState} {r : CfgBan} (hnew : ∀ x ∈ b.cfgBans, banKey x ≠ banKey r)
    (hsize : b.cfgBans.length < cfgMaxBans)
    (hroom : r.active = true → activeBans b.cfgBans r.chan < cap r.chan) :
    (banStore b r).2 = { b with cfgBans := b.cfgBans ++ [r], cfgGen := b.cfgGen + 1 } := by
  have hroom : (r.active && !banActiveRoom b r.chan) = false := by
    cases hactive : r.active with
    | false => rfl
    | true => simp [(banActiveRoom_iff b r.chan).mpr (hroom hactive)]
  rw [banStore_of_none (banIdx_eq_none_iff.mpr hnew), hroom, if_neg Bool.false_ne_true, banSlot,
    if_pos hsize]
  simp

/-- A table holds what stands at its front. -/
theorem sound_of_append {xs ys : List CfgBan} (h : Sound (xs ++ ys)) : Sound xs where
  keys := by
    have hkeys := h.keys
    rw [List.map_append] at hkeys
    exact (List.nodup_append.mp hkeys).1
  size := Nat.le_trans (by simp) h.size
  room chan := Nat.le_trans ((List.sublist_append_left xs ys).countP_le) (h.room chan)

/-- The records of a table, of which nothing waits to be pushed. -/
theorem load_bans {xs : List CfgBan} {b : BotState} (hxs : ∀ x ∈ xs, BanChecks x ∧ keptBan x = x)
    (hsound : Sound (b.cfgBans ++ xs)) : ∃ gen,
      xs.foldl (fun b x => (applyBLine b (bBody x x.ts)).2) b =
        { b with cfgBans := b.cfgBans ++ xs, cfgGen := gen } := by
  refine ⟨b.cfgGen + UInt32.ofNat xs.length, foldl_add
    (fun (b : BotState) (xs : List CfgBan) =>
      { b with cfgBans := b.cfgBans ++ xs, cfgGen := b.cfgGen + UInt32.ofNat xs.length })
    (fun b xs => (∀ x ∈ xs, BanChecks x ∧ keptBan x = x) ∧ Sound (b.cfgBans ++ xs))
    ?_ ?_ ?_ ⟨hxs, hsound⟩⟩
  · intro b
    simp
  · intro b x xs
    simp [UInt32.ofNat_add, UInt32.add_assoc, UInt32.add_comm 1]
  · rintro b x xs ⟨hxs, hsound⟩
    rw [List.append_cons] at hsound
    obtain ⟨hchecks, hkept⟩ := hxs x List.mem_cons_self
    have hfront := sound_of_append hsound
    have hkeys := hfront.keys
    rw [List.map_append, List.nodup_append] at hkeys
    have hsize := hfront.size
    rw [List.length_append, List.length_singleton] at hsize
    refine ⟨?_, fun y hy => hxs y (List.mem_cons_of_mem x hy), hsound⟩
    have hread := readBan_bBody hchecks hchecks.pos hchecks.fits
    rw [show ({ x with ts := x.ts, pushPending := false } : CfgBan) = x from hkept] at hread
    rw [applyBLine_eq, hread]
    refine banStore_new (fun y hy hkey => ?_) hsize fun hactive => ?_
    · exact hkeys.2.2 _ (List.mem_map_of_mem hy) _ (by simp) hkey
    · have hroom := hfront.room x.chan
      rw [activeBans, List.countP_append, List.countP_singleton, hactive, eqIc_refl] at hroom
      exact hroom

/-! ### Servers, people, bots and hubs -/

section

variable {P : Primitives}

theorem load_servers {xs : List Str} {l : Loading}
    (h : l.serverList.length + xs.length ≤ maxServers) :
    xs.foldl (fun l x => loadRecord P l (byte 's') x) l =
      { l with serverList := l.serverList ++ xs } := by
  refine foldl_add (fun (l : Loading) xs => { l with serverList := l.serverList ++ xs })
    (fun l xs => l.serverList.length + xs.length ≤ maxServers) ?_ ?_ ?_ h
  · intro l
    simp
  · intro l x xs
    simp
  · intro l x xs hroom
    rw [List.length_cons] at hroom
    constructor
    · change (if l.serverList.length < maxServers then _ else l) = _
      rw [if_pos (by omega)]
    · rw [List.length_append, List.length_singleton]
      omega

/-- What is written of a user is read back. -/
theorem parseUserLine_userBody {u : UserRecord} (h : SavableUser P u) :
    parseUserLine P (userBody u) = some { uuid := u.uuid, name := u.name, isActive := u.isActive
                                          lastSeen := u.lastSeen, timestamp := u.timestamp
                                          pubkeyB64 := u.pubkeyB64, hasPubkey := u.hasPubkey
                                          legacy := !u.hasPubkey } := by
  have hfields : splitFields (userBody u) 8 = [u.uuid, u.name,
    if u.hasPubkey then u.pubkeyB64 else [],
      addDel u.isActive, dec u.lastSeen, dec u.timestamp, []] := by
    rw [userBody, splitFields_append (field_uuid h.uuid).2, splitFields_append h.name.2,
      splitFields_append h.field_key.2, splitFields_append (notMem_addDel _),
      splitFields_append (Chancmd.pipe_notMem_dec _),
        splitFields_append (Chancmd.pipe_notMem_dec _)]
    rfl
  have hname : (u.name.isEmpty || decide (userNameBuf ≤ u.name.length)) = false := by
    rw [Bool.or_eq_false_iff, List.isEmpty_eq_false_iff]
    exact ⟨h.name_ne, decide_eq_false (Nat.not_le.mpr h.name_lt)⟩
  rw [parseUserLine, hfields]
  dsimp only
  rw [h.uuid, hname, Bool.not_true, if_neg Bool.false_ne_true, if_neg Bool.false_ne_true,
    (addDel_beq u.isActive).2, atoll_dec h.seen.1 h.seen.2, atoll_dec h.stamp.1 h.stamp.2]
  cases hpub : u.hasPubkey with
  | true =>
      rw [if_pos rfl, h.key hpub]
      rfl
  | false =>
      rw [if_neg Bool.false_ne_true, show fieldPubkey P [] = none from rfl, h.no_key hpub]
      rfl

/-- One user. -/
theorem load_user {l : Loading} {u : UserRecord} (h : SavableUser P u)
    (hroom : l.userRecords.length < maxUserRecords) : loadRecord P l u.typ (userBody u) =
      { l with
        userRecords := l.userRecords ++ [keptUser u]
        legacyUserLines := l.legacyUserLines + if u.hasPubkey then 0 else 1 } := by
  have hline : loadRecord P l u.typ (userBody u) = loadUserLine P l u.typ (userBody u) := by
    rcases h.typ with htyp | htyp <;> rw [htyp] <;> rfl
  have hhead : (splitFields (userBody u) 5).headD [] = u.uuid := by
    rw [userBody, splitFields_append (field_uuid h.uuid).2]
    rfl
  rw [hline, loadUserLine, if_neg (Nat.not_le.mpr hroom)]
  dsimp only
  rw [hhead, if_pos h.uuid, parseUserLine_userBody h]
  have hlegacy : (if (!u.hasPubkey) = true then 1 else 0) = if u.hasPubkey then 0 else 1 := by
    cases u.hasPubkey <;> rfl
  dsimp only
  rw [hlegacy]
  rfl

/-- The users, in their order. -/
theorem load_users {us : List UserRecord} {l : Loading} (hus : ∀ u ∈ us, SavableUser P u)
    (hroom : l.userRecords.length + us.length ≤ maxUserRecords) :
    us.foldl (fun l u => loadRecord P l u.typ (userBody u)) l = { l with
      userRecords := l.userRecords ++ us.map keptUser
      legacyUserLines := l.legacyUserLines + us.countP fun u => !u.hasPubkey } := by
  refine foldl_add (fun (l : Loading) (us : List UserRecord) => { l with
      userRecords := l.userRecords ++ us.map keptUser
      legacyUserLines := l.legacyUserLines + us.countP fun u => !u.hasPubkey })
    (fun l us => (∀ u ∈ us, SavableUser P u) ∧ l.userRecords.length + us.length ≤ maxUserRecords)
    ?_ ?_ ?_ ⟨hus, hroom⟩
  · intro l
    simp
  · intro l u us
    simp [List.countP_cons, Nat.add_assoc, Nat.add_comm]
  · rintro l u us ⟨hus, hroom⟩
    rw [List.length_cons] at hroom
    refine ⟨?_, fun v hv => hus v (List.mem_cons_of_mem u hv), ?_⟩
    · rw [load_user (hus u List.mem_cons_self) (by omega), List.countP_singleton]
      simp only [List.map_cons, List.map_nil]
      cases u.hasPubkey <;> rfl
    · rw [List.length_append, List.length_map, List.length_singleton]
      omega

/-- One mask. -/
theorem load_mask {l : Loading} {m : MaskRecord} (h : SavableMask m)
    (hroom : l.maskRecords.length < maxUserMasks) : loadRecord P l (byte 'm') (maskBody m) =
      { l with maskRecords := l.maskRecords ++ [keptMask m] } := by
  have hlen : m.uuid.length = 36 := by
    have hdashes := h.dashes
    simp only [hasUuidDashes, Bool.and_eq_true, beq_iff_eq] at hdashes
    exact hdashes.1
  have huuid : HubSync.maskLineUuid (maskBody m) = m.uuid := by
    rw [HubSync.maskLineUuid, maskBody, splitOnce_append h.uuid.2]
    dsimp only
    rw [if_pos (by rw [hlen]; decide)]
  have hfields : splitPipes 5 (maskBody m) =
      [m.uuid, m.mask, addDel m.isActive, dec m.lastUsed, dec m.timestamp] := by
    rw [maskBody, splitPipes_append h.uuid.2, splitPipes_append h.mask.2,
      splitPipes_append (notMem_addDel _), splitPipes_append (Chancmd.pipe_notMem_dec _)]
    rfl
  have hop : (str "add").isPrefixOf (addDel m.isActive) = m.isActive := by
    cases m.isActive <;> decide
  change loadMaskLine l (maskBody m) = _
  rw [loadMaskLine, if_neg (Nat.not_le.mpr hroom), huuid, if_pos h.dashes, hfields]
  dsimp only
  rw [trunc_of_lt (by rw [hlen]; decide), trunc_of_lt h.mask_lt, hop, atoll_dec h.used.1 h.used.2,
    atoll_dec h.stamp.1 h.stamp.2]
  rfl

/-- The masks, in their order. -/
theorem load_masks {ms : List MaskRecord} {l : Loading} (hms : ∀ m ∈ ms, SavableMask m)
    (hroom : l.maskRecords.length + ms.length ≤ maxUserMasks) :
    ms.foldl (fun l m => loadRecord P l (byte 'm') (maskBody m)) l =
      { l with maskRecords := l.maskRecords ++ ms.map keptMask } := by
  refine foldl_add (fun (l : Loading) (ms : List MaskRecord) =>
      { l with maskRecords := l.maskRecords ++ ms.map keptMask })
    (fun l ms => (∀ m ∈ ms, SavableMask m) ∧ l.maskRecords.length + ms.length ≤ maxUserMasks)
    ?_ ?_ ?_ ⟨hms, hroom⟩
  · intro l
    simp
  · intro l m ms
    simp
  · rintro l m ms ⟨hms, hroom⟩
    rw [List.length_cons] at hroom
    refine ⟨load_mask (hms m List.mem_cons_self) (by omega),
      fun n hn => hms n (List.mem_cons_of_mem m hn), ?_⟩
    rw [List.length_append, List.length_map, List.length_singleton]
    omega

end

theorem digit_of_isDigit {c : UInt8} (h : isDigit c = true) :
    ∃ d < 10, c = UInt8.ofNat (48 + d) := by
  simp only [isDigit, Bool.and_eq_true, decide_eq_true_eq, UInt8.le_iff_toNat_le] at h
  change 48 ≤ c.toNat ∧ c.toNat ≤ 57 at h
  refine ⟨c.toNat - 48, by omega, ?_⟩
  rw [Nat.add_sub_cancel' h.1, UInt8.ofNat_toNat]

theorem chars_digits {s : Str} (h : ∀ c ∈ s, isDigit c = true) : Lib.chars s = s.map ([·]) := by
  have hflat : (s.map ([·])).flatten = s := by
    rw [← List.flatMap_def]
    exact List.flatMap_singleton' s
  have hstarts : ∀ c ∈ s.map ([·]), Lib.Starts c := by
    refine List.forall_mem_map.mpr fun c hc => ⟨c, [], rfl, fun htail => ?_, by simp⟩
    obtain ⟨d, hd, rfl⟩ := digit_of_isDigit (h c hc)
    have hnot : ∀ d < 10, ¬ Lib.Utf8.Tail (UInt8.ofNat (48 + d)) := by decide
    exact hnot d hd htail
  rw [← Lib.chars_flatten hstarts, hflat]

theorem dropWhile_digits {s : Str} (h : ∀ c ∈ s, isDigit c = true) :
    (s.map ([·])).dropWhile Lib.isWhitespace = s.map ([·]) := by
  cases s with
  | nil => rfl
  | cons c s =>
      obtain ⟨d, hd, rfl⟩ := digit_of_isDigit (h c List.mem_cons_self)
      have hnot : ∀ d < 10, Lib.isWhitespace [UInt8.ofNat (48 + d)] = false := by decide
      rw [List.map_cons, List.dropWhile_cons, hnot d hd, if_neg Bool.false_ne_true]

/-- A size is read back. -/
theorem parseTrimmedU64_decNat {n : Nat} (h : n < 2 ^ 64) :
    parseTrimmedU64 (decNat n) = some n := by
  have hdigit : ∀ c ∈ decNat n, isDigit c = true := fun c hc => isDigit_of_mem_decNat hc
  have hrev : ∀ c ∈ (decNat n).reverse, isDigit c = true := fun c hc =>
    hdigit c (List.mem_reverse.mp hc)
  have htrim : (((Lib.chars (decNat n)).dropWhile Lib.isWhitespace).reverse.dropWhile
      Lib.isWhitespace).reverse.flatten = decNat n := by
    rw [chars_digits hdigit, dropWhile_digits hdigit, ← List.map_reverse, dropWhile_digits hrev,
      ← List.map_reverse, List.reverse_reverse, ← List.flatMap_def]
    exact List.flatMap_singleton' _
  have hplus : (decNat n).head? ≠ some (byte '+') := fun hhead =>
    absurd (hdigit _ (List.mem_of_mem_head? hhead)) (by decide)
  have hall : (decNat n).all isDigit = true := List.all_eq_true.mpr hdigit
  rw [parseTrimmedU64]
  dsimp only
  rw [htrim, if_neg hplus, hall, number_decNat, if_neg, if_pos h]
  simp [decNat_ne_nil]

/-! ### Bots and hubs -/

section

variable {P : Primitives}

theorem splitFields_of_notMem {n : Nat} {s : Str} (h : byte '|' ∉ s) :
    splitFields s (n + 1) = [s] := by
  have hnil : s.dropWhile (· ≠ byte '|') = [] := by
    refine List.dropWhile_eq_nil_iff.mpr fun c hc => decide_eq_true ?_
    rintro rfl
    exact h hc
  rw [splitFields, hnil]

/-- What is written of a bot is read back. -/
theorem parseBotLine_botBody {tb : TrustedBot} (h : SavableBot P tb) :
    parseBotLine P (botBody P tb) = some tb := by
  have hfields : splitFields (botBody P tb) 5 =
      [tb.mask, tb.uuid, if tb.hasPub then P.b64Encode tb.pubKey else [], dec tb.ts] := by
    rw [botBody, splitFields_append h.mask.2, splitFields_append h.uuid.2,
      splitFields_append h.field_key.2, splitFields_of_notMem (Chancmd.pipe_notMem_dec _)]
  have hmask : (tb.mask.isEmpty || decide (maxMaskLen ≤ tb.mask.length)) = false := by
    rw [Bool.or_eq_false_iff, List.isEmpty_eq_false_iff]
    exact ⟨h.mask_ne, decide_eq_false (Nat.not_le.mpr h.mask_lt)⟩
  rw [parseBotLine, hfields]
  dsimp only
  rw [hmask, if_neg Bool.false_ne_true, if_neg (Nat.not_le.mpr h.uuid_lt),
    atoll_dec h.stamp.1 h.stamp.2]
  obtain ⟨mask, uuid, pubKey, hasPub, ts⟩ := tb
  cases hasPub with
  | true =>
      have hkey := h.key rfl
      have hlen : (P.b64Encode pubKey).length = combinedKeyB64 := by
        by_contra hne
        rw [pubkeyB64Decode, if_pos hne] at hkey
        cases hkey
      rw [if_pos rfl, fieldPubkey, if_neg (not_not.mpr hlen), hkey]
      dsimp only [Option.map_some, Option.bind_some]
      rw [hkey]
  | false =>
      obtain rfl := h.no_key rfl
      rfl

/-- The bots, in their order. -/
theorem load_bots {bots : List TrustedBot} {l : Loading} (hbots : ∀ tb ∈ bots, SavableBot P tb)
    (hroom : l.trustedBots.length + bots.length ≤ maxTrustedBots) :
    bots.foldl (fun l tb => loadRecord P l (byte 'b') (botBody P tb)) l =
      { l with trustedBots := l.trustedBots ++ bots } := by
  refine foldl_add (fun (l : Loading) bots => { l with trustedBots := l.trustedBots ++ bots })
    (fun l bots => (∀ tb ∈ bots, SavableBot P tb) ∧
      l.trustedBots.length + bots.length ≤ maxTrustedBots) ?_ ?_ ?_ ⟨hbots, hroom⟩
  · intro l
    simp
  · intro l tb bots
    simp
  · rintro l tb bots ⟨hbots, hroom⟩
    rw [List.length_cons] at hroom
    refine ⟨?_, fun x hx => hbots x (List.mem_cons_of_mem tb hx), ?_⟩
    · change (if l.trustedBots.length < maxTrustedBots then _ else l) = _
      rw [if_pos (by omega), parseBotLine_botBody (hbots tb List.mem_cons_self)]
    · rw [List.length_append, List.length_singleton]
      omega

/-- One hub, with its key if that is pinned. -/
theorem load_hub {l : Loading} {h : HubEntry} (hsave : SavableHub P h)
    (hroom : l.hubEntries.length < maxServers) : loadRecord P l (byte 'h') (hubBody P h) =
      { l with hubEntries := l.hubEntries ++ [h], hubs := l.hubs ++ [h.addr] } := by
  change loadHubLine P l (hubBody P h) = _
  obtain ⟨addr, pin⟩ := h
  have haddr : trunc addr 256 = addr := trunc_of_lt hsave.addr_lt
  rw [loadHubLine, if_neg (Nat.not_le.mpr hroom)]
  cases pin with
  | none =>
      have hbody : hubBody P ⟨addr, none⟩ = addr := by
        rw [hubBody, Option.elim_none, List.append_nil]
      rw [hbody, ServerTokens.splitOnce_notMem hsave.addr.2]
      dsimp only
      rw [haddr]
  | some k =>
      obtain ⟨hlen, -, hback⟩ := hsave.pin k rfl
      rw [hubBody, Option.elim_some, splitOnce_append hsave.addr.2]
      dsimp only
      rw [haddr, hback, Option.filter_some, hlen]
      have htake : k.take 32 = k := List.take_of_length_le (Nat.le_of_eq hlen)
      simp [htake]

/-- The hubs, in their order. -/
theorem load_hubs {hubs : List HubEntry} {l : Loading} (hhubs : ∀ h ∈ hubs, SavableHub P h)
    (hroom : l.hubEntries.length + hubs.length ≤ maxServers) :
    hubs.foldl (fun l h => loadRecord P l (byte 'h') (hubBody P h)) l =
      { l with hubEntries := l.hubEntries ++ hubs, hubs := l.hubs ++ hubs.map (·.addr) } := by
  refine foldl_add (fun (l : Loading) (hubs : List HubEntry) =>
      { l with hubEntries := l.hubEntries ++ hubs, hubs := l.hubs ++ hubs.map (·.addr) })
    (fun l hubs => (∀ h ∈ hubs, SavableHub P h) ∧
      l.hubEntries.length + hubs.length ≤ maxServers) ?_ ?_ ?_ ⟨hhubs, hroom⟩
  · intro l
    simp
  · intro l h hubs
    simp
  · rintro l h hubs ⟨hhubs, hroom⟩
    rw [List.length_cons] at hroom
    refine ⟨load_hub (hhubs h List.mem_cons_self) (by omega),
      fun x hx => hhubs x (List.mem_cons_of_mem h hx), ?_⟩
    rw [List.length_append, List.length_singleton]
    omega

/-! ### Opt flags -/

/-- The flags and their stamp are read back. -/
theorem parseOptLine_body {flags : Str} {ts : Int} (halnum : ∀ c ∈ flags, isAlnum c = true)
    (hlen : flags.length ≤ maxOptFlags) (hmin : i64Min ≤ ts) (hmax : ts ≤ i64Max) :
    parseOptLine (flags ++ str "|" ++ dec ts) = some (flags, ts) := by
  rw [List.append_assoc, parseOptLine]
  cases flags with
  | nil =>
      have hread : strtoll (dec ts) = (ts, (dec ts).length) := by
        rw [← List.append_nil (dec ts)]
        exact (strtoll_dec hmin hmax (by simp)).trans (by simp)
      have hpos : 0 < (dec ts).length := by
        unfold dec
        split
        · simp
        · exact List.length_pos_iff.mpr (decNat_ne_nil _)
      rw [List.nil_append, lit_append]
      dsimp only
      rw [hread, if_pos hpos]
  | cons c rest =>
      have hpipe : ∀ b ∈ c :: rest, b ∉ str "|" := by
        intro b hb hmem
        rw [List.mem_singleton.mp hmem] at hb
        exact absurd (halnum _ hb) (by decide)
      have hlit : lit (str "|") ((c :: rest) ++ (str "|" ++ dec ts)) = none := by
        refine if_neg fun hstart => hpipe c List.mem_cons_self ?_
        rw [show str "|" = [byte '|'] from rfl] at hstart ⊢
        simp at hstart
        simp [hstart]
      have hclean : cleanOptFlags (c :: rest) = c :: rest := by
        rw [cleanOptFlags, List.filter_eq_self.mpr halnum, List.take_of_length_le hlen]
      have hset : setNot maxOptFlags (str "|") ((c :: rest) ++ (str "|" ++ dec ts)) =
          some (c :: rest, str "|" ++ dec ts) :=
        setNot_append (List.cons_ne_nil c rest) hlen hpipe
          fun b hb => by rw [← Option.some.inj hb]; decide
      rw [hlit, hset]
      dsimp only [Option.map_some]
      rw [hclean, lit_append, Option.map_some, Option.getD_some, atoll_dec hmin hmax]

end

/-! ### From the first record to the last -/

/-- What has been read so far, and in how many old user lines. -/
structure Seen (l : Loading) (d : Durable) (n : Nat) : Prop where
  durable : l.toFileState.durable = d
  legacy : l.legacyUserLines = n
  botpass : l.droppedBotpass = false
  pin : l.hubRemoteEdPub = none

section

variable {P : Primitives} {s : FileState} {l : Loading} {d : Durable} {n : Nat}

/-- The nick has been read. -/
theorem Seen.nick {x : Str} (h : Seen l d n) (hlt : x.length < maxNick) :
    Seen (loadRecord P l (byte 'n') x) { d with targetNick := x } n := by
  change Seen { l with targetNick := trunc x maxNick } _ _
  rw [trunc_of_lt hlt]
  exact ⟨by rw [← h.durable]; rfl, h.legacy, h.botpass, h.pin⟩

theorem Seen.servers {xs : List Str} (h : Seen l d n) (hnil : d.serverList = [])
    (hlen : xs.length ≤ maxServers) :
    Seen (xs.foldl (fun l x => loadRecord P l (byte 's') x) l) { d with serverList := xs } n := by
  have hl : l.serverList = [] := (congrArg Durable.serverList h.durable).trans hnil
  rw [load_servers (by simp [hl, hlen]), hl, List.nil_append]
  exact ⟨by rw [← h.durable]; rfl, h.legacy, h.botpass, h.pin⟩

/-- Records that are for the state of the bot reach nothing else. -/
theorem foldl_bot {α : Type} {f : Loading → α → Loading} {g : BotState → α → BotState}
    (hf : ∀ (l : Loading) x, f l x = { l with toBotState := g l.toBotState x }) (xs : List α)
    (l : Loading) :
    xs.foldl f l = { l with toBotState := xs.foldl g l.toBotState } := by
  induction xs generalizing l with
  | nil => rfl
  | cons x xs ih => rw [List.foldl_cons, List.foldl_cons, ih, hf]

/-- The channels and their settings have been read. -/
theorem Seen.chans {cs : List Chan} (h : Seen l d n) (hnil : d.chans = [])
    (hcs : ∀ c ∈ cs, SavableChan c) (hnames : (cs.map nameKey).Nodup) :
    Seen ((cs.filter fun c => 0 < c.cfgTs).foldl
        (fun l c => loadRecord P l (byte 'C') (cBody (settingsOf c) c.cfgTs))
        ((cs.filter listed).foldl (fun l c => loadRecord P l (byte 'c') (cfgBody c)) l))
      { d with chans := (tableOf cs cs).map keptChan } n := by
  have hl : l.chans = [] := List.map_eq_nil_iff.mp ((congrArg Durable.chans h.durable).trans hnil)
  have hlisted : ∀ c ∈ cs.filter listed, SavableChan c ∧ listed c = true := fun c hc =>
    ⟨hcs c (List.mem_of_mem_filter hc), (List.mem_filter.mp hc).2⟩
  have hfirst := load_chans (b := l.toBotState) hlisted
    (by rw [hl]; exact hnames.sublist ((List.filter_sublist).map nameKey))
  have hstart : (cs.filter listed).map bare = tableOf cs [] := by simp [tableOf]
  rw [hl, List.nil_append, hstart] at hfirst
  obtain ⟨gen, hthen⟩ :=
    load_settings hcs hnames (b := { l.toBotState with chans := tableOf cs [] })
    (List.nil_append cs).symm rfl
  rw [foldl_bot (f := fun l c => loadRecord P l (byte 'c') (cfgBody c))
      (g := fun b c => loadChanLine b (cfgBody c)) (fun _ _ => rfl), hfirst,
    foldl_bot (f := fun l c => loadRecord P l (byte 'C') (cBody (settingsOf c) c.cfgTs))
      (g := fun b c => (applyCLine b (cBody (settingsOf c) c.cfgTs)).2) (fun _ _ => rfl), hthen]
  exact ⟨by rw [← h.durable]; rfl, h.legacy, h.botpass, h.pin⟩

/-- The settings of the network have been read. -/
theorem Seen.net (h : Seen l d n) (hzero : d.netTs = 0) (hmodes : validModesField s.netModes = true)
    (hlen : s.netSettings.length ≤ dSettingsMax) (hplain : plainText s.netSettings = true)
    (hpos : 0 < s.netTs) (hle : s.netTs ≤ maxLl) :
    Seen (loadRecord P l (byte 'D') (netBody s.toBotState))
      { d with netModes := s.netModes, netSettings := s.netSettings, netTs := s.netTs } n := by
  have hl : l.netTs = 0 := (congrArg Durable.netTs h.durable).trans hzero
  have hpipe : (netBody s.toBotState).contains (byte '|') = true := by
    simp [netBody, show str "|" = [byte '|'] from rfl]
  change Seen (if (netBody s.toBotState).contains (byte '|') = true then
    { l with toBotState := (applyDLine l.toBotState (netBody s.toBotState)).2 } else _) _ _
  obtain ⟨set, burst, iv, credit, gen, hload⟩ :=
    load_net (b := l.toBotState) hmodes hlen hplain hpos hle hl
  rw [if_pos hpipe, netBody, hload]
  exact ⟨by rw [← h.durable]; rfl, h.legacy, h.botpass, h.pin⟩

/-- The bans have been read. -/
theorem Seen.bans {xs : List CfgBan} (h : Seen l d n) (hnil : d.cfgBans = [])
    (hxs : ∀ x ∈ xs, BanChecks x) (hsound : Sound xs) :
    Seen (xs.foldl (fun l x => loadRecord P l (byte 'B') (bBody x x.ts)) l)
      { d with cfgBans := xs.map keptBan } n := by
  have hl : l.cfgBans = [] :=
    List.map_eq_nil_iff.mp ((congrArg Durable.cfgBans h.durable).trans hnil)
  have hkept : Sound (xs.map keptBan) := by
    refine ⟨?_, ?_, fun chan => ?_⟩
    · rw [List.map_map]
      exact hsound.keys
    · rw [List.length_map]
      exact hsound.size
    · rw [activeBans, List.countP_map]
      exact hsound.room chan
  have hall : ∀ x ∈ xs.map keptBan, BanChecks x ∧ keptBan x = x :=
    List.forall_mem_map.mpr fun x hx =>
      have hchecks := hxs x hx
      ⟨⟨hchecks.pos, hchecks.fits, hchecks.chan, hchecks.mask, hchecks.expires, hchecks.flags,
        hchecks.setter, hchecks.reason⟩, rfl⟩
  obtain ⟨gen, hload⟩ := load_bans (b := l.toBotState) hall (by rwa [hl])
  rw [List.foldl_map, hl, List.nil_append] at hload
  rw [foldl_bot (f := fun l x => loadRecord P l (byte 'B') (bBody x x.ts))
    (g := fun b x => (applyBLine b (bBody x x.ts)).2) (fun _ _ => rfl)]
  refine ⟨?_, h.legacy, h.botpass, h.pin⟩
  have hdurable := congrArg (fun b : BotState => ({ l with toBotState := b } : FileState).durable) hload
  refine hdurable.trans ?_
  rw [← h.durable]
  simp only [FileState.durable, List.map_map]
  rfl

/-- The users have been read. -/
theorem Seen.users {us : List UserRecord} (h : Seen l d n) (hnil : d.userRecords = [])
    (hus : ∀ u ∈ us, SavableUser P u) (hlen : us.length ≤ maxUserRecords) :
    Seen (us.foldl (fun l u => loadRecord P l u.typ (userBody u)) l)
      { d with userRecords := us.map keptUser } (n + us.countP fun u => !u.hasPubkey) := by
  have hl : l.userRecords = [] :=
    List.map_eq_nil_iff.mp ((congrArg Durable.userRecords h.durable).trans hnil)
  rw [load_users hus (by simp [hl, hlen]), hl, List.nil_append]
  refine ⟨?_, by rw [← h.legacy], h.botpass, h.pin⟩
  rw [← h.durable]
  simp only [FileState.durable, List.map_map]
  rfl

theorem Seen.masks {ms : List MaskRecord} (h : Seen l d n) (hnil : d.maskRecords = [])
    (hms : ∀ m ∈ ms, SavableMask m) (hlen : ms.length ≤ maxUserMasks) :
    Seen (ms.foldl (fun l m => loadRecord P l (byte 'm') (maskBody m)) l)
      { d with maskRecords := ms.map keptMask } n := by
  have hl : l.maskRecords = [] :=
    List.map_eq_nil_iff.mp ((congrArg Durable.maskRecords h.durable).trans hnil)
  rw [load_masks hms (by simp [hl, hlen]), hl, List.nil_append]
  refine ⟨?_, h.legacy, h.botpass, h.pin⟩
  rw [← h.durable]
  simp only [FileState.durable, List.map_map]
  rfl

theorem Seen.bots {bots : List TrustedBot} (h : Seen l d n) (hnil : d.trustedBots = [])
    (hbots : ∀ tb ∈ bots, SavableBot P tb) (hlen : bots.length ≤ maxTrustedBots) :
    Seen (bots.foldl (fun l tb => loadRecord P l (byte 'b') (botBody P tb)) l)
      { d with trustedBots := bots } n := by
  have hl : l.trustedBots = [] := (congrArg Durable.trustedBots h.durable).trans hnil
  rw [load_bots hbots (by simp [hl, hlen]), hl, List.nil_append]
  exact ⟨by rw [← h.durable]; rfl, h.legacy, h.botpass, h.pin⟩

theorem Seen.hubs {hubs : List HubEntry} (h : Seen l d n) (hnil : d.hubEntries = [] ∧ d.hubs = [])
    (hhubs : ∀ e ∈ hubs, SavableHub P e) (hlen : hubs.length ≤ maxServers) :
    Seen (hubs.foldl (fun l e => loadRecord P l (byte 'h') (hubBody P e)) l)
      { d with hubEntries := hubs, hubs := hubs.map (·.addr) } n := by
  have hl : l.hubEntries = [] := (congrArg Durable.hubEntries h.durable).trans hnil.1
  have haddrs : l.hubs = [] := (congrArg Durable.hubs h.durable).trans hnil.2
  rw [load_hubs hhubs (by simp [hl, hlen]), hl, haddrs, List.nil_append, List.nil_append]
  exact ⟨by rw [← h.durable]; rfl, h.legacy, h.botpass, h.pin⟩

end

section

variable {P : Primitives} {s : FileState} {l : Loading} {d : Durable} {n : Nat}

/-- A record that may be missing. -/
theorem foldl_ite {p : Prop} [Decidable p] {r : Rec} :
    (if p then [r] else []).foldl (fun l r => loadRecord P l r.1 r.2) l =
      if p then loadRecord P l r.1 r.2 else l := by
  split <;> rfl

/-- A record that may be left out. -/
theorem foldl_unless {p : Prop} [Decidable p] {r : Rec} :
    (if p then [] else [r]).foldl (fun l r => loadRecord P l r.1 r.2) l =
      if p then l else loadRecord P l r.1 r.2 := by
  split <;> rfl

/-- The log level has been read, or is the one that is not written. -/
theorem Seen.logLevel (h : Seen l d n) (hdefault : d.logLevel = defaultLogLevel) :
    Seen (if s.logLevel ≠ defaultLogLevel then
        loadRecord P l (byte 'l') (dec (toI32 s.logLevel.toNat)) else l)
      { d with logLevel := s.logLevel } n := by
  split
  · have hrange : i64Min ≤ toI32 s.logLevel.toNat ∧ toI32 s.logLevel.toNat ≤ i64Max := by
      simp only [toI32, i64Min, i64Max]
      omega
    have hline (x : Str) :
        loadRecord P l (byte 'l') x = { l with logLevel := UInt32.ofInt (atoi x) } := rfl
    rw [hline, atoi, atoll_dec hrange.1 hrange.2, ofInt_toI32]
    exact ⟨by rw [← h.durable]; rfl, h.legacy, h.botpass, h.pin⟩
  · rename_i hsame
    rw [not_not.mp hsame, ← hdefault]
    exact h

theorem Seen.logMaxSize (h : Seen l d n) (hdefault : d.logMaxSize = botLogFileSize)
    (hsize : botLogSizeMin ≤ s.logMaxSize ∧ s.logMaxSize ≤ botLogSizeMax) :
    Seen (if s.logMaxSize ≠ botLogFileSize then loadRecord P l (byte 'L') (decNat s.logMaxSize) else l)
      { d with logMaxSize := s.logMaxSize } n := by
  split
  · have hlt : s.logMaxSize < 2 ^ 64 := Nat.lt_of_le_of_lt hsize.2 (by decide)
    have hline (x : Str) : loadRecord P l (byte 'L') x = { l with
        logMaxSize := max botLogSizeMin (min ((parseTrimmedU64 x).getD 0) botLogSizeMax) } := rfl
    rw [hline, parseTrimmedU64_decNat hlt, Option.getD_some, Nat.min_eq_left hsize.2,
      Nat.max_eq_right hsize.1]
    exact ⟨by rw [← h.durable]; rfl, h.legacy, h.botpass, h.pin⟩
  · rename_i hsame
    rw [not_not.mp hsame, ← hdefault]
    exact h

theorem Seen.user {x : Str} (h : Seen l d n) (hlt : x.length < 64) :
    Seen (loadRecord P l (byte 'u') x) { d with user := x } n := by
  change Seen { l with user := trunc x 64 } _ _
  rw [trunc_of_lt hlt]
  exact ⟨by rw [← h.durable]; rfl, h.legacy, h.botpass, h.pin⟩

theorem Seen.gecos {x : Str} (h : Seen l d n) (hlt : x.length < 128) :
    Seen (loadRecord P l (byte 'g') x) { d with gecos := x } n := by
  change Seen { l with gecos := trunc x 128 } _ _
  rw [trunc_of_lt hlt]
  exact ⟨by rw [← h.durable]; rfl, h.legacy, h.botpass, h.pin⟩

theorem Seen.vhost (h : Seen l d n) (hempty : d.vhost = []) (hlt : s.vhost.length < 128) :
    Seen (if s.vhost.isEmpty = true then l else loadRecord P l (byte 'v') s.vhost)
      { d with vhost := s.vhost } n := by
  split
  · rename_i hnone
    rw [List.isEmpty_iff.mp hnone, ← hempty]
    exact h
  · change Seen { l with vhost := trunc s.vhost 128 } _ _
    rw [trunc_of_lt hlt]
    exact ⟨by rw [← h.durable]; rfl, h.legacy, h.botpass, h.pin⟩

/-- The identity key has been read, if there is one. -/
theorem Seen.key (h : Seen l d n) (hempty : d.hubKey = [])
    (hzero : d.hubKeyRaw = List.replicate hubKeyRawLen 0)
    (hkey : s.hubKey ≠ [] → OneLine s.hubKey ∧ s.hubKey.length < maxHubKeySize ∧
      b64Decode P s.hubKey = some s.hubKeyRaw ∧ s.hubKeyRaw.length = hubKeyRawLen)
    (hno : s.hubKey = [] → s.hubKeyRaw = List.replicate hubKeyRawLen 0) :
    Seen (if s.hubKey.isEmpty = true then l else loadRecord P l (byte 'k') s.hubKey)
      { d with hubKey := s.hubKey, hubKeyRaw := s.hubKeyRaw } n := by
  split
  · rename_i hnone
    have hnil := List.isEmpty_iff.mp hnone
    rw [hno hnil, hnil, ← hempty, ← hzero]
    exact h
  · rename_i hsome
    obtain ⟨-, hlt, hback, hlen⟩ := hkey (mt List.isEmpty_iff.mpr hsome)
    have hraw : (b64Decode P s.hubKey).filter (·.length == hubKeyRawLen) = some s.hubKeyRaw := by
      rw [hback, Option.filter_some, hlen, beq_self_eq_true, if_pos rfl]
    have hline : loadRecord P l (byte 'k') s.hubKey =
        { l with hubKey := trunc s.hubKey maxHubKeySize, hubKeyRaw := s.hubKeyRaw } := by
      simp (disch := decide) only [loadRecord, if_neg, if_pos, hraw]
    rw [hline, trunc_of_lt hlt]
    exact ⟨by rw [← h.durable]; rfl, h.legacy, h.botpass, h.pin⟩

theorem Seen.uuid (h : Seen l d n) (hempty : d.botUuid = []) (hlt : s.botUuid.length < 64) :
    Seen (if s.botUuid.isEmpty = true then l else loadRecord P l (byte 'i') s.botUuid)
      { d with botUuid := s.botUuid } n := by
  split
  · rename_i hnone
    rw [List.isEmpty_iff.mp hnone, ← hempty]
    exact h
  · change Seen { l with botUuid := trunc s.botUuid 64 } _ _
    rw [trunc_of_lt hlt]
    exact ⟨by rw [← h.durable]; rfl, h.legacy, h.botpass, h.pin⟩

theorem Seen.flags (h : Seen l d n) (hempty : d.optFlags = [] ∧ d.optFlagsTs = 0)
    (halnum : ∀ c ∈ s.optFlags, isAlnum c = true) (hlen : s.optFlags.length ≤ maxOptFlags)
    (hts : s.optFlagsTs ≤ i64Max ∧ (0 < s.optFlagsTs ∨ s.optFlags = [] ∧ s.optFlagsTs = 0)) :
    Seen (if (!s.optFlags.isEmpty || decide (0 < s.optFlagsTs)) = true then
        loadRecord P l (byte 'O') (s.optFlags ++ str "|" ++ dec s.optFlagsTs) else l)
      { d with optFlags := s.optFlags, optFlagsTs := s.optFlagsTs } n := by
  rcases hts.2 with hpos | ⟨hnone, hzero⟩
  · have hbody := parseOptLine_body halnum hlen (by simp only [i64Min]; omega) hts.1
    have hline : loadRecord P l (byte 'O') (s.optFlags ++ str "|" ++ dec s.optFlagsTs) =
        { l with optFlags := s.optFlags, optFlagsTs := stampOr l.now s.optFlagsTs } := by
      simp (disch := decide) only [loadRecord, if_neg, if_pos, hbody]
    rw [decide_eq_true hpos, Bool.or_true, if_pos rfl, hline, stampOr, if_pos hpos]
    exact ⟨by rw [← h.durable]; rfl, h.legacy, h.botpass, h.pin⟩
  · rw [hnone, hzero, if_neg (by decide), ← hempty.1, ← hempty.2]
    exact h

theorem Seen.pending (h : Seen l d n) (hno : d.adminDeltaPending = false) :
    Seen (if s.adminDeltaPending = true then loadRecord P l (byte 'D') (str "1") else l)
      { d with adminDeltaPending := s.adminDeltaPending } n := by
  split
  · rename_i hpending
    rw [hpending]
    exact ⟨by rw [← h.durable]; rfl, h.legacy, h.botpass, h.pin⟩
  · rename_i hnone
    rw [Bool.not_eq_true] at hnone
    rw [hnone, ← hno]
    exact h

/-- The settings of the network have been read, if there are any. -/
theorem Seen.defaults (h : Seen l d n) (hempty : d.netModes = [] ∧ d.netSettings = [] ∧ d.netTs = 0)
    (hsave : Savable P s) : Seen (if 0 < s.netTs then
        loadRecord P l (byte 'D') (netBody s.toBotState) else l)
      { d with netModes := s.netModes, netSettings := s.netSettings, netTs := s.netTs } n := by
  split
  · rename_i hpos
    obtain ⟨hmodes, hlen, hplain, hle⟩ := hsave.net hpos
    exact h.net hempty.2.2 hmodes hlen hplain hpos hle
  · rename_i hnone
    obtain ⟨hmodes, hsettings, hts⟩ := hsave.no_net hnone
    rw [hmodes, hsettings, hts]
    cases d
    obtain ⟨rfl, rfl, rfl⟩ := hempty
    exact h

/-- **The records, from the first to the last.** -/
theorem seen_records {s₀ : FileState} (h : Savable P s)
    (hfresh : s₀.durable = ({} : FileState).durable) (hpin : s₀.hubRemoteEdPub = none) :
    Seen ((records P s).foldl (fun l r => loadRecord P l r.1 r.2) { toFileState := s₀ })
      { s.durable with chans := (tableOf s.chans s.chans).map keptChan }
      (s.userRecords.countP fun u => !u.hasPubkey) := by
  have h₀ : Seen { toFileState := s₀ } ({} : FileState).durable 0 := ⟨hfresh, rfl, rfl, hpin⟩
  have h₁ := (h₀.nick (P := P) h.nick_lt).servers (P := P) rfl h.servers_le
  have h₂ := (h₁.chans (P := P) rfl h.chans h.names).defaults ⟨rfl, rfl, rfl⟩ h
  have h₃ := (h₂.bans (P := P) rfl h.bans h.bans_sound).users rfl h.users h.users_le
  have h₄ := (h₃.masks (P := P) rfl h.masks h.masks_le).bots rfl h.bots h.bots_le
  have h₅ := (h₄.logLevel (P := P) (s := s) rfl).logMaxSize (P := P) rfl h.log_size
  have h₆ := ((h₅.user (P := P) h.user_lt).gecos (P := P) h.gecos_lt).vhost (P := P) rfl h.vhost_lt
  have h₇ := (h₆.hubs ⟨rfl, rfl⟩ h.hubs h.hubs_le).key rfl rfl h.key h.no_key
  have h₈ := (h₇.uuid (P := P) rfl h.uuid_lt).flags (P := P) ⟨rfl, rfl⟩ h.flags h.flags_le h.flags_stamp
  have h₉ := h₈.pending (P := P) (s := s) rfl
  simp only [records, List.foldl_append, List.foldl_cons, List.foldl_nil, List.foldl_map, foldl_ite,
    foldl_unless]
  have haddrs : ({ s.durable with chans := (tableOf s.chans s.chans).map keptChan } : Durable) =
      { s.durable with
        chans := (tableOf s.chans s.chans).map keptChan, hubs := s.hubEntries.map (·.addr) } := by
    rw [← h.addrs]
    rfl
  rw [haddrs]
  exact ⟨h₉.durable.trans rfl, h₉.legacy.trans (Nat.zero_add _), h₉.botpass, h₉.pin⟩

end

/-! ### After the records -/

section

variable {P : Primitives} {s : FileState}

/-- A channel that is read again has lost its key, unless it is listed. -/
theorem keptChan_reloaded {c : Chan} (hc : SavableChan c) :
    keptChan (reloaded c) = { keptChan c with key := if listed c then c.key else [] } := by
  unfold reloaded
  split
  · rfl
  · rename_i hts
    obtain ⟨hmodes, hsettings, hzero, hactive⟩ := hc.plain hts
    simp only [keptChan, bare, hmodes, hsettings, hzero, hactive]

/-- The channels that come back. -/
theorem back_chans {cs : List Chan} (hcs : ∀ c ∈ cs, SavableChan c) :
    (tableOf cs cs).map keptChan = (cs.map keptChan).filter (·.listed) ++
      ((cs.map keptChan).filter (·.held)).map fun c => { c with key := [] } := by
  rw [tableOf_eq, List.map_append, List.map_map, List.map_map, List.filter_map, List.filter_map,
    List.map_map]
  have hlisted : (fun c : KeptChan => c.listed) ∘ keptChan = listed := rfl
  have hheld : (fun c : KeptChan => c.held) ∘ keptChan = held := rfl
  rw [hlisted, hheld]
  congr 1
  · refine List.map_congr_left fun c hc => ?_
    obtain ⟨hmem, hlist⟩ := List.mem_filter.mp hc
    rw [Function.comp_apply, if_pos (List.mem_map_of_mem hmem),
      keptChan_reloaded (hcs c hmem), hlist]
    rfl
  · refine List.map_congr_left fun c hc => ?_
    obtain ⟨hmem, hheld⟩ := List.mem_filter.mp hc
    rw [Function.comp_apply, keptChan_reloaded (hcs c hmem), not_listed hheld]
    rfl

/-- The public key is computed again; nothing else changes. -/
theorem selfPubRefresh_eq {b : BotState}
    (hkey : b.hubKey ≠ [] → b64Decode P b.hubKey = some b.hubKeyRaw)
    (hno : b.hubKey = [] → b.hubKeyRaw.all (· == 0) = true) :
    ∃ pub set, selfPubRefresh P b = { b with selfPub := pub, selfPubSet := set } := by
  unfold selfPubRefresh
  dsimp only
  split
  · exact ⟨_, _, rfl⟩
  · rename_i hsome
    have hne : b.hubKey ≠ [] := by
      intro hnil
      rw [hno hnil, hnil] at hsome
      exact hsome rfl
    have hkeeps (b' : BotState) (hb' : b64Decode P b'.hubKey = some b'.hubKeyRaw) :
        (botKeyDecode P b').2 = b' := by
      unfold botKeyDecode
      split
      · rfl
      · rw [hb']
        dsimp only
        split <;> rfl
    have hdecode := hkeeps { b with selfPubSet := false, selfPub := List.replicate hubKeyRawLen 0 } (hkey hne)
    generalize botKeyDecode P _ = r at hdecode ⊢
    obtain ⟨_ | ⟨ed, x⟩, b'⟩ := r
    · exact ⟨_, _, hdecode⟩
    · obtain rfl := hdecode
      exact ⟨_, _, rfl⟩

/-- A file that has all of it gets nothing new. -/
theorem mint_eq {d : Draws} (h : s.hubEntries = [] → s.hubKey ≠ [] ∧ s.botUuid ≠ []) :
    mint P d s = (s, false) := by
  have hkey : (s.hubKey.isEmpty && s.hubEntries.isEmpty) = false := by
    cases hhubs : s.hubEntries with
    | nil => simp [(h hhubs).1]
    | cons e es => simp
  have huuid : (s.botUuid.isEmpty && s.hubEntries.isEmpty) = false := by
    cases hhubs : s.hubEntries with
    | nil => simp [(h hhubs).2]
    | cons e es => simp
  simp only [mint, hkey, Bool.false_eq_true, if_false, huuid]

theorem not_migrate {uuid : Str} (h : isUuid uuid = true) :
    (str "MIGRATE").isPrefixOf uuid = false := by
  refine Bool.eq_false_iff.mpr fun hprefix => ?_
  obtain ⟨rest, rfl⟩ := List.isPrefixOf_iff_prefix.mp hprefix
  rw [isUuid, Bool.and_eq_true, List.all_eq_true] at h
  exact absurd (h.2 (byte 'M', 0) List.mem_cons_self) (by decide)

theorem dashes_ne {uuid : Str} (h : hasUuidDashes uuid = true) :
    (uuid == str "MIGRATE") = false := by
  refine beq_false_of_ne ?_
  rintro rfl
  exact absurd h (by decide)

/-- A file of this form is no old one: nothing in it is to be migrated. -/
theorem Seen.not_migrates {l : Loading} {d : Durable} {n : Nat} (hl : Seen l d n)
    (husers : d.userRecords = s.userRecords.map keptUser)
    (hmasks : d.maskRecords = s.maskRecords.map keptMask)
    (h : Savable P s) : (l.userRecords.any (fun u => (str "MIGRATE").isPrefixOf u.uuid) ||
      l.maskRecords.any (·.uuid == str "MIGRATE")) = false := by
  have husers : l.userRecords.map keptUser = s.userRecords.map keptUser :=
    (congrArg Durable.userRecords hl.durable).trans husers
  have hmasks : l.maskRecords.map keptMask = s.maskRecords.map keptMask :=
    (congrArg Durable.maskRecords hl.durable).trans hmasks
  rw [Bool.or_eq_false_iff, List.any_eq_false, List.any_eq_false]
  constructor
  · intro u hu
    obtain ⟨v, hv, hkept⟩ := List.mem_map.mp (husers ▸ List.mem_map_of_mem (f := keptUser) hu)
    have huuid : (keptUser v).uuid = (keptUser u).uuid := by rw [hkept]
    change v.uuid = u.uuid at huuid
    rw [← huuid, not_migrate (h.users v hv).uuid]
    exact Bool.false_ne_true
  · intro m hm
    obtain ⟨v, hv, hkept⟩ := List.mem_map.mp (hmasks ▸ List.mem_map_of_mem (f := keptMask) hm)
    have huuid : (keptMask v).uuid = (keptMask m).uuid := by rw [hkept]
    change v.uuid = m.uuid at huuid
    rw [← huuid, dashes_ne (h.masks v hv).dashes]
    exact Bool.false_ne_true

/-- **The state that is read is the one that was saved.** It can be run with if there is a nick, a
server and a user name, and the file is rewritten if it was an old one or has a user without a
key. -/
theorem load_serialize {text : Str} {s₀ : FileState} (h : Savable P s)
    (htext : serialize P s = some text)
    (hfresh : s₀.durable = ({} : FileState).durable) (hpin : s₀.hubRemoteEdPub = none) (d : Draws)
    (readOnly migrated : Bool) :
    let r := loadText P d readOnly migrated text s₀
    r.state.durable = s.durable.back ∧
    (r.ok = true ↔ s.targetNick ≠ [] ∧ s.serverList ≠ [] ∧ s.user ≠ []) ∧
    (r.rewrite = true ↔ readOnly = false ∧
      (migrated = true ∨ ∃ u ∈ s.userRecords, u.hasPubkey = false)) := by
  have hseen := seen_records h hfresh hpin
  have hread : (splitOn (byte '\n') text).foldl (loadLine P) { toFileState := s₀ } =
      (records P s).foldl (fun l r => loadRecord P l r.1 r.2) { toFileState := s₀ } := by
    rw [serialize_eq P htext, foldl_records P (records_ok h)]
  generalize (records P s).foldl (fun l r => loadRecord P l r.1 r.2) { toFileState := s₀ } =
    l at hseen hread
  have hback : l.toFileState.durable = s.durable.back := by
    rw [hseen.durable, back_chans h.chans]
    rfl
  have hhubs : l.hubEntries = s.hubEntries := congrArg Durable.hubEntries hseen.durable
  have hkey : l.hubKey = s.hubKey := congrArg Durable.hubKey hseen.durable
  have hraw : l.hubKeyRaw = s.hubKeyRaw := congrArg Durable.hubKeyRaw hseen.durable
  have huuid : l.botUuid = s.botUuid := congrArg Durable.botUuid hseen.durable
  have hnick : l.targetNick = s.targetNick := congrArg Durable.targetNick hseen.durable
  have hservers : l.serverList = s.serverList := congrArg Durable.serverList hseen.durable
  have huser : l.user = s.user := congrArg Durable.user hseen.durable
  have hmint : mint P d l.toFileState = (l.toFileState, false) :=
    mint_eq (by rw [hhubs, hkey, huuid]; exact h.own)
  obtain ⟨pub, set, hpub⟩ := selfPubRefresh_eq (P := P) (b := l.toBotState)
    (by rw [hkey, hraw]; exact fun hne => (h.key hne).2.2.1)
    (by rw [hkey, hraw]; exact fun hnil => by rw [h.no_key hnil]; decide)
  intro r
  have hr : r = { state := { l.toFileState with toBotState := { l.toBotState with selfPub := pub, selfPubSet := set } }
                  ok := !l.targetNick.isEmpty && !l.serverList.isEmpty && !l.user.isEmpty
                  rewrite := !readOnly && (migrated || decide (0 < l.legacyUserLines)) } := by
    change loadText P d readOnly migrated text s₀ = _
    have hmigrates := hseen.not_migrates rfl rfl h
    unfold loadText
    dsimp only
    rw [hread, hseen.pin]
    dsimp only
    rw [hmigrates, if_neg Bool.false_ne_true, hmint, hseen.botpass]
    dsimp only
    rw [hpub]
    simp only [Bool.false_or, Bool.or_false, hseen.pin]
  have hlegacy : 0 < l.legacyUserLines ↔ ∃ u ∈ s.userRecords, u.hasPubkey = false := by
    rw [hseen.legacy, List.countP_pos_iff]
    simp only [Bool.not_eq_true']
  rw [hr]
  refine ⟨hback, ?_, ?_⟩
  · rw [hnick, hservers, huser]
    simp [and_assoc]
  · simp [hlegacy]

end

/-- Base64 as it is; the rest is left in clear. -/
def homeTools : Primitives :=
  { Primitives.clear with
    lenientDecode := BotAuth.std.decode, strictDecode := BotAuth.std.decode,
    b64Encode := BotAuth.b64enc }

/-- A bot with records of every kind. Of the three channels, the second is only held for its
settings, and those of the third are deleted. -/
def homeState : FileState where
  targetNick := str "bot"
  serverList := [str "irc.example.net:6697"]
  chans := [
    { name := str "#one", key := str "k", isManaged := true, timestamp := 5
      cfgModes := str "+nt", cfgSettings := [], cfgTs := 7, cfgActive := true },
    { name := str "#two", cfgModes := str "+s", cfgTs := 8, cfgActive := true },
    { name := str "#three", cfgTs := 9 }]
  netModes := str "+n"
  netSettings := str "bitch=1"
  netTs := 6
  cfgBans := [{
    chan := str "#one", mask := str "*!*@bad.example", setter := str "alice",
    reason := str "a|b", ts := 12
    active := true }]
  userRecords := [{
    uuid := str "00000000-0000-4000-8000-000000000001", name := str "alice", typ := byte 'a'
    pubkeyB64 := BotAuth.b64enc (List.replicate 64 9), hasPubkey := true, isActive := true
    lastSeen := 40, timestamp := 3 }]
  maskRecords := [{
    uuid := str "00000000-0000-4000-8000-000000000001", mask := str "alice!*@home.example",
    isActive := true
    lastUsed := 40, timestamp := 4 }]
  trustedBots := [{
    mask := str "leaf!u@leaf.example", uuid := str "00000000-0000-4000-8000-000000000002"
    pubKey := List.replicate 64 8, hasPub := true, ts := 6 }]
  hubEntries := [
    { addr := str "hub.example.net:9000", edPub := some (List.replicate 32 7) },
    { addr := str "192.0.2.1:9000" }]
  hubs := [str "hub.example.net:9000", str "192.0.2.1:9000"]
  hubKey := BotAuth.b64enc (List.replicate 64 5)
  hubKeyRaw := List.replicate 64 5
  botUuid := str "00000000-0000-4000-8000-000000000003"
  user := str "bot"
  gecos := str "a bot"
  logLevel := 3
  optFlags := str "x"
  optFlagsTs := 4
  adminDeltaPending := true

theorem homeState_savable : Savable homeTools homeState where
  nick := by decide
  nick_lt := by decide
  servers := by decide
  servers_le := by decide
  chans := by
    have hone : SavableChan (homeState.chans[0]) := by
      refine ⟨by decide, by decide, by decide, by decide, by decide, fun _ => by decide, fun _ => ?_, ?_⟩
      · exact ⟨by decide, by decide, by decide, by decide, by decide, by decide⟩
      · exact fun h => absurd (by decide) h
    have htwo : SavableChan (homeState.chans[1]) := by
      refine ⟨by decide, by decide, by decide, by decide, by decide, fun h => absurd h (by decide),
        fun _ => ?_, fun h => absurd (by decide) h⟩
      exact ⟨by decide, by decide, by decide, by decide, by decide, by decide⟩
    have hthree : SavableChan (homeState.chans[2]) := by
      refine ⟨by decide, by decide, by decide, by decide, by decide, fun h => absurd h (by decide),
        fun _ => ?_, fun h => absurd (by decide) h⟩
      exact ⟨by decide, by decide, by decide, by decide, by decide, by decide⟩
    intro c hc
    simp only [homeState, List.mem_cons, List.not_mem_nil, or_false] at hc
    rcases hc with rfl | rfl | rfl
    · exact hone
    · exact htwo
    · exact hthree
  names := by decide
  net _ := by decide
  no_net h := absurd (by decide) h
  bans := List.forall_mem_singleton.mpr
    ⟨by decide, by decide, by decide, by decide, by decide, by decide, by decide, by decide⟩
  bans_sound := by
    refine ⟨by decide, by decide, fun chan => ?_⟩
    refine le_trans List.countP_le_length ?_
    unfold cap
    split
    · decide
    · decide
  users := List.forall_mem_singleton.mpr
    ⟨by decide, by decide, by decide, by decide, fun _ => by decide +kernel, fun h => absurd h (by decide),
      by decide, by decide, by decide⟩
  users_le := by decide
  masks := List.forall_mem_singleton.mpr
    ⟨by decide, by decide, by decide, by decide, by decide, by decide⟩
  masks_le := by decide
  bots := List.forall_mem_singleton.mpr
    ⟨by decide, by decide, by decide, by decide, by decide, fun _ => by decide +kernel,
      fun h => absurd h (by decide), by decide⟩
  bots_le := by decide
  log_size := by decide
  user := by decide
  user_lt := by decide
  gecos := by decide
  gecos_lt := by decide
  vhost := by decide
  vhost_lt := by decide
  hubs := by
    refine List.forall_mem_cons.mpr ⟨⟨by decide, by decide, fun k hk => ?_⟩,
      List.forall_mem_singleton.mpr ⟨by decide, by decide, fun k hk => absurd hk.symm (Option.some_ne_none k)⟩⟩
    obtain rfl := Option.some.inj hk
    exact ⟨by decide, by decide, by decide +kernel⟩
  hubs_le := by decide
  addrs := by decide
  key _ := ⟨by decide, by decide, by decide +kernel, by decide⟩
  no_key h := absurd h (by decide)
  uuid := by decide
  uuid_lt := by decide
  own h := absurd h (by decide)
  flags := forall_of_all (by decide)
  flags_le := by decide
  flags_stamp := by decide

/-- It comes back without the third channel. -/
theorem load_serialize_home :
    let r := loadText homeTools ⟨fun _ => none, none, none⟩ false false
      ((serialize homeTools homeState).getD []) {}
    r.state.durable = homeState.durable.back ∧
    (r.ok = true ↔ homeState.targetNick ≠ [] ∧ homeState.serverList ≠ [] ∧ homeState.user ≠ []) ∧
    (r.rewrite = true ↔ false = false ∧
      (false = true ∨ ∃ u ∈ homeState.userRecords, u.hasPubkey = false)) := by
  have htext : serialize homeTools homeState =
      some ((serialize homeTools homeState).getD []) := by decide +kernel
  exact load_serialize homeState_savable htext rfl rfl _ false false

example : homeState.durable.back.chans.map (·.name) = [str "#one", str "#two"] := by decide

end IrcBot.ConfigFile
