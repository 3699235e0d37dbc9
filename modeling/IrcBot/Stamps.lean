/-
# Stamps (`state.rs`, `hub_client.rs`, `config.rs`, `chancfg.rs`, `commands.rs`)

The stamp of a record is a number that a line spelled. A change of the record takes the next one,
in a build that aborts where an addition overflows.

* `faultless_iff` — the next stamp can be taken, wins, and is read back exactly below the largest
  stamp that the reader of the line knows.
* `stamps_faultless` — the same for every line that carries a stamp, and when the uptimes of the
  tree are added up.
-/
import IrcBot.BanTable
import IrcBot.ChanRecord
import IrcBot.Chanset
import IrcBot.HubRequests

namespace IrcBot.Stamps

open Cstr Chancfg Config HubPush HubSync ChanRecord SettingsMerge BanTable

/-! ### The next stamp -/

/-- `lww_next_ts`, none where the addition overflows. -/
def checkedNextTs (now prev : Int) : Option Int :=
  if prev < now then some now else checkedI64 (prev + 1)

/-- A reading of the clock, or none before 1970. -/
def IsClock (t : Int) : Prop := 0 ≤ t ∧ t ≤ i64Max

/-- The next stamp can be taken; it is above the old one, wins over it, and is read back. -/
def Faultless (back : Int → Prop) (now prev : Int) : Prop :=
  ∃ next, checkedNextTs now prev = some next ∧ prev < next ∧
    (∀ inActive curActive, lwwAccepts next inActive prev curActive = true) ∧ back next

variable {now prev next : Int}

/-- The next stamp, where it does not overflow. -/
theorem checkedNextTs_eq_some (hnow : IsClock now) (hprev : i64Min ≤ prev) :
    checkedNextTs now prev = some next ↔ next = lwwNextTs now prev ∧ next ≤ i64Max := by
  obtain ⟨-, hle⟩ := hnow
  unfold checkedNextTs lwwNextTs checkedI64
  split
  · constructor
    · intro h
      obtain rfl := Option.some.inj h
      exact ⟨rfl, hle⟩
    · rintro ⟨rfl, -⟩
      rfl
  · split
    · rename_i hfits
      constructor
      · intro h
        obtain rfl := Option.some.inj h
        exact ⟨rfl, hfits.2⟩
      · rintro ⟨rfl, -⟩
        rfl
    · rename_i hlong
      refine iff_of_false (fun h => nomatch h) ?_
      rintro ⟨rfl, hmax⟩
      exact hlong ⟨by omega, hmax⟩

/-- **When the next stamp is as it should be**: below the largest stamp that is read back. -/
theorem faultless_iff {back : Int → Prop} {limit : Int} (hlimit : limit ≤ i64Max)
    (hnow : IsClock now)
    (hprev : i64Min ≤ prev) (hback : ∀ ts, prev < ts → ts ≤ i64Max → (back ts ↔ ts ≤ limit)) :
    Faultless back now prev ↔ prev < limit ∧ now ≤ limit := by
  have hgt := lwwNextTs_gt now prev
  constructor
  · rintro ⟨next, hnext, habove, -, hread⟩
    obtain ⟨rfl, hmax⟩ := (checkedNextTs_eq_some hnow hprev).mp hnext
    have hle := (hback _ habove hmax).mp hread
    refine ⟨Int.lt_of_lt_of_le habove hle, Int.le_trans ?_ hle⟩
    unfold lwwNextTs
    split <;> omega
  · rintro ⟨hbelow, hclock⟩
    have hle : lwwNextTs now prev ≤ limit := by
      unfold lwwNextTs
      split <;> omega
    have hmax := Int.le_trans hle hlimit
    refine ⟨_, (checkedNextTs_eq_some hnow hprev).mpr ⟨rfl, hmax⟩, hgt,
      fun inActive curActive => ?_,
      (hback _ hgt hmax).mpr hle⟩
    simp [lwwAccepts, hgt]

/-! ### Lines with a stamp -/

/-- The lines of a payload of the hub and of the config file that carry a stamp which the bot
bumps. -/
inductive Line where
  | hubChan
  | cfgChan
  | user (typ : UInt8)
  | mask
  | chanSettings
  | netSettings
  | ban
deriving DecidableEq, Repr

/-- The largest stamp that the parser of a line reads. -/
def Line.limit : Line → Int
  | .hubChan => i64Max
  | .cfgChan => i64Max
  | .user _ => i64Max
  | .mask => i64Max
  | .chanSettings => maxLl
  | .netSettings => maxLl
  | .ban => maxLl

section

variable (P : Primitives)

/-- The stamp that the parser of a line stores; a stamp in the config file that is not positive
is none. -/
def Line.stamp : Line → Str → Option Int
  | .hubChan, data => (parseHubChan data).map (·.ts)
  | .cfgChan, data => ((parseCfgChan data).map (·.ts)).filter fun ts => decide (0 < ts)
  | .user _, data => (parseUserLine P data).map (·.timestamp)
  | .mask, data => ((splitPipes 5 data)[4]?.map atoll).filter fun _ =>
    hasUuidDashes (maskLineUuid data)
  | .chanSettings, data => (readCLine data).map (·.ts)
  | .netSettings, data => (readDLine data).map (·.ts)
  | .ban, data => (readBan data).map (·.ts)

/-- The record that a `c|` line of the hub makes of a new channel. -/
def hubRecord (p : HubChan) (ts : Int) : Chan :=
  { p.store { name := trunc p.chan maxChan } with timestamp := ts }

/-- The record that a `c|` line of the config file makes of a new channel. -/
def cfgRecord (p : CfgChan) (ts : Int) : Chan :=
  { name := trunc p.chan maxChan, key := trunc p.key maxKey
    isManaged := p.op != str "del", timestamp := ts }

/-- The record of an `m|` line. -/
def maskOf (data : Str) (ts : Int) : MaskRecord :=
  let field (i : Nat) : Str := ((splitPipes 5 data)[i]?).getD []
  { uuid := trunc (field 0) uuidBuf, mask := trunc (field 1) maxMaskLen
    isActive := (str "add").isPrefixOf (trunc (field 2) 8), lastUsed := max 0 (atoll (field 3))
    timestamp := ts }

/-- The record of a line with another stamp, written out. -/
def Line.written : Line → Str → Int → Option Str
  | .hubChan, data, ts => (parseHubChan data).map fun p => chanLine (hubRecord p ts)
  | .cfgChan, data, ts => (parseCfgChan data).bind fun p => cfgChanLine (cfgRecord p ts)
  | .user typ, data, ts => (parseUserLine P data).map fun u =>
      formatUserLine { typ, uuid := u.uuid, name := u.name, pubkeyB64 := u.pubkeyB64
                       hasPubkey := u.hasPubkey, isActive := u.isActive, lastSeen := u.lastSeen
                       timestamp := ts }
  | .mask, data, ts => some (formatMaskLine (maskOf data ts))
  | .chanSettings, data, ts => (readCLine data).bind fun r =>
      formatCLine { name := r.chan, cfgModes := r.modes, cfgSettings := r.settings
                    cfgActive := r.active, cfgTs := ts }
  | .netSettings, data, ts => (readDLine data).bind fun r =>
      formatDLine { netModes := r.modes, netSettings := r.settings, netTs := ts }
  | .ban, data, ts => (readBan data).bind fun r => formatBLine { r with ts }

/-- A line between its tag and its end. -/
def body (line : Str) : Str := (line.drop 2).dropLast

/-- The record of a line can be written out with another stamp. It is read back with that stamp,
and is written as the same line again. -/
def Line.Back (k : Line) (data : Str) (ts : Int) : Prop :=
  ∃ line, k.written P data ts = some line ∧ k.stamp P (body line) = some ts ∧
    k.written P (body line) ts = some line

end

theorem body_append (tag : Str) (htag : tag.length = 2) (s : Str) :
    body (tag ++ s ++ str "\n") = s := by
  rw [body, List.append_assoc, List.drop_left' htag]
  exact List.dropLast_concat

/-! ### Settings -/

theorem splitPipes_five {name modes settings op stamp : Str} (hname : byte '|' ∉ name)
    (hmodes : byte '|' ∉ modes) (hsettings : byte '|' ∉ settings) (hop : byte '|' ∉ op)
    (hstamp : byte '|' ∉ stamp) :
    splitPipes 6 (name ++ str "|" ++ modes ++ str "|" ++ settings ++ str "|" ++ op ++ str "|" ++ stamp) =
      [name, modes, settings, op, stamp] := by
  have hdata : name ++ str "|" ++ modes ++ str "|" ++ settings ++ str "|" ++ op ++ str "|" ++ stamp =
      name ++ byte '|' :: (modes ++ byte '|' :: (settings ++ byte '|' :: (op ++ byte '|' :: stamp))) := by
    simp only [str, List.append_assoc]
    rfl
  rw [hdata, splitPipes_append hname, splitPipes_append hmodes,
    splitPipes_append hsettings, splitPipes_append hop,
    splitPipes_of_notMem hstamp]

/-- A stamp that a reader takes has at most 18 digits. -/
theorem length_dec_le {ts : Int} (hpos : 0 ≤ ts) (hle : ts ≤ maxLl) : (dec ts).length ≤ 18 := by
  obtain ⟨n, rfl⟩ := Int.eq_ofNat_of_zero_le hpos
  rw [dec, if_neg (Int.not_lt.mpr hpos)]
  exact length_decNat_le.mpr hle

theorem notMem_addDel (active : Bool) : byte '|' ∉ addDel active := by
  cases active <;> decide

theorem length_addDel (active : Bool) : (addDel active).length = 3 := by cases active <;> rfl

theorem validModesField_length {modes : Str} (h : validModesField modes = true) :
    modes.length ≤ cModesMax := by
  simp only [validModesField, Bool.and_eq_true, decide_eq_true_eq] at h
  exact h.1

/-- The body of a `C|` line. -/
def cBody (r : CRecord) (ts : Int) : Str :=
  r.chan ++ str "|" ++ r.modes ++ str "|" ++ r.settings ++ str "|" ++ addDel r.active ++ str "|" ++
    dec ts

/-- Settings of a channel fit on their line. -/
theorem length_cBody {r : CRecord} (h : Chancmd.CChecks r) {ts : Int} (hpos : 0 < ts)
    (hle : ts ≤ maxLl) : (cBody r ts).length + 2 ≤ cLineMax := by
  have hchan := (Chancmd.validChanName_plain h.chan).1
  have hmodes := validModesField_length h.modes
  have hsettings := h.settings
  have hdec := length_dec_le (Int.le_of_lt hpos) hle
  have hop := length_addDel r.active
  simp only [cBody, List.length_append, cLineMax, maxChan, cModesMax, cSettingsMax,
    show (str "|").length = 1 from rfl] at hchan hmodes hsettings ⊢
  omega

/-- What is written of the settings of a channel is read back. -/
theorem readCLine_cBody {r : CRecord} (h : Chancmd.CChecks r) {ts : Int} (hpos : 0 < ts)
    (hle : ts ≤ maxLl) : readCLine (cBody r ts) = some { r with ts } := by
  have hlen := length_cBody h hpos hle
  have hop : addOp (addDel r.active) = some r.active := by cases r.active <;> decide
  have hstamp : parseLl (dec ts) = some ts := by
    rw [parseLl_dec (Int.le_of_lt hpos), if_pos hle]
  have hsplit : splitPipes 6 (cBody r ts) =
    [r.chan, r.modes, r.settings, addDel r.active, dec ts] :=
    splitPipes_five (Chancmd.validChanName_plain h.chan).2 h.plainRecord.modesPlain
      h.plainRecord.settingsPlain (notMem_addDel _) (Chancmd.pipe_notMem_dec ts)
  have hvalid : ¬ (!validChanName r.chan || !validModesField r.modes ||
      decide (cSettingsMax < r.settings.length) || !plainText r.settings || decide (ts ≤ 0)) = true := by
    have hshort := h.settings
    simp [h.chan, h.modes, h.plain, hshort, hpos]
  rw [readCLine, if_neg (by omega), hsplit]
  dsimp only
  rw [hop, hstamp]
  dsimp only
  rw [if_neg hvalid]

/-- A `C|` line under a later stamp. -/
theorem back_chanSettings (P : Primitives) {data : Str} {r : CRecord} (h : readCLine data = some r)
    {ts : Int} (hpos : 0 < ts) (hle : ts ≤ maxLl) : Line.Back P .chanSettings data ts := by
  have hr := Chancmd.readCLine_checks h
  have hlen := length_cBody hr hpos hle
  have hwritten : Line.written P .chanSettings data ts =
    some (str "C|" ++ cBody r ts ++ str "\n") := by
    rw [Line.written, h, Option.bind_some, formatCLine, if_neg (Int.not_le.mpr hpos)]
    dsimp only
    have hline : str "C|" ++ r.chan ++ str "|" ++ r.modes ++ str "|" ++ r.settings ++ str "|" ++
        addDel r.active ++ str "|" ++ dec ts ++ str "\n" = str "C|" ++ cBody r ts ++ str "\n" := by
      simp only [cBody, List.append_assoc]
    rw [hline, if_pos]
    rw [List.length_append, List.length_append]
    change 2 + (cBody r ts).length + 1 < cLineMax + 2
    omega
  refine ⟨_, hwritten, ?_, ?_⟩
  · rw [body_append _ rfl, Line.stamp, readCLine_cBody hr hpos hle]
    rfl
  · rw [body_append _ rfl, ← hwritten, Line.written, Line.written, readCLine_cBody hr hpos hle, h]
    rfl

/-! ### Network defaults -/

/-- What a reader of `D|` lines has seen to. -/
theorem readDLine_checks {data : Str} {r : DRecord} (h : readDLine data = some r) :
    r.settings.length ≤ dSettingsMax ∧ r.ts ≤ maxLl := by
  unfold readDLine at h
  split at h
  · cases h
  · split at h
    · split at h
      · cases h
      · rename_i hts
        split at h
        · rename_i hvalid
          obtain rfl := Option.some.inj h
          exact ⟨hvalid.2.1, (parseLl_bounds hts).2⟩
        · cases h
    · cases h

def dBody (r : DRecord) (ts : Int) : Str := r.modes ++ str "|" ++ r.settings ++ str "|" ++ dec ts

/-- A `D|` line under a later stamp. -/
theorem back_netSettings (P : Primitives) {data : Str} {r : DRecord} (h : readDLine data = some r)
    {ts : Int} (hpos : 0 < ts) (hle : ts ≤ maxLl) : Line.Back P .netSettings data ts := by
  have hmodesLen := validModesField_length r.validModes
  have hsettings := (readDLine_checks h).1
  have hdec := length_dec_le (Int.le_of_lt hpos) hle
  have hlen : (dBody r ts).length + 2 ≤ dLineMax := by
    simp only [dBody, List.length_append, dLineMax, cModesMax, dSettingsMax,
      show (str "|").length = 1 from rfl] at hmodesLen hsettings ⊢
    omega
  have hdata : dBody r ts = r.modes ++ byte '|' :: (r.settings ++ byte '|' :: dec ts) := by
    simp only [dBody, str, List.append_assoc]
    rfl
  have hsplit : splitPipes 3 (dBody r ts) = [r.modes, r.settings, dec ts] := by
    rw [hdata, splitPipes_append r.notMem_modes, splitPipes_append r.notMem_settings,
      splitPipes_of_notMem (Chancmd.pipe_notMem_dec ts)]
  have hwritten : Line.written P .netSettings data ts =
    some (str "D|" ++ dBody r ts ++ str "\n") := by
    rw [Line.written, h, Option.bind_some, formatDLine, if_neg (Int.not_le.mpr hpos)]
    dsimp only
    have hline : str "D|" ++ r.modes ++ str "|" ++ r.settings ++ str "|" ++ dec ts ++ str "\n" =
        str "D|" ++ dBody r ts ++ str "\n" := by
      simp only [dBody, List.append_assoc]
    rw [hline, if_pos]
    rw [List.length_append, List.length_append]
    change 2 + (dBody r ts).length + 1 < dLineMax + 2
    omega
  have hread : ∃ r', readDLine (dBody r ts) = some r' ∧ r'.modes = r.modes ∧
    r'.settings = r.settings ∧
      r'.ts = ts := by
    have hstamp : parseLl (dec ts) = some ts := by
      rw [parseLl_dec (Int.le_of_lt hpos), if_pos hle]
    rw [readDLine, if_neg (by omega), hsplit]
    dsimp only
    rw [hstamp]
    dsimp only
    rw [dif_pos ⟨r.validModes, hsettings, r.plainSettings, hpos⟩]
    exact ⟨_, rfl, rfl, rfl, rfl⟩
  obtain ⟨r', hr', hmodes', hsettings', hts'⟩ := hread
  refine ⟨_, hwritten, ?_, ?_⟩
  · rw [body_append _ rfl, Line.stamp, hr', Option.map_some, hts']
  · rw [body_append _ rfl, ← hwritten, Line.written, Line.written, hr', h, Option.bind_some,
      Option.bind_some, hmodes', hsettings']

/-! ### Bans -/

/-- The last field is split off. -/
theorem rsplitPipe_append {front tail : Str} (hfront : front ≠ []) (htail : byte '|' ∉ tail) :
    rsplitPipe (front ++ byte '|' :: tail) = some (front, tail) := by
  have hne : ∀ c ∈ tail.reverse, decide (c ≠ byte '|') = true := fun c hc =>
    decide_eq_true fun heq => htail (heq ▸ List.mem_reverse.mp hc)
  have hrev : (front ++ byte '|' :: tail).reverse = tail.reverse ++ byte '|' :: front.reverse := by
    simp
  have hlast : ((front ++ byte '|' :: tail).reverse.takeWhile (fun c => decide (c ≠ byte '|'))).reverse =
      tail := by
    rw [hrev, List.takeWhile_append_of_pos hne]
    simp
  have hpos := List.length_pos_iff.mpr hfront
  unfold rsplitPipe
  dsimp only
  rw [hlast, if_neg (by simp only [List.length_append, List.length_cons]; omega)]
  have hlen : (front ++ byte '|' :: tail).length - tail.length - 1 = front.length := by
    simp only [List.length_append, List.length_cons]
    omega
  rw [hlen, List.take_left]

/-- A reason may have separators in it: the fields behind it are found from the end. -/
theorem splitBan_append {head op stamp : Str} (hop : byte '|' ∉ op) (hstamp : byte '|' ∉ stamp) :
    splitBan (head ++ byte '|' :: (op ++ byte '|' :: stamp)) = some (head, op, stamp) := by
  have hassoc : head ++ byte '|' :: (op ++ byte '|' :: stamp) =
      (head ++ byte '|' :: op) ++ byte '|' :: stamp := by simp
  have hne : ∀ c ∈ op.reverse, decide (c ≠ byte '|') = true := fun c hc =>
    decide_eq_true fun heq => hop (heq ▸ List.mem_reverse.mp hc)
  have hrev : (head ++ byte '|' :: op).reverse = op.reverse ++ byte '|' :: head.reverse := by simp
  have hlast : ((head ++ byte '|' :: op).reverse.takeWhile (fun c => decide (c ≠ byte '|'))).reverse =
      op := by
    rw [hrev, List.takeWhile_append_of_pos hne]
    simp
  have hmem : byte '|' ∈ head ++ byte '|' :: op := by simp
  have hlen : (head ++ byte '|' :: op).length - op.length - 1 = head.length := by
    simp only [List.length_append, List.length_cons]
    omega
  unfold splitBan
  rw [hassoc, rsplitPipe_append (by simp) hstamp]
  change (if byte '|' ∉ head ++ byte '|' :: op then none else _) = _
  rw [if_neg (fun h => h hmem), hlast, hlen, List.take_left]

/-- What is checked of a `B|` line. -/
structure BanChecks (r : CfgBan) : Prop where
  pos : 0 < r.ts
  fits : r.ts ≤ maxLl
  chan : ¬ (r.chan ≠ str "*" ∧ (!validChanName r.chan) = true)
  mask : ¬ (r.mask.isEmpty || banMaskMax < r.mask.length || !plainText r.mask ||
    r.mask.contains (byte ' ')) = true
  expires : 0 ≤ r.expires ∧ r.expires ≤ maxLl
  flags : ¬ (8 ≤ r.flags.length || !plainText r.flags) = true
  setter : ¬ (banSetterMax < r.setter.length || !plainText r.setter) = true
  reason : ¬ (banReasonMax < r.reason.length || r.reason.any fun c => c < 0x20 || c == 0x7f) = true

/-- What a reader of `B|` lines has seen to. -/
theorem readBan_checks {data : Str} {r : CfgBan} (h : readBan data = some r) : BanChecks r := by
  unfold readBan at h
  split at h
  · cases h
  · split at h
    · cases h
    · split at h
      · rename_i hts
        split at h
        · cases h
        · rename_i hpos
          split at h
          · cases h
          · rename_i hchan
            split at h
            · cases h
            · rename_i hmask
              split at h
              · cases h
              · rename_i hexpires
                split at h
                · cases h
                · rename_i hflags
                  split at h
                  · cases h
                  · rename_i hsetter
                    split at h
                    · cases h
                    · rename_i hreason
                      obtain rfl := Option.some.inj h
                      exact ⟨Int.not_le.mp hpos, (parseLl_bounds hts).2, hchan, hmask,
                        parseLl_bounds hexpires, hflags, hsetter, hreason⟩
      · cases h

/-- The body of a `B|` line in front of its last two fields. -/
def bHead (r : CfgBan) : Str :=
  r.chan ++ byte '|' :: (r.mask ++ byte '|' :: (dec r.expires ++ byte '|' :: (r.flags ++ byte '|' ::
    (r.setter ++ byte '|' :: r.reason))))

def bBody (r : CfgBan) (ts : Int) : Str :=
  bHead r ++ byte '|' :: (addDel r.active ++ byte '|' :: dec ts)

/-- A ban fits on its line. -/
theorem length_bBody {r : CfgBan} (h : BanChecks r) {ts : Int} (hpos : 0 < ts) (hle : ts ≤ maxLl) :
    (bBody r ts).length + 2 ≤ bLineMax := by
  have hchan : r.chan.length < maxChan := by
    by_cases hstar : r.chan = str "*"
    · rw [hstar]
      decide
    · exact (Chancmd.validChanName_plain (by simpa [hstar] using h.chan)).1
  obtain ⟨⟨⟨-, hmask⟩, -⟩, -⟩ : ((_ ∧ r.mask.length ≤ banMaskMax) ∧ _) ∧ _ := by
    simpa only [Bool.or_eq_true, not_or, decide_eq_true_eq, Nat.not_lt] using h.mask
  obtain ⟨hflags, -⟩ : r.flags.length < 8 ∧ _ := by
    simpa only [Bool.or_eq_true, not_or, decide_eq_true_eq, Nat.not_le] using h.flags
  obtain ⟨hsetter, -⟩ : r.setter.length ≤ banSetterMax ∧ _ := by
    simpa only [Bool.or_eq_true, not_or, decide_eq_true_eq, Nat.not_lt] using h.setter
  obtain ⟨hreason, -⟩ : r.reason.length ≤ banReasonMax ∧ _ := by
    simpa only [Bool.or_eq_true, not_or, decide_eq_true_eq, Nat.not_lt] using h.reason
  have hdec := length_dec_le (Int.le_of_lt hpos) hle
  have hexpires := length_dec_le h.expires.1 h.expires.2
  have hop := length_addDel r.active
  simp only [bBody, bHead, List.length_append, List.length_cons, bLineMax, maxChan, banMaskMax,
    banSetterMax, banReasonMax] at hchan hmask hsetter hreason ⊢
  omega

/-- What is written of a ban is read back. -/
theorem readBan_bBody {r : CfgBan} (h : BanChecks r) {ts : Int} (hpos : 0 < ts) (hle : ts ≤ maxLl) :
    readBan (bBody r ts) = some { r with ts, pushPending := false } := by
  have hlen := length_bBody h hpos hle
  have hchan : byte '|' ∉ r.chan := by
    by_cases hstar : r.chan = str "*"
    · rw [hstar]
      decide
    · exact (Chancmd.validChanName_plain (by simpa [hstar] using h.chan)).2
  have hmask : byte '|' ∉ r.mask := by
    refine Chancmd.plainText_plain ?_
    have hplain := h.mask
    simp only [Bool.or_eq_true, not_or, Bool.not_eq_true', Bool.not_eq_false] at hplain
    exact hplain.1.2
  have hflags : byte '|' ∉ r.flags := by
    refine Chancmd.plainText_plain ?_
    have hplain := h.flags
    simp only [Bool.or_eq_true, not_or, Bool.not_eq_true', Bool.not_eq_false] at hplain
    exact hplain.2
  have hsetter : byte '|' ∉ r.setter := by
    refine Chancmd.plainText_plain ?_
    have hplain := h.setter
    simp only [Bool.or_eq_true, not_or, Bool.not_eq_true', Bool.not_eq_false] at hplain
    exact hplain.2
  have hsplit : splitPipes 6 (bHead r) =
    [r.chan, r.mask, dec r.expires, r.flags, r.setter, r.reason] := by
    rw [bHead, splitPipes_append hchan, splitPipes_append hmask,
      splitPipes_append (Chancmd.pipe_notMem_dec _), splitPipes_append hflags,
      splitPipes_append hsetter]
    rfl
  have hop : addOp (addDel r.active) = some r.active := by cases r.active <;> decide
  have hstamp : parseLl (dec ts) = some ts := by
    rw [parseLl_dec (Int.le_of_lt hpos), if_pos hle]
  have hexpires : parseLl (dec r.expires) = some r.expires := by
    rw [parseLl_dec h.expires.1, if_pos h.expires.2]
  have hban : splitBan (bBody r ts) = some (bHead r, addDel r.active, dec ts) :=
    splitBan_append (notMem_addDel _) (Chancmd.pipe_notMem_dec ts)
  rw [readBan, if_neg (by omega), hban]
  dsimp only
  rw [hsplit, hop, hstamp]
  dsimp only
  rw [if_neg (Int.not_le.mpr hpos), if_neg h.chan, if_neg h.mask, hexpires]
  dsimp only
  rw [if_neg h.flags, if_neg h.setter, if_neg h.reason]

/-- A `B|` line under a later stamp. -/
theorem back_ban (P : Primitives) {data : Str} {r : CfgBan} (h : readBan data = some r) {ts : Int}
    (hpos : 0 < ts) (hle : ts ≤ maxLl) : Line.Back P .ban data ts := by
  have hr := readBan_checks h
  have hlen := length_bBody hr hpos hle
  have hwritten : Line.written P .ban data ts = some (str "B|" ++ bBody r ts ++ str "\n") := by
    rw [Line.written, h, Option.bind_some, formatBLine]
    dsimp only
    have hline : str "B|" ++ r.chan ++ str "|" ++ r.mask ++ str "|" ++ dec r.expires ++ str "|" ++
        r.flags ++ str "|" ++ r.setter ++ str "|" ++ r.reason ++ str "|" ++ addDel r.active ++ str "|" ++
        dec ts ++ str "\n" = str "B|" ++ bBody r ts ++ str "\n" := by
      simp only [bBody, bHead, show str "|" = [byte '|'] from rfl, List.append_assoc,
        List.cons_append, List.nil_append]
    rw [hline, if_pos]
    rw [List.length_append, List.length_append]
    change 2 + (bBody r ts).length + 1 < bLineMax + 2
    omega
  refine ⟨_, hwritten, ?_, ?_⟩
  · rw [body_append _ rfl, Line.stamp, readBan_bBody hr hpos hle]
    rfl
  · rw [body_append _ rfl, ← hwritten, Line.written, Line.written, readBan_bBody hr hpos hle, h]
    rfl

/-! ### People -/

/-- The first field is split off. -/
theorem splitFields_append {n : Nat} {s : Str} (h : byte '|' ∉ s) (rest : Str) :
    splitFields (s ++ byte '|' :: rest) (n + 1) = s :: splitFields rest n := by
  have hne : ∀ c ∈ s, decide (c ≠ byte '|') = true := fun c hc =>
    decide_eq_true fun heq => h (heq ▸ hc)
  rw [splitFields, List.dropWhile_append_of_pos hne, List.takeWhile_append_of_pos hne]
  simp

theorem pipe_notMem_splitFields {n : Nat} : ∀ {s f : Str}, f ∈ splitFields s n → byte '|' ∉ f := by
  induction n with
  | zero => exact fun h => nomatch h
  | succ n ih =>
      intro s f h
      rw [splitFields] at h
      split at h
      · rename_i hnone
        obtain rfl := List.mem_singleton.mp h
        intro hmem
        simpa using List.dropWhile_eq_nil_iff.mp hnone _ hmem
      · rcases List.mem_cons.mp h with rfl | h
        · intro hmem
          simpa using List.mem_takeWhile_imp hmem
        · exact ih h

theorem pipe_notMem_splitPipes {n : Nat} :
    ∀ {s f : Str} {i : Nat}, (splitPipes (n + 1) s)[i]? = some f →
    i < n → byte '|' ∉ f := by
  induction n with
  | zero => exact fun _ hi => absurd hi (Nat.not_lt_zero _)
  | succ n ih =>
      intro s f i h hi
      rw [splitPipes] at h
      split at h
      · rename_i hnone
        have hf : f = s := by
          cases i with
          | zero => exact (Option.some.inj h).symm
          | succ i => cases h
        subst hf
        intro hmem
        simpa using List.dropWhile_eq_nil_iff.mp hnone _ hmem
      · cases i with
        | zero =>
            obtain rfl := Option.some.inj h
            intro hmem
            simpa using List.mem_takeWhile_imp hmem
        | succ i => exact ih h (by omega)

/-- A stamp that fits is read back. -/
theorem atoll_dec {ts : Int} (hmin : i64Min ≤ ts) (hmax : ts ≤ i64Max) : atoll (dec ts) = ts := by
  have hread : strtoll (dec ts ++ []) = (ts, (dec ts).length) := strtoll_dec hmin hmax (by simp)
  rw [List.append_nil] at hread
  rw [atoll, hread]

section

variable {P : Primitives}

/-- The keys and names of a user line hold no `|`. -/
theorem parseUserLine_plain {data : Str} {u : UserLine} (h : parseUserLine P data = some u) :
    isUuid u.uuid = true ∧ (u.name.isEmpty || decide (userNameBuf ≤ u.name.length)) = false ∧
      byte '|' ∉ u.uuid ∧ byte '|' ∉ u.name ∧
      (u.hasPubkey = true → fieldPubkey P u.pubkeyB64 = some u.pubkeyB64 ∧ byte '|' ∉ u.pubkeyB64) ∧
      (∃ seen, u.lastSeen = atoll seen) ∧ ∃ stamp, u.timestamp = atoll stamp := by
  have hkey {f k : Str} (hk : fieldPubkey P f = some k) : k = f := by
    unfold fieldPubkey at hk
    split at hk
    · cases hk
    · obtain ⟨-, -, rfl⟩ := Option.map_eq_some_iff.mp hk
      rfl
  unfold parseUserLine at h
  split at h
  · rename_i uuid name third op lastSeen stamp rest hfields
    have hplain {f : Str} (hf : f ∈ uuid :: name :: third :: op :: lastSeen :: stamp :: rest) :
        byte '|' ∉ f := pipe_notMem_splitFields (hfields ▸ hf)
    split at h
    · cases h
    · rename_i huuid
      split at h
      · cases h
      · rename_i hname
        have hid : isUuid uuid = true := by simpa using huuid
        have hfits : (name.isEmpty || decide (userNameBuf ≤ name.length)) = false := by
          simpa using hname
        dsimp only at h
        split at h
        · rename_i k hk
          obtain rfl := Option.some.inj h
          obtain rfl := hkey hk
          exact ⟨hid, hfits, hplain (by simp), hplain (by simp), fun _ => ⟨hk, hplain (by simp)⟩,
            ⟨_, rfl⟩, _, rfl⟩
        · split at h
          · rename_i k hk
            obtain rfl := Option.some.inj h
            obtain ⟨f, hhead, hk⟩ := Option.bind_eq_some_iff.mp hk
            obtain rfl := hkey hk
            exact ⟨hid, hfits, hplain (by simp), hplain (by simp),
              fun _ => ⟨hk, hplain (by simp [List.mem_of_mem_head? hhead])⟩, ⟨_, rfl⟩, _, rfl⟩
          · obtain rfl := Option.some.inj h
            exact ⟨hid, hfits, hplain (by simp), hplain (by simp),
              (fun h => absurd h Bool.false_ne_true),
              ⟨_, rfl⟩, _, rfl⟩
  · cases h

/-- An `a|` or `o|` line under a later stamp. -/
theorem back_user {data : Str} {u : UserLine} (h : parseUserLine P data = some u) {ts : Int}
    (hmin : i64Min ≤ ts) (hmax : ts ≤ i64Max) (typ : UInt8) : Line.Back P (.user typ) data ts := by
  obtain ⟨hid, hfits, huuid, hname, hpubkey, ⟨seen, hseen⟩, -⟩ := parseUserLine_plain h
  generalize hkey : (if u.hasPubkey then u.pubkeyB64 else []) = key
  have hplainKey : byte '|' ∉ key := by
    subst hkey
    split
    · exact (hpubkey ‹_›).2
    · exact List.not_mem_nil
  let text : Str := u.uuid ++ byte '|' :: (u.name ++ byte '|' :: (key ++ byte '|' ::
    (addDel u.isActive ++ byte '|' :: (dec u.lastSeen ++ byte '|' :: (dec ts ++ byte '|' :: [])))))
  have hwritten : Line.written P (.user typ) data ts =
      some ([typ, byte '|'] ++ text ++ str "\n") := by
    rw [Line.written, h, Option.map_some, formatUserLine]
    dsimp only
    rw [hkey]
    simp only [text, show str "|" = [byte '|'] from rfl,
      show str "|\n" = [byte '|'] ++ str "\n" from rfl,
      List.append_assoc, List.cons_append, List.nil_append]
  have hfields : splitFields text 8 =
      [u.uuid, u.name, key, addDel u.isActive, dec u.lastSeen, dec ts, []] := by
    rw [splitFields_append huuid, splitFields_append hname, splitFields_append hplainKey,
      splitFields_append (notMem_addDel _), splitFields_append (Chancmd.pipe_notMem_dec _),
      splitFields_append (Chancmd.pipe_notMem_dec _)]
    rfl
  have hlast : atoll (dec u.lastSeen) = u.lastSeen := by
    rw [hseen]
    exact atoll_dec (strtoll_range seen).1 (strtoll_range seen).2
  have hread : ∃ u', parseUserLine P text = some u' ∧ u'.uuid = u.uuid ∧ u'.name = u.name ∧
      (if u'.hasPubkey then u'.pubkeyB64 else []) = key ∧ u'.isActive = u.isActive ∧
      u'.lastSeen = u.lastSeen ∧ u'.timestamp = ts := by
    have hempty : fieldPubkey P [] = none := rfl
    have hop : (addDel u.isActive == str "add") = u.isActive := (addDel_beq _).2
    rw [parseUserLine, hfields]
    dsimp only
    rw [if_neg (by simp [hid]), if_neg (by simp [hfits]), hlast, hop, atoll_dec hmin hmax]
    by_cases hpub : u.hasPubkey = true
    · obtain rfl : u.pubkeyB64 = key := by
        rw [if_pos hpub] at hkey
        exact hkey
      rw [(hpubkey hpub).1]
      exact ⟨_, rfl, rfl, rfl, rfl, rfl, rfl, rfl⟩
    · obtain rfl : [] = key := by
        rw [if_neg hpub] at hkey
        exact hkey
      rw [hempty]
      exact ⟨_, rfl, rfl, rfl, rfl, rfl, rfl, rfl⟩
  obtain ⟨u', hu', huuid', hname', hkey', hactive', hseen', hts'⟩ := hread
  refine ⟨_, hwritten, ?_, ?_⟩
  · rw [body_append _ rfl, Line.stamp, hu', Option.map_some, hts']
  · rw [body_append _ rfl, ← hwritten, Line.written, Line.written, hu', h, Option.map_some,
      Option.map_some, formatUserLine, formatUserLine]
    dsimp only
    rw [hkey', hkey, huuid', hname', hactive', hseen']

end

/-! ### Masks -/

/-- The uuid of a mask line is its first field. -/
theorem maskLineUuid_eq {data f : Str} (h : (splitPipes 5 data)[0]? = some f)
    (huuid : hasUuidDashes (maskLineUuid data) = true) :
    f.length = 36 ∧ hasUuidDashes f = true := by
  have hfirst : maskLineUuid data = f ∨ maskLineUuid data = [] := by
    rw [splitPipes] at h
    unfold maskLineUuid splitOnce
    split at h
    · exact .inr rfl
    · obtain rfl := Option.some.inj h
      dsimp only
      split
      · exact .inl rfl
      · exact .inr rfl
  rcases hfirst with hf | hnil
  · rw [hf] at huuid
    have hlen := huuid
    simp only [hasUuidDashes, Bool.and_eq_true, beq_iff_eq] at hlen
    exact ⟨hlen.1, huuid⟩
  · rw [hnil] at huuid
    cases huuid

theorem getElem?_of_lt {α : Type} {xs : List α} {i j : Nat} {x : α} (h : xs[j]? = some x)
    (hij : i ≤ j) : ∃ y, xs[i]? = some y := by
  obtain ⟨hlt, -⟩ := List.getElem?_eq_some_iff.mp h
  exact ⟨_, List.getElem?_eq_getElem (by omega)⟩

theorem pipe_notMem_trunc {s : Str} (h : byte '|' ∉ s) (cap : Nat) : byte '|' ∉ trunc s cap :=
  fun hmem => h ((trunc_isPrefix s cap).subset hmem)

/-- An `m|` line under a later stamp. -/
theorem back_mask (P : Primitives) {data : Str} {prev : Int}
    (h : Line.stamp P .mask data = some prev)
    {ts : Int} (hmin : i64Min ≤ ts) (hmax : ts ≤ i64Max) : Line.Back P .mask data ts := by
  obtain ⟨hstamp, huuid⟩ := Option.filter_eq_some_iff.mp h
  obtain ⟨last, hlast, -⟩ := Option.map_eq_some_iff.mp hstamp
  obtain ⟨uuid, hfirst⟩ := getElem?_of_lt hlast (Nat.zero_le 4)
  obtain ⟨mask, hmask⟩ := getElem?_of_lt hlast (show 1 ≤ 4 by decide)
  obtain ⟨hlen, hdashes⟩ := maskLineUuid_eq hfirst huuid
  have hplain := pipe_notMem_splitPipes hfirst (by decide)
  have hplainMask := pipe_notMem_trunc (pipe_notMem_splitPipes hmask (by decide)) maxMaskLen
  have hid : trunc uuid uuidBuf = uuid := trunc_of_lt (by rw [hlen]; decide)
  let r := maskOf data ts
  have hruuid : r.uuid = uuid := by
    change trunc ((splitPipes 5 data)[0]?.getD []) uuidBuf = uuid
    rw [hfirst]
    exact hid
  have hrmask : r.mask = trunc mask maxMaskLen := by
    change trunc ((splitPipes 5 data)[1]?.getD []) maxMaskLen = _
    rw [hmask]
    rfl
  let text : Str := r.uuid ++ byte '|' :: (r.mask ++ byte '|' :: (addDel r.isActive ++ byte '|' ::
    (dec r.lastUsed ++ byte '|' :: dec ts)))
  have hfields : splitPipes 5 text =
    [r.uuid, r.mask, addDel r.isActive, dec r.lastUsed, dec ts] := by
    rw [splitPipes_append (by rwa [hruuid]), splitPipes_append (by rwa [hrmask]),
      splitPipes_append (notMem_addDel _), splitPipes_append (Chancmd.pipe_notMem_dec _)]
    rfl
  have hread : maskLineUuid text = r.uuid := by
    rw [maskLineUuid, splitOnce_append (by rwa [hruuid])]
    dsimp only
    rw [if_pos (by rw [hruuid, hlen]; decide)]
  have hwritten : Line.written P .mask data ts = some (str "m|" ++ text ++ str "\n") := by
    have hts : (maskOf data ts).timestamp = ts := rfl
    rw [Line.written, formatMaskLine, hts]
    simp only [text, r, show str "|" = [byte '|'] from rfl, List.append_assoc, List.cons_append,
      List.nil_append]
  have hagain : maskOf text ts = maskOf data ts := by
    have hseen : max 0 (atoll (dec r.lastUsed)) = r.lastUsed := by
      have hrange := strtoll_range (((splitPipes 5 data)[3]?).getD [])
      have hlast : r.lastUsed = max 0 (atoll (((splitPipes 5 data)[3]?).getD [])) := rfl
      have hpos : 0 ≤ r.lastUsed := hlast ▸ Int.le_max_left _ _
      have hle : r.lastUsed ≤ i64Max := by
        rw [hlast]
        exact Int.max_le.mpr ⟨by decide, hrange.2⟩
      rw [atoll_dec (Int.le_trans (by decide) hpos) hle]
      exact Int.max_eq_right hpos
    have hop : (str "add").isPrefixOf (trunc (addDel r.isActive) 8) = r.isActive := by
      cases r.isActive <;> decide
    have hid' : trunc r.uuid uuidBuf = r.uuid := by rw [hruuid, hid]
    have hmask' : trunc r.mask maxMaskLen = r.mask := by
      have hshort := length_trunc_le mask maxMaskLen
      rw [hrmask]
      exact trunc_of_lt (Nat.lt_of_le_of_lt hshort (by decide))
    rw [maskOf, hfields]
    change MaskRecord.mk (trunc r.uuid uuidBuf) (trunc r.mask maxMaskLen)
      ((str "add").isPrefixOf (trunc (addDel r.isActive) 8)) (max 0 (atoll (dec r.lastUsed))) ts 0 = r
    rw [hid', hmask', hop, hseen]
    rfl
  refine ⟨_, hwritten, ?_, ?_⟩
  · rw [body_append _ rfl, Line.stamp, hfields, hread, hruuid, hdashes]
    exact congrArg some (atoll_dec hmin hmax)
  · rw [body_append _ rfl, ← hwritten, Line.written, Line.written, hagain]

/-! ### Channels -/

section

variable {input : Str} {fmt : List Fmt} {i : Nat}

/-- A field that was read has its width and stops at its delimiters. -/
theorem carry_field {max : Nat} {excl : Str}
    (hf : (fmt.filter Fmt.converts)[i]? = some (.set max excl))
    (hlen : i < (sscanf input fmt).length) (old : Str) :
    carry (sscanf input fmt) i old ≠ [] ∧ (carry (sscanf input fmt) i old).length ≤ max ∧
      ∀ b ∈ carry (sscanf input fmt) i old, b ∉ excl := by
  obtain ⟨f, hfield, hgives⟩ := sscanf_gives (List.getElem?_eq_getElem hlen)
  obtain rfl := Option.some.inj (hf.symm.trans hfield)
  rw [carry, List.getElem?_eq_getElem hlen]
  exact hgives

/-- A number that is scanned is in range, or is the one that was there. -/
theorem carryInt_range (hf : (fmt.filter Fmt.converts)[i]? = some .int) {old : Int}
    (hold : i64Min ≤ old ∧ old ≤ i64Max) :
    i64Min ≤ carryInt (sscanf input fmt) i old ∧ carryInt (sscanf input fmt) i old ≤ i64Max := by
  cases hread : (sscanf input fmt)[i]? with
  | none =>
      rw [carryInt, hread]
      exact hold
  | some c =>
      obtain ⟨f, hfield, hgives⟩ := sscanf_gives hread
      obtain rfl := Option.some.inj (hf.symm.trans hfield)
      rw [carryInt, hread]
      exact hgives.2

end

theorem pipe_notMem_of_excl {s : Str} (h : ∀ b ∈ s, b ∉ [byte '|']) : byte '|' ∉ s :=
  fun hmem => h _ hmem (List.mem_singleton_self _)

/-- What the parser of a `c|` line leaves can be written as a line again. -/
def ChanFields (name key : Str) (ts : Int) : Prop :=
  (name ≠ [] ∧ name.length ≤ 64 ∧ ∀ b ∈ name, b ∉ [byte '|']) ∧
    (key.length ≤ 30 ∧ ∀ b ∈ key, b ∉ [byte '|']) ∧ i64Min ≤ ts ∧ ts ≤ i64Max

/-- A `c|` line from the hub: its name and key have no separator, and its stamp is in range. -/
theorem chanFields_parseHubChan {data : Str} {p : HubChan} (h : parseHubChan data = some p) :
    ChanFields p.chan p.key p.ts := by
  have hzero : i64Min ≤ 0 ∧ (0 : Int) ≤ i64Max := by decide
  have hempty : ([] : Str).length ≤ 30 ∧ ∀ b ∈ ([] : Str), b ∉ [byte '|'] :=
    ⟨Nat.zero_le _, fun b hb => nomatch hb⟩
  unfold parseHubChan at h
  dsimp only at h
  split at h
  · rename_i hlen
    obtain rfl := Option.some.inj h
    exact ⟨carry_field rfl (by omega) _, (carry_field rfl (by omega) _).2, carryInt_range rfl hzero⟩
  · split at h
    · rename_i hlen
      obtain rfl := Option.some.inj h
      exact ⟨carry_field rfl (by omega) _, hempty, carryInt_range rfl (carryInt_range rfl hzero)⟩
    · split at h
      · rename_i hlen
        obtain rfl := Option.some.inj h
        exact ⟨carry_field rfl (by omega) _, (carry_field rfl (by omega) _).2,
          carryInt_range rfl (carryInt_range rfl (carryInt_range rfl hzero))⟩
      · split at h
        · rename_i hlen
          obtain rfl := Option.some.inj h
          exact ⟨carry_field rfl (by omega) _, hempty,
            carryInt_range rfl (carryInt_range rfl (carryInt_range rfl (carryInt_range rfl hzero)))⟩
        · cases h

/-- And one of the file. -/
theorem chanFields_parseCfgChan {data : Str} {p : CfgChan} (h : parseCfgChan data = some p) :
    ChanFields p.chan p.key p.ts := by
  have hstamp {input : Str} {fmt : List Fmt} (head : List Conv) {rest : List Conv}
      (hread : sscanf input fmt = head ++ rest)
      (hf : (fmt.filter Fmt.converts)[head.length]? = some .int) :
      i64Min ≤ (rest.head?.map (·.int)).getD 0 ∧ (rest.head?.map (·.int)).getD 0 ≤ i64Max := by
    have hrange : i64Min ≤ carryInt (sscanf input fmt) head.length 0 ∧
        carryInt (sscanf input fmt) head.length 0 ≤ i64Max := carryInt_range hf (by decide)
    rwa [carryInt, hread, List.getElem?_append_right (Nat.le_refl _), Nat.sub_self,
      ← List.head?_eq_getElem?] at hrange
  unfold parseCfgChan at h
  dsimp only at h
  split at h
  · rename_i chan key op rest hread
    obtain rfl := Option.some.inj h
    have hchan := carry_field (i := 0) rfl (by rw [hread]; simp) []
    have hkey := carry_field (i := 1) rfl (by rw [hread]; simp) []
    rw [hread] at hchan hkey
    exact ⟨hchan, hkey.2, hstamp [chan, key, op] hread rfl⟩
  · split at h
    · rename_i chan op rest hread
      obtain rfl := Option.some.inj h
      have hchan := carry_field (i := 0) rfl (by rw [hread]; simp) []
      rw [hread] at hchan
      exact ⟨hchan, ⟨Nat.zero_le _, fun b hb => nomatch hb⟩, hstamp [chan, op] hread rfl⟩
    · cases h

theorem ChanFields.fields {name key : Str} {prev : Int} (h : ChanFields name key prev) {c : Chan}
    (hname : c.name = name) (hkey : c.key = key) (hmin : i64Min ≤ c.timestamp)
    (hmax : c.timestamp ≤ i64Max) : Fields c := by
  obtain ⟨⟨hne, hlen, hplain⟩, ⟨hshort, hplainKey⟩, -⟩ := h
  subst hname hkey
  exact ⟨hne, Nat.lt_succ_of_le hlen, pipe_notMem_of_excl hplain, Nat.lt_succ_of_le hshort,
    pipe_notMem_of_excl hplainKey, hmin, hmax⟩

theorem ofInt_toI32 (m : UInt32) : UInt32.ofInt (toI32 (toI32 m.toNat)) = m := by
  have hlt := m.toNat_lt
  have hmod : toI32 (toI32 m.toNat) % 2 ^ 32 = m.toNat := by
    simp only [toI32]
    omega
  rw [UInt32.ofInt, hmod, Int.toNat_natCast, UInt32.ofNat_toNat]

/-- A `c|` line from the hub under a later stamp. -/
theorem back_hubChan (P : Primitives) {data : Str} {p : HubChan} (h : parseHubChan data = some p)
    {ts : Int} (hmin : i64Min ≤ ts) (hmax : ts ≤ i64Max) : Line.Back P .hubChan data ts := by
  have hp := chanFields_parseHubChan h
  have hlen : p.chan.length < maxChan := Nat.lt_succ_of_le hp.1.2.1
  have hshort : p.key.length < maxKey := Nat.lt_succ_of_le hp.2.1.1
  generalize hc : hubRecord p ts = c
  have hname : c.name = p.chan := hc ▸ trunc_of_lt hlen
  have hkey : c.key = p.key := by
    subst hc
    change (if p.key.isEmpty then [] else trunc p.key maxKey) = p.key
    split
    · exact (List.isEmpty_iff.mp ‹_›).symm
    · exact trunc_of_lt hshort
  have hts : c.timestamp = ts := hc ▸ rfl
  have hfields := hp.fields hname hkey (hts ▸ hmin) (hts ▸ hmax)
  obtain ⟨hlow, hhigh⟩ := toI32_bounds c.modes.toNat
  have hread := parseHubChan_hubBody hfields hlow hhigh
  have hwritten : Line.written P .hubChan data ts =
      some (str "c|" ++ hubBody c (toI32 c.modes.toNat) ++ str "\n") := by
    rw [Line.written, h, Option.map_some, hc]
    exact congrArg some (chanLine_eq c)
  have hagain : hubRecord ⟨c.name, c.key, toI32 c.modes.toNat, addDel c.isManaged,
    c.timestamp⟩ ts = c := by
    have hop := (addDel_beq c.isManaged).2
    have hid : trunc c.name maxChan = c.name := trunc_of_lt (hname ▸ hlen)
    have hsame : (if c.key.isEmpty then [] else trunc c.key maxKey) = c.key := by
      split
      · exact (List.isEmpty_iff.mp ‹_›).symm
      · exact trunc_of_lt (hkey ▸ hshort)
    rw [hubRecord, HubChan.store]
    dsimp only
    rw [hid, hsame, hop, ofInt_toI32, ← hts]
    subst hc
    rfl
  refine ⟨_, hwritten, ?_, ?_⟩
  · rw [body_append _ rfl, Line.stamp, hread, Option.map_some, hts]
  · rw [body_append _ rfl, Line.written, hread, Option.map_some, hagain]
    exact congrArg some (chanLine_eq c)

/-- A `c|` line of the file under a later stamp. -/
theorem back_cfgChan (P : Primitives) {data : Str} {p : CfgChan} (h : parseCfgChan data = some p)
    {ts : Int} (hpos : 0 < ts) (hmax : ts ≤ i64Max) : Line.Back P .cfgChan data ts := by
  have hp := chanFields_parseCfgChan h
  have hlen : p.chan.length < maxChan := Nat.lt_succ_of_le hp.1.2.1
  have hshort : p.key.length < maxKey := Nat.lt_succ_of_le hp.2.1.1
  generalize hc : cfgRecord p ts = c
  have hname : c.name = p.chan := hc ▸ trunc_of_lt hlen
  have hkey : c.key = p.key := hc ▸ trunc_of_lt hshort
  have hts : c.timestamp = ts := hc ▸ rfl
  have hmin : i64Min ≤ c.timestamp := hts ▸ Int.le_trans (by decide) (Int.le_of_lt hpos)
  have hread := parseCfgChan_cfgBody (hp.fields hname hkey hmin (hts ▸ hmax))
  have hline : cfgChanLine c = some (str "c|" ++ cfgBody c ++ str "\n") :=
    cfgChanLine_eq (by omega)
  have hwritten : Line.written P .cfgChan data ts = some (str "c|" ++ cfgBody c ++ str "\n") := by
    rw [Line.written, h, Option.bind_some, hc, hline]
  have hagain : cfgRecord ⟨c.name, c.key, addDel c.isManaged, c.timestamp⟩ ts = c := by
    have hop := (addDel_beq c.isManaged).1
    have hid : trunc c.name maxChan = c.name := trunc_of_lt (hname ▸ hlen)
    have hsame : trunc c.key maxKey = c.key := trunc_of_lt (hkey ▸ hshort)
    rw [cfgRecord]
    dsimp only
    rw [hid, hsame, hop, ← hts]
    subst hc
    rfl
  refine ⟨_, hwritten, ?_, ?_⟩
  · rw [body_append _ rfl, Line.stamp, hread, Option.map_some, hts]
    exact Option.filter_eq_some_iff.mpr ⟨rfl, decide_eq_true hpos⟩
  · rw [body_append _ rfl, Line.written, hread, Option.bind_some, hagain, hline]

/-! ### Every line -/

section

variable {P : Primitives} {k : Line} {data : Str}

/-- The stamps that a reader gives. -/
theorem stamp_range (h : k.stamp P data = some prev) : i64Min ≤ prev ∧ prev ≤ k.limit := by
  have hll {ts : Int} (hpos : 0 < ts) : i64Min ≤ ts := Int.le_trans (by decide) (Int.le_of_lt hpos)
  cases k with
  | hubChan =>
      obtain ⟨p, hp, rfl⟩ := Option.map_eq_some_iff.mp h
      exact (chanFields_parseHubChan hp).2.2
  | cfgChan =>
      obtain ⟨p, hp, rfl⟩ := Option.map_eq_some_iff.mp (Option.filter_eq_some_iff.mp h).1
      exact (chanFields_parseCfgChan hp).2.2
  | user typ =>
      obtain ⟨u, hu, rfl⟩ := Option.map_eq_some_iff.mp h
      obtain ⟨-, -, -, -, -, -, text, htext⟩ := parseUserLine_plain hu
      rw [htext]
      exact strtoll_range text
  | mask =>
      obtain ⟨text, -, rfl⟩ := Option.map_eq_some_iff.mp (Option.filter_eq_some_iff.mp h).1
      exact strtoll_range text
  | chanSettings =>
      obtain ⟨r, hr, rfl⟩ := Option.map_eq_some_iff.mp h
      have hchecks := Chancmd.readCLine_checks hr
      exact ⟨hll hchecks.pos, hchecks.fits⟩
  | netSettings =>
      obtain ⟨r, hr, rfl⟩ := Option.map_eq_some_iff.mp h
      exact ⟨hll r.pos, (readDLine_checks hr).2⟩
  | ban =>
      obtain ⟨r, hr, rfl⟩ := Option.map_eq_some_iff.mp h
      have hchecks := readBan_checks hr
      exact ⟨hll hchecks.pos, hchecks.fits⟩

/-- The record of a line takes every later stamp up to the limit of its parser. -/
theorem back_of_le (h : k.stamp P data = some prev) {ts : Int} (hlt : prev < ts)
    (hle : ts ≤ k.limit) : k.Back P data ts := by
  have hmin : i64Min ≤ ts := Int.le_trans (stamp_range h).1 (Int.le_of_lt hlt)
  cases k with
  | hubChan =>
      obtain ⟨p, hp, rfl⟩ := Option.map_eq_some_iff.mp h
      exact back_hubChan P hp hmin hle
  | cfgChan =>
      obtain ⟨hstamp, hpos⟩ := Option.filter_eq_some_iff.mp h
      obtain ⟨p, hp, rfl⟩ := Option.map_eq_some_iff.mp hstamp
      exact back_cfgChan P hp (Int.lt_trans (of_decide_eq_true hpos) hlt) hle
  | user typ =>
      obtain ⟨u, hu, rfl⟩ := Option.map_eq_some_iff.mp h
      exact back_user hu hmin hle typ
  | mask => exact back_mask P h hmin hle
  | chanSettings =>
      obtain ⟨r, hr, rfl⟩ := Option.map_eq_some_iff.mp h
      exact back_chanSettings P hr (Int.lt_trans (Chancmd.readCLine_checks hr).pos hlt) hle
  | netSettings =>
      obtain ⟨r, hr, rfl⟩ := Option.map_eq_some_iff.mp h
      exact back_netSettings P hr (Int.lt_trans r.pos hlt) hle
  | ban =>
      obtain ⟨r, hr, rfl⟩ := Option.map_eq_some_iff.mp h
      exact back_ban P hr (Int.lt_trans (readBan_checks hr).pos hlt) hle

theorem limit_le (k : Line) : k.limit ≤ i64Max := by
  have hll : maxLl ≤ i64Max := by decide
  cases k <;> first | exact Int.le_refl _ | exact hll

/-- For each kind of line: the next stamp is read back exactly below the limit of its reader. -/
theorem faultless_line (hnow : IsClock now) (h : k.stamp P data = some prev) :
    Faultless (k.Back P data) now prev ↔ prev < k.limit ∧ now ≤ k.limit := by
  refine faultless_iff (limit_le k) hnow (stamp_range h).1 fun ts hlt _ => ⟨?_, back_of_le h hlt⟩
  rintro ⟨line, -, hread, -⟩
  exact (stamp_range hread).2

end

/-- A stamp that is read on its own, as those of the lines from before the uuids. -/
theorem faultless_atoll (hnow : IsClock now) (text : Str) :
    Faultless (fun ts => atoll (dec ts) = ts) now (atoll text) ↔ atoll text < i64Max := by
  have hrange := strtoll_range text
  refine (faultless_iff (Int.le_refl i64Max) hnow hrange.1 fun ts hlt hle =>
    iff_of_true (atoll_dec (Int.le_trans hrange.1 (Int.le_of_lt hlt)) hle) hle).trans ?_
  exact and_iff_left hnow.2

/-! ### Uptimes in the tree of bots -/

/-- A row of the tree, as far as its uptime reads it. -/
structure TreeTimes where
  kind : UInt8
  online : Bool
  uptime : Int
  /-- Absolute start time, 0 for unknown. -/
  started : Int := 0
  /-- The hub sent the start time: the uptime is left to the bot. -/
  hasStarted : Bool := false
deriving DecidableEq, Repr

/-- A line of `process_tree`. -/
def parseTreeTimes (text : Str) : Option TreeTimes :=
  if text[1]? ≠ some (byte '|') then none
  else
    let f := (splitPipes 9 (text.drop 2)).take 8
    let at' (i : Nat) : Str := (f[i]?).getD []
    let started := if 8 ≤ f.length then atoll (at' 7) else 0
    let hasStarted := decide (8 ≤ f.length)
    let kind := lower (text.headD 0)
    if kind = byte 'h' ∧ 5 ≤ f.length then
      some ⟨kind, atoi (at' 3) != 0, atoll (at' 4), started, hasStarted⟩
    else if kind = byte 'b' ∧ 6 ≤ f.length then
      some ⟨kind, true, atoll (at' 5), started, hasStarted⟩
    else if kind = byte 'd' ∧ 3 ≤ f.length then some ⟨kind, false, atoll (at' 2), 0, false⟩
    else none

/-- The uptime that `bots_tree_row` shows, none where an operation overflows. -/
def TreeTimes.up (r : TreeTimes) (now treeTs : Int) : Option Int :=
  (checkedI64 (now - treeTs)).bind fun since =>
    let age := max 0 since
    if r.kind = byte 'h' ∧ !r.online then some 0
    else if r.hasStarted then
      if 0 < r.started then checkedI64 (now - r.started) else some 0
    else checkedI64 (r.uptime + age)

/-- The rows are those the deal reads. -/
theorem parseTreeTimes_isSome (line : Str) :
    (parseTreeTimes line).isSome = (HubRequests.parseTreeRow line).isSome := by
  have hfits {p : Prop} [Decidable p] {r : TreeTimes} {r' : BotTreeRow} {o : Option TreeTimes}
      {o' : Option BotTreeRow} (h : o.isSome = o'.isSome) :
      (if p then some r else o).isSome = (if p then some r' else o').isSome := by
    split
    · rfl
    · exact h
  unfold parseTreeTimes HubRequests.parseTreeRow
  rcases line with _ | ⟨k, _ | ⟨sep, data⟩⟩
  · rfl
  · rfl
  · dsimp only [List.getElem?_cons_succ, List.getElem?_cons_zero]
    by_cases hsep : sep = byte '|'
    · rw [if_neg (show ¬ some sep ≠ some (byte '|') by simp [hsep]),
        if_neg (show ¬ sep ≠ byte '|' from fun h => h hsep)]
      exact hfits (hfits (hfits rfl))
    · rw [if_pos (show some sep ≠ some (byte '|') by simpa using hsep), if_pos hsep]
      rfl

/-- The times of a tree row. -/
theorem parseTreeTimes_range {line : Str} {r : TreeTimes} (h : parseTreeTimes line = some r) :
    (i64Min ≤ r.uptime ∧ r.uptime ≤ i64Max) ∧ r.started ≤ i64Max := by
  have hstarted (p : Prop) [Decidable p] (s : Str) : (if p then atoll s else 0) ≤ i64Max := by
    split
    · exact (strtoll_range s).2
    · decide
  have hzero : (0 : Int) ≤ i64Max := by decide
  unfold parseTreeTimes at h
  dsimp only at h
  split at h
  · cases h
  · split at h
    · obtain rfl := Option.some.inj h
      exact ⟨strtoll_range _, hstarted _ _⟩
    · split at h
      · obtain rfl := Option.some.inj h
        exact ⟨strtoll_range _, hstarted _ _⟩
      · split at h
        · obtain rfl := Option.some.inj h
          exact ⟨strtoll_range _, hzero⟩
        · cases h

/-- **When the uptime of a row can be worked out**. -/
theorem up_isSome_iff {line : Str} {r : TreeTimes} (h : parseTreeTimes line = some r) {treeTs : Int}
    (hnow : IsClock now) (htree : IsClock treeTs) :
    (r.up now treeTs).isSome ↔ (r.kind = byte 'h' ∧ r.online = false) ∨ r.hasStarted = true ∨
      r.uptime + max 0 (now - treeTs) ≤ i64Max := by
  obtain ⟨⟨hmin, hmax⟩, hstarted⟩ := parseTreeTimes_range h
  obtain ⟨hpos, hle⟩ := hnow
  obtain ⟨htpos, htle⟩ := htree
  have hfits {x : Int} (hx : i64Min ≤ x) : (checkedI64 x).isSome ↔ x ≤ i64Max := by
    unfold checkedI64
    split
    · rename_i hin
      exact iff_of_true rfl hin.2
    · rename_i hout
      exact iff_of_false (fun h => nomatch h) fun h => hout ⟨hx, h⟩
  have hage : checkedI64 (now - treeTs) = some (now - treeTs) := by
    rw [checkedI64, if_pos]
    simp only [i64Min, i64Max] at *
    omega
  rw [TreeTimes.up, hage, Option.bind_some]
  dsimp only
  by_cases hlinked : r.kind = byte 'h' ∧ r.online = false
  · rw [if_pos (by simpa using hlinked)]
    exact iff_of_true rfl (.inl hlinked)
  · rw [if_neg (by simpa using hlinked)]
    by_cases hstart : r.hasStarted = true
    · rw [if_pos hstart]
      refine iff_of_true ?_ (.inr (.inl hstart))
      split
      · rw [hfits (by simp only [i64Min, i64Max] at *; omega)]
        omega
      · rfl
    · rw [if_neg hstart, hfits (by simp only [i64Min, i64Max] at *; omega)]
      simp [hlinked, hstart]

/-! ### The stamps of the bot -/

/-- **When the arithmetic on stamps is without fault**: where the stamp, and the clock, are within
what the parser of the line reads, and the stamp is not its largest; where a row of the tree names
no uptime, or one that the age of the tree can be added to. -/
theorem stamps_faultless (P : Primitives) {now treeTs : Int} (hnow : IsClock now)
    (htree : IsClock treeTs) :
    (∀ (k : Line) (data : Str) (prev : Int), k.stamp P data = some prev →
      (Faultless (k.Back P data) now prev ↔ prev < k.limit ∧ now ≤ k.limit)) ∧
    (∀ text : Str, Faultless (fun ts => atoll (dec ts) = ts) now (atoll text) ↔ atoll text < i64Max) ∧
    ∀ (line : Str) (r : TreeTimes), parseTreeTimes line = some r →
      ((r.up now treeTs).isSome ↔ (r.kind = byte 'h' ∧ r.online = false) ∨ r.hasStarted = true ∨
        r.uptime + max 0 (now - treeTs) ≤ i64Max) :=
  ⟨fun _ _ _ => faultless_line hnow, faultless_atoll hnow, fun _ _ h => up_isSome_iff h hnow htree⟩

/-- A channel record of the hub with the largest stamp there is. -/
def lastStamp : Str := str "#c||0|add|9223372036854775807"

/-- A clock in the year 2001. -/
theorem isClock_past : IsClock 1000000000 := ⟨by decide, by decide⟩

/-- A stamp long past. -/
theorem stamps_faultless_past : IsClock 1000000000 ∧
    Faultless (Line.hubChan.Back Primitives.clear (str "#c||0|add|5")) 1000000000 5 := by
  have hread : (parseHubChan (str "#c||0|add|5")).map (·.ts) = some 5 := by decide
  have hall := stamps_faultless Primitives.clear isClock_past isClock_past
  exact ⟨isClock_past, (hall.1 .hubChan (str "#c||0|add|5") 5 hread).mpr ⟨by decide, by decide⟩⟩

/-- No stamp follows the largest one. -/
theorem not_stamps_faultless : ¬ ∀ (P : Primitives) (now : Int), IsClock now →
    ∀ (k : Line) (data : Str) (prev : Int), k.stamp P data = some prev →
      Faultless (k.Back P data) now prev := by
  intro hall
  have hread : (parseHubChan lastStamp).map (·.ts) = some i64Max := by decide
  obtain ⟨next, hnext, -⟩ :=
    hall Primitives.clear 1000000000 isClock_past .hubChan lastStamp _ hread
  have hnone : checkedNextTs 1000000000 i64Max = none := by decide
  rw [hnone] at hnext
  cases hnext

end IrcBot.Stamps
