/-
# Merging settings from two sides (`chancfg.rs`, `hub_client.rs`)

The hub and the bots exchange `C|`, `D|` and `O|` records in any order, and more
than once. A record is taken if it is above the stored one.

* `applyCLines_converge_iff` — when the order of the `C|` records of a channel does
  not matter. Of two records with one stamp the first stays, and a deletion is
  missed by a bot that does not know the channel.
* `settings_join` — the order of `D|` and of `O|` records never matters: a tie is
  broken by the text, so that merging is the maximum of a linear order.
-/
import IrcBot.HubSync
import IrcBot.Lib.LastWriter
import Mathlib.Data.List.Lex
import Mathlib.Data.Prod.Lex

namespace IrcBot.SettingsMerge

open Cstr Chancfg Config HubSync Lib.LastWriter

/-! ### Levels -/

/-- Bytes in their order: strings compare as `as_bytes` does. -/
instance linearOrderByte : LinearOrder UInt8 where
  le_refl := UInt8.le_refl
  le_trans _ _ _ := UInt8.le_trans
  le_antisymm _ _ := UInt8.le_antisymm
  le_total := UInt8.le_total
  lt_iff_le_not_ge a b := by grind
  toDecidableLE := inferInstance

/-- The level of an add/del record: its stamp, a deletion above an addition. -/
def lwwLevel (ts : Int) (active : Bool) : Int ×ₗ Bool := toLex (ts, !active)

theorem lwwAccepts_iff {inTs curTs : Int} {inActive curActive : Bool} :
    lwwAccepts inTs inActive curTs curActive = true ↔
      lwwLevel curTs curActive < lwwLevel inTs inActive := by
  rw [lwwLevel, lwwLevel, Prod.Lex.toLex_lt_toLex]
  have hactive : (!curActive) < (!inActive) ↔ curActive = true ∧ inActive = false := by
    cases inActive <;> cases curActive <;> simp
  simp only [lwwAccepts, Bool.or_eq_true, Bool.and_eq_true, decide_eq_true_eq, beq_iff_eq,
    Bool.not_eq_true', hactive, and_assoc]
  rw [eq_comm (a := inTs)]

/-- The level of a record with a text: its stamp, then the text. -/
def textLevel (ts : Int) (text : Str) : Int ×ₗ Str := toLex (ts, text)

theorem optAccepts_iff {inTs curTs : Int} {inFlags curFlags : Str} :
    optAccepts inTs inFlags curTs curFlags = true ↔
      textLevel curTs curFlags < textLevel inTs inFlags := by
  rw [textLevel, textLevel, Prod.Lex.toLex_lt_toLex]
  simp only [optAccepts, Bool.or_eq_true, Bool.and_eq_true, decide_eq_true_eq, beq_iff_eq]
  rw [eq_comm (a := inTs)]

/-! ### `C|` records -/

/-- A well-formed `C|` record. -/
structure CRecord where
  chan : Str := []
  modes : Str := []
  settings : Str := []
  active : Bool := false
  ts : Int := 0
deriving DecidableEq

/-- The record of a `C|` body, if it is well-formed. -/
def readCLine (data : Str) : Option CRecord :=
  if cLineMax < data.length then none
  else
    match splitPipes 6 data with
    | name :: modes :: settings :: op :: stamp :: _ =>
        match addOp op, parseLl stamp with
        | some isAdd, some ts =>
            if !validChanName name || !validModesField modes || cSettingsMax < settings.length ||
                !plainText settings || ts ≤ 0 then none
            else some ⟨name, modes, settings, isAdd, ts⟩
        | _, _ => none
    | _ => none

/-- The configuration of a channel. -/
structure ChanConfig where
  modes : Str
  settings : Str
  ts : Int
  active : Bool
deriving DecidableEq

/-- The configuration of the channel of that name, if the bot knows the channel. -/
def effective (b : BotState) (name : Str) : Option ChanConfig :=
  (byName b name).map fun c => ⟨c.cfgModes, c.cfgSettings, c.cfgTs, c.cfgActive⟩

/-- The record of a line that is known to be well-formed. -/
def cRecord (line : Str) : CRecord := (readCLine line).getD {}

/-- What a `C|` line writes. -/
def cWrites : Writes Str (Int ×ₗ Bool) (Str × Str) where
  level line := lwwLevel (cRecord line).ts (cRecord line).active
  value line := some ((cRecord line).modes, (cRecord line).settings)

/-- The register of a configuration. -/
def ChanConfig.register (g : ChanConfig) : Register (Int ×ₗ Bool) (Str × Str) :=
  ⟨lwwLevel g.ts g.active, (g.modes, g.settings)⟩

/-- An addition opens a channel. -/
def opensChan (level : Int ×ₗ Bool) : Bool := !(ofLex level).2

@[simp] theorem opensChan_lwwLevel (ts : Int) (active : Bool) :
    opensChan (lwwLevel ts active) = active := by
  simp [opensChan, lwwLevel]

theorem ChanConfig.register_injective : Function.Injective ChanConfig.register := by
  rintro ⟨m, s, t, a⟩ ⟨m', s', t', a'⟩ h
  simp only [ChanConfig.register, Register.mk.injEq, lwwLevel, EmbeddingLike.apply_eq_iff_eq,
    Prod.mk.injEq] at h
  obtain ⟨⟨rfl, hactive⟩, rfl, rfl⟩ := h
  obtain rfl : a = a' := by simpa using hactive
  rfl

/-- The lines, one after the other. -/
def applyCLines (b : BotState) (lines : List Str) : BotState :=
  lines.foldl (fun b line => (applyCLine b line).2) b

/-- The register of the channel of that name. -/
def registerOf (b : BotState) (name : Str) : Option (Register (Int ×ₗ Bool) (Str × Str)) :=
  (effective b name).map ChanConfig.register

/-- A line for the channel of that name. -/
def IsFor (name line : Str) : Prop := ∃ r, readCLine line = some r ∧ eqIc r.chan name = true

/-- The fields a `C|` record writes. -/
def CRecord.store (r : CRecord) (c : Chan) : Chan :=
  { c with
    cfgModes := r.modes, cfgSettings := r.settings, cfgSet := parseSettings r.settings false
    cfgTs := r.ts, cfgActive := r.active }

/-- What `apply_c_line` does with a well-formed record. -/
def storeC (b : BotState) (r : CRecord) : Bool × BotState :=
  match chanForSettings b r.chan r.active with
  | none => (false, b)
  | some (ci, b) =>
      match b.chans[ci]? with
      | none => (false, b)
      | some c =>
          if !lwwAccepts r.ts r.active c.cfgTs c.cfgActive then (false, b)
          else
            (true, { withChan b ci r.store with cfgGen := b.cfgGen + 1 })

theorem applyCLine_of_read {b : BotState} {data : Str} {r : CRecord} (h : readCLine data = some r) :
    applyCLine b data = storeC b r ∧ validChanName r.chan = true ∧ 0 < r.ts := by
  unfold readCLine at h
  unfold applyCLine
  split at h
  · simp at h
  · rename_i hlen
    rw [if_neg hlen]
    split at h
    · rename_i name modes settings op stamp tail hsplit
      split at h
      · rename_i isAdd ts hop hstamp
        split at h
        · simp at h
        · rename_i hvalid
          obtain rfl := Option.some.inj h
          simp only [hsplit, hop, hstamp, if_neg hvalid]
          simp only [Bool.or_eq_true, Bool.not_eq_true', decide_eq_true_eq, not_or,
            Bool.not_eq_false, not_le] at hvalid
          exact ⟨rfl, hvalid.1.1.1.1, hvalid.2⟩
      · simp at h
    · simp at h

/-- **A `C|` line writes the register of its channel.** -/
theorem registerOf_applyCLine {name line : Str} (b : BotState) (h : IsFor name line) :
    registerOf (applyCLine b line).2 name =
      cWrites.put opensChan ([], []) (registerOf b name) line := by
  obtain ⟨r, hread, hname⟩ := h
  obtain ⟨happly, hvalid, hpos⟩ := applyCLine_of_read (b := b) hread
  have hrecord : cRecord line = r := by rw [cRecord, hread, Option.getD_some]
  have hlevel : cWrites.level line = lwwLevel r.ts r.active := by
    rw [← hrecord]
    rfl
  have hvalue : cWrites.value line = some (r.modes, r.settings) := by
    rw [← hrecord]
    rfl
  have hfind (b : BotState) : find b r.chan = find b name := find_congr b hname
  rw [happly, storeC, chanForSettings, hfind]
  cases hknown : find b name with
  | some ci =>
      obtain ⟨c, hc, -⟩ := find_eq_some hknown
      dsimp only
      rw [hc]
      dsimp only
      have hchan := byName_eq_some hknown hc
      rw [registerOf, registerOf, effective, effective, hchan, Option.map_some, Option.map_some,
        Writes.put, Writes.write, hlevel, hvalue]
      split
      · rename_i hrejected
        rw [hchan, if_neg]
        · rfl
        · rw [ChanConfig.register, ← lwwAccepts_iff]
          simpa using hrejected
      · rename_i haccepted
        rw [byName_modify (f := r.store) hknown hc (fun _ => rfl) rfl, if_pos]
        · rfl
        · rw [ChanConfig.register, ← lwwAccepts_iff]
          simpa using haccepted
  | none =>
      have hunknown : registerOf b name = none := by
        rw [registerOf, effective, byName_eq_none hknown]
        rfl
      dsimp only
      rw [hunknown, Writes.put, hlevel, hvalue, opensChan_lwwLevel]
      cases hactive : r.active with
      | false => exact hunknown
      | true =>
          have hlen : r.chan.length < maxChan := by
            simp only [validChanName, Bool.and_eq_true, decide_eq_true_eq] at hvalid
            exact hvalid.1.1.2
          cases hadd : add b r.chan with
          | none =>
              unfold add at hadd
              rw [hfind, hknown] at hadd
              simp at hadd
          | some p =>
              obtain ⟨ci, b'⟩ := p
              obtain ⟨hfind', hnew⟩ := add_eq_some hlen hadd
              rw [find_congr b' hname] at hfind'
              -- the channel is held unmanaged first; its settings come after that
              let hold (c : Chan) : Chan := { c with isManaged := false, timestamp := 0 }
              have hheld : (withChan b' ci hold).chans[ci]? =
                  some (hold { name := r.chan, status := .out, isManaged := true, timestamp := b.now }) := by
                rw [withChan, List.getElem?_modify_eq, hnew]
                rfl
              have hfound : find (withChan b' ci hold) name = some ci := by
                rw [find_withChan b' ci (f := hold) fun _ => rfl, hfind']
              have haccepted : lwwAccepts r.ts true 0 false = true := by simp [lwwAccepts, hpos]
              simp only [Bool.not_true, Bool.false_eq_true, if_false, Option.map_some, if_true,
                Option.getD_some]
              rw [registerOf, effective, show (withChan b' ci fun c => { c with isManaged := false, timestamp := 0 }) =
                withChan b' ci hold from rfl, hheld]
              dsimp only
              rw [haccepted, Bool.not_true, if_neg (by decide),
                byName_modify (f := r.store) hfound hheld (fun _ => rfl) rfl, Option.map_some,
                Option.map_some]
              simp only [CRecord.store, ChanConfig.register, hactive]

/-- Lines fill the register of their channel. -/
theorem registerOf_applyCLines {name : Str} {lines : List Str} (hlines : ∀ l ∈ lines, IsFor name l)
    (b : BotState) :
    registerOf (applyCLines b lines) name =
      cWrites.fill opensChan ([], []) (registerOf b name) lines := by
  induction lines generalizing b with
  | nil => rfl
  | cons line lines ih =>
      simp only [List.mem_cons, forall_eq_or_imp] at hlines
      rw [applyCLines, List.foldl_cons, Writes.fill, List.foldl_cons,
        ← registerOf_applyCLine b hlines.1]
      exact ih hlines.2 _

/-- The newest of the lines agree: those that no other line is above, and that are
above what is stored. A channel the bot does not know is stored by an addition
only. -/
def NewestAgree (b : BotState) (name : Str) (lines : List Str) : Prop :=
  match registerOf b name with
  | some c => ∀ x y, cWrites.Winner c lines x → cWrites.Winner c lines y →
      cWrites.value x = cWrites.value y
  | none => (∀ x ∈ lines, (cRecord x).active = false) ∨
      ∀ x y, cWrites.Top lines x → cWrites.Top lines y →
        (cRecord x).active = true ∧ cWrites.value x = cWrites.value y

/-- **The `C|` lines of a channel converge exactly if the newest ones agree**: then
the same lines, in any order and with any repetitions, end in the same
configuration. -/
theorem applyCLines_converge_iff (b : BotState) (name : Str) (lines : List Str)
    (hlines : ∀ l ∈ lines, IsFor name l) :
    (∀ lines' : List Str, (∀ l, l ∈ lines' ↔ l ∈ lines) →
        effective (applyCLines b lines') name = effective (applyCLines b lines) name) ↔
      NewestAgree b name lines := by
  have htotal : ∀ x ∈ lines, (cWrites.value x).isSome = true := fun _ _ => rfl
  have hregister {lines' : List Str} (hmem : ∀ l, l ∈ lines' ↔ l ∈ lines) :
      effective (applyCLines b lines') name = effective (applyCLines b lines) name ↔
        cWrites.fill opensChan ([], []) (registerOf b name) lines' =
          cWrites.fill opensChan ([], []) (registerOf b name) lines := by
    rw [← registerOf_applyCLines (fun l hl => hlines l ((hmem l).mp hl)),
      ← registerOf_applyCLines hlines]
    exact (Option.map_injective ChanConfig.register_injective).eq_iff.symm
  unfold NewestAgree
  cases hknown : registerOf b name with
  | some c =>
      rw [hknown] at hregister
      dsimp only
      rw [← Writes.settled_iff_of_total htotal]
      constructor
      · intro hall
        refine Writes.settled_of_perm fun ys hperm => ?_
        have hmem (l : Str) : l ∈ ys ↔ l ∈ lines := hperm.mem_iff
        simpa using (hregister hmem).mp (hall ys hmem)
      · intro hsettled lines' hmem
        rw [hregister hmem, Writes.fill_some, Writes.fill_some,
          Writes.run_eq_of_settled hsettled hmem]
  | none =>
      rw [hknown] at hregister
      have hsettled : cWrites.SettledNew opensChan ([], []) lines ↔ _ :=
        Writes.settledNew_iff_of_total htotal
      simp only [cWrites, opensChan_lwwLevel] at hsettled
      refine Iff.trans ?_ hsettled
      constructor
      · intro hall
        refine Writes.settledNew_of_perm fun ys hperm => ?_
        have hmem (l : Str) : l ∈ ys ↔ l ∈ lines := hperm.mem_iff
        exact (hregister hmem).mp (hall ys hmem)
      · intro hsettled lines' hmem
        rw [hregister hmem]
        exact Writes.fill_eq_of_settledNew hsettled hmem

/-- Two additions and a deletion of a channel whose stored record is older than two of them. -/
theorem applyCLines_converge_known :
    let b : BotState := { chans := [{ name := str "#a", cfgModes := str "+i", cfgTs := 3, cfgActive := true }] }
    let lines := [str "#a|+n||add|5", str "#A|+t||del|9", str "#a|+s|bitch=1|add|12",
      str "#a|+m||add|2"]
    ∀ lines' : List Str, (∀ l, l ∈ lines' ↔ l ∈ lines) →
      effective (applyCLines b lines') (str "#a") = effective (applyCLines b lines) (str "#a") := by
  refine (applyCLines_converge_iff _ (str "#a") _ ?_).mpr ?_
  · simp only [List.mem_cons, List.not_mem_nil, or_false]
    rintro l (rfl | rfl | rfl | rfl)
    · exact ⟨⟨str "#a", str "+n", [], true, 5⟩, by decide, by decide⟩
    · exact ⟨⟨str "#A", str "+t", [], false, 9⟩, by decide, by decide⟩
    · exact ⟨⟨str "#a", str "+s", str "bitch=1", true, 12⟩, by decide, by decide⟩
    · exact ⟨⟨str "#a", str "+m", [], true, 2⟩, by decide, by decide⟩
  · -- the third line is above every other
    have hlast {w : Str} {c : Register (Int ×ₗ Bool) (Str × Str)}
        (hw : cWrites.Winner c [str "#a|+n||add|5", str "#A|+t||del|9", str "#a|+s|bitch=1|add|12",
          str "#a|+m||add|2"] w) : w = str "#a|+s|bitch=1|add|12" := by
      obtain ⟨⟨hmem, htop⟩, -⟩ := hw
      have hle := htop (str "#a|+s|bitch=1|add|12") (by decide)
      simp only [List.mem_cons, List.not_mem_nil, or_false] at hmem
      rcases hmem with rfl | rfl | rfl | rfl
      · exact absurd hle (by decide)
      · exact absurd hle (by decide)
      · rfl
      · exact absurd hle (by decide)
    intro x y hx hy
    rw [hlast hx, hlast hy]

/-- Of two additions with one stamp the first stays. -/
theorem not_applyCLines_converge :
    ¬ ∀ (b : BotState) (name : Str) (lines lines' : List Str), (∀ l ∈ lines, IsFor name l) →
        (∀ l, l ∈ lines' ↔ l ∈ lines) →
        effective (applyCLines b lines') name = effective (applyCLines b lines) name := by
  intro hall
  have hsame := hall {} (str "#a") [str "#a|+n||add|5", str "#a|+t||add|5"]
    [str "#a|+t||add|5", str "#a|+n||add|5"] (by
      simp only [List.mem_cons, List.not_mem_nil, or_false]
      rintro l (rfl | rfl)
      · exact ⟨⟨str "#a", str "+n", [], true, 5⟩, by decide, by decide⟩
      · exact ⟨⟨str "#a", str "+t", [], true, 5⟩, by decide, by decide⟩)
    (by simp [or_comm])
  exact absurd hsame (by decide)

/-! ### `D|` records -/

/-- A well-formed `D|` record. -/
@[ext] structure DRecord where
  modes : Str
  settings : Str
  ts : Int
  validModes : validModesField modes = true
  plainSettings : plainText settings = true
  pos : 0 < ts

namespace DRecord

/-- The text that breaks a tie. -/
def text (r : DRecord) : Str := r.modes ++ str "|" ++ r.settings

def level (r : DRecord) : Int ×ₗ Str := textLevel r.ts r.text

theorem notMem_modes (r : DRecord) : byte '|' ∉ r.modes := by
  have hvalid := r.validModes
  simp only [validModesField, Bool.and_eq_true, List.all_eq_true] at hvalid
  exact fun hmem => by simpa using (hvalid.2 _ hmem).2

theorem notMem_settings (r : DRecord) : byte '|' ∉ r.settings := by
  have hplain := r.plainSettings
  simp only [plainText, Bool.and_eq_true, List.all_eq_true] at hplain
  exact fun hmem => by simpa using (hplain _ hmem).2

/-- A tie is between equal records: the text splits at its only delimiter. -/
theorem level_injective : Function.Injective level := by
  intro x y h
  simp only [level, textLevel, EmbeddingLike.apply_eq_iff_eq, Prod.mk.injEq, text,
    show str "|" = [byte '|'] by decide, List.append_assoc, List.singleton_append] at h
  obtain ⟨hts, htext⟩ := h
  have hsplit := congrArg (splitOnce (byte '|')) htext
  rw [splitOnce_append x.notMem_modes, splitOnce_append y.notMem_modes, Option.some.injEq,
    Prod.mk.injEq] at hsplit
  exact DRecord.ext hsplit.1 hsplit.2 hts

end DRecord

/-- The record of a `D|` body, if it is well-formed. -/
def readDLine (data : Str) : Option DRecord :=
  if dLineMax < data.length then none
  else
    match splitPipes 3 data with
    | [modes, settings, stamp] =>
        match parseLl stamp with
        | none => none
        | some ts =>
            if h : validModesField modes = true ∧ settings.length ≤ dSettingsMax ∧
                plainText settings = true ∧ 0 < ts then
              some ⟨modes, settings, ts, h.1, h.2.2.1, h.2.2.2⟩
            else none
    | _ => none

/-- What `D|` lines decide. -/
structure NetConfig where
  modes : Str
  settings : Str
  ts : Int
deriving DecidableEq

def netConfig (b : BotState) : NetConfig := ⟨b.netModes, b.netSettings, b.netTs⟩

def NetConfig.level (g : NetConfig) : Int ×ₗ Str :=
  textLevel g.ts (g.modes ++ str "|" ++ g.settings)

def DRecord.config (r : DRecord) : NetConfig := ⟨r.modes, r.settings, r.ts⟩

/-- A well-formed `D|` line is stored if it is above what is. -/
theorem netConfig_applyDLine {b : BotState} {line : Str} {r : DRecord}
    (h : readDLine line = some r) :
    netConfig (applyDLine b line).2 =
      if (netConfig b).level < r.level then r.config else netConfig b := by
  unfold readDLine at h
  unfold applyDLine
  split at h
  · simp at h
  · rename_i hlen
    rw [if_neg hlen]
    split at h
    · rename_i modes settings stamp hsplit
      split at h
      · simp at h
      · rename_i ts hstamp
        split at h
        · rename_i hvalid
          obtain ⟨hmodes, hsettings, hplain, hpos⟩ := hvalid
          obtain rfl := Option.some.inj h
          have hchecks : ¬ (!validModesField modes || dSettingsMax < settings.length ||
              !plainText settings || ts ≤ 0) = true := by
            simp [hmodes, hplain, hsettings, hpos]
          simp only [hsplit, hstamp, if_neg hchecks]
          have habove :
              (netConfig b).level < DRecord.level ⟨modes, settings, ts, hmodes, hplain, hpos⟩ ↔
              b.netTs < ts ∨ b.netTs = ts ∧
                b.netModes ++ str "|" ++ b.netSettings < modes ++ str "|" ++ settings :=
            Prod.Lex.toLex_lt_toLex
          split
          · exact (if_neg fun hlt => by
              rcases habove.mp hlt with hlt | ⟨heq, -⟩ <;> omega).symm
          · rename_i hnew
            split
            · rename_i htie
              refine (if_neg fun hlt => ?_).symm
              rcases habove.mp hlt with hlt | ⟨-, hlt⟩
              · exact absurd htie.1.symm hlt.ne
              · exact List.not_le.mpr hlt htie.2
            · rename_i htie
              rw [not_and, List.not_le] at htie
              refine Eq.trans ?_ (if_pos ?_).symm
              · unfold netConfig
                dsimp only
                split <;> rfl
              · rcases Int.lt_or_eq_of_le (Int.not_lt.mp hnew) with hlt | heq
                · exact habove.mpr (.inl hlt)
                · exact habove.mpr (.inr ⟨heq, htie heq.symm⟩)
        · simp at h
    · simp at h

/-! ### `O|` records -/

/-- A well-formed `O|` record with a positive stamp. -/
@[ext] structure ORecord where
  flags : Str
  ts : Int
  pos : 0 < ts

def ORecord.level (r : ORecord) : Int ×ₗ Str := textLevel r.ts r.flags

theorem ORecord.level_injective : Function.Injective ORecord.level := by
  intro x y h
  simp only [ORecord.level, textLevel, EmbeddingLike.apply_eq_iff_eq, Prod.mk.injEq] at h
  exact ORecord.ext h.2 h.1

/-- The record of an `O|` body, if its stamp is positive. -/
def readOLine (data : Str) : Option ORecord :=
  (parseOptLine data).bind fun (flags, ts) => if h : 0 < ts then some ⟨flags, ts, h⟩ else none

/-- What `O|` lines decide. -/
structure OptConfig where
  flags : Str
  ts : Int
deriving DecidableEq

def optConfig (b : BotState) : OptConfig := ⟨b.optFlags, b.optFlagsTs⟩

def OptConfig.level (g : OptConfig) : Int ×ₗ Str := textLevel g.ts g.flags

def ORecord.config (r : ORecord) : OptConfig := ⟨r.flags, r.ts⟩

/-- An `O|` line with a positive stamp is stored if it is above what is. -/
theorem optConfig_syncOptLine {b : BotState} {line : Str} {r : ORecord}
    (h : readOLine line = some r) :
    optConfig (syncOptLine b line).2 =
      if (optConfig b).level < r.level then r.config else optConfig b := by
  rw [readOLine, Option.bind_eq_some_iff] at h
  obtain ⟨⟨flags, ts⟩, hparse, hpos⟩ := h
  dsimp only at hpos
  split at hpos
  · rename_i hts
    obtain rfl := Option.some.inj hpos
    rw [syncOptLine, hparse]
    dsimp only
    split
    · rename_i haccepted
      exact (if_pos (optAccepts_iff.mp haccepted)).symm
    · rename_i hrejected
      exact (if_neg (mt optAccepts_iff.mpr hrejected)).symm
  · simp at hpos

/-! ### Merging as a join -/

/-- The records `ρ` that `read` finds in lines are merged into what `view` shows as
into a join: by an operation that is commutative, associative and idempotent, so
that neither order nor repetitions matter. -/
structure IsJoin {ρ τ : Type} (view : BotState → τ) (apply : BotState → Str → BotState)
    (read : Str → Option ρ) (content : ρ → τ) (merge : ρ → ρ → ρ) : Prop where
  comm : ∀ x y, merge x y = merge y x
  assoc : ∀ x y z, merge (merge x y) z = merge x (merge y z)
  idem : ∀ x, merge x x = x
  merges : ∀ (b : BotState) (line : Str) (cur new : ρ), read line = some new →
    view b = content cur → view (apply b line) = content (merge cur new)
  orderFree : ∀ (b : BotState) (lines lines' : List Str), (∀ l ∈ lines, (read l).isSome = true) →
    (∀ l, l ∈ lines' ↔ l ∈ lines) → view (lines'.foldl apply b) = view (lines.foldl apply b)

/-- Storing what is above the stored record is a join, if the level tells records
apart. -/
theorem isJoin_of_store {ρ τ κ : Type} [LinearOrder κ] {view : BotState → τ}
    {apply : BotState → Str → BotState} {read : Str → Option ρ} {content : ρ → τ} {level : ρ → κ}
    (levelOf : τ → κ) (hinj : Function.Injective level)
    (hlevel : ∀ r, levelOf (content r) = level r)
    (hstore : ∀ {b : BotState} {line : Str} {r : ρ}, read line = some r →
      view (apply b line) = if levelOf (view b) < level r then content r else view b) :
    IsJoin view apply read content (newest level) where
  comm := newest_comm hinj
  assoc := newest_assoc hinj
  idem := newest_idem
  merges b line cur new hread hview := by
    rw [hstore hread, hview, hlevel, newest]
    split <;> rfl
  orderFree b lines lines' hlines hmem := by
    let W : Writes ρ κ τ := ⟨level, fun r => some (content r)⟩
    -- the lines write the register of what is shown
    have hrun (lines : List Str) : ∀ b : BotState, (∀ l ∈ lines, (read l).isSome = true) →
        W.run ⟨levelOf (view b), view b⟩ (lines.filterMap read) =
          ⟨levelOf (view (lines.foldl apply b)), view (lines.foldl apply b)⟩ := by
      induction lines with
      | nil => exact fun _ _ => rfl
      | cons line lines ih =>
          intro b hlines
          simp only [List.mem_cons, forall_eq_or_imp] at hlines
          obtain ⟨r, hread⟩ := Option.isSome_iff_exists.mp hlines.1
          have hwrite : W.write ⟨levelOf (view b), view b⟩ r =
              ⟨levelOf (view (apply b line)), view (apply b line)⟩ := by
            rw [hstore hread, Writes.write]
            split
            · rw [hlevel]
              rfl
            · rfl
          rw [List.filterMap_cons_some hread, Writes.run_cons, hwrite, List.foldl_cons]
          exact ih _ hlines.2
    have hrecords (r : ρ) : r ∈ lines'.filterMap read ↔ r ∈ lines.filterMap read := by
      simp only [List.mem_filterMap, hmem]
    have hsame : W.run ⟨levelOf (view b), view b⟩ (lines'.filterMap read) =
        W.run ⟨levelOf (view b), view b⟩ (lines.filterMap read) :=
      Writes.run_eq_of_injective (fun _ _ => rfl) (fun x _ y _ heq => by rw [hinj heq]) hrecords
    rw [hrun lines b hlines, hrun lines' b fun l hl => hlines l ((hmem l).mp hl)] at hsame
    exact congrArg Register.value hsame

/-- **`D|` and `O|` records merge as joins**, whatever their stamps, the tied ones
too. -/
theorem settings_join :
    IsJoin netConfig (fun b line => (applyDLine b line).2) readDLine DRecord.config
        (newest DRecord.level) ∧
      IsJoin optConfig (fun b line => (syncOptLine b line).2) readOLine ORecord.config
        (newest ORecord.level) :=
  ⟨isJoin_of_store NetConfig.level DRecord.level_injective (fun _ => rfl) netConfig_applyDLine,
    isJoin_of_store OptConfig.level ORecord.level_injective (fun _ => rfl) optConfig_syncOptLine⟩

end IrcBot.SettingsMerge
