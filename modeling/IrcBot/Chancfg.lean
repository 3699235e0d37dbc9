/-
# Channel settings, network defaults and bans (`chancfg.rs`)

The replicated records `C|`, `D|` and `B|`. Each line is checked whole and then
stored if its stamp wins over the stored one. A setting is read from the channel,
then from the network defaults, then from the built-in table.

`SameButChancfg` says what these lines can change: no user, mask or bot record,
no nonce and nothing of the link.
-/
import IrcBot.Links

namespace IrcBot.Chancfg

open Cstr

/-! ### The tables of settings -/

/-- `CsetDef`. -/
structure CsetDef where
  name : Str
  lo : Int
  hi : Int
  builtin : Int
  netOnly : Bool := false

/-- `CSET`, by setting. -/
def cset : CsetId → CsetDef
  | .enforceModes => { name := str "enforcemodes", lo := 0, hi := 1, builtin := 0 }
  | .bitch => { name := str "bitch", lo := 0, hi := 1, builtin := 0 }
  | .protectOps => { name := str "protectops", lo := 0, hi := 1, builtin := 1 }
  | .revenge => { name := str "revenge", lo := 0, hi := 1, builtin := 0 }
  | .stopNetHack => { name := str "stopnethack", lo := 0, hi := 1, builtin := 0 }
  | .enforceBans => { name := str "enforcebans", lo := 0, hi := 1, builtin := 0 }
  | .dynamicBans => { name := str "dynamicbans", lo := 0, hi := 1, builtin := 1 }
  | .dontKickOps => { name := str "dontkickops", lo := 0, hi := 1, builtin := 1 }
  | .cycle => { name := str "cycle", lo := 0, hi := 1, builtin := 1 }
  | .dynamicLimit => { name := str "dynamiclimit", lo := 0, hi := 1, builtin := 0 }
  | .banTime => { name := str "bantime", lo := 0, hi := 525600, builtin := 120 }
  | .banType => { name := str "bantype", lo := 0, hi := 9, builtin := 2 }
  | .banIdle => { name := str "banidle", lo := 1, hi := 10080, builtin := 60 }
  | .limitGap => { name := str "limitgap", lo := 1, hi := 1000, builtin := 5 }
  | .limitDelay => { name := str "limitdelay", lo := 10, hi := 3600, builtin := 60 }
  | .ignoreTime => { name := str "ignoretime", lo := 1, hi := 1440, builtin := 10, netOnly := true }

/-- The settings in the order of the table. -/
def csetIds : List CsetId :=
  [.enforceModes, .bitch, .protectOps, .revenge, .stopNetHack, .enforceBans, .dynamicBans,
    .dontKickOps, .cycle, .dynamicLimit, .banTime, .banType, .banIdle, .limitGap, .limitDelay,
    .ignoreTime]

/-- `FL_NAME`. -/
def flName : FloodKind → Str
  | .chan => str "flood chan"
  | .ctcp => str "flood ctcp"
  | .join => str "flood join"
  | .nick => str "flood nick"
  | .deop => str "flood deop"
  | .kick => str "flood kick"
  | .ban => str "flood ban"
  | .botCmd => str "bflood cmd"
  | .botMsg => str "bflood msg"
  | .botCtcp => str "bflood ctcp"
  | .sendq => str "sendq"

/-- `FL_BUILTIN`. -/
def flBuiltin : FloodKind → Int × Int
  | .chan => (15, 60)
  | .ctcp => (3, 60)
  | .join => (5, 60)
  | .nick => (5, 60)
  | .deop => (3, 10)
  | .kick => (3, 10)
  | .ban => (3, 10)
  | .botCmd => (10, 30)
  | .botMsg => (5, 60)
  | .botCtcp => (3, 60)
  | .sendq => (sendqDefBurst, sendqDefIntervalMs)

/-- The floods in the order of the table. -/
def floodKinds : List FloodKind :=
  [.chan, .ctcp, .join, .nick, .deop, .kick, .ban, .botCmd, .botMsg, .botCtcp, .sendq]

/-- The floods a channel can override. -/
def flIsChan : FloodKind → Bool
  | .chan | .ctcp | .join | .nick | .deop | .kick | .ban => true
  | .botCmd | .botMsg | .botCtcp | .sendq => false

/-- `fl_bounds`: the ranges of events and seconds, and whether `off` is a value. -/
def flBounds : FloodKind → (Int × Int) × (Int × Int) × Bool
  | .sendq => ((sendqMinBurst, sendqMaxBurst), (sendqMinIntervalMs, sendqMaxIntervalMs), false)
  | _ => ((1, 1000), (1, 3600), true)

/-- `admin_change_refused`. -/
def adminChangeRefused (b : BotState) : Bool := b.isOptSet optHubOnlyMutations

/-! ### Small parsers -/

/-- `parse_ll`: up to 18 digits. -/
def parseLl (s : Str) : Option Int :=
  if s.isEmpty || 18 < s.length || !s.all isDigit then none
  else some (s.foldl (fun n c => n * 10 + (c - 48).toNat) 0 : Nat)

/-- No control byte, DEL or `|`. -/
def plainText (s : Str) : Bool := s.all fun c => 0x20 ≤ c && c ≠ 0x7f && c ≠ byte '|'

def validChanName (s : Str) : Bool :=
  2 ≤ s.length && s.length < maxChan && (s.head? == some (byte '#') || s.head? == some (byte '&')) &&
    s.all fun c => 0x20 < c && c ≠ 0x7f && c ≠ byte ',' && c ≠ byte '|'

/-- The modes field: printable ASCII. -/
def validModesField (s : Str) : Bool :=
  s.length ≤ cModesMax && s.all fun c => 0x20 ≤ c && c ≤ 0x7e && c ≠ byte '|'

/-- `split(sep)`. -/
def splitOn (sep : UInt8) : Str → List Str
  | [] => [[]]
  | c :: rest =>
      if c = sep then [] :: splitOn sep rest
      else
        match splitOn sep rest with
        | [] => [[c]]
        | f :: fs => (c :: f) :: fs

/-- `splitn(n, '|')`: the last field takes the rest. -/
def splitPipes : Nat → Str → List Str
  | 0, _ => []
  | 1, s => [s]
  | n + 2, s =>
      match s.dropWhile (· ≠ byte '|') with
      | [] => [s]
      | _ :: rest => s.takeWhile (· ≠ byte '|') :: splitPipes (n + 1) rest

/-- `split_once`. -/
def splitOnce (sep : UInt8) (s : Str) : Option (Str × Str) :=
  match s.dropWhile (· ≠ sep) with
  | [] => none
  | _ :: rest => some (s.takeWhile (· ≠ sep), rest)

/-- The two words of the op field. -/
def addDel (active : Bool) : Str := if active then str "add" else str "del"

/-- `add_op`. -/
def addOp (f : Str) : Option Bool :=
  if f = str "add" then some true else if f = str "del" then some false else none

/-! ### Splitting at a separator -/

theorem splitOn_of_notMem {sep : UInt8} {s : Str} (h : sep ∉ s) : splitOn sep s = [s] := by
  induction s with
  | nil => rfl
  | cons c s ih =>
      have hne : c ≠ sep := fun heq => h (by simp [heq])
      simp [splitOn, hne, ih fun hmem => h (List.mem_cons_of_mem _ hmem)]

/-- A line is what stands before its separator. -/
theorem splitOn_append {sep : UInt8} {s : Str} (h : sep ∉ s) (rest : Str) :
    splitOn sep (s ++ sep :: rest) = s :: splitOn sep rest := by
  induction s with
  | nil => simp [splitOn]
  | cons c s ih =>
      have hne : c ≠ sep := fun heq => h (by simp [heq])
      simp [splitOn, hne, ih fun hmem => h (List.mem_cons_of_mem _ hmem)]

theorem splitPipes_append {n : Nat} {s : Str} (h : byte '|' ∉ s) (rest : Str) :
    splitPipes (n + 2) (s ++ byte '|' :: rest) = s :: splitPipes (n + 1) rest := by
  have hne : ∀ c ∈ s, decide (c ≠ byte '|') = true := fun c hc =>
    decide_eq_true fun heq => h (heq ▸ hc)
  rw [splitPipes, List.dropWhile_append_of_pos hne, List.takeWhile_append_of_pos hne]
  simp

theorem splitPipes_of_notMem {n : Nat} {s : Str} (h : byte '|' ∉ s) :
    splitPipes (n + 1) s = [s] := by
  cases n with
  | zero => rfl
  | succ n =>
      have hall : s.dropWhile (fun c => decide (c ≠ byte '|')) = [] :=
        List.dropWhile_eq_nil_iff.mpr fun c hc => decide_eq_true fun heq => h (heq ▸ hc)
      rw [splitPipes, hall]

theorem splitOnce_append {sep : UInt8} {s : Str} (h : sep ∉ s) (rest : Str) :
    splitOnce sep (s ++ sep :: rest) = some (s, rest) := by
  have hne : ∀ c ∈ s, decide (c ≠ sep) = true := by
    intro c hc
    simpa using fun heq : c = sep => h (heq ▸ hc)
  rw [splitOnce, List.dropWhile_append_of_pos hne, List.takeWhile_append_of_pos hne]
  simp

theorem splitOnce_eq_some {sep : UInt8} {s before after : Str}
    (h : splitOnce sep s = some (before, after)) : s = before ++ sep :: after := by
  unfold splitOnce at h
  split at h
  · cases h
  · rename_i c rest hrest
    obtain ⟨rfl, rfl⟩ := Prod.mk.inj (Option.some.inj h)
    have hc : c = sep := by
      have hhead := List.head?_dropWhile_not (fun x => decide (x ≠ sep)) s
      rw [hrest] at hhead
      simpa using hhead
    rw [← hc, ← hrest, hc, List.takeWhile_append_dropWhile]

/-- The first field, and the fields behind its separator. -/
theorem splitOn_eq_cons {sep : UInt8} {s f : Str} {fs : List Str} (h : splitOn sep s = f :: fs) :
    s = f ∧ fs = [] ∨ ∃ rest, s = f ++ sep :: rest ∧ splitOn sep rest = fs := by
  induction s generalizing f with
  | nil =>
      obtain ⟨rfl, rfl⟩ := List.cons.inj h
      exact .inl ⟨rfl, rfl⟩
  | cons c s ih =>
      unfold splitOn at h
      split at h
      · rename_i hc
        obtain ⟨rfl, rfl⟩ := List.cons.inj h
        exact .inr ⟨s, by rw [hc]; rfl, rfl⟩
      · split at h
        · rename_i hsplit
          rw [hsplit] at ih
          cases s with
          | nil => cases hsplit
          | cons d s =>
              unfold splitOn at hsplit
              split at hsplit
              · cases hsplit
              · split at hsplit
                · cases hsplit
                · cases hsplit
        · rename_i g gs hsplit
          obtain ⟨rfl, rfl⟩ := List.cons.inj h
          rcases ih hsplit with ⟨rfl, rfl⟩ | ⟨rest, rfl, hrest⟩
          · exact .inl ⟨rfl, rfl⟩
          · exact .inr ⟨rest, rfl, hrest⟩

theorem notMem_of_mem_splitOn {sep : UInt8} {s f : Str} (hf : f ∈ splitOn sep s) : sep ∉ f := by
  induction s generalizing f with
  | nil =>
      obtain rfl : f = [] := by simpa [splitOn] using hf
      simp
  | cons c s ih =>
      unfold splitOn at hf
      split at hf
      · rcases List.mem_cons.mp hf with rfl | hf
        · simp
        · exact ih hf
      · rename_i hne
        split at hf
        · obtain rfl : f = [c] := by simpa using hf
          simpa using Ne.symm hne
        · rename_i g gs hsplit
          rw [hsplit] at ih
          rcases List.mem_cons.mp hf with rfl | hf
          · have hg := ih (f := g) List.mem_cons_self
            simpa [Ne.symm hne] using hg
          · exact ih (List.mem_cons_of_mem _ hf)

/-- The fields of a prefix are fields of the whole, but for the end of the last one. -/
theorem splitOn_of_prefix (sep : UInt8) : ∀ {s t : Str}, s <+: t →
    ∃ f fs g gs, splitOn sep s = f :: fs ∧ splitOn sep t = g :: gs ∧ f <+: g ∧
      ∀ l ∈ fs, ∃ l' ∈ gs, l <+: l' := by
  intro s
  induction s with
  | nil =>
      intro t _
      obtain ⟨g, gs, hsplit⟩ : ∃ g gs, splitOn sep t = g :: gs := by
        cases t with
        | nil => exact ⟨[], [], rfl⟩
        | cons c t =>
            unfold splitOn
            split
            · exact ⟨_, _, rfl⟩
            · split
              · exact ⟨_, _, rfl⟩
              · exact ⟨_, _, rfl⟩
      exact ⟨[], [], g, gs, rfl, hsplit, List.nil_prefix, fun l hl => absurd hl List.not_mem_nil⟩
  | cons c s ih =>
      intro t h
      obtain ⟨t, rfl, hst⟩ : ∃ t', t = c :: t' ∧ s <+: t' := by
        obtain ⟨u, rfl⟩ := h
        exact ⟨s ++ u, rfl, List.prefix_append s u⟩
      obtain ⟨f, fs, g, gs, hs, ht, hfg, hrest⟩ := ih hst
      unfold splitOn
      rw [hs, ht]
      split
      · refine ⟨[], f :: fs, [], g :: gs, rfl, rfl, List.prefix_rfl, fun l hl => ?_⟩
        rcases List.mem_cons.mp hl with rfl | hl
        · exact ⟨g, List.mem_cons_self, hfg⟩
        · obtain ⟨l', hl', hpre⟩ := hrest l hl
          exact ⟨l', List.mem_cons_of_mem g hl', hpre⟩
      · exact ⟨c :: f, fs, c :: g, gs, rfl, rfl, (List.prefix_cons_inj c).mpr hfg, hrest⟩

theorem prefix_of_mem_splitOn {sep : UInt8} {s t l : Str} (h : s <+: t) (hl : l ∈ splitOn sep s) :
    ∃ l' ∈ splitOn sep t, l <+: l' := by
  obtain ⟨f, fs, g, gs, hs, ht, hfg, hrest⟩ := splitOn_of_prefix sep h
  rw [hs] at hl
  rw [ht]
  rcases List.mem_cons.mp hl with rfl | hl
  · exact ⟨g, List.mem_cons_self, hfg⟩
  · obtain ⟨l', hl', hpre⟩ := hrest l hl
    exact ⟨l', List.mem_cons_of_mem g hl', hpre⟩

theorem splitOn_ne_nil (sep : UInt8) (s : Str) : splitOn sep s ≠ [] := by
  cases s with
  | nil => exact List.cons_ne_nil _ _
  | cons c s =>
      unfold splitOn
      split
      · exact List.cons_ne_nil _ _
      · split
        · exact List.cons_ne_nil _ _
        · exact List.cons_ne_nil _ _

/-- The fields on both sides of a separator. -/
theorem splitOn_sep (sep : UInt8) (s t : Str) :
    splitOn sep (s ++ sep :: t) = splitOn sep s ++ splitOn sep t := by
  induction s with
  | nil => simp [splitOn]
  | cons c s ih =>
      rw [List.cons_append, splitOn, splitOn, ih]
      split
      · rfl
      · obtain ⟨f, fs, hs⟩ := List.exists_cons_of_ne_nil (splitOn_ne_nil sep s)
        rw [hs]
        rfl

/-! ### Numbers of up to 18 digits -/

/-- The largest number that `parse_ll` reads. -/
def maxLl : Int := 999999999999999999

theorem length_decNat_le_one {n : Nat} : (decNat n).length ≤ 1 ↔ n < 10 := by
  rw [decNat_eq]
  split
  · rename_i hlt
    exact iff_of_true (Nat.le_refl 1) hlt
  · rename_i hlt
    refine iff_of_false ?_ hlt
    have hpos := List.length_pos_iff.mpr (decNat_ne_nil (n / 10))
    rw [List.length_append, List.length_singleton]
    omega

/-- One digit less for the number without its last digit. -/
theorem length_decNat_le_succ {n k : Nat} :
    (decNat n).length ≤ k + 1 + 1 ↔ (decNat (n / 10)).length ≤ k + 1 := by
  by_cases hlt : n < 10
  · have hzero : n / 10 = 0 := Nat.div_eq_of_lt hlt
    rw [decNat_eq, if_pos hlt, hzero]
    exact iff_of_true (Nat.le_add_left 1 (k + 1)) (Nat.le_add_left 1 k)
  · rw [decNat_eq, if_neg hlt, List.length_append, List.length_singleton, Nat.add_le_add_iff_right]

theorem length_decNat_le {n : Nat} : (decNat n).length ≤ 18 ↔ (n : Int) ≤ maxLl := by
  unfold maxLl
  iterate 17 rw [length_decNat_le_succ]
  rw [length_decNat_le_one]
  simp only [Nat.div_div_eq_div_mul, Nat.reduceMul]
  omega

/-- The number that digits spell. -/
def number (s : Str) : Nat := s.foldl (fun n c => n * 10 + (c - 48).toNat) 0

theorem number_concat (s : Str) (c : UInt8) :
    number (s ++ [c]) = number s * 10 + (c - 48).toNat := by
  rw [number, List.foldl_append]
  rfl

theorem number_decNat (n : Nat) : number (decNat n) = n := by
  induction n using Nat.strongRecOn with
  | ind n ih =>
      rw [decNat_eq]
      split
      · rename_i hlt
        exact (Nat.zero_add _).trans (toNat_digitByte hlt)
      · rw [number_concat, ih (n / 10) (by omega), toNat_digitByte (Nat.mod_lt n (by decide))]
        omega

theorem toNat_lt_of_isDigit {c : UInt8} (h : isDigit c = true) : (c - 48).toNat < 10 := by
  simp only [isDigit, Bool.and_eq_true, decide_eq_true_eq] at h
  rw [UInt8.toNat_sub_of_le _ _ h.1]
  have hle := UInt8.le_iff_toNat_le.mp h.2
  change c.toNat ≤ 57 at hle
  change c.toNat - 48 < 10
  omega

/-- Digits spell no longer number than they are. -/
theorem length_decNat_number {s : Str} (h : s.all isDigit = true) :
    (decNat (number s)).length ≤ max 1 s.length := by
  induction s using List.reverseRecOn with
  | nil => decide
  | append_singleton s c ih =>
      rw [List.all_append, Bool.and_eq_true] at h
      have hc : (c - 48).toNat < 10 := toNat_lt_of_isDigit (by simpa using h.2)
      rw [number_concat, decNat_eq]
      split
      · exact Nat.le_max_left 1 _
      · rename_i hlt
        have hlead : (number s * 10 + (c - 48).toNat) / 10 = number s := by omega
        have hs : s ≠ [] := by
          rintro rfl
          exact hlt (by simpa [number] using hc)
        have hpos := List.length_pos_iff.mpr hs
        have hih := ih h.1
        rw [hlead, List.length_append, List.length_append, List.length_singleton,
          List.length_singleton]
        omega

/-- What `parse_ll` reads has at most 18 digits. -/
theorem parseLl_bounds {s : Str} {v : Int} (h : parseLl s = some v) : 0 ≤ v ∧ v ≤ maxLl := by
  unfold parseLl at h
  split at h
  · cases h
  · rename_i hshort
    simp only [Bool.or_eq_true, List.isEmpty_iff, decide_eq_true_eq, Bool.not_eq_true', not_or,
      Bool.not_eq_false, Nat.not_lt] at hshort
    obtain rfl := Option.some.inj h
    refine ⟨Int.natCast_nonneg _, length_decNat_le.mp ?_⟩
    have hdigits := length_decNat_number hshort.2
    change (decNat (number s)).length ≤ 18
    omega

/-- **`parse_ll` reads a number back if it has at most 18 digits.** -/
theorem parseLl_dec {v : Int} (h : 0 ≤ v) :
    parseLl (dec v) = if v ≤ maxLl then some v else none := by
  obtain ⟨n, rfl⟩ := Int.eq_ofNat_of_zero_le h
  have hdec : dec (n : Int) = decNat n := by
    rw [dec, if_neg (Int.not_lt.mpr h)]
    rfl
  have hempty : (decNat n).isEmpty = false := by simp [decNat_ne_nil]
  have hdigits : (decNat n).all isDigit = true :=
    List.all_eq_true.mpr fun c hc => isDigit_of_mem_decNat hc
  rw [hdec, parseLl, hempty, hdigits, Bool.false_or, Bool.not_true, Bool.or_false]
  by_cases hlen : (n : Int) ≤ maxLl
  · rw [if_pos hlen, if_neg (by simpa using length_decNat_le.mpr hlen)]
    change some ((number (decNat n) : Nat) : Int) = _
    rw [number_decNat]
  · rw [if_neg hlen, if_pos (by simpa using fun h => hlen (length_decNat_le.mp h))]

/-! ### The settings field -/

/-- One `name=value` of a settings field. -/
def parseSetting (net : Bool) (out : ChanSettings) (tok : Str) : ChanSettings :=
  match splitOnce (byte '=') tok with
  | none => out
  | some (name, val) =>
      if name.isEmpty then out
      else
        match csetIds.find? fun i => (cset i).name == name with
        | some i =>
            if (cset i).netOnly && !net then out
            else
              match parseLl val with
              | some v =>
                  if (cset i).lo ≤ v ∧ v ≤ (cset i).hi then
                    { out with val := fun j => if j = i then some v else out.val j }
                  else out
              | none => out
        | none =>
            match floodKinds.find? fun k => flName k == name with
            | none => out
            | some k =>
                let ((nlo, nhi), (slo, shi), offOk) := flBounds k
                if !flIsChan k && !net then out
                else if offOk && val == str "off" then
                  { out with fl := fun j => if j = k then some .off else out.fl j }
                else
                  let spec := do
                    let (n, s) ← splitOnce (byte ':') val
                    let n ← parseLl n
                    let s ← parseLl s
                    if nlo ≤ n ∧ n ≤ nhi ∧ slo ≤ s ∧ s ≤ shi then some (FloodSpec.limit n s)
                    else none
                  match spec with
                  | some sp => { out with fl := fun j => if j = k then some sp else out.fl j }
                  | none => if k = .sendq then { out with badSendq := true } else out

/-- `parse_settings`: too long a field parses to nothing. -/
def parseSettings (s : Str) (net : Bool) : ChanSettings :=
  if cSettingsMax < s.length then {}
  else (splitOn (byte ',') s).foldl (parseSetting net) {}

/-! ### Effective values -/

/-- The overrides of a channel that are in force. -/
def chanOverride (c : Option Chan) : Option ChanSettings :=
  c.bind fun c => if c.cfgActive && 0 < c.cfgTs then some c.cfgSet else none

/-- The network defaults in force. -/
def netDefaults (b : BotState) : Option ChanSettings := if 0 < b.netTs then some b.netSet else none

/-- `get`: channel, then `D|`, then built-in. -/
def get (b : BotState) (c : Option Chan) (id : CsetId) : Int :=
  let own := if (cset id).netOnly then none else (chanOverride c).bind (·.val id)
  (own.or ((netDefaults b).bind (·.val id))).getD (cset id).builtin

/-- `get_flood`: `none` when the flood is off. -/
def getFlood (b : BotState) (c : Option Chan) (kind : FloodKind) : Option (Int × Int) :=
  let own := if flIsChan kind then (chanOverride c).bind (·.fl kind) else none
  match own.or ((netDefaults b).bind (·.fl kind)) with
  | some .off => none
  | some (.limit n s) => some (n, s)
  | none => some (flBuiltin kind)

/-- `get_modes`. -/
def getModes (b : BotState) (c : Option Chan) : Str :=
  let own := c.bind fun c => if c.cfgActive && 0 < c.cfgTs then some c.cfgModes else none
  let net := if 0 < b.netTs then some b.netModes else none
  ((own.filter (!·.isEmpty)).or (net.filter (!·.isEmpty))).getD (str "+nt")

/-! ### Channels -/

/-- `channel::find`. -/
def find (b : BotState) (name : Str) : Option Nat := b.chans.findIdx? fun c => eqIc c.name name

/-- `channel::add`: `none` if the channel is already listed. -/
def add (b : BotState) (name : Str) : Option (Nat × BotState) :=
  if (find b name).isSome then none
  else
    some (b.chans.length, { b with chans := b.chans ++
      [{ name := trunc name maxChan, status := .out, isManaged := true, timestamp := b.now }] })

/-- The state with channel `ci` changed. -/
def withChan (b : BotState) (ci : Nat) (f : Chan → Chan) : BotState :=
  { b with chans := b.chans.modify ci f }

theorem mem_withChan {b : BotState} {ci : Nat} {f : Chan → Chan} {c' : Chan}
    (h : c' ∈ (withChan b ci f).chans) : c' ∈ b.chans ∨ ∃ c ∈ b.chans, c' = f c := by
  obtain ⟨j, hj⟩ := List.mem_iff_getElem?.mp h
  unfold withChan at hj
  dsimp only at hj
  rw [List.getElem?_modify] at hj
  cases hc : b.chans[j]? with
  | none => simp [hc] at hj
  | some c =>
      have hmem := List.mem_of_getElem? hc
      by_cases hci : ci = j
      · simp only [hc, hci, ↓reduceIte, Option.map_eq_map, Option.map_some, Option.some.injEq] at hj
        exact .inr ⟨c, hmem, hj.symm⟩
      · simp only [hc, hci, ↓reduceIte, Option.map_eq_map, Option.map_some, Option.some.injEq] at hj
        exact .inl (hj ▸ hmem)

/-- What a name finds in the table. -/
theorem find_eq_some {b : BotState} {name : Str} {ci : Nat} (h : find b name = some ci) :
    ∃ c, b.chans[ci]? = some c ∧ eqIc c.name name = true := by
  rw [find, List.findIdx?_eq_some_iff_getElem] at h
  obtain ⟨hlt, hname, -⟩ := h
  exact ⟨b.chans[ci], List.getElem?_eq_getElem hlt, hname⟩

theorem find_congr (b : BotState) {name name' : Str} (h : eqIc name name' = true) :
    find b name = find b name' := by
  rw [eqIc_iff] at h
  simp only [find, eqIc, h]

/-- Only the names matter. -/
theorem find_of_names {b b' : BotState} (h : b'.chans.map Chan.name = b.chans.map Chan.name)
    (name : Str) : find b' name = find b name := by
  have hnames (b : BotState) : find b name = (b.chans.map Chan.name).findIdx? (eqIc · name) := by
    rw [find, List.findIdx?_map]
    rfl
  rw [hnames, hnames, h]

/-- A change that leaves the names alone is found where it was. -/
theorem find_withChan (b : BotState) (ci : Nat) {f : Chan → Chan} (hf : ∀ c, (f c).name = c.name)
    (name : Str) : find (withChan b ci f) name = find b name := by
  refine find_of_names (List.ext_getElem? fun i => ?_) name
  rw [List.getElem?_map, List.getElem?_map, withChan, List.getElem?_modify]
  cases b.chans[i]? with
  | none => rfl
  | some c =>
      simp only [Option.map_eq_map, Option.map_some]
      split
      · rw [hf]
      · rfl

/-- The channel of that name. -/
def byName (b : BotState) (name : Str) : Option Chan := (find b name).bind fun ci => b.chans[ci]?

theorem byName_eq_some {b : BotState} {name : Str} {ci : Nat} {c : Chan}
    (hfind : find b name = some ci) (hc : b.chans[ci]? = some c) : byName b name = some c := by
  rw [byName, hfind, Option.bind_some, hc]

theorem byName_eq_none {b : BotState} {name : Str} (h : find b name = none) :
    byName b name = none := by
  rw [byName, h, Option.bind_none]

/-- The channel of that name after a change of it. -/
theorem byName_modify {b b' : BotState} {name : Str} {ci : Nat} {c : Chan} {f : Chan → Chan}
    (hfind : find b name = some ci) (hc : b.chans[ci]? = some c) (hf : ∀ c, (f c).name = c.name)
    (hchans : b'.chans = b.chans.modify ci f) : byName b' name = some (f c) := by
  have hfind' : find b' name = some ci := by
    rw [← hfind, ← find_withChan b ci hf name, find, find, hchans, withChan]
  refine byName_eq_some hfind' ?_
  rw [hchans, List.getElem?_modify_eq, hc]
  rfl

/-- A channel that is added is found at the end. -/
theorem add_eq_some {b b' : BotState} {name : Str} {ci : Nat} (hlen : name.length < maxChan)
    (h : add b name = some (ci, b')) :
    find b' name = some ci ∧
      b'.chans[ci]? = some { name, status := .out, isManaged := true, timestamp := b.now } := by
  unfold add at h
  split at h
  · simp at h
  · rename_i hnone
    obtain ⟨rfl, rfl⟩ : b.chans.length = ci ∧ _ = b' := by simpa using h
    rw [Option.not_isSome_iff_eq_none, find, List.findIdx?_eq_none_iff] at hnone
    refine ⟨?_, by simp [trunc_of_lt hlen]⟩
    rw [find, List.findIdx?_append, List.findIdx?_eq_none_iff.mpr hnone]
    simp [trunc_of_lt hlen]

/-! ### `C|` -/

/-- The channel a `C|` line is about; one that is not known yet is held
unmanaged, at stamp 0. -/
def chanForSettings (b : BotState) (name : Str) (isAdd : Bool) : Option (Nat × BotState) :=
  match find b name with
  | some ci => some (ci, b)
  | none =>
      if !isAdd then none
      else
        (add b name).map fun (ci, b) =>
          (ci, withChan b ci fun c => { c with isManaged := false, timestamp := 0 })

/-- `apply_c_line`: whether the record changed. -/
def applyCLine (b : BotState) (data : Str) : Bool × BotState :=
  if cLineMax < data.length then (false, b)
  else
    match splitPipes 6 data with
    | name :: modes :: settings :: op :: stamp :: _ =>
        match addOp op, parseLl stamp with
        | some isAdd, some ts =>
            if !validChanName name || !validModesField modes || cSettingsMax < settings.length ||
                !plainText settings || ts ≤ 0 then (false, b)
            else
              match chanForSettings b name isAdd with
              | none => (false, b)
              | some (ci, b) =>
                  match b.chans[ci]? with
                  | none => (false, b)
                  | some c =>
                      if !lwwAccepts ts isAdd c.cfgTs c.cfgActive then (false, b)
                      else
                        (true, { withChan b ci fun c =>
                            { c with
                              cfgModes := modes, cfgSettings := settings
                              cfgSet := parseSettings settings false, cfgTs := ts
                              cfgActive := isAdd } with
                          cfgGen := b.cfgGen + 1 })
        | _, _ => (false, b)
    | _ => (false, b)

/-- `format_c_line`: empty when there is no record, `none` when it is too long. -/
def formatCLine (c : Chan) : Option Str :=
  if c.cfgTs ≤ 0 then some []
  else
    let l := str "C|" ++ c.name ++ str "|" ++ c.cfgModes ++ str "|" ++ c.cfgSettings ++ str "|" ++
      addDel c.cfgActive ++ str "|" ++ dec c.cfgTs ++ str "\n"
    if l.length < cLineMax + 2 then some l else none

/-! ### `D|` -/

/-- `sendq::set_limits`. -/
def setLimits (b : BotState) (burst intervalMs : Int) : BotState :=
  let burst := max sendqMinBurst (min burst sendqMaxBurst)
  let intervalMs := max sendqMinIntervalMs (min intervalMs sendqMaxIntervalMs)
  { b with
    sendqBurst := burst
    sendqIntervalMs := intervalMs
    sendqCreditMs := min b.sendqCreditMs (burst * intervalMs) }

/-- `apply_d_line`: on a tie of stamps the greater text wins. -/
def applyDLine (b : BotState) (data : Str) : Bool × BotState :=
  if dLineMax < data.length then (false, b)
  else
    match splitPipes 3 data with
    | [modes, settings, stamp] =>
        match parseLl stamp with
        | none => (false, b)
        | some ts =>
            if !validModesField modes || dSettingsMax < settings.length || !plainText settings ||
                ts ≤ 0 then (false, b)
            else if ts < b.netTs then (false, b)
            else if ts = b.netTs ∧
                modes ++ str "|" ++ settings ≤ b.netModes ++ str "|" ++ b.netSettings then (false, b)
            else
              let set := parseSettings settings true
              -- a bad sendq value is ignored: the one in force stays
              let set :=
                if set.badSendq then
                  { set with fl := fun k => if k = .sendq then b.netSet.fl .sendq else set.fl k }
                else set
              let b := { b with netModes := modes, netSettings := settings, netSet := set, netTs := ts }
              let b :=
                if set.badSendq then b
                else
                  let (burst, iv) :=
                    (getFlood b none .sendq).getD (sendqDefBurst, sendqDefIntervalMs)
                  setLimits b burst iv
              (true, { b with cfgGen := b.cfgGen + 1 })
    | _ => (false, b)

/-- `format_d_line`. -/
def formatDLine (b : BotState) : Option Str :=
  if b.netTs ≤ 0 then some []
  else
    let l := str "D|" ++ b.netModes ++ str "|" ++ b.netSettings ++ str "|" ++ dec b.netTs ++ str "\n"
    if l.length < dLineMax + 2 then some l else none

/-! ### `B|` -/

/-- The ban under `chan` and `mask`, both up to case. -/
def banIdx (b : BotState) (chan mask : Str) : Option Nat :=
  b.cfgBans.findIdx? fun x => eqIc x.chan chan && eqIc x.mask mask

/-- `ban_active_room`: room for one more active ban on `chan`. -/
def banActiveRoom (b : BotState) (chan : Str) : Bool :=
  (b.cfgBans.filter fun x => x.active && eqIc x.chan chan).length <
    if chan = str "*" then maxGlobalBans else maxBansPerChan

/-- The oldest tombstone, the first of equals. -/
def oldestTombstone (bans : List CfgBan) : Option (Nat × CfgBan) :=
  bans.zipIdx.foldl (fun best (x, i) =>
    if !x.active && best.all fun (_, y) => x.ts < y.ts then some (i, x) else best) none

/-- `ban_slot`: the table grows up to its limit, then reuses the oldest
tombstone. -/
def banSlot (bans : List CfgBan) : Option (Nat × List CfgBan) :=
  if bans.length < cfgMaxBans then some (bans.length, bans ++ [({} : CfgBan)])
  else (oldestTombstone bans).map fun (i, _) => (i, bans)

/-- `ban_store`: whether the table changed. -/
def banStore (b : BotState) (inb : CfgBan) : Bool × BotState :=
  match (banIdx b inb.chan inb.mask).bind fun i => b.cfgBans[i]?.map fun x => (i, x) with
  | some (i, x) =>
      if !lwwAccepts inb.ts inb.active x.ts x.active then (false, b)
      else if inb.active && !x.active && !banActiveRoom b inb.chan then (false, b)
      else (true, { b with cfgBans := b.cfgBans.set i inb, cfgGen := b.cfgGen + 1 })
  | none =>
      if inb.active && !banActiveRoom b inb.chan then (false, b)
      else
        match banSlot b.cfgBans with
        | none => (false, b)
        | some (i, bans) => (true, { b with cfgBans := bans.set i inb, cfgGen := b.cfgGen + 1 })

/-- The last `|` that is not at the front: what stands before and after it. -/
def rsplitPipe (s : Str) : Option (Str × Str) :=
  let tail := (s.reverse.takeWhile (· ≠ byte '|')).reverse
  let head := s.take (s.length - tail.length - 1)
  if s.length ≤ tail.length + 1 then none else some (head, tail)

/-- The fields of a `B|` body: everything before the op, the op and the stamp. -/
def splitBan (data : Str) : Option (Str × Str × Str) := do
  let (front, stamp) ← rsplitPipe data
  -- the second search may end on the first byte
  if byte '|' ∉ front then none
  else
    let op := (front.reverse.takeWhile (· ≠ byte '|')).reverse
    some (front.take (front.length - op.length - 1), op, stamp)

/-- `apply_b_line`: whether the table changed. -/
def applyBLine (b : BotState) (data : Str) : Bool × BotState :=
  if bLineMax < data.length then (false, b)
  else
    match splitBan data with
    | none => (false, b)
    | some (head, op, stamp) =>
        match splitPipes 6 head, addOp op, parseLl stamp with
        | [chan, mask, expires, flags, setter, reason], some isAdd, some ts =>
            if ts ≤ 0 then (false, b)
            else if chan ≠ str "*" ∧ !validChanName chan then (false, b)
            else if mask.isEmpty || banMaskMax < mask.length || !plainText mask ||
                mask.contains (byte ' ') then (false, b)
            else
              match parseLl expires with
              | none => (false, b)
              | some expires =>
                  if 8 ≤ flags.length || !plainText flags then (false, b)
                  else if banSetterMax < setter.length || !plainText setter then (false, b)
                  else if banReasonMax < reason.length ||
                      reason.any fun c => c < 0x20 || c == 0x7f then (false, b)
                  else
                    banStore b
                      { chan, mask, flags, setter, reason, expires, ts, active := isAdd }
        | _, _, _ => (false, b)

/-- `format_b_line`. -/
def formatBLine (x : CfgBan) : Option Str :=
  let l := str "B|" ++ x.chan ++ str "|" ++ x.mask ++ str "|" ++ dec x.expires ++ str "|" ++
    x.flags ++ str "|" ++ x.setter ++ str "|" ++ x.reason ++ str "|" ++ addDel x.active ++ str "|" ++
    dec x.ts ++ str "\n"
  if l.length < bLineMax + 2 then some l else none

/-- One removal of `purge_bans` at `i`: the last entry takes the free place. -/
def purgeBansLoop (cutoff : Int) : Nat → Nat → List CfgBan → List CfgBan × Nat
  | 0, _, bans => (bans, 0)
  | fuel + 1, i, bans =>
      match bans[i]? with
      | none => (bans, 0)
      | some x =>
          if !x.active && (cutoff == 0 || x.ts < cutoff) then
            let last := bans.length - 1
            let bans := (match bans[last]? with
              | some y => bans.set i y
              | none => bans).take last
            let (bans, n) := purgeBansLoop cutoff fuel i bans
            (bans, n + 1)
          else purgeBansLoop cutoff fuel (i + 1) bans

/-- `purge_bans`: the table without the tombstones stamped before `cutoff` (0 =
all), and how many there were. Each round ends one entry or drops it. -/
def purgeBans (b : BotState) (cutoff : Int) : Nat × BotState :=
  let (bans, n) := purgeBansLoop cutoff b.cfgBans.length 0 b.cfgBans
  (n, { b with cfgBans := bans })

/-! ### What a line can change -/

/-- The lines write the channels, the network defaults with the send limits they
carry, and the bans. -/
structure SameButChancfg (b b' : BotState) : Prop where
  eq : b' = { b with
    chans := b'.chans, cfgBans := b'.cfgBans, cfgGen := b'.cfgGen
    netModes := b'.netModes, netSettings := b'.netSettings, netSet := b'.netSet
    netTs := b'.netTs, sendqBurst := b'.sendqBurst, sendqIntervalMs := b'.sendqIntervalMs
    sendqCreditMs := b'.sendqCreditMs }

theorem SameButChancfg.refl (b : BotState) : SameButChancfg b b := ⟨rfl⟩

theorem sameButChancfg_chanForSettings {b b' : BotState} {name : Str} {isAdd : Bool} {ci : Nat}
    (h : chanForSettings b name isAdd = some (ci, b')) : SameButChancfg b b' := by
  unfold chanForSettings at h
  split at h
  · obtain ⟨rfl, rfl⟩ : _ = ci ∧ b = b' := by simpa using h
    exact .refl b
  · split at h
    · simp at h
    · unfold add at h
      split at h
      · simp at h
      · obtain ⟨-, rfl⟩ : _ ∧ _ = b' := by simpa using h
        exact ⟨rfl⟩

theorem sameButChancfg_applyCLine (b : BotState) (data : Str) :
    SameButChancfg b (applyCLine b data).2 := by
  unfold applyCLine
  split
  · exact .refl b
  · split
    · split
      · split
        · exact .refl b
        · split
          · exact .refl b
          · rename_i hchan
            have hsame := sameButChancfg_chanForSettings hchan
            split
            · exact hsame
            · split
              · exact hsame
              · constructor
                rw [hsame.eq]
                rfl
      · exact .refl b
    · exact .refl b

theorem sameButChancfg_applyDLine (b : BotState) (data : Str) :
    SameButChancfg b (applyDLine b data).2 := by
  unfold applyDLine
  split
  · exact .refl b
  · split
    · split
      · exact .refl b
      · split
        · exact .refl b
        · split
          · exact .refl b
          · split
            · exact .refl b
            · dsimp only
              constructor
              split <;> rfl
    · exact .refl b

theorem sameButChancfg_banStore (b : BotState) (inb : CfgBan) :
    SameButChancfg b (banStore b inb).2 := by
  unfold banStore
  split
  · split
    · exact .refl b
    · split
      · exact .refl b
      · exact ⟨rfl⟩
  · split
    · exact .refl b
    · split
      · exact .refl b
      · exact ⟨rfl⟩

theorem sameButChancfg_applyBLine (b : BotState) (data : Str) :
    SameButChancfg b (applyBLine b data).2 := by
  unfold applyBLine
  split
  · exact .refl b
  · split
    · exact .refl b
    · split
      · split
        · exact .refl b
        · split
          · exact .refl b
          · split
            · exact .refl b
            · split
              · exact .refl b
              · split
                · exact .refl b
                · split
                  · exact .refl b
                  · split
                    · exact .refl b
                    · exact sameButChancfg_banStore b _
      · exact .refl b

/-- The result of a line that changes the state only if it is applied. -/
def OnlyApplied (b : BotState) (r : Bool × BotState) : Prop := r.1 = false → r.2 = b

theorem onlyApplied_refl (b : BotState) (applied : Bool) : OnlyApplied b (applied, b) :=
  fun _ => rfl

theorem onlyApplied_true (b b' : BotState) : OnlyApplied b (true, b') :=
  fun h => Bool.noConfusion h

/-- A `C|` line that is turned down leaves no channel behind: one that is taken up for
it accepts any stamp. -/
theorem onlyApplied_applyCLine (b : BotState) (data : Str) : OnlyApplied b (applyCLine b data) := by
  unfold applyCLine
  split
  · exact onlyApplied_refl b _
  · split
    · split
      · split
        · exact onlyApplied_refl b _
        · rename_i ts _ _ hvalid
          split
          · exact onlyApplied_refl b _
          · rename_i ci b' hchan
            unfold chanForSettings at hchan
            split at hchan
            · obtain ⟨rfl, rfl⟩ : _ = ci ∧ b = b' := by simpa using hchan
              split
              · exact onlyApplied_refl b _
              · split
                · exact onlyApplied_refl b _
                · exact onlyApplied_true b _
            · split at hchan
              · simp at hchan
              · obtain ⟨⟨ci', b''⟩, hadd, hci⟩ := Option.map_eq_some_iff.mp hchan
                unfold add at hadd
                split at hadd
                · simp at hadd
                · simp only [Option.some.injEq, Prod.mk.injEq] at hadd hci
                  obtain ⟨rfl, rfl⟩ := hadd
                  obtain ⟨rfl, rfl⟩ := hci
                  have hts : 0 < ts := by
                    simp only [Bool.or_eq_true, decide_eq_true_eq, not_or, not_le] at hvalid
                    exact hvalid.2
                  simp [withChan, lwwAccepts, hts, onlyApplied_true]
      · exact onlyApplied_refl b _
    · exact onlyApplied_refl b _

theorem onlyApplied_applyDLine (b : BotState) (data : Str) : OnlyApplied b (applyDLine b data) := by
  unfold applyDLine
  split
  · exact onlyApplied_refl b _
  · split
    · split
      · exact onlyApplied_refl b _
      · split
        · exact onlyApplied_refl b _
        · split
          · exact onlyApplied_refl b _
          · split
            · exact onlyApplied_refl b _
            · exact onlyApplied_true b _
    · exact onlyApplied_refl b _

theorem onlyApplied_banStore (b : BotState) (inb : CfgBan) : OnlyApplied b (banStore b inb) := by
  unfold banStore
  split
  · split
    · exact onlyApplied_refl b _
    · split
      · exact onlyApplied_refl b _
      · exact onlyApplied_true b _
  · split
    · exact onlyApplied_refl b _
    · split
      · exact onlyApplied_refl b _
      · exact onlyApplied_true b _

theorem onlyApplied_applyBLine (b : BotState) (data : Str) : OnlyApplied b (applyBLine b data) := by
  unfold applyBLine
  split
  · exact onlyApplied_refl b _
  · split
    · exact onlyApplied_refl b _
    · split
      · split
        · exact onlyApplied_refl b _
        · split
          · exact onlyApplied_refl b _
          · split
            · exact onlyApplied_refl b _
            · split
              · exact onlyApplied_refl b _
              · split
                · exact onlyApplied_refl b _
                · split
                  · exact onlyApplied_refl b _
                  · split
                    · exact onlyApplied_refl b _
                    · exact onlyApplied_banStore b _
      · exact onlyApplied_refl b _

end IrcBot.Chancfg
