/-
# What `chanset` changes (`chancmd.rs`, `chancfg.rs`)

A settings field is a list of writes, the latest of which counts; `settings_edit` replaces those
to one item. `effective` is what `get` and `get_flood` read through the layers.

* `writes_settingsEdit` — an edit replaces the writes to its item, and no others.
* `settingsEdit_law` — what the parser reads out of an edited field.
* `chanset_frame` — a `chanset` that is turned down changes no setting; one that succeeds gives
  each item it names its new value and leaves the others alone, unless it revives what a deleted
  record says of them.
-/
import IrcBot.Chancmd
import IrcBot.Lib.Keyed
import IrcBot.Lib.Overwrite
import IrcBot.SettingsMerge

namespace IrcBot.Chancmd

open Cstr Chancfg Chanlive HubPush LocalWrites UserCommands Lib.Overwrite SettingsMerge

/-! ### Items and their values -/

/-- The value of an item. -/
inductive Setting where
  | number (v : Int)
  | flood (spec : FloodSpec)
deriving DecidableEq, Repr

/-- What parsed settings say of an item. -/
def entry (s : ChanSettings) : Item → Option Setting
  | .set id => (s.val id).map .number
  | .flood kind => (s.fl kind).map .flood

/-- What a text says as the limits of a flood. -/
def limitsOf (kind : FloodKind) (text : Str) : Option FloodSpec :=
  (splitOnce (byte ':') text).bind fun w => (parseLl w.1).bind fun n => (parseLl w.2).bind fun s =>
    if (flBounds kind).1.1 ≤ n ∧ n ≤ (flBounds kind).1.2 ∧ (flBounds kind).2.1.1 ≤ s ∧
      s ≤ (flBounds kind).2.1.2 then some (.limit n s) else none

/-- What a text says as the value of an item. -/
def valueOf : Item → Str → Option Setting
  | .set id, text =>
      ((parseLl text).filter fun v => (cset id).lo ≤ v && v ≤ (cset id).hi).map .number
  | .flood kind, text =>
      (if (flBounds kind).2.2 && text == str "off" then some .off else limitsOf kind text).map .flood

/-- What an entry of a settings field writes. -/
def reading (net : Bool) (tok : Str) : Option (Item × Setting) :=
  (splitOnce (byte '=') tok).bind fun w => (itemIndex w.1 net).bind fun i =>
    (valueOf i w.2).map fun v => (i, v)

/-- An entry for the send queue without a value. -/
def spoils (net : Bool) (tok : Str) : Bool :=
  (splitOnce (byte '=') tok).any fun w =>
    itemIndex w.1 net == some (.flood .sendq) && (valueOf (.flood .sendq) w.2).isNone

/-- The built-in value. -/
def builtin : Item → Setting
  | .set id => .number (cset id).builtin
  | .flood kind => .flood (.limit (flBuiltin kind).1 (flBuiltin kind).2)

/-- The value of an item in effect: `get` and `get_flood`. -/
def effective (b : BotState) (c : Option Chan) : Item → Setting
  | .set id => .number (get b c id)
  | .flood kind => .flood (((getFlood b c kind).map fun l => FloodSpec.limit l.1 l.2).getD .off)

/-- What a channel's record in force says of an item. -/
def own (c : Option Chan) (i : Item) : Option Setting :=
  if i.onChan then (chanOverride c).bind fun s => entry s i else none

/-- What the network's record in force says of an item. -/
def netEntry (b : BotState) (i : Item) : Option Setting :=
  (netDefaults b).bind fun s => entry s i

theorem entry_set (id : CsetId) :
    (fun s => entry s (.set id)) = fun s => (s.val id).map .number := rfl

theorem entry_flood (kind : FloodKind) :
    (fun s => entry s (.flood kind)) = fun s => (s.fl kind).map .flood := rfl

/-- The layers: channel, network, built-in. -/
theorem effective_eq (b : BotState) (c : Option Chan) (i : Item) :
    effective b c i = ((own c i).or (netEntry b i)).getD (builtin i) := by
  cases i with
  | set id =>
      have hown : own c (.set id) =
          (if (cset id).netOnly then none else (chanOverride c).bind (·.val id)).map .number := by
        rw [own, entry_set, apply_ite (Option.map Setting.number), Option.map_bind, Option.map_none,
          Item.onChan]
        cases (cset id).netOnly <;> rfl
      have hnet : netEntry b (.set id) = ((netDefaults b).bind (·.val id)).map .number := by
        rw [netEntry, entry_set, Option.map_bind]
        rfl
      rw [hown, hnet, effective, Chancfg.get, ← Option.map_or, builtin]
      generalize Option.or _ _ = v
      cases v <;> rfl
  | flood kind =>
      have hown : own c (.flood kind) =
          (if flIsChan kind then (chanOverride c).bind (·.fl kind) else none).map .flood := by
        rw [own, entry_flood, apply_ite (Option.map Setting.flood), Option.map_bind,
          Option.map_none]
        rfl
      have hnet : netEntry b (.flood kind) = ((netDefaults b).bind (·.fl kind)).map .flood := by
        rw [netEntry, entry_flood, Option.map_bind]
        rfl
      rw [hown, hnet, effective, getFlood, ← Option.map_or, builtin]
      generalize Option.or _ _ = v
      rcases v with _ | _ | _ <;> rfl

/-! ### Reading a settings field -/

theorem itemIndex_set {name : Str} {net : Bool} {id : CsetId}
    (h : csetIds.find? (fun i => (cset i).name == name) = some id) :
    itemIndex name net = if (cset id).netOnly && !net then none else some (.set id) := by
  have hfind : items.find? (fun i => i.name == name) = some (.set id) := by
    rw [items, List.find?_append, List.find?_map]
    change Option.or (Option.map _ (csetIds.find? fun i => (cset i).name == name)) _ = _
    rw [h]
    rfl
  rw [itemIndex, hfind, Option.filter_some, Item.onChan]
  cases (cset id).netOnly <;> cases net <;> rfl

theorem itemIndex_flood {name : Str} {net : Bool}
    (h : csetIds.find? (fun i => (cset i).name == name) = none) :
    itemIndex name net = ((floodKinds.find? fun k => flName k == name).map Item.flood).filter
      fun i => net || i.onChan := by
  rw [itemIndex, items, List.find?_append, List.find?_map]
  change Option.filter _ (Option.or (Option.map _ (csetIds.find? fun i => (cset i).name == name)) _) = _
  rw [h, List.find?_map]
  rfl

theorem entry_val (out : ChanSettings) (id : CsetId) (v : Int) (j : Item) :
    entry { out with val := fun i => if i = id then some v else out.val i } j =
      (lastWrite j [(.set id, .number v)]).or (entry out j) := by
  rw [lastWrite, lastWrite_nil, Option.none_or]
  cases j with
  | set i =>
      by_cases hi : i = id
      · subst hi
        rw [if_pos rfl, entry]
        dsimp only
        rw [if_pos rfl]
        rfl
      · rw [if_neg fun h => hi (Item.set.inj h).symm, entry]
        dsimp only
        rw [if_neg hi]
        rfl
  | flood kind => rfl

theorem entry_fl (out : ChanSettings) (kind : FloodKind) (sp : FloodSpec) (j : Item) :
    entry { out with fl := fun i => if i = kind then some sp else out.fl i } j =
      (lastWrite j [(.flood kind, .flood sp)]).or (entry out j) := by
  rw [lastWrite, lastWrite_nil, Option.none_or]
  cases j with
  | set id => rfl
  | flood i =>
      by_cases hi : i = kind
      · subst hi
        rw [if_pos rfl, entry]
        dsimp only
        rw [if_pos rfl]
        rfl
      · rw [if_neg fun h => hi (Item.flood.inj h).symm, entry]
        dsimp only
        rw [if_neg hi]
        rfl

/-- One entry writes what it reads as. -/
theorem entry_parseSetting (net : Bool) (out : ChanSettings) (tok : Str) (j : Item) :
    entry (parseSetting net out tok) j =
      (lastWrite j (reading net tok).toList).or (entry out j) := by
  unfold parseSetting reading
  cases splitOnce (byte '=') tok with
  | none => rfl
  | some w =>
      obtain ⟨name, val⟩ := w
      rw [Option.bind_some]
      dsimp only
      split
      · rename_i hempty
        rw [List.isEmpty_iff.mp hempty]
        have hnone : itemIndex [] net = none := by cases net <;> decide
        rw [hnone]
        rfl
      · split
        · rename_i id hid
          rw [itemIndex_set hid]
          split
          · rfl
          · rw [Option.bind_some, valueOf]
            cases parseLl val with
            | none => rfl
            | some v =>
                dsimp only
                rw [Option.filter_some]
                split
                · rename_i hrange
                  rw [if_pos (by simpa using hrange)]
                  exact entry_val out id v j
                · rename_i hrange
                  rw [if_neg (by simpa using hrange)]
                  rfl
        · rename_i hset
          rw [itemIndex_flood hset]
          split
          · rename_i hkind
            rw [hkind]
            rfl
          · rename_i kind hkind
            rw [hkind, Option.map_some, Option.filter_some]
            split
            · rename_i hnet
              have hhidden : (net || (Item.flood kind).onChan) = false := by
                simpa [Item.onChan, and_comm] using hnet
              rw [hhidden]
              rfl
            · rename_i hnet
              have hshown : (net || (Item.flood kind).onChan) = true := by
                cases net with
                | false => simpa [Item.onChan] using hnet
                | true => rfl
              rw [hshown, if_pos rfl, Option.bind_some, valueOf]
              split
              · exact entry_fl out kind .off j
              · split
                · rename_i sp hspec
                  have hlimits : limitsOf kind val = some sp := hspec
                  rw [hlimits]
                  exact entry_fl out kind sp j
                · rename_i hspec
                  have hlimits : limitsOf kind val = none := hspec
                  rw [hlimits]
                  split
                  · cases j <;> rfl
                  · rfl

/-- A value for the send queue that reads as nothing is remembered. -/
theorem badSendq_parseSetting (net : Bool) (out : ChanSettings) (tok : Str) :
    (parseSetting net out tok).badSendq = (out.badSendq || spoils net tok) := by
  unfold parseSetting spoils
  cases splitOnce (byte '=') tok with
  | none => exact (Bool.or_false _).symm
  | some w =>
      obtain ⟨name, val⟩ := w
      rw [Option.any_some]
      dsimp only
      split
      · rename_i hempty
        rw [List.isEmpty_iff.mp hempty]
        have hnone : itemIndex [] net = none := by cases net <;> decide
        rw [hnone]
        exact (Bool.or_false _).symm
      · split
        · rename_i id hid
          rw [itemIndex_set hid]
          have hother : ((if (cset id).netOnly && !net then none else some (Item.set id)) ==
              some (Item.flood .sendq)) = false := by split <;> rfl
          rw [hother, Bool.false_and, Bool.or_false]
          split
          · rfl
          · split
            · split <;> rfl
            · rfl
        · rename_i hset
          rw [itemIndex_flood hset]
          split
          · rename_i hkind
            rw [hkind]
            exact (Bool.or_false _).symm
          · rename_i kind hkind
            rw [hkind, Option.map_some, Option.filter_some]
            split
            · rename_i hnet
              have hhidden : (net || (Item.flood kind).onChan) = false := by
                simpa [Item.onChan, and_comm] using hnet
              rw [hhidden]
              exact (Bool.or_false _).symm
            · rename_i hnet
              have hshown : (net || (Item.flood kind).onChan) = true := by
                cases net with
                | false => simpa [Item.onChan] using hnet
                | true => rfl
              rw [hshown, if_pos rfl]
              by_cases hkind : kind = .sendq
              · subst hkind
                have hnooff : ¬ ((flBounds .sendq).2.2 && val == str "off") = true :=
                  Bool.false_ne_true
                rw [if_neg hnooff, beq_self_eq_true, Bool.true_and, valueOf, if_neg hnooff,
                  Option.isNone_map]
                split
                · rename_i sp hspec
                  have hlimits : limitsOf .sendq val = some sp := hspec
                  rw [hlimits]
                  exact (Bool.or_false _).symm
                · rename_i hspec
                  have hlimits : limitsOf .sendq val = none := hspec
                  rw [hlimits]
                  exact (Bool.or_true _).symm
              · have hother : (some (Item.flood kind) == some (Item.flood .sendq)) = false :=
                  beq_false_of_ne fun h => hkind (Item.flood.inj (Option.some.inj h))
                rw [hother, Bool.false_and, Bool.or_false]
                split
                · rfl
                · split
                  · rfl
                  · rfl

/-- What a settings field writes, in order. -/
def writes (net : Bool) (text : Str) : List (Item × Setting) :=
  (splitOn (byte ',') text).filterMap (reading net)

/-- A value for the send queue in the field reads as nothing. -/
def spoilt (net : Bool) (text : Str) : Bool := (splitOn (byte ',') text).any (spoils net)

theorem foldl_parseSetting (net : Bool) (toks : List Str) : ∀ (out : ChanSettings),
    (∀ j, entry (toks.foldl (parseSetting net) out) j =
      (lastWrite j (toks.filterMap (reading net))).or (entry out j)) ∧
    (toks.foldl (parseSetting net) out).badSendq = (out.badSendq || toks.any (spoils net)) := by
  induction toks with
  | nil => exact fun out => ⟨fun _ => rfl, (Bool.or_false _).symm⟩
  | cons tok toks ih =>
      intro out
      obtain ⟨hentry, hbad⟩ := ih (parseSetting net out tok)
      refine ⟨fun j => ?_, ?_⟩
      · rw [List.foldl_cons, hentry, entry_parseSetting, ← Option.or_assoc, List.filterMap_cons]
        congr 1
        cases reading net tok with
        | none => exact Option.or_none
        | some w => rw [Option.toList_some, ← lastWrite_append, List.singleton_append]
      · rw [List.foldl_cons, hbad, badSendq_parseSetting, List.any_cons, Bool.or_assoc]

/-- **A settings field says of an item what it writes to it last.** -/
theorem entry_parseSettings {text : Str} (h : text.length ≤ cSettingsMax) (net : Bool) (j : Item) :
    entry (parseSettings text net) j = lastWrite j (writes net text) := by
  rw [parseSettings, if_neg (Nat.not_lt.mpr h), (foldl_parseSetting net _ {}).1]
  cases j <;> exact Option.or_none

theorem badSendq_parseSettings {text : Str} (h : text.length ≤ cSettingsMax) (net : Bool) :
    (parseSettings text net).badSendq = spoilt net text := by
  rw [parseSettings, if_neg (Nat.not_lt.mpr h), (foldl_parseSetting net _ {}).2]
  exact Bool.false_or _

/-! ### Editing a settings field -/

/-- The entries of a field. -/
def fields (text : Str) : List Str := (splitOn (byte ',') text).filter (!·.isEmpty)

theorem writes_eq (net : Bool) (text : Str) :
    writes net text = (fields text).filterMap (reading net) := by
  rw [writes, fields]
  induction splitOn (byte ',') text with
  | nil => rfl
  | cons tok toks ih =>
      cases tok with
      | nil => exact ih
      | cons c tok =>
          rw [List.filter_cons_of_pos rfl, List.filterMap_cons, List.filterMap_cons, ih]

theorem spoilt_eq (net : Bool) (text : Str) : spoilt net text = (fields text).any (spoils net) := by
  rw [spoilt, fields]
  induction splitOn (byte ',') text with
  | nil => rfl
  | cons tok toks ih =>
      cases tok with
      | nil => exact ih
      | cons c tok => rw [List.filter_cons_of_pos rfl, List.any_cons, List.any_cons, ih]

theorem fields_sep (s t : Str) : fields (s ++ str "," ++ t) = fields s ++ fields t := by
  have happ : s ++ str "," ++ t = s ++ byte ',' :: t := List.append_assoc _ _ _
  rw [fields, happ, splitOn_sep, List.filter_append]
  rfl

theorem fields_of_notMem {tok : Str} (hne : tok ≠ []) (h : byte ',' ∉ tok) :
    fields tok = [tok] := by
  rw [fields, splitOn_of_notMem h, List.filter_singleton]
  cases tok with
  | nil => exact absurd rfl hne
  | cons c tok => rfl

/-- An entry behind the ones that are there. -/
theorem fields_snoc (out : Str) {tok : Str} (hne : tok ≠ []) (h : byte ',' ∉ tok) :
    fields ((if out.isEmpty then out else out ++ str ",") ++ tok) = fields out ++ [tok] := by
  split
  · rename_i hempty
    rw [List.isEmpty_iff.mp hempty, List.nil_append, fields_of_notMem hne h]
    rfl
  · rw [fields_sep, fields_of_notMem hne h]

theorem of_mem_fields {text tok : Str} (h : tok ∈ fields text) : tok ≠ [] ∧ byte ',' ∉ tok := by
  obtain ⟨hmem, hne⟩ := List.mem_filter.mp h
  exact ⟨by simpa using hne, notMem_of_mem_splitOn hmem⟩

theorem mem_of_mem_fields {text tok : Str} (h : tok ∈ fields text) {c : UInt8} (hc : c ∈ tok) :
    c ∈ text := by
  have hsplit := List.mem_of_mem_filter h
  clear h
  induction text generalizing tok with
  | nil =>
      obtain rfl : tok = [] := by simpa [splitOn] using hsplit
      exact absurd hc List.not_mem_nil
  | cons d text ih =>
      unfold splitOn at hsplit
      split at hsplit
      · rcases List.mem_cons.mp hsplit with rfl | hsplit
        · exact absurd hc List.not_mem_nil
        · exact List.mem_cons_of_mem d (ih hc hsplit)
      · obtain ⟨f, fs, hfs⟩ := List.exists_cons_of_ne_nil (splitOn_ne_nil (byte ',') text)
        rw [hfs] at hsplit ih
        rcases List.mem_cons.mp hsplit with rfl | hsplit
        · rcases List.mem_cons.mp hc with rfl | hc
          · exact List.mem_cons_self
          · exact List.mem_cons_of_mem d (ih hc List.mem_cons_self)
        · exact List.mem_cons_of_mem d (ih hc (List.mem_cons_of_mem f hsplit))

/-- An entry of that name. -/
def named (name tok : Str) : Bool := (name ++ str "=").isPrefixOf tok

/-- The entries under other names stay, in order. -/
theorem fields_keepTokens {cap : Nat} {name : Str} (toks : List Str) : ∀ {out out' : Str},
    (∀ tok ∈ toks, tok ≠ [] ∧ byte ',' ∉ tok) → keepTokens cap name out toks = some out' →
      fields out' = fields out ++ toks.filter (!named name ·) := by
  induction toks with
  | nil =>
      intro out out' _ h
      obtain rfl := Option.some.inj h
      exact (List.append_nil _).symm
  | cons tok toks ih =>
      intro out out' htoks h
      obtain ⟨⟨hne, hcomma⟩, htoks⟩ := List.forall_mem_cons.mp htoks
      rw [keepTokens] at h
      split at h
      · rename_i hnamed
        rw [List.filter_cons_of_neg (by simpa [named] using hnamed)]
        exact ih htoks h
      · rename_i hnamed
        split at h
        · cases h
        · rw [ih htoks h, fields_snoc out hne hcomma, List.append_assoc, List.singleton_append,
            List.filter_cons_of_pos]
          rw [Bool.not_eq_true']
          exact Bool.eq_false_iff.mpr hnamed

theorem itemIndex_eq_some {name : Str} {net : Bool} {i : Item} (h : itemIndex name net = some i) :
    i ∈ items ∧ i.name = name := by
  obtain ⟨hfind, -⟩ := Option.filter_eq_some_iff.mp h
  exact ⟨List.mem_of_find?_eq_some hfind, by simpa using List.find?_some hfind⟩

/-- No name holds one of the separators. -/
theorem name_plain {i : Item} (h : i ∈ items) :
    byte '=' ∉ i.name ∧ byte ',' ∉ i.name ∧ byte '|' ∉ i.name := by
  revert i
  decide

/-- The item of an entry. -/
theorem named_iff {name nm val tok : Str} {net : Bool} {i j : Item}
    (hi : itemIndex name net = some i)
    (htok : splitOnce (byte '=') tok = some (nm, val)) (hj : itemIndex nm net = some j) :
    named name tok = true ↔ j = i := by
  obtain ⟨hmem, hname⟩ := itemIndex_eq_some hi
  have hplain : byte '=' ∉ name := hname ▸ (name_plain hmem).1
  constructor
  · intro hnamed
    obtain ⟨rest, rfl⟩ := List.isPrefixOf_iff_prefix.mp hnamed
    have happ : name ++ str "=" ++ rest = name ++ byte '=' :: rest := List.append_assoc _ _ _
    rw [happ, splitOnce_append hplain] at htok
    obtain ⟨rfl, -⟩ := Prod.mk.inj (Option.some.inj htok)
    exact Option.some.inj (hj.symm.trans hi)
  · rintro rfl
    obtain rfl : nm = name := (itemIndex_eq_some hj).2.symm.trans hname
    rw [splitOnce_eq_some htok]
    exact List.isPrefixOf_iff_prefix.mpr ⟨val, List.append_assoc _ _ _⟩

/-- Without the entries of an item, a field writes to the others what it did. -/
theorem filterMap_reading {name : Str} {net : Bool} {i : Item} (hi : itemIndex name net = some i)
    (toks : List Str) : (toks.filter (!named name ·)).filterMap (reading net) =
      (toks.filterMap (reading net)).filter fun w => decide (w.1 ≠ i) := by
  rw [List.filter_filterMap, List.filterMap_filter]
  refine List.filterMap_congr fun tok _ => ?_
  unfold reading
  cases htok : splitOnce (byte '=') tok with
  | none => exact ite_self _
  | some w =>
      rw [Option.bind_some]
      cases hj : itemIndex w.1 net with
      | none => exact ite_self _
      | some j =>
          rw [Option.bind_some]
          have hnamed := named_iff hi htok hj
          by_cases hji : j = i
          · rw [if_neg (by simpa using hnamed.mpr hji)]
            cases valueOf j w.2 with
            | none => rfl
            | some v => exact (Option.filter_some_neg (by simpa using hji)).symm
          · rw [if_pos (by simpa using fun h => hji (hnamed.mp h))]
            cases valueOf j w.2 with
            | none => rfl
            | some v => exact (Option.filter_some_pos (by simpa using hji)).symm

theorem any_spoils {name : Str} {net : Bool} {i : Item} (hi : itemIndex name net = some i)
    (toks : List Str) : (toks.filter (!named name ·)).any (spoils net) =
      (toks.any (spoils net) && decide (i ≠ .flood .sendq)) := by
  have hspoils {tok : Str} (h : spoils net tok = true) :
    named name tok = true ↔ Item.flood .sendq = i := by
    unfold spoils at h
    cases htok : splitOnce (byte '=') tok with
    | none =>
        rw [htok] at h
        cases h
    | some w =>
        rw [htok, Option.any_some, Bool.and_eq_true, beq_iff_eq] at h
        exact named_iff hi htok h.1
  induction toks with
  | nil => rfl
  | cons tok toks ih =>
      rw [List.any_cons, Bool.and_or_distrib_right, ← ih]
      by_cases hbad : spoils net tok = true
      · have hnamed := hspoils hbad
        by_cases hsendq : Item.flood .sendq = i
        · rw [List.filter_cons_of_neg (by simpa using hnamed.mpr hsendq), hbad, ← hsendq]
          rfl
        · have hother : named name tok = false :=
            Bool.eq_false_iff.mpr fun h => hsendq (hnamed.mp h)
          have hne : decide (i ≠ .flood .sendq) = true := decide_eq_true fun h => hsendq h.symm
          rw [List.filter_cons_of_pos (by rw [hother]; rfl), List.any_cons, hne, Bool.and_true]
      · have hfine : spoils net tok = false := Bool.eq_false_iff.mpr hbad
        rw [hfine, Bool.false_and, Bool.false_or, List.filter_cons]
        split
        · rw [List.any_cons, hfine, Bool.false_or]
        · rfl

theorem notMem_dec_of_nonneg {v : Int} (h : 0 ≤ v) {c : UInt8}
    (hc : isDigit c = false) : c ∉ dec v := by
  rw [dec, if_neg (Int.not_lt.mpr h)]
  intro hmem
  rw [isDigit_of_mem_decNat hmem] at hc
  cases hc

/-- A number that was read is read back. -/
theorem parseLl_dec_of_parse {s : Str} {v : Int} (h : parseLl s = some v) :
    parseLl (dec v) = some v ∧ ∀ c, isDigit c = false → c ∉ dec v := by
  obtain ⟨hpos, hle⟩ := parseLl_bounds h
  exact ⟨by rw [parseLl_dec hpos, if_pos hle], fun c hc => notMem_dec_of_nonneg hpos hc⟩

theorem offOk_iff (kind : FloodKind) : (flBounds kind).2.2 = true ↔ kind ≠ .sendq := by
  cases kind <;> decide

/-- Limits that were read are read back. -/
theorem limitsOf_eq_some {kind : FloodKind} {text : Str} {sp : FloodSpec}
    (h : limitsOf kind text = some sp) : ∃ n s, sp = .limit n s ∧
      limitsOf kind (dec n ++ str ":" ++ dec s) = some sp ∧
      ∀ c, isDigit c = false → c ≠ byte ':' → c ∉ dec n ++ str ":" ++ dec s := by
  obtain ⟨w, -, h⟩ := Option.bind_eq_some_iff.mp h
  obtain ⟨n, hn, h⟩ := Option.bind_eq_some_iff.mp h
  obtain ⟨s, hs, h⟩ := Option.bind_eq_some_iff.mp h
  split at h
  · rename_i hrange
    obtain rfl := Option.some.inj h
    obtain ⟨hn, hnplain⟩ := parseLl_dec_of_parse hn
    obtain ⟨hs, hsplain⟩ := parseLl_dec_of_parse hs
    refine ⟨n, s, rfl, ?_, fun c hc hcolon hmem => ?_⟩
    · have happ : dec n ++ str ":" ++ dec s = dec n ++ byte ':' :: dec s := List.append_assoc _ _ _
      rw [limitsOf, happ, splitOnce_append (hnplain _ (by decide)), Option.bind_some, hn,
        Option.bind_some, hs, Option.bind_some, if_pos hrange]
    · rcases List.mem_append.mp hmem with hmem | hmem
      · rcases List.mem_append.mp hmem with hmem | hmem
        · exact hnplain c hc hmem
        · exact hcolon (by simpa [str] using hmem)
      · exact hsplain c hc hmem
  · cases h

/-- A value that is put into a field, for one that was given. -/
theorem newValue_ok {i : Item} {name value nv : Str} (h : newValue i name value = .ok nv) :
    (∃ v, valueOf i value = some v ∧ valueOf i nv = some v) ∧ byte ',' ∉ nv ∧ byte '|' ∉ nv := by
  unfold newValue at h
  cases i with
  | set id =>
      dsimp only at h
      split at h
      · rename_i v hv
        obtain rfl := Except.ok.inj h
        obtain ⟨hparse, hrange⟩ := Option.filter_eq_some_iff.mp hv
        obtain ⟨hback, hplain⟩ := parseLl_dec_of_parse hparse
        refine ⟨⟨.number v, ?_, ?_⟩, hplain _ (by decide), hplain _ (by decide)⟩
        · rw [valueOf, hv]
          rfl
        · rw [valueOf, hback, Option.filter_some, if_pos hrange]
          rfl
      · cases h
  | flood kind =>
      dsimp only at h
      split at h
      · rename_i hoff
        obtain rfl := Except.ok.inj h
        have htext : ((flBounds kind).2.2 && str "off" == str "off") = true := by
          rw [beq_self_eq_true, Bool.and_true]
          exact (offOk_iff kind).mpr hoff.1
        refine ⟨⟨.flood .off, ?_, ?_⟩, by decide, by decide⟩
        · rw [valueOf, hoff.2, if_pos htext]
          rfl
        · rw [valueOf, if_pos htext]
          rfl
      · rename_i hoff
        have hnooff : ¬ ((flBounds kind).2.2 && value == str "off") = true := by
          rw [Bool.and_eq_true, offOk_iff, beq_iff_eq]
          exact hoff
        split at h
        · rename_i n sec hspec
          obtain rfl := Except.ok.inj h
          have hlimits : limitsOf kind value = some (.limit n sec) := by
            obtain ⟨w, hw, hspec⟩ := Option.bind_eq_some_iff.mp hspec
            obtain ⟨n', hn, hspec⟩ := Option.bind_eq_some_iff.mp hspec
            obtain ⟨sec', hsec, hspec⟩ := Option.bind_eq_some_iff.mp hspec
            split at hspec
            · rename_i hrange
              obtain ⟨rfl, rfl⟩ := Prod.mk.inj (Option.some.inj hspec)
              rw [limitsOf, hw, Option.bind_some, hn, Option.bind_some, hsec, Option.bind_some,
                if_pos hrange]
            · cases hspec
          obtain ⟨n', s', heq, hback, hplain⟩ := limitsOf_eq_some hlimits
          obtain ⟨rfl, rfl⟩ := FloodSpec.limit.inj heq
          refine ⟨⟨.flood (.limit n sec), ?_, ?_⟩, hplain _ (by decide) (by decide),
            hplain _ (by decide) (by decide)⟩
          · rw [valueOf, if_neg hnooff, hlimits]
            rfl
          · have htext : ¬ ((flBounds kind).2.2 && dec n ++ str ":" ++ dec sec == str "off") = true := by
              rw [Bool.and_eq_true, beq_iff_eq]
              rintro ⟨-, htext⟩
              refine hplain (byte 'o') (by decide) (by decide) ?_
              rw [htext]
              decide
            rw [valueOf, if_neg htext, hback]
            rfl
        · split at h <;> cases h

/-- What a name and a value ask for. -/
def readEdit (net : Bool) (name value : Str) : Option (Item × Option Setting) :=
  (itemIndex name net).bind fun i =>
    if value == str "default" then some (i, none) else (valueOf i value).map fun v => (i, some v)

/-- What an edit of a field does. -/
structure Edited (net : Bool) (e : Item × Option Setting) (text text' : Str) : Prop where
  writes : writes net text' = edit (writes net text) e
  spoilt : spoilt net text' = (spoilt net text && decide (e.1 ≠ .flood .sendq))
  length : text'.length ≤ cSettingsMax
  plain : byte '|' ∉ text → byte '|' ∉ text'

theorem not_mem_keepTokens {cap : Nat} {name : Str} (toks : List Str) : ∀ {out out' : Str},
    byte '|' ∉ out → (∀ tok ∈ toks, byte '|' ∉ tok) → keepTokens cap name out toks = some out' →
      byte '|' ∉ out' := by
  induction toks with
  | nil =>
      intro out out' hout _ h
      exact Option.some.inj h ▸ hout
  | cons tok toks ih =>
      intro out out' hout htoks h
      obtain ⟨htok, htoks⟩ := List.forall_mem_cons.mp htoks
      rw [keepTokens] at h
      split at h
      · exact ih hout htoks h
      · split at h
        · cases h
        · refine ih (fun hmem => ?_) htoks h
          rcases List.mem_append.mp hmem with hmem | hmem
          · split at hmem
            · exact hout hmem
            · rcases List.mem_append.mp hmem with hmem | hmem
              · exact hout hmem
              · exact absurd hmem (by decide)
          · exact htok hmem

/-- What a name and a value put into a field. -/
def written (name nv : Str) : Str := name ++ str "=" ++ nv

theorem splitOnce_written {name : Str} (h : byte '=' ∉ name) (nv : Str) :
    splitOnce (byte '=') (written name nv) = some (name, nv) := by
  have happ : written name nv = name ++ byte '=' :: nv := List.append_assoc _ _ _
  rw [happ, splitOnce_append h]

/-- The field after an edit: the entries under other names as they were, and the new one last. -/
structure Rewritten (i : Item) (name value text text' : Str) : Prop where
  item : i.name = name
  length : text'.length ≤ cSettingsMax
  plain : byte '|' ∉ text → byte '|' ∉ text'
  entries : value = str "default" ∧ fields text' = (fields text).filter (!named name ·) ∨
    value ≠ str "default" ∧ ∃ nv v, valueOf i value = some v ∧ valueOf i nv = some v ∧
      fields text' = (fields text).filter (!named name ·) ++ [written name nv]

/-- **What `settings_edit` leaves in the field.** -/
theorem settingsEdit_ok {text text' name value : Str} {cap : Nat} {net : Bool}
    (h : settingsEdit text cap net name value = .ok text') :
    ∃ i, itemIndex name net = some i ∧ Rewritten i name value text text' := by
  unfold settingsEdit at h
  dsimp only at h
  split at h
  · cases h
  · rename_i i hi
    obtain ⟨hmem, hname⟩ := itemIndex_eq_some hi
    obtain ⟨-, hcomma, hpipe⟩ := name_plain hmem
    rw [hname] at hcomma hpipe
    split at h
    · cases h
    · rename_i nv hnv
      split at h
      · cases h
      · rename_i out hkeep
        have hfields : fields out = (fields text).filter (!named name ·) :=
          fields_keepTokens _ (fun tok => of_mem_fields) hkeep
        have hplain : byte '|' ∉ text → byte '|' ∉ out := fun htext =>
          not_mem_keepTokens _ List.not_mem_nil
            (fun tok htok => fun hmem => htext (mem_of_mem_fields htok hmem)) hkeep
        have hstore {add full : Str} {long : Bool}
            (h : (if long = true then .error full
              else if (decide (cap ≤ (out ++ add).length) ||
                decide ((if net = true then dSettingsMax else cSettingsMax) < (out ++ add).length)) = true
              then .error full else .ok (out ++ add)) = Except.ok text') :
            text' = out ++ add ∧ text'.length ≤ cSettingsMax := by
          have hmax : (if net = true then dSettingsMax else cSettingsMax) = cSettingsMax := ite_self _
          rw [hmax] at h
          split at h
          · cases h
          · split at h
            · cases h
            · rename_i hlen
              rw [Bool.or_eq_true, not_or, decide_eq_true_eq, decide_eq_true_eq, Nat.not_lt] at hlen
              exact ⟨(Except.ok.inj h).symm, (Except.ok.inj h) ▸ hlen.2⟩
        refine ⟨i, hi, ?_⟩
        cases hdrop : value == str "default" with
        | true =>
            rw [hdrop] at h
            obtain ⟨rfl, hlength⟩ := hstore h
            rw [if_pos rfl, List.append_nil] at hlength ⊢
            exact ⟨hname, hlength, hplain, .inl ⟨eq_of_beq hdrop, hfields⟩⟩
        | false =>
            rw [hdrop] at h hnv
            obtain ⟨rfl, hlength⟩ := hstore h
            rw [if_neg Bool.false_ne_true] at hlength hnv ⊢
            obtain ⟨⟨v, hvalue, hback⟩, hnvcomma, hnvpipe⟩ := newValue_ok hnv
            have htokcomma : byte ',' ∉ written name nv := fun hmem => by
              rcases List.mem_append.mp hmem with hmem | hmem
              · rcases List.mem_append.mp hmem with hmem | hmem
                · exact hcomma hmem
                · exact absurd hmem (by decide)
              · exact hnvcomma hmem
            have hnew : fields (out ++ ((if out.isEmpty then [] else str ",") ++ name ++ str "=" ++ nv)) =
                fields out ++ [written name nv] := by
              rw [← fields_snoc out (by simp [written, str]) htokcomma]
              congr 1
              split
              · simp only [written, List.nil_append]
              · simp only [written, List.append_assoc]
            refine ⟨hname, hlength, fun htext hmem => ?_, .inr ⟨ne_of_beq_false hdrop, nv, v, hvalue, hback, ?_⟩⟩
            · rcases List.mem_append.mp hmem with hmem | hmem
              · exact hplain htext hmem
              · rcases List.mem_append.mp hmem with hmem | hmem
                · rcases List.mem_append.mp hmem with hmem | hmem
                  · rcases List.mem_append.mp hmem with hmem | hmem
                    · split at hmem
                      · exact List.not_mem_nil hmem
                      · exact absurd hmem (by decide)
                    · exact hpipe hmem
                  · exact absurd hmem (by decide)
                · exact hnvpipe hmem
            · rw [hnew, hfields]

/-- **`settings_edit` replaces the writes to one item.** -/
theorem edited_settingsEdit {text text' name value : Str} {cap : Nat} {net : Bool}
    (h : settingsEdit text cap net name value = .ok text') :
    ∃ e, readEdit net name value = some e ∧ Edited net e text text' := by
  obtain ⟨i, hi, hnew⟩ := settingsEdit_ok h
  have hequals : byte '=' ∉ name := hnew.item ▸ (name_plain (itemIndex_eq_some hi).1).1
  have hkept : ((fields text).filter (!named name ·)).filterMap (reading net) =
      (writes net text).filter fun w => decide (w.1 ≠ i) := by
    rw [writes_eq, filterMap_reading hi]
  have hspoilt : ((fields text).filter (!named name ·)).any (spoils net) =
      (spoilt net text && decide (i ≠ .flood .sendq)) := by
    rw [spoilt_eq, any_spoils hi]
  rcases hnew.entries with ⟨hdrop, hfields⟩ | ⟨hset, nv, v, hvalue, hback, hfields⟩
  · refine ⟨(i, none), ?_, ?_, ?_, hnew.length, hnew.plain⟩
    · rw [readEdit, hi, Option.bind_some, if_pos (beq_iff_eq.mpr hdrop)]
    · rw [writes_eq net text', hfields, hkept, edit]
      exact (List.append_nil _).symm
    · rw [spoilt_eq net text', hfields, hspoilt]
  · have htoken : reading net (written name nv) = some (i, v) := by
      rw [reading, splitOnce_written hequals, Option.bind_some, hi, Option.bind_some, hback]
      rfl
    have hfine : spoils net (written name nv) = false := by
      rw [spoils, splitOnce_written hequals, Option.any_some, hi]
      by_cases hsendq : i = .flood .sendq
      · subst hsendq
        rw [hback]
        exact Bool.and_false _
      · rw [beq_false_of_ne fun h => hsendq (Option.some.inj h), Bool.false_and]
    refine ⟨(i, some v), ?_, ?_, ?_, hnew.length, hnew.plain⟩
    · rw [readEdit, hi, Option.bind_some, if_neg (by simpa using hset), hvalue]
      rfl
    · rw [writes_eq net text', hfields, List.filterMap_append, hkept, List.filterMap_cons, htoken]
      rfl
    · rw [spoilt_eq net text', hfields, List.any_append, hspoilt, List.any_cons, hfine]
      exact Bool.or_false _

/-! ### The parser's reading of an edited field -/

/-- `settings_edit` on the caller's field, which is assigned on the way out with `Ok` alone. -/
def settingsEditAt (settings : Str) (cap : Nat) (net : Bool) (name value : Str) :
    Except Str Unit × Str :=
  match settingsEdit settings cap net name value with
  | .error why => (.error why, settings)
  | .ok out => (.ok (), out)

/-- A field edited at one item, as the parser reads it and entry by entry. -/
structure EditRead (net : Bool) (i : Item) (name value text text' : Str) : Prop where
  length : text'.length ≤ 512
  readable : value ≠ str "default" → (valueOf i value).isSome = true
  item : entry (parseSettings text' net) i = if value = str "default" then none else valueOf i value
  dropped : value = str "default" → ∀ tok ∈ splitOn (byte ',') text', named name tok = false
  others : ∀ j, j ≠ i → entry (parseSettings text' net) j = entry (parseSettings text net) j
  badSendq : (parseSettings text' net).badSendq =
    ((parseSettings text net).badSendq && decide (i ≠ .flood .sendq))
  kept : (fields text').filter (!named name ·) = (fields text).filter (!named name ·)

theorem named_written (name nv : Str) : named name (written name nv) = true :=
  List.isPrefixOf_iff_prefix.mpr (List.prefix_append _ nv)

theorem Rewritten.kept {i : Item} {name value text text' : Str}
    (h : Rewritten i name value text text') :
    (fields text').filter (!named name ·) = (fields text).filter (!named name ·) := by
  rcases h.entries with ⟨-, hfields⟩ | ⟨-, nv, v, -, -, hfields⟩
  · rw [hfields, List.filter_filter]
    exact List.filter_congr fun tok _ => Bool.and_self _
  · have hnew : ([written name nv]).filter (!named name ·) = [] := by
      rw [List.filter_cons_of_neg (by simp [named_written]), List.filter_nil]
    rw [hfields, List.filter_append, hnew, List.append_nil, List.filter_filter]
    exact List.filter_congr fun tok _ => Bool.and_self _

theorem Rewritten.dropped {i : Item} {name value text text' : Str}
    (h : Rewritten i name value text text')
    (hdrop : value = str "default") : ∀ tok ∈ splitOn (byte ',') text', named name tok = false := by
  intro tok htok
  rcases h.entries with ⟨-, hfields⟩ | ⟨hset, -⟩
  · by_cases hempty : tok = []
    · -- an empty entry names nothing
      subst hempty
      simp [named, str]
    · have hmem : tok ∈ fields text' := List.mem_filter.mpr ⟨htok, by simp [hempty]⟩
      rw [hfields] at hmem
      simpa using (List.mem_filter.mp hmem).2
  · exact absurd hdrop hset

/-- **The law of `settings_edit`.** An error leaves the field alone. Otherwise the parser reads the
new value for the item named, or none after `default`, and for every other item what it read before;
the entries of other names stand as they did. -/
theorem settingsEdit_law {text : Str} (h : text.length ≤ 512) (cap : Nat) (net : Bool)
    (name value : Str) :
    match settingsEditAt text cap net name value with
    | (.error _, text') => text' = text
    | (.ok _, text') => ∃ i, itemIndex name net = some i ∧
      EditRead net i name value text text' := by
  rw [settingsEditAt]
  cases hedit : settingsEdit text cap net name value with
  | error why => rfl
  | ok text' =>
      obtain ⟨i, hi, hnew⟩ := settingsEdit_ok hedit
      obtain ⟨e, he, hedited⟩ := edited_settingsEdit hedit
      rw [readEdit, hi, Option.bind_some] at he
      have hentry (j : Item) : entry (parseSettings text' net) j =
        lastWrite j (edit (writes net text) e) := by
        rw [entry_parseSettings hnew.length, hedited.writes]
      have hitem : e.1 = i ∧ e.2 = (if value = str "default" then none else valueOf i value) ∧
          (value ≠ str "default" → (valueOf i value).isSome = true) := by
        by_cases hdrop : value = str "default"
        · rw [if_pos (beq_iff_eq.mpr hdrop)] at he
          obtain rfl := Option.some.inj he
          exact ⟨rfl, (if_pos hdrop).symm, fun hset => absurd hdrop hset⟩
        · rw [if_neg (by simpa using hdrop)] at he
          obtain ⟨v, hv, rfl⟩ := Option.map_eq_some_iff.mp he
          exact ⟨rfl, by rw [if_neg hdrop, hv], fun _ => by rw [hv, Option.isSome_some]⟩
      obtain ⟨rfl, hvalue, hreadable⟩ := hitem
      refine ⟨e.1, hi, hnew.length, hreadable, ?_, hnew.dropped, fun j hj => ?_, ?_, hnew.kept⟩
      · rw [hentry, lastWrite_edit_self, hvalue]
      · rw [hentry, lastWrite_edit_of_ne hj, entry_parseSettings h]
      · rw [badSendq_parseSettings hnew.length, hedited.spoilt, badSendq_parseSettings h]

/-- An entry from a later version outlives an edit of the duplicate `bantime`. -/
theorem settingsEdit_law_unknown :
    settingsEditAt (str "bantime=1,,hue=7,bantime=2") 513 false (str "bantime") (str "90") =
      (.ok (), str "hue=7,bantime=90") ∧
    EditRead false (.set .banTime) (str "bantime") (str "90") (str "bantime=1,,hue=7,bantime=2")
      (str "hue=7,bantime=90") := by
  have hedit : settingsEditAt (str "bantime=1,,hue=7,bantime=2") 513 false (str "bantime") (str "90") =
      (.ok (), str "hue=7,bantime=90") := by decide
  have hlen : (str "bantime=1,,hue=7,bantime=2").length ≤ 512 := by decide
  have hlaw := settingsEdit_law hlen 513 false (str "bantime") (str "90")
  rw [hedit] at hlaw
  obtain ⟨i, hi, hread⟩ := hlaw
  obtain rfl : i = .set .banTime := Option.some.inj (hi.symm.trans (by decide))
  exact ⟨hedit, hread⟩

/-! ### The edits of a command -/

/-- What the words of a command ask for, in order. -/
def asked (net : Bool) : Nat → List Str → List (Item × Option Setting)
  | 0, _ => []
  | _ + 1, [] => []
  | fuel + 1, tk :: rest =>
      (nextEdit net tk rest).toOption.elim [] fun w =>
        (readEdit net w.1 w.2.1).toList ++ asked net fuel w.2.2

/-- What several edits of a field do. -/
structure Edits (net : Bool) (es : List (Item × Option Setting)) (text text' : Str) : Prop where
  writes : writes net text' = es.foldl edit (writes net text)
  spoilt : spoilt net text' = (spoilt net text && es.all fun e => decide (e.1 ≠ .flood .sendq))
  length : text.length ≤ cSettingsMax → text'.length ≤ cSettingsMax
  plain : byte '|' ∉ text → byte '|' ∉ text'

theorem Edits.refl (net : Bool) (text : Str) : Edits net [] text text :=
  ⟨rfl, (Bool.and_true _).symm, id, id⟩

theorem Edited.edits {net : Bool} {e : Item × Option Setting} {es : List (Item × Option Setting)}
    {text text' text'' : Str} (h : Edited net e text text') (hrest : Edits net es text' text'') :
    Edits net (e :: es) text text'' where
  writes := by rw [hrest.writes, h.writes, List.foldl_cons]
  spoilt := by rw [hrest.spoilt, h.spoilt, List.all_cons, Bool.and_assoc]
  length _ := hrest.length h.length
  plain htext := hrest.plain (h.plain htext)

/-- **The loop makes the edits that the words ask for.** -/
theorem edits_editLoop {net : Bool} (fuel : Nat) :
    ∀ {text text' : Str} {n n' : Nat} {words : List Str},
    editLoop net fuel text n words = .ok (text', n') →
      Edits net (asked net fuel words) text text' := by
  induction fuel with
  | zero =>
      intro text text' n n' words h
      cases words with
      | nil =>
          obtain ⟨rfl, -⟩ := Prod.mk.inj (Except.ok.inj h)
          exact .refl net text
      | cons tk rest =>
          obtain ⟨rfl, -⟩ := Prod.mk.inj (Except.ok.inj h)
          exact .refl net text
  | succ fuel ih =>
      intro text text' n n' words h
      cases words with
      | nil =>
          obtain ⟨rfl, -⟩ := Prod.mk.inj (Except.ok.inj h)
          exact .refl net text
      | cons tk rest =>
          rw [editLoop] at h
          split at h
          · cases h
          · rename_i item val rest' hnext
            split at h
            · cases h
            · rename_i mid hedit
              obtain ⟨e, hread, hedited⟩ := edited_settingsEdit hedit
              rw [asked, hnext]
              change Edits net ((readEdit net item val).toList ++ asked net fuel rest') text text'
              rw [hread]
              exact hedited.edits (ih h)

/-! ### What sending and saving leave alone -/

theorem say_eq (b : BotState) (nick text : Str) :
    say b nick text = { b with ircOut := (say b nick text).ircOut } := by
  unfold say ircPrintf
  split <;> rfl

/-- The flags of a change of the settings. -/
def dirty (c : Chan) : Chan := { c with enfDirty := true, enfOpsCheck := true }

theorem localCommit_eq (b : BotState) (line : Str) :
    localCommit b line = { b with
      link := (localCommit b line).link, hubOut := (localCommit b line).hubOut
      configDirty := true, chans := b.chans.map dirty } := by
  unfold localCommit
  dsimp only
  split
  · rfl
  · have hpush : SameButLink b (pushLines b line).2 := by
      unfold pushLines
      split
      · exact .refl b
      · exact sameButLink_sendFrame b _ line
    rw [hpush.eq]
    rfl

/-! ### Storing the records -/

/-- A line that is applied is well-formed. -/
theorem readCLine_of_applied {b : BotState} {data : Str} (h : (applyCLine b data).1 = true) :
    ∃ r, readCLine data = some r := by
  have hread : ¬ cLineMax < data.length ∧ ∃ name modes settings op stamp tail isAdd ts,
      splitPipes 6 data = name :: modes :: settings :: op :: stamp :: tail ∧
      addOp op = some isAdd ∧ parseLl stamp = some ts ∧
      ¬ (!validChanName name || !validModesField modes || decide (cSettingsMax < settings.length) ||
        !plainText settings || decide (ts ≤ 0)) = true := by
    unfold applyCLine at h
    split at h
    · cases h
    · rename_i hlen
      split at h
      · split at h
        · split at h
          · cases h
          · exact ⟨hlen, _, _, _, _, _, _, _, _, ‹_›, ‹_›, ‹_›, ‹_›⟩
        · cases h
      · cases h
  obtain ⟨hlen, name, modes, settings, op, stamp, tail, isAdd, ts, hsplit, hop,
    hstamp, hvalid⟩ := hread
  exact ⟨⟨name, modes, settings, isAdd, ts⟩, by
    rw [readCLine, if_neg hlen, hsplit]
    dsimp only
    rw [hop, hstamp]
    dsimp only
    rw [if_neg hvalid]⟩

theorem modify_concat {α : Type} (f : α → α) (xs : List α) (x : α) :
    (xs ++ [x]).modify xs.length f = xs ++ [f x] := by
  induction xs with
  | nil => rfl
  | cons y ys ih => rw [List.cons_append, List.length_cons, List.modify_succ_cons, ih,
      List.cons_append]

/-- The channel that a record opens. -/
def opened (name : Str) : Chan := { name, status := .out, isManaged := false, timestamp := 0 }

theorem validChanName_plain {name : Str} (h : validChanName name = true) :
    name.length < maxChan ∧ byte '|' ∉ name := by
  simp only [validChanName, Bool.and_eq_true, List.all_eq_true, decide_eq_true_eq] at h
  exact ⟨h.1.1.2, fun hmem => (h.2 _ hmem).2 rfl⟩

/-- A record that is stored goes to the channel of its name, or to a new one. -/
theorem storeC_cases {b b' : BotState} {r : CRecord} (hlen : r.chan.length < maxChan)
    (h : storeC b r = (true, b')) : ∃ k base, b' = { b with
        chans := base.modify k r.store, cfgGen := b.cfgGen + 1 } ∧
      (find b r.chan = some k ∧ base = b.chans ∨
        find b r.chan = none ∧ k = b.chans.length ∧ base = b.chans ++ [opened r.chan]) := by
  unfold storeC at h
  split at h
  · cases h
  · rename_i k b₁ hchan
    split at h
    · cases h
    · split at h
      · cases h
      · obtain rfl := (Prod.mk.inj h).2
        unfold chanForSettings at hchan
        split at hchan
        · rename_i hfind
          obtain ⟨rfl, rfl⟩ := Prod.mk.inj (Option.some.inj hchan)
          exact ⟨_, _, rfl, .inl ⟨hfind, rfl⟩⟩
        · rename_i hfind
          split at hchan
          · cases hchan
          · rw [add, hfind] at hchan
            obtain ⟨rfl, rfl⟩ := Prod.mk.inj (Option.some.inj hchan)
            refine ⟨_, _, rfl, .inr ⟨hfind, rfl, ?_⟩⟩
            change List.modify (b.chans ++ [_]) b.chans.length _ = _
            rw [modify_concat, trunc_of_lt hlen]
            rfl

/-- What `local_c` writes for a channel. -/
def cData (b : BotState) (c : Chan) (modes settings : Str) : Str :=
  c.name ++ str "|" ++ modes ++ str "|" ++ settings ++ str "|add|" ++ dec (lwwNextTs b.now c.cfgTs)

theorem localC_eq {b : BotState} {ci : Nat} {c : Chan} {modes settings : Str}
    (hc : b.chans[ci]? = some c) (h : (localC b ci modes settings).1 = true) :
    ∃ b₁ line, applyCLine b (cData b c modes settings) = (true, b₁) ∧
      (localC b ci modes settings).2 = localCommit b₁ line := by
  unfold localC at h ⊢
  rw [hc] at h ⊢
  dsimp only at h ⊢
  split at h
  · cases h
  · rename_i hlen
    rw [if_neg hlen]
    split at h
    · cases h
    · rename_i b₁ happly
      exact ⟨b₁, _, happly, rfl⟩

/-- The channel with a record of its own. -/
def recorded (modes settings : Str) (ts : Int) (c : Chan) : Chan :=
  { c with
    cfgModes := modes, cfgSettings := settings, cfgSet := parseSettings settings false, cfgTs := ts
    cfgActive := true }

theorem pipe_notMem_dec (v : Int) : byte '|' ∉ dec v := notMem_dec (by decide) (by decide)

/-- A record that `local_c` stores is that of its channel. -/
theorem localC_stored {b : BotState} {ci : Nat} {c : Chan} {modes settings : Str}
    (hc : b.chans[ci]? = some c) (hfind : find b c.name = some ci) (hname : byte '|' ∉ c.name)
    (hmodes : byte '|' ∉ modes) (hsettings : byte '|' ∉ settings)
    (h : (localC b ci modes settings).1 = true) : ∃ ts, 0 < ts ∧
      (localC b ci modes settings).2.chans =
      (b.chans.modify ci (recorded modes settings ts)).map dirty ∧
      netDefaults (localC b ci modes settings).2 = netDefaults b := by
  obtain ⟨b₁, line, happly, hcommit⟩ := localC_eq hc h
  obtain ⟨r, hread⟩ := readCLine_of_applied (congrArg Prod.fst happly)
  obtain ⟨hstore, hvalid, hpos⟩ := applyCLine_of_read (b := b) hread
  have hr : r = ⟨c.name, modes, settings, true, r.ts⟩ := by
    have hdata : cData b c modes settings = c.name ++ byte '|' :: (modes ++ byte '|' :: (settings ++
        byte '|' :: (str "add" ++ byte '|' :: dec (lwwNextTs b.now c.cfgTs)))) := by
      simp only [cData, str, List.append_assoc]
      rfl
    rw [readCLine, hdata] at hread
    split at hread
    · cases hread
    · rw [splitPipes_append hname, splitPipes_append hmodes, splitPipes_append hsettings,
        splitPipes_append (by decide), splitPipes_of_notMem (pipe_notMem_dec _)] at hread
      dsimp only at hread
      split at hread
      · rename_i isAdd ts hop _
        split at hread
        · cases hread
        · obtain rfl : true = isAdd := Option.some.inj hop
          rw [← Option.some.inj hread]
      · cases hread
  obtain ⟨k, base, hb₁, hbase⟩ := storeC_cases (validChanName_plain hvalid).1
    (hstore.symm.trans happly)
  have hchan : find b r.chan = some ci := by
    rw [hr]
    exact hfind
  rcases hbase with ⟨hk, rfl⟩ | ⟨hnone, -, -⟩
  · obtain rfl := Option.some.inj (hchan.symm.trans hk)
    refine ⟨r.ts, hpos, ?_, ?_⟩
    · rw [hcommit, localCommit_eq, hb₁, hr]
      rfl
    · rw [hcommit, localCommit_eq, hb₁]
      rfl
  · rw [hchan] at hnone
    cases hnone

theorem eq_pipe_of_lower {x : UInt8} (h : lower x = byte '|') : x = byte '|' :=
  eq_of_lower (by decide) h

/-- A record is stored at the channel `k` that it names, known or new, and nothing else is. -/
structure StoredAt (b b' : BotState) (k : Nat) (r : CRecord) : Prop where
  named : byName b r.chan = b.chans[k]?
  stored : ∃ c, b'.chans[k]? = some (dirty (r.store c))
  kept : ∀ j, j ≠ k → b'.chans[j]? = (b.chans[j]?).map dirty
  net : netDefaults b' = netDefaults b

/-- Where the name of a channel has a separator in it, what is stored is no record of it. -/
theorem localC_elsewhere {b : BotState} {ci : Nat} {c : Chan} {modes settings : Str}
    (hc : b.chans[ci]? = some c) (hname : byte '|' ∈ c.name)
    (h : (localC b ci modes settings).1 = true) :
    ∃ r k, readCLine (cData b c modes settings) = some r ∧ k ≠ ci ∧
      StoredAt b (localC b ci modes settings).2 k r := by
  obtain ⟨b₁, line, happly, hcommit⟩ := localC_eq hc h
  obtain ⟨r, hread⟩ := readCLine_of_applied (congrArg Prod.fst happly)
  obtain ⟨hstore, hvalid, hpos⟩ := applyCLine_of_read (b := b) hread
  obtain ⟨k, base, hb₁, hbase⟩ := storeC_cases (validChanName_plain hvalid).1
    (hstore.symm.trans happly)
  have hplain := (validChanName_plain hvalid).2
  have hchans : (localC b ci modes settings).2.chans = (base.modify k r.store).map dirty := by
    rw [hcommit, localCommit_eq, hb₁]
  have hnet : netDefaults (localC b ci modes settings).2 = netDefaults b := by
    rw [hcommit, localCommit_eq, hb₁]
    rfl
  have hstored {c' : Chan} (hc' : base[k]? = some c') :
      (localC b ci modes settings).2.chans[k]? = some (dirty (r.store c')) := by
    rw [hchans, List.getElem?_map, List.getElem?_modify_eq, hc']
    rfl
  have hkept {j : Nat} (hj : j ≠ k) :
    (localC b ci modes settings).2.chans[j]? = (base[j]?).map dirty := by
    rw [hchans, List.getElem?_map, List.getElem?_modify_ne _ _ (Ne.symm hj)]
  refine ⟨r, k, hread, ?_⟩
  rcases hbase with ⟨hk, rfl⟩ | ⟨hnone, rfl, rfl⟩
  · obtain ⟨c', hc', heq⟩ := find_eq_some hk
    refine ⟨?_, by rw [byName, hk, Option.bind_some], ⟨c', hstored hc'⟩, fun j => hkept, hnet⟩
    rintro rfl
    obtain rfl := Option.some.inj (hc.symm.trans hc')
    rw [eqIc_iff] at heq
    have hmem : lower (byte '|') ∈ r.chan.map lower := heq ▸ List.mem_map_of_mem hname
    obtain ⟨x, hx, hlower⟩ := List.mem_map.mp hmem
    exact hplain (eq_pipe_of_lower hlower ▸ hx)
  · refine ⟨Nat.ne_of_gt (List.getElem?_eq_some_iff.mp hc).1, ?_,
      ⟨_, hstored List.getElem?_concat_length⟩, fun j hj => ?_, hnet⟩
    · rw [byName, hnone, Option.bind_none, List.getElem?_eq_none le_rfl]
    · rw [hkept hj]
      rcases Nat.lt_or_gt_of_ne hj with hlt | hgt
      · rw [List.getElem?_append_left hlt]
      · rw [List.getElem?_eq_none (Nat.le_of_lt hgt), List.getElem?_eq_none]
        simpa using hgt

/-- What `apply_d_line` reads: a value for the send queue that reads as nothing leaves the one in
force. -/
def netSetOf (b : BotState) (settings : Str) : ChanSettings :=
  let set := parseSettings settings true
  if set.badSendq then
    { set with fl := fun k => if k = .sendq then b.netSet.fl .sendq else set.fl k }
  else set

/-- A line that is applied gives the network's record. -/
theorem applyDLine_stored {b : BotState} {data : Str} (h : (applyDLine b data).1 = true) :
    ∃ modes settings stamp ts, splitPipes 3 data = [modes, settings, stamp] ∧
      validModesField modes = true ∧ settings.length ≤ dSettingsMax ∧ plainText settings = true ∧
      0 < ts ∧ (applyDLine b data).2 = { (applyDLine b data).2 with
        chans := b.chans, netModes := modes, netSettings := settings
        netSet := netSetOf b settings, netTs := ts } := by
  unfold applyDLine at h ⊢
  split at h
  · cases h
  · rename_i hlen
    rw [if_neg hlen]
    split at h
    · rename_i modes settings stamp hsplit
      split at h
      · cases h
      · rename_i ts hts
        split at h
        · cases h
        · rename_i hvalid
          split at h
          · cases h
          · rename_i hnew
            split at h
            · cases h
            · rename_i htie
              refine ⟨modes, settings, stamp, ts, hsplit, ?_⟩
              rw [if_neg hvalid, if_neg hnew, if_neg htie]
              simp only [Bool.or_eq_true, Bool.not_eq_true', decide_eq_true_eq, not_or,
                Bool.not_eq_false, not_le, not_lt] at hvalid
              obtain ⟨⟨⟨hmodes, hlen⟩, hplain⟩, hpos⟩ := hvalid
              refine ⟨hmodes, hlen, hplain, hpos, ?_⟩
              unfold netSetOf setLimits
              dsimp only
              split <;> rfl
    · cases h

/-- The network's record that `local_d` stores. -/
theorem localD_stored {b : BotState} {modes settings : Str} (hmodes : byte '|' ∉ modes)
    (hsettings : byte '|' ∉ settings) (h : (localD b modes settings).1 = true) :
      (localD b modes settings).2.chans = b.chans.map dirty ∧
      netDefaults (localD b modes settings).2 = some (netSetOf b settings) := by
  unfold localD at h ⊢
  dsimp only at h ⊢
  split at h
  · cases h
  · rename_i hlen
    rw [if_neg hlen]
    split at h
    · cases h
    · rename_i b₁ happly
      obtain ⟨modes', settings', stamp, ts, hsplit, -, -, -, hpos, hset⟩ :=
        applyDLine_stored (congrArg Prod.fst happly)
      have hdata : modes ++ str "|" ++ settings ++ str "|" ++ dec (lwwNextTs b.now b.netTs) =
          modes ++ byte '|' :: (settings ++ byte '|' :: dec (lwwNextTs b.now b.netTs)) := by
        simp only [str, List.append_assoc]
        rfl
      rw [hdata, splitPipes_append hmodes, splitPipes_append hsettings,
        splitPipes_of_notMem (pipe_notMem_dec _)] at hsplit
      obtain ⟨rfl, rfl, -⟩ : modes = modes' ∧ settings = settings' ∧ _ := by
        simpa only [List.cons.injEq] using hsplit
      rw [happly] at hset
      dsimp only at hset
      rw [localCommit_eq, hset]
      refine ⟨rfl, ?_⟩
      rw [netDefaults]
      exact if_pos hpos

/-! ### Settings that are what their texts say -/

/-- The texts of a record that is stored, or of none. -/
structure Plain (modes settings : Str) (ts : Int) : Prop where
  modesPlain : byte '|' ∉ modes
  settingsPlain : byte '|' ∉ settings
  short : settings.length ≤ cSettingsMax
  missing : ts ≤ 0 → settings = []

/-- The settings of a channel are what their text says. -/
structure CoherentChan (c : Chan) : Prop where
  set : c.cfgSet = parseSettings c.cfgSettings false
  plain : Plain c.cfgModes c.cfgSettings c.cfgTs

/-- So are those of the network, but for a send queue that the text leaves as it is. -/
structure Coherent (b : BotState) : Prop where
  chan : ∀ c ∈ b.chans, CoherentChan c
  net : ∀ i, spoilt true b.netSettings = false ∨ i ≠ .flood .sendq →
    entry b.netSet i = lastWrite i (writes true b.netSettings)
  plain : Plain b.netModes b.netSettings b.netTs

theorem plain_none : Plain [] [] 0 :=
  ⟨List.not_mem_nil, List.not_mem_nil, Nat.zero_le _, fun _ => rfl⟩

theorem coherentChan_opened (name : Str) : CoherentChan (opened name) := ⟨rfl, plain_none⟩

theorem entry_netSetOf {b : BotState} {text : Str} (h : text.length ≤ cSettingsMax) (i : Item) :
    entry (netSetOf b text) i =
      if spoilt true text = true ∧ i = .flood .sendq then entry b.netSet i
      else lastWrite i (writes true text) := by
  rw [← entry_parseSettings h, netSetOf, badSendq_parseSettings h]
  by_cases hspoilt : spoilt true text = true
  · rw [if_pos hspoilt]
    by_cases hi : i = .flood .sendq
    · subst hi
      rw [if_pos ⟨hspoilt, rfl⟩]
      rfl
    · rw [if_neg fun h => hi h.2]
      cases i with
      | set id => rfl
      | flood kind =>
          rw [entry]
          dsimp only
          rw [if_neg fun h => hi (congrArg Item.flood h)]
          rfl
  · rw [if_neg hspoilt, if_neg fun h => hspoilt h.1]

theorem validModesField_plain {modes : Str} (h : validModesField modes = true) :
    byte '|' ∉ modes := by
  simp only [validModesField, Bool.and_eq_true, List.all_eq_true, decide_eq_true_eq] at h
  exact fun hmem => (h.2 _ hmem).2 rfl

theorem plainText_plain {text : Str} (h : plainText text = true) : byte '|' ∉ text := by
  simp only [plainText, Bool.and_eq_true, List.all_eq_true, decide_eq_true_eq] at h
  exact fun hmem => (h _ hmem).2 rfl

/-- What is checked of a `C|` line. -/
structure CChecks (r : CRecord) : Prop where
  chan : validChanName r.chan = true
  modes : validModesField r.modes = true
  settings : r.settings.length ≤ cSettingsMax
  plain : plainText r.settings = true
  pos : 0 < r.ts
  fits : r.ts ≤ maxLl

theorem readCLine_checks {data : Str} {r : CRecord} (h : readCLine data = some r) : CChecks r := by
  unfold readCLine at h
  split at h
  · cases h
  · split at h
    · split at h
      · rename_i hts
        split at h
        · cases h
        · rename_i hvalid
          obtain rfl := Option.some.inj h
          simp only [Bool.or_eq_true, Bool.not_eq_true', decide_eq_true_eq, not_or,
            Bool.not_eq_false, not_le, not_lt] at hvalid
          obtain ⟨⟨⟨⟨hchan, hmodes⟩, hlen⟩, hplain⟩, hpos⟩ := hvalid
          exact ⟨hchan, hmodes, hlen, hplain, hpos, (parseLl_bounds hts).2⟩
      · cases h
    · cases h

/-- A record that is well-formed has plain texts. -/
theorem CChecks.plainRecord {r : CRecord} (h : CChecks r) : Plain r.modes r.settings r.ts :=
  ⟨validModesField_plain h.modes, plainText_plain h.plain, h.settings,
    fun hle => absurd hle (Int.not_le.mpr h.pos)⟩

/-- **`C|` lines keep the settings coherent.** -/
theorem coherent_applyCLine {b : BotState} (h : Coherent b) (data : Str) :
    Coherent (applyCLine b data).2 := by
  cases happlied : (applyCLine b data).1 with
  | false =>
      rw [onlyApplied_applyCLine b data happlied]
      exact h
  | true =>
      obtain ⟨r, hread⟩ := readCLine_of_applied happlied
      obtain ⟨hstore, hvalid, -⟩ := applyCLine_of_read (b := b) hread
      have happly : applyCLine b data = (true, (applyCLine b data).2) := Prod.ext happlied rfl
      obtain ⟨k, base, hb', hbase⟩ := storeC_cases (validChanName_plain hvalid).1
        (hstore.symm.trans happly)
      have hold : ∀ c ∈ base, CoherentChan c := by
        rcases hbase with ⟨-, rfl⟩ | ⟨-, -, rfl⟩
        · exact h.chan
        · intro c hc
          rcases List.mem_append.mp hc with hc | hc
          · exact h.chan c hc
          · exact List.mem_singleton.mp hc ▸ coherentChan_opened r.chan
      rw [hb']
      refine ⟨fun c hc => ?_, h.net, h.plain⟩
      rcases Lib.Keyed.mem_modify hc with hc | ⟨c, -, rfl⟩
      · exact hold c hc
      · exact ⟨rfl, (readCLine_checks hread).plainRecord⟩

/-- **So do `D|` lines.** -/
theorem coherent_applyDLine {b : BotState} (h : Coherent b) (data : Str) :
    Coherent (applyDLine b data).2 := by
  cases happlied : (applyDLine b data).1 with
  | false =>
      rw [onlyApplied_applyDLine b data happlied]
      exact h
  | true =>
      obtain ⟨modes, settings, stamp, ts, -, hmodes, hlen, hplain, hpos, hset⟩ :=
        applyDLine_stored happlied
      rw [hset]
      refine ⟨h.chan, fun i hi => ?_, validModesField_plain hmodes, plainText_plain hplain, hlen,
        fun hle => absurd hle (Int.not_le.mpr hpos)⟩
      change entry (netSetOf b settings) i = lastWrite i (writes true settings)
      rw [entry_netSetOf hlen, if_neg]
      rintro ⟨hspoilt, rfl⟩
      rcases hi with hi | hi
      · exact Bool.false_ne_true (hi.symm.trans hspoilt)
      · exact hi rfl

/-! ### Commands -/

/-- The channel of a target; the network has none. -/
def chanOf (b : BotState) (ci : Option Nat) : Option Chan := ci.bind fun i => b.chans[i]?

/-- The field that a command starts from. -/
def textOf (b : BotState) (ci : Option Nat) : Str :=
  ci.elim b.netSettings fun _ => ((chanOf b ci).map (·.cfgSettings)).getD []

/-- The record that a command writes. -/
def store (b : BotState) (ci : Option Nat) (settings : Str) : Bool × BotState :=
  ci.elim (localD b b.netModes settings) fun i =>
    localC b i (((chanOf b ci).map (·.cfgModes)).getD []) settings

/-- A target that is named. -/
def targetOf (b : BotState) (name : Str) : Except Str (Option Nat) :=
  if eqIc name (str "default") then .ok none else (findChan b name).map some

/-- A command that changes settings of a target, and does it. -/
structure Succeeds (b : BotState) (args : Option Str) (ci : Option Nat)
    (words : List Str) : Prop where
  allowed : adminChangeRefused b = false
  change : words ≠ []
  target : ∃ name, tokens (args.getD []) = name :: words ∧ targetOf b name = .ok ci
  stored : ∃ settings n, editLoop ci.isNone words.length (textOf b ci) 0 words = .ok (settings, n) ∧
    (store b ci settings).1 = true

theorem onlyApplied_localC (b : BotState) (ci : Nat) (modes settings : Str) :
    OnlyApplied b (localC b ci modes settings) := by
  unfold localC
  split
  · exact onlyApplied_refl b _
  · dsimp only
    split
    · exact onlyApplied_refl b _
    · split
      · rename_i b₁ happly
        intro _
        have honly := onlyApplied_applyCLine b _ (congrArg Prod.fst happly)
        rw [happly] at honly
        exact honly
      · exact onlyApplied_true b _

theorem onlyApplied_localD (b : BotState) (modes settings : Str) :
    OnlyApplied b (localD b modes settings) := by
  unfold localD
  dsimp only
  split
  · exact onlyApplied_refl b _
  · split
    · rename_i b₁ happly
      intro _
      have honly := onlyApplied_applyDLine b _ (congrArg Prod.fst happly)
      rw [happly] at honly
      exact honly
    · exact onlyApplied_true b _

theorem onlyApplied_store (b : BotState) (ci : Option Nat) (settings : Str) :
    OnlyApplied b (store b ci settings) := by
  cases ci with
  | none => exact onlyApplied_localD b _ settings
  | some i => exact onlyApplied_localC b i _ settings

/-- The words of a command are told apart by the loop of the edits. -/
theorem editSettings_cases (b : BotState) (nick : Str) (ci : Option Nat) (words : List Str) :
    (∃ settings n text, editLoop ci.isNone words.length (textOf b ci) 0 words = .ok (settings, n) ∧
      (store b ci settings).1 = true ∧
      editSettings b nick ci words = say (store b ci settings).2 nick text) ∨
    ((∀ settings n, editLoop ci.isNone words.length (textOf b ci) 0 words = .ok (settings, n) →
      (store b ci settings).1 = false) ∧ ∃ text, editSettings b nick ci words = say b nick text) := by
  cases ci with
  | none =>
      unfold editSettings
      dsimp only
      split
      · rename_i e hedits
        exact .inr ⟨fun settings n h => (nomatch hedits.symm.trans h), _, rfl⟩
      · rename_i settings n hedits
        split
        · rename_i b' hstored
          obtain rfl : b' = b := by
            have honly := onlyApplied_store b none settings (congrArg Prod.fst hstored)
            exact (congrArg Prod.snd hstored).symm.trans honly
          refine .inr ⟨fun settings' n' h => ?_, _, rfl⟩
          obtain ⟨rfl, rfl⟩ := Prod.mk.inj (Except.ok.inj (hedits.symm.trans h))
          exact congrArg Prod.fst hstored
        · rename_i b' hstored
          have heq : b' = (store b none settings).2 := (congrArg Prod.snd hstored).symm
          exact .inl ⟨settings, n, _, hedits, congrArg Prod.fst hstored,
            congrArg (say · nick _) heq⟩
  | some i =>
      unfold editSettings
      dsimp only
      split
      · rename_i e hedits
        exact .inr ⟨fun settings n h => (nomatch hedits.symm.trans h), _, rfl⟩
      · rename_i settings n hedits
        split
        · rename_i b' hstored
          obtain rfl : b' = b := by
            have honly := onlyApplied_store b (some i) settings (congrArg Prod.fst hstored)
            exact (congrArg Prod.snd hstored).symm.trans honly
          refine .inr ⟨fun settings' n' h => ?_, _, rfl⟩
          obtain ⟨rfl, rfl⟩ := Prod.mk.inj (Except.ok.inj (hedits.symm.trans h))
          exact congrArg Prod.fst hstored
        · rename_i b' hstored
          have heq : b' = (store b (some i) settings).2 := (congrArg Prod.snd hstored).symm
          exact .inl ⟨settings, n, _, hedits, congrArg Prod.fst hstored,
            congrArg (say · nick _) heq⟩

theorem say_ircOut (b : BotState) (nick text : Str) :
    ∃ out, say b nick text = { b with ircOut := out } :=
  ⟨_, say_eq b nick text⟩

theorem showSettings_ircOut (b : BotState) (nick : Str) (ci : Option Nat) :
    ∃ out, showSettings b nick ci = { b with ircOut := out } := by
  unfold showSettings
  obtain ⟨out, hfirst⟩ := say_ircOut b nick (str "Settings for " ++ target b ci ++
    str " (c = channel, n = network default, b = built-in):")
  rw [hfirst]
  clear hfirst
  generalize settingsRows b ci = rows
  induction rows generalizing out with
  | nil => exact ⟨out, rfl⟩
  | cons row rows ih =>
      obtain ⟨out', hsay⟩ := say_ircOut { b with ircOut := out } nick row
      rw [List.foldl_cons, hsay]
      exact ih out'

/-- The words of a command name one target. -/
theorem Succeeds.unique {b : BotState} {args : Option Str} {ci ci' : Option Nat}
    {words words' : List Str} (h : Succeeds b args ci words) (h' : Succeeds b args ci' words') :
    ci = ci' ∧ words = words' := by
  obtain ⟨name, hname, hci⟩ := h.target
  obtain ⟨name', hname', hci'⟩ := h'.target
  obtain ⟨rfl, rfl⟩ := List.cons.inj (hname.symm.trans hname')
  exact ⟨Except.ok.inj (hci.symm.trans hci'), rfl⟩

/-- What a command does. -/
theorem chanset_cases (b : BotState) (nick : Str) (args : Option Str) :
    (∃ ci words settings n text, Succeeds b args ci words ∧
      editLoop ci.isNone words.length (textOf b ci) 0 words = .ok (settings, n) ∧
      (store b ci settings).1 = true ∧
      chanset b nick args = say (store b ci settings).2 nick text) ∨
    (∀ ci words, ¬ Succeeds b args ci words) ∧
      ∃ out, chanset b nick args = { b with ircOut := out } := by
  unfold chanset
  split
  · rename_i hrefused
    exact .inr ⟨fun ci words h => Bool.false_ne_true (h.allowed.symm.trans hrefused), say_ircOut ..⟩
  · rename_i hallowed
    split
    · rename_i htokens
      refine .inr ⟨fun ci words h => ?_, say_ircOut ..⟩
      obtain ⟨name, hname, -⟩ := h.target
      exact nomatch htokens.symm.trans hname
    · rename_i name words htokens
      dsimp only
      split
      · rename_i e htarget
        refine .inr ⟨fun ci words h => ?_, say_ircOut ..⟩
        obtain ⟨name', hname, hci⟩ := h.target
        obtain ⟨rfl, rfl⟩ := List.cons.inj (htokens.symm.trans hname)
        exact nomatch htarget.symm.trans hci
      · rename_i ci htarget
        have hunique {ci' : Option Nat} {words' : List Str} (h : Succeeds b args ci' words') :
            ci' = ci ∧ words' = words := by
          obtain ⟨name', hname, hci⟩ := h.target
          obtain ⟨rfl, rfl⟩ := List.cons.inj (htokens.symm.trans hname)
          exact ⟨Except.ok.inj (hci.symm.trans htarget), rfl⟩
        split
        · rename_i hempty
          refine .inr ⟨fun ci' words' h => h.change ?_, showSettings_ircOut b nick ci⟩
          rw [(hunique h).2]
          exact List.isEmpty_iff.mp hempty
        · rename_i hempty
          rcases editSettings_cases b nick ci words with
            ⟨settings, n, text, hedits, hstored, heq⟩ | ⟨hfalse, text, heq⟩
          · refine .inl ⟨ci, words, settings, n, text,
              ⟨?_, ?_, ⟨name, htokens, htarget⟩, settings, n,
              hedits, hstored⟩, hedits, hstored, heq⟩
            · simpa using hallowed
            · exact fun hnil => hempty (List.isEmpty_iff.mpr hnil)
          · rw [heq]
            refine .inr ⟨fun ci' words' h => ?_, say_ircOut b nick text⟩
            obtain ⟨settings, n, hedits, hstored⟩ := h.stored
            obtain ⟨rfl, rfl⟩ := hunique h
            exact Bool.false_ne_true ((hfalse settings n hedits).symm.trans hstored)

/-! ### The frame -/

/-- What an item falls back to when a target says nothing of it. -/
def beneath (b : BotState) (ci : Option Nat) (i : Item) : Setting :=
  ci.elim (builtin i) fun _ => effective b none i

/-- The items that were named have their new values, the others the ones they had: after a
command for the network at every channel too, and after one for a channel all items of every
other channel. -/
structure Frame (b b' : BotState) (ci : Option Nat) (es : List (Item × Option Setting)) : Prop where
  edited : ∀ i v, lastWrite i es = some v → effective b' (chanOf b' ci) i = v.getD (beneath b ci i)
  others : ∀ i, lastWrite i es = none → effective b' (chanOf b' ci) i = effective b (chanOf b ci) i
  layered : ci = none → ∀ (j : Nat) i, lastWrite i es = none →
    effective b' b'.chans[j]? i = effective b b.chans[j]? i
  apart : ∀ k, ci = some k → ∀ (j : Nat) i, j ≠ k →
    effective b' b'.chans[j]? i = effective b b.chans[j]? i

/-- Nothing goes wrong with a channel: a deleted record says nothing of the items that are not
named but what is in effect; and a channel with a separator in its name, whose record is stored
elsewhere, is asked for what is in effect, and the record says what is in effect there. -/
structure Clear (b : BotState) (c : Chan) (settings : Str) (es : List (Item × Option Setting)) :
    Prop where
  deleted : byte '|' ∉ c.name → c.cfgActive = false → ∀ i v, lastWrite i es = none →
    i.onChan = true →
    entry c.cfgSet i = some v → effective b none i = v
  separator : byte '|' ∈ c.name → ∀ i v, lastWrite i es = some v →
    effective b (some c) i = v.getD (effective b none i)
  elsewhere : byte '|' ∈ c.name → ∀ r, readCLine (cData b c c.cfgModes settings) = some r → ∀ i,
    effective b (some (r.store {})) i = effective b (byName b r.chan) i

theorem onChan_of_asked {fuel : Nat} : ∀ {words : List Str} {e : Item × Option Setting},
    e ∈ asked false fuel words → e.1.onChan = true := by
  induction fuel with
  | zero => exact fun h => absurd h List.not_mem_nil
  | succ fuel ih =>
      intro words e h
      cases words with
      | nil => exact absurd h List.not_mem_nil
      | cons tk rest =>
          rw [asked] at h
          cases hnext : (nextEdit false tk rest).toOption with
          | none =>
              rw [hnext] at h
              exact absurd h List.not_mem_nil
          | some w =>
              rw [hnext, Option.elim_some] at h
              rcases List.mem_append.mp h with h | h
              · obtain ⟨i, hi, hread⟩ := Option.bind_eq_some_iff.mp (Option.mem_toList.mp h)
                have hon : i.onChan = true := by
                  simpa using (Option.filter_eq_some_iff.mp hi).2
                split at hread
                · rw [← Option.some.inj hread]
                  exact hon
                · obtain ⟨v, -, rfl⟩ := Option.map_eq_some_iff.mp hread
                  exact hon
              · exact ih h

theorem mem_of_lastWrite {es : List (Item × Option Setting)} {i : Item} {v : Option Setting}
    (h : lastWrite i es = some v) : ∃ e ∈ es, e.1 = i := by
  by_contra hnone
  rw [lastWrite_eq_none_iff.mpr fun e he heq => hnone ⟨e, he, heq⟩] at h
  cases h

theorem netEntry_congr {b b' : BotState} (h : netDefaults b' = netDefaults b) (i : Item) :
    netEntry b' i = netEntry b i := by rw [netEntry, netEntry, h]

/-- What is in effect at a channel whose record a command leaves alone. -/
theorem effective_map_dirty {b b' : BotState} (h : netDefaults b' = netDefaults b) (c : Option Chan)
    (i : Item) : effective b' (c.map dirty) i = effective b c i := by
  rw [effective_eq, effective_eq, netEntry_congr h]
  cases c <;> rfl

theorem effective_none (b : BotState) (i : Item) :
    effective b none i = (netEntry b i).getD (builtin i) := by
  have hown : own none i = none := by
    unfold own
    split <;> rfl
  rw [effective_eq, hown, Option.none_or]

theorem notMem_sendq {es : List (Item × Option Setting)} (h : lastWrite (.flood .sendq) es = none) :
    (es.all fun e => decide (e.1 ≠ .flood .sendq)) = true :=
  List.all_eq_true.mpr fun e he => decide_eq_true (lastWrite_eq_none_iff.mp h e he)

theorem mem_sendq {es : List (Item × Option Setting)} {v : Option Setting}
    (h : lastWrite (.flood .sendq) es = some v) :
    (es.all fun e => decide (e.1 ≠ .flood .sendq)) = false := by
  obtain ⟨e, he, hsendq⟩ := mem_of_lastWrite h
  exact List.all_eq_false.mpr ⟨e, he, by simpa using hsendq⟩

/-- What the network's record says after a command. -/
theorem entry_netSetOf_edits {b : BotState} (hb : Coherent b) {es : List (Item × Option Setting)}
    {text' : Str} (hedits : Edits true es b.netSettings text') (i : Item) :
    entry (netSetOf b text') i = (lastWrite i es).getD (entry b.netSet i) := by
  have hlen := hedits.length hb.plain.short
  rw [entry_netSetOf hlen, hedits.spoilt, hedits.writes, lastWrite_edits]
  cases hlast : lastWrite i es with
  | some v =>
      rw [if_neg]
      · rfl
      · rintro ⟨hspoilt, rfl⟩
        rw [mem_sendq hlast, Bool.and_false] at hspoilt
        cases hspoilt
  | none =>
      split
      · rfl
      · rename_i hspoilt
        refine (hb.net i ?_).symm
        by_cases hi : i = .flood .sendq
        · subst hi
          rw [notMem_sendq hlast, Bool.and_true] at hspoilt
          exact .inl (Bool.eq_false_iff.mpr fun h => hspoilt ⟨h, rfl⟩)
        · exact .inr hi

/-- **A command for the network.** -/
theorem frame_network {b : BotState} (hb : Coherent b) {es : List (Item × Option Setting)}
    {text' : Str} (hedits : Edits true es b.netSettings text')
    (hstored : (localD b b.netModes text').1 = true) :
    Frame b (localD b b.netModes text').2 none es := by
  obtain ⟨hchans, hnet⟩ :=
    localD_stored hb.plain.modesPlain (hedits.plain hb.plain.settingsPlain) hstored
  have hentry (i : Item) : netEntry (localD b b.netModes text').2 i =
      (lastWrite i es).getD (entry b.netSet i) := by
    rw [netEntry, hnet, Option.bind_some, entry_netSetOf_edits hb hedits]
  have hsame (i : Item) (hi : lastWrite i es = none) :
      (netEntry (localD b b.netModes text').2 i) = netEntry b i := by
    rw [hentry, hi, Option.getD_none, netEntry, netDefaults]
    split
    · rfl
    · rename_i hmissing
      -- no record yet, and so no text
      have htext := hb.plain.missing (Int.not_lt.mp hmissing)
      have hnone := hb.net i (.inl (by rw [htext]; decide))
      rw [hnone, htext]
      rfl
  refine ⟨fun i v hi => ?_, fun i hi => ?_, fun _ j i hi => ?_, fun k hk => nomatch hk⟩
  · change effective _ none i = _
    rw [effective_none, hentry, hi]
    rfl
  · change effective _ none i = effective _ none i
    rw [effective_none, effective_none, hsame i hi]
  · rw [effective_eq, effective_eq, hsame i hi, hchans, List.getElem?_map]
    cases b.chans[j]? <;> rfl

/-- What the channel's own record says after a command. -/
theorem own_recorded {c : Chan} (hc : CoherentChan c) {es : List (Item × Option Setting)}
    {text' modes : Str}
    {ts : Int} (hts : 0 < ts) (hedits : Edits false es c.cfgSettings text') (i : Item) :
    own (some (dirty (recorded modes text' ts c))) i =
      if i.onChan then (lastWrite i es).getD (entry c.cfgSet i) else none := by
  have hforce : chanOverride (some (dirty (recorded modes text' ts c))) =
      some (parseSettings text' false) := by
    rw [chanOverride, Option.bind_some]
    exact if_pos ((Bool.true_and _).trans (decide_eq_true hts))
  rw [own, hforce, Option.bind_some, entry_parseSettings (hedits.length hc.plain.short),
    hedits.writes,
    lastWrite_edits, hc.set, entry_parseSettings hc.plain.short]

/-- **A command for a channel.** -/
theorem frame_channel_iff {b b' : BotState} {ci : Nat} {c : Chan}
    {es : List (Item × Option Setting)}
    {text' modes : Str} {ts : Int} (hc : CoherentChan c) (hci : b.chans[ci]? = some c)
    (hts : 0 < ts) (hedits : Edits false es c.cfgSettings text') (hes : ∀ e ∈ es, e.1.onChan = true)
    (hchans : b'.chans = (b.chans.modify ci (recorded modes text' ts)).map dirty)
    (hnet : netDefaults b' = netDefaults b) :
    Frame b b' (some ci) es ↔ (c.cfgActive = false → ∀ i v, lastWrite i es = none → i.onChan = true →
      entry c.cfgSet i = some v → effective b none i = v) := by
  have hbefore : chanOf b (some ci) = some c := hci
  have hci' : b'.chans[ci]? = some (dirty (recorded modes text' ts c)) := by
    rw [hchans, List.getElem?_map, List.getElem?_modify_eq, hci]
    rfl
  have hafter (i : Item) : effective b' (chanOf b' (some ci)) i =
      ((if i.onChan then (lastWrite i es).getD (entry c.cfgSet i) else none).or (netEntry b i)).getD
        (builtin i) := by
    rw [show chanOf b' (some ci) = _ from hci', effective_eq, own_recorded hc hts hedits,
      netEntry_congr hnet]
  have hkeeps : c.cfgActive = true → ∀ i, lastWrite i es = none →
      effective b' (chanOf b' (some ci)) i = effective b (some c) i := by
    intro hactive i hi
    rw [hafter, hi, Option.getD_none, effective_eq, own, chanOverride, Option.bind_some]
    split
    · split
      · rfl
      · rename_i hforce
        have hmissing : c.cfgTs ≤ 0 := by simpa [hactive] using hforce
        rw [hc.set, entry_parseSettings hc.plain.short, hc.plain.missing hmissing]
        rfl
    · rfl
  have hdeleted (hactive : c.cfgActive = false) (i : Item) : own (some c) i = none := by
    rw [own, chanOverride, Option.bind_some, hactive]
    exact ite_self _
  constructor
  · intro h hactive i v hi hon hentry
    have hsame := h.others i hi
    rw [hafter, hi, Option.getD_none, if_pos hon, hentry, hbefore, effective_eq, hdeleted hactive,
      Option.none_or] at hsame
    rw [effective_none]
    exact hsame.symm
  · intro h
    refine ⟨fun i v hi => ?_, fun i hi => ?_, (nomatch ·), fun k hk j i hj => ?_⟩
    · obtain ⟨e, he, rfl⟩ := mem_of_lastWrite hi
      rw [hafter, hi, Option.getD_some, if_pos (hes e he)]
      change _ = v.getD (effective b none e.1)
      rw [effective_none]
      cases v <;> rfl
    · cases hactive : c.cfgActive with
      | true => rw [hkeeps hactive i hi, hbefore]
      | false =>
          rw [hbefore, hafter, hi, Option.getD_none, effective_eq, hdeleted hactive, Option.none_or]
          split
          · rename_i hon
            cases hentry : entry c.cfgSet i with
            | none => rfl
            | some v =>
                have hv := h hactive i v hi hon hentry
                rw [effective_none] at hv
                exact hv.symm
          · rfl
    · obtain rfl := Option.some.inj hk
      rw [hchans, List.getElem?_map, List.getElem?_modify_ne _ _ (Ne.symm hj)]
      exact effective_map_dirty hnet _ i

/-- Where the record went elsewhere, nothing changed at the channel; what changed is in effect
where the record went. -/
theorem frame_separator_iff {b b' : BotState} {ci k : Nat} {c : Chan} {r : CRecord}
    {es : List (Item × Option Setting)} (hci : b.chans[ci]? = some c) (hk : k ≠ ci)
    (hat : StoredAt b b' k r) :
    Frame b b' (some ci) es ↔
      (∀ i v, lastWrite i es = some v → effective b (some c) i = v.getD (effective b none i)) ∧
        ∀ i, effective b (some (r.store {})) i = effective b (byName b r.chan) i := by
  have hkept (j : Nat) (hj : j ≠ k) (i : Item) :
      effective b' b'.chans[j]? i = effective b b.chans[j]? i := by
    rw [hat.kept j hj, effective_map_dirty hat.net]
  have hstored (i : Item) : effective b' b'.chans[k]? i = effective b (some (r.store {})) i := by
    obtain ⟨c', hc'⟩ := hat.stored
    rw [hc', effective_eq, effective_eq, netEntry_congr hat.net]
    rfl
  have hsame (i : Item) : effective b' (chanOf b' (some ci)) i = effective b (some c) i :=
    (hkept ci (Ne.symm hk) i).trans (by rw [hci])
  constructor
  · intro h
    refine ⟨fun i v hi => ?_, fun i => ?_⟩
    · rw [← hsame i, h.edited i v hi]
      rfl
    · rw [← hstored i, hat.named, h.apart ci rfl k i hk]
  · rintro ⟨hasked, hsays⟩
    refine ⟨fun i v hi => (hsame i).trans (hasked i v hi), fun i _ => ?_, (nomatch ·),
      fun _ _ j i _ => ?_⟩
    · rw [hsame, show chanOf b (some ci) = _ from hci]
    · by_cases hj : j = k
      · rw [hj, hstored, hsays, hat.named]
      · exact hkept j hj i

/-- **The record that a command for a channel stores.** -/
theorem frame_localC {b : BotState} {ci : Nat} {c : Chan} {es : List (Item × Option Setting)}
    {settings : Str} (hcoherent : CoherentChan c) (hc : b.chans[ci]? = some c)
    (hfind : find b c.name = some ci) (hedits : Edits false es c.cfgSettings settings)
    (hes : ∀ e ∈ es, e.1.onChan = true) (hstored : (localC b ci c.cfgModes settings).1 = true) :
    Frame b (localC b ci c.cfgModes settings).2 (some ci) es ↔ Clear b c settings es := by
  by_cases hname : byte '|' ∈ c.name
  · obtain ⟨r, k, hread, hk, hat⟩ := localC_elsewhere hc hname hstored
    rw [frame_separator_iff hc hk hat]
    constructor
    · rintro ⟨hasked, hsays⟩
      refine ⟨fun hplain => absurd hname hplain, fun _ => hasked, fun _ r' hr' => ?_⟩
      obtain rfl := Option.some.inj (hread.symm.trans hr')
      exact hsays
    · exact fun h => ⟨h.separator hname, h.elsewhere hname r hread⟩
  · obtain ⟨ts, hts, hchans, hnet⟩ := localC_stored hc hfind hname hcoherent.plain.modesPlain
      (hedits.plain hcoherent.plain.settingsPlain) hstored
    rw [frame_channel_iff hcoherent hc hts hedits hes hchans hnet]
    exact ⟨fun h => ⟨fun _ => h, fun hpipe => absurd hpipe hname, fun hpipe => absurd hpipe hname⟩,
      fun h => h.deleted hname⟩

theorem frame_say {b b' : BotState} {ci : Option Nat} {es : List (Item × Option Setting)}
    (nick text : Str) : Frame b (say b' nick text) ci es ↔ Frame b b' ci es := by
  rw [say_eq]
  exact ⟨fun ⟨hedited, hothers, hlayered, hapart⟩ => ⟨hedited, hothers, hlayered, hapart⟩,
    fun ⟨hedited, hothers, hlayered, hapart⟩ => ⟨hedited, hothers, hlayered, hapart⟩⟩

/-- The channel of a target is the one its own name finds. -/
theorem targetOf_chan {b : BotState} {name : Str} {ci : Nat} (h : targetOf b name = .ok (some ci)) :
    ∃ c, b.chans[ci]? = some c ∧ find b c.name = some ci := by
  unfold targetOf at h
  split at h
  · cases h
  · unfold findChan at h
    split at h
    · cases h
    · split at h
      · rename_i i hi
        obtain rfl : i = ci := Option.some.inj (Except.ok.inj h)
        have hfind := (Option.filter_eq_some_iff.mp hi).1
        obtain ⟨c, hc, hname⟩ := find_eq_some hfind
        exact ⟨c, hc, (find_congr b hname).trans hfind⟩
      · cases h

/-- A bot with one channel and a record of it. -/
def withRecord (line : Str) : BotState :=
  (applyCLine { chans := [{ name := str "#c", isManaged := true }] } line).2

theorem coherent_withRecord (line : Str) : Coherent (withRecord line) := by
  refine coherent_applyCLine ⟨fun c hc => ?_, fun i _ => ?_, plain_none⟩ line
  · rw [List.mem_singleton.mp hc]
    exact ⟨rfl, plain_none⟩
  · cases i <;> rfl

/-- **What `chanset` changes.** A command that is turned down leaves every setting, mode string and
stamp as it was. One that succeeds does what it was asked exactly if nothing goes wrong with its
channel; one for the network always does. -/
theorem chanset_frame {b : BotState} (hb : Coherent b) (nick : Str) (args : Option Str) :
    ((∀ ci words, ¬ Succeeds b args ci words) →
      ∃ out, chanset b nick args = { b with ircOut := out }) ∧
    ∀ ci words, Succeeds b args ci words →
      (Frame b (chanset b nick args) ci (asked ci.isNone words.length words) ↔
        ∀ i c settings n, ci = some i → b.chans[i]? = some c →
          editLoop ci.isNone words.length (textOf b ci) 0 words = .ok (settings, n) →
            Clear b c settings (asked ci.isNone words.length words)) := by
  refine ⟨fun hnone => ?_, fun ci words hsucc => ?_⟩
  · rcases chanset_cases b nick args with ⟨ci, words, -, -, -, hsucc, -⟩ | ⟨-, hsame⟩
    · exact absurd hsucc (hnone ci words)
    · exact hsame
  · rcases chanset_cases b nick args with
      ⟨ci', words', settings, n, text, hsucc', hloop, hstored, heq⟩ | ⟨hnone, -⟩
    · obtain ⟨rfl, rfl⟩ := hsucc'.unique hsucc
      have hedits := edits_editLoop _ hloop
      rw [heq, frame_say]
      cases ci' with
      | none =>
          exact iff_of_true (frame_network hb hedits hstored) fun i c settings n hi => nomatch hi
      | some ci =>
          obtain ⟨name, -, htarget⟩ := hsucc.target
          obtain ⟨c, hc, hfind⟩ := targetOf_chan htarget
          have hchan : chanOf b (some ci) = some c := hc
          have hstore : store b (some ci) settings = localC b ci c.cfgModes settings := by
            rw [store, Option.elim_some, hchan, Option.map_some, Option.getD_some]
          have htext : textOf b (some ci) = c.cfgSettings := by
            rw [textOf, Option.elim_some, hchan, Option.map_some, Option.getD_some]
          rw [hstore] at hstored ⊢
          rw [htext] at hedits
          rw [frame_localC (hb.chan c (List.mem_of_getElem? hc)) hc hfind hedits
            (fun e => onChan_of_asked) hstored]
          constructor
          · intro h i c' settings' n' hi hc' hloop'
            obtain rfl := Option.some.inj hi
            obtain rfl := Option.some.inj (hc.symm.trans hc')
            obtain ⟨rfl, -⟩ := Prod.mk.inj (Except.ok.inj (hloop.symm.trans hloop'))
            exact h
          · exact fun h => h ci c settings n rfl hc hloop
    · exact absurd hsucc (hnone ci words)

/-- A record in force keeps its other settings. -/
theorem chanset_frame_active :
    Frame (withRecord (str "#c||bitch=1|add|100"))
      (chanset (withRecord (str "#c||bitch=1|add|100")) (str "admin") (some (str "#c -cycle")))
      (some 0) (asked false 1 [str "-cycle"]) := by
  refine ((chanset_frame (coherent_withRecord _) (str "admin") (some (str "#c -cycle"))).2 (some 0)
    [str "-cycle"] ⟨by decide, by decide, ⟨str "#c", by decide, by decide⟩,
      str "bitch=1,cycle=0", 1, by decide, by decide⟩).mpr ?_
  intro i c settings n hi hc _
  obtain rfl := Option.some.inj hi
  obtain rfl := Option.some.inj hc
  exact ⟨fun _ hactive => absurd hactive (by decide), fun hpipe => absurd hpipe (by decide),
    fun hpipe => absurd hpipe (by decide)⟩

/-- A deleted one gets into force again: `chanset #c -cycle` also sets `bitch`. -/
theorem not_chanset_frame :
    Succeeds (withRecord (str "#c||bitch=1|del|100")) (some (str "#c -cycle")) (some 0) [str "-cycle"] ∧
    ¬ Frame (withRecord (str "#c||bitch=1|del|100"))
      (chanset (withRecord (str "#c||bitch=1|del|100")) (str "admin") (some (str "#c -cycle")))
      (some 0) (asked false 1 [str "-cycle"]) := by
  refine ⟨⟨by decide, by decide, ⟨str "#c", by decide, by decide⟩, str "bitch=1,cycle=0", 1, by decide,
    by decide⟩, fun h => ?_⟩
  exact absurd (h.others (.set .bitch) (by decide)) (by decide)

end IrcBot.Chancmd
