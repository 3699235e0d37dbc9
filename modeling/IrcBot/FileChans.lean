/-
# The channels in the config file

A channel has two records: `c|` for the channel itself, `C|` for its settings. All of the first kind
stand before all of the second, and settings that are in force open a channel that has no other
record.

* `load_chans`, `load_settings` — what is read from the records of a list of channels.
-/
import IrcBot.FileRecords
import IrcBot.Lib.Places

namespace IrcBot.ConfigFile

open Cstr Crypto Chancfg Config Envelope ChanRecord SettingsMerge Stamps Lib.Places

/-! ### Reading one record after the other -/

/-- A step that adds what it is given, as long as there is room for the rest, adds all of it. -/
theorem foldl_add {σ α : Type} {step : σ → α → σ} (add : σ → List α → σ) (Ok : σ → List α → Prop)
    (hnil : ∀ s, add s [] = s) (hadd : ∀ s a as, add (add s [a]) as = add s (a :: as))
    (hstep : ∀ s a as, Ok s (a :: as) → step s a = add s [a] ∧ Ok (add s [a]) as) :
    ∀ {as : List α} {s : σ}, Ok s as → as.foldl step s = add s as := by
  intro as
  induction as with
  | nil => exact fun _ => (hnil _).symm
  | cons a as ih =>
      intro s hok
      obtain ⟨heq, hrest⟩ := hstep s a as hok
      rw [List.foldl_cons, heq, ih hrest, hadd]

/-- The key of a channel. -/
def nameKey (c : Chan) : Str := c.name.map lower

theorem find_eq_place (b : BotState) (name : Str) :
    find b name = place nameKey b.chans (name.map lower) := by
  refine congrArg (fun p => b.chans.findIdx? p) (funext fun c => ?_)
  refine Bool.eq_iff_iff.mpr (eqIc_iff.trans ?_)
  simp [nameKey]

theorem modify_eq_map {T : List Chan} (hT : (T.map nameKey).Nodup) {i : Nat} {c : Chan}
    (hc : T[i]? = some c) (f : Chan → Chan) :
    T.modify i f = T.map fun d => if nameKey d = nameKey c then f d else d := by
  rw [← set_eq_map hT hc]
  refine List.ext_getElem? fun j => ?_
  rw [List.getElem?_modify, List.getElem?_set]
  by_cases hij : i = j
  · subst hij
    obtain ⟨hlt, rfl⟩ := List.getElem?_eq_some_iff.mp hc
    simp [hlt]
  · simp [hij]

/-! ### Channels -/

/-- A channel as its `c|` record leaves it, or as it is opened for its settings. -/
def bare (c : Chan) : Chan :=
  { name := c.name, key := if listed c then c.key else [], status := .out, isManaged := c.isManaged
    timestamp := c.timestamp }

/-- With its settings. -/
def reloaded (c : Chan) : Chan := if 0 < c.cfgTs then (settingsOf c).store (bare c) else bare c

theorem loadChanLine_new {b : BotState} {c : Chan} (hc : SavableChan c) (hlisted : listed c = true)
    (hnew : nameKey c ∉ b.chans.map nameKey) :
    loadChanLine b (cfgBody c) = { b with chans := b.chans ++ [bare c] } := by
  obtain ⟨hpos, hmax⟩ := hc.stamp hlisted
  have hfields : Fields c :=
    ⟨hc.name_ne, hc.name_lt, hc.name.2, hc.key_lt, hc.key.2, by simp only [i64Min]; omega, hmax⟩
  have hfind : find b c.name = none := (find_eq_place b c.name).trans (place_eq_none_iff.mpr hnew)
  have hadd : add b c.name = some (b.chans.length, { b with chans := b.chans ++
      [{ name := c.name, status := .out, isManaged := true, timestamp := b.now }] }) := by
    rw [add, hfind, trunc_of_lt hc.name_lt]
    rfl
  rw [loadChanLine, parseCfgChan_cfgBody hfields]
  dsimp only
  rw [hfind, hadd]
  dsimp only
  rw [if_pos hpos, (addDel_beq c.isManaged).1, trunc_of_lt hc.key_lt, withChan]
  dsimp only
  rw [Chancmd.modify_concat]
  have hkey : (if c.key.isEmpty then [] else c.key) = c.key := by cases c.key <;> rfl
  simp only [ite_self, hkey]
  rw [bare, if_pos hlisted]

/-- The `c|` records. -/
theorem load_chans {cs : List Chan} {b : BotState} (hcs : ∀ c ∈ cs, SavableChan c ∧ listed c = true)
    (hnames : (b.chans.map nameKey ++ cs.map nameKey).Nodup) :
    cs.foldl (fun b c => loadChanLine b (cfgBody c)) b =
      { b with chans := b.chans ++ cs.map bare } := by
  refine foldl_add (fun (b : BotState) cs => { b with chans := b.chans ++ cs.map bare })
    (fun b cs => (∀ c ∈ cs, SavableChan c ∧ listed c = true) ∧
      (b.chans.map nameKey ++ cs.map nameKey).Nodup) ?_ ?_ ?_ ⟨hcs, hnames⟩
  · intro b
    simp only [List.map_nil, List.append_nil]
  · intro b c cs
    simp only [List.map_cons, List.map_nil, List.append_assoc, List.singleton_append]
  · rintro b c cs ⟨hcs, hnames⟩
    obtain ⟨hc, hlisted⟩ := hcs c List.mem_cons_self
    refine ⟨loadChanLine_new hc hlisted fun hmem => ?_,
      fun d hd => hcs d (List.mem_cons_of_mem c hd), ?_⟩
    · exact (List.nodup_append.mp hnames).2.2 _ hmem _ List.mem_cons_self rfl
    · rw [List.map_append, List.append_assoc]
      exact hnames

/-! ### Settings -/

theorem storeC_accepted {b b' : BotState} {r : CRecord} {i : Nat} {c : Chan}
    (hchan : chanForSettings b r.chan r.active = some (i, b')) (hc : b'.chans[i]? = some c)
    (hnew : lwwAccepts r.ts r.active c.cfgTs c.cfgActive = true) :
    (storeC b r).2 = { b' with chans := b'.chans.modify i r.store, cfgGen := b'.cfgGen + 1 } := by
  rw [storeC, hchan]
  dsimp only
  rw [hc]
  dsimp only
  rw [hnew]
  rfl

theorem chanForSettings_opens {b : BotState} {name : Str} (hfind : find b name = none)
    (hlen : name.length < maxChan) : chanForSettings b name true =
      some (b.chans.length, { b with chans := b.chans ++ [Chancmd.opened name] }) := by
  rw [chanForSettings, hfind]
  dsimp only
  rw [add, hfind, trunc_of_lt hlen]
  simp only [Option.isSome_none, Bool.not_true, Bool.false_eq_true, if_false, Option.map_some,
    withChan, Chancmd.modify_concat]
  rfl

theorem storeC_gone {b : BotState} {r : CRecord} (hfind : find b r.chan = none)
    (hactive : r.active = false) : (storeC b r).2 = b := by
  rw [storeC, chanForSettings, hfind]
  dsimp only
  rw [hactive]
  rfl

/-- A channel that has settings in force and no record of its own. -/
def held (c : Chan) : Bool := !listed c && c.cfgActive

/-- The channels as their `c|` records leave them, but for those of `ps`: their settings have been
read, and the channels that are only held for them have been opened. -/
def tableOf (cs ps : List Chan) : List Chan :=
  (cs.filter listed).map (fun c => if (ps.map nameKey).contains (nameKey c) then reloaded c else bare c) ++
    (ps.filter held).map reloaded

theorem tableOf_eq (cs ps : List Chan) : tableOf cs ps =
    (cs.filter listed).map (fun c => if nameKey c ∈ ps.map nameKey then reloaded c else bare c) ++
      (ps.filter held).map reloaded := by
  simp only [tableOf, List.contains_iff_mem]

theorem nameKey_reloaded (c : Chan) : nameKey (reloaded c) = nameKey c := by
  unfold reloaded
  split <;> rfl

theorem nameKey_entry (ps : List Chan) (c : Chan) :
    nameKey (if nameKey c ∈ ps.map nameKey then reloaded c else bare c) = nameKey c := by
  split
  · exact nameKey_reloaded c
  · rfl

theorem keys_tableOf (cs ps : List Chan) : (tableOf cs ps).map nameKey =
    (cs.filter listed).map nameKey ++ (ps.filter held).map nameKey := by
  have hentry : nameKey ∘ (fun c => if nameKey c ∈ ps.map nameKey then reloaded c else bare c) =
      nameKey := funext (nameKey_entry ps)
  have hreloaded : nameKey ∘ reloaded = nameKey := funext nameKey_reloaded
  rw [tableOf_eq, List.map_append, List.map_map, List.map_map, hentry, hreloaded]

theorem bare_eq_opened {c : Chan} (h : listed c = false) : bare c = Chancmd.opened c.name := by
  rw [listed, Bool.or_eq_false_iff, bne_eq_false_iff_eq] at h
  rw [bare, listed, h.1, h.2]
  rfl

theorem not_listed {c : Chan} (h : held c = true) : listed c = false := by
  rw [held, Bool.and_eq_true, Bool.not_eq_true'] at h
  exact h.1

section

variable {cs ps rest : List Chan} {c : Chan} {b : BotState}

theorem eq_of_key (hnames : (cs.map nameKey).Nodup) {c d : Chan} (hc : c ∈ cs) (hd : d ∈ cs)
    (h : nameKey d = nameKey c) : d = c := List.inj_on_of_nodup_map hnames hd hc h

theorem key_notMem_front (hnames : (cs.map nameKey).Nodup) (hsplit : cs = ps ++ c :: rest) :
    nameKey c ∉ ps.map nameKey := by
  rw [hsplit, List.map_append, List.nodup_append] at hnames
  exact fun hin => hnames.2.2 _ hin _ (by simp) rfl

theorem key_notMem_listed (hnames : (cs.map nameKey).Nodup) (hmem : c ∈ cs)
    (hlisted : listed c = false) : nameKey c ∉ (cs.filter listed).map nameKey := by
  intro hin
  obtain ⟨d, hd, hkey⟩ := List.mem_map.mp hin
  obtain rfl := eq_of_key hnames hmem (List.mem_of_mem_filter hd) hkey
  exact Bool.false_ne_true (hlisted.symm.trans (List.mem_filter.mp hd).2)

theorem nodup_tableOf (hnames : (cs.map nameKey).Nodup) (hps : ps <+: cs) :
    ((tableOf cs ps).map nameKey).Nodup := by
  rw [keys_tableOf]
  refine List.nodup_append.mpr ⟨hnames.sublist ((List.filter_sublist).map nameKey),
    hnames.sublist (((List.filter_sublist).trans hps.sublist).map nameKey), ?_⟩
  rintro k hk k' hk' rfl
  obtain ⟨d, hd, rfl⟩ := List.mem_map.mp hk
  obtain ⟨e, he, hkey⟩ := List.mem_map.mp hk'
  obtain ⟨hdcs, hdlisted⟩ := List.mem_filter.mp hd
  obtain ⟨heps, heheld⟩ := List.mem_filter.mp he
  obtain rfl := eq_of_key hnames hdcs (hps.subset heps) hkey
  exact Bool.false_ne_true ((not_listed heheld).symm.trans hdlisted)

theorem settings_read (hc : SavableChan c) (hts : 0 < c.cfgTs) (b : BotState) :
    (applyCLine b (cBody (settingsOf c) c.cfgTs)).2 = (storeC b (settingsOf c)).2 :=
  congrArg Prod.snd
    (applyCLine_of_read (readCLine_cBody (hc.settings hts) hts (hc.settings hts).fits)).1

theorem mem_keys_concat {c d : Chan} (h : nameKey d ≠ nameKey c) (ps : List Chan) :
    nameKey d ∈ (ps ++ [c]).map nameKey ↔ nameKey d ∈ ps.map nameKey := by
  rw [List.map_append, List.mem_append]
  simp [h]

/-- The settings of a channel that is listed are put in its entry. -/
theorem tableOf_listed (hnames : (cs.map nameKey).Nodup) (hsplit : cs = ps ++ c :: rest)
    (hlisted : listed c = true) (hts : 0 < c.cfgTs) :
    (tableOf cs ps).map (fun d => if nameKey d = nameKey c then (settingsOf c).store d else d) =
      tableOf cs (ps ++ [c]) := by
  have hmem : c ∈ cs := by simp [hsplit]
  have hnew := key_notMem_front hnames hsplit
  have hheld : (ps ++ [c]).filter held = ps.filter held := by
    have hnot : held c = false := by rw [held, hlisted]; rfl
    rw [List.filter_append, List.filter_singleton, hnot, cond_false, List.append_nil]
  rw [tableOf_eq, tableOf_eq, hheld, List.map_append, List.map_map, List.map_map]
  congr 1
  · refine List.map_congr_left fun d hd => ?_
    rw [Function.comp_apply, nameKey_entry]
    by_cases hkey : nameKey d = nameKey c
    · obtain rfl := eq_of_key hnames hmem (List.mem_of_mem_filter hd) hkey
      rw [if_pos rfl, if_neg hnew, if_pos (by simp), reloaded, if_pos hts]
    · rw [if_neg hkey]
      simp only [mem_keys_concat hkey]
  · refine List.map_congr_left fun d hd => ?_
    rw [Function.comp_apply, nameKey_reloaded, if_neg]
    exact fun hkey => hnew (hkey ▸ List.mem_map_of_mem (List.mem_of_mem_filter hd))

/-- A channel that is not listed changes no entry. -/
theorem tableOf_unlisted (hnames : (cs.map nameKey).Nodup) (hmem : c ∈ cs)
    (hlisted : listed c = false) : tableOf cs (ps ++ [c]) =
      tableOf cs ps ++ if held c then [reloaded c] else [] := by
  have hentries : (cs.filter listed).map
      (fun d => if nameKey d ∈ (ps ++ [c]).map nameKey then reloaded d else bare d) =
      (cs.filter listed).map (fun d => if nameKey d ∈ ps.map nameKey then reloaded d else bare d) := by
    refine List.map_congr_left fun d hd => ?_
    have hne : nameKey d ≠ nameKey c := fun hkey =>
      key_notMem_listed hnames hmem hlisted (hkey ▸ List.mem_map_of_mem hd)
    simp only [mem_keys_concat hne]
  rw [tableOf_eq, tableOf_eq, hentries, List.filter_append, List.filter_singleton, List.map_append,
    List.append_assoc]
  cases held c <;> rfl

/-- Nor does one that has no settings. -/
theorem tableOf_plain (hcs : ∀ c ∈ cs, SavableChan c) (hnames : (cs.map nameKey).Nodup)
    (hmem : c ∈ cs) (hts : ¬ 0 < c.cfgTs) : tableOf cs (ps ++ [c]) = tableOf cs ps := by
  have hheld : held c = false := by rw [held, ((hcs c hmem).plain hts).2.2.2, Bool.and_false]
  rw [tableOf_eq, tableOf_eq, List.filter_append, List.filter_singleton, hheld, cond_false,
    List.append_nil]
  congr 1
  refine List.map_congr_left fun d hd => ?_
  by_cases hkey : nameKey d = nameKey c
  · obtain rfl := eq_of_key hnames hmem (List.mem_of_mem_filter hd) hkey
    rw [reloaded, if_neg hts, ite_self, ite_self]
  · simp only [mem_keys_concat hkey]

/-- The settings of one more channel. -/
theorem settings_step (hcs : ∀ c ∈ cs, SavableChan c) (hnames : (cs.map nameKey).Nodup)
    (hsplit : cs = ps ++ c :: rest) (hb : b.chans = tableOf cs ps) (hts : 0 < c.cfgTs) :
    ∃ gen, (applyCLine b (cBody (settingsOf c) c.cfgTs)).2 =
      { b with chans := tableOf cs (ps ++ [c]), cfgGen := gen } := by
  have hmem : c ∈ cs := by simp [hsplit]
  have hsaved := hcs c hmem
  have hfront : ps <+: cs := ⟨c :: rest, hsplit.symm⟩
  have hnodup := nodup_tableOf hnames hfront
  have hnew := key_notMem_front hnames hsplit
  have haccept : lwwAccepts c.cfgTs c.cfgActive 0 false = true := by simp [lwwAccepts, hts]
  rw [settings_read hsaved hts]
  cases hlisted : listed c with
  | true =>
      have hentry : bare c ∈ b.chans := by
        rw [hb, tableOf_eq]
        refine List.mem_append_left _ (List.mem_map.mpr ⟨c, List.mem_filter.mpr ⟨hmem, hlisted⟩, ?_⟩)
        rw [if_neg hnew]
      obtain ⟨i, hi⟩ := List.mem_iff_getElem?.mp hentry
      have hfind : find b c.name = some i :=
        (find_eq_place b c.name).trans ((place_eq_some_iff (hb ▸ hnodup)).mpr ⟨_, hi, rfl⟩)
      have hchan : chanForSettings b c.name c.cfgActive = some (i, b) := by
        rw [chanForSettings, hfind]
      rw [storeC_accepted hchan hi haccept, modify_eq_map (hb ▸ hnodup) hi, hb]
      exact ⟨_, by rw [← tableOf_listed hnames hsplit hlisted hts]; rfl⟩
  | false =>
      have hfind : find b c.name = none := by
        refine (find_eq_place b c.name).trans (place_eq_none_iff.mpr ?_)
        change nameKey c ∉ _
        rw [hb, keys_tableOf, List.mem_append, not_or]
        refine ⟨key_notMem_listed hnames hmem hlisted, fun hin => ?_⟩
        obtain ⟨d, hd, hkey⟩ := List.mem_map.mp hin
        exact hnew (hkey ▸ List.mem_map_of_mem (List.mem_of_mem_filter hd))
      rw [tableOf_unlisted hnames hmem hlisted, ← hb, held, hlisted]
      cases hactive : c.cfgActive with
      | true =>
          have hchan := chanForSettings_opens hfind hsaved.name_lt
          rw [← hactive] at hchan
          rw [storeC_accepted hchan List.getElem?_concat_length haccept, reloaded, if_pos hts,
            bare_eq_opened hlisted]
          exact ⟨b.cfgGen + 1, by rw [Chancmd.modify_concat]; rfl⟩
      | false =>
          rw [storeC_gone hfind hactive]
          exact ⟨b.cfgGen, by simp⟩

/-- **The `C|` records**: what the `c|` records have left gets its settings, and the channels that
are only held for them come behind. -/
theorem load_settings (hcs : ∀ c ∈ cs, SavableChan c) (hnames : (cs.map nameKey).Nodup) :
    ∀ {rest ps : List Chan} {b : BotState}, cs = ps ++ rest → b.chans = tableOf cs ps →
      ∃ gen, (rest.filter fun c => 0 < c.cfgTs).foldl
          (fun b c => (applyCLine b (cBody (settingsOf c) c.cfgTs)).2) b =
        { b with chans := tableOf cs cs, cfgGen := gen } := by
  intro rest
  induction rest with
  | nil =>
      intro ps b hsplit hb
      rw [List.append_nil] at hsplit
      exact ⟨b.cfgGen, by rw [← hsplit] at hb; rw [← hb]; rfl⟩
  | cons c rest ih =>
      intro ps b hsplit hb
      have hnext : cs = (ps ++ [c]) ++ rest := by rw [hsplit, List.append_assoc]; rfl
      by_cases hts : 0 < c.cfgTs
      · obtain ⟨gen, hstep⟩ := settings_step hcs hnames hsplit hb hts
        obtain ⟨gen', hrest⟩ := ih (b := { b with chans := tableOf cs (ps ++ [c]), cfgGen := gen })
          hnext rfl
        refine ⟨gen', ?_⟩
        rw [List.filter_cons_of_pos (by simpa using hts), List.foldl_cons, hstep, hrest]
      · rw [List.filter_cons_of_neg (by simpa using hts)]
        exact ih hnext (hb.trans (tableOf_plain hcs hnames (by simp [hsplit]) hts).symm)

end

end IrcBot.ConfigFile
