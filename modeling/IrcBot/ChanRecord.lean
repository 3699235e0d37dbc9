/-
# Channel records on disk and on the wire

A channel leaves the bot as a `c|` line in two forms: into the config file, which
`load` reads back (`parseCfgChan`), and into a hub frame, which a bot reads with
`parseHubChan`. The key comes from the network and is not checked.

* `roundTrips_iff` — both forms come back as they were exactly when neither the
  name nor the key holds a `|` and the key no line feed.
* `not_roundTrips` — a key with a `|` in it.
-/
import IrcBot.HubSync

namespace IrcBot.ChanRecord

open Cstr Chancfg Config HubPush HubSync

/-! ### The property -/

/-- What both forms carry. -/
structure Saved where
  name : Str
  key : Str
  isManaged : Bool
  timestamp : Int
deriving DecidableEq, Repr

def saved (c : Chan) : Saved := ⟨c.name, c.key, c.isManaged, c.timestamp⟩

/-- `strip_suffix('\r')`. -/
def stripCr (line : Str) : Str := if line.getLast? = some 13 then line.dropLast else line

/-- The body of a `c|` line. -/
def chanBody (line : Str) : Option Str :=
  match line with
  | typ :: sep :: data => if typ = byte 'c' ∧ sep = byte '|' then some data else none
  | _ => none

/-- The channels `load` reads from a config text: only `del` deletes. -/
def cfgChans (text : Str) : List Saved :=
  (splitOn (byte '\n') text).filterMap fun raw => do
    let p ← parseCfgChan (← chanBody (untilNul (stripCr raw)))
    some ⟨p.chan, p.key, p.op != str "del", p.ts⟩

/-- The channels a hub payload carries: only `add` adds. -/
def hubChans (payload : Str) : List Saved :=
  (splitOn (byte '\n') payload).filterMap fun line => do
    let p ← parseHubChan (← chanBody line)
    some ⟨p.chan, p.key, p.op == str "add", p.ts⟩

/-- Both forms of the line come back as one record, the same. -/
structure RoundTrips (c : Chan) : Prop where
  config : (cfgChanLine c).map cfgChans = some [saved c]
  hub : hubChans (chanLine c) = [saved c]

/-- The records the bot can hold: a name from a join command or a line, a key
that is one token of a line, a stamp. -/
structure Reachable (c : Chan) : Prop where
  name_ne : c.name ≠ []
  name_lt : c.name.length < maxChan
  name_line : ∀ b ∈ c.name, b ≠ 0 ∧ b ≠ byte '\n'
  key_lt : c.key.length < maxKey
  key_token : ∀ b ∈ c.key, b ≠ 0 ∧ b ≠ byte ' '
  ts_pos : 0 < c.timestamp
  ts_le : c.timestamp ≤ i64Max

/-- No byte of the record is a delimiter of its line. -/
structure Clean (c : Chan) : Prop where
  name : byte '|' ∉ c.name
  key : byte '|' ∉ c.key
  key_line : byte '\n' ∉ c.key

/-! ### The fields -/

theorem toI32_bounds (x : Int) : i64Min ≤ toI32 x ∧ toI32 x ≤ i64Max := by
  simp only [toI32, i64Min, i64Max]
  omega

theorem notDigit_pipe {rest : Str} : ∀ b ∈ (byte '|' :: rest).head?, isDigit b = false := by
  intro b hb
  obtain rfl : byte '|' = b := by simpa using hb
  decide

theorem addDel_field (active : Bool) :
    addDel active ≠ [] ∧ (addDel active).length ≤ 7 ∧ byte '|' ∉ addDel active := by
  cases active <;> decide

/-! ### Clean records come back -/

section

variable {c : Chan}

/-- The body of the line in the config file. -/
def cfgBody (c : Chan) : Str :=
  c.name ++ byte '|' :: (c.key ++ byte '|' :: (addDel c.isManaged ++ byte '|' :: dec c.timestamp))

/-- The body of the line in a hub frame, with the modes as a number. -/
def hubBody (c : Chan) (modes : Int) : Str :=
  c.name ++ byte '|' :: (c.key ++ byte '|' :: (dec modes ++ byte '|' ::
    (addDel c.isManaged ++ byte '|' :: dec c.timestamp)))

/-- The fields of the line are read whole. -/
structure Fields (c : Chan) : Prop where
  name_ne : c.name ≠ []
  name_lt : c.name.length < maxChan
  name : byte '|' ∉ c.name
  key_lt : c.key.length < maxKey
  key : byte '|' ∉ c.key
  ts_ge : i64Min ≤ c.timestamp
  ts_le : c.timestamp ≤ i64Max

theorem Reachable.fields (hc : Reachable c) (hclean : Clean c) : Fields c where
  name_ne := hc.name_ne
  name_lt := hc.name_lt
  name := hclean.name
  key_lt := hc.key_lt
  key := hclean.key
  ts_ge := by
    have hpos := hc.ts_pos
    simp only [i64Min]
    omega
  ts_le := hc.ts_le

theorem parseCfgChan_cfgBody (hc : Fields c) :
    parseCfgChan (cfgBody c) =
      some ⟨c.name, c.key, addDel c.isManaged, c.timestamp⟩ := by
  obtain ⟨hopne, hoplen, hop⟩ := addDel_field c.isManaged
  have hname : c.name.length ≤ 64 := Nat.le_of_lt_succ hc.name_lt
  have hkey : c.key.length ≤ 30 := Nat.le_of_lt_succ hc.key_lt
  have hts := sscanf_int_end hc.ts_ge hc.ts_le
  unfold parseCfgChan cfgBody
  dsimp only
  by_cases hempty : c.key = []
  · rw [hempty, List.nil_append]
    rw [sscanf_field hc.name_ne hname hc.name, sscanf_pipe, sscanf_field_nil]
    dsimp only
    rw [sscanf_field hc.name_ne hname hc.name, sscanf_pipe, sscanf_pipe,
      sscanf_field hopne (by omega) hop, sscanf_pipe, hts]
    simp [Conv.str, Conv.int]
  · rw [sscanf_field hc.name_ne hname hc.name, sscanf_pipe,
      sscanf_field hempty hkey hc.key, sscanf_pipe, sscanf_field hopne (by omega) hop,
      sscanf_pipe, hts]
    simp [Conv.str, Conv.int]

theorem parseHubChan_hubBody (hc : Fields c) {modes : Int}
    (hmin : i64Min ≤ modes) (hmax : modes ≤ i64Max) :
    parseHubChan (hubBody c modes) =
      some ⟨c.name, c.key, modes, addDel c.isManaged, c.timestamp⟩ := by
  obtain ⟨hopne, hoplen, hop⟩ := addDel_field c.isManaged
  have hname : c.name.length ≤ 64 := Nat.le_of_lt_succ hc.name_lt
  have hkey : c.key.length ≤ 30 := Nat.le_of_lt_succ hc.key_lt
  have hts := sscanf_int_end hc.ts_ge hc.ts_le
  unfold parseHubChan hubBody
  dsimp only
  by_cases hempty : c.key = []
  · rw [hempty, List.nil_append]
    rw [sscanf_field hc.name_ne hname hc.name, sscanf_pipe, sscanf_field_nil,
      sscanf_field hc.name_ne hname hc.name, sscanf_pipes, sscanf_int hmin hmax notDigit_pipe,
      sscanf_pipe, sscanf_field hopne hoplen hop, sscanf_pipe, hts]
    rw [if_neg (by simp), if_pos (by simp)]
    rfl
  · rw [sscanf_field hc.name_ne hname hc.name, sscanf_pipe,
      sscanf_field hempty hkey hc.key, sscanf_pipe,
      sscanf_int hmin hmax notDigit_pipe, sscanf_pipe, sscanf_field hopne hoplen hop, sscanf_pipe,
      hts]
    rw [if_pos (by simp)]
    rfl

/-! ### The line around the body -/

theorem cfgChanLine_eq (hts : 0 < c.timestamp) :
    cfgChanLine c = some (str "c|" ++ cfgBody c ++ byte '\n' :: []) := by
  have hpipe : str "|" = [byte '|'] := rfl
  have hend : str "\n" = [byte '\n'] := rfl
  simp [cfgChanLine, cfgBody, hpipe, hend, hts.ne']

theorem line_append (name key modes op ts : Str) :
    str "c|" ++ name ++ str "|" ++ key ++ str "|" ++ modes ++ str "|" ++ op ++ str "|" ++ ts ++
        str "\n" =
      str "c|" ++ (name ++ byte '|' :: (key ++ byte '|' :: (modes ++ byte '|' ::
        (op ++ byte '|' :: ts)))) ++ byte '\n' :: [] := by
  have hpipe : str "|" = [byte '|'] := rfl
  have hend : str "\n" = [byte '\n'] := rfl
  simp [hpipe, hend]

theorem chanLine_eq (c : Chan) :
    chanLine c = str "c|" ++ hubBody c (toI32 c.modes.toNat) ++ byte '\n' :: [] := by
  unfold chanLine hubBody
  exact line_append _ _ _ _ _

theorem notMem_cfgBody {b : UInt8} (hname : b ∉ c.name) (hkey : b ∉ c.key)
    (hop : b ∉ addDel c.isManaged) (hpipe : b ≠ byte '|') (hdigit : isDigit b = false)
    (hminus : b ≠ byte '-') : b ∉ cfgBody c := by
  simp [cfgBody, hname, hkey, hop, hpipe, notMem_dec hdigit hminus]

theorem newline_notMem_hubBody (hc : Reachable c) (hclean : Clean c) (modes : Int) :
    byte '\n' ∉ hubBody c modes := by
  have hname : byte '\n' ∉ c.name := fun h => (hc.name_line _ h).2 rfl
  have hdec (i : Int) : byte '\n' ∉ dec i := notMem_dec (by decide) (by decide)
  have hop : byte '\n' ∉ addDel c.isManaged := by cases c.isManaged <;> decide
  have hpipe : byte '\n' ≠ byte '|' := by decide
  simp [hubBody, hname, hclean.key_line, hop, hpipe, hdec]

/-- Nothing is cut off a config line on the way back in. -/
theorem untilNul_stripCr_cfgLine (hc : Reachable c) :
    untilNul (stripCr (str "c|" ++ cfgBody c)) = str "c|" ++ cfgBody c := by
  have hne : dec c.timestamp ≠ [] := by
    unfold dec
    split
    · simp
    · exact decNat_ne_nil _
  obtain ⟨front, last, hlast⟩ := List.eq_nil_or_concat' (dec c.timestamp) |>.resolve_left hne
  have hend : (str "c|" ++ cfgBody c).getLast? = some last := by
    rw [cfgBody, hlast]
    simp [List.getLast?_append, List.getLast?_cons]
  have hcr : last ≠ 13 := by
    rintro rfl
    have hmem : (13 : UInt8) ∈ dec c.timestamp := by simp [hlast]
    exact notMem_dec (by decide) (by decide) hmem
  rw [stripCr, hend, if_neg (by simpa using hcr)]
  refine untilNul_eq_self fun h => ?_
  have hop : (0 : UInt8) ∉ addDel c.isManaged := by cases c.isManaged <;> decide
  rcases List.mem_append.mp h with h | h
  · exact absurd h (by decide)
  · exact notMem_cfgBody (fun hmem => (hc.name_line _ hmem).1 rfl)
      (fun hmem => (hc.key_token _ hmem).1 rfl) hop (by decide) (by decide) (by decide) h

theorem addDel_beq (active : Bool) :
    (addDel active != str "del") = active ∧ (addDel active == str "add") = active := by
  cases active <;> decide

theorem cfgChans_of_clean (hc : Reachable c) (hclean : Clean c) :
    (cfgChanLine c).map cfgChans = some [saved c] := by
  have hline : byte '\n' ∉ str "c|" ++ cfgBody c := by
    have hop : byte '\n' ∉ addDel c.isManaged := by cases c.isManaged <;> decide
    have hbody : byte '\n' ∉ cfgBody c :=
      notMem_cfgBody (fun h => (hc.name_line _ h).2 rfl) hclean.key_line hop (by decide)
        (by decide) (by decide)
    have hhead : byte '\n' ∉ str "c|" := by decide
    simp [hbody, hhead]
  have hread : chanBody (str "c|" ++ cfgBody c) = some (cfgBody c) := rfl
  have hempty : chanBody (untilNul (stripCr [])) = none := rfl
  rw [cfgChanLine_eq hc.ts_pos, Option.map_some, cfgChans, splitOn_append hline]
  simp [splitOn, untilNul_stripCr_cfgLine hc, hread, hempty,
    parseCfgChan_cfgBody (hc.fields hclean), saved,
    (addDel_beq c.isManaged).1]

theorem hubChans_of_clean (hc : Reachable c) (hclean : Clean c) :
    hubChans (chanLine c) = [saved c] := by
  have hbody := newline_notMem_hubBody hc hclean (toI32 c.modes.toNat)
  have hline : byte '\n' ∉ str "c|" ++ hubBody c (toI32 c.modes.toNat) := by
    have hhead : byte '\n' ∉ str "c|" := by decide
    simp [hbody, hhead]
  obtain ⟨hmin, hmax⟩ := toI32_bounds c.modes.toNat
  rw [chanLine_eq, hubChans, splitOn_append hline]
  generalize toI32 c.modes.toNat = modes at *
  have hread : chanBody (str "c|" ++ hubBody c modes) = some (hubBody c modes) := rfl
  have hempty : chanBody [] = none := rfl
  simp [splitOn, hread, hempty, parseHubChan_hubBody (hc.fields hclean) hmin hmax, saved,
    (addDel_beq c.isManaged).2]

/-! ### Only clean records come back -/

/-- What is read from a line holds no `|` in its name and key, and nothing that
the line does not hold. -/
theorem notMem_parseCfgChan {data : Str} {p : CfgChan} {b : UInt8}
    (h : parseCfgChan data = some p) (hb : b ∉ data ∨ b = byte '|') : b ∉ p.chan ∧ b ∉ p.key := by
  have hread {fmt : List Fmt} {convs : List Conv} (heq : sscanf data fmt = convs)
      (hfmt : ∀ f ∈ fmt, f.Excludes (byte '|')) : ∀ v ∈ convs, b ∉ v.str := by
    rw [← heq]
    refine notMem_of_mem_sscanf fmt data ?_
    rcases hb with hb | rfl
    · exact .inl hb
    · exact .inr hfmt
  unfold parseCfgChan at h
  dsimp only at h
  split at h
  · rename_i chan key op rest heq
    obtain rfl := Option.some.inj h
    have hmem := hread heq (by simp [Fmt.Excludes])
    exact ⟨hmem chan (by simp), hmem key (by simp)⟩
  · split at h
    · rename_i chan op rest heq
      obtain rfl := Option.some.inj h
      have hmem := hread heq (by simp [Fmt.Excludes])
      exact ⟨hmem chan (by simp), by simp⟩
    · simp at h

theorem clean_of_cfgChans (hc : Reachable c) (h : (cfgChanLine c).map cfgChans = some [saved c]) :
    Clean c := by
  rw [cfgChanLine_eq hc.ts_pos, Option.map_some, Option.some.injEq] at h
  have hmem : saved c ∈ cfgChans (str "c|" ++ cfgBody c ++ byte '\n' :: []) := by
    rw [h]
    exact List.mem_singleton_self _
  simp only [cfgChans, List.mem_filterMap, Option.bind_eq_bind, Option.bind_eq_some_iff,
    Option.some.injEq] at hmem
  obtain ⟨raw, hraw, data, hbody, p, hparse, hsaved⟩ := hmem
  have hline : byte '\n' ∉ data := by
    have hsub : data ⊆ raw := by
      unfold chanBody at hbody
      split at hbody
      · rename_i typ sep data' heq
        split at hbody
        · obtain rfl : data' = data := by simpa using hbody
          intro b hb
          have hstrip : b ∈ stripCr raw := by
            refine (List.takeWhile_sublist (· ≠ (0 : UInt8))).subset ?_
            rw [show (stripCr raw).takeWhile (· ≠ 0) = _ from heq]
            exact List.mem_cons_of_mem _ (List.mem_cons_of_mem _ hb)
          unfold stripCr at hstrip
          split at hstrip
          · exact List.dropLast_subset _ hstrip
          · exact hstrip
        · simp at hbody
      · simp at hbody
    exact fun hmem => notMem_of_mem_splitOn hraw (hsub hmem)
  simp only [saved, Saved.mk.injEq] at hsaved
  obtain ⟨hname, hkey, -, -⟩ := hsaved
  have hpipe := notMem_parseCfgChan hparse (b := byte '|') (.inr rfl)
  have hnewline := notMem_parseCfgChan hparse (.inl hline)
  rw [hname, hkey] at hpipe hnewline
  exact ⟨hpipe.1, hpipe.2, hnewline.2⟩

/-- **When a channel record comes back**: exactly when none of its bytes is a
delimiter of the line. -/
theorem roundTrips_iff (hc : Reachable c) : RoundTrips c ↔ Clean c :=
  ⟨fun h => clean_of_cfgChans hc h.config,
    fun hclean => ⟨cfgChans_of_clean hc hclean, hubChans_of_clean hc hclean⟩⟩

end

/-- A channel with its key. -/
def keyed (key : Str) : Chan :=
  { name := str "#c", key := key, isManaged := true, timestamp := 5 }

/-- A plain key comes back. -/
theorem roundTrips_iff_plain :
    Reachable (keyed (str "sesame")) ∧ RoundTrips (keyed (str "sesame")) := by
  have hc : Reachable (keyed (str "sesame")) :=
    ⟨by decide, by decide, by decide +kernel, by decide, by decide +kernel, by decide,
      by decide⟩
  exact ⟨hc, (roundTrips_iff hc).mpr ⟨by decide, by decide, by decide⟩⟩

/-- A key with a `|` in it does not: its second half is taken for the op. -/
theorem not_roundTrips : ¬ ∀ c : Chan, Reachable c → RoundTrips c := by
  intro hall
  have hc : Reachable (keyed (str "a|b")) :=
    ⟨by decide, by decide, by decide +kernel, by decide, by decide +kernel, by decide,
      by decide⟩
  have hread := (hall _ hc).config
  revert hread
  decide

end IrcBot.ChanRecord
