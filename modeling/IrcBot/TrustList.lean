/-
# The trusted bots and the hub's list (`hub_client.rs`)

A payload with a `T|` marker makes its `b|` lines the whole trusted set: the lines
are merged into the table one by one, and what is not listed is revoked at the
end.

* `trustListAgrees_iff` — when the table lists exactly the bots of the payload
  afterwards: every line has to go in, and must not push out an earlier one.
* `not_trustListAgrees` — an entry that is about to be revoked can keep a listed bot
  out, here by having its mask and a later stamp.
-/
import IrcBot.HubSync

namespace IrcBot.TrustList

open Cstr Chancfg Config HubPush HubSync

/-! ### One line -/

/-- The line replaces the entry it was matched with. -/
def replaces (ex inb : TrustedBot) : Bool :=
  ex.ts < inb.ts || (inb.ts == ex.ts && inb.hasPub && (!ex.hasPub || ex.pubKey != inb.pubKey))

/-- A keyless line of the older shape keeps the key on file. -/
def keepKey (ex inb : TrustedBot) : TrustedBot :=
  if !inb.hasPub && ex.hasPub && ex.uuid == inb.uuid then
    { inb with hasPub := true, pubKey := ex.pubKey }
  else inb

/-- What `sync_bot_line` makes of the table. -/
def putBot (bots : List TrustedBot) (inb : TrustedBot) : List TrustedBot :=
  let (byUuid, bots) := sweepUuid bots inb.uuid
  match (byUuid.or (bots.findIdx? fun t => t.mask == inb.mask)).bind fun i =>
      bots[i]?.map fun t => (i, t) with
  | some (i, ex) => if replaces ex inb then bots.set i (keepKey ex inb) else bots
  | none => if bots.length < maxTrustedBots then bots ++ [inb] else bots

theorem syncBotLine_of_parse {P : Primitives} {b : BotState} {data : Str} {listed : List Str}
    {inb : TrustedBot} (h : parseBotLine P data = some inb) :
    (syncBotLine P b data listed).2.2.trustedBots = putBot b.trustedBots inb ∧
      (syncBotLine P b data listed).2.1 =
        if !inb.uuid.isEmpty && listed.length < maxTrustedBots then listed ++ [inb.uuid]
        else listed := by
  unfold syncBotLine putBot
  rw [h]
  dsimp only
  rcases sweepUuid b.trustedBots inb.uuid with ⟨byUuid, bots⟩
  dsimp only
  cases (byUuid.or (bots.findIdx? fun t => t.mask == inb.mask)).bind fun i =>
      bots[i]?.map fun t => (i, t) with
  | some m =>
      obtain ⟨i, ex⟩ := m
      have hreplaces : (ex.ts < inb.ts ∨ (inb.ts = ex.ts ∧
          (inb.hasPub && (!ex.hasPub || ex.pubKey != inb.pubKey)) = true)) ↔
          replaces ex inb = true := by
        simp [replaces, and_assoc]
      dsimp only
      simp only [hreplaces]
      split
      · exact ⟨rfl, rfl⟩
      · exact ⟨rfl, rfl⟩
  | none =>
      dsimp only
      split
      · exact ⟨rfl, rfl⟩
      · exact ⟨rfl, rfl⟩

theorem keepKey_eq (ex inb : TrustedBot) :
    (keepKey ex inb).uuid = inb.uuid ∧ (keepKey ex inb).mask = inb.mask := by
  unfold keepKey
  split <;> exact ⟨rfl, rfl⟩

/-- The first element that satisfies a test, and where it is. -/
theorem findIdx?_split {α : Type} {p : α → Bool} {xs : List α} (h : ∃ x ∈ xs, p x = true) :
    ∃ before x after, xs = before ++ x :: after ∧ p x = true ∧ (∀ y ∈ before, p y = false) ∧
      xs.findIdx? p = some before.length := by
  obtain ⟨x, hfind⟩ := Option.isSome_iff_exists.mp (List.find?_isSome.mpr h)
  obtain ⟨hp, before, after, rfl, hbefore⟩ := List.find?_eq_some_iff_append.mp hfind
  have hnot : ∀ y ∈ before, p y = false := fun y hy => by simpa using hbefore y hy
  refine ⟨before, x, after, rfl, hp, hnot, ?_⟩
  rw [List.findIdx?_append, List.findIdx?_eq_none_iff.mpr hnot]
  simp [List.findIdx?_cons, hp]

/-- The sweep of a uuid stops for its first entry. -/
theorem sweepUuid_of_split (before after : List TrustedBot) {x : TrustedBot} {uuid : Str}
    (hne : uuid ≠ []) (hx : x.uuid = uuid) (hbefore : ∀ y ∈ before, y.uuid ≠ uuid) :
    sweepUuid (before ++ x :: after) uuid =
      (some before.length, before ++ x :: after.filter (·.uuid != uuid)) := by
  have hfind : (before ++ x :: after).findIdx? (fun t => t.uuid == uuid) = some before.length := by
    rw [List.findIdx?_append, List.findIdx?_eq_none_iff.mpr fun y hy => by simpa using hbefore y hy]
    simp [List.findIdx?_cons, hx]
  have hcut : before ++ x :: after = (before ++ [x]) ++ after := by simp
  have htake : (before ++ x :: after).take (before.length + 1) = before ++ [x] := by
    rw [hcut]
    exact List.take_left' (by simp)
  have hdrop : (before ++ x :: after).drop (before.length + 1) = after := by
    rw [hcut]
    exact List.drop_left' (by simp)
  rw [sweepUuid, if_neg (by simpa using hne), hfind]
  dsimp only
  rw [htake, hdrop, List.append_assoc]
  rfl

theorem sweepUuid_of_none {bots : List TrustedBot} {uuid : Str} (h : ∀ t ∈ bots, t.uuid ≠ uuid) :
    sweepUuid bots uuid = (none, bots) := by
  have hnone : bots.findIdx? (fun t => t.uuid == uuid) = none :=
    List.findIdx?_eq_none_iff.mpr fun t ht => by simpa using h t ht
  rw [sweepUuid, hnone]
  split <;> rfl

/-- A line whose uuid is in the table stays with that entry, and sweeps the other
ones of that uuid. -/
theorem putBot_of_uuid {bots : List TrustedBot} {inb : TrustedBot} (hne : inb.uuid ≠ [])
    (h : ∃ t ∈ bots, t.uuid = inb.uuid) :
    ∃ before x x' after, bots = before ++ x :: after ∧ x.uuid = inb.uuid ∧
      (∀ y ∈ before, y.uuid ≠ inb.uuid) ∧ x'.uuid = inb.uuid ∧ (x' = x ∨ x'.mask = inb.mask) ∧
      putBot bots inb = before ++ x' :: after.filter (·.uuid != inb.uuid) := by
  obtain ⟨before, x, after, rfl, hx, hbefore, -⟩ :=
    findIdx?_split (p := fun t : TrustedBot => t.uuid == inb.uuid) (by simpa using h)
  have hx' : x.uuid = inb.uuid := by simpa using hx
  have hsweep := sweepUuid_of_split before after hne hx' fun y hy => by
    simpa using hbefore y hy
  refine ⟨before, x, if replaces x inb then keepKey x inb else x, after, rfl, hx',
    fun y hy => by simpa using hbefore y hy, ?_, ?_, ?_⟩
  · split
    · exact (keepKey_eq x inb).1
    · exact hx'
  · split
    · exact .inr (keepKey_eq x inb).2
    · exact .inl rfl
  · rw [putBot, hsweep]
    simp only [Option.some_or, Option.bind_some, List.getElem?_append_right, Nat.le_refl,
      Nat.sub_self, List.getElem?_cons_zero, Option.map_some]
    split
    · simp
    · rfl

/-- Where the mask of a line with a new uuid is taken, the line replaces that entry
or is dropped. -/
theorem putBot_of_mask {bots : List TrustedBot} {inb : TrustedBot}
    (huuid : ∀ t ∈ bots, t.uuid ≠ inb.uuid) (h : ∃ t ∈ bots, t.mask = inb.mask) :
    ∃ before x after, bots = before ++ x :: after ∧
      bots.find? (·.mask == inb.mask) = some x ∧
      putBot bots inb = if replaces x inb then before ++ inb :: after else bots := by
  obtain ⟨before, x, after, rfl, hx, hbefore, hfind⟩ :=
    findIdx?_split (p := fun t : TrustedBot => t.mask == inb.mask) (by simpa using h)
  have hsweep := sweepUuid_of_none huuid
  have hkeep : keepKey x inb = inb := by
    have hne := huuid x (by simp)
    simp [keepKey, hne]
  refine ⟨before, x, after, rfl, ?_, ?_⟩
  · exact List.find?_eq_some_iff_append.mpr ⟨hx, before, after, rfl, fun y hy => by
      simpa using hbefore y hy⟩
  · rw [putBot, hsweep]
    simp only [hfind, Option.none_or, Option.bind_some, List.getElem?_append_right, Nat.le_refl,
      Nat.sub_self, List.getElem?_cons_zero, Option.map_some, hkeep]
    split
    · simp
    · rfl

/-- A line with a new uuid and a new mask is appended, if there is room. -/
theorem putBot_of_new {bots : List TrustedBot} {inb : TrustedBot}
    (huuid : ∀ t ∈ bots, t.uuid ≠ inb.uuid) (hmask : ∀ t ∈ bots, t.mask ≠ inb.mask) :
    putBot bots inb = if bots.length < maxTrustedBots then bots ++ [inb] else bots := by
  have hsweep := sweepUuid_of_none huuid
  have hfind : bots.findIdx? (fun t => t.mask == inb.mask) = none :=
    List.findIdx?_eq_none_iff.mpr fun t ht => by simpa using hmask t ht
  rw [putBot, hsweep]
  simp only [hfind, Option.none_or, Option.bind_none]

/-! ### Which uuids are in the table -/

/-- How often a uuid is in the table. -/
def entries (u : Str) (bots : List TrustedBot) : Nat := bots.countP (·.uuid == u)

theorem entries_append (u : Str) (bots bots' : List TrustedBot) :
    entries u (bots ++ bots') = entries u bots + entries u bots' := List.countP_append

theorem entries_cons (u : Str) (t : TrustedBot) (bots : List TrustedBot) :
    entries u (t :: bots) = entries u bots + if t.uuid = u then 1 else 0 := by
  simp [entries, List.countP_cons]

theorem entries_pos {u : Str} {bots : List TrustedBot} :
    0 < entries u bots ↔ ∃ t ∈ bots, t.uuid = u := by
  simp [entries, List.countP_pos_iff]

theorem entries_eq_zero {u : Str} {bots : List TrustedBot} :
    entries u bots = 0 ↔ ∀ t ∈ bots, t.uuid ≠ u := by
  simp [entries, List.countP_eq_zero]

/-- Sweeping one uuid leaves the others. -/
theorem entries_filter {u v : Str} (hne : u ≠ v) (bots : List TrustedBot) :
    entries u (bots.filter (·.uuid != v)) = entries u bots := by
  rw [entries, entries, List.countP_filter]
  refine List.countP_congr fun t _ => ?_
  simp only [Bool.and_eq_true, beq_iff_eq, bne_iff_ne, and_iff_left_iff_imp]
  rintro rfl
  exact hne

theorem entries_filter_self (u : Str) (bots : List TrustedBot) :
    entries u (bots.filter (·.uuid != u)) = 0 :=
  entries_eq_zero.mpr fun t ht => by simpa using (List.mem_filter.mp ht).2

/-- A sweep takes out nothing exactly if the uuid is there once at most. -/
theorem sweepUuid_eq_self (bots : List TrustedBot) (uuid : Str) :
    (sweepUuid bots uuid).2.Sublist bots ∧
      ((sweepUuid bots uuid).2 = bots ↔ (uuid ≠ [] → entries uuid bots ≤ 1)) := by
  by_cases hne : uuid = []
  · subst hne
    exact ⟨List.Sublist.refl _, by simp [sweepUuid]⟩
  · by_cases h : ∃ t ∈ bots, t.uuid = uuid
    · obtain ⟨before, x, after, rfl, hx, hbefore, -⟩ :=
        findIdx?_split (p := fun t : TrustedBot => t.uuid == uuid) (by simpa using h)
      have hx' : x.uuid = uuid := by simpa using hx
      have hbefore' : ∀ y ∈ before, y.uuid ≠ uuid := fun y hy => by simpa using hbefore y hy
      rw [sweepUuid_of_split before after hne hx' hbefore', entries_append,
        entries_cons, if_pos hx',
        entries_eq_zero.mpr hbefore']
      refine ⟨List.Sublist.append_left (List.filter_sublist.cons_cons x) before, ?_⟩
      rw [List.append_right_inj, List.cons_inj_right, List.filter_eq_self]
      constructor
      · intro hall _
        have hzero : entries uuid after = 0 := entries_eq_zero.mpr fun t ht => by
          simpa using hall t ht
        omega
      · intro hone t ht
        have hone := hone hne
        have hzero : entries uuid after = 0 := by omega
        simpa using entries_eq_zero.mp hzero t ht
    · have hnone : ∀ t ∈ bots, t.uuid ≠ uuid := fun t ht heq => h ⟨t, ht, heq⟩
      rw [sweepUuid_of_none hnone, entries_eq_zero.mpr hnone]
      exact ⟨List.Sublist.refl _, iff_of_true rfl fun _ => Nat.zero_le 1⟩

/-- The line goes in: its uuid is there, or it replaces an entry that is not one of
the `seen`, or there is room. -/
def GoesIn (seen : List Str) (bots : List TrustedBot) (inb : TrustedBot) : Prop :=
  (∃ t ∈ bots, t.uuid = inb.uuid) ∨
    match bots.find? (·.mask == inb.mask) with
    | some ex => replaces ex inb = true ∧ ex.uuid ∉ seen
    | none => bots.length < maxTrustedBots

/-- The lines go in one after the other. -/
def AllGoIn (seen : List Str) (bots : List TrustedBot) : List TrustedBot → Prop
  | [] => True
  | inb :: lines => GoesIn seen bots inb ∧ AllGoIn (inb.uuid :: seen) (putBot bots inb) lines

/-- What one line does to the uuids. -/
theorem entries_putBot {seen : List Str} {bots : List TrustedBot} {inb : TrustedBot}
    (hne : inb.uuid ≠ []) (hnew : inb.uuid ∉ seen) (hseen : ∀ u ∈ seen, entries u bots = 1) :
    (GoesIn seen bots inb ∧ ∀ u ∈ inb.uuid :: seen, entries u (putBot bots inb) = 1) ∨
      ¬ GoesIn seen bots inb ∧ ∃ u ∈ inb.uuid :: seen, entries u (putBot bots inb) = 0 := by
  by_cases huuid : ∃ t ∈ bots, t.uuid = inb.uuid
  · obtain ⟨before, x, x', after, rfl, hx, hbefore, hx', -, hput⟩ := putBot_of_uuid hne huuid
    refine .inl ⟨.inl huuid, fun u hu => ?_⟩
    rw [hput, entries_append, entries_cons, hx']
    rcases List.mem_cons.mp hu with rfl | hu
    · rw [entries_filter_self, entries_eq_zero.mpr hbefore, if_pos rfl]
    · have hneu : u ≠ inb.uuid := fun heq => hnew (heq ▸ hu)
      have hone := hseen u hu
      rw [entries_append, entries_cons, hx, if_neg hneu.symm] at hone
      rw [entries_filter hneu, if_neg hneu.symm]
      exact hone
  · rw [not_exists] at huuid
    have huuid' : ∀ t ∈ bots, t.uuid ≠ inb.uuid := fun t ht heq => huuid t ⟨ht, heq⟩
    have hzero : entries inb.uuid bots = 0 := entries_eq_zero.mpr huuid'
    have hnot : ¬ ∃ t ∈ bots, t.uuid = inb.uuid := fun ⟨t, ht, heq⟩ => huuid' t ht heq
    by_cases hmask : ∃ t ∈ bots, t.mask = inb.mask
    · obtain ⟨before, x, after, hbots, hfind, hput⟩ := putBot_of_mask huuid' hmask
      have hx : x.uuid ≠ inb.uuid := huuid' x (by simp [hbots])
      have hgoes : GoesIn seen bots inb ↔ replaces x inb = true ∧ x.uuid ∉ seen := by
        rw [GoesIn, hfind, or_iff_right hnot]
      have hcount (u : Str) : entries u bots =
          entries u before + (entries u after + if x.uuid = u then 1 else 0) := by
        rw [hbots, entries_append, entries_cons]
      rw [hgoes, hput]
      by_cases hreplaces : replaces x inb = true
      · rw [if_pos hreplaces]
        by_cases hxseen : x.uuid ∈ seen
        · -- an entry that an earlier line has put there is pushed out
          refine .inr ⟨fun h => h.2 hxseen, x.uuid, List.mem_cons_of_mem _ hxseen, ?_⟩
          have hone := hseen x.uuid hxseen
          rw [hcount, if_pos rfl] at hone
          rw [entries_append, entries_cons, if_neg hx.symm]
          omega
        · refine .inl ⟨⟨hreplaces, hxseen⟩, fun u hu => ?_⟩
          have hcountu := hcount u
          rw [entries_append, entries_cons]
          rcases List.mem_cons.mp hu with rfl | hu
          · rw [hzero, if_neg hx] at hcountu
            rw [if_pos rfl]
            omega
          · have hneu : inb.uuid ≠ u := fun heq => hnew (heq ▸ hu)
            have hnex : x.uuid ≠ u := fun heq => hxseen (heq ▸ hu)
            rw [hseen u hu, if_neg hnex] at hcountu
            rw [if_neg hneu]
            omega
      · rw [if_neg hreplaces]
        exact .inr ⟨fun h => hreplaces h.1, inb.uuid, List.mem_cons_self, hzero⟩
    · have hmask' : ∀ t ∈ bots, t.mask ≠ inb.mask := fun t ht heq => hmask ⟨t, ht, heq⟩
      have hfind : bots.find? (·.mask == inb.mask) = none :=
        List.find?_eq_none.mpr fun t ht => by simpa using hmask' t ht
      have hgoes : GoesIn seen bots inb ↔ bots.length < maxTrustedBots := by
        rw [GoesIn, hfind, or_iff_right hnot]
      rw [hgoes, putBot_of_new huuid' hmask']
      by_cases hroom : bots.length < maxTrustedBots
      · rw [if_pos hroom]
        refine .inl ⟨hroom, fun u hu => ?_⟩
        rw [entries_append, entries_cons]
        rcases List.mem_cons.mp hu with rfl | hu
        · rw [hzero, if_pos rfl]
          rfl
        · have hneu : inb.uuid ≠ u := fun heq => hnew (heq ▸ hu)
          rw [hseen u hu, if_neg hneu]
          rfl
      · rw [if_neg hroom]
        exact .inr ⟨hroom, inb.uuid, List.mem_cons_self, hzero⟩

/-- A line brings in no uuid but its own. -/
theorem entries_putBot_of_ne {bots : List TrustedBot} {inb : TrustedBot} {u : Str}
    (hinb : inb.uuid ≠ []) (hne : inb.uuid ≠ u) (hzero : entries u bots = 0) :
    entries u (putBot bots inb) = 0 := by
  by_cases huuid : ∃ t ∈ bots, t.uuid = inb.uuid
  · obtain ⟨before, x, x', after, rfl, -, -, hx', -, hput⟩ := putBot_of_uuid hinb huuid
    rw [entries_append, entries_cons] at hzero
    rw [hput, entries_append, entries_cons, entries_filter hne.symm, hx', if_neg hne]
    omega
  · have huuid' : ∀ t ∈ bots, t.uuid ≠ inb.uuid := fun t ht heq => huuid ⟨t, ht, heq⟩
    by_cases hmask : ∃ t ∈ bots, t.mask = inb.mask
    · obtain ⟨before, x, after, hbots, -, hput⟩ := putBot_of_mask huuid' hmask
      rw [hput]
      split
      · rw [hbots, entries_append, entries_cons] at hzero
        rw [entries_append, entries_cons, if_neg hne]
        omega
      · exact hzero
    · rw [putBot_of_new huuid' fun t ht heq => hmask ⟨t, ht, heq⟩]
      split
      · rw [entries_append, entries_cons, if_neg hne, hzero]
        rfl
      · exact hzero

/-- **All lines go in exactly if their uuids are there in the end**, with those seen
before. -/
theorem allGoIn_iff {lines : List TrustedBot} : ∀ {seen : List Str} {bots : List TrustedBot},
    (∀ inb ∈ lines, inb.uuid ≠ []) → (lines.map (·.uuid)).Nodup →
    (∀ inb ∈ lines, inb.uuid ∉ seen) → (∀ u ∈ seen, entries u bots = 1) →
    (AllGoIn seen bots lines ↔
      ∀ u, u ∈ seen ∨ u ∈ lines.map (·.uuid) → 0 < entries u (lines.foldl putBot bots)) := by
  induction lines with
  | nil =>
      intro seen bots _ _ _ hseen
      refine iff_of_true trivial fun u hu => ?_
      have hone := hseen u (by simpa using hu)
      rw [List.foldl_nil]
      omega
  | cons inb lines ih =>
      intro seen bots hne hnodup hnew hseen
      simp only [List.mem_cons, forall_eq_or_imp, List.map_cons, List.nodup_cons] at hne hnodup hnew
      have hseen' : ∀ inb' ∈ lines, inb'.uuid ∉ inb.uuid :: seen := by
        intro inb' hmem hin
        rcases List.mem_cons.mp hin with heq | hin
        · exact hnodup.1 (List.mem_map.mpr ⟨inb', hmem, heq⟩)
        · exact hnew.2 inb' hmem hin
      rw [AllGoIn, List.foldl_cons]
      rcases entries_putBot hne.1 hnew.1 hseen with ⟨hgoes, hone⟩ | ⟨hnot, u, hu, hzero⟩
      · rw [and_iff_right hgoes, ih hne.2 hnodup.2 hseen' hone]
        refine forall_congr' fun u => imp_congr_left ?_
        simp only [List.mem_cons, List.map_cons]
        tauto
      · refine iff_of_false (fun h => hnot h.1) fun hall => ?_
        -- what is lost does not come back
        have hlost : ∀ (lines : List TrustedBot) (bots : List TrustedBot),
            (∀ inb' ∈ lines, inb'.uuid ≠ [] ∧ inb'.uuid ≠ u) → entries u bots = 0 →
              entries u (lines.foldl putBot bots) = 0 := by
          intro lines
          induction lines with
          | nil => exact fun bots _ h => h
          | cons inb' lines ih' =>
              intro bots hlines hbots
              simp only [List.mem_cons, forall_eq_or_imp] at hlines
              exact ih' _ hlines.2 (entries_putBot_of_ne hlines.1.1 hlines.1.2 hbots)
        have hpos := hall u (by
          rcases List.mem_cons.mp hu with rfl | hu
          · exact .inr (by simp)
          · exact .inl hu)
        rw [hlost lines _ (fun inb' hmem => ⟨hne.2 inb' hmem, fun heq => ?_⟩) hzero] at hpos
        · exact absurd hpos (Nat.lt_irrefl 0)
        · exact hseen' inb' hmem (heq ▸ hu)

/-- The table grows by at most the line. -/
theorem mem_putBot (bots : List TrustedBot) {inb : TrustedBot} (hne : inb.uuid ≠ []) :
    (putBot bots inb).length ≤ bots.length + 1 ∧
      ∀ t ∈ putBot bots inb, t ∈ bots ∨ t.mask = inb.mask := by
  by_cases huuid : ∃ t ∈ bots, t.uuid = inb.uuid
  · obtain ⟨before, x, x', after, rfl, -, -, -, hx', hput⟩ := putBot_of_uuid hne huuid
    rw [hput]
    constructor
    · have hle := List.length_filter_le (·.uuid != inb.uuid) after
      simp only [List.length_append, List.length_cons]
      omega
    · intro t ht
      rcases List.mem_append.mp ht with ht | ht
      · exact .inl (List.mem_append_left _ ht)
      · rcases List.mem_cons.mp ht with rfl | ht
        · exact hx'.imp_left fun heq => by simp [heq]
        · exact .inl (by simp [List.mem_of_mem_filter ht])
  · have huuid' : ∀ t ∈ bots, t.uuid ≠ inb.uuid := fun t ht heq => huuid ⟨t, ht, heq⟩
    by_cases hmask : ∃ t ∈ bots, t.mask = inb.mask
    · obtain ⟨before, x, after, rfl, -, hput⟩ := putBot_of_mask huuid' hmask
      rw [hput]
      split
      · refine ⟨by simp, fun t ht => ?_⟩
        simp only [List.mem_append, List.mem_cons] at ht ⊢
        rcases ht with ht | rfl | ht
        · exact .inl (.inl ht)
        · exact .inr rfl
        · exact .inl (.inr (.inr ht))
      · exact ⟨Nat.le_succ _, fun t ht => .inl ht⟩
    · rw [putBot_of_new huuid' fun t ht heq => hmask ⟨t, ht, heq⟩]
      split
      · refine ⟨by simp, fun t ht => ?_⟩
        rcases List.mem_append.mp ht with ht | ht
        · exact .inl ht
        · exact .inr (by rw [List.mem_singleton.mp ht])
      · exact ⟨Nat.le_succ _, fun t ht => .inl ht⟩

/-- Lines go in that have masks of their own, if there is room for all of them. -/
theorem allGoIn_of_room {lines : List TrustedBot} : ∀ {seen : List Str} {bots : List TrustedBot},
    (∀ inb ∈ lines, inb.uuid ≠ []) → (lines.map (·.mask)).Nodup →
    (∀ inb ∈ lines, ∀ t ∈ bots, t.mask = inb.mask → t.uuid = inb.uuid) →
    bots.length + lines.length ≤ maxTrustedBots → AllGoIn seen bots lines := by
  induction lines with
  | nil => exact fun _ _ _ _ => trivial
  | cons inb lines ih =>
      intro seen bots hne hnodup hmask hroom
      simp only [List.mem_cons, forall_eq_or_imp, List.map_cons, List.nodup_cons,
        List.length_cons] at hne hnodup hmask hroom
      have hput := mem_putBot bots hne.1
      refine ⟨?_, ih hne.2 hnodup.2 (fun inb' hmem t ht heq => ?_) (by omega)⟩
      · by_cases huuid : ∃ t ∈ bots, t.uuid = inb.uuid
        · exact .inl huuid
        · refine .inr ?_
          have hfind : bots.find? (·.mask == inb.mask) = none :=
            List.find?_eq_none.mpr fun t ht heq =>
              huuid ⟨t, ht, hmask.1 t ht (by simpa using heq)⟩
          rw [hfind]
          dsimp only
          omega
      · rcases hput.2 t ht with hold | hown
        · exact hmask.2 inb' hmem t hold heq
        · exact absurd (List.mem_map.mpr ⟨inb', hmem, heq.symm.trans hown⟩) hnodup.1

/-! ### The payload -/

/-- The body of a `b|` line. -/
def botBody (line : Str) : Option Str :=
  match line with
  | typ :: sep :: data => if typ = byte 'b' ∧ sep = byte '|' then some data else none
  | _ => none

/-- The lines of a payload that are processed: those up to its maximal size. -/
def workLines (payload : Str) : List Str := splitOn (byte '\n') (trunc payload maxConfigPayload)

section

variable (P : Primitives)

/-- The bots that lines list. -/
def listedBots (lines : List Str) : List TrustedBot :=
  lines.filterMap fun line => (botBody line).bind (parseBotLine P)

theorem trustedBots_applyPurge (b : BotState) (arg : Str) :
    (applyPurge b arg).trustedBots = b.trustedBots := by
  unfold applyPurge
  split
  · rfl
  · split
    · rfl
    · dsimp only
      split
      · rw [(sameButPush_writeConfig _).eq]
        rfl
      · rfl

/-- One line of a payload, as the trusted bots see it. -/
theorem trustedBots_syncLine (s : Syncing) (line : Str) :
    match (botBody line).bind (parseBotLine P) with
    | some inb => (syncLine P s line).b.trustedBots = putBot s.b.trustedBots inb ∧
        (syncLine P s line).listed =
          if !inb.uuid.isEmpty && s.listed.length < maxTrustedBots then s.listed ++ [inb.uuid]
          else s.listed
    | none => (syncLine P s line).b.trustedBots = s.b.trustedBots ∧
        (syncLine P s line).listed = s.listed := by
  by_cases hbot : ∃ data, line = byte 'b' :: byte '|' :: data
  · obtain ⟨data, rfl⟩ := hbot
    rw [syncLine_record, show botBody (byte 'b' :: byte '|' :: data) = some data from rfl,
      Option.bind_some]
    have hrecord : (syncRecord P s (byte 'b') data).b = (syncBotLine P s.b data s.listed).2.2 ∧
        (syncRecord P s (byte 'b') data).listed = (syncBotLine P s.b data s.listed).2.1 :=
      ⟨rfl, rfl⟩
    rw [hrecord.1, hrecord.2]
    cases hparse : parseBotLine P data with
    | some inb => exact syncBotLine_of_parse hparse
    | none =>
        rw [syncBotLine, hparse]
        exact ⟨rfl, rfl⟩
  · have hbody : botBody line = none := by
      unfold botBody
      split
      · exact if_neg fun htyp => hbot ⟨_, by rw [htyp.1, htyp.2]⟩
      · rfl
    rw [hbody, Option.bind_none]
    refine syncLine_cases P s line
      (Q := fun s' => s'.b.trustedBots = s.b.trustedBots ∧ s'.listed = s.listed)
      ⟨rfl, rfl⟩ (fun arg _ => ⟨trustedBots_applyPurge s.b arg, rfl⟩) fun typ data hline => ?_
    refine trustedBots_syncRecord P s data fun htyp => hbot ⟨data, ?_⟩
    rw [hline, htyp]

/-- The lines of a payload merge the bots they list, and note their uuids. -/
theorem trustedBots_syncLines {lines : List Str} : ∀ {s : Syncing},
    (∀ inb ∈ listedBots P lines, inb.uuid ≠ []) →
    s.listed.length + (listedBots P lines).length ≤ maxTrustedBots →
    (lines.foldl (syncLine P) s).b.trustedBots = (listedBots P lines).foldl putBot s.b.trustedBots ∧
      (lines.foldl (syncLine P) s).listed = s.listed ++ (listedBots P lines).map (·.uuid) := by
  induction lines with
  | nil => exact fun _ _ => ⟨rfl, by simp [listedBots]⟩
  | cons line lines ih =>
      intro s hne hroom
      have hstep := trustedBots_syncLine P s line
      rw [List.foldl_cons]
      cases hread : (botBody line).bind (parseBotLine P) with
      | none =>
          have hlisted : listedBots P (line :: lines) = listedBots P lines := by
            simp [listedBots, hread]
          rw [hread] at hstep
          rw [hlisted] at hne hroom ⊢
          rw [← hstep.1, ← hstep.2]
          exact ih hne (by rwa [hstep.2])
      | some inb =>
          have hlisted : listedBots P (line :: lines) = inb :: listedBots P lines := by
            simp [listedBots, hread]
          rw [hread] at hstep
          rw [hlisted] at hne hroom ⊢
          simp only [List.mem_cons, forall_eq_or_imp, List.length_cons] at hne hroom
          have hpush : (!inb.uuid.isEmpty && s.listed.length < maxTrustedBots) = true := by
            simp only [Bool.and_eq_true, Bool.not_eq_true', List.isEmpty_eq_false_iff,
              decide_eq_true_eq]
            exact ⟨hne.1, by omega⟩
          dsimp only at hstep
          rw [if_pos hpush] at hstep
          obtain ⟨htable, hlist⟩ := ih (s := syncLine P s line) hne.2 (by
            rw [hstep.2, List.length_append, List.length_singleton]
            omega)
          rw [htable, hlist, hstep.1, hstep.2]
          simp

/-- A payload with a `T|` marker whose lines list at most 200 bots, by different
uuids. -/
structure TrustPayload (payload : Str) : Prop where
  marker : (splitOn (byte '\n') payload).any (isRecordOf [byte 'T']) = true
  named : ∀ inb ∈ listedBots P (workLines payload), inb.uuid ≠ []
  distinct : ((listedBots P (workLines payload)).map (·.uuid)).Nodup
  few : (listedBots P (workLines payload)).length ≤ maxTrustedBots

/-- The uuids of the trusted table are those listed. -/
def TrustListAgrees (b : BotState) (payload : Str) : Prop :=
  ∀ u, u ∈ ((processConfigData P b payload).2.trustedBots).map (·.uuid) ↔
    u ∈ (listedBots P (workLines payload)).map (·.uuid)

/-- The table in the end: the merged one, less what is not listed. -/
theorem trustedBots_processConfigData {b : BotState} {payload : Str} (h : TrustPayload P payload) :
    (processConfigData P b payload).2.trustedBots =
      ((listedBots P (workLines payload)).foldl putBot b.trustedBots).filter fun t =>
        !t.uuid.isEmpty && ((listedBots P (workLines payload)).map (·.uuid)).contains t.uuid := by
  obtain ⟨htable, hlist⟩ := trustedBots_syncLines P
    (s := { b := clearTables b (splitOn (byte '\n') payload) }) h.named (by simpa using h.few)
  rw [List.nil_append] at hlist
  unfold processConfigData
  dsimp only
  rw [h.marker, if_pos rfl]
  show (sweepTrusted ((workLines payload).foldl (syncLine P) _)).b.trustedBots = _
  unfold sweepTrusted
  dsimp only
  rw [htable, hlist]
  rfl

/-- **The trusted table is what the payload lists exactly if every line goes in.** -/
theorem trustListAgrees_iff (b : BotState) {payload : Str} (h : TrustPayload P payload) :
    TrustListAgrees P b payload ↔ AllGoIn [] b.trustedBots (listedBots P (workLines payload)) := by
  rw [allGoIn_iff h.named h.distinct (fun _ _ => List.not_mem_nil) (by simp), TrustListAgrees,
    trustedBots_processConfigData P h]
  refine forall_congr' fun u => ?_
  simp only [List.not_mem_nil, false_or, entries_pos, List.mem_map, List.mem_filter,
    Bool.and_eq_true, Bool.not_eq_true', List.isEmpty_eq_false_iff, List.contains_iff_mem]
  constructor
  · intro hall hu
    obtain ⟨t, ⟨ht, -⟩, heq⟩ := hall.mpr hu
    exact ⟨t, ht, heq⟩
  · intro hin
    constructor
    · rintro ⟨t, ⟨-, -, inb, hinb, heq⟩, rfl⟩
      exact ⟨inb, hinb, heq⟩
    · intro hu
      obtain ⟨t, ht, heq⟩ := hin hu
      obtain ⟨inb, hinb, hinbu⟩ := hu
      refine ⟨t, ⟨ht, ?_, inb, hinb, ?_⟩, heq⟩
      · rw [heq, ← hinbu]
        exact h.named inb hinb
      · rw [hinbu, heq]

/-- Two bots that stay, one whose mask is listed under another uuid, and one that is revoked. -/
def fleet : BotState where
  trustedBots := [
    { mask := str "leaf!u@h", uuid := str "b1", ts := 5 },
    { mask := str "gone!u@h", uuid := str "b7", ts := 4 },
    { mask := str "twig!u@h", uuid := str "b2", ts := 6 },
    { mask := str "new!u@h", uuid := str "b9", ts := 3 }]

/-- A newer line, an older one, a mask under a new uuid and a new bot. -/
def roll : Str :=
  str "b|leaf!u@h|b1|8\nb|twig!u@h|b2|2\nb|new!u@h|b3|7\nb|bud!u@h|b4|1\nT|"

theorem trustListAgrees_fleet : TrustListAgrees .clear fleet roll := by
  have hlisted : listedBots .clear (workLines roll) = [
      { mask := str "leaf!u@h", uuid := str "b1", ts := 8 },
      { mask := str "twig!u@h", uuid := str "b2", ts := 2 },
      { mask := str "new!u@h", uuid := str "b3", ts := 7 },
      { mask := str "bud!u@h", uuid := str "b4", ts := 1 }] := by decide +kernel
  refine (trustListAgrees_iff .clear fleet ⟨by decide +kernel, ?_, ?_, ?_⟩).mpr ?_
  · rw [hlisted]
    decide
  · rw [hlisted]
    decide
  · rw [hlisted]
    decide
  · rw [hlisted]
    refine ⟨.inl ?_, .inl ?_, .inr ?_, .inr ?_, trivial⟩
    · decide
    · decide
    · exact ⟨by decide, by decide⟩
    · exact show 4 < maxTrustedBots by decide

/-- The mask of the only listed bot is that of a bot that is about to be revoked: the
table ends up empty. -/
theorem not_trustListAgrees :
    ¬ ∀ (P : Primitives) (b : BotState) (payload : Str), b.trustedBots.length ≤ maxTrustedBots →
        TrustPayload P payload → TrustListAgrees P b payload := by
  intro hall
  let b : BotState := { trustedBots := [{ mask := str "b!u@h", uuid := str "old", ts := 10 }] }
  have hlisted : listedBots .clear (workLines (str "b|b!u@h|new|5\nT|")) =
      [{ mask := str "b!u@h", uuid := str "new", ts := 5 }] := by decide
  have hpayload : TrustPayload .clear (str "b|b!u@h|new|5\nT|") := by
    refine ⟨by decide, ?_, ?_, ?_⟩
    · rw [hlisted]
      decide
    · rw [hlisted]
      decide
    · rw [hlisted]
      decide
  have hagrees := hall .clear b _ (by decide) hpayload (str "new")
  rw [hlisted] at hagrees
  exact absurd (hagrees.mpr (by decide)) (by decide)

end

end IrcBot.TrustList
