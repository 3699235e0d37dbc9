/-
# The bots of a channel agree on the deal

Nobody tells the bots who acts: each computes the deal on its own, from its own
roster. `election_agreement` says that opped bots which see each other hold the
ranks `0, …, n - 1`, each exactly one, for every job, so that exactly one of them
holds the job. SHA-256 is any function: ties of the hash are broken by the id.

The walk over a roster collects ids (`foldl_dealStep`), so what a bot sorts is
the set of all ids in some order of its own (`dealt_ids`).
-/
import IrcBot.Chanenf

namespace IrcBot.Election

open Cstr Auth Chanenf

variable (sha256 : Str → Str)

/-! ### The order of the deal -/

instance : Std.Total fun a b : Elig => a.le b = true where
  total a b := by
    simp only [Elig.le, Bool.or_eq_true, Bool.and_eq_true, decide_eq_true_eq, beq_iff_eq]
    rcases Nat.lt_trichotomy a.h b.h with h | h | h
    · exact .inl (.inl h)
    · rcases List.le_total a.id b.id with hid | hid
      · exact .inl (.inr ⟨h, hid⟩)
      · exact .inr (.inr ⟨h.symm, hid⟩)
    · exact .inr (.inl h)

instance : IsTrans Elig fun a b => a.le b = true where
  trans a b c := by
    simp only [Elig.le, Bool.or_eq_true, Bool.and_eq_true, decide_eq_true_eq, beq_iff_eq]
    rintro (hab | ⟨hab, hid⟩) (hbc | ⟨hbc, hid'⟩)
    · exact .inl (hab.trans hbc)
    · exact .inl (hbc ▸ hab)
    · exact .inl (hab ▸ hbc)
    · exact .inr ⟨hab.trans hbc, List.le_trans hid hid'⟩

/-- A tie of the hash is broken by the id, so no two entries rank equal. -/
instance : Std.Antisymm fun a b : Elig => a.le b = true where
  antisymm a b := by
    simp only [Elig.le, Bool.or_eq_true, Bool.and_eq_true, decide_eq_true_eq, beq_iff_eq]
    rintro (hab | ⟨hab, hid⟩) (hba | ⟨hba, hid'⟩)
    · omega
    · omega
    · omega
    · have := List.le_antisymm hid hid'
      cases a
      cases b
      simp_all

/-! ### One spelling of the channel -/

theorem isCharBoundary_map_lower (s : Str) (n : Nat) :
    isCharBoundary (s.map lower) n = isCharBoundary s n := by
  unfold isCharBoundary
  rw [List.getElem?_map]
  cases s[n]? with
  | none => rfl
  | some b =>
      simp only [Option.map_some, lower]
      grind

theorem cutBack_map_lower (s : Str) (n : Nat) : cutBack (s.map lower) n = cutBack s n := by
  induction n with
  | zero => rfl
  | succ n ih => simp [cutBack, isCharBoundary_map_lower, ih]

/-- Cutting and lower-casing commute. -/
theorem map_lower_trunc (s : Str) (cap : Nat) :
    (trunc s cap).map lower = trunc (s.map lower) cap := by
  simp only [trunc, List.length_map, cutBack_map_lower]
  split
  · rfl
  · rw [List.map_take]

theorem lowerCopy_congr {s t : Str} (h : s.map lower = t.map lower) (dsz : Nat) :
    lowerCopy s dsz = lowerCopy t dsz := by
  rw [lowerCopy, lowerCopy, map_lower_trunc, map_lower_trunc, h]

theorem length_lowerCopy_le (s : Str) (dsz : Nat) : (lowerCopy s dsz).length ≤ dsz - 1 := by
  rw [lowerCopy, List.length_map]
  exact length_trunc_le s dsz

/-! ### The walk collects ids -/

/-- The entry under which `id` is sorted. -/
def entry (lc id : Str) : Elig := ⟨dealHash sha256 lc id, id⟩

theorem entry_injective (lc : Str) : Function.Injective (entry sha256 lc) :=
  fun _ _ h => congrArg Elig.id h

/-- An id of at most 63 bytes is stored whole and refused only when it is there
already. -/
theorem eligAdd_entry {lc id : Str} {ids : List Str} (hlc : lc.length < maxChan)
    (hid : id.length < 64) :
    (eligAdd sha256 (ids.map (entry sha256 lc)) lc id).getD (ids.map (entry sha256 lc)) =
      (if id ∈ ids then ids else ids ++ [id]).map (entry sha256 lc) := by
  have hany : (ids.map (entry sha256 lc)).any (·.id == id) = decide (id ∈ ids) := by
    rw [Bool.eq_iff_iff]
    simp [entry]
  have hfits : ¬ maxChan + 64 < lc.length + id.length := by
    unfold maxChan at hlc ⊢
    omega
  unfold eligAdd
  rw [hany, trunc_of_lt hid]
  by_cases hmem : id ∈ ids
  · simp [hmem]
  · simp [hmem, hfits, entry]

/-- **The walk over a roster**: it ends with the ids it started from and those of
the opped trusted bots it met, each once, in some order. -/
theorem foldl_dealStep {b : BotState} {lc : Str} (hlc : lc.length < maxChan) :
    ∀ (roster : List RosterEntry) (ids : List Str),
      ids.length + roster.length ≤ maxRosterSize + 1 → ids.Nodup →
      (∀ e ∈ roster, ∀ id, dealId b e = some id → id.length < 64) →
      ∃ ids' : List Str, roster.foldl (dealStep sha256 b lc) (ids.map (entry sha256 lc)) =
          ids'.map (entry sha256 lc) ∧ ids'.Nodup ∧
        ∀ id, id ∈ ids' ↔ id ∈ ids ∨ ∃ e ∈ roster, dealId b e = some id
  | [], ids => fun _ hnodup _ => ⟨ids, rfl, hnodup, by simp⟩
  | e :: roster, ids => by
      intro hlen hnodup hshort
      rw [List.length_cons] at hlen
      have hroom : ¬ maxRosterSize < (ids.map (entry sha256 lc)).length := by
        rw [List.length_map]
        omega
      simp only [List.foldl_cons]
      cases hdeal : dealId b e with
      | none =>
          have hstep : dealStep sha256 b lc (ids.map (entry sha256 lc)) e =
              ids.map (entry sha256 lc) := by
            rw [dealStep, if_neg hroom, hdeal]
          rw [hstep]
          obtain ⟨ids', heq, hnodup', hmem⟩ := foldl_dealStep hlc roster ids (by omega) hnodup
            fun f hf => hshort f (List.mem_cons_of_mem e hf)
          exact ⟨ids', heq, hnodup', fun id => by simp [hmem, hdeal]⟩
      | some id₀ =>
          have hid₀ := hshort e List.mem_cons_self id₀ hdeal
          have hstep : dealStep sha256 b lc (ids.map (entry sha256 lc)) e =
              (if id₀ ∈ ids then ids else ids ++ [id₀]).map (entry sha256 lc) := by
            rw [dealStep, if_neg hroom, hdeal]
            exact eligAdd_entry sha256 hlc hid₀
          rw [hstep]
          obtain ⟨ids', heq, hnodup', hmem⟩ := foldl_dealStep hlc roster
            (if id₀ ∈ ids then ids else ids ++ [id₀])
            (by
              split
              · omega
              · rw [List.length_append, List.length_singleton]
                omega)
            (by
              split
              · exact hnodup
              · rename_i hnew
                simpa [List.nodup_append, hnodup] using fun x hx (he : x = id₀) => hnew (he ▸ hx))
            fun f hf => hshort f (List.mem_cons_of_mem e hf)
          refine ⟨ids', heq, hnodup', fun id => ?_⟩
          have hins : id ∈ (if id₀ ∈ ids then ids else ids ++ [id₀]) ↔ id ∈ ids ∨ id₀ = id := by
            split
            · rename_i hold
              exact ⟨.inl, fun h => h.elim (fun h => h) fun he => he ▸ hold⟩
            · simp [eq_comm]
          rw [hmem, hins, or_assoc]
          simp [hdeal]

/-! ### Bots that see each other -/

/-- The bots of one channel, as each of them sees it: bot `i` is in state
`state i`, its channel has index `ci i` there. -/
structure Seating (ι : Type*) where
  state : ι → BotState
  ci : ι → Nat
  chan : ι → Chan

/-- `e` is an opped roster entry of somebody else that `b` takes for the trusted
bot `tb`. -/
def SeesBot (b : BotState) (e : RosterEntry) (tb : TrustedBot) : Prop :=
  e.isOp = true ∧ isMe b e.nick = false ∧
    ∃ ti, trustedBotByHost b e.hostmask = some ti ∧ b.trustedBots[ti]? = some tb

/-- Every bot is opped and sees exactly the others of the set as opped bots. -/
structure Seating.Agrees {ι : Type*} (s : Seating ι) : Prop where
  inChan : ∀ i, (s.state i).chans[s.ci i]? = some (s.chan i)
  opped : ∀ i, (s.chan i).iAmOpped = true
  sameName : ∀ i j, eqIc (s.chan i).name (s.chan j).name = true
  uuid_ne : ∀ i, (s.state i).botUuid ≠ []
  uuid_short : ∀ i, (s.state i).botUuid.length ≤ 63
  uuid_inj : ∀ i j, (s.state i).botUuid = (s.state j).botUuid → i = j
  /-- Each bot's roster lists all the others. -/
  sees : ∀ i j, i ≠ j → ∃ e ∈ (s.chan i).roster, ∃ tb,
    SeesBot (s.state i) e tb ∧ tb.uuid = (s.state j).botUuid
  /-- No other op resolves to a trusted bot outside the set. -/
  seesOnly : ∀ i, ∀ e ∈ (s.chan i).roster, ∀ tb, SeesBot (s.state i) e tb →
    ∃ j, tb.uuid = (s.state j).botUuid
  notOld : ∀ i j, i ≠ j → botTooOld (s.state i) (s.state j).botUuid = false
  rosterFits : ∀ i, (s.chan i).roster.length ≤ maxRosterSize

section Agreement

variable {ι : Type*} {s : Seating ι}

theorem dealId_eq_some_iff {b : BotState} {e : RosterEntry} {id : Str} :
    dealId b e = some id ↔ ∃ tb, SeesBot b e tb ∧
      id = (if tb.uuid.isEmpty then tb.mask else tb.uuid) ∧ botTooOld b id = false := by
  unfold dealId SeesBot
  constructor
  · intro h
    split at h
    · simp at h
    · rename_i hop
      simp only [Bool.or_eq_true, Bool.not_eq_true', not_or, Bool.not_eq_false,
        Bool.not_eq_true] at hop
      obtain ⟨ti, hti, h⟩ := Option.bind_eq_some_iff.mp h
      obtain ⟨tb, htb, h⟩ := Option.bind_eq_some_iff.mp h
      obtain ⟨hold, hid⟩ := Option.ite_none_left_eq_some.mp h
      obtain rfl := Option.some.inj hid
      exact ⟨tb, ⟨hop.1, hop.2, ti, hti, htb⟩, rfl, by simpa using hold⟩
  · rintro ⟨tb, ⟨hop, hme, ti, hti, htb⟩, rfl, hold⟩
    simp only [hop, hme, hti, htb, Option.bind_some, hold]
    rfl

/-- The ids bot `i` meets in its roster are uuids of the set, and those of all
the others are among them. -/
theorem Seating.Agrees.met_iff (h : s.Agrees) (i : ι) (id : Str) :
    id = (s.state i).botUuid ∨ (∃ e ∈ (s.chan i).roster, dealId (s.state i) e = some id) ↔
      ∃ j, id = (s.state j).botUuid := by
  have huuid : ∀ (tb : TrustedBot) (j : ι), tb.uuid = (s.state j).botUuid →
      (if tb.uuid.isEmpty then tb.mask else tb.uuid) = (s.state j).botUuid := by
    intro tb j htb
    rw [htb, if_neg (by simpa using h.uuid_ne j)]
  constructor
  · rintro (rfl | ⟨e, he, hdeal⟩)
    · exact ⟨i, rfl⟩
    · obtain ⟨tb, hsees, rfl, -⟩ := dealId_eq_some_iff.mp hdeal
      obtain ⟨j, hj⟩ := h.seesOnly i e he tb hsees
      exact ⟨j, huuid tb j hj⟩
  · rintro ⟨j, rfl⟩
    by_cases hij : i = j
    · exact .inl (by rw [hij])
    · obtain ⟨e, he, tb, hsees, htb⟩ := h.sees i j hij
      exact .inr ⟨e, he, dealId_eq_some_iff.mpr ⟨tb, hsees, (huuid tb j htb).symm, h.notOld i j hij⟩⟩

/-- What bot `i` sorts: the uuids of the set, in an order of its own. -/
theorem Seating.Agrees.dealt_ids (h : s.Agrees) (i k : ι) :
    ∃ ids : List Str, ids.Nodup ∧ (∀ id, id ∈ ids ↔ ∃ j, id = (s.state j).botUuid) ∧
      ∃ el, eligAdd sha256 [] (lowerCopy (s.chan i).name maxChan) (dealMe (s.state i)) = some el ∧
        (s.chan i).roster.foldl
            (dealStep sha256 (s.state i) (lowerCopy (s.chan i).name maxChan)) el =
          ids.map (entry sha256 (lowerCopy (s.chan k).name maxChan)) := by
  have hlc : lowerCopy (s.chan i).name maxChan = lowerCopy (s.chan k).name maxChan :=
    lowerCopy_congr (eqIc_iff.mp (h.sameName i k)) _
  have hlen : (lowerCopy (s.chan k).name maxChan).length < maxChan := by
    have := length_lowerCopy_le (s.chan k).name maxChan
    unfold maxChan at this ⊢
    omega
  have hshort : ∀ e ∈ (s.chan i).roster, ∀ id, dealId (s.state i) e = some id →
      id.length < 64 := by
    intro e he id hdeal
    obtain ⟨j, rfl⟩ := (h.met_iff i id).mp (.inr ⟨e, he, hdeal⟩)
    exact Nat.lt_succ_of_le (h.uuid_short j)
  have hme : dealMe (s.state i) = (s.state i).botUuid := by
    rw [dealMe, if_neg (by simpa using h.uuid_ne i),
      trunc_of_lt (Nat.lt_succ_of_le (h.uuid_short i))]
  obtain ⟨ids, heq, hnodup, hmem⟩ := foldl_dealStep sha256 hlen (s.chan i).roster
    [(s.state i).botUuid] (by simpa [Nat.add_comm 1] using h.rosterFits i)
    (List.nodup_singleton _) hshort
  refine ⟨ids, hnodup, fun id => ?_,
    [(s.state i).botUuid].map (entry sha256 (lowerCopy (s.chan k).name maxChan)), ?_, ?_⟩
  · rw [hmem, List.mem_singleton]
    exact h.met_iff i id
  · have hfits : ¬ maxChan + 64 <
        (lowerCopy (s.chan k).name maxChan).length + (s.state i).botUuid.length := by
      have := h.uuid_short i
      omega
    rw [hlc, hme]
    simp [eligAdd, hfits, entry, trunc_of_lt (Nat.lt_succ_of_le (h.uuid_short i))]
  · rw [hlc]
    exact heq

/-- The list every bot of the set has sorted, as bot `k` computes it. -/
theorem Seating.Agrees.dealRank_eq (h : s.Agrees) (k : ι) :
    ∃ l : List Elig, (∀ e, e ∈ l ↔ ∃ j, e =
        entry sha256 (lowerCopy (s.chan k).name maxChan) (s.state j).botUuid) ∧ l.Nodup ∧
      ∀ i job, job < jobCount → ∃ pos,
        l[pos]? = some (entry sha256 (lowerCopy (s.chan k).name maxChan) (s.state i).botUuid) ∧
        dealRank sha256 (s.state i) (s.ci i) job = (Lib.Deal.dealt l.length pos job : Nat) := by
  let E := entry sha256 (lowerCopy (s.chan k).name maxChan)
  obtain ⟨ids, hnodup, hmem, -⟩ := h.dealt_ids sha256 k k
  let l := (ids.map E).insertionSort (Elig.le · ·)
  have hperm : l.Perm (ids.map E) := List.perm_insertionSort _ _
  have hmeml : ∀ e, e ∈ l ↔ ∃ j, e = E (s.state j).botUuid := by
    intro e
    rw [hperm.mem_iff, List.mem_map]
    constructor
    · rintro ⟨id, hid, rfl⟩
      obtain ⟨j, rfl⟩ := (hmem id).mp hid
      exact ⟨j, rfl⟩
    · rintro ⟨j, rfl⟩
      exact ⟨_, (hmem _).mpr ⟨j, rfl⟩, rfl⟩
  have hnodupl : l.Nodup := hperm.nodup_iff.mpr (hnodup.map (entry_injective sha256 _))
  refine ⟨l, hmeml, hnodupl, fun i job hjob => ?_⟩
  obtain ⟨idsi, hnodupi, hmemi, el, hadd, hwalk⟩ := h.dealt_ids sha256 i k
  -- bot `i` collected the same ids, so it sorts them into the same list
  have hsame : (idsi.map E).insertionSort (Elig.le · ·) = l := by
    refine Lib.Deal.insertionSort_eq_of_perm _ (List.Perm.map E ?_)
    exact (List.perm_ext_iff_of_nodup hnodupi hnodup).mpr fun id => by rw [hmemi, hmem]
  have hme : dealMe (s.state i) = (s.state i).botUuid := by
    rw [dealMe, if_neg (by simpa using h.uuid_ne i),
      trunc_of_lt (Nat.lt_succ_of_le (h.uuid_short i))]
  obtain ⟨pos, hpos⟩ := List.getElem?_of_mem ((hmeml _).mpr ⟨i, rfl⟩)
  refine ⟨pos, hpos, ?_⟩
  have hfound : Lib.Deal.rposition (·.id == dealMe (s.state i)) l = some pos := by
    refine Lib.Deal.rposition_eq_some hpos (by simp [E, entry, hme]) hnodupl fun e he hid => ?_
    obtain ⟨j, rfl⟩ := (hmeml e).mp he
    simp only [hme, beq_iff_eq] at hid
    exact congrArg E hid
  have hchan := h.inChan i
  have hopped := h.opped i
  unfold dealRank
  rw [hchan]
  simp only [hopped, hadd, hwalk]
  rw [if_neg (by simpa using hjob)]
  simp only [E] at hsame
  rw [hsame, hfound]

variable [Finite ι]

/-- **The bots agree on the deal**: for every job their ranks are `0, …, n - 1`,
each held by exactly one of them. -/
theorem dealRank_bijOn (h : s.Agrees) (job : Nat) (hjob : job < jobCount) :
    Set.BijOn (fun i => dealRank sha256 (s.state i) (s.ci i) job) Set.univ
      {r | 0 ≤ r ∧ r < (Nat.card ι : Int)} := by
  rcases isEmpty_or_nonempty ι with hempty | ⟨⟨k⟩⟩
  · refine ⟨fun i => isEmptyElim i, fun i => isEmptyElim i, fun r hr => ?_⟩
    simp only [Nat.card_of_isEmpty, Set.mem_ofPred_eq] at hr
    omega
  · obtain ⟨l, hmem, hnodup, hrank⟩ := h.dealRank_eq sha256 k
    choose pos hpos hdeal using fun i => hrank i job hjob
    have hf : Function.Injective fun i =>
        entry sha256 (lowerCopy (s.chan k).name maxChan) (s.state i).botUuid :=
      fun i j hij => h.uuid_inj i j (entry_injective sha256 _ hij)
    have hcard : Nat.card ι = l.length := by
      have hrange : Set.range (fun i =>
          entry sha256 (lowerCopy (s.chan k).name maxChan) (s.state i).botUuid) =
          (l.toFinset : Set Elig) := by
        ext e
        simp [hmem, eq_comm]
      rw [← List.toFinset_card_of_nodup hnodup, ← Set.ncard_coe_finset, ← hrange,
        ← Set.image_univ, hf.injOn.ncard_image, Set.ncard_univ]
    have hbij := Lib.Deal.dealt_bijOn hcard hf hpos job
    simp only [hdeal, hcard]
    have hcast : Set.BijOn (Nat.cast : Nat → Int) (Set.Iio l.length)
        {r | 0 ≤ r ∧ r < (l.length : Int)} := by
      refine ⟨fun r hr => ?_, Nat.cast_injective.injOn, fun r hr => ⟨r.toNat, ?_, ?_⟩⟩
      · simpa using hr
      · simp only [Set.mem_Iio]
        have := hr.1
        have := hr.2
        omega
      · exact Int.toNat_of_nonneg hr.1
    exact hcast.comp hbij

/-- Exactly one bot of a set that is not empty holds the job. -/
theorem existsUnique_primary [Nonempty ι] (h : s.Agrees) (job : Nat) (hjob : job < jobCount) :
    ∃! i, dealRank sha256 (s.state i) (s.ci i) job = 0 := by
  have hbij := dealRank_bijOn sha256 h job hjob
  obtain ⟨i, -, hi⟩ := hbij.surjOn (show (0 : Int) ∈ _ by simp [Nat.card_pos])
  refine ⟨i, hi, fun j hj => hbij.injOn (Set.mem_univ j) (Set.mem_univ i) ?_⟩
  exact hj.trans hi.symm

/-- **Election agreement**: opped bots that see each other hold the ranks
`0, …, n - 1`, each exactly one, and so exactly one of them holds the job. -/
theorem election_agreement (h : s.Agrees) (job : Nat) (hjob : job < jobCount) :
    Set.BijOn (fun i => dealRank sha256 (s.state i) (s.ci i) job) Set.univ
        {r | 0 ≤ r ∧ r < (Nat.card ι : Int)} ∧
      (Nonempty ι → ∃! i, dealRank sha256 (s.state i) (s.ci i) job = 0) :=
  ⟨dealRank_bijOn sha256 h job hjob, fun _ => existsUnique_primary sha256 h job hjob⟩

end Agreement

/-! ### Two bots in one channel -/

/-- How one bot of a pair is seen: its nick is its uuid. -/
def pairHost (i : Bool) : Str := if i then str "b!b@h" else str "a!a@h"

def pairUuid (i : Bool) : Str := if i then str "b" else str "a"

/-- One opped bot of a pair. The two spell the channel differently and list its
members in different orders. -/
def pairChan (i : Bool) : Chan :=
  { name := if i then str "#Chan" else str "#chan"
    iAmOpped := true
    roster := [!i, i].map fun j => { nick := pairUuid j, hostmask := pairHost j, isOp := true } }

/-- Two bots that trust each other. -/
def pair : Seating Bool where
  state i :=
    { currentNick := pairUuid i
      botUuid := pairUuid i
      trustedBots := [{ mask := pairHost !i, uuid := pairUuid !i }]
      chans := [pairChan i] }
  ci _ := 0
  chan := pairChan

theorem pair_agrees : pair.Agrees where
  inChan _ := rfl
  opped _ := rfl
  sameName := by decide
  uuid_ne := by decide
  uuid_short := by decide
  uuid_inj := by decide
  sees i j hij := by
    refine ⟨{ nick := pairUuid j, hostmask := pairHost j, isOp := true }, ?_,
      { mask := pairHost j, uuid := pairUuid j }, ⟨rfl, ?_, 0, ?_, ?_⟩, rfl⟩
    all_goals revert i j; decide
  seesOnly i e he tb hsees := by
    obtain ⟨-, -, ti, -, htb⟩ := hsees
    refine ⟨!i, ?_⟩
    obtain ⟨hlt, rfl⟩ := List.getElem?_eq_some_iff.mp htb
    obtain rfl : ti = 0 := by simpa [pair] using hlt
    rfl
  notOld _ _ _ := rfl
  rosterFits i := by revert i; decide

theorem election_agreement_pair :
    Set.BijOn (fun i => dealRank (fun s => s) (pair.state i) (pair.ci i) jobKick) Set.univ
        {r | 0 ≤ r ∧ r < (Nat.card Bool : Int)} ∧
      (Nonempty Bool → ∃! i, dealRank (fun s => s) (pair.state i) (pair.ci i) jobKick = 0) :=
  election_agreement (fun s => s) pair_agrees jobKick (by decide)

end IrcBot.Election
