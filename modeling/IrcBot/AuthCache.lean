/-
# The cached verdicts (`chanenf.rs`)

Whether a member is authorised is worked out once for a hostmask and a generation of the
user, mask and trusted-bot records, and kept in the roster entry. A change of the records
is noticed by a bump of the config generation, or by their fingerprint, which is taken at
most every 200 ms.

* `isAuthorised_eq`, `authFingerprint_eq` — the verdict depends on no more of the records
  than the fingerprint is taken of.
* `coherent_query` — a query leaves the cached verdicts coherent, and answers by the records
  as they are.
* `verdict_of_run` — so every query of a run does, if each change has been followed by a bump
  or by 200 ms.
-/
import Mathlib.Data.Set.Function
import IrcBot.Roster

namespace IrcBot.AuthCache

open Cstr Masks Auth Chancfg Chanenf Enforce Jobs Roster

/-! ### What a verdict depends on -/

/-- The part of the records that is hashed. -/
structure AuthView where
  /-- Mask and uuid of the trusted bots. -/
  bots : List (Str × Str)
  /-- Mask, uuid and active flag of the mask records. -/
  masks : List (Str × Str × Bool)
  /-- Uuid and active flag of the user records. -/
  users : List (Str × Bool)
deriving DecidableEq

def authView (b : BotState) : AuthView where
  bots := b.trustedBots.map fun tb => (tb.mask, tb.uuid)
  masks := b.maskRecords.map fun m => (m.mask, m.uuid, m.isActive)
  users := b.userRecords.map fun u => (u.uuid, u.isActive)

/-- The fingerprint of the records. -/
def fingerprint (v : AuthView) : UInt64 :=
  let h := v.bots.foldl (fun h tb => fpStr (fpStr h tb.1) tb.2) 14695981039346656037
  let h := v.masks.foldl (fun h m => fpStr (fpStr h m.1) m.2.1 + m.2.2.toUInt64) h
  let h := v.users.foldl (fun h u => fpStr h u.1 + u.2.toUInt64) h
  h * 1099511628211 + v.bots.length.toUInt64 * 3 + v.masks.length.toUInt64 * 5 +
    v.users.length.toUInt64

/-- Who is authorised by the records. -/
def authorisedBy (v : AuthView) (nuh : Str) : Bool :=
  if nuh.isEmpty then false
  else if v.bots.any fun tb =>
      wildcardMatch (stripIdentTilde tb.1) (stripIdentTilde (trunc nuh maxMaskLen)) then true
  else v.masks.any fun m =>
    m.2.2 && !m.1.isEmpty && wildcardMatch m.1 nuh && v.users.any fun u => u.2 && u.1 == m.2.1

theorem authFingerprint_eq (b : BotState) : authFingerprint b = fingerprint (authView b) := by
  unfold authFingerprint fingerprint authView
  simp only [List.foldl_map, List.length_map]

theorem isAuthorised_eq (b : BotState) (nuh : Str) :
    isAuthorised b nuh = authorisedBy (authView b) nuh := by
  have hbots : isTrustedBot b nuh = (authView b).bots.any fun tb =>
      wildcardMatch (stripIdentTilde tb.1) (stripIdentTilde (trunc nuh maxMaskLen)) := by
    unfold isTrustedBot trustedBotByHost authView
    cases b.trustedBots with
    | nil => rfl
    | cons tb tbs =>
        rw [List.isEmpty_cons, if_neg Bool.false_ne_true, List.findIdx?_isSome, List.any_map]
        rfl
  have husers (uuid : Str) : (maskHasActiveUser b uuid).isSome =
      (authView b).users.any fun u => u.2 && u.1 == uuid := by
    unfold maskHasActiveUser authView
    rw [List.findIdx?_isSome, List.any_map]
    rfl
  unfold isAuthorised authorisedBy
  rw [hbots]
  simp only [husers]
  unfold authView
  simp only [List.any_map]
  rfl

/-! ### Runs -/

/-- The bot, with what a run is judged by. -/
structure World where
  bot : BotState
  /-- The clock at the last change of the records, while no bump and no query has followed. -/
  unsettled : Option Int := none
  /-- How many generations of verdicts there have been. -/
  gens : Nat := 0
  /-- How many times the config generation has been bumped. -/
  bumps : Nat := 0

/-- 200 ms have passed since a change that no bump has followed. -/
def World.Settled (w : World) : Prop := ∀ t, w.unsettled = some t → t + 200 ≤ w.bot.monoMs

/-- `entry_authorised` of the member in place `i`. -/
def World.query (w : World) (ci i : Nat) (e : RosterEntry) : World where
  bot := (memberVerdict w.bot ci i e).2
  gens := w.gens + if (memberVerdict w.bot ci i e).2.auth.gen = w.bot.auth.gen then 0 else 1
  bumps := w.bumps

/-- What a verdict is kept with. -/
def cached (e : RosterEntry) : Str × Bool × UInt32 := (e.hostmask, e.authorised, e.authGen)

/-- From `b` to `b'` the records, the clock and the generations stay, and an entry of a roster
is either new, without a verdict, or as it was up to its nick and its modes. -/
structure Keeps (b b' : BotState) : Prop where
  auth : b'.auth = b.auth
  cfgGen : b'.cfgGen = b.cfgGen
  monoMs : b'.monoMs = b.monoMs
  view : authView b' = authView b
  entries : ∀ c' ∈ b'.chans, ∀ e' ∈ c'.roster,
    e'.authGen = 0 ∨ ∃ c ∈ b.chans, ∃ e ∈ c.roster, cached e' = cached e

/-- What can happen, as far as the cached verdicts are concerned; the records are those of
`visited`. -/
inductive Step (visited : Set AuthView) (w : World) : World → Prop where
  | query {ci i : Nat} {c : Chan} {e : RosterEntry} : w.bot.chans[ci]? = some c →
      c.roster[i]? = some e → w.Settled → Step visited w (w.query ci i e)
  | records (bots : List TrustedBot) (masks : List MaskRecord) (users : List UserRecord) :
      authView { w.bot with trustedBots := bots, maskRecords := masks, userRecords := users } ∈
        visited →
      Step visited w { w with
        bot := { w.bot with trustedBots := bots, maskRecords := masks, userRecords := users }
        unsettled := some w.bot.monoMs }
  | bump : Step visited w { w with
      bot := { w.bot with cfgGen := w.bot.cfgGen + 1 }, unsettled := none, bumps := w.bumps + 1 }
  | clock (t : Int) : w.bot.monoMs ≤ t →
      Step visited w { w with bot := { w.bot with monoMs := t } }
  /-- A JOIN or a WHO reply. -/
  | set (ci : Nat) (nick hostmask : Str) (op halfop voice : Bool) : Step visited w { w with
      bot := withChan w.bot ci fun c => rosterSet c nick hostmask op halfop voice }
  /-- A PART, a KICK or a QUIT. -/
  | remove (ci : Nat) (nick : Str) :
      Step visited w { w with bot := withChan w.bot ci fun c => rremove c nick }
  /-- A NICK. -/
  | rename (ci : Nat) (old new mask : Str) :
      Step visited w { w with bot := withChan w.bot ci fun c => renameMember c old new mask }
  | other (b' : BotState) : Keeps w.bot b' → Step visited w { w with bot := b' }

inductive Run (visited : Set AuthView) (w : World) : World → Prop where
  | start : Run visited w w
  | step {w' w'' : World} : Run visited w w' → Step visited w' w'' → Run visited w w''

/-- Nothing is cached yet. -/
structure Start (visited : Set AuthView) (w : World) : Prop where
  gen : w.bot.auth.gen = 0
  gens : w.gens = 0
  view : authView w.bot ∈ visited
  entries : ∀ c ∈ w.bot.chans, ∀ e ∈ c.roster, e.authGen = 0

/-! ### Rosters -/

/-- A change of one roster keeps the verdicts if each of its entries is new or was there. -/
theorem keeps_withChan (b : BotState) (ci : Nat) {f : Chan → Chan}
    (hf : ∀ c, ∀ e' ∈ (f c).roster, e'.authGen = 0 ∨ ∃ e ∈ c.roster, cached e' = cached e) :
    Keeps b (withChan b ci f) := by
  refine ⟨rfl, rfl, rfl, rfl, fun c' hc' e' he' => ?_⟩
  rcases mem_withChan hc' with hc' | ⟨c, hc, rfl⟩
  · exact .inr ⟨c', hc', e', he', rfl⟩
  · rcases hf c e' he' with hnew | ⟨e, he, hsame⟩
    · exact .inl hnew
    · exact .inr ⟨c, hc, e, he, hsame⟩

theorem keeps_set (b : BotState) (ci : Nat) (nick hostmask : Str) (op halfop voice : Bool) :
    Keeps b (withChan b ci fun c => rosterSet c nick hostmask op halfop voice) := by
  refine keeps_withChan b ci fun c e' he' => ?_
  unfold rosterSet at he'
  dsimp only at he'
  split at he'
  · exact .inr ⟨e', he', rfl⟩
  · split at he'
    · rcases List.mem_or_eq_of_mem_set he' with he' | rfl
      · exact .inr ⟨e', he', rfl⟩
      · exact .inl rfl
    · split at he'
      · exact .inr ⟨e', he', rfl⟩
      · rcases List.mem_append.mp he' with he' | he'
        · exact .inr ⟨e', he', rfl⟩
        · rw [List.mem_singleton] at he'
          exact .inl (he' ▸ rfl)

theorem mem_rremove {c : Chan} {nick : Str} {e : RosterEntry} (h : e ∈ (rremove c nick).roster) :
    e ∈ c.roster := by
  unfold rremove at h
  split at h
  · exact List.mem_of_mem_eraseIdx h
  · exact h

theorem keeps_remove (b : BotState) (ci : Nat) (nick : Str) :
    Keeps b (withChan b ci fun c => rremove c nick) :=
  keeps_withChan b ci fun _ e' he' => .inr ⟨e', mem_rremove he', rfl⟩

theorem keeps_rename (b : BotState) (ci : Nat) (old new mask : Str) :
    Keeps b (withChan b ci fun c => renameMember c old new mask) := by
  refine keeps_withChan b ci fun c e' he' => ?_
  have hstale : ∀ e ∈ (if eqIc old new then c else rremove c new).roster, e ∈ c.roster := by
    intro e he
    split at he
    · exact he
    · exact mem_rremove he
  unfold renameMember at he'
  dsimp only at he'
  rcases withEntry_roster (if eqIc old new then c else rremove c new) old
      fun r => { r with nick := new, hostmask := mask, authGen := 0 } with
        ⟨i, e, -, -, heq⟩ | ⟨-, heq⟩
  · rw [heq] at he'
    rcases List.mem_or_eq_of_mem_set he' with hold | rfl
    · exact .inr ⟨e', hstale e' hold, rfl⟩
    · exact .inl rfl
  · rw [heq] at he'
    exact .inr ⟨e', hstale e' he', rfl⟩

/-! ### Coherence -/

/-- A verdict that is valid in the generation `gen` is that of the records `v`; none is of a
generation to come. -/
structure EntryOk (gen : UInt32) (v : AuthView) (e : RosterEntry) : Prop where
  past : e.authGen ≤ gen
  valid : e.authGen = gen → gen ≠ 0 → e.authorised = authorisedBy v e.hostmask

/-- The verdicts are those of the records `v`, of which the last fingerprint was taken, `k`
bumps ago; if the records have changed since without a bump, a query will notice. -/
structure Coherent (v : AuthView) (k : Nat) (w : World) : Prop where
  gens : w.bot.auth.gen.toNat = w.gens
  entries : ∀ c ∈ w.bot.chans, ∀ e ∈ c.roster, EntryOk w.bot.auth.gen v e
  fp : w.bot.auth.gen ≠ 0 → w.bot.auth.fp = fingerprint v
  seen : w.bot.auth.gen ≠ 0 → w.bot.cfgGen = w.bot.auth.seenCfgGen + UInt32.ofNat k
  few : k ≤ w.bumps
  clock : w.bot.auth.gen ≠ 0 → w.bot.auth.fpMs ≤ w.bot.monoMs
  noticed : w.bot.auth.gen ≠ 0 → k = 0 → authView w.bot = v ∨
    (∃ t, w.unsettled = some t ∧ w.bot.auth.fpMs ≤ t) ∨ w.bot.auth.fpMs + 200 ≤ w.bot.monoMs

theorem EntryOk.of_cached {gen : UInt32} {v : AuthView} {e e' : RosterEntry}
    (h : EntryOk gen v e) (hsame : cached e' = cached e) : EntryOk gen v e' := by
  obtain ⟨hmask, hrest⟩ := Prod.mk.inj hsame
  obtain ⟨hverdict, hgen⟩ := Prod.mk.inj hrest
  refine ⟨by rw [hgen]; exact h.past, fun heq hne => ?_⟩
  rw [hmask, hverdict]
  exact h.valid (hgen ▸ heq) hne

theorem entryOk_new {gen : UInt32} {v : AuthView} {e : RosterEntry} (h : e.authGen = 0) :
    EntryOk gen v e := by
  refine ⟨by rw [h]; exact UInt32.le_iff_toNat_le.mpr (Nat.zero_le _), fun heq hne => ?_⟩
  exact absurd (heq.symm.trans h) hne

/-- What keeps the entries keeps the coherence. -/
theorem Coherent.of_keeps {v : AuthView} {k : Nat} {w : World} (h : Coherent v k w)
    {b' : BotState} (hkeeps : Keeps w.bot b') : Coherent v k { w with bot := b' } := by
  obtain ⟨hauth, hcfg, hms, hview, hentries⟩ := hkeeps
  refine ⟨by rw [hauth]; exact h.gens, fun c' hc' e' he' => ?_, ?_, ?_, h.few, ?_, ?_⟩
  · dsimp only
    rw [hauth]
    rcases hentries c' hc' e' he' with hnew | ⟨c, hc, e, he, hsame⟩
    · exact entryOk_new hnew
    · exact (h.entries c hc e he).of_cached hsame
  · rw [hauth]
    exact h.fp
  · rw [hauth, hcfg]
    exact h.seen
  · rw [hauth, hms]
    exact h.clock
  · rw [hauth, hms, hview]
    exact h.noticed

/-- With fewer than 2^32 bumps a bump is seen. -/
theorem cfgGen_ne {seen : UInt32} {k : Nat} (hpos : k ≠ 0) (hlt : k < 2 ^ 32) :
    seen ≠ seen + UInt32.ofNat k := by
  intro h
  have hzero : (UInt32.ofNat k).toNat = 0 := by
    have : UInt32.ofNat k = 0 := by grind
    rw [this]
    rfl
  rw [UInt32.toNat_ofNat', Nat.mod_eq_of_lt hlt] at hzero
  exact hpos hzero

/-- A new generation is the next number, with fewer than 2^32 of them. -/
theorem newGen {gen : UInt32} {n : Nat} (hn : gen.toNat = n) :
    (if gen + 1 = 0 then 1 else gen + 1) ≠ gen ∧
      (n + 1 < 2 ^ 32 → (if gen + 1 = 0 then 1 else gen + 1).toNat = n + 1) := by
  subst hn
  constructor
  · grind
  · intro hlt
    have hnext : (gen + 1).toNat = gen.toNat + 1 := by
      rw [UInt32.toNat_add]
      exact Nat.mod_eq_of_lt hlt
    have hne : gen + 1 ≠ 0 := by
      intro hzero
      rw [hzero] at hnext
      cases hnext
    rw [if_neg hne, hnext]

/-- A new generation retires every verdict. -/
theorem Coherent.retire {v : AuthView} {k : Nat} {w : World} (h : Coherent v k w)
    {gen : UInt32} (hgen : gen.toNat = w.gens + 1) :
    Coherent (authView w.bot) 0 { w with
      bot := { w.bot with
        auth := ⟨gen, w.bot.cfgGen, fingerprint (authView w.bot), w.bot.monoMs⟩ }
      unsettled := none
      gens := w.gens + 1 } := by
  refine ⟨hgen, fun c hc e he => ?_, fun _ => rfl, fun _ => by simp, Nat.zero_le _,
    fun _ => le_rfl, fun _ _ => .inl rfl⟩
  have hpast := UInt32.le_iff_toNat_le.mp (h.entries c hc e he).past
  rw [h.gens] at hpast
  refine ⟨UInt32.le_iff_toNat_le.mpr (by rw [hgen]; omega), fun heq _ => ?_⟩
  rw [heq, hgen] at hpast
  omega

/-- **Taking the generation** brings the verdicts up to the records as they are. -/
theorem coherent_authCells {visited : Set AuthView} (hinj : Set.InjOn fingerprint visited)
    {v : AuthView} {k : Nat} {w : World} (h : Coherent v k w) (hv : v ∈ visited)
    (hview : authView w.bot ∈ visited) (hsettled : w.Settled)
    (hgens : w.gens + (if (authCells w.bot).gen = w.bot.auth.gen then 0 else 1) < 2 ^ 32)
    (hbumps : w.bumps < 2 ^ 32) :
    Coherent (authView w.bot) 0 { w with
      bot := { w.bot with auth := authCells w.bot }
      unsettled := none
      gens := w.gens + if (authCells w.bot).gen = w.bot.auth.gen then 0 else 1 } ∧
      (authCells w.bot).gen ≠ 0 := by
  have hseen (hne : w.bot.auth.gen ≠ 0) (heq : w.bot.auth.seenCfgGen = w.bot.cfgGen) : k = 0 := by
    by_contra hk
    exact cfgGen_ne hk (Nat.lt_of_le_of_lt h.few hbumps) (heq.trans (h.seen hne))
  have hcells : authCells w.bot =
      if w.bot.auth.gen ≠ 0 ∧ w.bot.auth.seenCfgGen = w.bot.cfgGen ∧
          w.bot.monoMs - w.bot.auth.fpMs < 200 then w.bot.auth
      else if w.bot.auth.gen = 0 ∨ fingerprint (authView w.bot) ≠ w.bot.auth.fp ∨
          w.bot.auth.seenCfgGen ≠ w.bot.cfgGen then
        ⟨if w.bot.auth.gen + 1 = 0 then 1 else w.bot.auth.gen + 1, w.bot.cfgGen,
          fingerprint (authView w.bot), w.bot.monoMs⟩
      else { w.bot.auth with fpMs := w.bot.monoMs } := by
    rw [← authFingerprint_eq]
    rfl
  by_cases hfast : w.bot.auth.gen ≠ 0 ∧ w.bot.auth.seenCfgGen = w.bot.cfgGen ∧
      w.bot.monoMs - w.bot.auth.fpMs < 200
  · -- the records have not changed since the fingerprint was taken
    rw [if_pos hfast] at hcells
    obtain ⟨hne, heq, hms⟩ := hfast
    have hk := hseen hne heq
    have hsame : authView w.bot = v := by
      rcases h.noticed hne hk with hsame | ⟨t, ht, hle⟩ | hold
      · exact hsame
      · have := hsettled t ht
        omega
      · omega
    rw [hcells, if_pos rfl]
    refine ⟨⟨h.gens, hsame ▸ h.entries, hsame ▸ h.fp, fun _ => ?_, Nat.zero_le _, h.clock,
      fun _ _ => .inl rfl⟩, hne⟩
    rw [← heq]
    simp
  · rw [if_neg hfast] at hcells
    by_cases hnew : w.bot.auth.gen = 0 ∨ fingerprint (authView w.bot) ≠ w.bot.auth.fp ∨
        w.bot.auth.seenCfgGen ≠ w.bot.cfgGen
    · rw [if_pos hnew] at hcells
      obtain ⟨hother, hnext⟩ := newGen h.gens
      rw [hcells, if_neg hother] at hgens
      rw [hcells, if_neg hother]
      refine ⟨h.retire (hnext hgens), fun hzero => ?_⟩
      have hnat := (congrArg UInt32.toNat hzero).symm.trans (hnext hgens)
      cases hnat
    · -- the same fingerprint: the same records
      rw [if_neg hnew] at hcells
      simp only [not_or, ne_eq, not_not] at hnew
      obtain ⟨hne, hfp, heq⟩ := hnew
      have hsame : v = authView w.bot :=
        hinj hv hview ((h.fp hne).symm.trans hfp.symm)
      rw [hcells, if_pos rfl]
      refine ⟨⟨h.gens, hsame ▸ h.entries, fun _ => hfp.symm, fun _ => ?_, Nat.zero_le _,
        fun _ => le_rfl, fun _ _ => .inl rfl⟩, hne⟩
      rw [← heq]
      simp

/-- A verdict of the records is stored. -/
theorem Coherent.fill {v : AuthView} {k : Nat} {w : World} (h : Coherent v k w) (ci i : Nat)
    {e : RosterEntry} (he : EntryOk w.bot.auth.gen v e) :
    Coherent v k { w with
      bot := withChan w.bot ci fun c => { c with roster := c.roster.set i e } } := by
  refine ⟨h.gens, fun c' hc' f hf => ?_, h.fp, h.seen, h.few, h.clock, h.noticed⟩
  rcases mem_withChan hc' with hc' | ⟨c, hc, rfl⟩
  · exact h.entries c' hc' f hf
  · rcases List.mem_or_eq_of_mem_set hf with hf | rfl
    · exact h.entries c hc f hf
    · exact he

/-- The coherence of a world, as long as its counters have not gone round. -/
def CoherentIn (visited : Set AuthView) (w : World) : Prop :=
  authView w.bot ∈ visited ∧
    (w.gens < 2 ^ 32 → w.bumps < 2 ^ 32 → ∃ v ∈ visited, ∃ k, Coherent v k w)

/-- **A query** answers by the records as they are, and leaves the verdicts coherent. -/
theorem coherent_query {visited : Set AuthView} (hinj : Set.InjOn fingerprint visited)
    {w : World} (h : CoherentIn visited w) (hsettled : w.Settled) {ci i : Nat} {c : Chan}
    {e : RosterEntry} (hc : w.bot.chans[ci]? = some c) (he : c.roster[i]? = some e)
    (hgens : (w.query ci i e).gens < 2 ^ 32) (hbumps : w.bumps < 2 ^ 32) :
    entryVerdict w.bot e = (isMe w.bot e.nick || isAuthorised w.bot e.hostmask) ∧
      ∃ v ∈ visited, ∃ k, Coherent v k (w.query ci i e) := by
  obtain ⟨hview, hcoherent⟩ := h
  obtain ⟨v, hv, k, hw⟩ := hcoherent (by unfold World.query at hgens; dsimp only at hgens; omega)
    hbumps
  have hmem := hw.entries c (List.mem_of_getElem? hc) e (List.mem_of_getElem? he)
  by_cases hme : isMe w.bot e.nick = true
  · -- the bot itself: nothing is looked up
    have hquery : w.query ci i e = { w with
        bot := withChan w.bot ci fun c => { c with roster := c.roster.set i e }
        unsettled := none } := by
      have hs : (memberVerdict w.bot ci i e).2 =
          withChan w.bot ci fun c => { c with roster := c.roster.set i e } := by
        unfold memberVerdict entryAuthorised
        rw [if_pos hme]
      unfold World.query
      rw [hs]
      change World.mk _ none (w.gens + if w.bot.auth.gen = w.bot.auth.gen then 0 else 1) _ = _
      rw [if_pos rfl]
      rfl
    refine ⟨by rw [entryVerdict_eq, hme, Bool.true_or, Bool.true_or], v, hv, k, ?_⟩
    rw [hquery]
    have hfilled := hw.fill ci i hmem
    refine ⟨hfilled.gens, hfilled.entries, hfilled.fp, hfilled.seen, hfilled.few, hfilled.clock,
      fun hne hk => ?_⟩
    rcases hfilled.noticed hne hk with hsame | ⟨t, ht, hle⟩ | hold
    · exact .inl hsame
    · have := hsettled t ht
      exact .inr (.inr (by dsimp only [withChan] at hle ⊢; omega))
    · exact .inr (.inr hold)
  · have hstate : (entryAuthorised w.bot e).2 =
        (if e.authGen ≠ (authCells w.bot).gen then
            { e with authorised := isAuthorised w.bot e.hostmask, authGen := (authCells w.bot).gen }
          else e, { w.bot with auth := authCells w.bot }) := by
      unfold entryAuthorised
      rw [if_neg hme]
      rfl
    have hquery : w.query ci i e = { w with
        bot := withChan { w.bot with auth := authCells w.bot } ci fun c =>
          { c with roster := c.roster.set i (entryAuthorised w.bot e).2.1 }
        unsettled := none
        gens := w.gens + if (authCells w.bot).gen = w.bot.auth.gen then 0 else 1 } := by
      have hs : (memberVerdict w.bot ci i e).2 =
          withChan { w.bot with auth := authCells w.bot } ci fun c =>
            { c with roster := c.roster.set i (entryAuthorised w.bot e).2.1 } := by
        unfold memberVerdict
        dsimp only
        rw [congrArg (·.2) hstate]
      unfold World.query
      rw [hs]
      rfl
    rw [hquery] at hgens ⊢
    obtain ⟨hnow, hne⟩ := coherent_authCells hinj hw hv hview hsettled hgens hbumps
    have hentry := hnow.entries c (List.mem_of_getElem? hc) e (List.mem_of_getElem? he)
    have hok : EntryOk (authCells w.bot).gen (authView w.bot) (entryAuthorised w.bot e).2.1 := by
      rw [hstate]
      dsimp only
      split
      · exact ⟨UInt32.le_refl _, fun _ _ => isAuthorised_eq w.bot e.hostmask⟩
      · exact hentry
    refine ⟨?_, authView w.bot, hview, 0, hnow.fill ci i hok⟩
    rw [entryVerdict_eq]
    split
    · rename_i hgen
      rw [hentry.valid hgen hne, isAuthorised_eq]
    · rfl

/-! ### Every run -/

theorem coherentIn_of_keeps {visited : Set AuthView} {w : World} (h : CoherentIn visited w)
    {b' : BotState} (hkeeps : Keeps w.bot b') : CoherentIn visited { w with bot := b' } := by
  refine ⟨hkeeps.view ▸ h.1, fun hgens hbumps => ?_⟩
  obtain ⟨v, hv, k, hw⟩ := h.2 hgens hbumps
  exact ⟨v, hv, k, hw.of_keeps hkeeps⟩

theorem Step.coherentIn {visited : Set AuthView} (hinj : Set.InjOn fingerprint visited)
    {w w' : World} (hstep : Step visited w w') (h : CoherentIn visited w) :
    CoherentIn visited w' := by
  cases hstep with
  | @query ci i c e hc he hsettled =>
      have hsame : authView (w.query ci i e).bot = authView w.bot := by
        obtain ⟨-, cells, chans, heq⟩ := memberVerdict_eq w.bot ci i e
        unfold World.query
        rw [heq]
        rfl
      refine ⟨hsame ▸ h.1, fun hgens hbumps => ?_⟩
      exact (coherent_query hinj h hsettled hc he hgens hbumps).2
  | records bots masks users hview =>
      refine ⟨hview, fun hgens hbumps => ?_⟩
      obtain ⟨v, hv, k, hw⟩ := h.2 hgens hbumps
      exact ⟨v, hv, k, hw.gens, hw.entries, hw.fp, hw.seen, hw.few, hw.clock,
        fun hne _ => .inr (.inl ⟨_, rfl, hw.clock hne⟩)⟩
  | bump =>
      refine ⟨h.1, fun hgens hbumps => ?_⟩
      obtain ⟨v, hv, k, hw⟩ := h.2 hgens (Nat.lt_of_succ_lt hbumps)
      refine ⟨v, hv, k + 1, hw.gens, hw.entries, hw.fp, fun hne => ?_, Nat.succ_le_succ hw.few,
        hw.clock, fun _ hk => absurd hk (Nat.succ_ne_zero k)⟩
      dsimp only
      rw [hw.seen hne, UInt32.ofNat_add, UInt32.add_assoc]
      rfl
  | clock t hle =>
      refine ⟨h.1, fun hgens hbumps => ?_⟩
      obtain ⟨v, hv, k, hw⟩ := h.2 hgens hbumps
      refine ⟨v, hv, k, hw.gens, hw.entries, hw.fp, hw.seen, hw.few,
        fun hne => (hw.clock hne).trans hle, fun hne hk => ?_⟩
      rcases hw.noticed hne hk with hsame | hchanged | hold
      · exact .inl hsame
      · exact .inr (.inl hchanged)
      · exact .inr (.inr (hold.trans hle))
  | set ci nick hostmask op halfop voice => exact coherentIn_of_keeps h (keeps_set ..)
  | remove ci nick => exact coherentIn_of_keeps h (keeps_remove ..)
  | rename ci old new mask => exact coherentIn_of_keeps h (keeps_rename ..)
  | other b' hkeeps => exact coherentIn_of_keeps h hkeeps

theorem Start.coherentIn {visited : Set AuthView} {w : World} (h : Start visited w) :
    CoherentIn visited w := by
  refine ⟨h.view, fun _ _ => ⟨authView w.bot, h.view, 0, ?_⟩⟩
  refine ⟨by rw [h.gen, h.gens]; rfl, fun c hc e he => entryOk_new (h.entries c hc e he),
    fun hne => absurd h.gen hne, fun hne => absurd h.gen hne, Nat.zero_le _,
    fun hne => absurd h.gen hne, fun _ _ => .inl rfl⟩

theorem Run.coherentIn {visited : Set AuthView} (hinj : Set.InjOn fingerprint visited)
    {w w' : World} (hrun : Run visited w w') (h : CoherentIn visited w) :
    CoherentIn visited w' := by
  induction hrun with
  | start => exact h
  | step _ hstep ih => exact hstep.coherentIn hinj ih

/-- **Every query of a run is answered by the records as they are**, the bot itself counting
as authorised, if each change of the records has been followed by a bump of the config
generation or by 200 ms, if the fingerprint tells the records of the run apart, and if
neither counter of generations has gone round. -/
theorem verdict_of_run {visited : Set AuthView} (hinj : Set.InjOn fingerprint visited)
    {w w' : World} (hstart : Start visited w) (hrun : Run visited w w') (hsettled : w'.Settled)
    {ci i : Nat} {c : Chan} {e : RosterEntry} (hc : w'.bot.chans[ci]? = some c)
    (he : c.roster[i]? = some e) (hgens : (w'.query ci i e).gens < 2 ^ 32)
    (hbumps : w'.bumps < 2 ^ 32) :
    entryVerdict w'.bot e = (isMe w'.bot e.nick || isAuthorised w'.bot e.hostmask) :=
  (coherent_query hinj (hrun.coherentIn hinj hstart.coherentIn) hsettled hc he hgens hbumps).1

/-- Somebody in a channel, whom no record knows. -/
def unknown : World where
  bot := { chans := [{
    name := str "#c"
    roster := [{ nick := str "mallory", hostmask := str "mallory!u@evil.host" }] }] }

/-- A trusted bot of that mask comes in after a query. -/
def changed : World :=
  let w := unknown.query 0 0 { nick := str "mallory", hostmask := str "mallory!u@evil.host" }
  { w with
    bot := { w.bot with trustedBots := [{ mask := str "mallory!*@evil.host" }] }
    unsettled := some w.bot.monoMs }

/-- The config generation is bumped. -/
def trusted : World :=
  { changed with
    bot := { changed.bot with cfgGen := changed.bot.cfgGen + 1 }
    unsettled := none, bumps := changed.bumps + 1 }

/-- The member, with its verdict of the first generation. -/
def refusedMember : RosterEntry :=
  { nick := str "mallory", hostmask := str "mallory!u@evil.host", authGen := 1 }

/-- The query after that sees the new record. -/
theorem verdict_of_run_trusted :
    Run {authView unknown.bot, authView trusted.bot} unknown trusted ∧
      entryVerdict trusted.bot refusedMember =
        (isMe trusted.bot refusedMember.nick || isAuthorised trusted.bot refusedMember.hostmask) := by
  have hquery : Step {authView unknown.bot, authView trusted.bot} unknown (unknown.query 0 0
      { nick := str "mallory", hostmask := str "mallory!u@evil.host" }) :=
    .query (c := unknown.bot.chans.getD 0 {}) rfl rfl (by intro t ht; cases ht)
  have hchange : Step {authView unknown.bot, authView trusted.bot} (unknown.query 0 0
      { nick := str "mallory", hostmask := str "mallory!u@evil.host" }) changed :=
    .records [{ mask := str "mallory!*@evil.host" }] [] [] (.inr rfl)
  have hbump : Step {authView unknown.bot, authView trusted.bot} changed trusted := .bump
  have hrun : Run {authView unknown.bot, authView trusted.bot} unknown trusted :=
    ((Run.start.step hquery).step hchange).step hbump
  have hinj : Set.InjOn fingerprint {authView unknown.bot, authView trusted.bot} := by
    have hne : fingerprint (authView unknown.bot) ≠ fingerprint (authView trusted.bot) := by
      decide
    rintro v (rfl | rfl) v' (rfl | rfl) heq
    · rfl
    · exact absurd heq hne
    · exact absurd heq.symm hne
    · rfl
  have hc : trusted.bot.chans[0]? = some (trusted.bot.chans.getD 0 {}) := rfl
  have he : (trusted.bot.chans.getD 0 {}).roster[0]? = some refusedMember := by decide
  refine ⟨hrun, verdict_of_run hinj ⟨rfl, rfl, .inl rfl, by decide⟩ hrun
    (by intro t ht; cases ht) hc he ?_ ?_⟩
  · decide
  · decide

end IrcBot.AuthCache
