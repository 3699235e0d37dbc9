/-
# A sweep against itself (`chanenf.rs`)

Pass (b) sets the masks of the records in force, pass (c) lifts those of the records that
ran out or were deleted. Both take the channel's own records and those for all channels, and
(c) does not ask whether another record still lists the mask.

* `exists_lifted` — every record that is over and whose mask is on the channel is lifted.
* `over_of_sent` — and what is lifted as over is the mask of such a record.
* `sweeps_agree_iff` — sweeps of one ban table never undo each other exactly when no record
  that is over shares its mask with one in force.
-/
import IrcBot.BanSweep

namespace IrcBot.BanClash

open Cstr Masks Auth Chancfg Chanenf Enforce Jobs Members BanSweep

/-! ### The table of a channel -/

/-- A record in force for the channel. -/
def Listed (b : BotState) (ci : Nat) (r : CfgBan) : Prop :=
  r ∈ b.cfgBans ∧ inForce b.now r = true ∧ appliesTo (chanName b ci) r = true

/-- A record for the channel that ran out or was deleted. -/
def Over (b : BotState) (ci : Nat) (r : CfgBan) : Prop :=
  r ∈ b.cfgBans ∧ inForce b.now r = false ∧ appliesTo (chanName b ci) r = true

/-- No record that is over shares its mask with one in force. -/
def NoTwins (b : BotState) (ci : Nat) : Prop :=
  ∀ d, Over b ci d → ∀ r, Listed b ci r → eqIc r.mask d.mask = false

/-- The same ban table, clock and channel; its members, its ban list, its settings and all
else may differ. -/
structure SameTable (ci : Nat) (b b' : BotState) : Prop where
  bans : b'.cfgBans = b.cfgBans
  now : b'.now = b.now
  name : chanName b' ci = chanName b ci

theorem SameTable.trans {ci : Nat} {b b' b'' : BotState} (h : SameTable ci b b')
    (h' : SameTable ci b' b'') : SameTable ci b b'' :=
  ⟨h'.bans.trans h.bans, h'.now.trans h.now, h'.name.trans h.name⟩

theorem SameTable.listed {ci : Nat} {b b' : BotState} (h : SameTable ci b b') {r : CfgBan} :
    Listed b' ci r ↔ Listed b ci r := by
  unfold Listed
  rw [h.bans, h.now, h.name]

theorem SameTable.over {ci : Nat} {b b' : BotState} (h : SameTable ci b b') {r : CfgBan} :
    Over b' ci r ↔ Over b ci r := by
  unfold Over
  rw [h.bans, h.now, h.name]

theorem SameTable.noTwins {ci : Nat} {b b' : BotState} (h : SameTable ci b b') :
    NoTwins b' ci ↔ NoTwins b ci := by
  unfold NoTwins
  simp only [h.listed, h.over]

/-! ### What the sweeps are to respect -/

/-- Work that lifts a ban as run out or deleted. -/
def LiftedAsOver (x : Submission) : Prop :=
  x.act = .unban ∧ (x.reason = str "expired" ∨ x.reason = str "removed")

section

variable (sha256 : Str → Str)

/-- A sweep lifts no mask as over that a record in force lists. -/
def SparesListed (b : BotState) (ci : Nat) : Prop :=
  ∀ x ∈ (banSweep sha256 b ci b.now).sent, LiftedAsOver x →
    ∀ r, Listed b ci r → eqIc r.mask x.target = false

/-- What comes after a sweep while the ban table and the clock stand still: more sweeps, and
the mode changes that the server reports, the bot's own among them. -/
inductive Later (ci : Nat) (b : BotState) : BotState → Prop where
  | start : Later ci b b
  | sweep {b' : BotState} : Later ci b b' → Later ci b (banSweep sha256 b' ci b'.now).bot
  | mode {b' : BotState} (modes args : Str) :
      Later ci b b' → Later ci b (Chanlive.apply b' ci modes args false)

/-- A mask that a sweep sets is not lifted as over by a later one. -/
def KeepsOwn (b : BotState) (ci : Nat) : Prop :=
  ∀ x ∈ (banSweep sha256 b ci b.now).sent, x.act = .banMask →
    ∀ b', Later sha256 ci (banSweep sha256 b ci b.now).bot b' →
      ∀ y ∈ (banSweep sha256 b' ci b'.now).sent, LiftedAsOver y → eqIc x.target y.target = false

end

/-! ### The table stands still -/

section

variable {sha256 : Str → Str}

theorem sameTable_banSweep (b : BotState) (ci : Nat) (t : Int) :
    SameTable ci b (banSweep sha256 b ci t).bot := by
  have hpicture := (adds_banSweep sha256 b ci t).picture
  exact ⟨cfgBans_of_picture hpicture, now_of_picture hpicture, name_of_picture hpicture ci⟩

theorem sameTable_apply (b : BotState) (ci : Nat) (modes args : Str) (from324 : Bool) :
    SameTable ci b (Chanlive.apply b ci modes args from324) := by
  refine ⟨rfl, rfl, ?_⟩
  unfold chanName Chanlive.apply withChan
  rw [List.getD_eq_getElem?_getD, List.getD_eq_getElem?_getD, List.getElem?_modify_eq]
  cases b.chans[ci]? with
  | none => rfl
  | some c =>
      refine (Chanlive.name_applyLoop _ _ _ _ _ _ _).trans ?_
      split <;> rfl

theorem Later.sameTable {ci : Nat} {b b' : BotState} (h : Later sha256 ci b b') :
    SameTable ci b b' := by
  induction h with
  | start => exact ⟨rfl, rfl, rfl⟩
  | sweep _ ih => exact ih.trans (sameTable_banSweep _ ci _)
  | mode modes args _ ih => exact ih.trans (sameTable_apply _ ci modes args false)

/-! ### What is lifted as over -/

theorem mem_lifts {b : BotState} {ci : Nat} {r : CfgBan} :
    r ∈ lifts b ci b.now ↔ Over b ci r ∧ liveHasBan (b.chans.getD ci {}) r.mask = true := by
  unfold lifts Over chanName
  simp only [List.mem_filter, Bool.not_eq_true', and_assoc]

theorem listed_of_mem {b : BotState} {ci max : Nat} {r : CfgBan}
    (h : r ∈ bansFor b (chanName b ci) max) : Listed b ci r := by
  have hmem := List.mem_of_mem_take h
  simp only [List.mem_filter, and_assoc] at hmem
  exact hmem

/-- What is lifted as over is the mask of a record that is over, and on the channel. -/
theorem over_of_sent {b : BotState} {ci : Nat} {x : Submission}
    (hx : x ∈ (banSweep sha256 b ci b.now).sent) (hover : LiftedAsOver x) :
    ∃ d, Over b ci d ∧ liveHasBan (b.chans.getD ci {}) d.mask = true ∧ x.target = d.mask := by
  obtain ⟨-, new, hsent, hdue⟩ := adds_banSweep sha256 b ci b.now
  rw [hsent] at hx
  obtain ⟨hact, hreason⟩ := hover
  cases hdue x hx with
  | protect _ hprotect => rw [hprotect] at hreason; exact absurd hreason (by decide)
  | record r _ hrecord =>
      rcases hrecord.2 with ⟨-, ⟨hban, -⟩ | ⟨-, hidle⟩⟩ | ⟨-, hkick, -⟩
      · rw [hact] at hban; cases hban
      · rw [hidle] at hreason; exact absurd hreason (by decide)
      · rw [hact] at hkick; cases hkick
  | lift d hd _ htarget =>
      obtain ⟨hd, hlive⟩ := mem_lifts.mp hd
      exact ⟨d, hd, hlive, htarget⟩
  | enforce hkick _ => rw [hact] at hkick; cases hkick

/-- What is set is the mask of a record in force. -/
theorem listed_of_sent {b : BotState} {ci : Nat} {x : Submission}
    (hx : x ∈ (banSweep sha256 b ci b.now).sent) (hact : x.act = .banMask) :
    ∃ r, Listed b ci r ∧ x.target = r.mask := by
  obtain ⟨-, new, hsent, hdue⟩ := adds_banSweep sha256 b ci b.now
  rw [hsent] at hx
  cases hdue x hx with
  | protect hunban _ => rw [hact] at hunban; cases hunban
  | record r hr hrecord =>
      rcases hrecord.2 with ⟨-, ⟨-, htarget, -⟩ | ⟨hunban, -⟩⟩ | ⟨-, hkick, -⟩
      · exact ⟨r, listed_of_mem hr, htarget⟩
      · rw [hact] at hunban; cases hunban
      · rw [hact] at hkick; cases hkick
  | lift d _ hunban _ => rw [hact] at hunban; cases hunban
  | enforce hkick _ => rw [hact] at hkick; cases hkick

variable (sha256) in
/-- Each record of the walk is handed over. -/
theorem sent_foldl_sweepLift (ci : Nat) (ds : List CfgBan) (s : Sweep) {d : CfgBan} (hd : d ∈ ds) :
    ∃ x ∈ (ds.foldl (sweepLift sha256 ci) s).sent, LiftedAsOver x ∧ x.target = d.mask := by
  induction ds generalizing s with
  | nil => cases hd
  | cons e ds ih =>
      rcases List.mem_cons.mp hd with rfl | hd
      · obtain ⟨-, new, hsent, -⟩ : Adds (fun _ => True) (sweepLift sha256 ci s d)
            (ds.foldl (sweepLift sha256 ci) (sweepLift sha256 ci s d)) :=
          Adds.foldl fun s' _ r _ => (adds_sweepLift ci s' r).mono fun _ _ => trivial
        rw [List.foldl_cons, hsent]
        refine ⟨_, List.mem_append_left _ (List.mem_append_right _ List.mem_cons_self), ⟨rfl, ?_⟩,
          rfl⟩
        cases d.active with
        | true => exact .inl rfl
        | false => exact .inr rfl
      · exact ih (sweepLift sha256 ci s e) hd

variable (sha256) in
/-- Every record that is over, and whose mask is on the channel, is lifted. -/
theorem exists_lifted {b : BotState} {ci : Nat} {c : Chan} (hc : b.chans[ci]? = some c)
    (hknown : c.banListKnown = true) {d : CfgBan} (hd : Over b ci d)
    (hlive : liveHasBan c d.mask = true) :
    ∃ x ∈ (banSweep sha256 b ci b.now).sent, LiftedAsOver x ∧ x.target = d.mask := by
  obtain ⟨s₁, s₂, s₃, hpasses⟩ := banSweep_passes sha256 hc hknown b.now
  have hmem : d ∈ lifts b ci b.now := by
    rw [mem_lifts, List.getD_eq_getElem?_getD, hc]
    exact ⟨hd, hlive⟩
  obtain ⟨x, hx, hlifted⟩ := sent_foldl_sweepLift sha256 ci _ s₂ hmem
  rw [← hpasses.lift] at hx
  obtain ⟨-, new, hsent, -⟩ := hpasses.adds_enforce
  exact ⟨x, hsent ▸ List.mem_append_left new hx, hlifted⟩

/-! ### Sweeps of one table -/

/-- A state with the table of `b` in which the bans of the channel are `bans`. -/
def onChannel (b : BotState) (ci : Nat) (bans : List LiveBan) : BotState :=
  { b with
    chans := List.replicate (ci + 1) { name := chanName b ci, bans, banListKnown := true } }

theorem sameTable_onChannel (b : BotState) (ci : Nat) (bans : List LiveBan) :
    SameTable ci b (onChannel b ci bans) := by
  refine ⟨rfl, rfl, ?_⟩
  unfold onChannel
  rw [chanName, List.getD_eq_getElem?_getD, List.getElem?_replicate_of_lt (Nat.lt_succ_self ci)]
  rfl

theorem sparesListed_of_noTwins {b : BotState} {ci : Nat} (h : NoTwins b ci) :
    SparesListed sha256 b ci := by
  intro x hx hover r hr
  obtain ⟨d, hd, -, htarget⟩ := over_of_sent hx hover
  rw [htarget]
  exact h d hd r hr

theorem keepsOwn_of_noTwins {b : BotState} {ci : Nat} (h : NoTwins b ci) :
    KeepsOwn sha256 b ci := by
  intro x hx hact b' hlater y hy hover
  have htable := (sameTable_banSweep b ci b.now).trans hlater.sameTable
  obtain ⟨r, hr, hset⟩ := listed_of_sent hx hact
  obtain ⟨d, hd, -, hlifted⟩ := over_of_sent hy hover
  rw [hset, hlifted]
  exact h d (htable.over.mp hd) r hr

/-- With the mask of twins on the channel, the sweep lifts what it lists. -/
theorem not_sparesListed {b : BotState} {ci : Nat} {d r : CfgBan} (hd : Over b ci d)
    (hr : Listed b ci r) (heq : eqIc r.mask d.mask = true) :
    ¬ SparesListed sha256 (onChannel b ci [⟨d.mask, [], 0⟩]) ci := by
  intro h
  have htable := sameTable_onChannel b ci [⟨d.mask, [], 0⟩]
  have hlive : liveHasBan { name := chanName b ci, bans := [⟨d.mask, [], 0⟩], banListKnown := true }
      d.mask = true := by
    simp [liveHasBan]
  obtain ⟨x, hx, hover, htarget⟩ := exists_lifted sha256
    (List.getElem?_replicate_of_lt (Nat.lt_succ_self ci)) rfl (htable.over.mpr hd) hlive
  have hspared := h x hx hover r (htable.listed.mpr hr)
  rw [htarget, heq] at hspared
  cases hspared

/-- **The sweeps of one ban table never undo each other** (none lifts as over what a record
in force lists, and so none lifts what another has set), whatever is on the channel and
whoever is in it, exactly when no record that is over shares its mask with one in force. -/
theorem sweeps_agree_iff (sha256 : Str → Str) (b : BotState) (ci : Nat) :
    (∀ b', SameTable ci b b' → SparesListed sha256 b' ci ∧ KeepsOwn sha256 b' ci) ↔
      NoTwins b ci := by
  constructor
  · intro h d hd r hr
    rw [← Bool.not_eq_true]
    intro heq
    exact not_sparesListed hd hr heq (h _ (sameTable_onChannel b ci _)).1
  · intro h b' htable
    have hb' := htable.noTwins.mpr h
    exact ⟨sparesListed_of_noTwins hb', keepsOwn_of_noTwins hb'⟩

/-- A mask that was unbanned in one channel and is banned in all. -/
def unbannedHere : BotState where
  now := 1000
  cfgBans := [
    { chan := str "#c", mask := str "*!*@evil.host", ts := 10 },
    { chan := str "*", mask := str "*!*@evil.host", ts := 20, active := true }]
  chans := [{ name := str "#c" }]

/-- The deleted record lifts what the one for all channels lists. -/
theorem not_sweeps_agree :
    ¬ ∀ (sha256 : Str → Str) (b : BotState) (ci : Nat),
      SparesListed sha256 b ci ∧ KeepsOwn sha256 b ci := by
  intro h
  have hover : Over unbannedHere 0 { chan := str "#c", mask := str "*!*@evil.host", ts := 10 } :=
    ⟨by decide, by decide, by decide⟩
  have hlisted : Listed unbannedHere 0
      { chan := str "*", mask := str "*!*@evil.host", ts := 20, active := true } :=
    ⟨by decide, by decide, by decide⟩
  exact not_sparesListed hover hlisted (by decide) (h (fun _ => []) _ 0).1

end

end IrcBot.BanClash
