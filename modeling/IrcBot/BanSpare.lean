/-
# Whom a sweep spares (`chanenf.rs`)

A ban that would hit an authorised member is not set, and pass (d) does not kick by one
either. Pass (b) asks `unauth_match` for the same thing and looks at the nicks only.

* `spares_of_unmixed` — where no record in force hits both kinds of members, no work is done
  for a mask that hits an authorised one, but to lift it.
* `exists_kick_of_mixed` — a record that does is used to kick, with its ban refused.
* `spares_iff` — so the sweep spares the authorised exactly when there is no such record.
-/
import IrcBot.BanSweep
import IrcBot.RecentActs

namespace IrcBot.BanSpare

open Cstr Masks Auth Chancfg Chanenf Enforce Jobs Members ModeEvents RecentActs BanSweep

/-! ### What the sweep is to respect -/

section

variable (sha256 : Str → Str)

/-- A mask that hits an authorised member is neither set nor used to kick. -/
def SparesAuthorised (b : BotState) (ci : Nat) (t : Int) : Prop :=
  ∀ x ∈ (banSweep sha256 b ci t).sent, (hitsOf b ci x.mask).2 = true →
    x.act ≠ .kick ∧ (x.act = .banMask → x.lines = [])

end

/-- A record that hits an authorised member and others. -/
def Mixed (b : BotState) (ci : Nat) (r : CfgBan) : Prop :=
  safeToken r.mask banMaskMax = true ∧ (hitsOf b ci r.mask).1 ≠ [] ∧ (hitsOf b ci r.mask).2 = true

/-- No record of the network list hits both kinds of members, or the bans on the channel
are not known. -/
def Unmixed (b : BotState) (ci : Nat) : Prop :=
  (b.chans.getD ci {}).banListKnown = true →
    ∀ r ∈ bansFor b (b.chans.getD ci {}).name (maxBansPerChan + maxGlobalBans), ¬ Mixed b ci r

/-- The bot's own memory: the acts of late, and what bans were found to hit. -/
structure Memory where
  recent : List EnfRecent
  recentIdx : Nat
  tracks : List BanTrack
  length_recent : recent.length = enfRecent
  idx_lt : recentIdx < enfRecent
  tracks_le : tracks.length ≤ maxBanTrack

/-- A state with another memory. -/
def remembering (b : BotState) (m : Memory) : BotState :=
  { b with enfRecent := m.recent, enfRecentIdx := m.recentIdx, banTrack := m.tracks }

theorem picture_remembering (b : BotState) (m : Memory) : picture (remembering b m) = picture b :=
  picture_aside b m.recent m.recentIdx _ m.tracks _ _ _ _

/-- The ring at the start. -/
def blank : List EnfRecent := List.replicate enfRecent {}

section

variable {sha256 : Str → Str}

/-! ### Without such a record -/

theorem spares_of_unmixed {b : BotState} {ci : Nat} (h : Unmixed b ci) (t : Int) :
    SparesAuthorised sha256 b ci t := by
  intro x hx hhit
  by_cases hknown : (b.chans.getD ci {}).banListKnown = true
  · obtain ⟨-, new, hsent, hdue⟩ := adds_banSweep sha256 b ci t
    rw [hsent] at hx
    cases hdue x hx with
    | protect hact _ => rw [hact]; exact ⟨by decide, fun h => by cases h⟩
    | record r hr hrecord =>
        rcases hrecord with ⟨hsafe, ⟨hmask, hban | hidle⟩ | ⟨hmask, hact, htarget⟩⟩
        · rw [hmask] at hhit
          rw [hban.1]
          exact ⟨by decide, fun _ => hban.2.2 hhit⟩
        · rw [hidle.1]
          exact ⟨by decide, fun h => by cases h⟩
        · rw [hmask] at hhit
          exact absurd ⟨hsafe, List.ne_nil_of_mem htarget, hhit⟩ (h hknown r hr)
    | lift r _ hact _ => rw [hact]; exact ⟨by decide, fun h => by cases h⟩
    | enforce hact hspared => rw [hhit] at hspared; cases hspared
  · have hunknown (c : Chan) (hc : b.chans[ci]? = some c) : c.banListKnown = false := by
      rw [List.getD_eq_getElem?_getD, hc] at hknown
      exact Bool.eq_false_iff.mpr hknown
    rw [banSweep_unknown hunknown] at hx
    cases hx

/-! ### Nobody's kick is pending -/

/-- The ring holds lifted bans of the channel only. -/
def KickFree (name : Str) (b : BotState) : Prop :=
  ∀ r ∈ b.enfRecent, r.whenMs ≠ 0 → ∃ mask, r.key = pendingKey name (str "unban") mask

/-- Then no kick in it is pending. -/
theorem KickFree.recentPeek {name : Str} {b : BotState} (h : KickFree name b)
    (hname : name.length < maxChan) (nk : Str) (windowMs : Int) :
    BanSweep.recentPeek b name (str "kick") nk windowMs = false := by
  have hother (mask : Str) :
      pendingKey name (str "unban") mask ≠ pendingKey name (str "kick") nk := by
    intro heq
    have hunban := @pendingKey_act name mask (str "ban") hname (byte 'u') (byte 'n') (by decide)
    have hkick := @pendingKey_act name nk (str "ck") hname (byte 'k') (byte 'i') (by decide)
    rw [show byte 'u' :: byte 'n' :: str "ban" = str "unban" from rfl, heq] at hunban
    rw [show byte 'k' :: byte 'i' :: str "ck" = str "kick" from rfl, hunban] at hkick
    exact absurd hkick (by decide)
  unfold BanSweep.recentPeek recentKey
  dsimp only
  rw [if_neg]
  rw [Bool.not_eq_true, List.any_eq_false]
  intro r hr hpending
  simp only [Bool.and_eq_true, bne_iff_ne, ne_eq, beq_iff_eq] at hpending
  obtain ⟨mask, hkey⟩ := h r hr hpending.1.1
  exact hother mask (hkey.symm.trans hpending.1.2)

theorem KickFree.of_ring {name : Str} {b b' : BotState} (h : KickFree name b)
    (hring : b'.enfRecent = b.enfRecent) : KickFree name b' := by
  unfold KickFree
  rw [hring]
  exact h

/-! ### What a lift and a ban remember -/

/-- The memory of the acts, and of what bans hit. -/
def noted (b : BotState) : List EnfRecent × List BanTrack := (b.enfRecent, b.banTrack)

theorem noted_allowedMembersFill (b : BotState) (ci : Nat) (mask : Str) :
    noted (allowedMembersFill b ci mask).2 = noted b := by
  obtain ⟨cells, chans, heq⟩ := allowedMembersFill_eq b ci mask
  rw [heq]
  rfl

theorem noted_ircPrintf (b : BotState) (line : Str) : noted (ircPrintf b line) = noted b := by
  obtain ⟨out, heq, -⟩ := ircPrintf_eq b line
  rw [heq]
  rfl

theorem noted_chanEvent (b : BotState) (chan action target detail : Str) :
    noted (chanEvent b chan action target detail).2 = noted b := by
  obtain ⟨link, out, lim, heq⟩ := chanEvent_eq b chan action target detail
  rw [heq]
  rfl

theorem kickFree_recentKey {name mask : Str} {b : BotState} (h : KickFree name b)
    (windowMs : Int) : KickFree name (recentKey b name (str "unban") mask windowMs).2 := by
  unfold recentKey
  dsimp only
  split
  · exact h
  · intro r hr hpending
    rcases List.mem_or_eq_of_mem_set hr with hr | rfl
    · exact h r hr hpending
    · exact ⟨mask, rfl⟩

variable (sha256) in
/-- A lift notes itself. -/
theorem kickFree_unban {b : BotState} {ci : Nat} (mask reason : Str)
    (h : KickFree (b.chans.getD ci {}).name b) :
    KickFree (b.chans.getD ci {}).name (jobSubmit sha256 b ci .unban mask reason).2 ∧
      (jobSubmit sha256 b ci .unban mask reason).2.banTrack = b.banTrack := by
  have hact : KickFree (b.chans.getD ci {}).name (actUnban b ci mask reason) ∧
      (actUnban b ci mask reason).banTrack = b.banTrack := by
    unfold actUnban
    split
    · exact ⟨h, rfl⟩
    · rename_i c hc
      have hname : (b.chans.getD ci {}).name = c.name := by
        rw [List.getD_eq_getElem?_getD, hc]
        rfl
      rw [hname] at h ⊢
      have htracks (w : Int) :
          (recentKey b c.name (str "unban") mask w).2.banTrack = b.banTrack := by
        obtain ⟨ring, idx, heq⟩ := recentKey_eq b c.name (str "unban") mask w
        rw [heq]
      have hnoted : KickFree c.name (recentKey b c.name (str "unban") mask recentActMs).2 :=
        kickFree_recentKey h recentActMs
      split
      · exact ⟨h, rfl⟩
      · dsimp only
        split
        · exact ⟨hnoted, htracks recentActMs⟩
        · have hline := (noted_chanEvent (ircPrintf (recentKey b c.name (str "unban") mask
            recentActMs).2 (str "MODE " ++ c.name ++ str " -b " ++ mask ++ crlf)) c.name
            (str "unban") mask reason).trans (noted_ircPrintf _ _)
          exact ⟨hnoted.of_ring (congrArg (·.1) hline),
            (congrArg (·.2) hline).trans (htracks recentActMs)⟩
  obtain hdone | ⟨jobs, hqueued⟩ := jobSubmit_eq sha256 b ci .unban mask reason
  · rw [hdone]
    exact hact
  · rw [hqueued]
    exact ⟨h, rfl⟩

/-- A ban notes itself with its own record only. -/
theorem ring_banMask (b : BotState) (ci : Nat) (mask reason : Str) :
    (jobSubmit sha256 b ci .banMask mask reason).2.enfRecent = b.enfRecent := by
  have hact : (actBan b ci mask reason).enfRecent = b.enfRecent := by
    unfold actBan
    split
    · rfl
    · rename_i c hc
      have htrack : (trackGet b c.name mask b.now).2.enfRecent = b.enfRecent := by
        unfold trackGet
        dsimp only
        split <;> rfl
      have hfill : (allowedMembersFill (trackGet b c.name mask b.now).2 ci mask).2.enfRecent =
          b.enfRecent :=
        (congrArg (·.1) (noted_allowedMembersFill (trackGet b c.name mask b.now).2 ci mask)).trans
          htrack
      have hcheck (s : BotState) (ti : Nat) : (checkOverlap s ti mask).enfRecent = s.enfRecent := by
        unfold checkOverlap
        split <;> rfl
      split
      · rfl
      · split
        · rfl
        · dsimp only
          split
          · exact htrack
          · split
            · exact hfill
            · split
              · rw [hcheck, hfill]
              · refine (congrArg (·.1) ((noted_chanEvent _ _ _ _ _).trans
                  (noted_ircPrintf _ _))).trans ?_
                exact (hcheck _ _).trans hfill
  obtain hdone | ⟨jobs, hqueued⟩ := jobSubmit_eq sha256 b ci .banMask mask reason
  · rw [hdone]
    exact hact
  · rw [hqueued]

/-! ### A record that hits both -/

/-- Where pass (b) stands before it comes to such a record: nobody is being kicked. -/
structure Ready (b : BotState) (ci : Nat) (tracks : List BanTrack) (s : Sweep) : Prop where
  picture : Members.picture s.bot = Members.picture b
  kicks : s.kicks = 0
  ring : KickFree (b.chans.getD ci {}).name s.bot
  tracks : s.bot.banTrack = tracks

theorem Ready.protect {b : BotState} {ci : Nat} {tracks : List BanTrack} {s : Sweep}
    (h : Ready b ci tracks s) (x : LiveBan) : Ready b ci tracks (sweepProtect sha256 ci s x) := by
  have hpicture := (adds_sweepProtect sha256 ci s x).picture.trans h.picture
  have hfill := noted_allowedMembersFill s.bot ci x.mask
  have hring : KickFree (b.chans.getD ci {}).name (banHitsAuthorised s.bot ci x.mask).2 :=
    h.ring.of_ring (congrArg (·.1) hfill)
  have htracks : (banHitsAuthorised s.bot ci x.mask).2.banTrack = tracks :=
    (congrArg (·.2) hfill).trans h.tracks
  have hname := name_of_picture ((picture_banHitsAuthorised s.bot ci x.mask).trans h.picture) ci
  revert hpicture
  unfold sweepProtect
  split
  · exact fun _ => h
  · dsimp only
    split
    · intro hpicture
      have hlift := kickFree_unban sha256 x.mask (str "protectops")
        (show KickFree ((banHitsAuthorised s.bot ci x.mask).2.chans.getD ci {}).name
          (banHitsAuthorised s.bot ci x.mask).2 by rw [hname]; exact hring)
      rw [hname] at hlift
      exact ⟨hpicture, h.kicks, hlift.1, hlift.2.trans htracks⟩
    · exact fun hpicture => ⟨hpicture, h.kicks, hring, htracks⟩

theorem hitsOf_of_eqIc {m m' : Str} (h : eqIc m m' = true) (b : BotState) (ci : Nat) :
    hitsOf b ci m = hitsOf b ci m' := by
  have hmatch (text : Str) : wildcardMatch m text = wildcardMatch m' text :=
    wildcardMatch_of_eqIc h text
  unfold hitsOf
  simp only [hmatch]

/-- What is on record of masks that are known to hit a bot or an operator. -/
def refused (name : Str) (t : Int) (masks : List Str) : List BanTrack :=
  masks.map fun mask => { chan := name, mask, checkedAt := max t 1 }

theorem knownToHit_refused {name : Str} {t : Int} {masks : List Str} {i : Nat}
    (hi : i < masks.length) : knownToHit ((refused name t masks).getD i {}) t = true := by
  unfold refused
  rw [List.getD_eq_getElem?_getD, List.getElem?_map, List.getElem?_eq_getElem hi]
  have hset : max t 1 ≠ 0 := by omega
  have hfresh : t - max t 1 < 60 := by omega
  simp [knownToHit, hset, hfresh]

/-- A mask on record as refused is passed over. -/
theorem sweepRecord_refused {name : Str} {t : Int} {masks : List Str} {ci : Nat} {s : Sweep}
    {r : CfgBan} (hne : name ≠ []) (hname : (s.bot.chans.getD ci {}).name = name)
    (htracks : s.bot.banTrack = refused name t masks) (hmem : r.mask ∈ masks) :
    sweepRecord sha256 ci t s r = s := by
  have hfound : ∃ i, i < masks.length ∧ trackGet s.bot name r.mask t = (i, s.bot) := by
    have hsome : ((refused name t masks).findIdx? fun tr =>
        !tr.chan.isEmpty && eqIc tr.chan name && eqIc tr.mask r.mask).isSome := by
      rw [List.findIdx?_isSome, List.any_eq_true]
      refine ⟨_, List.mem_map_of_mem hmem, ?_⟩
      simp [hne]
    obtain ⟨i, hi⟩ := Option.isSome_iff_exists.mp hsome
    refine ⟨i, ?_, ?_⟩
    · have hlt := (List.findIdx?_eq_some_iff_getElem.mp hi).1
      rwa [refused, List.length_map] at hlt
    · unfold trackGet
      dsimp only
      rw [htracks, hi]
  obtain ⟨i, hi, htrack⟩ := hfound
  unfold sweepRecord
  rw [hname, htrack]
  dsimp only
  split
  · rfl
  · rw [htracks, if_pos (knownToHit_refused hi)]

/-- A mask that is not on record is looked at anew. -/
theorem knownToHit_new {name : Str} {t : Int} {masks : List Str} {b : BotState} {mask : Str}
    (htracks : b.banTrack = refused name t masks) (hnew : ∀ m ∈ masks, eqIc m mask = false) :
    knownToHit ((trackGet b name mask t).2.banTrack.getD (trackGet b name mask t).1 {}) t =
      false := by
  have hnone : (b.banTrack.findIdx? fun tr =>
      !tr.chan.isEmpty && eqIc tr.chan name && eqIc tr.mask mask) = none := by
    rw [htracks, List.findIdx?_eq_none_iff]
    intro tr htr
    obtain ⟨m, hm, rfl⟩ := List.mem_map.mp htr
    simp only [hnew m hm, Bool.and_false]
  have hset : ∃ (xs : List BanTrack) (i : Nat) (tr : BanTrack), tr.checkedAt = 0 ∧
      trackGet b name mask t = (i, { b with banTrack := xs.set i tr }) := by
    unfold trackGet
    dsimp only
    split
    · rename_i i hi
      rw [hnone] at hi
      cases hi
    · exact ⟨_, _, _, rfl, rfl⟩
  obtain ⟨xs, i, tr, hfresh, htrack⟩ := hset
  rw [htrack]
  dsimp only
  have hzero : ((xs.set i tr).getD i {}).checkedAt = 0 := by
    rw [List.getD_eq_getElem?_getD, List.getElem?_set_self']
    cases xs[i]? with
    | none => rfl
    | some _ => exact hfresh
  unfold knownToHit
  rw [hzero]
  rfl

/-- The first of the nicks is kicked. -/
theorem exists_kick {name : Str} {ci : Nat} {mask reason : Str} {hits : List Str} {s : Sweep}
    (hname : (s.bot.chans.getD ci {}).name = name) (hlen : name.length < maxChan)
    (hkicks : s.kicks = 0) (hring : KickFree name s.bot) (hhits : hits ≠ []) :
    ∃ x ∈ (sweepKicks sha256 ci mask reason s hits).sent, x.act = .kick ∧ x.mask = mask := by
  obtain ⟨nk, nks, rfl⟩ := List.exists_cons_of_ne_nil hhits
  obtain ⟨n, hn⟩ : ∃ n, maxRosterSize = n + 1 := ⟨_, rfl⟩
  have hroom : ¬ enfKicksPerSweep ≤ s.kicks := by
    rw [hkicks]
    decide
  have hfree : ¬ recentPeek s.bot (s.bot.chans.getD ci {}).name (str "kick") nk recentActMs = true := by
    rw [hname, hring.recentPeek hlen]
    decide
  obtain ⟨-, new, hsent, -⟩ : Adds (fun _ => True) (sweepKick sha256 ci mask reason s nk)
      ((nks.take n).foldl (sweepKick sha256 ci mask reason) (sweepKick sha256 ci mask reason s nk)) :=
    Adds.foldl fun s' _ nk' _ => (adds_sweepKick ci mask reason s' nk').mono fun _ _ => trivial
  unfold sweepKicks
  rw [hn, List.take_succ_cons, List.foldl_cons, hsent]
  unfold sweepKick
  rw [if_neg hroom, if_neg hfree]
  exact ⟨_, List.mem_append_left _ (List.mem_append_right _ List.mem_cons_self), rfl, rfl⟩

variable (sha256) in
/-- What (b) does about the ban of a matched record leaves the kicks to come. -/
theorem sweepSet_matched (ci : Nat) (t : Int) (keep live : Bool) (lastMatch : Int) (s : Sweep)
    (r : CfgBan) :
    (sweepSet sha256 ci t keep live true lastMatch s r).kicks = s.kicks ∧
      (sweepSet sha256 ci t keep live true lastMatch s r).bot.enfRecent = s.bot.enfRecent := by
  unfold sweepSet
  dsimp only
  split
  · split
    · exact ⟨rfl, rfl⟩
    · exact ⟨rfl, ring_banMask s.bot ci r.mask r.reason⟩
  · split
    · exact ⟨rfl, ring_banMask s.bot ci r.mask r.reason⟩
    · rw [Bool.not_true, Bool.and_false, Bool.false_and, Bool.false_and,
        if_neg Bool.false_ne_true]
      exact ⟨rfl, rfl⟩

variable (sha256) in
/-- A record that hits both is used to kick. -/
theorem exists_kick_of_mixed {b : BotState} {ci : Nat} {t : Int} {masks : List Str} {s : Sweep}
    {r : CfgBan} (hlen : (b.chans.getD ci {}).name.length < maxChan)
    (hs : Ready b ci (refused (b.chans.getD ci {}).name t masks) s) (hmixed : Mixed b ci r)
    (hnew : ∀ m ∈ masks, eqIc m r.mask = false) :
    ∃ x ∈ (sweepRecord sha256 ci t s r).sent, x.act = .kick ∧ x.mask = r.mask := by
  obtain ⟨hsafe, hhits, -⟩ := hmixed
  have hname := name_of_picture hs.picture ci
  have hlook := knownToHit_new (t := t) hs.tracks hnew
  have hwalk : (unauthMatch (trackGet s.bot (b.chans.getD ci {}).name r.mask t).2 ci r.mask).1 =
      hitsOf b ci r.mask := by
    rw [unauthMatch_fst, hitsOf_of_picture ((picture_trackGet _ _ _ _).trans hs.picture)]
  have hring : (unauthMatch (trackGet s.bot (b.chans.getD ci {}).name r.mask t).2 ci
      r.mask).2.enfRecent = s.bot.enfRecent := by
    obtain ⟨cells, chans, heq⟩ :=
      unauthMatch_eq (trackGet s.bot (b.chans.getD ci {}).name r.mask t).2 ci r.mask
    rw [heq]
    unfold trackGet
    dsimp only
    split <;> rfl
  have hpicture : picture (unauthMatch (trackGet s.bot (b.chans.getD ci {}).name r.mask t).2 ci
      r.mask).2 = picture b := by
    rw [picture_unauthMatch, picture_trackGet, hs.picture]
  have hmatched : (!(hitsOf b ci r.mask).1.isEmpty) = true := by
    rw [Bool.not_eq_true', List.isEmpty_eq_false_iff]
    exact hhits
  unfold sweepRecord
  rw [hsafe, Bool.not_true, if_neg Bool.false_ne_true, hname]
  dsimp only
  rw [hlook, if_neg Bool.false_ne_true, hwalk, hmatched, if_pos rfl]
  generalize hbot : withTrack (unauthMatch _ ci r.mask).2 _ _ = bot
  have hbring : bot.enfRecent = s.bot.enfRecent := by rw [← hbot]; exact hring
  have hbpicture : picture bot = picture b := by rw [← hbot, picture_withTrack, hpicture]
  suffices hkick : ∀ (keep live : Bool) (lastMatch : Int) (why : Str),
      ∃ x ∈ (sweepKicks sha256 ci r.mask why
        (sweepSet sha256 ci t keep live true lastMatch { s with bot } r) (hitsOf b ci r.mask).1).sent,
        x.act = .kick ∧ x.mask = r.mask from hkick _ _ _ _
  intro keep live lastMatch why
  obtain ⟨hkicks, hsring⟩ := sweepSet_matched sha256 ci t keep live lastMatch
    { s with bot } r
  have hname' := name_of_picture ((adds_sweepSet sha256 (s := { s with bot }) hbpicture
    ci t keep live true lastMatch r).picture.trans hbpicture) ci
  exact exists_kick hname' hlen (hkicks.trans hs.kicks)
    (hs.ring.of_ring (hsring.trans hbring)) hhits

variable (sha256) in
/-- So is it among others, where those that are not the same mask are on record as refused. -/
theorem exists_kick_foldl {b : BotState} {ci : Nat} {t : Int} {masks : List Str} {r : CfgBan}
    (hne : (b.chans.getD ci {}).name ≠ []) (hlen : (b.chans.getD ci {}).name.length < maxChan)
    (hmixed : Mixed b ci r) (hnew : ∀ m ∈ masks, eqIc m r.mask = false) (recs : List CfgBan) :
    ∀ s, Ready b ci (refused (b.chans.getD ci {}).name t masks) s →
      (∀ y ∈ recs, eqIc y.mask r.mask = false → y.mask ∈ masks) → r ∈ recs →
        ∃ x ∈ (recs.foldl (sweepRecord sha256 ci t) s).sent,
          x.act = .kick ∧ (hitsOf b ci x.mask).2 = true := by
  induction recs with
  | nil => exact fun s _ _ hr => absurd hr List.not_mem_nil
  | cons y recs ih =>
      intro s hs hmasks hr
      by_cases hsame : eqIc y.mask r.mask = true ∧ safeToken y.mask banMaskMax = true
      · have hhits := hitsOf_of_eqIc hsame.1 b ci
        have hymixed : Mixed b ci y := ⟨hsame.2, hhits ▸ hmixed.2.1, hhits ▸ hmixed.2.2⟩
        have hynew (m : Str) (hm : m ∈ masks) : eqIc m y.mask = false := by
          rw [← Bool.not_eq_true, eqIc_iff, eqIc_iff.mp hsame.1, ← eqIc_iff, Bool.not_eq_true]
          exact hnew m hm
        obtain ⟨x, hx, hkick, hmask⟩ :=
          exists_kick_of_mixed sha256 hlen hs hymixed hynew
        obtain ⟨-, new, hsent, -⟩ : Adds (fun _ => True) (sweepRecord sha256 ci t s y)
            (recs.foldl (sweepRecord sha256 ci t) (sweepRecord sha256 ci t s y)) :=
          Adds.foldl fun s' _ z _ =>
            (adds_sweepRecord (b := s'.bot) rfl z).mono fun _ _ => trivial
        refine ⟨x, ?_, hkick, hmask ▸ hymixed.2.2⟩
        rw [List.foldl_cons, hsent]
        exact List.mem_append_left new hx
      · -- this record does nothing
        have hstay : sweepRecord sha256 ci t s y = s := by
          by_cases hsafe : safeToken y.mask banMaskMax = true
          · have hother : eqIc y.mask r.mask = false :=
              Bool.eq_false_iff.mpr fun h => hsame ⟨h, hsafe⟩
            exact sweepRecord_refused hne (name_of_picture hs.picture ci) hs.tracks
              (hmasks y List.mem_cons_self hother)
          · unfold sweepRecord
            rw [if_pos (by rw [Bool.not_eq_true']; exact Bool.eq_false_iff.mpr hsafe)]
        have hmem : r ∈ recs := by
          rcases List.mem_cons.mp hr with rfl | hr
          · exact absurd ⟨eqIc_refl _, hmixed.1⟩ hsame
          · exact hr
        rw [List.foldl_cons, hstay]
        exact ih s hs (fun z hz => hmasks z (List.mem_cons_of_mem y hz)) hmem

variable (sha256) in
/-- With a mixed record there are memories with which the sweep kicks by it. -/
theorem exists_not_spares {b : BotState} {ci : Nat} {t : Int} {r : CfgBan}
    (hne : (b.chans.getD ci {}).name ≠ []) (hlen : (b.chans.getD ci {}).name.length < maxChan)
    (hknown : (b.chans.getD ci {}).banListKnown = true)
    (hr : r ∈ bansFor b (b.chans.getD ci {}).name (maxBansPerChan + maxGlobalBans))
    (hmixed : Mixed b ci r) : ∃ m, ¬ SparesAuthorised sha256 (remembering b m) ci t := by
  obtain ⟨c, hc⟩ : ∃ c, b.chans[ci]? = some c := by
    rw [← Option.isSome_iff_exists, Option.isSome_iff_ne_none]
    intro hnone
    rw [List.getD_eq_getElem?_getD, hnone] at hne
    exact hne rfl
  have hget : b.chans.getD ci {} = c := by
    rw [List.getD_eq_getElem?_getD, hc]
    rfl
  let recs := bansFor b c.name (maxBansPerChan + maxGlobalBans)
  let masks := (recs.filter fun y => !eqIc y.mask r.mask).map (·.mask)
  have hfew : (refused c.name t masks).length ≤ maxBanTrack := by
    have htake : recs.length ≤ maxBansPerChan + maxGlobalBans := List.length_take_le _ _
    have hfilter := List.length_filter_le (fun y : CfgBan => !eqIc y.mask r.mask) recs
    have hroom : maxBansPerChan + maxGlobalBans ≤ maxBanTrack := by decide
    simp only [refused, masks, List.length_map]
    omega
  refine ⟨⟨blank, 0, refused c.name t masks, List.length_replicate, by decide, hfew⟩, ?_⟩
  intro hspares
  generalize hb' : remembering b _ = b' at hspares
  have hpicture : picture b' = picture b := hb' ▸ picture_remembering b _
  have hc' : b'.chans[ci]? = some c := by rw [← hb']; exact hc
  have hget' : b'.chans.getD ci {} = c := by
    rw [List.getD_eq_getElem?_getD, hc']
    rfl
  rw [hget] at hne hlen hknown hr
  obtain ⟨s₁, s₂, s₃, hpasses⟩ := banSweep_passes sha256 hc' hknown t
  have hstart : Ready b' ci (refused c.name t masks) { bot := b' } := by
    refine ⟨rfl, rfl, ?_, by rw [← hb']; rfl⟩
    intro x hx hpending
    rw [← hb'] at hx
    exact absurd (congrArg (·.whenMs) (List.eq_of_mem_replicate hx)) hpending
  have hready : Ready b' ci (refused c.name t masks) s₁ := by
    rw [hpasses.protect]
    split
    · have hwalk (xs : List LiveBan) : ∀ s, Ready b' ci (refused c.name t masks) s →
          Ready b' ci (refused c.name t masks) (xs.foldl (sweepProtect sha256 ci) s) := by
        induction xs with
        | nil => exact fun s hs => hs
        | cons x xs ih => exact fun s hs => ih _ (hs.protect x)
      exact hwalk c.bans _ hstart
    · exact hstart
  have hmixed' : Mixed b' ci r := by
    unfold Mixed
    rw [hitsOf_of_picture hpicture]
    exact hmixed
  obtain ⟨x, hx, hkick, hhit⟩ := @exists_kick_foldl sha256 b' ci t masks r
    (by rw [hget']; exact hne) (by rw [hget']; exact hlen) hmixed'
    (by
      intro m hm
      obtain ⟨y, hy, rfl⟩ := List.mem_map.mp hm
      simpa using (List.mem_filter.mp hy).2)
    ((bansFor b' c.name (maxBansPerChan + maxGlobalBans)).insertionSort (banOrder · ·))
    { s₁ with room := s₁.bot.isup.banCap - c.bans.length }
    (by rw [hget']; exact ⟨hready.picture, hready.kicks, hready.ring, hready.tracks⟩)
    (by
      intro y hy hother
      rw [List.mem_insertionSort, bansFor_of_picture hpicture] at hy
      exact List.mem_map_of_mem (List.mem_filter.mpr ⟨hy, by rw [hother]; rfl⟩))
    (by rw [List.mem_insertionSort, bansFor_of_picture hpicture]; exact hr)
  rw [← hpasses.record] at hx
  obtain ⟨-, new, hsent, -⟩ := hpasses.adds_lift.trans hpasses.adds_enforce
  exact (hspares x (hsent ▸ List.mem_append_left new hx) hhit).1 hkick

end

/-- **Whom a sweep spares.** Whatever the bot remembers, it neither sets nor kicks by a mask
that hits an authorised member, exactly when no record of its network list hits an
authorised member and others (or the bans on the channel are not known yet). -/
theorem spares_iff (sha256 : Str → Str) {b : BotState} {ci : Nat} (t : Int)
    (hne : (b.chans.getD ci {}).name ≠ []) (hlen : (b.chans.getD ci {}).name.length < maxChan) :
    (∀ m, SparesAuthorised sha256 (remembering b m) ci t) ↔ Unmixed b ci := by
  constructor
  · intro h hknown r hr hmixed
    obtain ⟨m, hm⟩ := @exists_not_spares sha256 b ci t r hne hlen hknown hr hmixed
    exact hm (h m)
  · intro h m
    refine spares_of_unmixed ?_ t
    intro hknown r hr hmixed
    rw [bansFor_of_picture (picture_remembering b m)] at hr
    unfold Mixed at hmixed
    rw [hitsOf_of_picture (picture_remembering b m)] at hmixed
    exact h hknown r hr hmixed

/-- A channel with a trusted bot and somebody else, and a ban on record that hits both. -/
def shared : BotState where
  now := 1000
  trustedBots := [{ mask := str "alice!*@good.host" }]
  cfgBans := [{ chan := str "#c", mask := str "*!*@*.host", ts := 10, active := true }]
  chans := [{
    name := str "#c", status := .inside, iAmOpped := true, banListKnown := true
    roster := [
      { nick := str "alice", hostmask := str "alice!u@good.host" },
      { nick := str "mallory", hostmask := str "mallory!u@evil.host" }] }]

theorem spares_iff_shared :
    ((shared.chans.getD 0 {}).name ≠ [] ∧ (shared.chans.getD 0 {}).name.length < maxChan) ∧
      ((∀ m, SparesAuthorised (fun _ => []) (remembering shared m) 0 1000) ↔ Unmixed shared 0) :=
  ⟨by decide, spares_iff (fun _ => []) 1000 (by decide) (by decide)⟩

/-- The ban is refused for the trusted bot's sake, and the other one is kicked by it. -/
theorem not_spares_shared :
    ¬ ∀ (sha256 : Str → Str) (b : BotState) (ci : Nat) (t : Int),
      SparesAuthorised sha256 b ci t := by
  intro h
  have hshared := h (fun _ => []) shared 0 1000
  unfold SparesAuthorised at hshared
  revert hshared
  decide

end IrcBot.BanSpare
