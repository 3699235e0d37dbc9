/-
# The ban sweep (`chanenf.rs`)

Every few seconds the bans of a channel are gone over: (a) those that hit an authorised
member are lifted, (b) the recorded ones are set and used to kick, (c) those whose record
has run out or was deleted are lifted, (d) and any other ban on the channel is used to kick.
`Sweep` carries along what has been handed to the election, and for which mask.

* `adds_banSweep` — a sweep hands over due work only, and changes nothing that one of its
  steps decides by.
* `banSweep_passes` — the passes one after the other, each from the picture of the first.
-/
import IrcBot.Members
import IrcBot.ModeEvents

namespace IrcBot.BanSweep

open Cstr Masks Auth Chancfg Chanenf Enforce Jobs Members ModeEvents

/-! ### What a mask matches -/

/-- The walk of `unauth_match`, from place `i` of the roster. -/
def unauthLoop (ci : Nat) (mask : Str) :
    BotState → Nat → List RosterEntry → (List Str × Bool) × BotState
  | b, _, [] => (([], false), b)
  | b, i, e :: es =>
      let seen := memberVerdict b ci i e
      let rest := unauthLoop ci mask seen.2 (i + 1) es
      let hit := wildcardMatch mask e.hostmask
      if seen.1 then ((rest.1.1, hit || rest.1.2), rest.2)
      else (((if hit then [e.nick] else []) ++ rest.1.1, rest.1.2), rest.2)

/-- `unauth_match`: the nicks of the unauthorised members `mask` matches, and whether it
matches an authorised one too. -/
def unauthMatch (b : BotState) (ci : Nat) (mask : Str) : (List Str × Bool) × BotState :=
  match b.chans[ci]? with
  | none => (([], false), b)
  | some c => unauthLoop ci mask b 0 c.roster

/-! ### The records -/

/-- A record that is in force at `t`. -/
def inForce (t : Int) (x : CfgBan) : Bool := x.active && !(0 < x.expires && x.expires ≤ t)

/-- A record for a channel, or for all. -/
def appliesTo (chan : Str) (x : CfgBan) : Bool := x.chan == str "*" || eqIc x.chan chan

/-- `bans_for`. -/
def bansFor (b : BotState) (chan : Str) (max : Nat) : List CfgBan :=
  ((b.cfgBans.filter (inForce b.now)).filter (appliesTo chan)).take max

/-- The order in which the sweep takes them: permanent before timed, older before newer. -/
def banOrder (x y : CfgBan) : Bool :=
  if x.expires = 0 ↔ y.expires = 0 then decide (x.ts ≤ y.ts) else x.expires = 0

/-! ### The sweep -/

/-- Work handed to the election. -/
structure Submission where
  /-- The mask it is done for. -/
  mask : Str
  act : JobAct
  target : Str
  reason : Str
  /-- The lines that it queued. -/
  lines : List Str
deriving DecidableEq, Repr

/-- What a sweep carries along. -/
structure Sweep where
  bot : BotState
  kicks : Nat := 0
  room : Int := 0
  sent : List Submission := []

/-- `recent_peek`. -/
def recentPeek (b : BotState) (name act target : Str) (windowMs : Int) : Bool :=
  (recentKey b name act target windowMs).1

section

variable (sha256 : Str → Str)

/-- `job_submit`, for a mask. -/
def Sweep.submit (s : Sweep) (ci : Nat) (mask : Str) (act : JobAct) (target reason : Str) : Sweep :=
  let b := (jobSubmit sha256 s.bot ci act target reason).2
  { s with
    bot := b
    sent := s.sent ++ [⟨mask, act, target, reason, b.ircOut.drop s.bot.ircOut.length⟩] }

/-- One turn of `sweep_kicks`: a member whose kick is pending does not count. -/
def sweepKick (ci : Nat) (mask reason : Str) (s : Sweep) (nk : Str) : Sweep :=
  if enfKicksPerSweep ≤ s.kicks then s
  else if recentPeek s.bot (s.bot.chans.getD ci {}).name (str "kick") nk recentActMs then s
  else Sweep.submit sha256 { s with kicks := s.kicks + 1 } ci mask .kick nk reason

/-- `sweep_kicks`. -/
def sweepKicks (ci : Nat) (mask reason : Str) (s : Sweep) (hits : List Str) : Sweep :=
  (hits.take maxRosterSize).foldl (sweepKick sha256 ci mask reason) s

/-- (a): a ban on the channel that matches an authorised member. -/
def sweepProtect (ci : Nat) (s : Sweep) (x : LiveBan) : Sweep :=
  if banMaskMax < x.mask.length then s
  else
    let hit := banHitsAuthorised s.bot ci x.mask
    if hit.1 then Sweep.submit sha256 { s with bot := hit.2 } ci x.mask .unban x.mask (str "protectops")
    else { s with bot := hit.2 }

/-- The clock says that the mask is known to hit a bot or an operator. -/
def knownToHit (tr : BanTrack) (t : Int) : Bool :=
  tr.checkedAt != 0 && t - tr.checkedAt < 60 && !tr.overlapOk

/-- What (b) does about the ban itself: set, lifted once it is idle, or left. -/
def sweepSet (ci : Nat) (t : Int) (keep live matched : Bool) (lastMatch : Int) (s : Sweep)
    (r : CfgBan) : Sweep :=
  let idle := get s.bot s.bot.chans[ci]? .banIdle * 60
  let sticky := r.flags.contains (byte 's')
  if keep && (live || sticky || 0 < s.room) then
    if live then s
    else Sweep.submit sha256 { s with room := s.room - 1 } ci r.mask .banMask r.mask r.reason
  else if matched && !live then Sweep.submit sha256 s ci r.mask .banMask r.mask r.reason
  else if live && !matched && 0 < idle && idle ≤ t - lastMatch then
    Sweep.submit sha256 s ci r.mask .unban r.mask (str "banidle")
  else s

/-- (b): a record of the network list. -/
def sweepRecord (ci : Nat) (t : Int) (s : Sweep) (r : CfgBan) : Sweep :=
  if !safeToken r.mask banMaskMax then s
  else
    let track := trackGet s.bot (s.bot.chans.getD ci {}).name r.mask t
    let tr := track.2.banTrack.getD track.1 {}
    if knownToHit tr t then { s with bot := track.2 }
    else
      let live := liveHasBan (s.bot.chans.getD ci {}) r.mask
      let hit := unauthMatch track.2 ci r.mask
      let matched := !hit.1.1.isEmpty
      let keep := r.flags.contains (byte 's') || get s.bot s.bot.chans[ci]? .dynamicBans = 0
      let b :=
        if matched then withTrack hit.2 track.1 fun tr => { tr with lastMatch := t } else hit.2
      let s := sweepSet sha256 ci t keep live matched tr.lastMatch { s with bot := b } r
      if matched then
        sweepKicks sha256 ci r.mask (if r.reason.isEmpty then str "banned" else r.reason) s hit.1.1
      else s

/-- The records (c) lifts from the channel. -/
def lifts (b : BotState) (ci : Nat) (t : Int) : List CfgBan :=
  ((b.cfgBans.filter (!inForce t ·)).filter (appliesTo (b.chans.getD ci {}).name)).filter fun x =>
    liveHasBan (b.chans.getD ci {}) x.mask

/-- (c): a record that has run out or was deleted. -/
def sweepLift (ci : Nat) (s : Sweep) (r : CfgBan) : Sweep :=
  Sweep.submit sha256 s ci r.mask .unban r.mask (if r.active then str "expired" else str "removed")

/-- (d): anyone's ban, unless it hits an authorised member. -/
def sweepEnforce (ci : Nat) (s : Sweep) (x : LiveBan) : Sweep :=
  if !safeToken x.mask banMaskMax then s
  else
    let hit := unauthMatch s.bot ci x.mask
    let s := { s with bot := hit.2 }
    if hit.1.1.isEmpty || hit.1.2 then s
    else sweepKicks sha256 ci x.mask (str "banned") s hit.1.1

/-- `ban_sweep`. -/
def banSweep (b : BotState) (ci : Nat) (t : Int) : Sweep :=
  match b.chans[ci]? with
  | none => { bot := b }
  | some c =>
      if !c.banListKnown then { bot := b }
      else
        let s : Sweep := { bot := b }
        let s := if get b (some c) .protectOps ≠ 0 then c.bans.foldl (sweepProtect sha256 ci) s else s
        let recs := (bansFor s.bot c.name (maxBansPerChan + maxGlobalBans)).insertionSort (banOrder · ·)
        let s := { s with room := s.bot.isup.banCap - c.bans.length }
        let s := recs.foldl (sweepRecord sha256 ci t) s
        let s := (lifts s.bot ci t).foldl (sweepLift sha256 ci) s
        if get b (some c) .enforceBans ≠ 0 then c.bans.foldl (sweepEnforce sha256 ci) s else s

end

/-! ### What a mask matches, by the picture -/

/-- The nicks of the unauthorised members `mask` matches, and whether it matches an
authorised one. -/
def hitsOf (b : BotState) (ci : Nat) (mask : Str) : List Str × Bool :=
  match b.chans[ci]? with
  | none => ([], false)
  | some c =>
      ((c.roster.filter fun e => !entryVerdict b e && wildcardMatch mask e.hostmask).map (·.nick),
        c.roster.any fun e => entryVerdict b e && wildcardMatch mask e.hostmask)

theorem unauthLoop_fst (ci : Nat) (mask : Str) (es : List RosterEntry) :
    ∀ (b : BotState) (i : Nat), (unauthLoop ci mask b i es).1 =
      ((es.filter fun e => !entryVerdict b e && wildcardMatch mask e.hostmask).map (·.nick),
        es.any fun e => entryVerdict b e && wildcardMatch mask e.hostmask) := by
  induction es with
  | nil => exact fun b i => rfl
  | cons e es ih =>
      intro b i
      have hverdict : (memberVerdict b ci i e).1 = entryVerdict b e := (memberVerdict_eq b ci i e).1
      have hrest (f : RosterEntry) : entryVerdict (memberVerdict b ci i e).2 f = entryVerdict b f :=
        entryVerdict_memberVerdict b ci i e f
      unfold unauthLoop
      dsimp only
      rw [ih, hverdict]
      simp only [hrest, List.filter_cons, List.any_cons]
      cases entryVerdict b e with
      | true => simp
      | false => cases wildcardMatch mask e.hostmask <;> simp

/-- The walk reports what one reading of the verdicts does. -/
theorem unauthMatch_fst (b : BotState) (ci : Nat) (mask : Str) :
    (unauthMatch b ci mask).1 = hitsOf b ci mask := by
  unfold unauthMatch hitsOf
  cases b.chans[ci]? with
  | none => rfl
  | some c => exact unauthLoop_fst ci mask c.roster b 0

theorem hitsOf_snd (b : BotState) (ci : Nat) (mask : Str) :
    (hitsOf b ci mask).2 = (allowedMembers b ci mask).isSome := by
  unfold hitsOf allowedMembers
  cases b.chans[ci]? with
  | none => rfl
  | some c =>
      rw [Option.bind_some, Option.isSome_map, Bool.eq_iff_iff, List.any_eq_true, List.find?_isSome]

/-- Only the picture counts. -/
theorem hitsOf_of_picture {b b' : BotState} (h : picture b' = picture b) (ci : Nat) (mask : Str) :
    hitsOf b' ci mask = hitsOf b ci mask := by
  have hview (b : BotState) : hitsOf b ci mask =
      match (picture b).2[ci]? with
      | none => ([], false)
      | some v =>
          ((v.2.filter fun x => !x.2 && wildcardMatch mask x.1.hostmask).map (·.1.nick),
            v.2.any fun x => x.2 && wildcardMatch mask x.1.hostmask) := by
    unfold hitsOf picture
    dsimp only
    rw [List.getElem?_map]
    cases b.chans[ci]? with
    | none => rfl
    | some c =>
        simp only [Option.map_some, chanView, List.filter_map, List.map_map, List.any_map]
        rfl
  rw [hview, hview, h]

/-- Up to its members and their caches, a channel is in the picture. -/
theorem chan_of_picture {b b' : BotState} (h : picture b' = picture b) (ci : Nat) :
    emptied (b'.chans.getD ci {}) = emptied (b.chans.getD ci {}) := by
  have hview (b : BotState) :
      emptied (b.chans.getD ci {}) = ((picture b).2[ci]?.map (·.1)).getD {} := by
    unfold picture
    dsimp only
    rw [List.getD_eq_getElem?_getD, List.getElem?_map]
    cases b.chans[ci]? <;> rfl
  rw [hview, hview, h]

theorem name_of_picture {b b' : BotState} (h : picture b' = picture b) (ci : Nat) :
    (b'.chans.getD ci {}).name = (b.chans.getD ci {}).name :=
  show (emptied (b'.chans.getD ci {})).name = (emptied (b.chans.getD ci {})).name by
    rw [chan_of_picture h ci]

theorem bans_of_picture {b b' : BotState} (h : picture b' = picture b) (ci : Nat) :
    (b'.chans.getD ci {}).bans = (b.chans.getD ci {}).bans :=
  show (emptied (b'.chans.getD ci {})).bans = (emptied (b.chans.getD ci {})).bans by
    rw [chan_of_picture h ci]

theorem cfgBans_of_picture {b b' : BotState} (h : picture b' = picture b) :
    b'.cfgBans = b.cfgBans := congrArg (·.1.cfgBans) h

theorem now_of_picture {b b' : BotState} (h : picture b' = picture b) : b'.now = b.now :=
  congrArg (·.1.now) h

theorem picture_unauthLoop {ci : Nat} {mask : Str} (es : List RosterEntry) :
    ∀ {b : BotState} {i : Nat} {c : Chan}, b.chans[ci]? = some c → c.roster.drop i = es →
      picture (unauthLoop ci mask b i es).2 = picture b := by
  induction es with
  | nil => exact fun _ _ => rfl
  | cons e es ih =>
      intro b i c hc hdrop
      obtain ⟨hseen, c', hc', hdrop'⟩ := memberVerdict_next hc hdrop
      have hrest := (ih hc' hdrop').trans hseen
      unfold unauthLoop
      dsimp only
      split
      · exact hrest
      · exact hrest

/-- The walk fills caches, nothing else. -/
theorem unauthMatch_eq (b : BotState) (ci : Nat) (mask : Str) :
    ∃ cells chans, (unauthMatch b ci mask).2 = { b with auth := cells, chans := chans } := by
  have hwalk (es : List RosterEntry) : ∀ (s : BotState) (i : Nat), ∃ cells chans,
      (unauthLoop ci mask s i es).2 = { s with auth := cells, chans := chans } := by
    induction es with
    | nil => exact fun s i => ⟨s.auth, s.chans, rfl⟩
    | cons e es ih =>
        intro s i
        obtain ⟨-, cells, chans, hseen⟩ := memberVerdict_eq s ci i e
        obtain ⟨cells', chans', hrest⟩ := ih (memberVerdict s ci i e).2 (i + 1)
        refine ⟨cells', chans', ?_⟩
        rw [hseen] at hrest
        unfold unauthLoop
        dsimp only
        split
        · rw [hseen, hrest]
        · rw [hseen, hrest]
  unfold unauthMatch
  split
  · exact ⟨b.auth, b.chans, rfl⟩
  · exact hwalk _ b 0

@[simp] theorem picture_unauthMatch (b : BotState) (ci : Nat) (mask : Str) :
    picture (unauthMatch b ci mask).2 = picture b := by
  unfold unauthMatch
  split
  · rfl
  · rename_i c hc
    exact picture_unauthLoop c.roster hc List.drop_zero

@[simp] theorem picture_banHitsAuthorised (b : BotState) (ci : Nat) (mask : Str) :
    picture (banHitsAuthorised b ci mask).2 = picture b := picture_allowedMembersFill b ci mask

/-! ### What each pass hands over -/

/-- From `s` to `s'` the sweep hands over only what `P` allows, and the picture stays. -/
structure Adds (P : Submission → Prop) (s s' : Sweep) : Prop where
  picture : picture s'.bot = picture s.bot
  sent : ∃ new, s'.sent = s.sent ++ new ∧ ∀ x ∈ new, P x

section Adds

variable {P Q : Submission → Prop} {s s₁ s₂ : Sweep}

theorem Adds.of_sent (hpicture : Members.picture s₁.bot = Members.picture s.bot)
    (hsent : s₁.sent = s.sent) : Adds P s s₁ := ⟨hpicture, [], by simp [hsent], by simp⟩

theorem Adds.refl (s : Sweep) : Adds P s s := .of_sent rfl rfl

theorem Adds.trans (h : Adds P s s₁) (h' : Adds P s₁ s₂) : Adds P s s₂ := by
  obtain ⟨hpicture, new, hnew, hall⟩ := h
  obtain ⟨hpicture', new', hnew', hall'⟩ := h'
  refine ⟨hpicture'.trans hpicture, new ++ new', by rw [hnew', hnew, List.append_assoc], ?_⟩
  intro x hx
  exact (List.mem_append.mp hx).elim (hall x) (hall' x)

theorem Adds.mono (h : Adds P s s₁) (himp : ∀ x, P x → Q x) : Adds Q s s₁ := by
  obtain ⟨hpicture, new, hnew, hall⟩ := h
  exact ⟨hpicture, new, hnew, fun x hx => himp x (hall x hx)⟩

/-- A walk, from each of its steps. -/
theorem Adds.foldl {α : Type} {f : Sweep → α → Sweep} {xs : List α}
    (h : ∀ s', Members.picture s'.bot = Members.picture s.bot → ∀ x ∈ xs, Adds P s' (f s' x)) :
    Adds P s (xs.foldl f s) := by
  induction xs generalizing s with
  | nil => exact .refl s
  | cons x xs ih =>
      have hstep := h s rfl x List.mem_cons_self
      refine hstep.trans (ih fun s' hs' y hy => h s' ?_ y (List.mem_cons_of_mem x hy))
      exact hs'.trans hstep.picture

end Adds

section

variable {sha256 : Str → Str}

theorem adds_submit (s : Sweep) (ci : Nat) (mask : Str) {act : JobAct}
    (hact : act = .kick ∨ act = .banMask ∨ act = .unban) (target reason : Str) :
    Adds (fun x => x.mask = mask ∧ x.act = act ∧ x.target = target ∧ x.reason = reason ∧
        x.lines = (jobSubmit sha256 s.bot ci act target reason).2.ircOut.drop s.bot.ircOut.length)
      s (s.submit sha256 ci mask act target reason) :=
  ⟨picture_jobSubmit sha256 s.bot ci hact target reason, _, rfl, by simp⟩

theorem adds_sweepKick (ci : Nat) (mask reason : Str) (s : Sweep) (nk : Str) :
    Adds (fun x => x.mask = mask ∧ x.act = .kick ∧ x.target = nk) s
      (sweepKick sha256 ci mask reason s nk) := by
  unfold sweepKick
  split
  · exact .refl s
  · split
    · exact .refl s
    · have hcount : Adds (fun x => x.mask = mask ∧ x.act = .kick ∧ x.target = nk) s
          { s with kicks := s.kicks + 1 } := .of_sent rfl rfl
      exact hcount.trans ((adds_submit _ ci mask (.inl rfl) nk reason).mono fun x hx =>
        ⟨hx.1, hx.2.1, hx.2.2.1⟩)

theorem adds_sweepKicks (ci : Nat) (mask reason : Str) (s : Sweep) (hits : List Str) :
    Adds (fun x => x.mask = mask ∧ x.act = .kick ∧ x.target ∈ hits) s
      (sweepKicks sha256 ci mask reason s hits) := by
  refine Adds.foldl fun s' _ nk hnk => (adds_sweepKick ci mask reason s' nk).mono ?_
  rintro x ⟨hmask, hact, htarget⟩
  exact ⟨hmask, hact, htarget ▸ List.mem_of_mem_take hnk⟩

variable (sha256) in
theorem adds_sweepProtect (ci : Nat) (s : Sweep) (x : LiveBan) :
    Adds (fun y => y.act = .unban ∧ y.reason = str "protectops") s (sweepProtect sha256 ci s x) := by
  have hseen : Adds (fun y => y.act = .unban ∧ y.reason = str "protectops") s
      { s with bot := (banHitsAuthorised s.bot ci x.mask).2 } :=
    .of_sent (picture_banHitsAuthorised s.bot ci x.mask) rfl
  unfold sweepProtect
  split
  · exact .refl s
  · dsimp only
    split
    · refine hseen.trans ((adds_submit _ ci x.mask (.inr (.inr rfl)) x.mask _).mono ?_)
      rintro y ⟨-, hact, -, hreason, -⟩
      exact ⟨hact, hreason⟩
    · exact hseen

/-- What is done about the ban of a record. -/
def AboutBan (b : BotState) (ci : Nat) (r : CfgBan) (x : Submission) : Prop :=
  x.mask = r.mask ∧
    ((x.act = .banMask ∧ x.target = r.mask ∧ ((hitsOf b ci r.mask).2 = true → x.lines = [])) ∨
      (x.act = .unban ∧ x.reason = str "banidle"))

/-- A ban that would hit an authorised member queues no line. -/
theorem ircOut_banMask {b : BotState} {ci : Nat} {mask : Str} (h : (hitsOf b ci mask).2 = true)
    (reason : Str) : (jobSubmit sha256 b ci .banMask mask reason).2.ircOut = b.ircOut := by
  have hmembers (s : BotState) : (allowedMembersFill s ci mask).2.ircOut = s.ircOut := by
    obtain ⟨cells, chans, heq⟩ := allowedMembersFill_eq s ci mask
    rw [heq]
  have htrack (name : Str) (t : Int) : (trackGet b name mask t).2.ircOut = b.ircOut := by
    unfold trackGet
    dsimp only
    split <;> rfl
  have hact : (actBan b ci mask reason).ircOut = b.ircOut := by
    unfold actBan
    split
    · rfl
    · rename_i c hc
      split
      · rfl
      · split
        · rfl
        · have hhit : (allowedMembersFill (trackGet b c.name mask b.now).2 ci mask).1.isSome := by
            rw [allowedMembersFill_fst, ← hitsOf_snd,
              hitsOf_of_picture (picture_trackGet b c.name mask b.now), h]
          dsimp only
          rw [if_pos hhit]
          split
          · exact htrack c.name b.now
          · rw [hmembers, htrack]
  obtain hdone | ⟨jobs, hqueued⟩ := jobSubmit_eq sha256 b ci .banMask mask reason
  · rw [hdone]
    exact hact
  · rw [hqueued]

variable (sha256) in
theorem adds_sweepSet {b : BotState} {s : Sweep} (hs : picture s.bot = picture b) (ci : Nat)
    (t : Int) (keep live matched : Bool) (lastMatch : Int) (r : CfgBan) :
    Adds (AboutBan b ci r) s (sweepSet sha256 ci t keep live matched lastMatch s r) := by
  have hban (s' : Sweep) (hs' : picture s'.bot = picture b) :
      Adds (AboutBan b ci r) s' (s'.submit sha256 ci r.mask .banMask r.mask r.reason) := by
    refine (adds_submit s' ci r.mask (.inr (.inl rfl)) r.mask r.reason).mono ?_
    rintro x ⟨hmask, hact, htarget, -, hlines⟩
    refine ⟨hmask, .inl ⟨hact, htarget, fun hhit => ?_⟩⟩
    rw [hlines, ircOut_banMask (by rw [hitsOf_of_picture hs', hhit]), List.drop_length]
  unfold sweepSet
  dsimp only
  split
  · split
    · exact .refl s
    · have hroom : Adds (AboutBan b ci r) s { s with room := s.room - 1 } := .of_sent rfl rfl
      exact hroom.trans (hban _ hs)
  · split
    · exact hban s hs
    · split
      · refine (adds_submit s ci r.mask (.inr (.inr rfl)) r.mask _).mono ?_
        rintro x ⟨hmask, hact, -, hreason, -⟩
        exact ⟨hmask, .inr ⟨hact, hreason⟩⟩
      · exact .refl s

/-- What is done for a record. -/
def ForRecord (b : BotState) (ci : Nat) (r : CfgBan) (x : Submission) : Prop :=
  safeToken r.mask banMaskMax = true ∧
    (AboutBan b ci r x ∨ (x.mask = r.mask ∧ x.act = .kick ∧ x.target ∈ (hitsOf b ci r.mask).1))

theorem adds_sweepRecord {b : BotState} {ci : Nat} {t : Int} {s : Sweep}
    (hs : picture s.bot = picture b) (r : CfgBan) :
    Adds (ForRecord b ci r) s (sweepRecord sha256 ci t s r) := by
  unfold sweepRecord
  dsimp only
  split
  · exact .refl s
  · rename_i hsafe
    rw [Bool.not_eq_true', Bool.not_eq_false] at hsafe
    split
    · exact .of_sent (picture_trackGet _ _ _ _) rfl
    · have hwalk : picture (unauthMatch (trackGet s.bot (s.bot.chans.getD ci {}).name r.mask t).2 ci
          r.mask).2 = picture s.bot := by
        rw [picture_unauthMatch, picture_trackGet]
      have hhits : (unauthMatch (trackGet s.bot (s.bot.chans.getD ci {}).name r.mask t).2 ci
          r.mask).1 = hitsOf b ci r.mask := by
        rw [unauthMatch_fst, hitsOf_of_picture ((picture_trackGet _ _ _ _).trans hs)]
      rw [hhits]
      generalize hbot : (if (!(hitsOf b ci r.mask).1.isEmpty) = true then withTrack _ _ _ else _) = bot
      have hpicture : picture bot = picture s.bot := by
        rw [← hbot]
        split
        · rw [picture_withTrack, hwalk]
        · exact hwalk
      have hset (keep live matched : Bool) (lastMatch : Int) : Adds (ForRecord b ci r) s
          (sweepSet sha256 ci t keep live matched lastMatch { s with bot } r) := by
        have hbot : Adds (ForRecord b ci r) s { s with bot } := .of_sent hpicture rfl
        have hpic : picture { s with bot }.bot = picture b := hpicture.trans hs
        exact hbot.trans ((adds_sweepSet _ hpic ci t keep live matched lastMatch r).mono
          fun x hx => ⟨hsafe, .inl hx⟩)
      split
      · refine (hset _ _ _ _).trans ((adds_sweepKicks ci r.mask _ _ _).mono fun x hx => ?_)
        exact ⟨hsafe, .inr hx⟩
      · exact hset _ _ _ _

theorem adds_sweepLift (ci : Nat) (s : Sweep) (r : CfgBan) :
    Adds (fun x => x.mask = r.mask ∧ x.act = .unban ∧ x.target = r.mask ∧
      x.reason = if r.active then str "expired" else str "removed") s (sweepLift sha256 ci s r) :=
  (adds_submit s ci r.mask (.inr (.inr rfl)) r.mask _).mono fun _ hx =>
    ⟨hx.1, hx.2.1, hx.2.2.1, hx.2.2.2.1⟩

theorem adds_sweepEnforce {b : BotState} {ci : Nat} {s : Sweep} (hs : picture s.bot = picture b)
    (x : LiveBan) :
    Adds (fun y => y.mask = x.mask ∧ y.act = .kick ∧ (hitsOf b ci x.mask).2 = false) s
      (sweepEnforce sha256 ci s x) := by
  unfold sweepEnforce
  dsimp only
  split
  · exact .refl s
  · have hseen : Adds (fun y => y.mask = x.mask ∧ y.act = .kick ∧ (hitsOf b ci x.mask).2 = false) s
        { s with bot := (unauthMatch s.bot ci x.mask).2 } := .of_sent (picture_unauthMatch _ _ _) rfl
    split
    · exact hseen
    · rename_i hspared
      rw [unauthMatch_fst, hitsOf_of_picture hs, Bool.or_eq_true, not_or, Bool.not_eq_true,
        Bool.not_eq_true] at hspared
      refine hseen.trans ((adds_sweepKicks ci x.mask _ _ _).mono ?_)
      rintro y ⟨hmask, hact, -⟩
      exact ⟨hmask, hact, hspared.2⟩

/-! ### The whole sweep -/

/-- What a sweep may hand over: the ban of an authorised member comes off, a record in force
is acted on, a record that is over is lifted, and anyone's ban that hits nobody authorised
is used to kick. -/
inductive DueWork (b : BotState) (ci : Nat) (t : Int) (x : Submission) : Prop where
  | protect : x.act = .unban → x.reason = str "protectops" → DueWork b ci t x
  | record (r : CfgBan) :
      r ∈ bansFor b (b.chans.getD ci {}).name (maxBansPerChan + maxGlobalBans) →
        ForRecord b ci r x → DueWork b ci t x
  | lift (r : CfgBan) : r ∈ lifts b ci t → x.act = .unban → x.target = r.mask → DueWork b ci t x
  | enforce : x.act = .kick → (hitsOf b ci x.mask).2 = false → DueWork b ci t x

theorem lifts_of_picture {b b' : BotState} (h : picture b' = picture b) (ci : Nat) (t : Int) :
    lifts b' ci t = lifts b ci t := by
  have hlive : liveHasBan (b'.chans.getD ci {}) = liveHasBan (b.chans.getD ci {}) := by
    funext mask
    unfold liveHasBan
    rw [bans_of_picture h]
  unfold lifts
  rw [cfgBans_of_picture h, name_of_picture h, hlive]

theorem bansFor_of_picture {b b' : BotState} (h : picture b' = picture b) (chan : Str)
    (max : Nat) : bansFor b' chan max = bansFor b chan max := by
  unfold bansFor
  rw [cfgBans_of_picture h, now_of_picture h]

/-- The passes of a sweep: (a) ends in `s₁`, (b) in `s₂`, (c) in `s₃`. -/
structure Passes (sha256 : Str → Str) (b : BotState) (ci : Nat) (c : Chan) (t : Int)
    (s₁ s₂ s₃ : Sweep) : Prop where
  protect : s₁ = if get b (some c) .protectOps ≠ 0 then
    c.bans.foldl (sweepProtect sha256 ci) { bot := b } else { bot := b }
  record : s₂ = ((bansFor b c.name (maxBansPerChan + maxGlobalBans)).insertionSort
    (banOrder · ·)).foldl (sweepRecord sha256 ci t) { s₁ with
      room := s₁.bot.isup.banCap - c.bans.length }
  lift : s₃ = (lifts b ci t).foldl (sweepLift sha256 ci) s₂
  adds_protect : Adds (DueWork b ci t) { bot := b } s₁
  adds_record : Adds (DueWork b ci t) s₁ s₂
  adds_lift : Adds (DueWork b ci t) s₂ s₃
  adds_enforce : Adds (DueWork b ci t) s₃ (banSweep sha256 b ci t)

variable (sha256) in
theorem banSweep_passes {b : BotState} {ci : Nat} {c : Chan} (hc : b.chans[ci]? = some c)
    (hknown : c.banListKnown = true) (t : Int) :
    ∃ s₁ s₂ s₃, Passes sha256 b ci c t s₁ s₂ s₃ := by
  have hname : (b.chans.getD ci {}).name = c.name := by
    rw [List.getD_eq_getElem?_getD, hc]
    rfl
  generalize hs₁ : (if get b (some c) .protectOps ≠ 0 then
    c.bans.foldl (sweepProtect sha256 ci) { bot := b } else { bot := b }) = s₁
  have h₁ : Adds (DueWork b ci t) { bot := b } s₁ := by
    rw [← hs₁]
    split
    · exact Adds.foldl fun s' _ x _ => (adds_sweepProtect _ ci s' x).mono fun y hy =>
        .protect hy.1 hy.2
    · exact .refl _
  have hp₁ : picture s₁.bot = picture b := h₁.picture
  have hrecs := bansFor_of_picture hp₁ c.name (maxBansPerChan + maxGlobalBans)
  generalize hs₂ : ((bansFor b c.name (maxBansPerChan + maxGlobalBans)).insertionSort
    (banOrder · ·)).foldl (sweepRecord sha256 ci t) { s₁ with
      room := s₁.bot.isup.banCap - c.bans.length } = s₂
  have h₂ : Adds (DueWork b ci t) s₁ s₂ := by
    have hroom (n : Int) : Adds (DueWork b ci t) s₁ { s₁ with room := n } := .of_sent rfl rfl
    rw [← hs₂]
    refine (hroom _).trans (Adds.foldl fun s' hs' r hr => ?_)
    rw [List.mem_insertionSort, ← hname] at hr
    exact (adds_sweepRecord (hs'.trans hp₁) r).mono fun x hx => .record r hr hx
  have hp₂ : picture s₂.bot = picture b := h₂.picture.trans hp₁
  have hlifts := lifts_of_picture hp₂ ci t
  generalize hs₃ : (lifts b ci t).foldl (sweepLift sha256 ci) s₂ = s₃
  have h₃ : Adds (DueWork b ci t) s₂ s₃ := by
    rw [← hs₃]
    exact Adds.foldl fun s' _ r hr => (adds_sweepLift ci s' r).mono fun x hx =>
      .lift r hr hx.2.1 hx.2.2.1
  have hp₃ : picture s₃.bot = picture b := h₃.picture.trans hp₂
  refine ⟨s₁, s₂, s₃, hs₁.symm, hs₂.symm, hs₃.symm, h₁, h₂, h₃, ?_⟩
  unfold banSweep
  rw [hc]
  dsimp only
  rw [hknown, Bool.not_true, if_neg Bool.false_ne_true, hs₁, hrecs, hs₂, hlifts, hs₃]
  split
  · refine Adds.foldl fun s' hs' x _ => (adds_sweepEnforce (hs'.trans hp₃) x).mono ?_
    rintro y ⟨hmask, hact, hspared⟩
    exact .enforce hact (hmask ▸ hspared)
  · exact .refl s₃

theorem banSweep_unknown {b : BotState} {ci : Nat}
    (h : ∀ c, b.chans[ci]? = some c → c.banListKnown = false) (t : Int) :
    banSweep sha256 b ci t = { bot := b } := by
  unfold banSweep
  split
  · rfl
  · rename_i c hc
    rw [h c hc, Bool.not_false, if_pos rfl]

variable (sha256) in
/-- **A sweep hands over due work only**, and leaves the picture as it is. -/
theorem adds_banSweep (b : BotState) (ci : Nat) (t : Int) :
    Adds (DueWork b ci t) { bot := b } (banSweep sha256 b ci t) := by
  by_cases h : ∀ c, b.chans[ci]? = some c → c.banListKnown = false
  · rw [banSweep_unknown h]
    exact .refl _
  · push Not at h
    obtain ⟨c, hc, hknown⟩ := h
    rw [ne_eq, Bool.not_eq_false] at hknown
    obtain ⟨s₁, s₂, s₃, hpasses⟩ := banSweep_passes sha256 hc hknown t
    exact (hpasses.adds_protect.trans hpasses.adds_record).trans
      (hpasses.adds_lift.trans hpasses.adds_enforce)

end

end IrcBot.BanSweep
