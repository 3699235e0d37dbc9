/-
# What the acts leave as it is (`chanenf.rs`)

A kick, a ban and an unban queue a line, report it to the hub and remember it. The
channels, their ban lists, their members and who of them is authorised stay as they are:
only the cached verdicts are filled.

* `picture_memberVerdict` — filling a cached verdict changes no verdict.
* `picture_jobSubmit` — nor does the work of a ban sweep change anything that a further
  step of it reads, but for its own memory of what it has done.
-/
import IrcBot.Jobs

namespace IrcBot.Members

open Cstr Masks Auth Chancfg Chanenf Enforce Jobs

/-- The name of the channel in a place. -/
def chanName (b : BotState) (ci : Nat) : Str := (b.chans.getD ci {}).name

/-! ### The picture -/

/-- A member less its cache, with the verdict on it. -/
def memberView (b : BotState) (e : RosterEntry) : RosterEntry × Bool :=
  ({ e with authorised := false, authGen := 0 }, entryVerdict b e)

/-- A channel less its members. -/
def emptied (c : Chan) : Chan := { c with roster := [] }

/-- A channel and its members, less the caches. -/
def chanView (b : BotState) (c : Chan) : Chan × List (RosterEntry × Bool) :=
  (emptied c, c.roster.map (memberView b))

/-- The state less the caches, the memory of what was done lately, and what has been sent
and queued. -/
def picture (b : BotState) : BotState × List (Chan × List (RosterEntry × Bool)) :=
  ({ b with
      auth := {}, chans := [], enfRecent := [], enfRecentIdx := 0, jobs := [], banTrack := []
      ircOut := [], link := {}, hubOut := [], chanEvent := {} },
    b.chans.map (chanView b))

/-! ### What leaves it as it is -/

/-- The memory, the logs and the hub link are not in it. -/
theorem picture_aside (b : BotState) (ring : List EnfRecent) (idx : Nat) (jobs : List PendingJob)
    (tracks : List BanTrack) (out : List Str) (link : HubLink) (log : List (UInt8 × Str))
    (lim : ChanEventLim) :
    picture { b with
      enfRecent := ring, enfRecentIdx := idx, jobs, banTrack := tracks, ircOut := out, link
      hubOut := log, chanEvent := lim } = picture b := by
  have hverdict (e : RosterEntry) : entryVerdict { b with
      enfRecent := ring, enfRecentIdx := idx, jobs, banTrack := tracks, ircOut := out, link
      hubOut := log, chanEvent := lim } e = entryVerdict b e := by
    rw [entryVerdict_eq, entryVerdict_eq]
    rfl
  unfold picture
  dsimp only
  congr 2
  funext c
  unfold chanView memberView
  simp only [hverdict]

@[simp] theorem picture_ircPrintf (b : BotState) (line : Str) :
    picture (ircPrintf b line) = picture b := by
  obtain ⟨out, heq, -⟩ := ircPrintf_eq b line
  rw [heq]
  exact picture_aside b _ _ _ _ _ _ _ _

@[simp] theorem picture_chanEvent (b : BotState) (chan action target detail : Str) :
    picture (chanEvent b chan action target detail).2 = picture b := by
  obtain ⟨link, out, lim, heq⟩ := chanEvent_eq b chan action target detail
  rw [heq]
  exact picture_aside b _ _ _ _ _ _ _ _

@[simp] theorem picture_recentKey (b : BotState) (name act target : Str) (windowMs : Int) :
    picture (recentKey b name act target windowMs).2 = picture b := by
  obtain ⟨ring, idx, heq⟩ := recentKey_eq b name act target windowMs
  rw [heq]
  exact picture_aside b _ _ _ _ _ _ _ _

@[simp] theorem picture_trackGet (b : BotState) (chan mask : Str) (t : Int) :
    picture (trackGet b chan mask t).2 = picture b := by
  unfold trackGet
  dsimp only
  split
  · rfl
  · exact picture_aside b _ _ _ _ _ _ _ _

@[simp] theorem picture_withTrack (b : BotState) (ti : Nat) (f : BanTrack → BanTrack) :
    picture (withTrack b ti f) = picture b := picture_aside b _ _ _ _ _ _ _ _

@[simp] theorem picture_checkOverlap (b : BotState) (ti : Nat) (mask : Str) :
    picture (checkOverlap b ti mask) = picture b := by
  unfold checkOverlap
  split
  · exact picture_withTrack b ti _
  · rfl

/-- **Filling a cached verdict changes no verdict.** -/
theorem picture_memberVerdict {b : BotState} {ci i : Nat} {c : Chan} {e : RosterEntry}
    (hc : b.chans[ci]? = some c) (he : c.roster[i]? = some e) :
    picture (memberVerdict b ci i e).2 = picture b := by
  have hview (f : RosterEntry) : memberView (memberVerdict b ci i e).2 f = memberView b f := by
    unfold memberView
    rw [entryVerdict_memberVerdict]
  have hfilled : memberView b (entryAuthorised b e).2.1 = memberView b e := by
    unfold memberView
    have hverdict := entryVerdict_filled b e
    rw [entryAuthorised_again] at hverdict
    rw [hverdict]
    exact congrArg (·, entryVerdict b e) (face_filled b e)
  have hchans : (memberVerdict b ci i e).2.chans.map (chanView (memberVerdict b ci i e).2) =
      b.chans.map (chanView b) := by
    have hmodify : (memberVerdict b ci i e).2.chans = b.chans.modify ci fun c =>
        { c with roster := c.roster.set i (entryAuthorised b e).2.1 } := by
      have hsame : (entryAuthorised b e).2.2.chans = b.chans := by
        unfold entryAuthorised
        split <;> rfl
      unfold memberVerdict withChan
      dsimp only
      rw [hsame]
    have hsame : chanView (memberVerdict b ci i e).2
        { c with roster := c.roster.set i (entryAuthorised b e).2.1 } = chanView b c := by
      refine Prod.ext rfl (List.ext_getElem? fun k => ?_)
      simp only [chanView, List.map_set, funext hview, hfilled]
      by_cases hk : i = k
      · subst hk
        have hlt : i < (c.roster.map (memberView b)).length := by
          rw [List.length_map]
          exact (List.getElem?_eq_some_iff.mp he).1
        rw [List.getElem?_set_self hlt, List.getElem?_map, he, Option.map_some]
      · rw [List.getElem?_set_ne hk]
    rw [hmodify]
    refine List.ext_getElem? fun j => ?_
    rw [List.getElem?_map, List.getElem?_map, List.getElem?_modify]
    by_cases hj : ci = j
    · subst hj
      simp [hc, hsame]
    · cases b.chans[j]? with
      | none => simp
      | some d => simp [hj, chanView, funext hview]
  have hrest : (picture (memberVerdict b ci i e).2).1 = (picture b).1 := by
    obtain ⟨-, cells, chans, heq⟩ := memberVerdict_eq b ci i e
    rw [heq]
    rfl
  exact Prod.ext hrest hchans

/-- A walk over the members goes on with the rest of them. -/
theorem memberVerdict_next {b : BotState} {ci i : Nat} {c : Chan} {e : RosterEntry}
    {es : List RosterEntry} (hc : b.chans[ci]? = some c) (hdrop : c.roster.drop i = e :: es) :
    picture (memberVerdict b ci i e).2 = picture b ∧
      ∃ c', (memberVerdict b ci i e).2.chans[ci]? = some c' ∧ c'.roster.drop (i + 1) = es := by
  have he : c.roster[i]? = some e := by
    rw [← Nat.add_zero i, ← List.getElem?_drop, hdrop]
    rfl
  exact ⟨picture_memberVerdict hc he, memberVerdict_rest hc hdrop⟩

/-- A walk over the members fills caches, nothing else. -/
theorem allowedLoop_eq (ci : Nat) (mask : Str) (es : List RosterEntry) :
    ∀ (b : BotState) (i : Nat), ∃ cells chans,
      (allowedLoop ci mask b i es).2 = { b with auth := cells, chans := chans } := by
  induction es with
  | nil => exact fun b i => ⟨b.auth, b.chans, rfl⟩
  | cons e es ih =>
      intro b i
      obtain ⟨-, cells, chans, hseen⟩ := memberVerdict_eq b ci i e
      unfold allowedLoop
      dsimp only
      split
      · exact ⟨cells, chans, hseen⟩
      · obtain ⟨cells', chans', hrest⟩ := ih (memberVerdict b ci i e).2 (i + 1)
        exact ⟨cells', chans', by rw [hrest, hseen]⟩

theorem allowedMembersFill_eq (b : BotState) (ci : Nat) (mask : Str) :
    ∃ cells chans, (allowedMembersFill b ci mask).2 = { b with auth := cells, chans := chans } := by
  unfold allowedMembersFill
  split
  · exact ⟨b.auth, b.chans, rfl⟩
  · exact allowedLoop_eq ci mask _ b 0

theorem picture_allowedLoop {ci : Nat} {mask : Str} (es : List RosterEntry) :
    ∀ {b : BotState} {i : Nat} {c : Chan}, b.chans[ci]? = some c → c.roster.drop i = es →
      picture (allowedLoop ci mask b i es).2 = picture b := by
  induction es with
  | nil => exact fun _ _ => rfl
  | cons e es ih =>
      intro b i c hc hdrop
      obtain ⟨hseen, c', hc', hdrop'⟩ := memberVerdict_next hc hdrop
      unfold allowedLoop
      dsimp only
      split
      · exact hseen
      · exact (ih hc' hdrop').trans hseen

@[simp] theorem picture_allowedMembersFill (b : BotState) (ci : Nat) (mask : Str) :
    picture (allowedMembersFill b ci mask).2 = picture b := by
  unfold allowedMembersFill
  split
  · rfl
  · rename_i c hc
    exact picture_allowedLoop c.roster hc List.drop_zero

/-! ### The acts -/

@[simp] theorem picture_actKick (b : BotState) (ci : Nat) (nick reason : Str) :
    picture (actKick b ci nick reason) = picture b := by
  unfold actKick
  split
  · rfl
  · rename_i c hc
    split
    · rfl
    · split
      · rfl
      · rename_i i e hmember
        have hverdict := picture_memberVerdict hc (getElem?_of_member hmember)
        dsimp only
        split_ifs <;> simp [hverdict]

@[simp] theorem picture_actBan (b : BotState) (ci : Nat) (mask why : Str) :
    picture (actBan b ci mask why) = picture b := by
  unfold actBan
  split
  · rfl
  · split
    · rfl
    · split
      · rfl
      · dsimp only
        split_ifs <;> simp

@[simp] theorem picture_actUnban (b : BotState) (ci : Nat) (mask why : Str) :
    picture (actUnban b ci mask why) = picture b := by
  unfold actUnban
  split
  · rfl
  · split
    · rfl
    · dsimp only
      split_ifs <;> simp

/-- Work is done now, or at most queued. -/
theorem jobSubmit_eq (sha256 : Str → Str) (b : BotState) (ci : Nat) (act : JobAct)
    (target reason : Str) :
    (jobSubmit sha256 b ci act target reason).2 = jobExec b ci act target reason ∨
      ∃ jobs, (jobSubmit sha256 b ci act target reason).2 = { b with jobs } := by
  unfold jobSubmit
  dsimp only
  split
  · exact .inr ⟨b.jobs, rfl⟩
  · split
    · exact .inl rfl
    · split
      · exact .inr ⟨b.jobs, rfl⟩
      · split
        · exact .inr ⟨b.jobs, rfl⟩
        · exact .inr ⟨_, rfl⟩

/-- **The work of a ban sweep** leaves the picture as it is. -/
theorem picture_jobSubmit (sha256 : Str → Str) (b : BotState) (ci : Nat) {act : JobAct}
    (hact : act = .kick ∨ act = .banMask ∨ act = .unban) (target reason : Str) :
    picture (jobSubmit sha256 b ci act target reason).2 = picture b := by
  obtain hdone | ⟨jobs, hqueued⟩ := jobSubmit_eq sha256 b ci act target reason
  · rw [hdone]
    rcases hact with rfl | rfl | rfl
    · exact picture_actKick b ci target reason
    · exact picture_actBan b ci target reason
    · exact picture_actUnban b ci target reason
  · rw [hqueued]
    exact picture_aside b _ _ jobs _ _ _ _ _

end IrcBot.Members
