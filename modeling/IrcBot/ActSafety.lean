/-
# The acts are safe (`chanenf.rs`)

Whatever asks for it (a sweep, a MODE, a flood, queued work), an act looks for itself
whether the bot is opped and whom it would hit, and a kick or a deop is not done twice
before the server has answered.

* `perform_safe` — what each act makes sure of before it queues its line.
* `not_again` — an act that is noted is held back inside its window.
* `acts_safe` — together, once the clock has left its origin.
* `acts_safe_iff` — no other reading has to be left out.
-/
import IrcBot.BanSweep
import IrcBot.RecentActs

namespace IrcBot.ActSafety

open Cstr Masks Auth Chancfg Chanenf Enforce Jobs Members ModeEvents RecentActs

/-! ### The acts -/

/-- One call of `act_deop`, `act_kick`, `act_ban`, `act_unban` or `act_reop`. -/
inductive Call where
  | deop (nick why : Str) (half : Bool)
  | kick (nick reason : Str)
  | ban (mask why : Str)
  | unban (mask why : Str)
  | reop (nick why : Str)

def perform (b : BotState) (ci : Nat) : Call → BotState
  | .deop nick why half => actDeop b ci nick why half
  | .kick nick reason => actKick b ci nick reason
  | .ban mask why => actBan b ci mask why
  | .unban mask why => actUnban b ci mask why
  | .reop nick why => actReop b ci nick why

/-- A line as it is queued. -/
def wire (line : Str) : Str := line.take (min (line.length - 2) sendqLineMax) ++ [13, 10]

/-- What has to hold for a call to queue its line. -/
inductive Due (b : BotState) (c : Chan) : Call → Str → Prop where
  | deop {nick why : Str} {half : Bool} {i : Nat} {e : RosterEntry} :
      member c nick = some (i, e) → isMe b e.nick = false → entryVerdict b e = false →
        Due b c (.deop nick why half)
          (str "MODE " ++ c.name ++ (if half then str " -h " else str " -o ") ++ e.nick ++ crlf)
  | kick {nick reason why : Str} {i : Nat} {e : RosterEntry} :
      member c nick = some (i, e) → isMe b e.nick = false → entryVerdict b e = false →
        Due b c (.kick nick reason)
          (str "KICK " ++ c.name ++ str " " ++ e.nick ++ str " :" ++ why ++ crlf)
  | ban {mask why : Str} :
      (∀ e ∈ c.roster, entryVerdict b e = true → wildcardMatch mask e.hostmask = false) →
        Due b c (.ban mask why) (str "MODE " ++ c.name ++ str " +b " ++ mask ++ crlf)
  | unban {mask why : Str} :
      Due b c (.unban mask why) (str "MODE " ++ c.name ++ str " -b " ++ mask ++ crlf)
  | reop {nick why : Str} {i : Nat} {e : RosterEntry} :
      member c nick = some (i, e) → entryVerdict b e = true →
        Due b c (.reop nick why) (str "MODE " ++ c.name ++ str " +o " ++ e.nick ++ crlf)

/-- A call queues lines only while the bot is opped in the channel, and only what is due. -/
def LinesDue (b : BotState) (ci : Nat) (call : Call) : Prop :=
  ∃ lines, (perform b ci call).ircOut = b.ircOut ++ lines ∧
    ∀ l ∈ lines, ∃ c line, b.chans[ci]? = some c ∧ c.iAmOpped = true ∧ Due b c call line ∧
      l = wire line

/-- The act and the target of a kick or a deop. -/
def Call.onMember : Call → Option (Str × Str)
  | .deop nick _ half => some (if half then str "dehalf" else str "deop", nick)
  | .kick nick _ => some (str "kick", nick)
  | _ => none

/-- A kick or a deop that has been queued is not queued again inside its window, before it is
answered or its note is overwritten. -/
def NotAgain (b : BotState) (ci : Nat) (call : Call) : Prop :=
  ∀ act nick, call.onMember = some (act, nick) → (perform b ci call).ircOut ≠ b.ircOut →
    ∀ b', Since b.enfRecentIdx (pendingKey (chanName b ci) act nick) (perform b ci call) b' →
      b'.monoMs - b.monoMs < recentActMs →
        ∀ ci' call' nick', call'.onMember = some (act, nick') →
          eqIc (chanName b' ci') (chanName b ci) = true → eqIc nick' nick = true →
            (perform b' ci' call').ircOut = b'.ircOut

/-! ### What an act does -/

/-- What an act does: it queues nothing, or the line of which `P` holds; and it does so only
as `N` allows. -/
inductive Outcome (P : Str → Prop) (N : BotState → Prop) (b b' : BotState) : Prop where
  | quiet : b'.ircOut = b.ircOut → Outcome P N b b'
  | queued (line : Str) : P line → N b' → b'.ircOut = b.ircOut ++ [wire line] → Outcome P N b b'

/-- The act `act` on `target` is noted now. -/
structure Noted (b : BotState) (name act target : Str) (b' : BotState) : Prop where
  new : (recentKey b name act target recentActMs).1 = false
  ring : b'.enfRecent = (recentKey b name act target recentActMs).2.enfRecent

theorem outcome_ircPrintf {P : Str → Prop} {N : BotState → Prop} {b s : BotState} {line : Str}
    (hs : s.ircOut = b.ircOut) (hP : P line) (chan action target detail : Str)
    (hN : ∀ out link log lim, N { s with
      ircOut := out, link := link, hubOut := log, chanEvent := lim }) :
    Outcome P N b (chanEvent (ircPrintf s line) chan action target detail).2 := by
  obtain ⟨link, log, lim, hevent⟩ := chanEvent_eq (ircPrintf s line) chan action target detail
  rw [hevent]
  unfold ircPrintf
  split
  · exact .queued line hP (hN _ link log lim) (by rw [hs]; rfl)
  · exact .quiet hs

/-- The verdict on a member, and what is noted next, come from the state before. -/
theorem recentKey_memberVerdict (b : BotState) (ci i : Nat) (e : RosterEntry)
    (name act target : Str) (windowMs : Int) :
    (recentKey (memberVerdict b ci i e).2 name act target windowMs).1 =
        (recentKey b name act target windowMs).1 ∧
      (recentKey (memberVerdict b ci i e).2 name act target windowMs).2.enfRecent =
        (recentKey b name act target windowMs).2.enfRecent ∧
      (recentKey (memberVerdict b ci i e).2 name act target windowMs).2.ircOut = b.ircOut := by
  obtain ⟨-, cells, chans, heq⟩ := memberVerdict_eq b ci i e
  rw [heq]
  unfold recentKey
  dsimp only
  split
  · exact ⟨rfl, rfl, rfl⟩
  · exact ⟨rfl, rfl, rfl⟩

theorem ircOut_memberVerdict (b : BotState) (ci i : Nat) (e : RosterEntry) :
    (memberVerdict b ci i e).2.ircOut = b.ircOut := by
  obtain ⟨-, cells, chans, heq⟩ := memberVerdict_eq b ci i e
  rw [heq]

/-- A member who is not authorised is not the bot. -/
theorem not_isMe_of_verdict {b : BotState} {e : RosterEntry} (h : entryVerdict b e = false) :
    isMe b e.nick = false := by
  rw [← Bool.not_eq_true]
  intro hme
  unfold entryVerdict entryAuthorised at h
  rw [if_pos hme] at h
  cases h

theorem outcome_actKick {b : BotState} {ci : Nat} {c : Chan} (hc : b.chans[ci]? = some c)
    (nick reason : Str) :
    Outcome (fun line => c.iAmOpped = true ∧ Due b c (.kick nick reason) line)
      (fun b' => ∃ i e, member c nick = some (i, e) ∧ Noted b c.name (str "kick") e.nick b')
      b (actKick b ci nick reason) := by
  unfold actKick
  rw [hc]
  dsimp only
  split
  · exact .quiet rfl
  · rename_i hopped
    rw [Bool.or_eq_true, not_or, Bool.not_eq_true', Bool.not_eq_false] at hopped
    split
    · exact .quiet rfl
    · rename_i i e hmember
      obtain ⟨hsame, hring, hout⟩ :=
        recentKey_memberVerdict b ci i e c.name (str "kick") e.nick recentActMs
      split
      · exact .quiet (ircOut_memberVerdict b ci i e)
      · rename_i hverdict
        rw [(memberVerdict_eq b ci i e).1, Bool.not_eq_true] at hverdict
        split
        · exact .quiet hout
        · rename_i hnew
          rw [Bool.not_eq_true, hsame] at hnew
          exact outcome_ircPrintf hout
            ⟨hopped.1, .kick hmember (not_isMe_of_verdict hverdict) hverdict⟩ _ _ _ _
            fun _ _ _ _ => ⟨i, e, hmember, hnew, hring⟩

theorem outcome_actDeop {b : BotState} {ci : Nat} {c : Chan} (hc : b.chans[ci]? = some c)
    (nick why : Str) (half : Bool) :
    Outcome (fun line => c.iAmOpped = true ∧ Due b c (.deop nick why half) line)
      (fun b' => ∃ i e, member c nick = some (i, e) ∧
        Noted b c.name (if half then str "dehalf" else str "deop") e.nick b')
      b (actDeop b ci nick why half) := by
  unfold actDeop
  rw [hc]
  dsimp only
  by_cases hopped : (!c.iAmOpped || !validNick b nick) = true
  · rw [if_pos hopped]
    exact .quiet rfl
  rw [if_neg hopped]
  rw [Bool.or_eq_true, not_or, Bool.not_eq_true', Bool.not_eq_false] at hopped
  cases hmember : member c nick with
  | none => exact .quiet rfl
  | some place =>
      obtain ⟨i, e⟩ := place
      dsimp only
      by_cases hop : (!(if half = true then e.isHalfop else e.isOp)) = true
      · rw [if_pos hop]
        exact .quiet rfl
      rw [if_neg hop]
      obtain ⟨hsame, hring, hout⟩ := recentKey_memberVerdict b ci i e c.name
        (if half then str "dehalf" else str "deop") e.nick recentActMs
      have hverdict := (memberVerdict_eq b ci i e).1
      have hseen := ircOut_memberVerdict b ci i e
      cases hs : memberVerdict b ci i e with
      | mk ok s =>
          rw [hs] at hverdict hseen hsame hring hout
          cases ok with
          | true => exact .quiet hseen
          | false =>
              dsimp only at hverdict hsame hring hout ⊢
              cases hs' : recentKey s c.name (if half then str "dehalf" else str "deop") e.nick
                  recentActMs with
              | mk again s' =>
                  rw [hs'] at hsame hring hout
                  cases again with
                  | true => exact .quiet hout
                  | false =>
                      exact outcome_ircPrintf hout
                        ⟨hopped.1, .deop hmember (not_isMe_of_verdict hverdict.symm) hverdict.symm⟩
                        _ _ _ _ fun _ _ _ _ => ⟨i, e, rfl, hsame.symm, hring⟩

theorem outcome_actReop {b : BotState} {ci : Nat} {c : Chan} (hc : b.chans[ci]? = some c)
    (nick why : Str) :
    Outcome (fun line => c.iAmOpped = true ∧ Due b c (.reop nick why) line) (fun _ => True)
      b (actReop b ci nick why) := by
  unfold actReop
  rw [hc]
  dsimp only
  split
  · exact .quiet rfl
  · rename_i hopped
    rw [Bool.or_eq_true, not_or, Bool.not_eq_true', Bool.not_eq_false] at hopped
    split
    · exact .quiet rfl
    · rename_i i e hmember
      obtain ⟨-, -, hout⟩ :=
        recentKey_memberVerdict b ci i e c.name (str "reop") e.nick recentActMs
      split
      · exact .quiet rfl
      · have hverdict := (memberVerdict_eq b ci i e).1
        have hseen := ircOut_memberVerdict b ci i e
        split
        · rename_i s hs
          rw [hs] at hseen
          exact .quiet hseen
        · rename_i s hs
          rw [hs] at hverdict hout
          split
          · rename_i s' hs'
            rw [hs'] at hout
            exact .quiet hout
          · rename_i s' hs'
            rw [hs'] at hout
            have hdue : c.iAmOpped = true ∧
                Due b c (.reop nick why) (Named.op c.name e.nick).line :=
              ⟨hopped.1, .reop hmember hverdict.symm⟩
            obtain ⟨link, log, lim, hevent⟩ := chanEvent_eq
              (ircPrintfNamed s' (.op c.name e.nick)) c.name (str "reop") e.nick why
            rw [hevent]
            unfold ircPrintfNamed ircPrintf
            split
            · exact .queued _ hdue trivial (by rw [← hout]; rfl)
            · exact .quiet hout

theorem outcome_actUnban {b : BotState} {ci : Nat} {c : Chan} (hc : b.chans[ci]? = some c)
    (mask why : Str) :
    Outcome (fun line => c.iAmOpped = true ∧ Due b c (.unban mask why) line) (fun _ => True)
      b (actUnban b ci mask why) := by
  unfold actUnban
  rw [hc]
  dsimp only
  split
  · exact .quiet rfl
  · rename_i hopped
    simp only [Bool.or_eq_true, not_or, Bool.not_eq_true', Bool.not_eq_false] at hopped
    have hout : (recentKey b c.name (str "unban") mask recentActMs).2.ircOut = b.ircOut := by
      obtain ⟨ring, idx, heq⟩ := recentKey_eq b c.name (str "unban") mask recentActMs
      rw [heq]
    split
    · exact .quiet hout
    · exact outcome_ircPrintf hout ⟨hopped.1.1, .unban⟩ _ _ _ _ fun _ _ _ _ => trivial

theorem outcome_actBan {b : BotState} {ci : Nat} {c : Chan} (hc : b.chans[ci]? = some c)
    (mask why : Str) :
    Outcome (fun line => c.iAmOpped = true ∧ Due b c (.ban mask why) line) (fun _ => True)
      b (actBan b ci mask why) := by
  have htrack : (trackGet b c.name mask b.now).2.ircOut = b.ircOut := by
    unfold trackGet
    dsimp only
    split <;> rfl
  have hfill : (allowedMembersFill (trackGet b c.name mask b.now).2 ci mask).2.ircOut =
      b.ircOut := by
    obtain ⟨cells, chans, heq⟩ :=
      allowedMembersFill_eq (trackGet b c.name mask b.now).2 ci mask
    rw [heq]
    exact htrack
  have hcheck (s : BotState) (ti : Nat) : (checkOverlap s ti mask).ircOut = s.ircOut := by
    unfold checkOverlap
    split <;> rfl
  have hspared (h : ¬ (allowedMembersFill (trackGet b c.name mask b.now).2 ci mask).1.isSome) :
      ∀ e ∈ c.roster, entryVerdict b e = true → wildcardMatch mask e.hostmask = false := by
    rw [allowedMembersFill_fst, ← BanSweep.hitsOf_snd,
      BanSweep.hitsOf_of_picture (picture_trackGet b c.name mask b.now)] at h
    unfold BanSweep.hitsOf at h
    rw [hc, List.any_eq_true] at h
    intro e he hverdict
    rw [← Bool.not_eq_true]
    intro hmatch
    exact h ⟨e, he, by rw [hverdict, hmatch]; rfl⟩
  unfold actBan
  rw [hc]
  dsimp only
  split
  · exact .quiet rfl
  rename_i hopped
  simp only [Bool.or_eq_true, not_or, Bool.not_eq_true', Bool.not_eq_false] at hopped
  split
  · exact .quiet rfl
  generalize trackGet b c.name mask b.now = track at htrack hfill hspared ⊢
  generalize allowedMembersFill track.2 ci mask = hit at hfill hspared ⊢
  have hchecked := (hcheck hit.2 track.1).trans hfill
  generalize checkOverlap hit.2 track.1 mask = checked at hchecked ⊢
  split
  · exact .quiet htrack
  · split
    · exact .quiet hfill
    · rename_i hhit
      split
      · exact .quiet hchecked
      · exact outcome_ircPrintf (s := withTrack checked track.1 _) hchecked
          ⟨hopped.1.1, .ban (hspared hhit)⟩ _ _ _ _ fun _ _ _ _ => trivial

/-! ### Every call -/

/-- What a call that is remembered has noted. -/
def NotedCall (b : BotState) (ci : Nat) (call : Call) (b' : BotState) : Prop :=
  ∀ act nick, call.onMember = some (act, nick) →
    ∃ target, eqIc target nick = true ∧ Noted b (chanName b ci) act target b'

theorem eqIc_of_member {c : Chan} {nick : Str} {i : Nat} {e : RosterEntry}
    (h : member c nick = some (i, e)) : eqIc e.nick nick = true := by
  unfold member rfind at h
  simp only [Option.bind_eq_some_iff, Option.map_eq_some_iff, Prod.mk.injEq] at h
  obtain ⟨j, hfound, f, hf, rfl, rfl⟩ := h
  obtain ⟨hlt, heq, -⟩ := List.findIdx?_eq_some_iff_getElem.mp hfound
  rw [List.getElem?_eq_getElem hlt, Option.some.injEq] at hf
  rw [← hf]
  exact heq

theorem Outcome.mono {P P' : Str → Prop} {N N' : BotState → Prop} {b b' : BotState}
    (h : Outcome P N b b') (hP : ∀ line, P line → P' line) (hN : N b' → N' b') :
    Outcome P' N' b b' := by
  cases h with
  | quiet hsame => exact .quiet hsame
  | queued line hline hnoted hout => exact .queued line (hP line hline) (hN hnoted) hout

/-- **What each act makes sure of**: it queues nothing, or one line that is due while the bot
is opped; and a kick or a deop is then noted. -/
theorem perform_safe (b : BotState) (ci : Nat) (call : Call) :
    Outcome (fun line => ∃ c, b.chans[ci]? = some c ∧ c.iAmOpped = true ∧ Due b c call line)
      (NotedCall b ci call) b (perform b ci call) := by
  cases hc : b.chans[ci]? with
  | none =>
      refine .quiet (congrArg (·.ircOut) (?_ : perform b ci call = b))
      cases call with
      | deop nick why half => unfold perform actDeop; rw [hc]
      | kick nick reason => unfold perform actKick; rw [hc]
      | ban mask why => unfold perform actBan; rw [hc]
      | unban mask why => unfold perform actUnban; rw [hc]
      | reop nick why => unfold perform actReop; rw [hc]
  | some c =>
      have hname : chanName b ci = c.name := by
        rw [chanName, List.getD_eq_getElem?_getD, hc]
        rfl
      have hline {call : Call} (line : Str) (h : c.iAmOpped = true ∧ Due b c call line) :
          ∃ d, some c = some d ∧ d.iAmOpped = true ∧ Due b d call line := ⟨c, rfl, h⟩
      have hnoted {call : Call} {act nick : Str} (hcall : call.onMember = some (act, nick))
          {b' : BotState} (h : ∃ i e, member c nick = some (i, e) ∧ Noted b c.name act e.nick b') :
          NotedCall b ci call b' := by
        obtain ⟨i, e, hmember, h⟩ := h
        intro act' nick' hcall'
        rw [hcall, Option.some.injEq, Prod.mk.injEq] at hcall'
        obtain ⟨rfl, rfl⟩ := hcall'
        exact ⟨e.nick, eqIc_of_member hmember, hname ▸ h⟩
      have hnever {call : Call} (hcall : call.onMember = none) {b' : BotState} :
          NotedCall b ci call b' := by
        intro act nick h
        rw [hcall] at h
        cases h
      cases call with
      | deop nick why half => exact (outcome_actDeop hc nick why half).mono hline (hnoted rfl)
      | kick nick reason => exact (outcome_actKick hc nick reason).mono hline (hnoted rfl)
      | ban mask why => exact (outcome_actBan hc mask why).mono hline fun _ => hnever rfl
      | unban mask why => exact (outcome_actUnban hc mask why).mono hline fun _ => hnever rfl
      | reop nick why => exact (outcome_actReop hc nick why).mono hline fun _ => hnever rfl

theorem linesDue (b : BotState) (ci : Nat) (call : Call) : LinesDue b ci call := by
  cases perform_safe b ci call with
  | quiet hsame => exact ⟨[], by rw [hsame, List.append_nil], fun l hl => absurd hl List.not_mem_nil⟩
  | queued line hline _ hout =>
      obtain ⟨c, hc, hopped, hdue⟩ := hline
      refine ⟨[wire line], hout, fun l hl => ?_⟩
      rw [List.mem_singleton] at hl
      exact ⟨c, line, hc, hopped, hdue, hl⟩

/-- A queued act has been noted. -/
theorem noted_of_queued {b : BotState} {ci : Nat} {call : Call}
    (h : (perform b ci call).ircOut ≠ b.ircOut) : NotedCall b ci call (perform b ci call) := by
  cases perform_safe b ci call with
  | quiet hsame => exact absurd hsame h
  | queued _ _ hnoted _ => exact hnoted

/-- **A noted act is held back** inside its window. -/
theorem not_again {b : BotState} (hring : RingOk b) (hclock : b.monoMs ≠ 0) (ci : Nat)
    (call : Call) : NotAgain b ci call := by
  intro act nick hcall hqueued b' hsince hwindow ci' call' nick' hcall' hname hnick
  obtain ⟨target, htarget, hnew, hafter⟩ := noted_of_queued hqueued act nick hcall
  have hkey := pendingKey_congr (eqIc_refl (chanName b ci)) htarget act
  have hheld : Held b.enfRecentIdx (pendingKey (chanName b ci) act nick) b.monoMs
      (perform b ci call) := by
    have h := held_of_noted hring hnew
    rwa [Held, ← hafter, hkey] at h
  have hstays := hsince.held hheld
  by_contra hagain
  obtain ⟨target', htarget', hnew', -⟩ := noted_of_queued hagain act nick' hcall'
  have hkey' : pendingKey (chanName b ci) act nick = pendingKey (chanName b' ci') act target' := by
    refine (pendingKey_congr hname ?_ act).symm
    rw [eqIc_iff, eqIc_iff.mp htarget', eqIc_iff.mp hnick]
  rw [hkey'] at hstays
  rw [recentKey_of_held hstays hclock hwindow] at hnew'
  cases hnew'

/-- **The acts are safe.** Each call queues only a line that is due, while the bot is opped; and
a kick or deop that it queues is not queued again inside its window, before it is answered or its
note is overwritten. The clock has left its origin: see `acts_safe_iff`. -/
theorem acts_safe {b : BotState} (hring : RingOk b) (hclock : b.monoMs ≠ 0) (ci : Nat)
    (call : Call) : LinesDue b ci call ∧ NotAgain b ci call :=
  ⟨linesDue b ci call, not_again hring hclock ci call⟩

/-- A channel in which the bot is opped, with somebody who is not authorised, at a reading of the
clock. -/
def stranger (t : Int) : BotState where
  connected := true
  monoMs := t
  chans := [{
    name := str "#c", status := .inside, iAmOpped := true
    roster := [{ nick := str "mallory", hostmask := str "mallory!u@evil.host" }] }]

theorem acts_safe_stranger : LinesDue (stranger 250) 0 (.kick (str "mallory") []) ∧
    NotAgain (stranger 250) 0 (.kick (str "mallory") []) :=
  acts_safe ⟨rfl, by decide⟩ (by decide) 0 (.kick (str "mallory") [])

/-! ### At reading 0 -/

/-- A kick that is noted at reading 0 is queued once more at once. -/
theorem again_at_zero : ¬ NotAgain (stranger 0) 0 (.kick (str "mallory") []) := by
  intro h
  have hsame := h (str "kick") (str "mallory") rfl (by decide) _ .start (by decide) 0
    (.kick (str "mallory") []) (str "mallory") rfl (by decide) (by decide)
  revert hsame
  decide

/-- Of all readings only 0, where the clock starts before the bot has a connection, would not
do: a note taken then counts as a free slot. -/
theorem acts_safe_iff (t : Int) :
    (∀ (b : BotState) (ci : Nat) (call : Call), RingOk b → b.monoMs = t →
      LinesDue b ci call ∧ NotAgain b ci call) ↔ t ≠ 0 := by
  constructor
  · rintro h rfl
    exact again_at_zero (h (stranger 0) 0 _ ⟨rfl, by decide⟩ rfl).2
  · rintro ht b ci call hring rfl
    exact ⟨linesDue b ci call, not_again hring ht ci call⟩

end IrcBot.ActSafety
