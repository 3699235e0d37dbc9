/-
# Last-seen times over a run (`auth.rs`, `commands.rs`, `hub_client.rs`)

Three writers share the last-seen and last-used times: an authentication here, a reply of the hub to
a query, and the hub's config data. The hub's two only ever put a time forward.

* `stamp_markUsed` — an authentication writes the clock, whatever was there.
* `stamps_forward` — times go forward in a run exactly if no authentication finds one ahead of the
  clock.
-/
import IrcBot.ActivityQueries
import IrcBot.NoUpdate

namespace IrcBot.LastSeen

open Cstr Chancfg Activity ActivityQueries HubSync NoUpdate Lib.Slots

/-! ### Times -/

inductive Key where
  | user (uuid : Str)
  /-- A uuid, and a mask in lower case. -/
  | mask (key : Str × Str)

/-- The time of a record: that of the first one with the key. -/
def stamp (b : BotState) : Key → Option Int
  | .user uuid => userClock.timeOf b.userRecords uuid
  | .mask key => maskClock.timeOf b.maskRecords key

/-- An authentication marks the record that has the key. -/
def Marks (b : BotState) (user maskIdx : Option Nat) : Key → Prop
  | .user uuid => user.isSome ∧ b.userRecords.findIdx? (·.uuid == uuid) = user
  | .mask key => maskIdx.isSome ∧ b.maskRecords.findIdx? (maskKey · == key) = maskIdx

/-- All records are there that were, and no time has gone back. -/
def Ahead (b b' : BotState) : Prop :=
  ∀ k t, stamp b k = some t → ∃ t', stamp b' k = some t' ∧ t ≤ t'

theorem Ahead.refl (b : BotState) : Ahead b b := fun _ t h => ⟨t, h, le_rfl⟩

theorem Ahead.trans {b b' b'' : BotState} (h : Ahead b b') (h' : Ahead b' b'') : Ahead b b'' := by
  intro k t ht
  obtain ⟨t', ht', hle⟩ := h k t ht
  obtain ⟨t'', ht'', hle'⟩ := h' k t' ht'
  exact ⟨t'', ht'', hle.trans hle'⟩

theorem stamp_of_times {b b' : BotState} (h : times b' = times b) (k : Key) :
    stamp b' k = stamp b k := by
  cases k with
  | user uuid => exact userClock.timeOf_congr (congrArg Prod.fst h) uuid
  | mask key =>
      apply maskClock.timeOf_congr
      have hmasks := congrArg (List.map fun x : Str × Str × Int => ((x.1, x.2.1.map lower), x.2.2))
        (congrArg Prod.snd h)
      simpa [times, Function.comp_def, maskKey, maskClock] using hmasks

/-! ### Authentications -/

/-- **An authentication writes the clock into the records it marks**, and no other time. -/
theorem stamp_markUsed (b : BotState) (user maskIdx : Option Nat) (now : Int) (k : Key) :
    (Marks b user maskIdx k → stamp (markUsed b user maskIdx now) k = some now) ∧
      (¬ Marks b user maskIdx k → stamp (markUsed b user maskIdx now) k = stamp b k) := by
  unfold markUsed
  dsimp only
  rw [stamp_of_times (times_sendActivity _)]
  cases k with
  | user uuid =>
      cases user with
      | none => exact ⟨fun h => absurd h.1 Bool.false_ne_true, fun _ => rfl⟩
      | some ui =>
          dsimp only [stamp, Marks]
          rw [userClock.timeOf_modify]
          · constructor
            · rintro ⟨-, hi⟩
              obtain ⟨hlt, -⟩ := List.findIdx?_eq_some_iff_getElem.mp hi
              rw [if_pos hi, List.getElem?_eq_getElem hlt]
              rfl
            · intro hnot
              exact if_neg fun hi => hnot ⟨rfl, hi⟩
          · intro u
            rfl
  | mask key =>
      cases maskIdx with
      | none => exact ⟨fun h => absurd h.1 Bool.false_ne_true, fun _ => rfl⟩
      | some mi =>
          dsimp only [stamp, Marks]
          rw [maskClock.timeOf_modify]
          · constructor
            · rintro ⟨-, hi⟩
              obtain ⟨hlt, -⟩ := List.findIdx?_eq_some_iff_getElem.mp hi
              rw [if_pos hi, List.getElem?_eq_getElem hlt]
              rfl
            · intro hnot
              exact if_neg fun hi => hnot ⟨rfl, hi⟩
          · intro m
            rfl

/-! ### The hub -/

theorem le_activityMerge (slot : Int) (ts : Str) (t : Int) : slot ≤ activityMerge slot ts t := by
  unfold activityMerge
  split
  · exact le_rfl
  · split
    · rename_i h
      exact h.2.2.le
    · exact le_rfl

theorem ahead_activityLine (t : Int) (b : BotState) (text : Str) :
    Ahead b (activityLine t b text) := by
  unfold activityLine
  split
  · exact .refl b
  · split
    · exact .refl b
    · split
      · exact .refl b
      · dsimp only
        split
        · intro k x hx
          cases k with
          | mask key => exact ⟨x, hx, le_rfl⟩
          | user uuid =>
              refine userClock.timeOf_map_le ?_ ?_ hx
              · intro u
                split <;> rfl
              · intro u
                split
                · exact le_activityMerge _ _ _
                · exact le_rfl
        · split
          · intro k x hx
            cases k with
            | user uuid => exact ⟨x, hx, le_rfl⟩
            | mask key =>
                refine maskClock.timeOf_map_le ?_ ?_ hx
                · intro m
                  split <;> rfl
                · intro m
                  split
                  · exact le_activityMerge _ _ _
                  · exact le_rfl
          · exact .refl b

theorem ahead_lines (t : Int) (lines : List Str) :
    ∀ b, Ahead b (lines.foldl (activityLine t) b) := by
  induction lines with
  | nil =>
      intro b
      exact .refl b
  | cons text lines ih =>
      intro b
      exact (ahead_activityLine t b text).trans (ih _)

section Run

variable (P : Primitives) (gmTime : Int → Str)

/-- **A reply of the hub puts no time back.** -/
theorem ahead_activityReply (c : Asking) (payload : Str) :
    Ahead c.bot (activityReply P gmTime c payload).bot := by
  refine reply_keeps P gmTime (I := fun c' => Ahead c.bot c'.bot) ?_ ?_ (.refl c.bot) payload
  · intro c' lines h
    exact h.trans (ahead_lines c'.bot.now lines c'.bot)
  · intro c' qi q hq h
    rw [(finish_spec P gmTime c' q hq).2.1]
    exact h

/-- **Config data puts no time of a record back that it leaves there.** -/
theorem le_stamp_processConfigData {b : BotState} {payload : Str} {k : Key} {t t' : Int}
    (h : stamp b k = some t) (h' : stamp (processConfigData P b payload).2 k = some t') : t ≤ t' := by
  unfold processConfigData at h'
  dsimp only at h'
  generalize (if (splitOn (byte '\n') payload).any (isRecordOf [byte 'T']) then _ else _ : Syncing) = s at h'
  have htables := tables_keepActivity b.userRecords b.maskRecords s.b
  cases k with
  | user uuid =>
      have husers : (keepActivity b.userRecords b.maskRecords s.b).userRecords =
        s.b.userRecords.map (userClock.keep b.userRecords) := congrArg Tables.users htables
      rw [stamp, husers] at h'
      exact userClock.timeOf_keep h h'
  | mask key =>
      have hmasks : (keepActivity b.userRecords b.maskRecords s.b).maskRecords =
        s.b.maskRecords.map (maskClock.keep b.maskRecords) := congrArg Tables.masks htables
      rw [stamp, hmasks] at h'
      exact maskClock.timeOf_keep h h'

/-! ### Runs -/

inductive Writer where
  | markUsed (user maskIdx : Option Nat)
  | reply (payload : Str)
  | config (payload : Str)
  /-- Whatever leaves the users and masks alone: commands are parked, links go up and down. -/
  | elsewhere (c : Asking)

/-- A writer, and the clock when it runs. -/
def step (c : Asking) (e : Int × Writer) : Asking :=
  let c := { c with bot := { c.bot with now := e.1 } }
  match e.2 with
  | .markUsed user maskIdx => { c with bot := markUsed c.bot user maskIdx c.bot.now }
  | .reply payload => activityReply P gmTime c payload
  | .config payload => { c with bot := (processConfigData P c.bot payload).2 }
  | .elsewhere c' =>
      { c' with bot := { c'.bot with
          userRecords := c.bot.userRecords, maskRecords := c.bot.maskRecords } }

/-- The state after `n` of the events. -/
def stateAt (c : Asking) (events : List (Int × Writer)) (n : Nat) : Asking :=
  (events.take n).foldl (step P gmTime) c

/-- No time goes back while the record is there. -/
def Forward (c : Asking) (events : List (Int × Writer)) : Prop :=
  ∀ i j k, i ≤ j → j ≤ events.length →
    (∀ n, i ≤ n → n ≤ j → (stamp (stateAt P gmTime c events n).bot k).isSome) →
    ∀ t t', stamp (stateAt P gmTime c events i).bot k = some t →
      stamp (stateAt P gmTime c events j).bot k = some t' → t ≤ t'

/-- No time that an authentication overwrites is ahead of the clock. -/
def NotAhead (c : Asking) (e : Int × Writer) : Prop :=
  ∀ user maskIdx, e.2 = .markUsed user maskIdx → ∀ k, Marks c.bot user maskIdx k →
    ∀ t, stamp c.bot k = some t → t ≤ e.1

/-- **One writer puts a time back exactly if it is an authentication that finds it ahead of the
clock.** -/
theorem step_forward_iff (c : Asking) (e : Int × Writer) :
    (∀ k t t', stamp c.bot k = some t → stamp (step P gmTime c e).bot k = some t' → t ≤ t') ↔
      NotAhead c e := by
  obtain ⟨now, w⟩ := e
  constructor
  · rintro h user maskIdx rfl k hmarks t ht
    exact h k t now ht ((stamp_markUsed { c.bot with now } user maskIdx now k).1 hmarks)
  · intro h k t t' ht ht'
    cases w with
    | markUsed user maskIdx =>
        obtain ⟨hmarked, hother⟩ := stamp_markUsed { c.bot with now } user maskIdx now k
        by_cases hmarks : Marks { c.bot with now } user maskIdx k
        · obtain rfl := Option.some_inj.mp ((hmarked hmarks).symm.trans ht')
          exact h user maskIdx rfl k hmarks t ht
        · have hsame := (hother hmarks).symm.trans ht'
          exact (Option.some_inj.mp (ht.symm.trans hsame)).le
    | reply payload =>
        obtain ⟨t'', ht'', hle⟩ :=
          ahead_activityReply P gmTime { c with bot := { c.bot with now } } payload k t ht
        exact (Option.some_inj.mp (ht''.symm.trans ht')) ▸ hle
    | config payload => exact le_stamp_processConfigData P (b := { c.bot with now }) ht ht'
    | elsewhere c' => exact (Option.some_inj.mp (ht.symm.trans ht')).le

theorem stateAt_succ (c : Asking) {events : List (Int × Writer)} {n : Nat} {e : Int × Writer}
    (h : events[n]? = some e) :
    stateAt P gmTime c events (n + 1) = step P gmTime (stateAt P gmTime c events n) e := by
  rw [stateAt, List.take_add_one, h, List.foldl_append]
  rfl

/-- **Last-seen times go forward in a run exactly if no authentication finds one ahead of the
clock.** -/
theorem stamps_forward (c : Asking) (events : List (Int × Writer)) :
    Forward P gmTime c events ↔
      ∀ n e, events[n]? = some e → NotAhead (stateAt P gmTime c events n) e := by
  constructor
  · intro h n e he
    rw [← step_forward_iff P gmTime, ← stateAt_succ P gmTime c he]
    intro k t t' ht ht'
    refine h n (n + 1) k n.le_succ (List.getElem?_eq_some_iff.mp he).1 ?_ t t' ht ht'
    intro m hm hm'
    obtain rfl | rfl : m = n ∨ m = n + 1 := by omega
    · rw [ht]
      rfl
    · rw [ht']
      rfl
  · intro h i j k hij
    induction j, hij using Nat.le_induction with
    | base =>
        intro _ _ t t' ht ht'
        exact (Option.some_inj.mp (ht.symm.trans ht')).le
    | succ j hij ih =>
        intro hlen hthere t t' ht ht'
        obtain ⟨mid, hmid⟩ := Option.isSome_iff_exists.mp (hthere j hij j.le_succ)
        have hbefore : t ≤ mid := by
          refine ih (by omega) ?_ t mid ht hmid
          intro n hn hn'
          exact hthere n hn (by omega)
        have he := List.getElem?_eq_getElem (Nat.lt_of_succ_le hlen)
        rw [stateAt_succ P gmTime c he] at ht'
        exact hbefore.trans ((step_forward_iff P gmTime _ _).mpr (h j _ he) k mid t' hmid ht')

end Run

/-! ### A hub with a fast clock -/

def aliceUuid : Str := str "00000000-0000-4000-8000-000000000001"

/-- Alice's record, and a query that waits for the hub. -/
def waiting : Asking :=
  { bot := { userRecords := [{ uuid := aliceUuid, typ := byte 'a' }] }
    queries := [⟨str "7", .admins, [], str "bob", none, {}, 1003⟩] }

/-- The hub has seen Alice 200 s from now; a second later she logs in here. -/
def fastHub : List (Int × Writer) :=
  [(1000, .reply (str "7|1\na|" ++ aliceUuid ++ str "|1200")), (1001, .markUsed (some 0) none)]

theorem fastHub_back : ¬ ∀ (P : Primitives) (gmTime : Int → Str) (c : Asking) (events : List (Int × Writer)),
    (events.map (·.1)).Pairwise (· ≤ ·) → Forward P gmTime c events := by
  intro h
  have hback := h .clear (fun _ => []) waiting fastHub (by decide) 1 2 (.user aliceUuid) (by decide) (by decide)
    (by
      intro n hn hn'
      obtain rfl | rfl : n = 1 ∨ n = 2 := by omega
      all_goals decide)
    1200 1001 (by decide) (by decide)
  exact absurd hback (by decide)

end IrcBot.LastSeen
