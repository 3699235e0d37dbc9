/-
# The limits of channel events (`hub_client.rs`)

`chan_event` reports an act of the bot to the hub. Three things hold it back: the same act a
moment ago, too many frames in a minute, and what it holds back is counted and told in a summary
when there is room again.

* `Inv` — the ring of times holds the last frames, and the table of acts those that are not
  10 s old yet. It never has to drop one of these: a minute has fewer frames than it has places.
* `limits_hold` — over every run, at most 20 frames in a minute, the same act at most every
  10 s, and every event that was held back is counted once.
-/
import IrcBot.Enforce
import IrcBot.Lib.SlidingWindow
import Mathlib.Data.List.Perm.Subperm

namespace IrcBot.EventLimits

open Cstr Chancfg Enforce Lib.SlidingWindow

/-! ### What a call sends and holds back -/

/-- The cleaned target of an event. -/
def cleaned (target : Str) : Str := eventClean (chanEventTargetMax + 1) target

/-- The key of an act. -/
def eventKey (chan action target : Str) : Str :=
  (chan ++ str "|" ++ action ++ str "|" ++ cleaned target).map lower

/-- The place of an act in the table. -/
def slotOf (lim : ChanEventLim) (k : Str) : Option Nat :=
  lim.seen.findIdx? fun e => e.when != 0 && e.key == k

/-- The event gets as far as the limiter. -/
def Reaches (b : BotState) (chan action target : Str) : Prop :=
  (chan.head? = some (byte '#') ∨ chan.head? = some (byte '&')) ∧
    chanEventActions.contains action = true ∧ chan.length < maxChan ∧ linkReady b = true ∧
    cleaned target ≠ [] ∧ (eventKey chan action target).length < maxChan + 16 + chanEventTargetMax + 4

instance (b : BotState) (chan action target : Str) : Decidable (Reaches b chan action target) :=
  inferInstanceAs (Decidable (_ ∧ _))

/-- The limiter holds the event back. -/
def Held (b : BotState) (chan action target : Str) : Prop :=
  Reaches b chan action target ∧
    chanEventLimited b.chanEvent (slotOf b.chanEvent (eventKey chan action target)) b.now = true

instance (b : BotState) (chan action target : Str) : Decidable (Held b chan action target) :=
  inferInstanceAs (Decidable (_ ∧ _))

/-- The last field of a frame. -/
def lastField (payload : Str) : Str := (payload.reverse.takeWhile (· ≠ byte '|')).reverse

/-- The number a summary tells. -/
def summaryCount (payload : Str) : Nat := (atoll (lastField payload)).toNat

/-- What is noted of a run. -/
inductive Entry where
  | event (now : Int) (chan action target : Str)
  | summary (now : Int) (count : Nat)
  | held (now : Int)
deriving DecidableEq, Repr

/-- What a call adds to the notes, the newest first: the first frame it sends is the event, a
second one a summary. -/
def entries (b : BotState) (chan action target detail : Str) : List Entry :=
  let frames := (chanEvent b chan action target detail).2.hubOut.drop b.hubOut.length
  (frames.tail.map fun f => .summary b.now (summaryCount f.2)) ++
    ((frames.take 1).map fun _ => .event b.now chan action (cleaned target)) ++
    if Held b chan action target then [.held b.now] else []

/-! ### The calls -/

/-- A frame goes into the log of the link, or nothing of the limiter's state changes. -/
theorem sendFrame_cases (b : BotState) (out : Str) :
    (sendFrame b cmdChanEvent out).2.chanEvent = b.chanEvent ∧
      (sendFrame b cmdChanEvent out).2.now = b.now ∧
      (sendFrame b cmdChanEvent out).2.hubOut =
        if (sendFrame b cmdChanEvent out).1 then b.hubOut ++ [(cmdChanEvent, out)] else b.hubOut := by
  have hlink := (sameButLink_sendFrame b cmdChanEvent out).eq
  refine ⟨by rw [hlink], by rw [hlink], ?_⟩
  unfold sendFrame
  split
  · rfl
  · split
    · rfl
    · unfold sendRaw
      split
      · rfl
      · split
        · rfl
        · rfl

theorem length_eventClean_le (cap : Nat) (src : Str) : (eventClean cap src).length ≤ cap - 1 := by
  unfold eventClean
  rw [List.length_map]
  exact length_trunc_le src cap

theorem length_action_le {action : Str} (h : chanEventActions.contains action = true) :
    action.length ≤ 10 := by
  have hall : ∀ a ∈ chanEventActions, a.length ≤ 10 := by decide
  exact hall action (List.contains_iff_mem.mp h)

def eventFrame (chan action target detail : Str) : Str :=
  chan ++ str "|" ++ action ++ str "|" ++ cleaned target ++ str "|" ++
    eventClean (chanEventDetailMax + 1) detail

/-- The frame of an event always fits. -/
theorem length_eventFrame_lt {chan action : Str} (target detail : Str)
    (hchan : chan.length < maxChan) (haction : chanEventActions.contains action = true) :
    (eventFrame chan action target detail).length < chanEventMax := by
  have haction' := length_action_le haction
  have htarget : (cleaned target).length ≤ 120 := length_eventClean_le _ target
  have hdetail : (eventClean (chanEventDetailMax + 1) detail).length ≤ 160 :=
    length_eventClean_le _ detail
  have hchan' : chan.length < 65 := hchan
  have hpipe : (str "|").length = 1 := rfl
  have hmax : chanEventMax = 369 := rfl
  simp only [eventFrame, List.length_append, hpipe, hmax]
  omega

/-- The limiter with an act noted. -/
def noted (lim : ChanEventLim) (k : Str) (now : Int) : ChanEventLim :=
  { lim with seen := lim.seen.set ((slotOf lim k).getD (oldestSlot lim.seen)) ⟨k, now⟩ }

/-- The state in which an event is sent that is not held back. -/
def admitted (b : BotState) (k : Str) : BotState :=
  { b with chanEvent := markWindow (noted b.chanEvent k b.now) b.now }

/-- A call that is refused before the limiter, one that the limiter holds back, and one that is
sent if the link takes it. -/
theorem chanEvent_cases (b : BotState) (chan action target detail : Str) :
    (¬ Reaches b chan action target ∧ chanEvent b chan action target detail = (false, b)) ∨
      (Held b chan action target ∧
        (chanEvent b chan action target detail).2.hubOut = b.hubOut ∧
        (chanEvent b chan action target detail).2.now = b.now ∧
        ∃ c a, (chanEvent b chan action target detail).2.chanEvent =
          { b.chanEvent with suppressed := b.chanEvent.suppressed + 1, supChan := c, supAction := a }) ∨
      (Reaches b chan action target ∧ ¬ Held b chan action target ∧
        chanEvent b chan action target detail =
          let sent := sendFrame (admitted b (eventKey chan action target)) cmdChanEvent
            (eventFrame chan action target detail)
          if sent.1 then (true, chanEventSummary sent.2) else (false, sent.2)) := by
  by_cases hreach : Reaches b chan action target
  · have hreach' := hreach
    obtain ⟨hhead, haction, hchan, hlink, htarget, hkey⟩ := hreach
    have hbranch : chanEvent b chan action target detail =
        if chanEventLimited b.chanEvent (slotOf b.chanEvent (eventKey chan action target)) b.now then
          (false, { b with
            chanEvent := { b.chanEvent with
              suppressed := b.chanEvent.suppressed + 1
              supChan := trunc chan maxChan
              supAction := trunc action 16 } })
        else
          let sent := sendFrame (admitted b (eventKey chan action target)) cmdChanEvent
            (eventFrame chan action target detail)
          if sent.1 then (true, chanEventSummary sent.2) else (false, sent.2) := by
      unfold chanEvent
      dsimp only
      rw [if_neg (by
        rw [not_and_or, not_not, not_not]
        exact hhead)]
      rw [if_neg (by
        rw [Bool.or_eq_true, not_or, Bool.not_eq_true', decide_eq_true_eq]
        exact ⟨by rw [haction]; decide, Nat.not_le.mpr hchan⟩)]
      rw [if_neg (by
        rw [hlink]
        decide)]
      rw [if_neg (by
        rw [Bool.or_eq_true, not_or, List.isEmpty_iff, decide_eq_true_eq]
        exact ⟨htarget, Nat.not_le.mpr hkey⟩)]
      have hlong := Nat.not_le.mpr (length_eventFrame_lt target detail hchan haction)
      unfold eventFrame cleaned at hlong
      rw [if_neg hlong]
      refine ite_congr rfl (fun _ => rfl) fun _ => ?_
      generalize hsent : sendFrame (admitted b (eventKey chan action target)) cmdChanEvent
        (eventFrame chan action target detail) = sent
      obtain ⟨fits, b'⟩ := sent
      split
      · rename_i heq
        obtain ⟨rfl, rfl⟩ := Prod.mk.inj (hsent.symm.trans heq)
        rfl
      · rename_i heq
        obtain ⟨rfl, rfl⟩ := Prod.mk.inj (hsent.symm.trans heq)
        rfl
    by_cases hlim : chanEventLimited b.chanEvent
        (slotOf b.chanEvent (eventKey chan action target)) b.now = true
    · rw [if_pos hlim] at hbranch
      rw [hbranch]
      exact .inr (.inl ⟨⟨hreach', hlim⟩, rfl, rfl, _, _, rfl⟩)
    · rw [if_neg hlim] at hbranch
      exact .inr (.inr ⟨hreach', fun h => hlim h.2, hbranch⟩)
  · refine .inl ⟨hreach, ?_⟩
    unfold chanEvent
    dsimp only
    split
    · rfl
    · rename_i hhead
      split
      · rfl
      · rename_i hshape
        split
        · rfl
        · rename_i hlink
          split
          · rfl
          · rename_i hsize
            refine absurd ?_ hreach
            rw [Bool.or_eq_true, not_or, Bool.not_eq_true', Bool.not_eq_false,
              decide_eq_true_eq, Nat.not_le] at hshape
            rw [Bool.or_eq_true, not_or, List.isEmpty_iff, decide_eq_true_eq, Nat.not_le] at hsize
            rw [not_and_or, not_not, not_not] at hhead
            rw [Bool.not_eq_true', Bool.not_eq_false] at hlink
            exact ⟨hhead, hshape.1, hshape.2, hlink, hsize.1, hsize.2⟩

theorem chanEventSummary_cases (b : BotState) :
    chanEventSummary b = b ∨
      ((b.chanEvent.window.getD b.chanEvent.widx 0 = 0 ∨
          chanEventWindowSecs ≤ b.now - b.chanEvent.window.getD b.chanEvent.widx 0) ∧
        chanEventSummary b =
          let sent := sendFrame { b with chanEvent := markWindow b.chanEvent b.now } cmdChanEvent
            (b.chanEvent.supChan ++ str "|" ++ b.chanEvent.supAction ++ str "|*|" ++
              decNat b.chanEvent.suppressed ++ str " events suppressed")
          if sent.1 then { sent.2 with chanEvent := { sent.2.chanEvent with suppressed := 0 } }
          else sent.2) := by
  unfold chanEventSummary
  dsimp only
  split
  · rename_i hroom
    refine .inr ⟨hroom.2.1, ?_⟩
    split
    · rename_i heq
      rw [heq]
      rfl
    · rename_i heq
      rw [heq]
      rfl
  · exact .inl rfl

/-- A summary is read back as the number it was written with. -/
theorem summaryCount_eq (front : Str) {n : Nat} (hn : (n : Int) ≤ i64Max) :
    summaryCount (front ++ str "|*|" ++ decNat n ++ str " events suppressed") = n := by
  have hfield : lastField (front ++ str "|*|" ++ decNat n ++ str " events suppressed") =
      decNat n ++ str " events suppressed" := by
    have hpipe : ∀ c ∈ (decNat n ++ str " events suppressed").reverse,
        decide (c ≠ byte '|') = true := by
      intro c hc
      rw [decide_eq_true_eq]
      rintro rfl
      rcases List.mem_append.mp (List.mem_reverse.mp hc) with hdigit | htext
      · exact Bool.noConfusion (isDigit_of_mem_decNat hdigit)
      · exact absurd htext (by decide)
    have hsplit : front ++ str "|*|" ++ decNat n ++ str " events suppressed" =
        (front ++ str "|*") ++ byte '|' :: (decNat n ++ str " events suppressed") := by
      rw [List.append_assoc, List.append_assoc, List.append_assoc]
      rfl
    rw [hsplit, lastField, List.reverse_append, List.reverse_cons, List.append_assoc,
      List.takeWhile_append_of_pos hpipe, List.singleton_append,
        List.takeWhile_cons_of_neg (by simp),
      List.append_nil, List.reverse_reverse]
  have hdec : decNat n = dec (n : Int) := by
    rw [dec, if_neg (by omega)]
    rfl
  rw [summaryCount, hfield, atoll, hdec, strtoll_dec (by unfold i64Min; omega) hn]
  · rfl
  · intro c hc
    cases hc
    rfl

/-! ### The table of acts -/

theorem oldest_foldl (seen : List ChanEventSeen) (rest : List ChanEventSeen) :
    ∀ (n best : Nat), seen.drop n = rest → best < seen.length →
      (∀ j < n, (seen.getD best {}).when ≤ (seen.getD j {}).when) →
      let r := (rest.zipIdx n).foldl
        (fun best (e, i) => if e.when < (seen.getD best {}).when then i else best) best
      r < seen.length ∧ ∀ j < seen.length, (seen.getD r {}).when ≤ (seen.getD j {}).when := by
  induction rest with
  | nil =>
      intro n best hdrop hlt hmin
      refine ⟨hlt, fun j hj => hmin j ?_⟩
      exact Nat.lt_of_lt_of_le hj (List.drop_eq_nil_iff.mp hdrop)
  | cons e rest ih =>
      intro n best hdrop hlt hmin
      have hn : seen.getD n {} = e := by
        rw [List.getD_eq_getElem?_getD, ← List.head?_drop, hdrop]
        rfl
      have hlen : n < seen.length := by
        refine Nat.lt_of_not_le fun h => ?_
        rw [List.drop_of_length_le h] at hdrop
        cases hdrop
      have hdrop' : seen.drop (n + 1) = rest := by
        have htail := congrArg (List.drop 1) hdrop
        rwa [List.drop_drop] at htail
      rw [List.zipIdx_cons, List.foldl_cons]
      dsimp only
      split
      · rename_i hless
        refine ih (n + 1) n hdrop' hlen fun j hj => ?_
        rw [hn]
        rcases Nat.lt_succ_iff_lt_or_eq.mp hj with hj | rfl
        · exact Int.le_trans (Int.le_of_lt hless) (hmin j hj)
        · rw [hn]
      · rename_i hless
        refine ih (n + 1) best hdrop' hlt fun j hj => ?_
        rcases Nat.lt_succ_iff_lt_or_eq.mp hj with hj | rfl
        · exact hmin j hj
        · rw [hn]
          exact Int.not_lt.mp hless

/-- The place that is taken for a new act has the oldest time. -/
theorem oldestSlot_le {seen : List ChanEventSeen} (h : 0 < seen.length) :
    oldestSlot seen < seen.length ∧
      ∀ j < seen.length, (seen.getD (oldestSlot seen) {}).when ≤ (seen.getD j {}).when :=
  oldest_foldl seen seen 0 0 rfl h fun _ hj => absurd hj (Nat.not_lt_zero _)

/-- The table of acts at `now`, where `acts` were let through, the newest first: a place for
each key, times of acts, and every act that is not 10 s old. -/
structure Table (seen : List ChanEventSeen) (acts : List (Str × Int)) (now : Int) : Prop where
  length_seen : seen.length = chanEventTrack
  keys : ∀ (i j : Nat) (e e' : ChanEventSeen), seen[i]? = some e → seen[j]? = some e' →
    e.when ≠ 0 → e'.when ≠ 0 → e.key = e'.key → i = j
  times : ((seen.map (·.when)).filter (· ≠ 0)).Subperm (acts.map (·.2))
  recent : ∀ a ∈ acts, now - a.2 < chanEventDedupeSecs →
    ∃ e ∈ seen, e.when ≠ 0 ∧ e.key = a.1 ∧ a.2 ≤ e.when

section

variable {seen : List ChanEventSeen} {acts : List (Str × Int)} {now : Int}

theorem table_nil (now : Int) : Table (List.replicate chanEventTrack {}) [] now := by
  have hfree {i : Nat} {e : ChanEventSeen}
      (h : (List.replicate chanEventTrack ({} : ChanEventSeen))[i]? = some e) : e.when = 0 := by
    rw [List.eq_of_mem_replicate (List.mem_of_getElem? h)]
  refine ⟨List.length_replicate, fun i j e e' hi _ hne _ _ => absurd (hfree hi) hne, ?_,
    fun a ha => nomatch ha⟩
  have hnone : ((List.replicate chanEventTrack ({} : ChanEventSeen)).map (·.when)).filter (· ≠ 0) =
      [] := by decide
  rw [hnone]
  exact List.nil_subperm

theorem Table.later {now' : Int} (h : Table seen acts now) (hle : now ≤ now') :
    Table seen acts now' :=
  ⟨h.length_seen, h.keys, h.times, fun a ha hlt => h.recent a ha (by omega)⟩

/-- While acts come at most 20 times a minute, the oldest place is free or 10 s old. -/
theorem Table.oldest_free (h : Table seen acts now) (hpos : ∀ a ∈ acts, 0 < a.2)
    (hclock : ∀ a ∈ acts, a.2 ≤ now)
    (hfew : acts.countP (fun a => decide (now - chanEventDedupeSecs < a.2 ∧ a.2 ≤ now)) <
      chanEventTrack) :
    (seen.getD (oldestSlot seen) {}).when = 0 ∨
      chanEventDedupeSecs ≤ now - (seen.getD (oldestSlot seen) {}).when := by
  by_contra hnot
  rw [not_or, Int.not_le] at hnot
  obtain ⟨hne, hyoung⟩ := hnot
  have hlen : 0 < seen.length := h.length_seen.symm ▸ (by decide)
  obtain ⟨hlt, hmin⟩ := oldestSlot_le hlen
  have hact {e : ChanEventSeen} (he : e ∈ seen) (hwhen : e.when ≠ 0) :
    ∃ a ∈ acts, a.2 = e.when := by
    have hmem : e.when ∈ (seen.map (·.when)).filter (· ≠ 0) :=
      List.mem_filter.mpr ⟨List.mem_map_of_mem he, decide_eq_true hwhen⟩
    exact List.mem_map.mp (h.times.subset hmem)
  have hget {j : Nat} (hj : j < seen.length) : seen.getD j {} = seen[j] := by
    rw [List.getD_eq_getElem?_getD, List.getElem?_eq_getElem hj]
    rfl
  have hoff : seen.getD (oldestSlot seen) {} ∈ seen := by
    rw [hget hlt]
    exact List.getElem_mem hlt
  obtain ⟨a, ha, hwhen⟩ := hact hoff hne
  have hstart := hpos a ha
  rw [hwhen] at hstart
  -- all places are taken by acts that are younger than 10 s
  have hall : ∀ t ∈ seen.map (·.when), t ≠ 0 ∧ now - chanEventDedupeSecs < t ∧ t ≤ now := by
    intro t ht
    obtain ⟨e, he, rfl⟩ := List.mem_map.mp ht
    obtain ⟨j, hj, rfl⟩ := List.getElem_of_mem he
    have hle := hmin j hj
    rw [hget hj] at hle
    have hnz : seen[j].when ≠ 0 := by omega
    obtain ⟨a, ha, heq⟩ := hact he hnz
    have hbefore := hclock a ha
    exact ⟨hnz, by omega, by omega⟩
  have hfull : (seen.map (·.when)).filter (· ≠ 0) = seen.map (·.when) :=
    List.filter_eq_self.mpr fun t ht => decide_eq_true (hall t ht).1
  have hcount := h.times.countP_le fun t => decide (now - chanEventDedupeSecs < t ∧ t ≤ now)
  have htaken : (seen.map (·.when)).countP
      (fun t => decide (now - chanEventDedupeSecs < t ∧ t ≤ now)) = chanEventTrack := by
    rw [List.countP_eq_length.mpr fun t ht => decide_eq_true (hall t ht).2, List.length_map,
      h.length_seen]
  rw [hfull, htaken, List.countP_map] at hcount
  exact absurd hfew (Nat.not_lt.mpr hcount)

theorem slotOf_some {lim : ChanEventLim} {k : Str} {i : Nat} (h : slotOf lim k = some i) :
    ∃ e, lim.seen[i]? = some e ∧ e.when ≠ 0 ∧ e.key = k := by
  obtain ⟨hlt, hp, -⟩ := List.findIdx?_eq_some_iff_getElem.mp h
  rw [Bool.and_eq_true, bne_iff_ne, beq_iff_eq] at hp
  exact ⟨_, List.getElem?_eq_getElem hlt, hp.1, hp.2⟩

theorem slotOf_none {lim : ChanEventLim} {k : Str} (h : slotOf lim k = none) :
    ∀ e ∈ lim.seen, e.when ≠ 0 → e.key ≠ k := by
  intro e he hwhen hkey
  have hp := List.findIdx?_eq_none_iff.mp h e he
  rw [Bool.and_eq_false_iff, bne_eq_false_iff_eq, beq_eq_false_iff_ne] at hp
  exact hp.elim hwhen fun hne => hne hkey

theorem subperm_filter_set {l : List Int} {i : Nat} (x : Int) (p : Int → Bool) :
    ((l.set i x).filter p).Subperm (x :: l.filter p) := by
  by_cases hi : i < l.length
  · refine ((List.set_perm_cons_eraseIdx hi x).filter p).subperm.trans ?_
    rw [List.filter_cons]
    have hrest : ((l.eraseIdx i).filter p).Subperm (l.filter p) :=
      ((List.eraseIdx_sublist l i).filter p).subperm
    split
    · exact (List.subperm_cons x).mpr hrest
    · exact hrest.trans (List.sublist_cons_self x _).subperm
  · rw [List.set_eq_of_length_le (Nat.not_lt.mp hi)]
    exact (List.sublist_cons_self x _).subperm

/-- An act that is let through takes the place of its key, or one that is free. -/
theorem Table.note (h : Table seen acts now) (hpos : 0 < now) (hclock : ∀ a ∈ acts, a.2 ≤ now)
    {k : Str} {lim : ChanEventLim} (hseen : lim.seen = seen)
    (hfree : slotOf lim k = none → (seen.getD (oldestSlot seen) {}).when = 0 ∨
      chanEventDedupeSecs ≤ now - (seen.getD (oldestSlot seen) {}).when) :
    Table (noted lim k now).seen ((k, now) :: acts) now := by
  subst hseen
  have hlen : 0 < lim.seen.length := h.length_seen.symm ▸ (by decide)
  -- no other place has the key, and what goes is no act that is still young
  obtain ⟨i, hset, hi, hothers, hgoes⟩ : ∃ i,
      (noted lim k now).seen = lim.seen.set i ⟨k, now⟩ ∧ i < lim.seen.length ∧
      (∀ j e, lim.seen[j]? = some e → e.when ≠ 0 → e.key = k → j = i) ∧
      ∀ e, lim.seen[i]? = some e → e.when ≠ 0 → e.key ≠ k → chanEventDedupeSecs ≤ now - e.when := by
    unfold noted
    cases hslot : slotOf lim k with
    | some i =>
        obtain ⟨e, he, hwhen, hkey⟩ := slotOf_some hslot
        refine ⟨i, rfl, (List.getElem?_eq_some_iff.mp he).1, ?_, ?_⟩
        · exact fun j e' he' hwhen' hkey' => h.keys j i e' e he' he hwhen' hwhen (hkey'.trans hkey.symm)
        · intro e' he' _ hne
          rw [he] at he'
          cases he'
          exact absurd hkey hne
    | none =>
        refine ⟨oldestSlot lim.seen, rfl, (oldestSlot_le hlen).1, ?_, ?_⟩
        · exact fun j e he hwhen hkey =>
            absurd hkey (slotOf_none hslot e (List.mem_of_getElem? he) hwhen)
        · intro e he hwhen _
          have hold := hfree hslot
          rw [List.getD_eq_getElem?_getD, he, Option.getD_some] at hold
          exact hold.resolve_left hwhen
  rw [hset]
  constructor
  · rw [List.length_set, h.length_seen]
  · intro i₁ i₂ e₁ e₂ h₁ h₂ hwhen₁ hwhen₂ hkey
    rw [List.getElem?_set] at h₁ h₂
    split at h₁ <;> split at h₂
    · omega
    · rename_i heq _
      cases h₁
      rw [← heq, hothers i₂ e₂ h₂ hwhen₂ hkey.symm]
    · rename_i _ heq
      cases h₂
      rw [← heq, hothers i₁ e₁ h₁ hwhen₁ hkey]
    · exact h.keys i₁ i₂ e₁ e₂ h₁ h₂ hwhen₁ hwhen₂ hkey
  · rw [List.map_set, List.map_cons]
    exact (subperm_filter_set now _).trans ((List.subperm_cons now).mpr h.times)
  · intro a ha hyoung
    have hnew : (⟨k, now⟩ : ChanEventSeen) ∈ lim.seen.set i ⟨k, now⟩ := List.mem_set hi _
    rcases List.mem_cons.mp ha with rfl | ha
    · exact ⟨_, hnew, Int.ne_of_gt hpos, rfl, Int.le_refl now⟩
    · by_cases hkey : a.1 = k
      · exact ⟨_, hnew, Int.ne_of_gt hpos, hkey.symm, hclock a ha⟩
      · obtain ⟨e, he, hwhen, hkeye, hle⟩ := h.recent a ha hyoung
        obtain ⟨j, hj⟩ := List.mem_iff_getElem?.mp he
        have hji : i ≠ j := by
          rintro rfl
          have hold := hgoes e hj hwhen (hkeye ▸ hkey)
          omega
        refine ⟨e, List.mem_iff_getElem?.mpr ⟨j, ?_⟩, hwhen, hkeye, hle⟩
        rw [List.getElem?_set_ne hji]
        exact hj

/-- An act that is not held back comes 10 s after the same act before. -/
theorem Table.gap {lim : ChanEventLim} (h : Table lim.seen acts now) {k : Str}
    (hlim : (slotOf lim k).any
      (fun i => now - (lim.seen.getD i {}).when < chanEventDedupeSecs) = false) :
    ∀ a ∈ acts, k = a.1 → chanEventDedupeSecs ≤ now - a.2 := by
  intro a ha hkey
  by_contra hyoung
  rw [Int.not_le] at hyoung
  obtain ⟨e, he, hwhen, hkeye, hle⟩ := h.recent a ha hyoung
  cases hslot : slotOf lim k with
  | none => exact slotOf_none hslot e he hwhen (hkeye.trans hkey.symm)
  | some i =>
      obtain ⟨e', he', hwhen', hkey'⟩ := slotOf_some hslot
      obtain ⟨j, hj⟩ := List.mem_iff_getElem?.mp he
      have hij := h.keys i j e' e he' hj hwhen' hwhen (hkey'.trans (hkey.trans hkeye.symm))
      rw [← hij, he'] at hj
      cases hj
      rw [hslot, Option.any_some, decide_eq_false_iff_not, List.getD_eq_getElem?_getD, he',
        Option.getD_some] at hlim
      omega

end

/-! ### The invariant -/

/-- The time at which a frame was sent. -/
def Entry.sentAt : Entry → Option Int
  | .event now .. => some now
  | .summary now _ => some now
  | .held _ => none

/-- The key of an event that was sent, and when. -/
def Entry.act : Entry → Option (Str × Int)
  | .event now chan action target =>
      some ((chan ++ str "|" ++ action ++ str "|" ++ target).map lower, now)
  | .summary .. => none
  | .held _ => none

/-- How many events a summary counts. -/
def Entry.told : Entry → Nat
  | .event .. => 0
  | .summary _ count => count
  | .held _ => 0

def Entry.isHeld : Entry → Bool
  | .event .. => false
  | .summary .. => false
  | .held _ => true

/-- The limiter after the notes of `log`: `marks` are the times that went into its ring, and
`acts` what went into its table. A frame the link did not take is in these and not in `log`. -/
structure Inv (lim : ChanEventLim) (now : Int) (log : List Entry) (marks : List Int)
    (acts : List (Str × Int)) : Prop where
  ring : Holds chanEventWindowMax ⟨lim.window, lim.widx⟩ marks
  paced : Paced chanEventWindowMax chanEventWindowSecs marks
  clock : ∀ u ∈ marks, 0 < u ∧ u ≤ now
  table : Table lim.seen acts now
  marked : (acts.map (·.2)).Sublist marks
  spaced : acts.Pairwise fun a a' => a.1 = a'.1 → chanEventDedupeSecs ≤ a.2 - a'.2
  frames : (log.filterMap Entry.sentAt).Sublist marks
  events : (log.filterMap Entry.act).Sublist acts
  ledger : log.countP Entry.isHeld = (log.map Entry.told).sum + lim.suppressed
  pending : lim.suppressed < 4294967296

section

variable {lim : ChanEventLim} {now : Int} {log : List Entry} {marks : List Int}
  {acts : List (Str × Int)}

theorem inv_start (now : Int) : Inv {} now [] [] [] where
  ring := holds_nil (by decide)
  paced := .nil
  clock := fun _ hu => nomatch hu
  table := table_nil now
  marked := .slnil
  spaced := .nil
  frames := .slnil
  events := .slnil
  ledger := rfl
  pending := by decide

theorem Inv.later {now' : Int} (h : Inv lim now log marks acts) (hle : now ≤ now') :
    Inv lim now' log marks acts :=
  { h with
    clock := fun u hu => ⟨(h.clock u hu).1, Int.le_trans (h.clock u hu).2 hle⟩
    table := h.table.later hle }

/-- An event that is held back is one more that is pending. -/
theorem Inv.hold (h : Inv lim now log marks acts) (c a : Str)
    (hpending : lim.suppressed + 1 < 4294967296) :
    Inv { lim with suppressed := lim.suppressed + 1, supChan := c, supAction := a } now
      (.held now :: log) marks acts :=
  { h with
    frames := h.frames
    events := h.events
    ledger := by
      have hledger := h.ledger
      rw [List.countP_cons_of_pos rfl, List.map_cons, List.sum_cons, hledger]
      simp only [Entry.told]
      omega
    pending := hpending }

/-- The clock of the acts is that of the marks. -/
theorem Inv.act_clock (h : Inv lim now log marks acts) : ∀ a ∈ acts, 0 < a.2 ∧ a.2 ≤ now :=
  fun a ha => h.clock a.2 (h.marked.subset (List.mem_map_of_mem ha))

/-- The ring lets the next send go at the right pace. -/
theorem Inv.paced_mark (h : Inv lim now log marks acts)
    (hroom : lim.window.getD lim.widx 0 = 0 ∨
      chanEventWindowSecs ≤ now - lim.window.getD lim.widx 0) :
    Paced chanEventWindowMax chanEventWindowSecs (now :: marks) :=
  h.ring.allows h.paced (fun u hu => Int.ne_of_gt (h.clock u hu).1)
    (fun u hu => (h.clock u (List.mem_of_mem_head? hu)).2) hroom

/-- A frame that is not an event is marked, whether it was sent or not. -/
theorem Inv.mark (h : Inv lim now log marks acts) (hpos : 0 < now)
    (hroom : lim.window.getD lim.widx 0 = 0 ∨
      chanEventWindowSecs ≤ now - lim.window.getD lim.widx 0) :
    Inv (markWindow lim now) now log (now :: marks) acts :=
  { h with
    ring := h.ring.mark now
    paced := h.paced_mark hroom
    clock := fun u hu => by
      rcases List.mem_cons.mp hu with rfl | hu
      · exact ⟨hpos, Int.le_refl u⟩
      · exact h.clock u hu
    marked := h.marked.cons now
    frames := h.frames.cons now }

/-- A summary that was sent tells all that was pending. -/
theorem Inv.tell (h : Inv lim now log marks acts) (hpos : 0 < now)
    (hroom : lim.window.getD lim.widx 0 = 0 ∨
      chanEventWindowSecs ≤ now - lim.window.getD lim.widx 0) :
    Inv { markWindow lim now with suppressed := 0 } now (.summary now lim.suppressed :: log)
      (now :: marks) acts :=
  { h.mark hpos hroom with
    frames := h.frames.cons_cons now
    events := h.events
    ledger := by
      have hledger := h.ledger
      rw [List.countP_cons_of_neg Bool.noConfusion, List.map_cons, List.sum_cons, hledger]
      exact Nat.add_comm _ _
    pending := Nat.zero_lt_succ _ }

/-- Fewer than 32 acts are younger than 10 s. -/
theorem Inv.few (h : Inv lim now log marks acts) :
    acts.countP (fun a => decide (now - chanEventDedupeSecs < a.2 ∧ a.2 ≤ now)) < chanEventTrack := by
  have hmap : acts.countP (fun a => decide (now - chanEventDedupeSecs < a.2 ∧ a.2 ≤ now)) =
      (acts.map (·.2)).countP (fun t => decide (now - chanEventDedupeSecs < t ∧ t ≤ now)) := by
    rw [List.countP_map]
    rfl
  have hwindow : marks.countP (fun t => decide (now - chanEventDedupeSecs < t ∧ t ≤ now)) ≤
      marks.countP (fun t => decide (now - chanEventDedupeSecs ≤ t ∧
        t < now - chanEventDedupeSecs + chanEventWindowSecs)) := by
    refine List.countP_mono_left fun t _ ht => ?_
    rw [decide_eq_true_eq] at ht ⊢
    have hten : chanEventDedupeSecs = 10 := rfl
    have hsixty : chanEventWindowSecs = 60 := rfl
    omega
  calc acts.countP _ = (acts.map (·.2)).countP _ := hmap
    _ ≤ marks.countP _ := h.marked.countP_le
    _ ≤ _ := hwindow
    _ ≤ chanEventWindowMax := h.paced.countP_le (by decide) _
    _ < chanEventTrack := by decide

theorem chanEventLimited_false {slot : Option Nat} (h : ¬ chanEventLimited lim slot now = true) :
    (slot.any fun i => now - (lim.seen.getD i {}).when < chanEventDedupeSecs) = false ∧
      (lim.window.getD lim.widx 0 = 0 ∨
        chanEventWindowSecs ≤ now - lim.window.getD lim.widx 0) := by
  rw [Bool.not_eq_true, chanEventLimited, Bool.or_eq_false_iff, Bool.and_eq_false_iff,
    bne_eq_false_iff_eq, decide_eq_false_iff_not, Int.not_lt] at h
  exact h

/-- An event that is let through is marked and noted, whether it was sent or not. -/
theorem Inv.admit (h : Inv lim now log marks acts) (hpos : 0 < now) {k : Str}
    (hlim : ¬ chanEventLimited lim (slotOf lim k) now = true) :
    Inv (markWindow (noted lim k now) now) now log (now :: marks) ((k, now) :: acts) := by
  obtain ⟨hseen, hroom⟩ := chanEventLimited_false hlim
  have hclock : ∀ a ∈ acts, a.2 ≤ now := fun a ha => (h.act_clock a ha).2
  have hmark := h.mark hpos hroom
  exact { hmark with
    ring := h.ring.mark now
    table := h.table.note hpos hclock rfl fun _ =>
      h.table.oldest_free (fun a ha => (h.act_clock a ha).1) hclock h.few
    marked := h.marked.cons_cons now
    spaced := List.pairwise_cons.mpr ⟨h.table.gap hseen, h.spaced⟩
    events := h.events.cons _ }

/-- The same with the event in the notes. -/
theorem Inv.admit_sent (h : Inv lim now log marks acts) (hpos : 0 < now) {chan action target : Str}
    (hlim : ¬ chanEventLimited lim (slotOf lim (eventKey chan action target)) now = true) :
    Inv (markWindow (noted lim (eventKey chan action target) now) now) now
      (.event now chan action (cleaned target) :: log) (now :: marks)
      ((eventKey chan action target, now) :: acts) :=
  { h.admit hpos hlim with
    frames := h.frames.cons_cons now
    events := h.events.cons_cons _
    ledger := by
      have hledger := h.ledger
      rw [List.countP_cons_of_neg Bool.noConfusion, List.map_cons, List.sum_cons, hledger]
      simp only [Entry.told]
      exact (congrArg (· + lim.suppressed) (Nat.zero_add _)).symm }

end

/-! ### One call -/

variable {b : BotState} {log : List Entry} {marks : List Int} {acts : List (Str × Int)}

theorem entries_refused {chan action target detail : Str}
    (hcall : (chanEvent b chan action target detail).2.hubOut = b.hubOut)
    (hheld : ¬ Held b chan action target) : entries b chan action target detail = [] := by
  unfold entries
  dsimp only
  rw [hcall, List.drop_length, if_neg hheld]
  rfl

/-- What a second frame of the call does: nothing, a mark, or a summary. -/
theorem Inv.summary (h : Inv b.chanEvent b.now log marks acts) (hpos : 0 < b.now) :
    ∃ frames marks', (chanEventSummary b).now = b.now ∧
      (chanEventSummary b).hubOut = b.hubOut ++ frames ∧
      Inv (chanEventSummary b).chanEvent b.now
        ((frames.map fun f => .summary b.now (summaryCount f.2)) ++ log) marks' acts := by
  rcases chanEventSummary_cases b with hnone | ⟨hroom, hsummary⟩
  · rw [hnone]
    exact ⟨[], marks, rfl, (List.append_nil _).symm, h⟩
  · rw [hsummary]
    obtain ⟨hlim, hnow, hout⟩ :=
      sendFrame_cases { b with chanEvent := markWindow b.chanEvent b.now }
      (b.chanEvent.supChan ++ str "|" ++ b.chanEvent.supAction ++ str "|*|" ++
        decNat b.chanEvent.suppressed ++ str " events suppressed")
    dsimp only at hlim hnow hout ⊢
    have hpending := h.pending
    have hcount := summaryCount_eq
      (b.chanEvent.supChan ++ str "|" ++ b.chanEvent.supAction) (n := b.chanEvent.suppressed)
      (by unfold i64Max; omega)
    split
    · rename_i hsent
      rw [if_pos hsent] at hout
      refine ⟨_, b.now :: marks, hnow, hout, ?_⟩
      dsimp only
      rw [hlim, List.map_singleton, hcount]
      exact h.tell hpos hroom
    · rename_i hfail
      rw [if_neg hfail] at hout
      refine ⟨[], b.now :: marks, hnow, hout.trans (List.append_nil _).symm, ?_⟩
      rw [hlim]
      exact h.mark hpos hroom

/-- **Every call keeps the limiter's invariant.** -/
theorem Inv.chanEvent (h : Inv b.chanEvent b.now log marks acts) (hpos : 0 < b.now)
    (chan action target detail : Str)
    (hpending : (Enforce.chanEvent b chan action target detail).2.chanEvent.suppressed < 4294967296) :
    ∃ marks' acts', Inv (Enforce.chanEvent b chan action target detail).2.chanEvent
      (Enforce.chanEvent b chan action target detail).2.now
      (entries b chan action target detail ++ log) marks' acts' := by
  rcases chanEvent_cases b chan action target detail with
    ⟨hreach, hcall⟩ | ⟨hheld, hout, hnow, c, a, hlim⟩ | ⟨hreach, hheld, hcall⟩
  · rw [entries_refused (by rw [hcall]) fun hheld => hreach hheld.1, hcall]
    exact ⟨marks, acts, h⟩
  · have hentries : entries b chan action target detail = [.held b.now] := by
      unfold entries
      dsimp only
      rw [hout, List.drop_length, if_pos hheld]
      rfl
    rw [hlim] at hpending
    rw [hentries, hlim, hnow]
    exact ⟨marks, acts, h.hold c a hpending⟩
  · have hlimited : ¬ chanEventLimited b.chanEvent
        (slotOf b.chanEvent (eventKey chan action target)) b.now = true :=
      fun hlim => hheld ⟨hreach, hlim⟩
    dsimp only at hcall
    obtain ⟨hlim, hnow, hout⟩ := sendFrame_cases (admitted b (eventKey chan action target))
      (eventFrame chan action target detail)
    generalize sendFrame (admitted b (eventKey chan action target)) cmdChanEvent
      (eventFrame chan action target detail) = sent at hcall hlim hnow hout
    by_cases hsent : sent.1 = true
    · rw [if_pos hsent] at hcall hout
      -- the event is in the notes before the summary is tried
      have hinv : Inv sent.2.chanEvent sent.2.now
          (.event b.now chan action (cleaned target) :: log) (b.now :: marks)
          ((eventKey chan action target, b.now) :: acts) := by
        rw [hlim, hnow]
        exact h.admit_sent hpos hlimited
      have hnow' : sent.2.now = b.now := hnow
      obtain ⟨frames, marks', hclock, hframes, hafter⟩ := hinv.summary (hnow'.symm ▸ hpos)
      have hentries : entries b chan action target detail =
          (frames.map fun f => .summary b.now (summaryCount f.2)) ++
            [.event b.now chan action (cleaned target)] := by
        have hall : (Enforce.chanEvent b chan action target detail).2.hubOut =
            b.hubOut ++ ((cmdChanEvent, eventFrame chan action target detail) :: frames) := by
          rw [hcall, hframes, hout, List.append_assoc]
          rfl
        unfold entries
        dsimp only
        rw [hall, List.drop_left, if_neg hheld, List.append_nil]
        rfl
      rw [hentries, hcall, List.append_assoc]
      rw [hnow'] at hafter hclock
      dsimp only
      rw [hclock]
      exact ⟨marks', _, hafter⟩
    · rw [if_neg hsent] at hcall hout
      rw [entries_refused (by rw [hcall]; exact hout) hheld, hcall]
      dsimp only
      rw [hlim, hnow]
      exact ⟨_, _, h.admit hpos hlimited⟩

/-! ### Runs -/

/-- The calls of a run, with a positive clock that does not go back and anything between them
that is not the limiter's, and what they did, the newest first. -/
inductive Run : BotState → List Entry → Prop
  | start {b : BotState} (hfresh : b.chanEvent = {}) : Run b []
  | rest {b b' : BotState} {log : List Entry} (h : Run b log)
      (hlim : b'.chanEvent = b.chanEvent) (hclock : b.now ≤ b'.now) : Run b' log
  | event {b : BotState} {log : List Entry} (h : Run b log) (hpos : 0 < b.now)
      (chan action target detail : Str)
      (hpending : (chanEvent b chan action target detail).2.chanEvent.suppressed < 4294967296) :
      Run (chanEvent b chan action target detail).2 (entries b chan action target detail ++ log)

theorem Run.inv (h : Run b log) : ∃ marks acts, Inv b.chanEvent b.now log marks acts := by
  induction h with
  | start hfresh => exact ⟨[], [], hfresh ▸ inv_start _⟩
  | rest _ hlim hclock ih =>
      obtain ⟨marks, acts, hinv⟩ := ih
      exact ⟨marks, acts, hlim ▸ hinv.later hclock⟩
  | event _ hpos chan action target detail hpending ih =>
      obtain ⟨marks, acts, hinv⟩ := ih
      exact hinv.chanEvent hpos chan action target detail hpending

/-- **The limits hold in every run**: at most 20 frames in a minute, 10 s between two frames for
the same act, and every event that was held back told once or still pending. -/
theorem limits_hold (h : Run b log) :
    (∀ T, (log.filterMap Entry.sentAt).countP (fun t => decide (T ≤ t ∧ t < T + 60)) ≤ 20) ∧
      (log.Pairwise fun e e' => ∀ now now' chan action target,
        e = .event now chan action target → e' = .event now' chan action target →
          10 ≤ now - now') ∧
      log.countP Entry.isHeld = (log.map Entry.told).sum + b.chanEvent.suppressed := by
  obtain ⟨marks, acts, hinv⟩ := h.inv
  refine ⟨fun T => ?_, ?_, hinv.ledger⟩
  · exact Nat.le_trans hinv.frames.countP_le (hinv.paced.countP_le (by decide) T)
  · have hspaced := List.pairwise_filterMap.mp (hinv.spaced.sublist hinv.events)
    refine hspaced.imp fun {e e'} hgap now now' chan action target he he' => ?_
    subst he he'
    exact hgap _ rfl _ rfl rfl

/-- A bot with its link up. -/
def linked : BotState :=
  { now := 100, hubs := [str "h"], link := { sock := true, authenticated := true } }

/-- What a kick leaves behind. -/
def kicked (b : BotState) : BotState := (chanEvent b (str "#a") (str "kick") (str "x") []).2

set_option maxRecDepth 4000 in
/-- The same kick twice: the second report is held back. -/
theorem limits_hold_twice :
    let log := entries (kicked linked) (str "#a") (str "kick") (str "x") [] ++
      (entries linked (str "#a") (str "kick") (str "x") [] ++ [])
    log = [.held 100, .event 100 (str "#a") (str "kick") (str "x")] ∧
      (∀ T, (log.filterMap Entry.sentAt).countP (fun t => decide (T ≤ t ∧ t < T + 60)) ≤ 20) ∧
      (log.Pairwise fun e e' => ∀ now now' chan action target,
        e = .event now chan action target → e' = .event now' chan action target →
          10 ≤ now - now') ∧
      log.countP Entry.isHeld =
        (log.map Entry.told).sum + (kicked (kicked linked)).chanEvent.suppressed :=
  ⟨by decide, limits_hold (.event (.event (.start rfl) (by decide) (str "#a") (str "kick") (str "x") []
    (by decide)) (by decide) (str "#a") (str "kick") (str "x") [] (by decide))⟩

end IrcBot.EventLimits
