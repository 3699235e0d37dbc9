/-
# Unban requests and ban lists (`channel.rs`)

A request to be unbanned starts a walk of the channel's ban list: the bot asks for the list and
takes off the bans that match the requester. A channel has one walk at a time, and another
request during it is answered as if it had one.

* `walks_served` — a request that finds no walk of its channel and no list on its way, and whose
  list comes in time, gets its bans taken off.
* `not_served` — a second requester within one list gets nothing.
-/
import IrcBot.Requests

namespace IrcBot.UnbanWalks

open Cstr Chancfg Channel Requests Masks

/-! ### Requests and lists -/

/-- A request that waits for the first list that is asked for after it came: how many lists are
still on their way before that one, and the lines queued since. -/
structure Watch where
  mask : Str
  ahead : Nat
  sent : List Str

/-- A request whose list has ended, with the bans of that list. -/
structure Closed where
  mask : Str
  listing : List Str
  sent : List Str
deriving DecidableEq

/-- The bot, how many lists of the channel are on their way, what the server has listed of the
first of them, and the requests. -/
structure World where
  bot : BotState
  outstanding : Nat
  listing : List Str := []
  waiting : List Watch := []
  closed : List Closed := []

inductive Input where
  /-- A request made of the bot. -/
  | request (id name : Str) (nick : Option Str) (mask : Str)
  /-- 367 -/
  | ban (name mask : Str)
  /-- 368 -/
  | endOfBans (name : Str)
  | expire
  /-- Anything else. -/
  | other (bot : BotState)

/-- A line as the queue keeps it. -/
def queued (line : Str) : Str := line.take (min (line.length - 2) sendqLineMax) ++ [13, 10]

def listLine (name : Str) : Str := str "MODE " ++ name ++ str " +b" ++ crlf

def removalLine (name mask : Str) : Str := str "MODE " ++ name ++ str " -b " ++ mask ++ crlf

section

variable (P : Primitives)

def perform (b : BotState) : Input → BotState
  | .request id name nick mask => accessService P b id .unban name nick (some mask) none
  | .ban name mask => unbanNoteBan b name mask
  | .endOfBans name => unbanFinish b name
  | .expire => unbanExpire b
  | .other bot => bot

variable (chan : Str)

/-- The lines that an input makes the bot queue. -/
def newLines (w : World) (i : Input) : List Str :=
  (perform P w.bot i).ircOut.drop w.bot.ircOut.length

/-- A request waits from now on, and the end of a list is the end of the requests it was for. -/
def step (w : World) (i : Input) : World :=
  let lines := newLines P w i
  let waiting := w.waiting.map fun x => { x with sent := x.sent ++ lines }
  let asked := lines.countP (eqIc (queued (listLine chan)))
  let w' := { w with
    bot := perform P w.bot i
    outstanding := w.outstanding + asked
    waiting }
  match i with
  | .request _ _ _ mask => { w' with waiting := waiting ++ [⟨mask, w.outstanding, lines⟩] }
  | .ban _ mask => { w' with listing := w.listing ++ [mask] }
  | .endOfBans _ =>
      { w' with
        outstanding := w.outstanding + asked - 1
        listing := []
        waiting := (waiting.filter fun x => x.ahead != 0).map fun x => { x with ahead := x.ahead - 1 }
        closed := w.closed ++ (waiting.filter fun x => x.ahead == 0).map fun x =>
          ⟨x.mask, w.listing, x.sent⟩ }
  | .expire => w'
  | .other _ => w'

end

/-- The bot is in the channel and opped. -/
def Opped (b : BotState) (name : Str) : Prop :=
  ((find b name).bind fun ci => b.chans[ci]?).any (fun c => c.status == .inside && c.iAmOpped) = true

section

variable (chan : Str)

/-- What happens while the bot is connected and opped: requests it accepts, lists of the server
that it was asked for, in order, and anything that leaves the walks alone. -/
def Legal (w : World) : Input → Prop
  | .request _ name _ mask =>
      eqIc name chan = true ∧ Opped w.bot name ∧ name ≠ [] ∧ name.length < maxChan ∧ mask ≠ [] ∧
        mask.length < maxMaskLen ∧ takesLine w.bot (listLine name) = true
  | .ban name mask =>
      0 < w.outstanding ∧ eqIc name chan = true ∧ Opped w.bot name ∧ mask ≠ [] ∧
        takesLine w.bot (removalLine name mask) = true
  | .endOfBans name => 0 < w.outstanding ∧ eqIc name chan = true
  | .expire => True
  | .other bot => bot.unbanJobs = w.bot.unbanJobs ∧ w.bot.ircOut <+: bot.ircOut

/-- A request has a walk of its own: none of the channel is going on, no list of it is on its way,
and there is a place in the table. And no walk of the channel takes too long. -/
def Alone (w : World) : Input → Prop
  | .request _ name _ _ =>
      unbanJobFind w.bot name = none ∧ (unbanExpire w.bot).unbanJobs.any (!·.active) = true ∧
        w.outstanding = 0
  | .ban .. => True
  | .endOfBans _ => True
  | .expire => ∀ j ∈ w.bot.unbanJobs, j.active = true → eqIc j.channel chan = true →
      w.bot.now - j.started ≤ unbanJobTtl
  | .other _ => True

/-- The first six bans of its list that match the requester were taken off. -/
def Served (c : Closed) : Prop :=
  ∀ mask ∈ (c.listing.filter (wildcardMatch · c.mask)).take 6,
    ∃ name, eqIc name chan = true ∧ queued (removalLine name mask) ∈ c.sent

/-- No walk of the channel is going on. -/
def NoWalk (jobs : List UnbanJob) : Prop :=
  ∀ j ∈ jobs, j.active = true → ¬ eqIc j.channel chan = true

/-- Runs in which each step meets a condition, from a state without a walk. -/
inductive Run (P : Primitives) (C : World → Input → Prop) : World → Prop
  | start (b : BotState) (n : Nat) (hidle : NoWalk chan b.unbanJobs) :
      Run P C { bot := b, outstanding := n }
  | step {w : World} {i : Input} (h : Run P C w) (hlegal : Legal chan w i) (hC : C w i) :
      Run P C (step P chan w i)

end

/-! ### What each input does -/

section

variable {b : BotState} {chan name mask : Str}

theorem ircPrintf_taken {line : Str} (h : takesLine b line = true) :
    ircPrintf b line = { b with ircOut := b.ircOut ++ [queued line] } := by
  unfold ircPrintf
  rw [if_pos h]
  rfl

/-- The bot asks for the list of the channel, whatever case it spells it in. -/
theorem eqIc_listLine (h : eqIc name chan = true) :
    eqIc (queued (listLine chan)) (queued (listLine name)) = true := by
  rw [eqIc_iff] at h ⊢
  have hlen : name.length = chan.length := by
    have hmap := congrArg List.length h
    rwa [List.length_map, List.length_map] at hmap
  have hline : (listLine chan).map lower = (listLine name).map lower := by
    unfold listLine
    simp only [List.map_append, h]
  have hlen' : (listLine chan).length = (listLine name).length := by
    unfold listLine
    simp only [List.length_append, hlen]
  unfold queued
  rw [List.map_append, List.map_append, List.map_take, List.map_take, hline, hlen']

theorem noWalk_congr (h : eqIc name chan = true) {jobs : List UnbanJob} :
    NoWalk name jobs ↔ NoWalk chan jobs := by
  unfold NoWalk
  simp only [eqIc_iff] at h ⊢
  rw [h]

theorem unbanJobFind_none : unbanJobFind b name = none ↔ NoWalk name b.unbanJobs := by
  unfold unbanJobFind NoWalk
  rw [List.findIdx?_eq_none_iff]
  refine forall₂_congr fun j _ => ?_
  rw [Bool.and_eq_false_iff, Bool.not_eq_true]
  cases j.active with
  | false => exact iff_of_true (.inl rfl) Bool.noConfusion
  | true => exact ⟨fun h _ => h.resolve_left Bool.noConfusion, fun h => .inr (h rfl)⟩

/-- The walks that take too long are dropped, and the others stay. -/
theorem mem_unbanExpire {i : Nat} {j : UnbanJob} (h : (unbanExpire b).unbanJobs[i]? = some j)
    (hactive : j.active = true) : b.unbanJobs[i]? = some j := by
  unfold unbanExpire at h
  rw [List.getElem?_map] at h
  obtain ⟨j', hj', hmap⟩ := Option.map_eq_some_iff.mp h
  split at hmap
  · rw [← hmap] at hactive
    exact Bool.noConfusion hactive
  · rw [← hmap]
    exact hj'

theorem noWalk_unbanExpire (h : NoWalk chan b.unbanJobs) :
    NoWalk chan (unbanExpire b).unbanJobs := by
  intro j hj hactive
  obtain ⟨i, hi⟩ := List.mem_iff_getElem?.mp hj
  exact h j (List.mem_of_getElem? (mem_unbanExpire hi hactive)) hactive

/-- A request that is accepted is a walk to be started. -/
theorem accessService_unban (P : Primitives) (id : Str) (nick : Option Str) (hopped : Opped b name)
    (hname : name ≠ []) (hmask : mask ≠ []) :
    accessService P b id .unban name nick (some mask) none = (unbanJobStart b name mask).2 := by
  unfold Opped at hopped
  unfold accessService
  rw [if_neg (by rwa [List.isEmpty_iff])]
  cases hfind : (find b name).bind fun ci => b.chans[ci]? with
  | none =>
      rw [hfind] at hopped
      cases hopped
  | some c =>
      rw [hfind, Option.any_some, Bool.and_eq_true, beq_iff_eq] at hopped
      have hfilter : (some mask).filter (!·.isEmpty) = some mask := by
        rw [Option.filter_some, if_pos]
        rw [Bool.not_eq_true', List.isEmpty_eq_false_iff]
        exact hmask
      dsimp only
      rw [if_neg (not_not.mpr hopped.1), hfilter]
      dsimp only
      rw [hopped.2]
      rfl

/-- A walk that nothing is in the way of is started. -/
theorem unbanJobStart_alone (hnone : NoWalk name b.unbanJobs)
    (hfree : (unbanExpire b).unbanJobs.any (!·.active) = true)
    (hline : takesLine b (listLine name) = true) :
    ∃ slot j, (unbanExpire b).unbanJobs[slot]? = some j ∧ j.active = false ∧
      (unbanJobStart b name mask).2 = { unbanExpire b with
        unbanJobs := (unbanExpire b).unbanJobs.set slot
          { channel := trunc name maxChan, hostmask := trunc mask maxMaskLen
            started := b.now, removed := 0, active := true }
        ircOut := b.ircOut ++ [queued (listLine name)] } := by
  have hfind : unbanJobFind (unbanExpire b) name = none :=
    unbanJobFind_none.mpr (noWalk_unbanExpire hnone)
  unfold unbanJobStart
  dsimp only
  rw [hfind, if_neg (by decide)]
  cases hslot : (unbanExpire b).unbanJobs.findIdx? fun j => !j.active with
  | none =>
      obtain ⟨j, hj, hactive⟩ := List.any_eq_true.mp hfree
      have hoff := List.findIdx?_eq_none_iff.mp hslot j hj
      rw [hactive] at hoff
      cases hoff
  | some slot =>
      obtain ⟨hlt, hactive, -⟩ := List.findIdx?_eq_some_iff_getElem.mp hslot
      refine ⟨slot, _, List.getElem?_eq_getElem hlt, by simpa using hactive, ?_⟩
      dsimp only
      change ircPrintf _ (listLine name) = _
      refine (ircPrintf_taken ?_).trans rfl
      exact hline

/-- A ban of the list of the only walk. -/
theorem unbanNoteBan_walk {ji : Nat} {j : UnbanJob} (hfind : unbanJobFind b name = some ji)
    (hjob : b.unbanJobs[ji]? = some j) (hopped : Opped b name) (hmask : mask ≠ [])
    (hline : takesLine b (removalLine name mask) = true) :
    unbanNoteBan b name mask =
      if unbanMaxRemovals ≤ j.removed ∨ wildcardMatch mask j.hostmask = false then b
      else { b with
        ircOut := b.ircOut ++ [queued (removalLine name mask)]
        unbanJobs := b.unbanJobs.modify ji fun j => { j with removed := j.removed + 1 } } := by
  have hbind : ((unbanJobFind b name).bind fun ji => b.unbanJobs[ji]?.map fun j => (ji, j)) =
      some (ji, j) := by
    rw [hfind, Option.bind_some, hjob]
    rfl
  have hempty : ¬ mask.isEmpty = true := by rwa [List.isEmpty_iff]
  unfold unbanNoteBan
  rw [hbind]
  dsimp only
  rw [if_neg hempty]
  by_cases hskip : unbanMaxRemovals ≤ j.removed ∨ wildcardMatch mask j.hostmask = false
  · rw [if_pos hskip, if_pos]
    rwa [Bool.or_eq_true, decide_eq_true_eq, Bool.not_eq_true']
  · have hin : ¬ (!((find b name).bind fun ci => b.chans[ci]?).any fun c =>
        c.status == .inside && c.iAmOpped) = true := by
      rw [Bool.not_eq_true', Bool.not_eq_false]
      exact hopped
    rw [if_neg hskip, if_neg, if_neg hin]
    · change ({ ircPrintf b (removalLine name mask) with
        unbanJobs := (ircPrintf b (removalLine name mask)).unbanJobs.modify ji _ } : BotState) = _
      rw [ircPrintf_taken hline]
    · rwa [Bool.or_eq_true, decide_eq_true_eq, Bool.not_eq_true']

theorem unbanNoteBan_none (h : unbanJobFind b name = none) : unbanNoteBan b name mask = b := by
  unfold unbanNoteBan
  rw [h]
  rfl

theorem unbanFinish_none (h : unbanJobFind b name = none) : unbanFinish b name = b := by
  unfold unbanFinish
  rw [h]

end

/-! ### The invariant -/

/-- One request waits, and its walk is the only one of the channel. -/
structure Walk (chan : Str) (w : World) (x : Watch) (ji : Nat) (j : UnbanJob) : Prop where
  waiting : w.waiting = [x]
  ahead : x.ahead = 0
  outstanding : 0 < w.outstanding
  job : w.bot.unbanJobs[ji]? = some j
  active : j.active = true
  channel : eqIc j.channel chan = true
  hostmask : j.hostmask = x.mask
  only : ∀ i j', w.bot.unbanJobs[i]? = some j' → j'.active = true →
    eqIc j'.channel chan = true → i = ji
  removed : j.removed = min 6 (w.listing.filter (wildcardMatch · x.mask)).length
  sent : Served chan ⟨x.mask, w.listing, x.sent⟩

/-- Requests whose list has ended were served, and no other waits than the one of the walk. -/
structure Inv (chan : Str) (w : World) : Prop where
  served : ∀ c ∈ w.closed, Served chan c
  listing : w.outstanding = 0 → w.listing = []
  walk : (w.waiting = [] ∧ NoWalk chan w.bot.unbanJobs) ∨ ∃ x ji j, Walk chan w x ji j

section

variable {P : Primitives} {chan name : Str} {w : World} {x : Watch} {ji : Nat} {j : UnbanJob}

theorem Served.more {mask : Str} {listing sent : List Str} (h : Served chan ⟨mask, listing, sent⟩)
    (lines : List Str) : Served chan ⟨mask, listing, sent ++ lines⟩ := by
  intro m hm
  obtain ⟨name, hname, hsent⟩ := h m hm
  exact ⟨name, hname, List.mem_append_left lines hsent⟩

/-- The walk is found under each spelling of the channel. -/
theorem Walk.find (h : Walk chan w x ji j) (hname : eqIc name chan = true) :
    unbanJobFind w.bot name = some ji := by
  cases hfind : unbanJobFind w.bot name with
  | none =>
      have hnone := (noWalk_congr hname).mp (unbanJobFind_none.mp hfind)
      exact absurd h.channel (hnone j (List.mem_of_getElem? h.job) h.active)
  | some i =>
      obtain ⟨hlt, hp, -⟩ := List.findIdx?_eq_some_iff_getElem.mp hfind
      rw [Bool.and_eq_true, eqIc_iff] at hp
      rw [eqIc_iff] at hname
      rw [h.only i _ (List.getElem?_eq_getElem hlt) hp.1 (eqIc_iff.mpr (hp.2.trans hname))]

/-- Lines are queued, and nothing happens to the walk. -/
theorem Walk.frame (h : Walk chan w x ji j) {w' : World} {lines : List Str}
    (hwaiting : w'.waiting = w.waiting.map fun x => { x with sent := x.sent ++ lines })
    (hout : w.outstanding ≤ w'.outstanding) (hlisting : w'.listing = w.listing)
    (hjob : w'.bot.unbanJobs[ji]? = some j)
    (hjobs : ∀ (i : Nat) (j' : UnbanJob), w'.bot.unbanJobs[i]? = some j' → j'.active = true →
      w.bot.unbanJobs[i]? = some j') :
    Walk chan w' { x with sent := x.sent ++ lines } ji j where
  waiting := by rw [hwaiting, h.waiting, List.map_singleton]
  ahead := h.ahead
  outstanding := Nat.lt_of_lt_of_le h.outstanding hout
  job := hjob
  active := h.active
  channel := h.channel
  hostmask := h.hostmask
  only := fun i j' hi hactive hchannel => h.only i j' (hjobs i j' hi hactive) hactive hchannel
  removed := by rw [hlisting, h.removed]
  sent := by
    rw [hlisting]
    exact h.sent.more lines

/-- A ban that the walk passes over. -/
theorem Walk.pass (h : Walk chan w x ji j) {mask : Str}
    (hskip : unbanMaxRemovals ≤ j.removed ∨ wildcardMatch mask j.hostmask = false) :
    j.removed = min 6 ((w.listing ++ [mask]).filter (wildcardMatch · x.mask)).length ∧
      Served chan ⟨x.mask, w.listing ++ [mask], x.sent⟩ := by
  have hremoved := h.removed
  have hsix : unbanMaxRemovals = 6 := rfl
  rw [h.hostmask] at hskip
  unfold Served
  dsimp only
  rw [List.filter_append]
  by_cases hmatch : wildcardMatch mask x.mask = true
  · have hfull : 6 ≤ (w.listing.filter (wildcardMatch · x.mask)).length := by
      rcases hskip with hfull | hno
      · omega
      · rw [hmatch] at hno
        cases hno
    refine ⟨?_, fun m hm => h.sent m ?_⟩
    · rw [List.length_append]
      omega
    · rwa [List.take_append_of_le_length hfull] at hm
  · have hnone : [mask].filter (wildcardMatch · x.mask) = [] := by simp [hmatch]
    rw [hnone, List.append_nil]
    exact ⟨hremoved, h.sent⟩

/-- A ban that the walk takes off. -/
theorem Walk.takeOff (h : Walk chan w x ji j) {mask : Str} (hname : eqIc name chan = true)
    (hskip : ¬ (unbanMaxRemovals ≤ j.removed ∨ wildcardMatch mask j.hostmask = false)) :
    j.removed + 1 = min 6 ((w.listing ++ [mask]).filter (wildcardMatch · x.mask)).length ∧
      Served chan ⟨x.mask, w.listing ++ [mask], x.sent ++ [queued (removalLine name mask)]⟩ := by
  have hremoved := h.removed
  have hsix : unbanMaxRemovals = 6 := rfl
  rw [h.hostmask, not_or, Bool.not_eq_false] at hskip
  have hroom : (w.listing.filter (wildcardMatch · x.mask)).length < 6 := by omega
  have hone : [mask].filter (wildcardMatch · x.mask) = [mask] := by simp [hskip.2]
  unfold Served
  dsimp only
  rw [List.filter_append, hone]
  refine ⟨?_, fun m hm => ?_⟩
  · rw [List.length_append, List.length_singleton]
    omega
  · rcases List.mem_append.mp (List.mem_of_mem_take hm) with hold | hnew
    · have hall : m ∈ (w.listing.filter (wildcardMatch · x.mask)).take 6 := by
        rwa [List.take_of_length_le (Nat.le_of_lt hroom)]
      exact h.sent.more _ m hall
    · rw [List.mem_singleton.mp hnew]
      exact ⟨name, hname, List.mem_append_right _ (List.mem_singleton_self _)⟩

/-- One more ban of the list. -/
theorem Walk.ban (h : Walk chan w x ji j) {mask : Str} (hname : eqIc name chan = true)
    (hopped : Opped w.bot name) (hmask : mask ≠ [])
    (hline : takesLine w.bot (removalLine name mask) = true) :
    ∃ x' j', Walk chan (step P chan w (.ban name mask)) x' ji j' := by
  have hnote := unbanNoteBan_walk (h.find hname) h.job hopped hmask hline
  by_cases hskip : unbanMaxRemovals ≤ j.removed ∨ wildcardMatch mask j.hostmask = false
  · rw [if_pos hskip] at hnote
    obtain ⟨hremoved, hsent⟩ := h.pass hskip
    have hlines : newLines P w (.ban name mask) = [] := by
      change (unbanNoteBan w.bot name mask).ircOut.drop _ = []
      rw [hnote, List.drop_length]
    have hbot : (step P chan w (.ban name mask)).bot = w.bot := hnote
    refine ⟨x, j, ?_, h.ahead, Nat.lt_of_lt_of_le h.outstanding (Nat.le_add_right _ _),
      ?_, h.active,
      h.channel, h.hostmask, ?_, hremoved, hsent⟩
    · change w.waiting.map _ = _
      rw [h.waiting, hlines, List.map_singleton, List.append_nil]
    · rw [hbot, h.job]
    · rw [hbot]
      exact h.only
  · rw [if_neg hskip] at hnote
    obtain ⟨hremoved, hsent⟩ := h.takeOff hname hskip
    have hlines : newLines P w (.ban name mask) = [queued (removalLine name mask)] := by
      change (unbanNoteBan w.bot name mask).ircOut.drop _ = _
      rw [hnote, List.drop_left]
    have hjobs : (step P chan w (.ban name mask)).bot.unbanJobs =
        w.bot.unbanJobs.modify ji fun j => { j with removed := j.removed + 1 } :=
      congrArg BotState.unbanJobs hnote
    refine ⟨{ x with sent := x.sent ++ [queued (removalLine name mask)] },
      { j with removed := j.removed + 1 }, ?_, h.ahead,
      Nat.lt_of_lt_of_le h.outstanding (Nat.le_add_right _ _), ?_, h.active,
      h.channel, h.hostmask, ?_, hremoved, hsent⟩
    · change w.waiting.map _ = _
      rw [h.waiting, hlines, List.map_singleton]
    · rw [hjobs, List.getElem?_modify_eq, h.job]
      rfl
    · intro i j' hi hactive hchannel
      rw [hjobs, List.getElem?_modify] at hi
      obtain ⟨j₀, hj₀, hmap⟩ := Option.map_eq_some_iff.mp hi
      split at hmap
      · exact ‹ji = i›.symm
      · rw [← hmap] at hactive hchannel
        exact h.only i j₀ hj₀ hactive hchannel

/-- The end of the list is the end of the walk, and its request was served. -/
theorem Walk.finish (h : Walk chan w x ji j) (hname : eqIc name chan = true) :
    (step P chan w (.endOfBans name)).waiting = [] ∧
      NoWalk chan (step P chan w (.endOfBans name)).bot.unbanJobs ∧
      ∃ c, (step P chan w (.endOfBans name)).closed = w.closed ++ [c] ∧ Served chan c := by
  have hjobs : (step P chan w (.endOfBans name)).bot.unbanJobs =
      w.bot.unbanJobs.modify ji fun j => { j with active := false } := by
    change (unbanFinish w.bot name).unbanJobs = _
    unfold unbanFinish
    rw [h.find hname]
  refine ⟨?_, ?_, ⟨x.mask, w.listing, x.sent ++ newLines P w (.endOfBans name)⟩, ?_, h.sent.more _⟩
  · change List.map _ (List.filter _ (List.map _ w.waiting)) = []
    rw [h.waiting, List.map_singleton, List.filter_cons_of_neg, List.filter_nil, List.map_nil]
    rw [h.ahead]
    decide
  · rw [hjobs]
    intro j' hj' hactive hchannel
    obtain ⟨i, hi⟩ := List.mem_iff_getElem?.mp hj'
    rw [List.getElem?_modify] at hi
    obtain ⟨j₀, hj₀, hmap⟩ := Option.map_eq_some_iff.mp hi
    split at hmap
    · rw [← hmap] at hactive
      exact Bool.noConfusion hactive
    · rename_i hne
      rw [← hmap] at hactive hchannel
      exact hne (h.only i j₀ hj₀ hactive hchannel).symm
  · change w.closed ++ List.map _ (List.filter _ (List.map _ w.waiting)) = _
    rw [h.waiting, List.map_singleton, List.filter_cons_of_pos, List.filter_nil, List.map_singleton]
    rw [h.ahead]
    rfl

/-- A request that nothing is in the way of gets a walk. -/
theorem walk_request {id mask : Str} {nick : Option Str} (hwaiting : w.waiting = [])
    (hlisting : w.outstanding = 0 → w.listing = []) (hidle : NoWalk chan w.bot.unbanJobs)
    (hlegal : Legal chan w (.request id name nick mask))
    (halone : Alone chan w (.request id name nick mask)) :
    ∃ x ji j, Walk chan (step P chan w (.request id name nick mask)) x ji j := by
  obtain ⟨hname, hopped, hne, hlen, hmask, hfit, hline⟩ := hlegal
  obtain ⟨-, hfree, hout⟩ := halone
  obtain ⟨slot, j₀, hslot, hoff, hstart⟩ :=
    @unbanJobStart_alone _ _ mask ((noWalk_congr hname).mpr hidle) hfree hline
  have hbot : (step P chan w (.request id name nick mask)).bot = _ :=
    (accessService_unban P id nick hopped hne hmask).trans hstart
  rw [trunc_of_lt hlen, trunc_of_lt hfit] at hbot
  have hlines : newLines P w (.request id name nick mask) = [queued (listLine name)] := by
    change (step P chan w (.request id name nick mask)).bot.ircOut.drop _ = _
    rw [hbot, List.drop_left]
  have hlt : slot < (unbanExpire w.bot).unbanJobs.length := (List.getElem?_eq_some_iff.mp hslot).1
  have hasked : [queued (listLine name)].countP (eqIc (queued (listLine chan))) = 1 :=
    List.countP_eq_length.mpr fun l hl => by
      rw [List.mem_singleton.mp hl]
      exact eqIc_listLine hname
  refine ⟨⟨mask, 0, [queued (listLine name)]⟩, slot, ⟨name, mask, w.bot.now, 0, true⟩, ?_, rfl, ?_,
    ?_, rfl, hname, rfl, ?_, ?_, ?_⟩
  · change List.map _ w.waiting ++
      [Watch.mk mask w.outstanding (newLines P w (.request id name nick mask))] = _
    rw [hwaiting, hout, hlines]
    rfl
  · change 0 < w.outstanding + (newLines P w (.request id name nick mask)).countP _
    rw [hlines, hasked]
    exact Nat.succ_pos _
  · rw [hbot]
    exact List.getElem?_set_self hlt
  · intro i j' hi hactive hchannel
    rw [hbot] at hi
    dsimp only at hi
    rw [List.getElem?_set] at hi
    split at hi
    · exact ‹slot = i›.symm
    · exact absurd hchannel (noWalk_unbanExpire hidle j' (List.mem_of_getElem? hi) hactive)
  · change (0 : Int) = min 6 (w.listing.filter _).length
    rw [hlisting hout]
    rfl
  · change Served chan ⟨mask, w.listing, _⟩
    rw [hlisting hout]
    exact fun m hm => nomatch hm

/-- A walk that does not take too long is not dropped. -/
theorem Walk.expire (h : Walk chan w x ji j) (halone : Alone chan w .expire) :
    ∃ x', Walk chan (step P chan w .expire) x' ji j := by
  have hjob : (unbanExpire w.bot).unbanJobs[ji]? = some j := by
    have htime := halone j (List.mem_of_getElem? h.job) h.active h.channel
    unfold unbanExpire
    dsimp only
    rw [List.getElem?_map, h.job, Option.map_some, if_neg]
    rw [Bool.and_eq_true, decide_eq_true_eq]
    exact fun hlate => absurd hlate.2 (Int.not_lt.mpr htime)
  exact ⟨_, h.frame rfl (Nat.le_add_right _ _) rfl hjob fun i j' hi hactive => mem_unbanExpire hi hactive⟩

/-- **A step in which each request has a walk of its own keeps the invariant.** -/
theorem Inv.step (h : Inv chan w) {i : Input} (hlegal : Legal chan w i) (halone : Alone chan w i) :
    Inv chan (step P chan w i) := by
  have hfree (hout : w.outstanding + (newLines P w i).countP (eqIc (queued (listLine chan))) = 0) :
      w.listing = [] := h.listing (Nat.eq_zero_of_add_eq_zero_right hout)
  cases i with
  | request id name nick mask =>
      refine ⟨h.served, hfree, .inr ?_⟩
      rcases h.walk with ⟨hwaiting, hidle⟩ | ⟨x, ji, j, hwalk⟩
      · exact walk_request hwaiting h.listing hidle hlegal halone
      · obtain ⟨hnone, -, -⟩ := halone
        rw [hwalk.find hlegal.1] at hnone
        cases hnone
  | ban name mask =>
      obtain ⟨hout, hname, hopped, hmask, hline⟩ := hlegal
      refine ⟨h.served, fun hzero => ?_, ?_⟩
      · exact absurd (Nat.eq_zero_of_add_eq_zero_right hzero) (Nat.ne_of_gt hout)
      rcases h.walk with ⟨hwaiting, hidle⟩ | ⟨x, ji, j, hwalk⟩
      · have hnone := unbanJobFind_none.mpr ((noWalk_congr hname).mpr hidle)
        refine .inl ⟨?_, ?_⟩
        · exact List.map_eq_nil_iff.mpr hwaiting
        · change NoWalk chan (unbanNoteBan w.bot name mask).unbanJobs
          rwa [unbanNoteBan_none hnone]
      · obtain ⟨x', j', hwalk'⟩ := hwalk.ban (P := P) hname hopped hmask hline
        exact .inr ⟨x', ji, j', hwalk'⟩
  | endOfBans name =>
      obtain ⟨hout, hname⟩ := hlegal
      rcases h.walk with ⟨hwaiting, hidle⟩ | ⟨x, ji, j, hwalk⟩
      · have hnone := unbanJobFind_none.mpr ((noWalk_congr hname).mpr hidle)
        refine ⟨?_, fun _ => rfl, .inl ⟨?_, ?_⟩⟩
        · change ∀ c ∈ w.closed ++ List.map _ (List.filter _ (List.map _ w.waiting)), Served chan c
          rw [hwaiting, List.map_nil, List.filter_nil, List.map_nil, List.append_nil]
          exact h.served
        · change List.map _ (List.filter _ (List.map _ w.waiting)) = []
          rw [hwaiting]
          rfl
        · change NoWalk chan (unbanFinish w.bot name).unbanJobs
          rwa [unbanFinish_none hnone]
      · obtain ⟨hwaiting, hidle, c, hclosed, hserved⟩ := hwalk.finish (P := P) hname
        refine ⟨?_, fun _ => rfl, .inl ⟨hwaiting, hidle⟩⟩
        rw [hclosed]
        intro c' hc'
        rcases List.mem_append.mp hc' with hc' | hc'
        · exact h.served c' hc'
        · rw [List.mem_singleton.mp hc']
          exact hserved
  | expire =>
      refine ⟨h.served, hfree, ?_⟩
      rcases h.walk with ⟨hwaiting, hidle⟩ | ⟨x, ji, j, hwalk⟩
      · exact .inl ⟨List.map_eq_nil_iff.mpr hwaiting, noWalk_unbanExpire hidle⟩
      · obtain ⟨x', hwalk'⟩ := hwalk.expire (P := P) halone
        exact .inr ⟨x', ji, j, hwalk'⟩
  | other bot =>
      refine ⟨h.served, hfree, ?_⟩
      rcases h.walk with ⟨hwaiting, hidle⟩ | ⟨x, ji, j, hwalk⟩
      · refine .inl ⟨List.map_eq_nil_iff.mpr hwaiting, ?_⟩
        change NoWalk chan bot.unbanJobs
        rwa [hlegal.1]
      · refine .inr ⟨_, ji, j, hwalk.frame rfl (Nat.le_add_right _ _) rfl ?_ ?_⟩
        · change bot.unbanJobs[ji]? = some j
          rw [hlegal.1]
          exact hwalk.job
        · change ∀ (i : Nat) (j' : UnbanJob), bot.unbanJobs[i]? = some j' → _
          rw [hlegal.1]
          exact fun i j' hi _ => hi

theorem Run.inv (h : Run chan P (Alone chan) w) : Inv chan w := by
  induction h with
  | start b n hidle => exact ⟨fun _ hc => absurd hc List.not_mem_nil,
      fun _ => rfl, .inl ⟨rfl, hidle⟩⟩
  | step _ hlegal halone ih => exact ih.step hlegal halone

/-- **Where each request has a walk of its own, it is served**: in every run whose requests find no
walk of the channel and no list of it on its way, and whose lists come in time. -/
theorem walks_served (h : Run chan P (Alone chan) w) : ∀ c ∈ w.closed, Served chan c :=
  h.inv.served

end

/-! ### Two requesters -/

instance (b : BotState) (name : Str) : Decidable (Opped b name) :=
  inferInstanceAs (Decidable (_ = true))

instance (chan : Str) (w : World) : (i : Input) → Decidable (Legal chan w i)
  | .request .. => inferInstanceAs (Decidable (_ ∧ _ ∧ _ ∧ _ ∧ _ ∧ _ ∧ _))
  | .ban .. => inferInstanceAs (Decidable (_ ∧ _ ∧ _ ∧ _ ∧ _))
  | .endOfBans _ => inferInstanceAs (Decidable (_ ∧ _))
  | .expire => inferInstanceAs (Decidable True)
  | .other _ => inferInstanceAs (Decidable (_ ∧ _))

/-- A bot that is opped in a channel. -/
def opped : World where
  bot := { connected := true, chans := [{ name := str "#a", status := .inside, iAmOpped := true }] }
  outstanding := 0

def after (inputs : List Input) : World := inputs.foldl (step .clear (str "#a")) opped

theorem run_opped (C : World → Input → Prop) : Run (str "#a") .clear C opped :=
  .start _ 0 fun _ hj hactive => by
    rw [List.eq_of_mem_replicate hj] at hactive
    cases hactive

def request (mask : Str) : Input := .request (str "1") (str "#a") none mask

theorem walks_served_alone :
    let w := after [request (str "b!u@y"), .ban (str "#a") (str "*!*@y"), .endOfBans (str "#a")]
    w.closed.length = 1 ∧ ∀ c ∈ w.closed, Served (str "#a") c := by
  have hfirst := (run_opped (Alone (str "#a"))).step (i := request (str "b!u@y")) (by decide)
    ⟨by decide, by decide, rfl⟩
  have hsecond := hfirst.step (i := .ban (str "#a") (str "*!*@y")) (by decide) trivial
  exact ⟨by decide, walks_served (hsecond.step (i := .endOfBans (str "#a")) (by decide) trivial)⟩

/-- **A second requester within one list gets nothing**, though a later list has its ban. -/
theorem not_served : ¬ ∀ chan P w, Run chan P (fun _ _ => True) w →
    ∀ c ∈ w.closed, Served chan c := by
  intro h
  have hfirst := (run_opped fun _ _ => True).step (i := request (str "a!u@x")) (by decide) trivial
  have hsecond := hfirst.step (i := request (str "b!u@y")) (by decide) trivial
  have hthird := hsecond.step (i := .endOfBans (str "#a")) (by decide) trivial
  have hfourth := hthird.step (i := request (str "a!u@x")) (by decide) trivial
  have hfifth := hfourth.step (i := .ban (str "#a") (str "*!*@y")) (by decide) trivial
  have hsixth := hfifth.step (i := .endOfBans (str "#a")) (by decide) trivial
  have hclosed := h _ _ _ hsixth ⟨str "b!u@y", [str "*!*@y"],
    [queued (listLine (str "#a"))]⟩ (by decide)
  obtain ⟨name, hname, hsent⟩ := hclosed (str "*!*@y") (by decide)
  -- the only line queued meanwhile is too short
  have hlen : name.length = 2 := by
    have hmap := congrArg List.length (eqIc_iff.mp hname)
    rwa [List.length_map, List.length_map] at hmap
  have hline := congrArg List.length (List.mem_singleton.mp hsent)
  have hshort : (queued (listLine (str "#a"))).length = 12 := by decide
  have hlong : (queued (removalLine name (str "*!*@y"))).length = 18 := by
    obtain ⟨c, d, rfl⟩ := List.length_eq_two.mp hlen
    rfl
  omega

end IrcBot.UnbanWalks
