/-
# The chats live as they should (`dcc.rs`, `commands.rs`)

Slots, sockets and buffers are one way to have chats. Over every run they do what a chat is for: the
record of a run is a run of `DccLife`.

* `reach_good` — every run is a run of the chats without slots.
* `command_history` — what came before any command that a chat ran.
* `one_chat_each` — no admin has two chats.
* `calls_rightful` — every command that was handed on came from someone who may give it.
* `slots_tidy` — what is in a slot, at each phase.
-/
import IrcBot.DccMoves

namespace IrcBot.DccChats

open Cstr Dcc DccAddr DccLife Commands Lib.Sessions

open Relation (ReflTransGen)

/-! ### The stage of a slot -/

def stageOf (c : Chat) : Option Stage :=
  match c.phase with
  | .free => none
  | .offered => some (.offered (ownerOf c))
  | .connecting => some (.dialling (ownerOf c))
  | .opened => some (.talking (ownerOf c))

/-- Which chat is in a slot, and how far it is. -/
def lifeOf (c : Chat) : Option (Stage × Nat) := (stageOf c).map fun s => (s, c.no)

theorem stageOf_eq_none {c : Chat} : stageOf c = none ↔ c.phase = .free := by
  unfold stageOf
  cases c.phase <;> simp

theorem lifeOf_eq_none {c : Chat} : lifeOf c = none ↔ c.phase = .free := by
  rw [lifeOf, Option.map_eq_none_iff, stageOf_eq_none]

theorem owner_of_lifeOf {c : Chat} {s : Stage} {n : Nat} (h : lifeOf c = some (s, n)) :
    s.owner = ownerOf c ∧ c.no = n := by
  obtain ⟨s', hs, heq⟩ := Option.map_eq_some_iff.mp h
  cases heq
  refine ⟨?_, rfl⟩
  unfold stageOf at hs
  split at hs
  · cases hs
  · cases hs
    rfl
  · cases hs
    rfl
  · cases hs
    rfl

theorem chatOf_written {s s' : DccSession} (h : Written s s') : chatOf s' = chatOf s := by
  induction h with
  | refl => rfl
  | tail _ hlast ih =>
      obtain ⟨text, rfl⟩ | rfl := hlast
      · exact (queue_same _ text).trans ih
      · exact (flush_same _).trans ih

/-- Writing to a chat does not change it. -/
theorem lifeOf_session {c : Chat} {s : DccSession} (h : chatOf s = chatOf c.toDccSession) :
    lifeOf { c with toDccSession := s } = lifeOf c := by
  obtain ⟨hphase, hrest⟩ := Prod.ext_iff.mp h
  obtain ⟨htoken, hnick⟩ := Prod.ext_iff.mp hrest
  change s.phase = c.phase at hphase
  change s.dccToken = c.dccToken at htoken
  change s.nick = c.nick at hnick
  unfold lifeOf stageOf ownerOf
  dsimp only
  rw [hphase, htoken, hnick]

/-! ### Worlds that show a run -/

/-- The slots hold the chats that go on. -/
structure Shows (w : World) (d : Desk Stage) : Prop where
  count : d.count = w.offers
  live : ∀ n s, d.live n = some s ↔ ∃ i, lifeOf (w.chat i) = some (s, n)
  one : ∀ i j s t n, lifeOf (w.chat i) = some (s, n) → lifeOf (w.chat j) = some (t, n) → i = j

/-- The record of `w` is a run, and the slots show where it has come to. -/
def Good (w : World) : Prop := ∃ d, life.Run d w.trace ∧ Shows w d

section

variable {w w' : World}

theorem Good.same (hw : Good w) (htrace : w'.trace = w.trace) (hoffers : w'.offers = w.offers)
    (hlife : ∀ i, lifeOf (w'.chat i) = lifeOf (w.chat i)) : Good w' := by
  obtain ⟨d, hrun, hshows⟩ := hw
  refine ⟨d, htrace ▸ hrun, ⟨hshows.count.trans hoffers.symm, fun n s => ?_, ?_⟩⟩
  · simp only [hlife]
    exact hshows.live n s
  · intro i j s t n hi hj
    rw [hlife] at hi hj
    exact hshows.one i j s t n hi hj

/-- One act of the chat in a slot. -/
theorem Good.act (hw : Good w) {i n : Nat} {s : Stage} {a : DccLife.Act} {r : Option Stage}
    (hi : lifeOf (w.chat i) = some (s, n)) (hnext : DccLife.next s a = some r)
    (htrace : w'.trace = w.trace ++ [(n, a)]) (hoffers : w'.offers = w.offers)
    (hself : lifeOf (w'.chat i) = r.map fun t => (t, n))
    (hother : ∀ j, j ≠ i → lifeOf (w'.chat j) = lifeOf (w.chat j)) : Good w' := by
  obtain ⟨d, hrun, hshows⟩ := hw
  have hlive := (hshows.live n s).mpr ⟨i, hi⟩
  refine ⟨⟨Function.update d.live n r, d.count⟩, htrace ▸ hrun.act hlive hnext,
    ⟨hshows.count.trans hoffers.symm, fun m t => ?_, ?_⟩⟩
  · dsimp only
    by_cases hm : m = n
    · subst hm
      rw [Function.update_self]
      constructor
      · rintro rfl
        exact ⟨i, hself⟩
      · rintro ⟨j, hj⟩
        by_cases hji : j = i
        · subst hji
          rw [hself] at hj
          obtain ⟨t', rfl, ht'⟩ := Option.map_eq_some_iff.mp hj
          cases ht'
          rfl
        · rw [hother j hji] at hj
          exact absurd (hshows.one j i t s m hj hi) hji
    · rw [Function.update_of_ne hm, hshows.live m t]
      constructor
      · rintro ⟨j, hj⟩
        have hji : j ≠ i := by
          rintro rfl
          rw [hi] at hj
          cases hj
          exact hm rfl
        exact ⟨j, (hother j hji).trans hj⟩
      · rintro ⟨j, hj⟩
        by_cases hji : j = i
        · subst hji
          rw [hself] at hj
          obtain ⟨t', -, ht'⟩ := Option.map_eq_some_iff.mp hj
          cases ht'
          exact absurd rfl hm
        · exact ⟨j, (hother j hji).symm.trans hj⟩
  · -- a slot that shows a chat now showed it before
    have hback : ∀ j t m, lifeOf (w'.chat j) = some (t, m) →
      ∃ t', lifeOf (w.chat j) = some (t', m) := by
      intro j t m hj
      by_cases hji : j = i
      · subst hji
        rw [hself] at hj
        obtain ⟨t', -, ht'⟩ := Option.map_eq_some_iff.mp hj
        cases ht'
        exact ⟨s, hi⟩
      · exact ⟨t, (hother j hji).symm.trans hj⟩
    intro j k t u m hj hk
    obtain ⟨t', hj'⟩ := hback j t m hj
    obtain ⟨u', hk'⟩ := hback k u m hk
    exact hshows.one j k t' u' m hj' hk'

/-- A new chat in a free slot. -/
theorem Good.start (hw : Good w) {i : Nat} {s : Stage} {a : DccLife.Act}
    (hfree : lifeOf (w.chat i) = none) (hstart : DccLife.start a = some s)
    (hkey : ∀ j t m, lifeOf (w.chat j) = some (t, m) → t.owner.uuid ≠ s.owner.uuid)
    (htrace : w'.trace = w.trace ++ [(w.offers, a)]) (hoffers : w'.offers = w.offers + 1)
    (hself : lifeOf (w'.chat i) = some (s, w.offers))
    (hother : ∀ j, j ≠ i → lifeOf (w'.chat j) = lifeOf (w.chat j)) : Good w' := by
  obtain ⟨d, hrun, hshows⟩ := hw
  have hnew : ∀ n t, d.live n = some t → life.key t ≠ life.key s := by
    intro n t ht
    obtain ⟨j, hj⟩ := (hshows.live n t).mp ht
    exact hkey j t n hj
  have hlt : ∀ j t m, lifeOf (w.chat j) = some (t, m) → m < w.offers := by
    intro j t m hj
    rw [← hshows.count]
    exact hrun.lt_count ((hshows.live m t).mpr ⟨j, hj⟩)
  have hslot : ∀ j t m, lifeOf (w'.chat j) = some (t, m) →
      (j = i ∧ t = s ∧ m = w.offers) ∨ (j ≠ i ∧ lifeOf (w.chat j) = some (t, m)) := by
    intro j t m hj
    by_cases hji : j = i
    · subst hji
      rw [hself] at hj
      cases hj
      exact .inl ⟨rfl, rfl, rfl⟩
    · exact .inr ⟨hji, (hother j hji).symm.trans hj⟩
  have hrun' := hrun.start hstart hnew
  rw [hshows.count] at hrun'
  refine ⟨_, htrace ▸ hrun', ⟨hoffers.symm, fun m t => ?_, ?_⟩⟩
  · dsimp only
    by_cases hm : m = w.offers
    · subst hm
      rw [Function.update_self]
      constructor
      · rintro ⟨⟩
        exact ⟨i, hself⟩
      · rintro ⟨j, hj⟩
        rcases hslot j t _ hj with ⟨-, rfl, -⟩ | ⟨-, hj⟩
        · rfl
        · exact absurd (hlt j t _ hj) (Nat.lt_irrefl _)
    · rw [Function.update_of_ne hm, hshows.live m t]
      constructor
      · rintro ⟨j, hj⟩
        have hji : j ≠ i := by
          rintro rfl
          rw [hfree] at hj
          cases hj
        exact ⟨j, (hother j hji).trans hj⟩
      · rintro ⟨j, hj⟩
        rcases hslot j t m hj with ⟨-, -, rfl⟩ | ⟨-, hj⟩
        · exact absurd rfl hm
        · exact ⟨j, hj⟩
  · intro j k t u m hj hk
    rcases hslot j t m hj with ⟨rfl, -, rfl⟩ | ⟨-, hj⟩
    · rcases hslot k u _ hk with ⟨rfl, -, -⟩ | ⟨-, hk⟩
      · rfl
      · exact absurd (hlt k u _ hk) (Nat.lt_irrefl _)
    · rcases hslot k u m hk with ⟨rfl, -, rfl⟩ | ⟨-, hk⟩
      · exact absurd (hlt j t _ hj) (Nat.lt_irrefl _)
      · exact hshows.one j k t u m hj hk

theorem chat_start (o : Outside) (i : Nat) : World.chat { toOutside := o } i = {} := by
  rw [World.chat, List.getD_eq_getElem?_getD]
  by_cases hi : i < dccMaxSessions
  · simp [hi]
  · simp [hi]

theorem good_start (o : Outside) : Good { toOutside := o } := by
  have hnone : ∀ i, lifeOf (World.chat { toOutside := o } i) = none := fun i => by
    rw [chat_start]
    rfl
  refine ⟨_, .empty, ⟨rfl, fun n s => ?_, ?_⟩⟩
  · constructor
    · intro hn
      cases hn
    · rintro ⟨i, hi⟩
      rw [hnone] at hi
      cases hi
  · intro i j s t n hi hj
    rw [hnone] at hi
    cases hi

theorem lifeOf_ne_none {i : Nat} (h : (w.chat i).phase ≠ .free) :
    ∃ s, lifeOf (w.chat i) = some (s, (w.chat i).no) := by
  cases hlife : lifeOf (w.chat i) with
  | none => exact absurd (lifeOf_eq_none.mp hlife) h
  | some x => exact ⟨x.1, by rw [(owner_of_lifeOf (s := x.1) (n := x.2) hlife).2]⟩

/-! ### Steps -/

theorem Good.free (hw : Good w) (i : Nat) : Good (w.free i) := by
  have hother : ∀ j, j ≠ i → lifeOf ((w.free i).chat j) = lifeOf (w.chat j) := fun j hj => by
    rw [chat_free_ne hj]
  have hself : lifeOf ((w.free i).chat i) = none := by
    rw [chat_free_self]
    rfl
  by_cases hfree : (w.chat i).phase = .free
  · have hsame : ∀ j, lifeOf ((w.free i).chat j) = lifeOf (w.chat j) := by
      intro j
      by_cases hj : j = i
      · subst hj
        rw [hself, lifeOf_eq_none.mpr hfree]
      · exact hother j hj
    refine hw.same ?_ ?_ hsame
    · rw [World.free, if_pos hfree]
    · rw [World.free, if_pos hfree]
  · obtain ⟨s, hs⟩ := lifeOf_ne_none hfree
    refine hw.act hs (a := .closed) (r := none) ?_ ?_ ?_ hself hother
    · cases s <;> rfl
    · rw [World.free, if_neg hfree]
      rfl
    · rw [World.free, if_neg hfree]
      rfl

theorem Good.move (hw : Good w) (h : Move w w') : Good w' := by
  cases h with
  | aside hdcc htrace hoffers hcalls =>
      exact hw.same htrace hoffers fun i => by rw [World.chat, hdcc, World.chat]
  | written hlen htrace hoffers hcalls hchat =>
      refine hw.same htrace hoffers fun i => ?_
      obtain ⟨s, hs, heq⟩ := hchat i
      rw [heq, lifeOf_session (chatOf_written hs)]
  | noted hphase hf =>
      refine hw.same rfl rfl (modify_keeps fun c => ?_)
      rw [hf]
      rfl
  | freed i => exact hw.free i
  | @offered i hlt hfree u htyp hactive hclear nick botnick userHost dccToken =>
      have hself := chat_modify_self hlt fun s => { s with
        phase := .offered, sock := none, dccToken, phaseSince := w.bot.now
        nick, botnick, userHost, uuid := u.uuid, name := u.name, no := w.offers }
      have hno := congrArg Chat.no hself
      refine hw.start (i := i) (a := .offered u ⟨u.uuid, userHost, nick, botnick, dccToken⟩)
        (lifeOf_eq_none.mpr hfree) (if_pos ⟨htyp, hactive, rfl⟩) ?_ ?_ rfl ?_ ?_
      · intro j t m hj
        rw [(owner_of_lifeOf hj).1]
        refine (hclear j).resolve_left fun hfree => ?_
        rw [lifeOf_eq_none.mpr hfree] at hj
        cases hj
      · exact congrArg (fun n => w.trace ++
          [(n, DccLife.Act.offered u ⟨u.uuid, userHost, nick, botnick, dccToken⟩)]) hno
      · exact congrArg lifeOf hself
      · intro j hj
        exact congrArg lifeOf (chat_modify_ne hj _)
  | @dialled i hphase sender sa hdial sock token =>
      have hlt : i < w.dcc.length :=
        lt_length_of_phase (by rw [hphase]; exact DccPhase.noConfusion)
      have hlife : lifeOf (w.chat i) = some (.offered (ownerOf (w.chat i)), (w.chat i).no) := by
        rw [lifeOf, stageOf, hphase]
        rfl
      refine hw.act (i := i) (a := .dialled sender sa)
        (r := some (.dialling (ownerOf (w.chat i)))) hlife (if_pos hdial) rfl rfl ?_ ?_
      · exact congrArg lifeOf (chat_modify_self (w := w.note i (.dialled sender sa)) hlt _)
      · intro j hj
        exact congrArg lifeOf (chat_modify_ne (w := w.note i (.dialled sender sa)) hj _)
  | @opened i hphase =>
      have hlt : i < w.dcc.length :=
        lt_length_of_phase (by rw [hphase]; exact DccPhase.noConfusion)
      have hlife : lifeOf (w.chat i) = some (.dialling (ownerOf (w.chat i)), (w.chat i).no) := by
        rw [lifeOf, stageOf, hphase]
        rfl
      have hself := chat_modify_self hlt fun s => { s with
        phase := .opened, phaseSince := w.bot.now, lastActive := w.bot.now }
      have hno := congrArg Chat.no hself
      refine hw.act (i := i) (a := .opened) (r := some (.talking (ownerOf (w.chat i)))) hlife rfl
        ?_ rfl (congrArg lifeOf hself) ?_
      · exact congrArg (fun n => w.trace ++ [(n, DccLife.Act.opened)]) hno
      · intro j hj
        exact congrArg lifeOf (chat_modify_ne hj _)
  | @ran i hphase u hadmin cmd =>
      have hlife : lifeOf (w.chat i) = some (.talking (ownerOf (w.chat i)), (w.chat i).no) := by
        rw [lifeOf, stageOf, hphase]
        rfl
      exact hw.act (i := i) (a := .ran u cmd) (r := some (.talking (ownerOf (w.chat i)))) hlife
        (if_pos hadmin) rfl rfl hlife fun _ _ => rfl
  | handed hrightful => exact hw.same rfl rfl fun _ => rfl

theorem Good.step (hw : Good w) (h : Step w w') : Good w' := by
  cases h with
  | move hmove => exact hw.move hmove
  | typed hphase hf htyped =>
      refine hw.same rfl rfl (modify_keeps fun c => ?_)
      rw [hf]
      rfl

variable (P : Primitives) (h : Handler)

/-- **Every run is a run of the chats without slots**, and the slots show where each chat is. -/
theorem reach_good (hw : Reach P h w) : Good w := hw.induct P h good_start fun _ _ => Good.step

/-! ### What a run has shown -/

/-- **What came before a command that a chat ran**: the bot's offer to an admin, a reply from the
same nick!user@host with an address that is allowed, the line, and commands of that admin only;
nothing had ended the chat. -/
theorem command_history (hw : Reach P h w) {pre post : List (Nat × DccLife.Act)} {n : Nat}
    {u : UserRecord} {cmd : Str} (htrace : w.trace = pre ++ (n, .ran u cmd) :: post) :
    ∃ o, Admin u o ∧ Before (.talking o) (actsOf n pre) := by
  obtain ⟨d, hrun, -⟩ := reach_good P h hw
  exact before_ran hrun htrace

/-- An admin, whose key is all zeros in base64. -/
def alice : UserRecord :=
  { uuid := str "u", name := str "alice", typ := byte 'a', isActive := true, hasPubkey := true
    pubkeyB64 := List.replicate 86 (byte 'A') ++ str "==" }

/-- The bot of one admin, connected from 1.2.3.4. -/
def aliceBot : Outside where
  bot := {
    now := 100
    currentNick := str "Bot"
    selfPub := List.replicate 64 7
    selfPubSet := true
    hubKeyRaw := List.replicate 64 7
    userRecords := [alice]
    maskRecords := [{ uuid := str "u", mask := str "*!*@a.net", isActive := true }] }
  localAddr := some (.v4 ⟨1, 2, 3, 4⟩)

/-- A sealed command, where nothing is encrypted. -/
def clearLine (nonce cmd : Str) : Str :=
  let pt := str "100:" ++ nonce ++ str ":" ++ cmd
  str "~A2 " ++ List.replicate 44 (byte 'A') ++ pt ++ List.replicate 16 (byte 'A')

/-- Alice asks for a chat, her client answers, the line opens and she runs a command. -/
def aliceEvents : List Event := [
  .message (str "alice") (str "alice!a@a.net") (str "Bot")
    (clearLine (str "00000000000000f1") (str "dcc")) (some 5),
  .ctcp (str "alice!a@a.net") (str "DCC CHAT chat 1.1.1.1 5000 5") (.started []),
  .poll 0 18 false true .done [],
  .poll 0 18 true false .done [.data (clearLine (str "00000000000000f2") (str "status") ++ [10])]]

def aliceWorld : World :=
  aliceEvents.foldl (World.step .clear fun _ _ => []) { toOutside := aliceBot }

theorem reach_aliceWorld : Reach .clear (fun _ _ => []) aliceWorld :=
  Reach.events _ _ (.start aliceBot) aliceEvents

/-- Her command was the fourth act of her chat. -/
theorem command_history_alice : ∃ o, Admin { alice with lastSeen := 100 } o ∧
    Before (.talking o) (actsOf 0 (aliceWorld.trace.take 3)) := by
  have hlast : aliceWorld.trace.drop 3 =
      [(0, .ran { alice with lastSeen := 100 } (str "status"))] := by decide +kernel
  have htrace : aliceWorld.trace =
      aliceWorld.trace.take 3 ++ (0, .ran { alice with lastSeen := 100 } (str "status")) :: [] := by
    rw [← hlast, List.take_append_drop]
  exact command_history .clear (fun _ _ => []) reach_aliceWorld htrace

theorem eq_of_uuid (hw : Reach P h w) {i j : Nat} (hi : (w.chat i).phase ≠ .free)
    (hj : (w.chat j).phase ≠ .free) (huuid : (w.chat i).uuid = (w.chat j).uuid) : i = j := by
  obtain ⟨d, hrun, hshows⟩ := reach_good P h hw
  obtain ⟨s, hs⟩ := lifeOf_ne_none hi
  obtain ⟨t, ht⟩ := lifeOf_ne_none hj
  have hkey : life.key s = life.key t := by
    change s.owner.uuid = t.owner.uuid
    rw [(owner_of_lifeOf hs).1, (owner_of_lifeOf ht).1]
    exact huuid
  have hno := hrun.exclusive ((hshows.live _ s).mpr ⟨i, hs⟩) ((hshows.live _ t).mpr ⟨j, ht⟩) hkey
  rw [← hno] at ht
  exact hshows.one i j s t _ hs ht

/-- **No admin has two chats.** -/
theorem one_chat_each (hw : Reach P h w) :
    ((w.dcc.filter fun c => c.phase ≠ .free).map (·.uuid)).Nodup := by
  refine List.pairwise_map.mpr (List.pairwise_filter.mpr ?_)
  refine List.pairwise_iff_getElem.mpr fun i j hi hj hij hci hcj huuid => ?_
  have hget : ∀ k (hk : k < w.dcc.length), w.chat k = w.dcc[k] := by
    intro k hk
    rw [World.chat, List.getD_eq_getElem?_getD, List.getElem?_eq_getElem hk]
    rfl
  rw [← hget i hi] at hci huuid
  rw [← hget j hj] at hcj huuid
  have heq := eq_of_uuid P h hw (of_decide_eq_true hci) (of_decide_eq_true hcj) huuid
  omega

theorem reach_good_alice : Good aliceWorld := reach_good .clear (fun _ _ => []) reach_aliceWorld

theorem one_chat_each_alice :
    ((aliceWorld.dcc.filter fun c => c.phase ≠ .free).map (·.uuid)).Nodup :=
  one_chat_each .clear (fun _ _ => []) reach_aliceWorld

/-- **Every command that was handed on** came from an active user with a matching mask, who may give
commands, as an admin or as an operator; no `|` was in it, and while commands that change what the
network shares are left to the hub, no admin's is one. -/
theorem calls_rightful (hw : Reach P h w) : ∀ p ∈ w.calls, Rightful p.1 p.2 := by
  refine hw.induct P h (I := fun w => ∀ p ∈ w.calls, Rightful p.1 p.2) ?_ fun w w' hw hstep => ?_
  · exact fun o p hp => absurd hp List.not_mem_nil
  · have hsame : w'.calls = w.calls → ∀ p ∈ w'.calls, Rightful p.1 p.2 := fun hcalls => hcalls ▸ hw
    cases hstep with
    | typed hphase hf htyped => exact hw
    | move hmove =>
        cases hmove with
        | aside hdcc htrace hoffers hcalls => exact hsame hcalls
        | written hlen htrace hoffers hcalls hchat => exact hsame hcalls
        | noted hphase hf => exact hw
        | freed i =>
            refine hsame ?_
            unfold World.free
            split
            · rfl
            · rfl
        | offered hlt hfree htyp hactive hclear nick botnick userHost dccToken => exact hw
        | dialled hphase hdial sock token => exact hw
        | opened hphase => exact hw
        | ran hphase hadmin cmd => exact hw
        | handed hrightful =>
            intro p hp
            rcases List.mem_append.mp hp with hp | hp
            · exact hw p hp
            · obtain rfl := List.mem_singleton.mp hp
              exact hrightful

theorem calls_rightful_alice : aliceWorld.calls.map (fun p => p.2.command) = [str "status"] ∧
    ∀ p ∈ aliceWorld.calls, Rightful p.1 p.2 :=
  ⟨by decide +kernel, calls_rightful .clear (fun _ _ => []) reach_aliceWorld⟩

/-! ### What is in a slot -/

/-- A slot at its phase: one that is free has nothing of an earlier chat; a socket is there from the
dial on; nothing is read or queued before the line is open, and never more than the limits. -/
structure Tidy (c : Chat) : Prop where
  blank : c.phase = .free → c = {}
  unplugged : c.phase = .offered → c.sock = none ∧ c.token = none
  plugged : c.phase = .connecting ∨ c.phase = .opened → c.sock.isSome = true ∧ c.token.isSome = true
  early : c.phase ≠ .opened → c.inbuf = [] ∧ c.outbuf = []
  typed : Typed c.inbuf
  outbuf : c.outbuf.length ≤ dccOutbufMax

/-- What writing keeps. -/
structure Kept (s s' : DccSession) : Prop where
  chat : chatOf s' = chatOf s
  sock : s'.sock.isSome = s.sock.isSome
  outbuf : s.outbuf.length ≤ dccOutbufMax → s'.outbuf.length ≤ dccOutbufMax
  early : s.phase ≠ .opened → s.outbuf = [] → s'.outbuf = []
  blank : s = {} → s' = {}

theorem length_netFlush (ws : List Write) (buf : Str) :
    (netFlush ws buf).2.1.length ≤ buf.length := by
  induction ws generalizing buf with
  | nil =>
      cases buf with
      | nil => exact Nat.le_refl _
      | cons c buf => exact Nat.le_refl _
  | cons x ws ih =>
      cases buf with
      | nil => simp [netFlush]
      | cons c buf =>
          cases x with
          | wouldBlock => exact Nat.le_refl _
          | failed => exact Nat.le_refl _
          | took n =>
              unfold netFlush
              split
              · exact Nat.le_refl _
              · exact (ih _).trans (by rw [List.length_drop]; omega)

theorem kept_flush (s : DccSession) : Kept s (flush s) := by
  unfold flush
  split
  · exact ⟨rfl, rfl, id, fun _ => id, id⟩
  · rename_i ws hsock
    have hlen := length_netFlush ws s.outbuf
    refine ⟨rfl, by rw [hsock]; rfl, fun h => hlen.trans h, fun _ hnil => ?_, ?_⟩
    · rw [hnil] at hlen ⊢
      exact List.eq_nil_of_length_eq_zero (Nat.le_zero.mp hlen)
    · rintro rfl
      cases hsock

theorem kept_queue (s : DccSession) (text : Str) : Kept s (queue s text) := by
  unfold queue
  split
  · exact ⟨rfl, rfl, id, fun _ => id, id⟩
  · rename_i hopen
    have hphase : s.phase = .opened := not_not.mp fun hne => hopen (.inl hne)
    have hblank : s ≠ {} := by
      rintro rfl
      cases hphase
    split
    · exact ⟨rfl, rfl, id, fun hne => absurd hphase hne, fun h => absurd h hblank⟩
    · rename_i hfits
      obtain ⟨hchat, hsock, houtbuf, -, -⟩ :=
        kept_flush { s with outbuf := s.outbuf ++ text ++ str "\n" }
      refine ⟨hchat, hsock, fun _ => houtbuf ?_, fun hne => absurd hphase hne,
        fun h => absurd h hblank⟩
      simp only [List.length_append]
      exact Nat.le_of_not_lt hfits

theorem kept_written {s s' : DccSession} (h : Written s s') : Kept s s' := by
  induction h with
  | refl => exact ⟨rfl, rfl, id, fun _ => id, id⟩
  | @tail t u _ hlast ih =>
      have hkept : Kept t u := by
        obtain ⟨text, rfl⟩ | rfl := hlast
        · exact kept_queue t text
        · exact kept_flush t
      have hphase : t.phase = s.phase := congrArg Prod.fst ih.chat
      refine ⟨hkept.chat.trans ih.chat, hkept.sock.trans ih.sock,
        fun h => hkept.outbuf (ih.outbuf h),
        fun hne hnil => hkept.early (hphase.symm ▸ hne) (ih.early hne hnil),
          fun h => hkept.blank (ih.blank h)⟩

theorem tidy_blank : Tidy {} :=
  ⟨fun _ => rfl, fun h => DccPhase.noConfusion h,
    fun h => by simp at h, fun _ => ⟨rfl, rfl⟩, typed_nil,
    Nat.zero_le _⟩

theorem Tidy.written {c : Chat} (hc : Tidy c) {s : DccSession} (h : Kept c.toDccSession s) :
    Tidy { c with toDccSession := s } := by
  have hphase : s.phase = c.phase := congrArg Prod.fst h.chat
  constructor
  · intro hfree
    have hblank := hc.blank (hphase.symm.trans hfree)
    have hs := h.blank (by rw [hblank])
    rw [hblank, hs]
  · intro hoffered
    obtain ⟨hsock, htoken⟩ := hc.unplugged (hphase.symm.trans hoffered)
    have hsame := h.sock
    rw [hsock] at hsame
    exact ⟨Option.isSome_eq_false_iff.mp hsame |> Option.isNone_iff_eq_none.mp, htoken⟩
  · intro hplugged
    change s.phase = .connecting ∨ s.phase = .opened at hplugged
    rw [hphase] at hplugged
    exact ⟨h.sock.trans (hc.plugged hplugged).1, (hc.plugged hplugged).2⟩
  · intro hne
    change s.phase ≠ .opened at hne
    rw [hphase] at hne
    exact ⟨(hc.early hne).1, h.early hne (hc.early hne).2⟩
  · exact hc.typed
  · exact h.outbuf hc.outbuf

/-- A change of one slot. -/
theorem all_modify {I : Chat → Prop} {i : Nat} {f : Chat → Chat} (hw : ∀ j, I (w.chat j))
    (hf : I (w.chat i) → I (f (w.chat i))) (j : Nat) : I ((w.modifyChat i f).chat j) := by
  by_cases hj : j = i
  · subst hj
    by_cases hlt : j < w.dcc.length
    · rw [chat_modify_self hlt]
      exact hf (hw j)
    · have hle : w.dcc.length ≤ j := Nat.le_of_not_lt hlt
      rw [chat_of_le (by rwa [length_modifyChat]), ← chat_of_le hle]
      exact hw j
  · rw [chat_modify_ne hj]
    exact hw j

theorem tidy_step (hw : ∀ i, Tidy (w.chat i)) (hstep : Step w w') : ∀ i, Tidy (w'.chat i) := by
  cases hstep with
  | @typed i hphase f hf htyped =>
      refine all_modify hw fun hc => ?_
      have hnew := htyped hc.typed
      rw [hf] at hnew ⊢
      exact ⟨fun hfree => absurd (hphase.symm.trans hfree) DccPhase.noConfusion,
        fun hoff => absurd (hphase.symm.trans hoff) DccPhase.noConfusion, hc.plugged,
        fun hne => absurd hphase hne, hnew, hc.outbuf⟩
  | move hmove =>
      cases hmove with
      | aside hdcc htrace hoffers hcalls =>
          intro i
          rw [World.chat, hdcc]
          exact hw i
      | written hlen htrace hoffers hcalls hchat =>
          intro i
          obtain ⟨s, hs, heq⟩ := hchat i
          rw [heq]
          exact (hw i).written (kept_written hs)
      | @noted i hphase f hf =>
          refine all_modify hw fun hc => ?_
          rw [hf]
          exact ⟨fun hfree => absurd hfree hphase, hc.unplugged, hc.plugged, hc.early,
            hc.typed, hc.outbuf⟩
      | freed i =>
          intro j
          by_cases hj : j = i
          · subst hj
            rw [chat_free_self]
            exact tidy_blank
          · rw [chat_free_ne hj]
            exact hw j
      | @offered i hlt hfree u htyp hactive hclear nick botnick userHost dccToken =>
          refine all_modify hw fun hc => ?_
          have hblank := hc.blank hfree
          rw [hblank]
          exact ⟨DccPhase.noConfusion, fun _ => ⟨rfl, rfl⟩,
            fun h => by simp at h, fun _ => ⟨rfl, rfl⟩,
            typed_nil, Nat.zero_le _⟩
      | @dialled i hphase sender sa hdial sock token =>
          have hearly : ((w.note i (.dialled sender sa)).chat i).phase ≠ .opened :=
            ne_of_eq_of_ne hphase DccPhase.noConfusion
          refine all_modify (w := w.note i (.dialled sender sa)) hw fun hc => ?_
          obtain ⟨hin, hout⟩ := hc.early hearly
          exact ⟨DccPhase.noConfusion, DccPhase.noConfusion, fun _ => ⟨rfl, rfl⟩,
            fun _ => ⟨hin, hout⟩, hc.typed, hc.outbuf⟩
      | @opened i hphase =>
          refine all_modify hw fun hc => ?_
          exact ⟨DccPhase.noConfusion, DccPhase.noConfusion, fun _ => hc.plugged (.inl hphase),
            fun hne => absurd rfl hne, hc.typed, hc.outbuf⟩
      | ran hphase hadmin cmd => exact hw
      | handed hrightful => exact hw

/-- **What is in each slot, at each phase**, in every state that a run reaches. -/
theorem slots_tidy (hw : Reach P h w) : ∀ i, Tidy (w.chat i) := by
  refine hw.induct P h (I := fun w => ∀ i, Tidy (w.chat i)) (fun o i => ?_) fun _ _ => tidy_step
  rw [chat_start]
  exact tidy_blank

theorem slots_tidy_alice : Tidy (aliceWorld.chat 0) :=
  slots_tidy .clear (fun _ _ => []) reach_aliceWorld 0

end

end IrcBot.DccChats
