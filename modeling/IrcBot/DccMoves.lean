/-
# What can happen to the chats (`dcc.rs`, `commands.rs`)

Every function of the chats is a sequence of a few moves. What holds in every run is shown for the
moves.

* `steps_step` — what one event does.
-/
import IrcBot.DccEvents
import Mathlib.Logic.Relation

namespace IrcBot.DccChats

open Cstr Crypto Dcc DccAddr DccLife Commands

open Relation (ReflTransGen)

/-! ### Slots -/

section

variable {w : World} {i j : Nat}

theorem chat_modify_ne (h : j ≠ i) (f : Chat → Chat) : (w.modifyChat i f).chat j = w.chat j := by
  have hij : ¬ i = j := fun heq => h heq.symm
  simp [World.chat, World.modifyChat, List.getD_eq_getElem?_getD, hij]

theorem chat_modify_self (h : i < w.dcc.length) (f : Chat → Chat) :
    (w.modifyChat i f).chat i = f (w.chat i) := by
  simp [World.chat, World.modifyChat, List.getD_eq_getElem?_getD, h]

theorem length_modifyChat (f : Chat → Chat) : (w.modifyChat i f).dcc.length = w.dcc.length :=
  List.length_modify _ _ _

theorem chat_of_le (h : w.dcc.length ≤ i) : w.chat i = {} := by
  rw [World.chat, List.getD_eq_getElem?_getD, List.getElem?_eq_none h]
  rfl

/-- A slot in use is one of the table. -/
theorem lt_length_of_phase (h : (w.chat i).phase ≠ .free) : i < w.dcc.length := by
  by_contra hge
  exact h (by rw [chat_of_le (Nat.le_of_not_lt hge)])

/-- What a change leaves of any chat it leaves of every slot, also of one that is not there. -/
theorem modify_keeps {α : Type} {g : Chat → α} {f : Chat → Chat}
    (hg : ∀ c, g (f c) = g c) (j : Nat) : g ((w.modifyChat i f).chat j) = g (w.chat j) := by
  by_cases hj : j = i
  · subst hj
    by_cases hlt : j < w.dcc.length
    · rw [chat_modify_self hlt, hg]
    · have hle : w.dcc.length ≤ j := Nat.le_of_not_lt hlt
      rw [chat_of_le (by rwa [length_modifyChat]), chat_of_le hle]
  · rw [chat_modify_ne hj]

/-- `free` leaves the other slots alone. -/
theorem chat_free_ne (h : j ≠ i) : (w.free i).chat j = w.chat j := by
  have hset : ∀ w : World, World.chat { w with dcc := w.dcc.set i {} } j = w.chat j := by
    intro w
    rw [World.chat, World.chat, List.getD_eq_getElem?_getD, List.getElem?_set,
      if_neg fun heq => h heq.symm, List.getD_eq_getElem?_getD]
  unfold World.free
  split
  · exact hset w
  · exact hset w

/-- A slot that is freed is as new. -/
theorem chat_free_self : (w.free i).chat i = {} := by
  have hset : ∀ w : World, World.chat { w with dcc := w.dcc.set i {} } i = {} := by
    intro w
    rw [World.chat, List.getD_eq_getElem?_getD, List.getElem?_set, if_pos rfl]
    split
    · rfl
    · rfl
  unfold World.free
  split
  · exact hset w
  · exact hset w

theorem length_free : (w.free i).dcc.length = w.dcc.length := by
  unfold World.free
  split
  · exact List.length_set
  · exact List.length_set

theorem outside_free : (w.free i).toOutside = w.toOutside := by
  unfold World.free
  split
  · rfl
  · rfl

/-- The other chats stay open. -/
theorem chat_close_ne (h : j ≠ i) (reason : Option Str) : (w.close i reason).chat j = w.chat j := by
  cases reason with
  | none => exact chat_free_ne h
  | some r => exact (chat_free_ne h).trans (chat_modify_ne h _)

theorem chat_close_self (reason : Option Str) : (w.close i reason).chat i = {} := chat_free_self

end

/-! ### Moves -/

/-- What writing does to a session. -/
def Written : DccSession → DccSession → Prop :=
  ReflTransGen fun s s' => (∃ text, s' = queue s text) ∨ s' = flush s

/-- A slot without a chat of this user. -/
def Clear (uuid : Str) (c : Chat) : Prop := c.phase = .free ∨ c.uuid ≠ uuid

/-- Whose chat a slot has. -/
def ownerOf (c : Chat) : Owner := ⟨c.uuid, c.userHost, c.nick, c.botnick, c.dccToken⟩

/-- A command that may be handed on. -/
def Rightful (b : BotState) (c : Call) : Prop :=
  ∃ u, b.userRecords[c.who]? = some u ∧ u.isActive = true ∧ Masked b u c.userHost ∧
    (u.typ = byte 'a' ∨ u.typ = byte 'o') ∧ (c.admin = true ↔ u.typ = byte 'a') ∧
    (∀ x ∈ c.command :: c.args ++ c.line.toList, byte '|' ∉ x) ∧
    (u.typ = byte 'a' → b.isOptSet optHubOnlyMutations = true →
      ∀ name ∈ hubOnlyCmds, eqIc c.command name = false)

/-- One thing that happens. -/
inductive Move : World → World → Prop
  /-- Something that is not of the chats. -/
  | aside {w w' : World} (hdcc : w'.dcc = w.dcc) (htrace : w'.trace = w.trace)
      (hoffers : w'.offers = w.offers) (hcalls : w'.calls = w.calls) : Move w w'
  /-- Writing to chats. -/
  | written {w w' : World} (hlen : w'.dcc.length = w.dcc.length) (htrace : w'.trace = w.trace)
      (hoffers : w'.offers = w.offers) (hcalls : w'.calls = w.calls)
      (hchat : ∀ i, ∃ s, Written (w.chat i).toDccSession s ∧
        w'.chat i = { w.chat i with toDccSession := s }) : Move w w'
  | noted {w : World} {i : Nat} (hphase : (w.chat i).phase ≠ .free) {f : Chat → Chat}
      (hf : ∀ c, f c = { c with peer := (f c).peer, lastActive := (f c).lastActive }) :
      Move w (w.modifyChat i f)
  | freed (w : World) (i : Nat) : Move w (w.free i)
  | offered {w : World} {i : Nat} (hlt : i < w.dcc.length) (hfree : (w.chat i).phase = .free)
      {u : UserRecord} (htyp : u.typ = byte 'a') (hactive : u.isActive = true)
      (hclear : ∀ j, Clear u.uuid (w.chat j)) (nick botnick userHost : Str) (dccToken : Nat) :
      Move w (World.note { w.modifyChat i (fun s => { s with
        phase := .offered, sock := none, dccToken, phaseSince := w.bot.now
        nick, botnick, userHost, uuid := u.uuid, name := u.name, no := w.offers }) with
        offers := w.offers + 1 } i (.offered u ⟨u.uuid, userHost, nick, botnick, dccToken⟩))
  | dialled {w : World} {i : Nat} (hphase : (w.chat i).phase = .offered) {sender : Str}
      {sa : SocketAddr} (hdial : Dialled (ownerOf (w.chat i)) sender sa) (sock : List Write)
      (token : Nat) :
      Move w ((w.note i (.dialled sender sa)).modifyChat i fun s => { s with
        sock := some sock, token := some token, phase := .connecting, phaseSince := w.bot.now })
  | opened {w : World} {i : Nat} (hphase : (w.chat i).phase = .connecting) :
      Move w ((w.modifyChat i fun s => { s with
        phase := .opened, phaseSince := w.bot.now, lastActive := w.bot.now }).note i .opened)
  | ran {w : World} {i : Nat} (hphase : (w.chat i).phase = .opened) {u : UserRecord}
      (hadmin : Admin u (ownerOf (w.chat i))) (cmd : Str) : Move w (w.note i (.ran u cmd))
  | handed {w : World} {c : Call} (hrightful : Rightful w.bot c) :
      Move w { w with calls := w.calls ++ [(w.bot, c)] }

/-- Whatever happens but reading. -/
abbrev Moves : World → World → Prop := ReflTransGen Move

/-- What can be in the buffer of a chat: no control byte but a CR at the end, and no more than a
line is long. -/
structure Typed (inbuf : Str) : Prop where
  length : inbuf.length ≤ a2LineMax + 1
  clean : ∀ c ∈ inbuf, c = 13 ∨ (0x20 ≤ c ∧ c ≠ 0x7f)
  cr : 13 ∉ inbuf.dropLast

/-- A move, or something that was read. -/
inductive Step : World → World → Prop
  | move {w w' : World} (h : Move w w') : Step w w'
  | typed {w : World} {i : Nat} (hphase : (w.chat i).phase = .opened) {f : Chat → Chat}
      (hf : ∀ c, f c = { c with inbuf := (f c).inbuf })
      (htyped : Typed (w.chat i).inbuf → Typed (f (w.chat i)).inbuf) : Step w (w.modifyChat i f)

abbrev Steps : World → World → Prop := ReflTransGen Step

/-- What a call does without reading is a run of steps. -/
theorem Moves.steps {w w' : World} (h : Moves w w') : Steps w w' :=
  ReflTransGen.mono (fun _ _ => Step.move) _ _ h

/-! ### Writing -/

theorem flush_same (s : DccSession) : chatOf (flush s) = chatOf s := by
  unfold flush
  split
  · rfl
  · rfl

section

variable (P : Primitives) {w : World}

theorem written_queue (texts : List Str) (s : DccSession) : Written s (texts.foldl queue s) := by
  induction texts generalizing s with
  | nil => exact .refl
  | cons text texts ih => exact .head (.inl ⟨text, rfl⟩) (ih _)

theorem foldl_queue_blank (texts : List Str) : texts.foldl queue {} = {} := by
  induction texts with
  | nil => rfl
  | cons text texts ih => exact ih

/-- What is not of the chats may change. -/
theorem moves_aside {w' : World} (hdcc : w'.dcc = w.dcc) (htrace : w'.trace = w.trace)
    (hoffers : w'.offers = w.offers) (hcalls : w'.calls = w.calls) : Moves w w' :=
  .single (.aside hdcc htrace hoffers hcalls)

/-- A slot after a line was printed: its session is another, and the rest the same. -/
theorem chat_zip {dcc : List DccSession} {i : Nat} {s : DccSession}
    (hs : dcc[i]? = (w.dcc[i]?).map fun _ => s) (hnone : (w.chat i).toDccSession = {} → s = {}) :
    (List.zipWith (fun (c : Chat) s => { c with toDccSession := s }) w.dcc dcc).getD i {} =
      { w.chat i with toDccSession := s } := by
  rw [World.chat] at hnone ⊢
  simp only [List.getD_eq_getElem?_getD, List.getElem?_zipWith, hs] at hnone ⊢
  cases hi : w.dcc[i]? with
  | none =>
      rw [hi] at hnone
      rw [hnone rfl]
      rfl
  | some c => rfl

/-- While a chat is answered, a line is queued for it alone. -/
theorem printf_reply (r : Replies) (line : Str) {i : Nat} (h : r.dccReply = some i) :
    ∃ texts : List Str, (Dcc.printf P r line).dcc = r.dcc.modify i (texts.foldl queue) := by
  refine ⟨?_, ?_⟩
  · exact (Sendq.printf P { wire := r.wire, a2r := r.a2r
                            dccReply := r.dccReply.bind fun i => r.dcc[i]?.map (·.nick) } line).2.dccOut
  · unfold Dcc.printf
    dsimp only
    rw [h]
    rfl

/-- A printed line is queued where the replies go, if they go to a chat. -/
theorem chat_print (w : World) (line : Str) (i : Nat) : ∃ texts : List Str,
    (w.dccReply ≠ some i → texts = []) ∧ (w.print P line).chat i =
      { w.chat i with toDccSession := texts.foldl queue (w.chat i).toDccSession } := by
  have hself : w.replies.dcc[i]? = (w.dcc[i]?).map fun _ => (w.chat i).toDccSession := by
    rw [World.replies, List.getElem?_map, World.chat, List.getD_eq_getElem?_getD]
    cases w.dcc[i]? with
    | none => rfl
    | some c => rfl
  by_cases hreply : w.dccReply = some i
  · obtain ⟨texts, htexts⟩ := printf_reply P w.replies line hreply
    refine ⟨texts, fun hne => absurd hreply hne, chat_zip ?_ fun hnone => ?_⟩
    · rw [htexts, List.getElem?_modify, hself]
      cases w.dcc[i]? with
      | none => rfl
      | some c => simp
    · rw [hnone]
      exact foldl_queue_blank texts
  · refine ⟨[], fun _ => rfl, chat_zip ?_ id⟩
    rw [(printf_frame P w.replies line).others i hreply]
    exact hself

theorem length_print (w : World) (line : Str) : (w.print P line).dcc.length = w.dcc.length := by
  have hlen : (Dcc.printf P w.replies line).dcc.length = w.dcc.length := by
    rw [(printf_frame P w.replies line).length, World.replies, List.length_map]
  rw [World.print, List.length_zipWith, hlen, Nat.min_self]

/-- A line that is printed, into chats or not. -/
theorem moves_print (w : World) (line : Str) : Moves w (w.print P line) := by
  refine .single (.written (length_print P w line) rfl rfl rfl fun i => ?_)
  obtain ⟨texts, -, hchat⟩ := chat_print P w line i
  exact ⟨_, written_queue texts _, hchat⟩

/-- A change of one session. -/
theorem move_session {i : Nat} {f : DccSession → DccSession} (hf : ∀ s, Written s (f s))
    (hblank : f {} = {}) :
    Move w (w.modifyChat i fun c => { c with toDccSession := f c.toDccSession }) := by
  refine .written (length_modifyChat _) rfl rfl rfl fun j => ?_
  by_cases hj : j = i
  · subst hj
    refine ⟨_, hf _, ?_⟩
    by_cases hlt : j < w.dcc.length
    · exact chat_modify_self hlt _
    · have hle : w.dcc.length ≤ j := Nat.le_of_not_lt hlt
      rw [chat_of_le (by rwa [length_modifyChat]), chat_of_le hle, hblank]
  · exact ⟨_, .refl, chat_modify_ne hj _⟩

theorem moves_queueTo (w : World) (i : Nat) (text : Str) : Moves w (w.queueTo i text) :=
  .single (move_session (fun _ => .single (.inl ⟨text, rfl⟩)) rfl)

theorem moves_flushTo (w : World) (i : Nat) : Moves w (w.flushTo i) :=
  .single (move_session (fun _ => .single (.inr rfl)) rfl)

/-! ### The end of a chat -/

theorem moves_free (w : World) (i : Nat) : Moves w (w.free i) := .single (.freed w i)

theorem moves_close (w : World) (i : Nat) (reason : Option Str) : Moves w (w.close i reason) := by
  cases reason with
  | none => exact moves_free w i
  | some r => exact (moves_queueTo w i r).trans (moves_free _ i)

theorem moves_giveUp (w : World) (i : Nat) (why : Str) : Moves w (w.giveUp P i why) :=
  (moves_print P w _).trans (moves_free _ i)

/-- One thing after the other. -/
theorem moves_foldl {α : Type} {f : World → α → World} (hf : ∀ w x, Moves w (f w x)) (l : List α)
    (w : World) : Moves w (l.foldl f w) := by
  induction l generalizing w with
  | nil => exact .refl
  | cons x l ih => exact (hf w x).trans (ih _)

/-- All chats are closed. -/
theorem moves_closeAll (w : World) (reason : Str) : Moves w (w.closeAll reason) := by
  refine moves_foldl (fun w i => ?_) _ w
  unfold World.closeOne
  split
  · exact moves_close w i _
  · exact .refl
  · exact moves_free w i
  · exact moves_free w i

/-! ### An offer -/

theorem moves_replaceOne (uuid : Str) (w : World) (i : Nat) :
    Moves w (World.replaceOne uuid w i) := by
  unfold World.replaceOne
  split
  · split
    · exact moves_close w i _
    · exact moves_free w i
  · exact .refl

/-- A slot of the user is freed, and those that were clear of the user stay so. -/
theorem clear_replaceOne (uuid : Str) (w : World) (i : Nat) :
    Clear uuid ((World.replaceOne uuid w i).chat i) ∧
      ∀ j, Clear uuid (w.chat j) → Clear uuid ((World.replaceOne uuid w i).chat j) := by
  unfold World.replaceOne
  split
  · split
    · refine ⟨.inl (by rw [chat_close_self]), fun j hj => ?_⟩
      by_cases hji : j = i
      · subst hji
        exact .inl (by rw [chat_close_self])
      · rwa [chat_close_ne hji]
    · refine ⟨.inl (by rw [chat_free_self]), fun j hj => ?_⟩
      by_cases hji : j = i
      · subst hji
        exact .inl (by rw [chat_free_self])
      · rwa [chat_free_ne hji]
  · rename_i hkept
    refine ⟨?_, fun j hj => hj⟩
    by_cases hphase : (w.chat i).phase = .free
    · exact .inl hphase
    · exact .inr fun huuid => hkept ⟨hphase, huuid⟩

theorem length_replaceOne (uuid : Str) (w : World) (i : Nat) :
    (World.replaceOne uuid w i).dcc.length = w.dcc.length := by
  unfold World.replaceOne
  split
  · split
    · exact length_free.trans (length_modifyChat _)
    · exact length_free
  · rfl

/-- After the loop no slot has a chat of the user. -/
theorem clear_replaced (uuid : Str) (slots : List Nat) (w : World) :
    (∀ i ∈ slots, Clear uuid ((slots.foldl (World.replaceOne uuid) w).chat i)) ∧
      (∀ i, Clear uuid (w.chat i) → Clear uuid ((slots.foldl (World.replaceOne uuid) w).chat i)) ∧
      (slots.foldl (World.replaceOne uuid) w).dcc.length = w.dcc.length := by
  induction slots generalizing w with
  | nil => exact ⟨fun i hi => absurd hi List.not_mem_nil, fun i hi => hi, rfl⟩
  | cons k slots ih =>
      obtain ⟨hall, hkept, hlen⟩ := ih (World.replaceOne uuid w k)
      obtain ⟨hself, hothers⟩ := clear_replaceOne uuid w k
      refine ⟨fun i hi => ?_, fun i hi => hkept i (hothers i hi),
        hlen.trans (length_replaceOne uuid w k)⟩
      rcases List.mem_cons.mp hi with rfl | hi
      · exact hkept i hself
      · exact hall i hi

/-- An admin is made an offer. -/
theorem moves_offer (w : World) (nick userHost : Str) (who : Nat) (rnd : Option Nat)
    (hadmin : ∀ u, w.bot.userRecords[who]? = some u → u.typ = byte 'a' ∧ u.isActive = true) :
    Moves w (w.offer P nick userHost who rnd) := by
  unfold World.offer
  split
  · exact moves_print P w _
  · split
    · exact moves_print P w _
    · exact moves_print P w _
    · exact .refl
    · rename_i ip rnd u _ hu
      obtain ⟨htyp, hactive⟩ := hadmin u hu
      obtain ⟨hall, -, hlen⟩ := clear_replaced u.uuid (List.range w.dcc.length) w
      have hmoves := moves_foldl (moves_replaceOne u.uuid) (List.range w.dcc.length) w
      generalize (List.range w.dcc.length).foldl (World.replaceOne u.uuid) w =
        w' at hall hlen hmoves ⊢
      refine hmoves.trans ?_
      dsimp only
      split
      · exact moves_print P w' _
      · rename_i i hi
        obtain ⟨hlt, hphase, -⟩ := List.findIdx?_eq_some_iff_getElem.mp hi
        have hfree : (w'.chat i).phase = .free := by
          rw [World.chat, List.getD_eq_getElem?_getD, List.getElem?_eq_getElem hlt]
          exact beq_iff_eq.mp hphase
        have hclear : ∀ j, Clear u.uuid (w'.chat j) := by
          intro j
          by_cases hj : j < w.dcc.length
          · exact hall j (List.mem_range.mpr hj)
          · exact .inl (by rw [chat_of_le (by omega)])
        exact ((moves_print P _ _).trans (moves_print P _ _)).head
          (.offered hlt hfree htyp hactive hclear nick _ userHost _)

/-! ### A reply -/

/-- An answer that is taken names an address that may be dialled. -/
theorem dialled_of_reply {o : Owner} {sender addr port : Str} {sa : SocketAddr}
    (hsender : eqIc o.userHost sender = true) (hport : World.portFault port = none)
    (haddr : (parseAddr addr (Chancfg.number port)).filter addrAllowed = some sa) :
    Dialled o sender sa := by
  obtain ⟨hparse, hallowed⟩ := Option.filter_eq_some_iff.mp haddr
  have hsa := (parseAddr_canonical hparse).2
  unfold World.portFault at hport
  split at hport
  · cases hport
  · dsimp only at hport
    split at hport
    · cases hport
    · split at hport
      · cases hport
      · rename_i hrange
        rw [not_or, Nat.not_lt, Nat.not_lt] at hrange
        exact ⟨hsender, hallowed, hsa ▸ hrange.1, hsa ▸ hrange.2⟩

/-- An offer that was answered is dialled, or given up. -/
theorem moves_startDial {i : Nat} {sender : Str} {sa : SocketAddr}
    (hphase : (w.chat i).phase = .offered) (hdial : Dialled (ownerOf (w.chat i)) sender sa)
    (dial : Dial) : Moves w (w.startDial P i sender sa dial) := by
  have hfree : (w.chat i).phase ≠ .free := by
    rw [hphase]
    exact DccPhase.noConfusion
  unfold World.startDial
  dsimp only
  generalize sa.ip.text ++ str " port " ++ decNat sa.port = peer
  have hnoted : Move w (w.modifyChat i fun s => { s with peer }) := .noted hfree fun _ => rfl
  have hself := chat_modify_self (lt_length_of_phase hfree) fun s => { s with peer }
  generalize w.modifyChat i (fun s => { s with peer }) = w' at hnoted hself ⊢
  have hdrawn : Moves w' (w'.newToken (World.slotDcc0 + i)).2 := moves_aside rfl rfl rfl rfl
  cases dial with
  | failed e => exact (moves_giveUp P w' i _).head hnoted
  | unpolled e => exact (hdrawn.trans (moves_giveUp P _ i _)).head hnoted
  | started sock =>
      refine (hdrawn.tail (.dialled ?_ (?_ : Dialled _ sender sa) sock _)).head hnoted
      · exact (congrArg (fun c => c.phase) hself).trans hphase
      · exact (congrArg ownerOf hself).symm ▸ hdial

/-- An answer to an offer, from whoever sends it. -/
theorem moves_handleCtcp (w : World) (sender ctcp : Str) (dial : Dial) :
    Moves w (w.handleCtcp P sender ctcp dial) := by
  unfold World.handleCtcp
  split
  · rename_i i addr port token hi _
    obtain ⟨hlt, hmatch, -⟩ := List.findIdx?_eq_some_iff_getElem.mp hi
    have hchat : w.chat i = w.dcc[i] := by
      rw [World.chat, List.getD_eq_getElem?_getD, List.getElem?_eq_getElem hlt]
      rfl
    rw [← hchat, Bool.and_eq_true, beq_iff_eq] at hmatch
    dsimp only
    split
    · exact .refl
    · split
      · exact moves_giveUp P w i _
      · split
        · exact moves_giveUp P w i _
        · rename_i hport _ sa haddr
          exact moves_startDial P hmatch.1 (dialled_of_reply hmatch.2 hport haddr) dial
  · exact .refl

/-- A connection that is made, or fails. -/
theorem moves_onConnect {i : Nat} (hphase : (w.chat i).phase = .connecting) (st : Connected) :
    Moves w (w.onConnect P i st) := by
  unfold World.onConnect
  split
  · exact .refl
  · cases st with
    | notYet => exact .refl
    | failed e => exact moves_giveUp P w i _
    | done => exact (moves_queueTo _ i _).head (.opened hphase)

/-! ### Commands -/

/-- Whatever a command does to the chats. -/
theorem moves_doWork (w : World) (x : Work) : Moves w (w.doWork P x) := by
  cases x with
  | print line => exact moves_print P w line
  | answer i dccToken a2r lines =>
      change Moves w (w.answer P i dccToken a2r lines)
      unfold World.answer
      split
      · exact .refl
      · have hin : Moves w { w with a2r, dccReply := some i } := moves_aside rfl rfl rfl rfl
        have hlines := moves_foldl (moves_print P) lines { w with a2r, dccReply := some i }
        exact (hin.trans hlines).trans (moves_aside rfl rfl rfl rfl)
  | closeAll reason => exact moves_closeAll w reason
  | outside o => exact moves_aside rfl rfl rfl rfl

theorem moves_works (w : World) (ws : List Work) : Moves w (ws.foldl (World.doWork P) w) :=
  moves_foldl (moves_doWork P) ws w

variable (h : Handler)

/-- A command is handed on, by one who may give it, and does its work. -/
theorem moves_call {c : Call} (hrightful : Rightful w.bot c) : Moves w (w.call P h c) :=
  (moves_works P _ _).head (.handed hrightful)

/-- A command of an admin: turned down, an offer, or handed on. -/
theorem moves_adminCommand {c : Call} {u : UserRecord} (hu : w.bot.userRecords[c.who]? = some u)
    (hactive : u.isActive = true) (htyp : u.typ = byte 'a') (hmask : Masked w.bot u c.userHost)
    (hadmin : c.admin = true) (hbar : ∀ x ∈ c.command :: c.args ++ c.line.toList, byte '|' ∉ x)
    (rnd : Option Nat) : Moves w (w.adminCommand P h c rnd) := by
  unfold World.adminCommand
  split
  · exact moves_print P w _
  · rename_i hname
    split
    · split
      · exact moves_print P w _
      · refine moves_offer P w _ _ _ rnd fun u' hu' => ?_
        cases hu.symm.trans hu'
        exact ⟨htyp, hactive⟩
    · refine moves_call P h ⟨u, hu, hactive, hmask, .inl htyp, ?_, hbar, fun _ hopt name hin => ?_⟩
      · exact iff_of_true hadmin htyp
      · rw [if_pos hopt] at hname
        exact Bool.eq_false_iff.mpr (List.find?_eq_none.mp hname name hin)

/-- The limits of commands: one that is in them changes nothing before it runs. -/
theorem moves_floodCmd (w : World) (who : Nat) (nick : Str) :
    Moves w (w.floodCmd P who nick).2 ∧
      ((w.floodCmd P who nick).1 = .ok → (w.floodCmd P who nick).2.bot = w.bot) := by
  unfold World.floodCmd
  split
  · exact ⟨.refl, fun _ => rfl⟩
  · rename_i u _
    dsimp only
    generalize Botflood.cmdAt w.bot w.flood u.uuid w.bot.monoMs = r
    obtain ⟨⟨verdict, notice⟩, flood⟩ := r
    have hflood : Moves w { w with flood } := moves_aside rfl rfl rfl rfl
    dsimp only
    by_cases hdrop : verdict = .drop ∧ notice = true
    · obtain ⟨rfl, rfl⟩ := hdrop
      exact ⟨hflood.trans (moves_print P _ _), fun hok => nomatch hok⟩
    · rw [if_neg hdrop]
      split
      · rename_i hnew
        exact ⟨moves_aside rfl rfl rfl rfl, fun hok => nomatch hok.symm.trans hnew⟩
      · exact ⟨hflood, fun _ => rfl⟩

/-- **A command line.** It is handed on within the limits only, and without a separator in it. -/
theorem moves_runUserCommand (w : World) (nick userHost : Str) (who : Nat) (cmdLine : Str)
    (rnd : Option Nat) (hwho : ∃ u, w.bot.userRecords[who]? = some u ∧ u.isActive = true ∧
      Masked w.bot u userHost) :
    Moves w (w.runUserCommand P h nick userHost who cmdLine rnd) := by
  unfold World.runUserCommand
  dsimp only
  split
  · rename_i command args u _ hu
    obtain ⟨u', hu', hactive, hmask⟩ := hwho
    cases hu.symm.trans hu'
    split
    · exact .refl
    · rename_i htyp
      obtain ⟨hflood, hok⟩ := moves_floodCmd P w who nick
      generalize w.floodCmd P who nick = r at hflood hok ⊢
      obtain ⟨verdict, w'⟩ := r
      refine hflood.trans ?_
      dsimp only at hok ⊢
      split
      · exact .refl
      · rename_i hverdict
        have hbot : w'.bot = w.bot := hok (not_not.mp hverdict)
        rw [← hbot] at hu hmask
        split
        · exact moves_print P _ _
        · rename_i hbar
          have hnobar : ∀ x ∈ command :: args ++ (argLine cmdLine).toList, byte '|' ∉ x := by
            intro x hx hin
            exact hbar (List.any_eq_true.mpr ⟨x, hx, List.contains_iff_mem.mpr hin⟩)
          split
          · rename_i hadmin
            exact moves_adminCommand P h hu hactive hadmin hmask (beq_iff_eq.mpr hadmin) hnobar rnd
          · rename_i hoper
            have htyp' : u.typ = byte 'o' := not_not.mp fun hne => htyp ⟨hoper, hne⟩
            exact moves_call P h ⟨u, hu, hactive, hmask, .inr htyp', beq_iff_eq, hnobar,
              fun hadmin => absurd hadmin hoper⟩
  · exact .refl

/-- A command that was opened runs, with a key for its replies or without. -/
theorem moves_a2Dispatch (w : World) (nick userHost botnick : Str) (o : Opened) (rnd : Option Nat)
    (hwho : ∃ u, w.bot.userRecords[o.who]? = some u ∧ u.isActive = true ∧ Masked w.bot u userHost) :
    Moves w (w.a2Dispatch P h nick userHost botnick o rnd) := by
  unfold World.a2Dispatch
  dsimp only
  split
  · exact moves_aside rfl rfl rfl rfl
  · rename_i a2r _
    have hin : Moves w { w with a2r } := moves_aside rfl rfl rfl rfl
    have hrun := moves_runUserCommand P h { w with a2r } nick userHost o.who o.cmd rnd hwho
    exact (hin.trans hrun).trans (moves_aside rfl rfl rfl rfl)

theorem moves_ran {i : Nat} (hphase : (w.chat i).phase = .opened) {u : UserRecord}
    (hadmin : Admin u (ownerOf (w.chat i))) (cmd : Str) (now : Int) :
    Moves w ((w.modifyChat i fun s => { s with lastActive := now }).note i (.ran u cmd)) := by
  have hfree : (w.chat i).phase ≠ .free := by
    rw [hphase]
    exact DccPhase.noConfusion
  have hself := chat_modify_self (lt_length_of_phase hfree) fun s => { s with lastActive := now }
  have hnoted : Move w (w.modifyChat i fun s => { s with lastActive := now }) :=
    .noted hfree fun _ => rfl
  refine (ReflTransGen.single (.ran ?_ ?_ cmd)).head hnoted
  · rw [hself]
    exact hphase
  · rw [hself]
    exact hadmin

/-- A line down an open chat. -/
theorem moves_handleDccLine {i : Nat} (hphase : (w.chat i).phase = .opened) (line : Str) :
    Moves w (w.handleDccLine P h i line).2 := by
  unfold World.handleDccLine
  dsimp only
  split
  · exact .refl
  · have hbehind := behind_a2OpenCommand P w.bot (w.chat i).nick (w.chat i).userHost (w.chat i).botnick
      (some (w.chat i).uuid) (line.drop (if (str "~A2S ").isPrefixOf line then 5 else 4))
      ((str "~A2S ").isPrefixOf line)
    generalize a2OpenCommand P w.bot (w.chat i).nick (w.chat i).userHost (w.chat i).botnick
      (some (w.chat i).uuid) (line.drop (if (str "~A2S ").isPrefixOf line then 5 else 4))
      ((str "~A2S ").isPrefixOf line) = r at hbehind ⊢
    obtain ⟨opened, b⟩ := r
    have hb : Moves w { w with bot := b } := moves_aside rfl rfl rfl rfl
    cases opened with
    | none => exact hb
    | some e =>
        obtain ⟨ts, nonce, o⟩ := e
        obtain ⟨u, hu, hactive, honly, hmask⟩ := hbehind ts nonce o rfl
        dsimp only at hu hmask ⊢
        rw [hu]
        dsimp only
        split
        · exact hb
        · rename_i htyp
          have hadmin : Admin u (ownerOf (w.chat i)) := ⟨not_not.mp htyp, hactive, honly _ rfl⟩
          have hran := moves_ran (w := { w with bot := b }) (i := i) hphase hadmin o.cmd b.now
          refine (hb.trans hran).trans ?_
          generalize hw' : World.note (World.modifyChat { w with bot := b } i fun s =>
            { s with lastActive := b.now }) i (.ran u o.cmd) = w'
          have hbot : w'.bot = b := by
            rw [← hw']
            rfl
          have hin : Moves w' { w' with dccReply := some i } := moves_aside rfl rfl rfl rfl
          refine (hin.trans (moves_a2Dispatch P h _ _ _ _ o none ?_)).trans (moves_aside rfl rfl rfl rfl)
          dsimp only
          rw [hbot]
          exact ⟨u, hu, hactive, hmask⟩

/-- A sealed command by message. -/
theorem moves_sealedMessage (w : World) (nick userHost dest message : Str) (rnd : Option Nat) :
    Moves w (w.sealedMessage P h nick userHost dest message rnd) := by
  unfold World.sealedMessage
  dsimp only
  split
  · exact .refl
  · have hbehind := behind_a2OpenCommand P w.bot nick userHost dest none
      (message.drop (if (str "~A2S ").isPrefixOf message then 5 else 4))
      ((str "~A2S ").isPrefixOf message)
    generalize a2OpenCommand P w.bot nick userHost dest none
      (message.drop (if (str "~A2S ").isPrefixOf message then 5 else 4))
      ((str "~A2S ").isPrefixOf message) = r at hbehind ⊢
    obtain ⟨opened, b⟩ := r
    have hb : Moves w { w with bot := b } := moves_aside rfl rfl rfl rfl
    cases opened with
    | none => exact hb
    | some e =>
        obtain ⟨ts, nonce, o⟩ := e
        obtain ⟨u, hu, hactive, -, hmask⟩ := hbehind ts nonce o rfl
        exact hb.trans (moves_a2Dispatch P h _ nick userHost dest o rnd ⟨u, hu, hactive, hmask⟩)

/-! ### Reading -/

theorem phase_modify {i : Nat} {f : Chat → Chat} (hf : ∀ c, (f c).phase = c.phase)
    (hphase : (w.chat i).phase = .opened) : ((w.modifyChat i f).chat i).phase = .opened := by
  have hlt : i < w.dcc.length := lt_length_of_phase (by rw [hphase]; exact DccPhase.noConfusion)
  rw [chat_modify_self hlt, hf, hphase]

theorem typed_nil : Typed [] :=
  ⟨Nat.zero_le _, fun _ hc => absurd hc List.not_mem_nil, List.not_mem_nil⟩

/-- What reading does: while it goes on the chat is open. -/
def Reads (i : Nat) (w : World) (r : Bool × World) : Prop :=
  Steps w r.2 ∧ (r.1 = true → (r.2.chat i).phase = .opened)

theorem reads_false {w' : World} (i : Nat) (h : Moves w w') : Reads i w (false, w') :=
  ⟨h.steps, Bool.noConfusion⟩

/-- A line down a chat that is read, and is a command or ends it. -/
theorem reads_takeLine {i : Nat} (hphase : (w.chat i).phase = .opened) (token : Nat) :
    Reads i w (w.takeLine P h i token) := by
  unfold World.takeLine
  dsimp only
  have hempty : Step w (w.modifyChat i fun s => { s with inbuf := [] }) :=
    .typed hphase (fun _ => rfl) fun _ => typed_nil
  have hopen := phase_modify (f := fun s => { s with inbuf := [] }) (fun _ => rfl) hphase
  split
  · exact ⟨.single hempty, fun _ => hopen⟩
  · have hline := moves_handleDccLine P h hopen (fromUtf8Lossy (World.chomp (w.chat i).inbuf))
    split
    · refine ⟨.head hempty ?_, Bool.noConfusion⟩
      split
      · exact Moves.steps (hline.trans (moves_close _ i _))
      · exact hline.steps
    · exact ⟨.head hempty hline.steps, fun htrue => (of_decide_eq_true htrue).2⟩

/-- A byte that is taken keeps the buffer text. -/
theorem typed_push {inbuf : Str} {c : UInt8} (hlf : c ≠ 10) (hbad : World.badByte inbuf c = false)
    (hlen : inbuf.length ≤ a2LineMax) (htyped : Typed inbuf) : Typed (inbuf ++ [c]) := by
  unfold World.badByte at hbad
  simp only [Bool.or_eq_false_iff, Bool.and_eq_false_iff, decide_eq_false_iff_not,
    beq_eq_false_iff_ne,
    not_not] at hbad
  obtain ⟨⟨hctl, hdel⟩, hcr⟩ := hbad
  constructor
  · rw [List.length_append, List.length_singleton]
    omega
  · intro x hx
    rcases List.mem_append.mp hx with hx | hx
    · exact htyped.clean x hx
    · obtain rfl := List.mem_singleton.mp hx
      rcases hctl with hctl | hctl
      · exact .inr ⟨UInt8.not_lt.mp hctl, hdel⟩
      · exact .inl hctl
  · rw [List.dropLast_concat]
    intro hin
    rcases List.eq_nil_or_concat' inbuf with rfl | ⟨init, last, rfl⟩
    · cases hin
    · rw [List.getLast?_concat] at hcr
      rcases List.mem_append.mp hin with hin | hin
      · exact htyped.cr (by rwa [List.dropLast_concat])
      · exact hcr (congrArg some (List.mem_singleton.mp hin).symm)

/-- One byte. -/
theorem reads_readByte {i : Nat} (hphase : (w.chat i).phase = .opened) (token : Nat) (c : UInt8) :
    Reads i w (w.readByte P h i token c) := by
  unfold World.readByte
  split
  · exact reads_takeLine P h hphase token
  · split
    · exact reads_false i (moves_close w i _)
    · split
      · exact reads_false i (moves_close w i _)
      · rename_i hlf hbad hlen
        have htyped := typed_push hlf (Bool.eq_false_iff.mpr hbad) (Nat.le_of_not_lt hlen)
        exact ⟨.single (.typed hphase (fun _ => rfl) htyped),
          fun _ => phase_modify (fun _ => rfl) hphase⟩

/-- The bytes of one read, as far as the chat lives. -/
theorem reads_readBytes (i token : Nat) (bytes : Str) (w : World)
    (hphase : (w.chat i).phase = .opened) : Reads i w (w.readBytes P h i token bytes) := by
  induction bytes generalizing w with
  | nil => exact ⟨.refl, fun _ => hphase⟩
  | cons c bytes ih =>
      obtain ⟨hsteps, hopen⟩ := reads_readByte P h hphase token c
      unfold World.readBytes
      dsimp only
      split
      · rename_i hmore
        obtain ⟨hsteps', hopen'⟩ := ih _ (hopen hmore)
        exact ⟨hsteps.trans hsteps', hopen'⟩
      · rename_i hover
        exact ⟨hsteps, fun htrue => absurd htrue hover⟩

/-- **All that is read from a chat.** -/
theorem steps_read (i token : Nat) (sock : List Net.Read) (w : World)
    (hphase : (w.chat i).phase = .opened) : Steps w (w.read P h i token sock) := by
  induction sock generalizing w with
  | nil => exact .refl
  | cons r sock ih =>
      unfold World.read
      split
      · exact .refl
      · cases r with
        | interrupted => exact ih w hphase
        | wouldBlock => exact .refl
        | failed => exact (moves_free w i).steps
        | data bytes =>
            obtain ⟨hsteps, hopen⟩ := reads_readBytes P h i token bytes w hphase
            dsimp only
            split
            · exact (moves_free w i).steps
            · split
              · rename_i hmore
                exact hsteps.trans (ih _ (hopen hmore))
              · exact hsteps

/-! ### Events -/

/-- An event of a chat's socket, with what is read and written. -/
theorem steps_handleEvent (w : World) (i token : Nat) (readable writable : Bool) (st : Connected)
    (sock : List Net.Read) : Steps w (w.handleEvent P h i token readable writable st sock) := by
  unfold World.handleEvent
  split
  · exact .refl
  · cases hphase : (w.chat i).phase with
    | free => exact .refl
    | offered => exact .refl
    | connecting =>
        dsimp only
        have hconn : Moves w (if writable = true then w.onConnect P i st else w) := by
          split
          · exact moves_onConnect P hphase st
          · exact .refl
        generalize (if writable = true then w.onConnect P i st else w) = w' at hconn ⊢
        split
        · rename_i hread
          exact hconn.steps.trans (steps_read P h i token sock w' hread.2)
        · exact hconn.steps
    | opened =>
        dsimp only
        have hflush : Moves w (if writable = true then w.flushTo i else w) ∧
            ((if writable = true then w.flushTo i else w).chat i).phase = .opened := by
          split
          · refine ⟨moves_flushTo w i, phase_modify (fun c => ?_) hphase⟩
            exact congrArg Prod.fst (flush_same c.toDccSession)
          · exact ⟨.refl, hphase⟩
        generalize (if writable = true then w.flushTo i else w) = w' at hflush ⊢
        have hread : Steps w (if (!(w'.chat i).failed) = true ∧ readable = true then
            w'.read P h i token sock else w') := by
          split
          · exact hflush.1.steps.trans (steps_read P h i token sock w' hflush.2)
          · exact hflush.1.steps
        generalize (if (!(w'.chat i).failed) = true ∧ readable = true then
          w'.read P h i token sock else w') = w'' at hread ⊢
        split
        · exact hread.trans (moves_close w'' i none).steps
        · exact hread

/-- One slot at a tick: given up, closed or left. -/
theorem moves_checkOne (w : World) (i : Nat) : Moves w (w.checkOne P i) := by
  unfold World.checkOne
  dsimp only
  split
  · exact moves_close w i none
  · split
    · exact moves_giveUp P w i _
    · split
      · exact moves_giveUp P w i _
      · split
        · exact moves_close w i _
        · exact .refl

/-- A tick, slot by slot. -/
theorem moves_checkTimeouts (w : World) : Moves w (w.checkTimeouts P) :=
  moves_foldl (moves_checkOne P) _ w

/-- **What one event does.** -/
theorem steps_step (w : World) (e : Event) : Steps w (w.step P h e) := by
  cases e with
  | ctcp userHost text dial => exact (moves_handleCtcp P w userHost text dial).steps
  | message nick userHost dest text rnd =>
      exact (moves_sealedMessage P h w nick userHost dest text rnd).steps
  | poll i token readable writable st sock =>
      exact steps_handleEvent P h w i token readable writable st sock
  | tick => exact (moves_checkTimeouts P w).steps
  | work ws => exact (moves_works P w ws).steps

/-- What holds at the start and is kept by every step holds in every run. -/
theorem Reach.induct {I : World → Prop} (hstart : ∀ o : Outside, I { toOutside := o })
    (hstep : ∀ w w', I w → Step w w' → I w') {w : World} (hw : Reach P h w) : I w := by
  have hsteps : ∀ w w', Steps w w' → I w → I w' := by
    intro w w' hsteps hw
    induction hsteps with
    | refl => exact hw
    | tail _ hlast ih => exact hstep _ _ ih hlast
  induction hw with
  | start o => exact hstart o
  | step hw e ih => exact hsteps _ _ (steps_step P h _ e) ih

end

end IrcBot.DccChats
