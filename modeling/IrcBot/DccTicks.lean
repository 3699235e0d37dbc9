/-
# Between events (`dcc.rs`, `commands.rs`)

Replies go down a chat, or are sealed, only while the command runs that they answer. So nothing that
the round of the main loop prints reaches a chat, and the round does to each slot what its age says.

* `reach_settled` — when an event is over, replies go to IRC and in clear.
* `checkTimeouts_exact` — a round empties the slots that are overdue, and changes no other.
-/
import IrcBot.DccRuns

namespace IrcBot.DccChats

open Cstr Crypto Dcc DccLife Commands

open Sendq (A2rCtx sendLine)

/-! ### Where replies go -/

/-- What a function leaves of the reply context: it sets no key, and no chat but the one that is
there already. -/
structure Leaves (w w' : World) : Prop where
  key : w.a2r = {} → w'.a2r = {}
  reply : w'.dccReply = w.dccReply ∨ w'.dccReply = none

section

variable {w w' w'' : World}

theorem Leaves.refl (w : World) : Leaves w w := ⟨id, .inl rfl⟩

theorem Leaves.trans (h : Leaves w w') (h' : Leaves w' w'') : Leaves w w'' := by
  refine ⟨fun hw => h'.key (h.key hw), ?_⟩
  rcases h'.reply with heq | hnone
  · rw [heq]
    exact h.reply
  · exact .inr hnone

/-- A function that touches neither. -/
theorem leaves_same (hkey : w'.a2r = w.a2r) (hreply : w'.dccReply = w.dccReply) : Leaves w w' :=
  ⟨fun hw => hkey.trans hw, .inl hreply⟩

/-- What comes before touches neither. -/
theorem Leaves.behind (h : Leaves w w') {v : World} (hkey : w.a2r = v.a2r)
    (hreply : w.dccReply = v.dccReply) : Leaves v w' :=
  (leaves_same hkey hreply).trans h

theorem leaves_foldl {α : Type} {f : World → α → World} (hf : ∀ w x, Leaves w (f w x)) (l : List α)
    (w : World) : Leaves w (l.foldl f w) := by
  induction l generalizing w with
  | nil => exact .refl w
  | cons x l ih => exact (hf w x).trans (ih _)

variable (P : Primitives)

theorem a2r_sendLine (s : Sendq.Sender) (line : Str) : (sendLine s line).2.a2r = s.a2r := by
  unfold sendLine
  split
  · rfl
  · split
    · rfl
    · rfl

theorem leaves_print (w : World) (line : Str) : Leaves w (w.print P line) := by
  refine ⟨fun hw => ?_, .inl rfl⟩
  change (Sendq.printf P _ line).2.a2r = {}
  unfold Sendq.printf
  split
  · exact hw
  · split
    · exact hw
    · rw [show w.replies.a2r = {} from hw]
      exact a2r_sendLine _ line

theorem leaves_free (w : World) (i : Nat) : Leaves w (w.free i) := by
  have hset : ∀ v : World, v.a2r = w.a2r → v.dccReply = w.dccReply →
      Leaves w { v with dcc := v.dcc.set i {}, dccReply := if v.dccReply = some i then none else v.dccReply } := by
    intro v hkey hreply
    refine ⟨fun hw => hkey.trans hw, ?_⟩
    dsimp only
    split
    · exact .inr rfl
    · exact .inl hreply
  unfold World.free
  split
  · exact hset w rfl rfl
  · exact hset _ rfl rfl

theorem leaves_close (w : World) (i : Nat) (reason : Option Str) : Leaves w (w.close i reason) := by
  cases reason with
  | none => exact leaves_free w i
  | some r => exact (leaves_free (w.queueTo i r) i).behind rfl rfl

theorem leaves_giveUp (w : World) (i : Nat) (why : Str) : Leaves w (w.giveUp P i why) :=
  (leaves_print P w _).trans (leaves_free _ i)

theorem leaves_closeAll (w : World) (reason : Str) : Leaves w (w.closeAll reason) := by
  refine leaves_foldl (fun w i => ?_) _ w
  unfold World.closeOne
  split
  · exact leaves_close w i _
  · exact .refl w
  · exact leaves_free w i
  · exact leaves_free w i

theorem leaves_replaceOne (uuid : Str) (w : World) (i : Nat) :
    Leaves w (World.replaceOne uuid w i) := by
  unfold World.replaceOne
  split
  · split
    · exact leaves_close w i _
    · exact leaves_free w i
  · exact .refl w

theorem leaves_offer (w : World) (nick userHost : Str) (who : Nat) (rnd : Option Nat) :
    Leaves w (w.offer P nick userHost who rnd) := by
  unfold World.offer
  split
  · exact leaves_print P w _
  · split
    · exact leaves_print P w _
    · exact leaves_print P w _
    · exact .refl w
    · rename_i ip rnd u _ _
      have hleaves := leaves_foldl (leaves_replaceOne u.uuid) (List.range w.dcc.length) w
      generalize (List.range w.dcc.length).foldl (World.replaceOne u.uuid) w = w' at hleaves ⊢
      refine hleaves.trans ?_
      dsimp only
      split
      · exact leaves_print P w' _
      · exact ((leaves_print P _ _).trans (leaves_print P _ _)).behind rfl rfl

theorem leaves_startDial (w : World) (i : Nat) (sender : Str) (sa : DccAddr.SocketAddr)
    (dial : Dial) : Leaves w (w.startDial P i sender sa dial) := by
  unfold World.startDial
  dsimp only
  cases dial with
  | failed e => exact (leaves_giveUp P _ i _).behind rfl rfl
  | unpolled e => exact (leaves_giveUp P _ i _).behind rfl rfl
  | started sock => exact leaves_same rfl rfl

theorem leaves_handleCtcp (w : World) (sender ctcp : Str) (dial : Dial) :
    Leaves w (w.handleCtcp P sender ctcp dial) := by
  unfold World.handleCtcp
  split
  · dsimp only
    split
    · exact .refl w
    · split
      · exact leaves_giveUp P w _ _
      · split
        · exact leaves_giveUp P w _ _
        · exact leaves_startDial P w _ sender _ dial
  · exact .refl w

theorem leaves_onConnect (w : World) (i : Nat) (st : Connected) :
    Leaves w (w.onConnect P i st) := by
  unfold World.onConnect
  split
  · exact .refl w
  · cases st with
    | notYet => exact .refl w
    | failed e => exact leaves_giveUp P w i _
    | done => exact leaves_same rfl rfl

theorem leaves_doWork (w : World) (x : Work) : Leaves w (w.doWork P x) := by
  cases x with
  | print line => exact leaves_print P w line
  | answer i dccToken a2r lines =>
      change Leaves w (w.answer P i dccToken a2r lines)
      unfold World.answer
      split
      · exact .refl w
      · exact leaves_same rfl rfl
  | closeAll reason => exact leaves_closeAll w reason
  | outside o => exact leaves_same rfl rfl

variable (h : Handler)

theorem leaves_call (w : World) (c : Call) : Leaves w (w.call P h c) :=
  (leaves_foldl (leaves_doWork P) _ { w with calls := w.calls ++ [(w.bot, c)] }).behind rfl rfl

theorem leaves_adminCommand (w : World) (c : Call) (rnd : Option Nat) :
    Leaves w (w.adminCommand P h c rnd) := by
  unfold World.adminCommand
  split
  · exact leaves_print P w _
  · split
    · split
      · exact leaves_print P w _
      · exact leaves_offer P w _ _ _ rnd
    · exact leaves_call P h w c

theorem leaves_floodCmd (w : World) (who : Nat) (nick : Str) :
    Leaves w (w.floodCmd P who nick).2 := by
  unfold World.floodCmd
  split
  · exact .refl w
  · rename_i u _
    dsimp only
    generalize Botflood.cmdAt w.bot w.flood u.uuid w.bot.monoMs = r
    have hsaid : Leaves w (if r.1.1 = .drop ∧ r.1.2 = true then
        { w with flood := r.2 }.say P nick (str "Slow down: too many commands, some were dropped.")
        else { w with flood := r.2 }) := by
      split
      · exact (leaves_print P { w with flood := r.2 } _).behind rfl rfl
      · exact leaves_same rfl rfl
    by_cases hnew : r.1.1 = .ignoreNew
    · rw [if_pos hnew]
      exact hsaid.trans (leaves_same rfl rfl)
    · rw [if_neg hnew]
      exact hsaid

theorem leaves_runUserCommand (w : World) (nick userHost : Str) (who : Nat) (cmdLine : Str)
    (rnd : Option Nat) : Leaves w (w.runUserCommand P h nick userHost who cmdLine rnd) := by
  unfold World.runUserCommand
  dsimp only
  split
  · split
    · exact .refl w
    · have hflood := leaves_floodCmd P w who nick
      split
      · exact hflood
      · split
        · exact hflood.trans (leaves_print P _ _)
        · split
          · exact hflood.trans (leaves_adminCommand P h _ _ rnd)
          · exact hflood.trans (leaves_call P h _ _)
  · exact .refl w

/-- The key of a command is gone when it has run. -/
theorem leaves_a2Dispatch (w : World) (nick userHost botnick : Str) (o : Opened)
    (rnd : Option Nat) :
    Leaves w (w.a2Dispatch P h nick userHost botnick o rnd) := by
  unfold World.a2Dispatch
  dsimp only
  split
  · exact ⟨fun _ => rfl, .inl rfl⟩
  · rename_i a2r _
    exact ⟨fun _ => rfl, (leaves_runUserCommand P h { w with a2r } nick userHost o.who o.cmd rnd).reply⟩

/-- A chat is named while its command runs, and not after it. -/
theorem leaves_named (w : World) (i : Nat) (nick userHost botnick : Str) (o : Opened) :
    Leaves w { World.a2Dispatch P h { w with dccReply := some i } nick userHost botnick o none with
      dccReply :=
        if (World.a2Dispatch P h { w with dccReply := some i } nick userHost botnick o none).dccReply =
          some i then none
        else (World.a2Dispatch P h { w with dccReply := some i } nick userHost botnick o none).dccReply } := by
  have hin := leaves_a2Dispatch P h { w with dccReply := some i } nick userHost botnick o none
  refine ⟨hin.key, .inr ?_⟩
  dsimp only
  split
  · rfl
  · rename_i hother
    exact hin.reply.resolve_left hother

theorem leaves_handleDccLine (w : World) (i : Nat) (line : Str) :
    Leaves w (w.handleDccLine P h i line).2 := by
  unfold World.handleDccLine
  dsimp only
  split
  · exact .refl w
  · split
    · exact leaves_same rfl rfl
    · split
      · exact leaves_same rfl rfl
      · split
        · exact leaves_same rfl rfl
        · exact (leaves_named P h _ i _ _ _ _).behind rfl rfl

theorem leaves_sealedMessage (w : World) (nick userHost dest message : Str) (rnd : Option Nat) :
    Leaves w (w.sealedMessage P h nick userHost dest message rnd) := by
  unfold World.sealedMessage
  dsimp only
  split
  · exact .refl w
  · split
    · exact leaves_same rfl rfl
    · exact (leaves_a2Dispatch P h _ nick userHost dest _ rnd).behind rfl rfl

theorem leaves_takeLine (w : World) (i token : Nat) : Leaves w (w.takeLine P h i token).2 := by
  unfold World.takeLine
  dsimp only
  split
  · exact leaves_same rfl rfl
  · have hline := (leaves_handleDccLine P h (w.modifyChat i fun s => { s with inbuf := [] }) i
      (fromUtf8Lossy (World.chomp (w.chat i).inbuf))).behind (v := w) rfl rfl
    split
    · dsimp only
      split
      · exact hline.trans (leaves_close _ i _)
      · exact hline
    · exact hline

theorem leaves_readByte (w : World) (i token : Nat) (c : UInt8) :
    Leaves w (w.readByte P h i token c).2 := by
  unfold World.readByte
  split
  · exact leaves_takeLine P h w i token
  · split
    · exact leaves_close w i _
    · split
      · exact leaves_close w i _
      · exact leaves_same rfl rfl

theorem leaves_readBytes (i token : Nat) (bytes : Str) (w : World) :
    Leaves w (w.readBytes P h i token bytes).2 := by
  induction bytes generalizing w with
  | nil => exact .refl w
  | cons c bytes ih =>
      unfold World.readBytes
      dsimp only
      split
      · exact (leaves_readByte P h w i token c).trans (ih _)
      · exact leaves_readByte P h w i token c

theorem leaves_read (i token : Nat) (sock : List Net.Read) (w : World) :
    Leaves w (w.read P h i token sock) := by
  induction sock generalizing w with
  | nil => exact .refl w
  | cons r sock ih =>
      unfold World.read
      split
      · exact .refl w
      · cases r with
        | interrupted => exact ih w
        | wouldBlock => exact .refl w
        | failed => exact leaves_free w i
        | data bytes =>
            dsimp only
            split
            · exact leaves_free w i
            · split
              · exact (leaves_readBytes P h i token bytes w).trans (ih _)
              · exact leaves_readBytes P h i token bytes w

theorem leaves_handleEvent (w : World) (i token : Nat) (readable writable : Bool) (st : Connected)
    (sock : List Net.Read) : Leaves w (w.handleEvent P h i token readable writable st sock) := by
  unfold World.handleEvent
  split
  · exact .refl w
  · cases (w.chat i).phase with
    | free => exact .refl w
    | offered => exact .refl w
    | connecting =>
        dsimp only
        have hconn : Leaves w (if writable = true then w.onConnect P i st else w) := by
          split
          · exact leaves_onConnect P w i st
          · exact .refl w
        generalize (if writable = true then w.onConnect P i st else w) = w' at hconn ⊢
        split
        · exact hconn.trans (leaves_read P h i token sock w')
        · exact hconn
    | opened =>
        dsimp only
        have hflush : Leaves w (if writable = true then w.flushTo i else w) := by
          split
          · exact leaves_same rfl rfl
          · exact .refl w
        generalize (if writable = true then w.flushTo i else w) = w' at hflush ⊢
        have hread : Leaves w (if (!(w'.chat i).failed) = true ∧ readable = true then
            w'.read P h i token sock else w') := by
          split
          · exact hflush.trans (leaves_read P h i token sock w')
          · exact hflush
        generalize (if (!(w'.chat i).failed) = true ∧ readable = true then
          w'.read P h i token sock else w') = w'' at hread ⊢
        split
        · exact hread.trans (leaves_close w'' i none)
        · exact hread

theorem leaves_checkOne (w : World) (i : Nat) : Leaves w (w.checkOne P i) := by
  unfold World.checkOne
  dsimp only
  split
  · exact leaves_close w i none
  · split
    · exact leaves_giveUp P w i _
    · split
      · exact leaves_giveUp P w i _
      · split
        · exact leaves_close w i _
        · exact .refl w

theorem leaves_step (w : World) (e : Event) : Leaves w (w.step P h e) := by
  cases e with
  | ctcp userHost text dial => exact leaves_handleCtcp P w userHost text dial
  | message nick userHost dest text rnd =>
      exact leaves_sealedMessage P h w nick userHost dest text rnd
  | poll i token readable writable st sock =>
      exact leaves_handleEvent P h w i token readable writable st sock
  | tick => exact leaves_foldl (leaves_checkOne P) _ w
  | work ws => exact leaves_foldl (leaves_doWork P) ws w

/-- **When an event is over, replies go to IRC and in clear**: no key and no chat is left over from
the command that ran. -/
theorem reach_settled (hw : Reach P h w) : w.a2r = {} ∧ w.dccReply = none := by
  induction hw with
  | start o => exact ⟨rfl, rfl⟩
  | @step w _ e ih =>
      obtain ⟨hkey, hreply⟩ := leaves_step P h w e
      rw [ih.2, or_self] at hreply
      exact ⟨hkey ih.1, hreply⟩

theorem reach_settled_alice : aliceWorld.a2r = {} ∧ aliceWorld.dccReply = none :=
  reach_settled .clear (fun _ _ => []) reach_aliceWorld

/-! ### A round of the main loop -/

/-- What ends a chat by itself. -/
def Overdue (now : Int) (c : Chat) : Prop :=
  (c.phase = .opened ∧ (c.failed = true ∨ dccIdleTimeout < now - c.lastActive)) ∨
    (c.phase = .offered ∧ dccOfferTimeout < now - c.phaseSince) ∨
    (c.phase = .connecting ∧ dccConnectTimeout < now - c.phaseSince)

instance (now : Int) (c : Chat) : Decidable (Overdue now c) := inferInstanceAs (Decidable (_ ∨ _))

/-- While no command runs, a line that is printed reaches no chat. -/
theorem chat_print_none {w : World} (hreply : w.dccReply = none) (line : Str) (i : Nat) :
    (w.print P line).chat i = w.chat i := by
  obtain ⟨texts, hnone, hchat⟩ := chat_print P w line i
  rw [hchat, hnone (by simp [hreply])]
  rfl

/-- One slot was emptied. -/
structure Emptied (i : Nat) (w w' : World) : Prop where
  self : w'.chat i = {}
  others : ∀ j, j ≠ i → w'.chat j = w.chat j
  now : w'.bot.now = w.bot.now
  length : w'.dcc.length = w.dcc.length

theorem emptied_close (w : World) (i : Nat) (reason : Option Str) :
    Emptied i w (w.close i reason) := by
  refine ⟨chat_close_self reason, fun j hj => chat_close_ne hj reason, ?_, ?_⟩
  · cases reason with
    | none => exact congrArg (·.bot.now) outside_free
    | some r => exact congrArg (·.bot.now) (outside_free (w := w.queueTo i r))
  · cases reason with
    | none => exact length_free
    | some r => exact length_free.trans (length_modifyChat _)

theorem emptied_giveUp {w : World} (hreply : w.dccReply = none) (i : Nat) (why : Str) :
    Emptied i w (w.giveUp P i why) := by
  refine ⟨chat_free_self, fun j hj => ?_, ?_, ?_⟩
  · exact (chat_free_ne hj).trans (chat_print_none P hreply _ j)
  · exact congrArg (·.bot.now) outside_free
  · exact length_free.trans (length_print P w _)

/-- One slot of the round. -/
theorem checkOne_exact {w : World} (hreply : w.dccReply = none) (i : Nat) :
    if Overdue w.bot.now (w.chat i) then Emptied i w (w.checkOne P i) else w.checkOne P i = w := by
  unfold World.checkOne
  dsimp only
  split
  · rename_i hover
    split
    · exact emptied_close w i none
    · split
      · exact emptied_giveUp P hreply i _
      · split
        · exact emptied_giveUp P hreply i _
        · split
          · exact emptied_close w i _
          · rename_i hfailed hoffer hconn hidle
            rcases hover with ⟨hopen, hfail | hlate⟩ | hlate | hlate
            · exact absurd ⟨hopen, hfail⟩ hfailed
            · exact absurd ⟨hopen, hlate⟩ hidle
            · exact absurd hlate hoffer
            · exact absurd hlate hconn
  · rename_i hkept
    rw [if_neg fun h => hkept (.inl ⟨h.1, .inl h.2⟩), if_neg fun h => hkept (.inr (.inl h)),
      if_neg fun h => hkept (.inr (.inr h)), if_neg fun h => hkept (.inl ⟨h.1, .inr h.2⟩)]

/-- The round so far: the slots it has been at are emptied if they were overdue, the others are as
they were. -/
theorem checkTimeouts_from {w : World} (hreply : w.dccReply = none) (slots : List Nat) (i : Nat) :
    (slots.foldl (World.checkOne P) w).chat i =
      if i ∈ slots ∧ Overdue w.bot.now (w.chat i) then {} else w.chat i := by
  induction slots generalizing w with
  | nil => simp
  | cons k slots ih =>
      have hone := checkOne_exact P hreply k
      have hnone : (w.checkOne P k).dccReply = none := by
        have hleaves := (leaves_checkOne P w k).reply
        rwa [hreply, or_self] at hleaves
      rw [List.foldl_cons, ih hnone]
      split at hone
      · rename_i hover
        rw [hone.now]
        by_cases hik : i = k
        · subst hik
          rw [hone.self, ite_self, if_pos ⟨List.mem_cons_self, hover⟩]
        · rw [hone.others i hik]
          simp [hik]
      · rename_i hkept
        rw [hone]
        by_cases hik : i = k
        · subst hik
          rw [if_neg fun h => hkept h.2, if_neg fun h => hkept h.2]
        · simp [hik]

/-- **A round empties the slots that are overdue, and changes no other.** -/
theorem checkTimeouts_exact {w : World} (hw : Reach P h w) (i : Nat) :
    (w.checkTimeouts P).chat i = if Overdue w.bot.now (w.chat i) then {} else w.chat i := by
  rw [World.checkTimeouts, checkTimeouts_from P (reach_settled P h hw).2]
  by_cases hi : i < w.dcc.length
  · simp [hi]
  · rw [chat_of_le (Nat.le_of_not_lt hi), ite_self, ite_self]

/-- Two hours of silence. -/
def silence : Event :=
  .work [.outside { aliceWorld.toOutside with bot := { aliceWorld.bot with now := 7300 } }]

theorem checkTimeouts_exact_silence :
    ((aliceWorld.step .clear (fun _ _ => []) silence).checkTimeouts .clear).chat 0 = {} := by
  have hover : Overdue (aliceWorld.step .clear (fun _ _ => []) silence).bot.now
      ((aliceWorld.step .clear (fun _ _ => []) silence).chat 0) := by decide +kernel
  have hround := checkTimeouts_exact .clear (fun _ _ => []) (reach_aliceWorld.step silence) 0
  rwa [if_pos hover] at hround

end

end IrcBot.DccChats
