/-
# Chats (`dcc.rs`)

A chat is one of four slots. While a command from a chat runs, its replies go down the chat instead
of to IRC.

* `queue_same` — a line that is queued changes neither whose chat it is nor its state.
* `printf_frame` — a reply reaches no chat but that of the command.
-/
import IrcBot.SendLine

namespace IrcBot.Dcc

open Cstr Sendq

/-! ### Sessions -/

inductive DccPhase where
  | free
  | offered
  | connecting
  | opened
deriving DecidableEq, Repr

/-- What a write to a socket finds. -/
inductive Write where
  | took (n : Nat)
  | wouldBlock
  | failed
deriving DecidableEq, Repr

/-- `net::flush`: whether the socket is good, and what is left in the buffer. -/
def netFlush : List Write → Str → Bool × Str × List Write
  | ws, [] => (true, [], ws)
  | [], buf => (true, buf, [])
  | .wouldBlock :: ws, buf => (true, buf, ws)
  | .failed :: ws, buf => (false, buf, ws)
  | .took n :: ws, buf => if n = 0 then (false, buf, ws) else netFlush ws (buf.drop n)

structure DccSession where
  phase : DccPhase := .free
  sock : Option (List Write) := none
  dccToken : Nat := 0
  /-- Write error or overflow. -/
  failed : Bool := false
  nick : Str := []
  outbuf : Str := []
deriving DecidableEq, Repr

/-- `flush`. -/
def flush (s : DccSession) : DccSession :=
  match s.sock with
  | none => s
  | some ws =>
      let r := netFlush ws s.outbuf
      { s with sock := some r.2.2, outbuf := r.2.1, failed := s.failed || !r.1 }

/-- `queue`: one line, and an attempt to send it. -/
def queue (s : DccSession) (text : Str) : DccSession :=
  if s.phase ≠ .opened ∨ s.failed = true then s
  else if dccOutbufMax < s.outbuf.length + text.length + 1 then { s with failed := true }
  else flush { s with outbuf := s.outbuf ++ text ++ str "\n" }

/-- Whose chat a slot holds, and how far it is. -/
def chatOf (s : DccSession) : DccPhase × Nat × Str := (s.phase, s.dccToken, s.nick)

/-- A text that is queued changes nothing of who is in the chat. -/
theorem queue_same (s : DccSession) (text : Str) : chatOf (queue s text) = chatOf s := by
  unfold queue
  split
  · rfl
  · split
    · rfl
    · unfold flush
      split
      · rfl
      · rfl

/-- Nor do many. -/
theorem foldl_queue_same (texts : List Str) : ∀ s, chatOf (texts.foldl queue s) = chatOf s := by
  induction texts with
  | nil =>
      intro s
      rfl
  | cons text texts ih =>
      intro s
      exact (ih (queue s text)).trans (queue_same s text)

/-! ### Replies -/

/-- Where replies go: the IRC link, the chats, the chat whose command runs, and the key of a sealed
command. -/
structure Replies where
  wire : Wire := {}
  a2r : A2rCtx := {}
  dcc : List DccSession := List.replicate dccMaxSessions {}
  dccReply : Option Nat := none

variable (P : Primitives)

/-- `irc_printf`, with the line queued for its chat. -/
def printf (r : Replies) (line : Str) : Replies :=
  let s : Sender :=
    { wire := r.wire, a2r := r.a2r
      dccReply := r.dccReply.bind fun i => r.dcc[i]?.map (·.nick) }
  let out := (Sendq.printf P s line).2
  { r with
    wire := out.wire
    a2r := out.a2r
    dcc := r.dccReply.elim r.dcc fun i => r.dcc.modify i fun s => out.dccOut.foldl queue s }

/-- `free`: the slot and, if its command runs, the reply context are released. -/
def free (r : Replies) (i : Nat) : Replies :=
  { r with
    dcc := r.dcc.set i {}
    dccReply := if r.dccReply = some i then none else r.dccReply }

theorem set_self_eq {l : List DccSession} {i : Nat} {a s : DccSession}
    (h : (l.set i a)[i]? = some s) : s = a := by
  obtain ⟨-, rfl⟩ := List.getElem?_eq_some_iff.mp h
  exact List.getElem_set_self _

/-- The chats of `r` and `r'` are the same sessions, and none but that of the command was
written. -/
structure SameChats (r r' : Replies) : Prop where
  reply : r'.dccReply = r.dccReply
  length : r'.dcc.length = r.dcc.length
  same : ∀ i : Nat, (r'.dcc[i]?).map chatOf = (r.dcc[i]?).map chatOf
  others : ∀ i : Nat, r.dccReply ≠ some i → r'.dcc[i]? = r.dcc[i]?

theorem SameChats.refl (r : Replies) : SameChats r r := ⟨rfl, rfl, fun _ => rfl, fun _ _ => rfl⟩

theorem SameChats.trans {r r' r'' : Replies} (h : SameChats r r') (h' : SameChats r' r'') :
    SameChats r r'' := by
  constructor
  · exact h'.reply.trans h.reply
  · exact h'.length.trans h.length
  · intro i
    exact (h'.same i).trans (h.same i)
  · intro i hi
    exact (h'.others i (by rwa [h.reply])).trans (h.others i hi)

/-- **A reply reaches no chat but that of the command.** -/
theorem printf_frame (r : Replies) (line : Str) : SameChats r (printf P r line) := by
  unfold printf
  dsimp only
  cases hreply : r.dccReply with
  | none => exact ⟨by rw [hreply], rfl, fun _ => rfl, fun _ _ => rfl⟩
  | some i =>
      dsimp only [Option.elim_some]
      constructor
      · exact hreply.symm ▸ rfl
      · exact List.length_modify _ _ _
      · intro j
        dsimp only
        rw [List.getElem?_modify]
        cases r.dcc[j]? with
        | none => rfl
        | some s =>
            by_cases hij : i = j
            · simp [hij, foldl_queue_same]
            · simp [hij]
      · intro j hj
        dsimp only
        have hij : i ≠ j := by
          rintro rfl
          exact hj hreply
        rw [List.getElem?_modify]
        simp [hij]

end IrcBot.Dcc
