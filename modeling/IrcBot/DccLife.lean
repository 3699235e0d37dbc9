/-
# What a chat is for (`dcc.rs`)

A chat without slots, sockets and buffers. The bot offers it to an admin who asked under seal; it
dials where a reply from the same nick!user@host says; once the line is open it runs sealed commands
of that admin, until the chat ends. An admin has one chat at a time.

* `before_of_live` — what a chat that goes on has done, from its offer on.
* `before_ran` — what came before a command.
-/
import IrcBot.DccAddr
import IrcBot.Lib.Sessions
import IrcBot.State

namespace IrcBot.DccLife

open Cstr DccAddr Lib.Sessions

/-- Whose chat it is; all of it is fixed when the admin asks. -/
structure Owner where
  uuid : Str
  userHost : Str
  nick : Str
  botnick : Str
  dccToken : Nat
deriving DecidableEq, Repr

inductive Stage where
  | offered (o : Owner)
  | dialling (o : Owner)
  | talking (o : Owner)
deriving DecidableEq, Repr

def Stage.owner : Stage → Owner
  | .offered o => o
  | .dialling o => o
  | .talking o => o

/-- What is recorded of a chat: whose record asked, where a reply came from and what it named, which
record's key sealed a command. -/
inductive Act where
  | offered (u : UserRecord) (o : Owner)
  | dialled (sender : Str) (sa : SocketAddr)
  | opened
  | ran (u : UserRecord) (cmd : Str)
  | closed
deriving DecidableEq, Repr

/-- An admin whose record is not deleted, and whose chat it is. -/
def Admin (u : UserRecord) (o : Owner) : Prop :=
  u.typ = byte 'a' ∧ u.isActive = true ∧ u.uuid = o.uuid

instance (u : UserRecord) (o : Owner) : Decidable (Admin u o) :=
  inferInstanceAs (Decidable (_ ∧ _))

/-- Where the bot connects to: the reply came from the one who was made the offer, and the port and
the network are allowed. -/
def Dialled (o : Owner) (sender : Str) (sa : SocketAddr) : Prop :=
  eqIc o.userHost sender = true ∧ addrAllowed sa = true ∧ dccMinPort ≤ sa.port ∧ sa.port ≤ 65535

instance (o : Owner) (sender : Str) (sa : SocketAddr) : Decidable (Dialled o sender sa) :=
  inferInstanceAs (Decidable (_ ∧ _))

def start : Act → Option Stage
  | .offered u o => if Admin u o then some (.offered o) else none
  | .dialled _ _ => none
  | .opened => none
  | .ran _ _ => none
  | .closed => none

def next : Stage → Act → Option (Option Stage)
  | .offered o, .dialled sender sa =>
      if Dialled o sender sa then some (some (.dialling o)) else none
  | .dialling o, .opened => some (some (.talking o))
  | .talking o, .ran u _ => if Admin u o then some (some (.talking o)) else none
  | _, .closed => some none
  | _, _ => none

theorem owner_next {s t : Stage} {a : Act} (h : next s a = some (some t)) : t.owner = s.owner := by
  unfold next at h
  split at h
  · split at h
    · cases h
      rfl
    · cases h
  · cases h
    rfl
  · split at h
    · cases h
      rfl
    · cases h
  · cases h
  · cases h

/-- The life of a chat. An admin is known by the uuid of the record. -/
def life : Life Stage Act Str where
  start := start
  next := next
  key s := s.owner.uuid
  key_next h := congrArg Owner.uuid (owner_next h)

/-! ### Histories -/

/-- The acts that bring a chat to a stage. -/
def Before : Stage → List Act → Prop
  | .offered o, acts => ∃ u, acts = [.offered u o] ∧ Admin u o
  | .dialling o, acts => ∃ u sender sa, acts = [.offered u o, .dialled sender sa] ∧ Admin u o ∧
      Dialled o sender sa
  | .talking o, acts => ∃ (u : UserRecord) (sender : Str) (sa : SocketAddr)
      (cmds : List (UserRecord × Str)),
      acts = [.offered u o, .dialled sender sa, .opened] ++ cmds.map (fun c => .ran c.1 c.2) ∧
        Admin u o ∧ Dialled o sender sa ∧ ∀ c ∈ cmds, Admin c.1 o

theorem before_follows {a : Act} {s : Stage} {acts : List Act} {r : Option Stage}
    (hstart : start a = some s) (h : life.Follows s acts r) :
    ∀ t, r = some t → Before t (a :: acts) := by
  induction h with
  | refl =>
      rintro t ⟨⟩
      cases a with
      | offered u o =>
          rw [start] at hstart
          split at hstart
          · rename_i hadmin
            cases hstart
            exact ⟨u, rfl, hadmin⟩
          · cases hstart
      | dialled sender sa => cases hstart
      | opened => cases hstart
      | ran u cmd => cases hstart
      | closed => cases hstart
  | @next t acts b r h hnext ih =>
      rintro t' rfl
      have hbefore := ih t rfl
      change DccLife.next t b = some (some t') at hnext
      unfold DccLife.next at hnext
      split at hnext
      · rename_i o sender sa
        split at hnext
        · rename_i hdialled
          cases hnext
          obtain ⟨u, hacts, hadmin⟩ := hbefore
          exact ⟨u, sender, sa, by rw [← List.cons_append, hacts]; rfl, hadmin, hdialled⟩
        · cases hnext
      · rename_i o
        cases hnext
        obtain ⟨u, sender, sa, hacts, hadmin, hdialled⟩ := hbefore
        exact ⟨u, sender, sa, [], by rw [← List.cons_append, hacts]; rfl, hadmin, hdialled, by simp⟩
      · rename_i o u' cmd
        split at hnext
        · rename_i hran
          cases hnext
          obtain ⟨u, sender, sa, cmds, hacts, hadmin, hdialled, hcmds⟩ := hbefore
          refine ⟨u, sender, sa, cmds ++ [(u', cmd)], ?_, hadmin, hdialled, ?_⟩
          · rw [← List.cons_append, hacts, List.map_append, List.append_assoc]
            rfl
          · intro c hc
            rcases List.mem_append.mp hc with hc | hc
            · exact hcmds c hc
            · obtain rfl := List.mem_singleton.mp hc
              exact hran
        · cases hnext
      · cases hnext
      · cases hnext

/-- **What a chat that goes on has done**, from the offer to the stage it is at. -/
theorem before_of_live {d : Desk Stage} {log : List (Nat × Act)} (h : life.Run d log) {n : Nat}
    {s : Stage} (hlive : d.live n = some s) : Before s (actsOf n log) := by
  obtain ⟨a, s₀, rest, hacts, hstart, hfollows⟩ := h.history (h.lt_count hlive)
  rw [hacts]
  exact before_follows hstart hfollows s hlive

/-- **What came before a command**: the offer to an admin, the reply to it, the line, and commands
of the same admin; nothing has ended the chat. -/
theorem before_ran {d : Desk Stage} {log pre post : List (Nat × Act)} (h : life.Run d log) {n : Nat}
    {u : UserRecord} {cmd : Str} (hlog : log = pre ++ (n, .ran u cmd) :: post) :
    ∃ o, Admin u o ∧ Before (.talking o) (actsOf n pre) := by
  obtain ⟨d', hrun, ⟨s, -, hstart⟩ | ⟨s, r, hlive, hnext⟩⟩ := h.before hlog
  · cases hstart
  · have hbefore := before_of_live hrun hlive
    cases s with
    | offered o => cases hnext
    | dialling o => cases hnext
    | talking o =>
        refine ⟨o, ?_, hbefore⟩
        by_contra hnot
        cases (if_neg hnot).symm.trans hnext

end IrcBot.DccLife
