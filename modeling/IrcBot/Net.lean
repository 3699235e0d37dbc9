/-
# Reading a socket (`net.rs`)

`read_available` reads until the socket has no more or its buffer is full. A socket is the list
of what its reads find, in order.

* `reads` — nothing of the stream is lost or changed, whatever the reads are cut into.
-/
import IrcBot.Cstr

namespace IrcBot.Net

open Cstr

/-! ### Sockets -/

/-- What a read finds: bytes that have arrived, of which it takes as many as it asked for, and no
bytes where the other side closed; or one of the errors. -/
inductive Read where
  | data (bytes : Str)
  | interrupted
  | wouldBlock
  | failed
deriving DecidableEq, Repr

inductive ReadOutcome where
  | drained
  | full
  | eof
  | failed
deriving DecidableEq, Repr

namespace Read

def size : Read → Nat
  | data bytes => bytes.length + 1
  | interrupted => 1
  | wouldBlock => 1
  | failed => 1

/-- What is left to read, as a bound on the reads. -/
def left : List Read → Nat
  | [] => 0
  | r :: sock => r.size + left sock

end Read

/-- The bytes that a socket still has to give. -/
def unread : List Read → Str
  | [] => []
  | .data bytes :: sock => if bytes.isEmpty then [] else bytes ++ unread sock
  | .interrupted :: sock => unread sock
  | .wouldBlock :: sock => unread sock
  | .failed :: _ => []

/-- The other side closed the socket, or it is broken. -/
def Closed (sock : List Read) : Prop :=
  sock.head? = some (.data []) ∨ sock.head? = some .failed

/-! ### `read_available` -/

/-- `read_available`, in chunks of 8192 bytes. An empty list has nothing yet. -/
def readAvailable (cap : Nat) (sock : List Read) (into : Str) : ReadOutcome × Str × List Read :=
  if cap ≤ into.length then (.full, into, sock)
  else
    let want := min 8192 (cap - into.length)
    match sock with
    | [] => (.drained, into, [])
    | .interrupted :: sock => readAvailable cap sock into
    | .wouldBlock :: sock => (.drained, into, sock)
    | .failed :: sock => (.failed, into, .failed :: sock)
    | .data bytes :: sock =>
        if bytes.isEmpty then (.eof, into, .data bytes :: sock)
        else if bytes.length ≤ want then readAvailable cap sock (into ++ bytes)
        else
          readAvailable cap (.data (bytes.drop want) :: sock) (into ++ bytes.take want)
termination_by Read.left sock
decreasing_by
  all_goals simp only [Read.left, Read.size, List.length_drop]
  all_goals omega

/-- What reading into a buffer does. -/
structure Reads (cap : Nat) (sock : List Read) (into : Str)
    (r : ReadOutcome × Str × List Read) : Prop where
  got : ∃ got, r.2.1 = into ++ got ∧ unread sock = got ++ unread r.2.2
  fits : into.length ≤ cap → r.2.1.length ≤ cap
  full : r.1 = .full ↔ cap ≤ r.2.1.length
  closed : r.1 = .eof ∨ r.1 = .failed → Closed r.2.2

/-- Bytes of the stream that went into the buffer. -/
theorem Reads.after {cap : Nat} {sock sock' : List Read} {into front : Str}
    {r : ReadOutcome × Str × List Read} (h : Reads cap sock' (into ++ front) r)
    (hfront : unread sock = front ++ unread sock') (hfit : (into ++ front).length ≤ cap) :
    Reads cap sock into r := by
  obtain ⟨got, hinto, hrest⟩ := h.got
  refine ⟨⟨front ++ got, ?_, ?_⟩, fun _ => h.fits hfit, h.full, h.closed⟩
  · rw [hinto, List.append_assoc]
  · rw [hfront, hrest, List.append_assoc]

/-- **The buffer gets the next bytes of the stream, and the socket keeps the rest.** -/
theorem reads (cap : Nat) (sock : List Read) (into : Str) :
    Reads cap sock into (readAvailable cap sock into) := by
  fun_induction readAvailable cap sock into with
  | case1 sock into hcap =>
      exact ⟨⟨[], (List.append_nil _).symm, rfl⟩, id, iff_of_true rfl hcap, by simp⟩
  | case2 into hcap =>
      exact ⟨⟨[], (List.append_nil _).symm, rfl⟩, id, iff_of_false (by simp) hcap, by simp⟩
  | case3 into hcap sock ih => exact ⟨ih.got, ih.fits, ih.full, ih.closed⟩
  | case4 into hcap sock =>
      exact ⟨⟨[], (List.append_nil _).symm, rfl⟩, id, iff_of_false (by simp) hcap, by simp⟩
  | case5 into hcap sock =>
      exact ⟨⟨[], (List.append_nil _).symm, rfl⟩, id, iff_of_false (by simp) hcap,
        fun _ => .inr rfl⟩
  | case6 into hcap bytes sock hempty =>
      refine ⟨⟨[], (List.append_nil _).symm, rfl⟩, id, iff_of_false (by simp) hcap,
        fun _ => .inl ?_⟩
      rw [List.isEmpty_iff.mp hempty]
      rfl
  | case7 into hcap want bytes sock hempty hall ih =>
      refine ih.after ?_ ?_
      · rw [unread, if_neg hempty]
      · rw [List.length_append]
        omega
  | case8 into hcap want bytes sock hempty hmore ih =>
      refine ih.after ?_ ?_
      · have hleft : ¬ (bytes.drop want).isEmpty = true := by
          rw [List.isEmpty_iff, List.drop_eq_nil_iff]
          exact hmore
        rw [unread, if_neg hempty, unread, if_neg hleft, ← List.append_assoc,
          List.take_append_drop]
      · rw [List.length_append, List.length_take]
        omega

theorem unread_of_closed {sock : List Read} (h : Closed sock) : unread sock = [] := by
  cases sock with
  | nil => rfl
  | cons r sock =>
      rcases h with h | h
      · cases h
        rfl
      · cases h
        rfl

end IrcBot.Net
