/-
# The receive loop of the IRC link (`irc_client.rs`)

The server's lines end in CRLF. The loop reads until the socket has no more or its buffer is
full, gives every line that is complete to the parser, and empties a buffer that a line does not
fit in.

* `lines_of_stream` — where every line fits, the parser gets the lines of the stream, whatever
  the reads are cut into.
-/
import IrcBot.HandleLine
import IrcBot.Net
import IrcBot.Lib.Splitter

namespace IrcBot.IrcRead

open Cstr Crypto HandleLine Net Lib

/-! ### The lines of a stream -/

/-- Where the first CRLF is. -/
def findCrlf : Str → Option Nat
  | c :: d :: rest => if c = 13 ∧ d = 10 then some 0 else (findCrlf (d :: rest)).map (· + 1)
  | _ => none

/-- The first line of a buffer, and what follows its CRLF. -/
def nextLine (buf : Str) : Option (Str × Str) :=
  (findCrlf buf).map fun p => (buf.take p, buf.drop (p + 2))

theorem findCrlf_cons (c : UInt8) (s : Str) :
    findCrlf (c :: s) =
      if c = 13 ∧ s.head? = some 10 then some 0 else (findCrlf s).map (· + 1) := by
  cases s with
  | nil =>
      rw [if_neg fun h => nomatch h.2]
      rfl
  | cons d rest =>
      by_cases h : c = 13 ∧ d = 10
      · rw [findCrlf, if_pos h, if_pos ⟨h.1, congrArg some h.2⟩]
      · rw [findCrlf, if_neg h, if_neg fun h' => h ⟨h'.1, Option.some.inj h'.2⟩]

theorem findCrlf_le {s : Str} {p : Nat} (h : findCrlf s = some p) : p + 2 ≤ s.length := by
  induction s generalizing p with
  | nil => cases h
  | cons c s ih =>
      rw [findCrlf_cons] at h
      split at h
      · rename_i hcrlf
        cases h
        cases s with
        | nil => cases hcrlf.2
        | cons d rest => exact Nat.le_add_left 2 rest.length
      · obtain ⟨q, hq, rfl⟩ := Option.map_eq_some_iff.mp h
        have hle := ih hq
        rw [List.length_cons]
        omega

theorem findCrlf_append {s : Str} {p : Nat} (h : findCrlf s = some p) (t : Str) :
    findCrlf (s ++ t) = some p := by
  induction s generalizing p with
  | nil => cases h
  | cons c s ih =>
      have hlen := findCrlf_le h
      have hhead : (s ++ t).head? = s.head? := by
        cases s with
        | nil => exact absurd hlen (by simp)
        | cons d rest => rfl
      rw [findCrlf_cons] at h
      rw [List.cons_append, findCrlf_cons, hhead]
      split
      · rename_i hcrlf
        rw [if_pos hcrlf] at h
        exact h
      · rename_i hcrlf
        rw [if_neg hcrlf] at h
        obtain ⟨q, hq, rfl⟩ := Option.map_eq_some_iff.mp h
        rw [ih hq]
        rfl

/-- A CRLF that more bytes bring ends behind what was there. -/
theorem length_lt_of_findCrlf {s : Str} (h : findCrlf s = none) {t : Str} {p : Nat}
    (ht : findCrlf (s ++ t) = some p) : s.length < p + 2 := by
  induction s generalizing p with
  | nil => exact Nat.succ_pos _
  | cons c s ih =>
      rw [findCrlf_cons] at h
      rw [List.cons_append, findCrlf_cons] at ht
      have hrest : findCrlf s = none := by
        split at h
        · cases h
        · exact Option.map_eq_none_iff.mp h
      split at ht
      · rename_i hcrlf
        cases ht
        cases s with
        | nil => exact Nat.one_lt_two
        | cons d rest =>
            rw [if_pos ⟨hcrlf.1, hcrlf.2⟩] at h
            cases h
      · obtain ⟨q, hq, rfl⟩ := Option.map_eq_some_iff.mp ht
        have hlt := ih hrest hq
        rw [List.length_cons]
        omega

theorem findCrlf_drop {s : Str} (h : findCrlf s = none) (n : Nat) : findCrlf (s.drop n) = none := by
  induction n generalizing s with
  | zero => exact h
  | succ n ih =>
      cases s with
      | nil => exact h
      | cons c s =>
          rw [findCrlf_cons] at h
          split at h
          · cases h
          · exact ih (Option.map_eq_none_iff.mp h)

theorem findCrlf_line {line : Str} (h : findCrlf line = none) (t : Str) :
    findCrlf (line ++ crlf ++ t) = some line.length := by
  induction line with
  | nil => rfl
  | cons c line ih =>
      rw [findCrlf_cons] at h
      split at h
      · cases h
      · rename_i hcrlf
        have hnot : ¬ (c = 13 ∧ (line ++ crlf ++ t).head? = some 10) := by
          rintro ⟨hc, hd⟩
          cases line with
          | nil => cases hd
          | cons d rest => exact hcrlf ⟨hc, hd⟩
        rw [List.cons_append, List.cons_append, findCrlf_cons, if_neg hnot,
          ih (Option.map_eq_none_iff.mp h)]
        rfl

theorem nextLine_eq {a line rest : Str} (h : nextLine a = some (line, rest)) :
    ∃ p, findCrlf a = some p ∧ line = a.take p ∧ rest = a.drop (p + 2) := by
  obtain ⟨p, hp, heq⟩ := Option.map_eq_some_iff.mp h
  cases heq
  exact ⟨p, hp, rfl, rfl⟩

/-- The lines of a stream. -/
def lines : Splitter UInt8 Str where
  next := fun buf => (nextLine buf).map some
  shorter := fun {a rest line} h => by
    obtain ⟨x, hnext, hx⟩ := Option.map_eq_some_iff.mp h
    cases hx
    obtain ⟨p, hp, rfl, rfl⟩ := nextLine_eq hnext
    have hle := findCrlf_le hp
    rw [List.length_drop]
    omega
  stable := fun {a} b {line rest} h => by
    obtain ⟨x, hnext, hx⟩ := Option.map_eq_some_iff.mp h
    cases hx
    obtain ⟨p, hp, rfl, rfl⟩ := nextLine_eq hnext
    have hle := findCrlf_le hp
    rw [nextLine, findCrlf_append hp, Option.map_some, Option.map_some,
      List.take_append_of_le_length (by omega), List.drop_append_of_le_length hle]
  refused := fun {a} b h => by
    obtain ⟨x, -, hx⟩ := Option.map_eq_some_iff.mp h
    cases hx

theorem split_line {a line rest : Str} (h : nextLine a = some (line, rest)) :
    lines.split a = (line :: (lines.split rest).1, (lines.split rest).2) := by
  have hnext : lines.next a = some (some (line, rest)) := congrArg (Option.map some) h
  exact Splitter.split_item hnext

theorem split_unended {a : Str} (h : findCrlf a = none) : lines.split a = ([], some a) := by
  have hnext : lines.next a = none := by
    change ((findCrlf a).map _).map some = none
    rw [h]
    rfl
  exact Splitter.split_none hnext

/-- No stream is refused, and what is left has no CRLF. -/
theorem split_left (a : Str) : ∃ r, (lines.split a).2 = some r ∧ findCrlf r = none := by
  induction a using lines.split_induction with
  | hmore a h =>
      rw [Splitter.split_none h]
      exact ⟨a, rfl, Option.map_eq_none_iff.mp (Option.map_eq_none_iff.mp h)⟩
  | hrefused a h =>
      obtain ⟨x, -, hx⟩ := Option.map_eq_some_iff.mp h
      cases hx
  | hitem a x rest h ih =>
      rw [Splitter.split_item h]
      exact ih

/-- Lines that are each ended with CRLF are the lines of the stream. -/
theorem split_lines {ls : List Str} (h : ∀ line ∈ ls, findCrlf line = none) (rest : Str) :
    lines.split ((ls.map (· ++ crlf)).flatten ++ rest) =
      (ls ++ (lines.split rest).1, (lines.split rest).2) := by
  induction ls with
  | nil => rfl
  | cons line ls ih =>
      have hline := findCrlf_line (h line List.mem_cons_self) ((ls.map (· ++ crlf)).flatten ++ rest)
      have hnext : nextLine (line ++ crlf ++ ((ls.map (· ++ crlf)).flatten ++ rest)) =
          some (line, (ls.map (· ++ crlf)).flatten ++ rest) := by
        rw [nextLine, hline, Option.map_some, List.append_assoc, List.take_left,
          ← List.append_assoc,
          List.drop_left' (by rw [List.length_append]; rfl)]
      rw [List.map_cons, List.flatten_cons, List.append_assoc, split_line hnext,
        ih fun l hl => h l (List.mem_cons_of_mem line hl)]
      rfl

/-! ### Reading -/

/-- What a read of a TLS link finds: plaintext, no plaintext where the other side closed, the end
of the connection without that, an error; or nothing yet, and then what comes of reading more
from the socket. -/
inductive TlsRead where
  | plain (bytes : Str)
  | truncated
  | broken
  | more
  | interrupted
  | wouldBlock
  | failed
deriving DecidableEq, Repr

/-- The link over a socket or over TLS. -/
inductive Sock where
  | plain (reads : List Read)
  | tls (reads : List TlsRead)
deriving DecidableEq, Repr

def TlsRead.size : TlsRead → Nat
  | plain bytes => bytes.length + 1
  | truncated => 1
  | broken => 1
  | more => 1
  | interrupted => 1
  | wouldBlock => 1
  | failed => 1

/-- The longest line that fits, with its CRLF. -/
def ircRbufCap : Nat := maxBuffer * 2 - 1

/-- The TLS half of `IrcConn::read`. -/
def readTls (sock : List TlsRead) (rbuf : Str) : ReadOutcome × Str × List TlsRead :=
  if ircRbufCap ≤ rbuf.length then (.full, rbuf, sock)
  else
    let want := min 8192 (ircRbufCap - rbuf.length)
    match sock with
    | [] => (.drained, rbuf, [])
    | .plain bytes :: sock =>
        if bytes.isEmpty then (.eof, rbuf, .plain bytes :: sock)
        else if bytes.length ≤ want then readTls sock (rbuf ++ bytes)
        else readTls (.plain (bytes.drop want) :: sock) (rbuf ++ bytes.take want)
    | .truncated :: sock => (.eof, rbuf, .truncated :: sock)
    | .broken :: sock => (.failed, rbuf, .broken :: sock)
    | .more :: sock => readTls sock rbuf
    | .interrupted :: sock => readTls sock rbuf
    | .wouldBlock :: sock => (.drained, rbuf, sock)
    | .failed :: sock => (.failed, rbuf, .failed :: sock)
termination_by (sock.map TlsRead.size).sum
decreasing_by
  all_goals simp only [List.map_cons, List.sum_cons, TlsRead.size, List.length_drop]
  all_goals omega

/-- `IrcConn::read`. -/
def Sock.read (sock : Sock) (rbuf : Str) : ReadOutcome × Str × Sock :=
  match sock with
  | plain reads =>
      let r := readAvailable ircRbufCap reads rbuf
      (r.1, r.2.1, plain r.2.2)
  | tls reads =>
      let r := readTls reads rbuf
      (r.1, r.2.1, tls r.2.2)

/-- A TLS link gives its plaintext as a socket gives its bytes. -/
def TlsRead.asRead : TlsRead → Read
  | plain bytes => .data bytes
  | truncated => .data []
  | broken => .failed
  | more => .interrupted
  | interrupted => .interrupted
  | wouldBlock => .wouldBlock
  | failed => .failed

def Sock.reads : Sock → List Read
  | plain reads => reads
  | tls reads => reads.map TlsRead.asRead

theorem readTls_eq (sock : List TlsRead) (rbuf : Str) :
    readAvailable ircRbufCap (sock.map TlsRead.asRead) rbuf =
      ((readTls sock rbuf).1, (readTls sock rbuf).2.1, (readTls sock rbuf).2.2.map TlsRead.asRead) := by
  fun_induction readTls sock rbuf with
  | case1 sock rbuf hfull => rw [readAvailable, if_pos hfull]
  | case2 rbuf hfull =>
      rw [List.map_nil, readAvailable, if_neg hfull]
  | case3 rbuf hfull bytes sock hempty =>
      rw [List.map_cons, readAvailable, if_neg hfull]
      dsimp only [TlsRead.asRead]
      rw [if_pos hempty]
  | case4 rbuf hfull want bytes sock hempty hall ih =>
      rw [List.map_cons, readAvailable, if_neg hfull]
      dsimp only [TlsRead.asRead]
      rw [if_neg hempty, if_pos hall]
      exact ih
  | case5 rbuf hfull want bytes sock hempty hmore ih =>
      rw [List.map_cons, readAvailable, if_neg hfull]
      dsimp only [TlsRead.asRead]
      rw [if_neg hempty, if_neg hmore]
      exact ih
  | case6 rbuf hfull sock =>
      rw [List.map_cons, readAvailable, if_neg hfull]
      rfl
  | case7 rbuf hfull sock =>
      rw [List.map_cons, readAvailable, if_neg hfull]
      rfl
  | case8 rbuf hfull sock ih =>
      rw [List.map_cons, readAvailable, if_neg hfull]
      exact ih
  | case9 rbuf hfull sock ih =>
      rw [List.map_cons, readAvailable, if_neg hfull]
      exact ih
  | case10 rbuf hfull sock =>
      rw [List.map_cons, readAvailable, if_neg hfull]
      rfl
  | case11 rbuf hfull sock =>
      rw [List.map_cons, readAvailable, if_neg hfull]
      rfl

/-- **Reading takes the next bytes of the stream**, over TLS as well. -/
theorem Sock.read_reads (sock : Sock) (rbuf : Str) :
    Reads ircRbufCap sock.reads rbuf
      ((sock.read rbuf).1, (sock.read rbuf).2.1, (sock.read rbuf).2.2.reads) := by
  cases sock with
  | plain reads => exact Net.reads ircRbufCap reads rbuf
  | tls reads =>
      have h := Net.reads ircRbufCap (reads.map TlsRead.asRead) rbuf
      rw [readTls_eq] at h
      exact h

/-! ### The loop -/

/-- The bot, the token of its link to a server while there is one, what was read and is no line
yet, and the lines that the parser was given. -/
structure Session where
  bot : BotState
  link : Option Nat
  rbuf : Str := []
  given : List Str := []

/-- What the rest of the bot has to do with the link: the handler of a line can drop it, and
something is left to do when it is gone. -/
structure LinkRest where
  drops : BotState → Str → Bool
  closed : BotState → BotState

/-- What a round of the loop leaves, and whether there is another. -/
structure Round where
  again : Bool
  session : Session
  sock : Sock

/-- A line as the parser gets it. -/
def lineText (line : Str) : Str := untilNul (fromUtf8Lossy line)

section

variable (P : Primitives) (R : Receivers) (L : LinkRest) (token : Nat)

/-- One line goes to the parser. -/
def giveLine (s : Session) (line : Str) : Session :=
  { s with
    bot := handleLine P R s.bot (lineText line)
    link := if L.drops s.bot (lineText line) then none else s.link
    given := s.given ++ [lineText line] }

/-- The lines of a round, as long as the link is there. -/
def giveLines (s : Session) : List Str → Session
  | [] => s
  | line :: rest => if s.link = some token then giveLines (giveLine P R L s line) rest else s

/-- The session after the read of a round, with its lines taken out of the buffer. -/
def filled (s : Session) (sock : Sock) : List Str × Session :=
  let split := lines.split (sock.read s.rbuf).2.1
  (split.1, { s with
    rbuf := split.2.getD []
    bot := if split.1.isEmpty then s.bot else { s.bot with lastPongTime := s.bot.now } })

/-- A buffer that is still full holds a line that does not fit. -/
def flushLong (s : Session) : Session :=
  if ircRbufCap ≤ s.rbuf.length then { s with rbuf := [] } else s

/-- `disconnect`. -/
def disconnect (s : Session) : Session := { s with link := none, bot := L.closed s.bot }

/-- One round of the loop of `handle_read`. -/
def round (s : Session) (sock : Sock) : Round :=
  let read := sock.read s.rbuf
  let s := giveLines P R L token (filled s sock).2 (filled s sock).1
  if s.link ≠ some token then ⟨false, s, read.2.2⟩
  else
    match read.1 with
    | .full => ⟨true, flushLong s, read.2.2⟩
    | .drained => ⟨false, flushLong s, read.2.2⟩
    | .eof | .failed => ⟨false, disconnect L (flushLong s), read.2.2⟩

/-- `handle_read`; nothing where the fuel did not do. -/
def handleRead : Nat → Session → Sock → Option (Session × Sock)
  | 0, _, _ => none
  | fuel + 1, s, sock =>
      if s.link = some token then
        let r := round P R L token s sock
        if r.again then handleRead fuel r.session r.sock else some (r.session, r.sock)
      else some (s, sock)

end

/-! ### Giving the lines -/

section

variable {P : Primitives} {R : Receivers} {L : LinkRest} {token : Nat} {s : Session} {sock : Sock}

theorem giveLines_rbuf (ls : List Str) : ∀ s : Session,
    (giveLines P R L token s ls).rbuf = s.rbuf := by
  induction ls with
  | nil => exact fun _ => rfl
  | cons line ls ih =>
      intro s
      unfold giveLines
      split
      · exact ih _
      · rfl

/-- The parser gets the first of the lines, and all of them where the link is there after. -/
theorem giveLines_given (ls : List Str) : ∀ s : Session,
    (∃ n, (giveLines P R L token s ls).given = s.given ++ (ls.take n).map lineText) ∧
      ((giveLines P R L token s ls).link = some token →
        s.link = some token ∧ (giveLines P R L token s ls).given = s.given ++ ls.map lineText) := by
  induction ls with
  | nil => exact fun s => ⟨⟨0, (List.append_nil _).symm⟩, fun h => ⟨h, (List.append_nil _).symm⟩⟩
  | cons line ls ih =>
      intro s
      unfold giveLines
      split
      · rename_i hlink
        obtain ⟨⟨n, hsome⟩, hall⟩ := ih (giveLine P R L s line)
        have hone : (giveLine P R L s line).given = s.given ++ [lineText line] := rfl
        rw [hone, List.append_assoc] at hsome hall
        exact ⟨⟨n + 1, hsome⟩, fun h => ⟨hlink, (hall h).2⟩⟩
      · rename_i hlink
        exact ⟨⟨0, (List.append_nil _).symm⟩, fun h => absurd h hlink⟩

/-! ### One round -/

theorem flushLong_rbuf (s : Session) :
    (flushLong s).rbuf = s.rbuf ∨ (ircRbufCap ≤ s.rbuf.length ∧ (flushLong s).rbuf = []) := by
  unfold flushLong
  split
  · rename_i hfull
    exact .inr ⟨hfull, rfl⟩
  · exact .inl rfl

theorem length_flushLong_lt (s : Session) : (flushLong s).rbuf.length < ircRbufCap := by
  unfold flushLong
  split
  · exact Nat.lt_of_lt_of_le (Nat.zero_lt_succ 0) (by decide)
  · rename_i hroom
    exact Nat.lt_of_not_le hroom

theorem flushLong_same (s : Session) :
    (flushLong s).link = s.link ∧ (flushLong s).given = s.given := by
  unfold flushLong
  split
  · exact ⟨rfl, rfl⟩
  · exact ⟨rfl, rfl⟩

/-- A round goes on with the lines that it found. Where the link is there after it, they were all
given. -/
theorem round_cases (P : Primitives) (R : Receivers) (L : LinkRest) (token : Nat) (s : Session)
    (sock : Sock) :
    (round P R L token s sock).sock = (sock.read s.rbuf).2.2 ∧
      (∃ n, (round P R L token s sock).session.given =
        s.given ++ ((filled s sock).1.take n).map lineText) ∧
      ((round P R L token s sock).session.link = some token →
        (round P R L token s sock).session.given = s.given ++ (filled s sock).1.map lineText ∧
          ((round P R L token s sock).session.rbuf = (filled s sock).2.rbuf ∨
            (ircRbufCap ≤ (filled s sock).2.rbuf.length ∧
              (round P R L token s sock).session.rbuf = []))) := by
  obtain ⟨hsome, hall⟩ : (∃ n, (giveLines P R L token (filled s sock).2 (filled s sock).1).given =
      (filled s sock).2.given ++ ((filled s sock).1.take n).map lineText) ∧
      ((giveLines P R L token (filled s sock).2 (filled s sock).1).link = some token →
        (filled s sock).2.link = some token ∧
        (giveLines P R L token (filled s sock).2 (filled s sock).1).given =
          (filled s sock).2.given ++ (filled s sock).1.map lineText) :=
    giveLines_given _ _
  have hrbuf : (giveLines P R L token (filled s sock).2 (filled s sock).1).rbuf =
      (filled s sock).2.rbuf := giveLines_rbuf _ _
  have hgiven : (filled s sock).2.given = s.given := rfl
  rw [hgiven] at hsome hall
  unfold round
  dsimp only
  generalize giveLines P R L token (filled s sock).2 (filled s sock).1 = after at hsome hall hrbuf
  have hlong := flushLong_rbuf after
  rw [hrbuf] at hlong
  obtain ⟨hlink, hsame⟩ := flushLong_same after
  split
  · rename_i hdown
    exact ⟨rfl, hsome, fun h => absurd h hdown⟩
  · split
    · exact ⟨rfl, by rw [hsame]; exact hsome, fun h =>
        ⟨by rw [hsame]; exact (hall (hlink ▸ h)).2, hlong⟩⟩
    · exact ⟨rfl, by rw [hsame]; exact hsome, fun h =>
        ⟨by rw [hsame]; exact (hall (hlink ▸ h)).2, hlong⟩⟩
    · exact ⟨rfl, by rw [disconnect, hsame]; exact hsome, fun h => nomatch h⟩
    · exact ⟨rfl, by rw [disconnect, hsame]; exact hsome, fun h => nomatch h⟩

/-- A round that stops at a full buffer has made room in it. -/
theorem round_again {s : Session} {sock : Sock} (h : (round P R L token s sock).again = true) :
    (round P R L token s sock).session.rbuf.length +
        (unread (round P R L token s sock).sock.reads).length <
      s.rbuf.length + (unread sock.reads).length := by
  have hread := sock.read_reads s.rbuf
  obtain ⟨got, hinto, hunread⟩ := hread.got
  have hfull := hread.full
  dsimp only at hinto hunread hfull
  have hlen := congrArg List.length hinto
  have hlen' := congrArg List.length hunread
  rw [List.length_append] at hlen hlen'
  unfold round at h ⊢
  dsimp only at h ⊢
  split at h
  · cases h
  · rename_i hup
    rw [if_neg hup]
    split at h
    · rename_i houtcome
      have hroom := length_flushLong_lt (giveLines P R L token (filled s sock).2 (filled s sock).1)
      have hcap := hfull.mp houtcome
      dsimp only
      omega
    · cases h
    · cases h
    · cases h

/-- So the loop ends. -/
theorem handleRead_ends (fuel : Nat) : ∀ {s : Session} {sock : Sock},
    s.rbuf.length + (unread sock.reads).length < fuel →
    ∃ r, handleRead P R L token fuel s sock = some r := by
  induction fuel with
  | zero => exact fun h => absurd h (Nat.not_lt_zero _)
  | succ fuel ih =>
      intro s sock hfuel
      unfold handleRead
      dsimp only
      split
      · split
        · rename_i hagain
          have hless := round_again hagain
          exact ih (by omega)
        · exact ⟨_, rfl⟩
      · exact ⟨_, rfl⟩

/-- The buffer has the end of what was read, all of it unless that is a line that does not fit. -/
def EndOf (rbuf t : Str) : Prop := rbuf = t ∨ (ircRbufCap ≤ t.length ∧ rbuf <:+ t)

/-- Where the lines fit, the lines of the buffer are those of the stream. -/
theorem split_endOf {rbuf t : Str} (h : EndOf rbuf t) (ht : findCrlf t = none) (got : Str)
    (hfit : ∀ line ∈ (lines.split (t ++ got)).1, line.length + 2 ≤ ircRbufCap) :
    (lines.split (rbuf ++ got)).1 = (lines.split (t ++ got)).1 ∧
      EndOf ((lines.split (rbuf ++ got)).2.getD []) ((lines.split (t ++ got)).2.getD []) := by
  rcases h with rfl | ⟨hlong, hend⟩
  · exact ⟨rfl, .inl rfl⟩
  · have hnone : findCrlf (t ++ got) = none := by
      cases hp : findCrlf (t ++ got) with
      | none => rfl
      | some p =>
          -- the line that would end here does not fit
          have hlt := length_lt_of_findCrlf ht hp
          have hle := findCrlf_le hp
          have hnext : nextLine (t ++ got) = some ((t ++ got).take p, (t ++ got).drop (p + 2)) := by
            rw [nextLine, hp]
            rfl
          have hshort := hfit _ (by rw [split_line hnext]; exact List.mem_cons_self)
          rw [List.length_take] at hshort
          omega
    obtain ⟨front, rfl⟩ := hend
    have hnone' : findCrlf (rbuf ++ got) = none := by
      have hdrop := findCrlf_drop hnone front.length
      rwa [List.append_assoc, List.drop_left] at hdrop
    rw [split_unended hnone, split_unended hnone']
    refine ⟨rfl, .inr ⟨?_, ?_⟩⟩
    · rw [Option.getD_some, List.length_append]
      omega
    · rw [Option.getD_some, Option.getD_some, List.append_assoc]
      exact List.suffix_append front _

end

/-! ### Runs -/

section

variable (P : Primitives) (R : Receivers) (L : LinkRest) (token : Nat)

/-- What the bot does with a link whose socket gives `stream`, from the moment it is opened:
rounds of the receive loop, and anything else between them, which may drop the link. -/
inductive Run (stream : Str) : Session → Sock → Prop
  | opened {s : Session} {sock : Sock} (hlink : s.link = some token) (hrbuf : s.rbuf = [])
      (hgiven : s.given = []) (hsock : unread sock.reads = stream) : Run stream s sock
  | rest {s : Session} {sock : Sock} (h : Run stream s sock) (bot : BotState) (link : Option Nat)
      (hlink : link = s.link ∨ link = none) : Run stream { s with bot, link } sock
  | round {s : Session} {sock : Sock} (h : Run stream s sock) (hlink : s.link = some token) :
      Run stream (round P R L token s sock).session (round P R L token s sock).sock

end

/-- What was given is of the stream, and while the link is there it is all that was read. -/
structure Inv (token : Nat) (stream : Str) (s : Session) (sock : Sock) : Prop where
  given : s.given <+: (lines.split stream).1.map lineText
  up : s.link = some token → ∃ consumed t, stream = consumed ++ unread sock.reads ∧
    s.given = (lines.split consumed).1.map lineText ∧ (lines.split consumed).2 = some t ∧
      EndOf s.rbuf t

section

variable {P : Primitives} {R : Receivers} {L : LinkRest} {token : Nat} {stream : Str} {s : Session}
  {sock : Sock}

theorem Inv.round (h : Inv token stream s sock)
    (hfit : ∀ line ∈ (lines.split stream).1, line.length + 2 ≤ ircRbufCap)
    (hlink : s.link = some token) :
    Inv token stream (round P R L token s sock).session (round P R L token s sock).sock := by
  obtain ⟨consumed, t, hstream, hgiven, hleft, hend⟩ := h.up hlink
  obtain ⟨got, hread, hunread⟩ := (sock.read_reads s.rbuf).got
  dsimp only at hread hunread
  have ht : findCrlf t = none := by
    obtain ⟨r, hr, hnone⟩ := split_left consumed
    cases hleft.symm.trans hr
    exact hnone
  have hmore := Splitter.split_append (S := lines) hleft got
  obtain ⟨more, hfront⟩ : ∃ more,
      (lines.split stream).1 = (lines.split (consumed ++ got)).1 ++ more := by
    obtain ⟨r, hr, -⟩ := split_left (consumed ++ got)
    have hall := Splitter.split_append (S := lines) hr (unread (sock.read s.rbuf).2.2.reads)
    rw [List.append_assoc, ← hunread, ← hstream] at hall
    exact ⟨_, congrArg Prod.fst hall⟩
  -- what is found in the buffer is what the bytes that were read add to the stream
  obtain ⟨hfound, hend'⟩ := split_endOf hend ht got fun line hl => hfit line (by
    rw [hfront, hmore]
    exact List.mem_append_left more (List.mem_append_right _ hl))
  obtain ⟨hsock, ⟨n, hsome⟩, hall⟩ := round_cases P R L token s sock
  have hfilled : (filled s sock).1 = (lines.split (t ++ got)).1 := by
    rw [← hfound, ← hread]
    rfl
  have hrbuf : (filled s sock).2.rbuf = (lines.split (s.rbuf ++ got)).2.getD [] := by
    rw [← hread]
    rfl
  rw [hfilled, hgiven, ← List.map_append] at hsome hall
  rw [hrbuf] at hall
  constructor
  · rw [hsome, hfront, hmore, List.append_assoc]
    refine List.IsPrefix.map lineText ?_
    rw [List.prefix_append_right_inj]
    exact (List.take_prefix n _).trans (List.prefix_append _ _)
  · intro hup
    obtain ⟨hall, hafter⟩ := hall hup
    obtain ⟨t', ht', -⟩ := split_left (t ++ got)
    rw [ht', Option.getD_some] at hend'
    refine ⟨consumed ++ got, t', ?_, ?_, ?_, ?_⟩
    · rw [hstream, hunread, hsock, List.append_assoc]
    · rw [hall, hmore]
    · rw [hmore, ht']
    · rcases hafter with hkept | ⟨hfull, hflushed⟩
      · rw [hkept]
        exact hend'
      · rw [hflushed]
        refine .inr ⟨?_, List.nil_suffix⟩
        rcases hend' with heq | ⟨hlong, -⟩
        · rwa [← heq]
        · exact hlong

theorem Run.inv (hfit : ∀ line ∈ (lines.split stream).1, line.length + 2 ≤ ircRbufCap)
    (h : Run P R L token stream s sock) : Inv token stream s sock := by
  induction h with
  | opened hlink hrbuf hgiven hsock =>
      have hnil : lines.split [] = ([], some []) := split_unended rfl
      refine ⟨hgiven ▸ List.nil_prefix, fun _ => ⟨[], [], hsock.symm, ?_, ?_, .inl hrbuf⟩⟩
      · rw [hgiven, hnil]
        rfl
      · rw [hnil]
  | rest _ bot link hlink ih =>
      refine ⟨ih.given, fun h => ih.up ?_⟩
      rcases hlink with rfl | rfl
      · exact h
      · cases h
  | round _ hlink ih => exact ih.round hfit hlink

/-- The whole of `handle_read` is rounds of its loop. -/
theorem Run.handleRead (fuel : Nat) : ∀ {s : Session} {sock : Sock} {r : Session × Sock},
    Run P R L token stream s sock → IrcRead.handleRead P R L token fuel s sock = some r →
      Run P R L token stream r.1 r.2 := by
  induction fuel with
  | zero => exact fun _ h => nomatch h
  | succ fuel ih =>
      intro s sock r h hrun
      unfold IrcRead.handleRead at hrun
      dsimp only at hrun
      split at hrun
      · rename_i hlink
        split at hrun
        · exact ih (h.round hlink) hrun
        · cases hrun
          exact h.round hlink
      · cases hrun
        exact h

/-- **The parser gets the lines of the stream**, whatever the reads are cut into: never others,
while the link is there all those of what was read, and so at the end all of them. -/
theorem lines_of_stream (h : Run P R L token stream s sock)
    (hfit : ∀ line ∈ (lines.split stream).1, line.length + 2 ≤ ircRbufCap) :
    s.given <+: (lines.split stream).1.map lineText ∧
      (s.link = some token → ∃ consumed, stream = consumed ++ unread sock.reads ∧
        s.given = (lines.split consumed).1.map lineText) ∧
      (s.link = some token → unread sock.reads = [] →
        s.given = (lines.split stream).1.map lineText) := by
  have hinv := h.inv hfit
  refine ⟨hinv.given, fun hlink => ?_, fun hlink hread => ?_⟩
  · obtain ⟨consumed, t, hstream, hgiven, -, -⟩ := hinv.up hlink
    exact ⟨consumed, hstream, hgiven⟩
  · obtain ⟨consumed, t, hstream, hgiven, -, -⟩ := hinv.up hlink
    rw [hread, List.append_nil] at hstream
    rw [hstream]
    exact hgiven

end

/-- Two lines, with a read that ends within the first CRLF. -/
def cutUp : Sock := .plain [.data [65, 13], .interrupted, .data [10, 66, 13, 10]]

theorem lines_of_stream_cutUp :
    let r := round .clear .idle ⟨fun _ _ => false, id⟩ 1 { bot := {}, link := some 1 } cutUp
    (∀ line ∈ (lines.split [65, 13, 10, 66, 13, 10]).1, line.length + 2 ≤ ircRbufCap) ∧
      r.session.given <+: (lines.split [65, 13, 10, 66, 13, 10]).1.map lineText ∧
      (r.session.link = some 1 → ∃ consumed, [65, 13, 10, 66, 13, 10] = consumed ++ unread r.sock.reads ∧
        r.session.given = (lines.split consumed).1.map lineText) ∧
      (r.session.link = some 1 → unread r.sock.reads = [] →
        r.session.given = (lines.split [65, 13, 10, 66, 13, 10]).1.map lineText) := by
  have hfit : ∀ line ∈ (lines.split [65, 13, 10, 66, 13, 10]).1, line.length + 2 ≤ ircRbufCap := by
    have hlines : ([[65], [66]].map (· ++ crlf)).flatten ++ [] =
      ([65, 13, 10, 66, 13, 10] : Str) := rfl
    rw [← hlines, split_lines (by decide), split_unended rfl]
    decide
  exact ⟨hfit, lines_of_stream (.round (.opened rfl rfl rfl rfl) rfl) hfit⟩

end IrcBot.IrcRead
