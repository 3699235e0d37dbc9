/-
# What happens to a chat (`dcc.rs`)

The bytes that a chat sends are cut into lines, and each line is a command or the end of the chat. A
poll event goes to the chat whose token it carries; a round of the main loop ends what is overdue.
-/
import IrcBot.Dispatch
import IrcBot.Net

namespace IrcBot.DccChats

open Cstr Crypto DccLife

namespace World

variable (P : Primitives) (h : Handler)

/-! ### Reading -/

/-- A line without the CR before its LF. -/
def chomp (line : Str) : Str := if line.getLast? = some 13 then line.dropLast else line

def notSealed : Str := str "That was not a valid sealed command from your key; closing."

/-- A byte that no frame has, or that a CR came before. -/
def badByte (inbuf : Str) (c : UInt8) : Bool :=
  (c < 0x20 && c ≠ 13) || c == 0x7f || inbuf.getLast? == some 13

/-- A line has arrived: false when reading is over. -/
def takeLine (w : World) (i : Nat) (token : Nat) : Bool × World :=
  let line := chomp (w.chat i).inbuf
  let w := w.modifyChat i fun s => { s with inbuf := [] }
  if line.isEmpty then (true, w)
  else
    let r := w.handleDccLine P h i (fromUtf8Lossy line)
    if !r.1 then
      (false, if (r.2.chat i).token = some token then r.2.close i (some notSealed) else r.2)
    else (decide ((r.2.chat i).token = some token ∧ (r.2.chat i).phase = .opened), r.2)

/-- One byte of `read`. -/
def readByte (w : World) (i : Nat) (token : Nat) (c : UInt8) : Bool × World :=
  if c = 10 then w.takeLine P h i token
  else if badByte (w.chat i).inbuf c then
    (false, w.close i (some (str "Unexpected control byte; closing.")))
  else if a2LineMax < (w.chat i).inbuf.length then
    (false, w.close i (some (str "Line too long; closing.")))
  else (true, w.modifyChat i fun s => { s with inbuf := s.inbuf ++ [c] })

/-- The loop over what one read brought. -/
def readBytes (i token : Nat) : World → Str → Bool × World
  | w, [] => (true, w)
  | w, c :: bytes =>
      let r := w.readByte P h i token c
      if r.1 then readBytes i token r.2 bytes else r

/-- `read`: until the socket has no more. -/
def read (i token : Nat) : World → List Net.Read → World
  | w, [] => w
  | w, r :: sock =>
      if (w.chat i).sock.isNone then w
      else
        match r with
        | .interrupted => read i token w sock
        | .wouldBlock => w
        | .failed => w.free i
        | .data bytes =>
            if bytes.isEmpty then w.free i
            else
              let r := w.readBytes P h i token bytes
              if r.1 then read i token r.2 sock else r.2

/-! ### Events -/

/-- `handle_event`, with what the socket says and gives. -/
def handleEvent (w : World) (i token : Nat) (readable writable : Bool) (st : Connected)
    (sock : List Net.Read) : World :=
  if (w.chat i).token ≠ some token ∨ (w.chat i).sock.isNone then w
  else
    match (w.chat i).phase with
    | .connecting =>
        let w := if writable then w.onConnect P i st else w
        if readable ∧ (w.chat i).phase = .opened then w.read P h i token sock else w
    | .opened =>
        let w := if writable then w.flushTo i else w
        let w := if !(w.chat i).failed ∧ readable then w.read P h i token sock else w
        if (w.chat i).token = some token ∧ (w.chat i).phase = .opened ∧ (w.chat i).failed then
          w.close i none
        else w
    | .free => w
    | .offered => w

/-- One slot of `check_timeouts`. -/
def checkOne (w : World) (i : Nat) : World :=
  let s := w.chat i
  if s.phase = .opened ∧ s.failed then w.close i none
  else if s.phase = .offered ∧ dccOfferTimeout < w.bot.now - s.phaseSince then
    w.giveUp P i (str "your client did not answer the offer in time.")
  else if s.phase = .connecting ∧ dccConnectTimeout < w.bot.now - s.phaseSince then
    w.giveUp P i (str "connecting to " ++ s.peer ++
      str " timed out. Check that your firewall lets that port in.")
  else if s.phase = .opened ∧ dccIdleTimeout < w.bot.now - s.lastActive then
    w.close i (some (str "Idle limit reached; closing."))
  else w

/-- `check_timeouts`. -/
def checkTimeouts (w : World) : World := (List.range w.dcc.length).foldl (checkOne P) w

end World

/-! ### Events from outside -/

/-- What happens to the bot, one thing after the other. -/
inductive Event where
  /-- A DCC request by CTCP. -/
  | ctcp (userHost text : Str) (dial : Dial)
  /-- A private message that could be a sealed command. -/
  | message (nick userHost dest text : Str) (rnd : Option Nat)
  /-- A poll event of a chat. -/
  | poll (i token : Nat) (readable writable : Bool) (st : Connected) (sock : List Net.Read)
  /-- `check_timeouts`. -/
  | tick
  /-- Whatever else. -/
  | work (ws : List Work)

variable (P : Primitives) (h : Handler)

/-- One event. -/
def World.step (w : World) : Event → World
  | .ctcp userHost text dial => w.handleCtcp P userHost text dial
  | .message nick userHost dest text rnd => w.sealedMessage P h nick userHost dest text rnd
  | .poll i token readable writable st sock => w.handleEvent P h i token readable writable st sock
  | .tick => w.checkTimeouts P
  | .work ws => ws.foldl (World.doWork P) w

/-- The worlds of a run, from the start of the process. -/
inductive Reach : World → Prop
  | start (o : Outside) : Reach { toOutside := o }
  | step {w : World} (hw : Reach w) (e : Event) : Reach (w.step P h e)

theorem Reach.events {w : World} (hw : Reach P h w) (es : List Event) :
    Reach P h (es.foldl (World.step P h) w) := by
  induction es generalizing w with
  | nil => exact hw
  | cons e es ih => exact ih (hw.step e)

end IrcBot.DccChats
