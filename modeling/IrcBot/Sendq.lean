/-
# The send queue (`sendq.rs`)

Every line for the server waits in one of three lanes. A token bucket paces what leaves
them; MODE lines with one change each leave packed. `Wire` is what the queue reads and
writes: its lanes, the link under it, and the log of what the socket was handed.
-/
import IrcBot.Crypto
import IrcBot.Links
import IrcBot.Lib.TokenBucket

namespace IrcBot.Sendq

open Cstr

/-! ### The queue -/

/-- `SENDQ_LANE_*`, in the order in which they are drained. -/
inductive Lane where
  | proto
  | prot
  | rest
deriving DecidableEq, Repr

/-- `SendQ`. -/
structure SendQ where
  q : Lane → List Str := fun _ => []
  total : Nat := 0
  burst : Int := sendqDefBurst
  intervalMs : Int := sendqDefIntervalMs
  creditMs : Int := sendqDefBurst * sendqDefIntervalMs
  lastMs : Int := 0
  dropped : Nat := 0
  hold : Nat := 0

/-- `clear`. -/
def clear (q : SendQ) (nowMs : Int) : SendQ :=
  { q with q := fun _ => [], total := 0, creditMs := q.burst * q.intervalMs, lastMs := nowMs }

/-- `refill`. -/
def refill (q : SendQ) (nowMs : Int) : SendQ :=
  let credit := if q.lastMs < nowMs then q.creditMs + (nowMs - q.lastMs) else q.creditMs
  { q with lastMs := nowMs, creditMs := min credit (q.burst * q.intervalMs) }

/-- `next_ms`. -/
def nextMs (q : SendQ) (nowMs : Int) : Int × SendQ :=
  if q.total = 0 then (-1, q)
  else
    let q := refill q nowMs
    if q.intervalMs ≤ q.creditMs then (0, q) else (q.intervalMs - q.creditMs, q)

/-! ### Lanes -/

/-- A byte that ends a line. -/
def isBreak (c : UInt8) : Bool := c == 13 || c == 10

/-- The first word of a line. -/
def verbOf (line : Str) : Str := line.takeWhile fun c => c != byte ' ' && !isBreak c

/-- `mode_is_query`: a list or mode fetch, not a change. -/
def modeIsQuery (line : Str) : Bool :=
  match (line.drop 5).dropWhile (· ≠ byte ' ') with
  | [] => true
  | _ :: p =>
      let word := if p.contains (byte ' ') then p.takeWhile (· ≠ byte ' ')
        else p.takeWhile fun c => !isBreak c
      let noArg := match p.dropWhile (· ≠ byte ' ') with
        | [] => true
        | _ :: a => a.head?.all isBreak
      let isList (c : Option UInt8) : Bool := c.any (str "beI").contains
      noArg && ((word.length == 2 && isList p[1]?) || (word.length == 1 && isList p[0]?))

/-- `lane_of`. -/
def laneOf (line : Str) : Lane :=
  let is (w : String) : Bool := eqIc (verbOf line) (str w)
  if is "PONG" || is "PING" || is "NICK" || is "USER" || is "PASS" || is "QUIT" || is "CAP" then
    .proto
  else if is "KICK" then .prot
  else if is "MODE" && (line.drop 4).head? == some (byte ' ') && !modeIsQuery line then .prot
  else .rest

/-- What is left of a lane. -/
def setLane (q : SendQ) (lane : Lane) (lines : List Str) : SendQ :=
  { q with q := Function.update q.q lane lines }

/-- `lane_pop`. -/
def lanePop (q : SendQ) (lane : Lane) : Option Str × SendQ :=
  match q.q lane with
  | [] => (none, q)
  | line :: lines => (some line, { setLane q lane lines with total := q.total - 1 })

/-- The lane that gives up its oldest line for one of `lane`. -/
def victim (q : SendQ) (lane : Lane) : Option Lane :=
  if !(q.q .rest).isEmpty then some .rest
  else if lane ≠ .rest && !(q.q .prot).isEmpty then some .prot
  else none

/-- `make_room`: false if the new line is the one to drop. -/
def makeRoom (q : SendQ) (lane : Lane) : Bool × SendQ :=
  if q.total < maxSendq then (true, q)
  else
    match victim q lane with
    | none => (false, q)
    | some v => (true, { (lanePop q v).2 with dropped := q.dropped + 1 })

/-! ### MODE packing -/

/-- `ModeItem`: the one change of a MODE line. -/
structure ModeItem where
  chan : Str
  sign : UInt8
  letter : UInt8
  arg : Str
  hasArg : Bool
deriving DecidableEq, Repr

/-- Whether a letter takes an argument, of those whose rule is known. -/
def needsArg (sign letter : UInt8) : Option Bool :=
  if (str "ovhbeIk").contains letter then some true
  else if letter = byte 'l' then some (sign == byte '+')
  else if (str "imnpst").contains letter then some false
  else none

/-- `from_utf8` takes it. -/
def isUtf8 (s : Str) : Bool := Crypto.fromUtf8Lossy s == s

/-- The change behind the channel of a MODE line. -/
def modeChangeParse (chan p : Str) : Option ModeItem :=
  let chr (i : Nat) : UInt8 := p.getD i 0
  if (chr 0 ≠ byte '+' && chr 0 ≠ byte '-') || chr 1 == 0 || isBreak (chr 1) ||
      (chr 2 ≠ byte ' ' && chr 2 ≠ 13) then none
  else
    let a := p.drop 2
    let a := if a.head? == some (byte ' ') then a.drop 1 else a
    let arg := a.takeWhile fun c => c != byte ' ' && !isBreak c
    if a[arg.length]? == some (byte ' ') then none
    else
      match needsArg (chr 0) (chr 1) with
      | none => none
      | some needs =>
          if needs ≠ !arg.isEmpty || 300 ≤ arg.length || !isUtf8 arg then none
          else some { chan, sign := chr 0, letter := chr 1, arg, hasArg := needs }

/-- `mode_item_parse`: `MODE <chan> <+|-><letter> [arg]`, for a letter whose argument rule is
known. -/
def modeItemParse (line : Str) : Option ModeItem :=
  if !eqIc (line.take 5) (str "MODE ") then none
  else
    let p := line.drop 5
    let chan := p.takeWhile fun c => c != byte ' ' && !isBreak c
    if chan.isEmpty || maxChan ≤ chan.length || p[chan.length]? ≠ some (byte ' ') || !isUtf8 chan then
      none
    else modeChangeParse chan (p.drop (chan.length + 1))

/-- The lines that go out with the first one: up to `limit` changes of one channel, within
the length of a line. -/
def packLoop (limit : Nat) (chan : Str) : Nat → List ModeItem → List Str → List ModeItem
  | _, items, [] => items
  | est, items, line :: lines =>
      if limit ≤ items.length then items
      else
        match modeItemParse line with
        | none => items
        | some it =>
            let est := est + (2 + it.arg.length + 1)
            if !eqIc it.chan chan || 400 < est then items
            else packLoop limit chan est (items ++ [it]) lines

/-- The items of the next packed line. -/
def packWith (limit : Nat) (first : ModeItem) (lines : List Str) : List ModeItem :=
  packLoop limit first.chan (5 + first.chan.length + 3 + first.arg.length + 1) [first] lines

/-- The letters, each sign written where it changes. -/
def signedLetters : UInt8 → List ModeItem → Str
  | _, [] => []
  | cur, it :: its =>
      (if it.sign ≠ cur then [it.sign] else []) ++ it.letter :: signedLetters it.sign its

/-- The arguments of those letters that have one. -/
def packedArgs (items : List ModeItem) : Str :=
  (items.filter (·.hasArg)).flatMap fun it => byte ' ' :: it.arg

/-- One line for all items. -/
def packedLine (chan : Str) (items : List ModeItem) : Str :=
  str "MODE " ++ chan ++ str " " ++ signedLetters 0 items ++ packedArgs items ++ crlf

/-- What 005 allows of changes in one line. -/
def modesLimit (modes : Int) : Nat :=
  (if modes < 1 then isupportModesDefault else min modes isupportModesMax).toNat

/-- `take_protection`. -/
def takeProtection (q : SendQ) (limit : Nat) : Option Str × SendQ :=
  match q.q .prot with
  | [] => (none, q)
  | line :: lines =>
      match modeItemParse line with
      | none => lanePop q .prot
      | some first =>
          let items := packWith limit first lines
          (some (packedLine first.chan items),
            { setLane q .prot ((line :: lines).drop items.length) with
              total := q.total - items.length })

/-! ### The wire -/

/-- What the queue works with. `writesLeft` is how many lines the socket still takes before a
write fails (`none` = any number). -/
structure Wire where
  q : SendQ := {}
  /-- `S_CONNECTED` of `status`. -/
  connected : Bool := true
  /-- `irc.is_some()`. -/
  sock : Bool := true
  /-- `isup.modes`. -/
  modes : Int := isupportModesDefault
  nowMs : Int := 0
  writesLeft : Option Nat := none
  /-- Every line handed to the socket, oldest first. -/
  raw : List Str := []

/-- `disconnect` of the IRC link, once the queue has been emptied. -/
def dropLink (w : Wire) : Wire :=
  { w with
    q := clear w.q w.nowMs
    connected := false
    sock := false
    modes := isupportModesDefault
    raw := if w.connected && w.sock then w.raw ++ [str "QUIT :bye" ++ crlf] else w.raw }

/-- `write_raw`: false, after dropping the link, on a write error. -/
def writeRaw (w : Wire) (line : Str) : Bool × Wire :=
  if !w.connected || !w.sock then (false, w)
  else
    let w := { w with raw := w.raw ++ [line] }
    match w.writesLeft with
    | some 0 => (false, dropLink w)
    | left => (true, { w with writesLeft := left.map (· - 1) })

/-- The next line to leave: by lane, MODE changes packed. -/
def nextLine (w : Wire) : Option Str × SendQ :=
  if !(w.q.q .proto).isEmpty then lanePop w.q .proto
  else if !(w.q.q .prot).isEmpty then takeProtection w.q (modesLimit w.modes)
  else lanePop w.q .rest

/-- The loop of `drain`; each round takes at least one line out of the lanes. -/
def drainLoop : Nat → Wire → Int → Int × Wire
  | 0, w, sent => (sent, w)
  | fuel + 1, w, sent =>
      if w.q.total = 0 || w.q.creditMs < w.q.intervalMs then (sent, w)
      else if !w.connected then (sent, { w with q := clear w.q w.nowMs })
      else
        match nextLine w with
        | (none, q) => (sent, { w with q })
        | (some line, q) =>
            match writeRaw { w with q := { q with creditMs := q.creditMs - q.intervalMs } } line with
            | (false, w) => (sent, w)
            | (true, w) => drainLoop fuel w (sent + 1)

/-- `drain`: how many lines were written. -/
def drain (w : Wire) : Int × Wire :=
  if w.q.total = 0 then (0, w) else drainLoop w.q.total { w with q := refill w.q w.nowMs } 0

/-- A line as it waits: what fits of it, and the end of the line. -/
def queuedLine (line : Str) : Str := line.take (min (line.length - 2) sendqLineMax) ++ crlf

/-- The protection lane holds the line already. -/
def isQueued (q : SendQ) (lane : Lane) (line : Str) : Bool :=
  let body := min (line.length - 2) sendqLineMax
  lane == .prot && (q.q lane).any fun x => x.length == body + 2 && x.take body == line.take body

/-- `enqueue`: the length of the line, or -1 if it had to be dropped. -/
def enqueue (w : Wire) (line : Str) : Int × Wire :=
  if line.length < 2 then (-1, w)
  else
    let lane := laneOf line
    if isQueued w.q lane line then (toI32 line.length, w)
    else
      match makeRoom w.q lane with
      | (false, q) => (-1, { w with q := { q with dropped := q.dropped + 1 } })
      | (true, q) =>
          let w :=
            { w with q := { setLane q lane (q.q lane ++ [queuedLine line]) with total := q.total + 1 } }
          (toI32 line.length, if w.q.hold = 0 then (drain w).2 else w)

/-- `hold`. -/
def hold (w : Wire) : Wire := { w with q := { w.q with hold := w.q.hold + 1 } }

/-- `release`. -/
def release (w : Wire) : Wire :=
  if w.q.hold = 0 then w
  else
    let w := { w with q := { w.q with hold := w.q.hold - 1 } }
    if w.q.hold = 0 then (drain w).2 else w

example : modeItemParse (str "MODE #c +o nick" ++ crlf) =
    some ⟨str "#c", byte '+', byte 'o', str "nick", true⟩ := by decide

end IrcBot.Sendq
