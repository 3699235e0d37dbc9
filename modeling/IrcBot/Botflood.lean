/-
# Floods of the bot itself (`botflood.rs`)

Commands are counted for each user record, private messages and CTCP for each host. What goes over
its limit is put in the ignore table: a host under its name, a user under `u:<uuid>`. When the table
is full of young entries the bot goes quiet instead.

* `BotFlood.hostHit_eq`, `BotFlood.cmdCount_eq` — the counters are tables with one entry for each
  key.
* `hostFloodAt_flood`, `cmdAt_flood` — what a message or a command makes of the tables.
-/
import IrcBot.Chanflood
import IrcBot.Lib.Tracker

namespace IrcBot.Botflood

open Cstr Chancfg Chanflood Lib.Tracker

/-! ### Tables -/

/-- `BF_OK` … `BF_IGNORE_NEW`. -/
inductive Bf where
  | ok
  | drop
  | ignore
  | ignoreNew
deriving DecidableEq, Repr

/-- What one command counted as. -/
inductive CmdStep where
  | ok
  | drop (notice : Bool)
  | flood3x
deriving DecidableEq, Repr

/-- An empty `key` is a free slot; the key is a lower-cased host, or `u:<uuid>` for a user. -/
structure IgnoreEnt where
  key : Str := []
  sinceMs : Int := 0
  untilMs : Int := 0
deriving DecidableEq, Repr

structure HostFlood where
  host : Str := []
  lastMs : Int := 0
  msg : FloodWindow := {}
  ctcp : FloodWindow := {}
deriving DecidableEq, Repr

structure CmdFlood where
  uuid : Str := []
  lastMs : Int := 0
  w : FloodWindow := {}
  /-- The "slow down" notice went out in this window. -/
  notified : Bool := false
deriving DecidableEq, Repr

structure BotFlood where
  ignores : List IgnoreEnt := List.replicate maxIgnores {}
  /-- 0 or past: not quiet. -/
  quietUntilMs : Int := 0
  quietLogged : Bool := false
  hostFlood : List HostFlood := List.replicate maxHostTrack {}
  cmdFlood : List CmdFlood := List.replicate maxUserRecords {}
deriving DecidableEq, Repr

def ignoreShape : Shape IgnoreEnt Str where
  free e := e.key.isEmpty
  key e := e.key
  last e := e.sinceMs
  fresh key := { key }
  blank := {}

def hostShape : Shape HostFlood Str where
  free h := h.host.isEmpty
  key h := h.host
  last h := h.lastMs
  fresh host := { host }
  blank := {}

def cmdShape : Shape CmdFlood Str where
  free c := c.uuid.isEmpty
  key c := c.uuid
  last c := c.lastMs
  fresh uuid := { uuid }
  blank := {}

namespace BotFlood

variable (f : BotFlood) (nowMs : Int)

/-- `quiet_at`: an episode that is over is cleared. -/
def quietAt : Bool × BotFlood :=
  let f :=
    if f.quietUntilMs ≠ 0 ∧ f.quietUntilMs ≤ nowMs then
      { f with quietUntilMs := 0, quietLogged := false }
    else f
  (f.quietUntilMs != 0, f)

/-! ### The ignore table -/

/-- An unexpired entry of the key. -/
def isIgnored (key : Str) (e : IgnoreEnt) : Bool :=
  !e.key.isEmpty && decide (nowMs < e.untilMs) && e.key == key

/-- `ignore_find`. -/
def ignoreFind (key : Str) : Bool := f.ignores.any (isIgnored nowMs key)

/-- An expired entry becomes a free slot. -/
def expire (e : IgnoreEnt) : IgnoreEnt :=
  if !e.key.isEmpty && decide (e.untilMs ≤ nowMs) then { e with key := [] } else e

/-- The table as the walk of `ignore_add` leaves it: the walk ends at the entry of the key, if that
is still good, and no slot beyond it is swept. -/
def swept (key : Str) : List IgnoreEnt :=
  let n := (f.ignores.findIdx? (isIgnored nowMs key)).getD f.ignores.length
  (f.ignores.take n).map (expire nowMs) ++ f.ignores.drop n

/-- The entry that is written: another key starts anew, the same is extended. -/
def entered (key : Str) (ignoreMs : Int) (e : IgnoreEnt) : IgnoreEnt :=
  let e := if e.key ≠ key then { e with key, sinceMs := nowMs } else e
  { e with untilMs := nowMs + ignoreMs }

/-- `BotFlood::ignore_add`. The error tells whether the episode has still to be logged. -/
def ignoreAdd (key : Str) (ignoreMs : Int) : Except Bool Unit × BotFlood :=
  let f' := { f with ignores := f.swept nowMs key }
  let enter (i : Nat) : BotFlood :=
    { f' with ignores := f'.ignores.set i (entered nowMs key ignoreMs (f'.ignores.getD i {})) }
  match (f.ignores.findIdx? (isIgnored nowMs key)).or (f'.ignores.findIdx? (·.key.isEmpty)) with
  | some i => (.ok (), enter i)
  | none =>
      match oldest ignoreShape f'.ignores with
      | none => (.error false, f')
      | some o =>
          if nowMs - (f'.ignores.getD o {}).sinceMs ≤ quietFillMs then
            (.error (!f.quietLogged),
              { f' with quietUntilMs := nowMs + ignoreMs, quietLogged := true })
          else (.ok (), enter o)

/-! ### Counters -/

/-- `host_hit` on the slot of the host. -/
def hitHost (ctcp : Bool) (n s : Int) (h : HostFlood) : Bool × HostFlood :=
  let r := windowHit (if ctcp then h.ctcp else h.msg) n s nowMs
  (r.1,
    if ctcp then { h with lastMs := nowMs, ctcp := r.2 } else { h with lastMs := nowMs, msg := r.2 })

/-- `host_hit`: true when it tripped. -/
def hostHit (host : Str) (ctcp : Bool) (n s : Int) : Bool × BotFlood :=
  match slot hostShape f.hostFlood host with
  | none => (false, f)
  | some (i, table) =>
      let r := hitHost nowMs ctcp n s (table.getD i {})
      (r.1, { f with hostFlood := table.set i r.2 })

/-- `cmd_count` on the slot of the user. -/
def hitCmd (n s : Int) (c : CmdFlood) : CmdStep × CmdFlood :=
  let c := { c with lastMs := nowMs }
  let c :=
    if c.w.count ≤ 0 ∨ s * 1000 ≤ nowMs - c.w.startMs then
      { c with w := ⟨nowMs, 0⟩, notified := false }
    else c
  let c := { c with w := { c.w with count := c.w.count + 1 } }
  if 3 * n < c.w.count then (.flood3x, { c with w := { c.w with count := 0 }, notified := false })
  else if n < c.w.count then (.drop (!c.notified), { c with notified := true })
  else (.ok, c)

/-- `cmd_count`. -/
def cmdCount (uuid : Str) (n s : Int) : CmdStep × BotFlood :=
  match slot cmdShape f.cmdFlood uuid with
  | none => (.ok, f)
  | some (i, table) =>
      let r := hitCmd nowMs n s (table.getD i {})
      (r.1, { f with cmdFlood := table.set i r.2 })

theorem hostHit_eq (host : Str) (ctcp : Bool) (n s : Int) :
    f.hostHit nowMs host ctcp n s =
      (((touch hostShape f.hostFlood ⟨host, hitHost nowMs ctcp n s⟩).1).getD false,
        { f with hostFlood := (touch hostShape f.hostFlood ⟨host, hitHost nowMs ctcp n s⟩).2 }) := by
  unfold hostHit touch
  cases slot hostShape f.hostFlood host with
  | none => rfl
  | some r => rfl

theorem cmdCount_eq (uuid : Str) (n s : Int) :
    f.cmdCount nowMs uuid n s =
      (((touch cmdShape f.cmdFlood ⟨uuid, hitCmd nowMs n s⟩).1).getD .ok,
        { f with cmdFlood := (touch cmdShape f.cmdFlood ⟨uuid, hitCmd nowMs n s⟩).2 }) := by
  unfold cmdCount touch
  cases slot cmdShape f.cmdFlood uuid with
  | none => rfl
  | some r => rfl

end BotFlood

/-! ### Verdicts -/

/-- `ignore_ms`. -/
def ignoreMs (b : BotState) : Int := get b none .ignoreTime * 60000

/-- `emit_ignore`: the event hangs on the first managed channel that the bot is in. -/
def emitIgnore (b : BotState) (target detail : Str) : BotState :=
  ((b.chans.find? fun c => c.isManaged && c.status == .inside).map fun c =>
    (Enforce.chanEvent b c.name (str "ignore") target detail).2).getD b

/-- `ignore_add`: false when quiet mode began instead. -/
def ignoreAdd (b : BotState) (f : BotFlood) (key : Str) (now : Int) : Bool × BotFlood :=
  let r := f.ignoreAdd now key (ignoreMs b)
  (r.1.isOk, r.2)

/-- `host_flood_at`. -/
def hostFloodAt (b : BotState) (f : BotFlood) (nuh : Str) (authorised : Bool) (kind : FloodKind)
    (now : Int) : Bf × BotState × BotFlood :=
  match (srcHost nuh).filter fun _ => !authorised with
  | none => (.ok, b, f)
  | some host =>
      let quiet := f.quietAt now
      if quiet.1 || quiet.2.ignoreFind now host then (.ignore, b, quiet.2)
      else
        match getFlood b none kind with
        | none => (.ok, b, quiet.2)
        | some (n, s) =>
            let ctcp := kind == .botCtcp
            let hit := quiet.2.hostHit now host ctcp n s
            if !hit.1 then (.ok, b, hit.2)
            else
              let what := if ctcp then str "ctcp" else str "msg"
              let mins := get b none .ignoreTime
              let added := ignoreAdd b hit.2 host now
              (.ignore,
                if added.1 then
                  emitIgnore b host (what ++ str " flood " ++ dec n ++ str ":" ++ dec s ++
                    str ", ignored " ++ dec mins ++ str " min")
                else b,
                added.2)

/-- `msg_at`. -/
def msgAt (b : BotState) (f : BotFlood) (nuh : Str) (authorised : Bool) (now : Int) :
    Bf × BotState × BotFlood :=
  hostFloodAt b f nuh authorised .botMsg now

/-- `ctcp_at`. -/
def ctcpAt (b : BotState) (f : BotFlood) (nuh : Str) (authorised : Bool) (now : Int) :
    Bf × BotState × BotFlood :=
  hostFloodAt b f nuh authorised .botCtcp now

/-- The ignore table's key of a user. -/
def userKey (uuid : Str) : Str := str "u:" ++ uuid

/-- `cmd_at`: the verdict, and whether the "slow down" notice is due. -/
def cmdAt (b : BotState) (f : BotFlood) (uuid : Str) (now : Int) : (Bf × Bool) × BotFlood :=
  if uuid.isEmpty then ((.ok, false), f)
  else if f.ignoreFind now (userKey uuid) then ((.ignore, false), f)
  else
    match getFlood b none .botCmd with
    | none => ((.ok, false), f)
    | some (n, s) =>
        match f.cmdCount now uuid n s with
        | (.ok, f) => ((.ok, false), f)
        | (.drop notice, f) => ((.drop, notice), f)
        | (.flood3x, f) => ((.ignoreNew, false), (ignoreAdd b f (userKey uuid) now).2)

/-! ### What an event makes of the ignore table -/

theorem quietAt_ignores (f : BotFlood) (now : Int) : (f.quietAt now).2.ignores = f.ignores := by
  unfold BotFlood.quietAt
  dsimp only
  split
  · rfl
  · rfl

theorem hostHit_ignores (f : BotFlood) (now : Int) (host : Str) (ctcp : Bool) (n s : Int) :
    (f.hostHit now host ctcp n s).2.ignores = f.ignores := by
  rw [f.hostHit_eq]

theorem cmdCount_ignores (f : BotFlood) (now : Int) (uuid : Str) (n s : Int) :
    (f.cmdCount now uuid n s).2.ignores = f.ignores := by
  rw [f.cmdCount_eq]

/-- A message leaves the ignore table as it is, or it enters the host that it comes from. -/
theorem hostFloodAt_flood (b : BotState) (f : BotFlood) (nuh : Str) (authorised : Bool)
    (kind : FloodKind) (now : Int) :
    (hostFloodAt b f nuh authorised kind now).2.2.ignores = f.ignores ∨
      ∃ (host : Str) (g : BotFlood), srcHost nuh = some host ∧ authorised = false ∧
        g.ignores = f.ignores ∧
        (hostFloodAt b f nuh authorised kind now).2.2 = (g.ignoreAdd now host (ignoreMs b)).2 := by
  unfold hostFloodAt
  split
  · exact .inl rfl
  · rename_i host hhost
    obtain ⟨hsrc, hauth⟩ := Option.filter_eq_some_iff.mp hhost
    dsimp only
    split
    · exact .inl (quietAt_ignores f now)
    · split
      · exact .inl (quietAt_ignores f now)
      · have hcounted (n s : Int) :
            (((f.quietAt now).2.hostHit now host (kind == .botCtcp) n s).2).ignores = f.ignores := by
          rw [hostHit_ignores, quietAt_ignores]
        split
        · exact .inl (hcounted _ _)
        · right
          exact ⟨host, _, hsrc, by simpa using hauth, hcounted _ _, rfl⟩

/-- A command leaves the ignore table as it is, unless its user is to be ignored from now on. -/
theorem cmdAt_flood (b : BotState) (f : BotFlood) (uuid : Str) (now : Int) :
    (cmdAt b f uuid now).2.ignores = f.ignores ∨
      (cmdAt b f uuid now).1.1 = .ignoreNew ∧ ∃ g : BotFlood, g.ignores = f.ignores ∧
        (cmdAt b f uuid now).2 = (g.ignoreAdd now (userKey uuid) (ignoreMs b)).2 := by
  unfold cmdAt
  split
  · exact .inl rfl
  · split
    · exact .inl rfl
    · split
      · exact .inl rfl
      · rename_i n s _
        have hcounted := cmdCount_ignores f now uuid n s
        split
        · rename_i heq
          rw [heq] at hcounted
          exact .inl hcounted
        · rename_i heq
          rw [heq] at hcounted
          exact .inl hcounted
        · rename_i g heq
          rw [heq] at hcounted
          right
          constructor
          · rfl
          · exact ⟨g, hcounted, rfl⟩

end IrcBot.Botflood
