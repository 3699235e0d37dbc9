/-
# Channel floods (`chanflood.rs`)

Every bot counts the same channel events, by source host, in windows that open at the
first event and are judged when the next one arrives: more than N events within S
seconds trip the flood. A trip hands the kick, the deop or the ban to the election.

* `core_event` — counting an event, and what a trip does, leaves the members and the bot's own
  standing alone.
-/
import IrcBot.Jobs

namespace IrcBot.Chanflood

open Cstr Chancfg Chanenf Jobs

/-! ### Windows -/

/-- `window_hit`: whether this event trips the flood, and the window after it. -/
def windowHit (w : FloodWindow) (n s nowMs : Int) : Bool × FloodWindow :=
  let w := if w.count ≤ 0 ∨ s * 1000 ≤ nowMs - w.startMs then ⟨nowMs, 0⟩ else w
  let w := { w with count := w.count + 1 }
  if n < w.count then (true, ⟨0, 0⟩) else (false, w)

/-- `src_host`: the host that an event counts for; `none` for a server. -/
def srcHost (nuh : Str) : Option Str :=
  (splitOnce (byte '!') nuh).bind fun (_, rest) =>
    (splitOnce (byte '@') rest).bind fun (_, host) =>
      if host.isEmpty then none else some ((trunc host floodHostMax).map lower)

/-- `src_nick`. -/
def srcNick (nuh : Str) : Option Str :=
  (splitOnce (byte '!') nuh).bind fun (nick, _) =>
    if nick.isEmpty || maxMemberNick ≤ nick.length then none else some nick

/-! ### The tracker -/

/-- The first of the used slots that has been idle longest. -/
def oldestSrc (flood : List FloodSrc) : Option Nat :=
  flood.zipIdx.foldl
    (fun best (f, i) =>
      if f.host.isEmpty then best
      else
        match best with
        | none => some i
        | some o => if f.lastMs < (flood.getD o {}).lastMs then some i else best) none

/-- The slot of a host: its own, a free one, or that of the source idle longest. -/
def srcSlot (flood : List FloodSrc) (host : Str) : Option (Nat × List FloodSrc) :=
  match flood.findIdx? fun f => !f.host.isEmpty && f.host == host with
  | some i => some (i, flood)
  | none =>
      ((flood.findIdx? fun f => f.host.isEmpty).or (oldestSrc flood)).map fun i =>
        (i, flood.set i ({ host } : FloodSrc))

/-- The bit of a kind in `victim_auth`. -/
def kindBit (kind : Nat) : UInt8 := 1 <<< kind.toUInt8

/-- `track`: one more event of a host. `some a` when it tripped; `a` tells whether an
authorised victim was seen since the last trip of this kind. -/
def track (flood : List FloodSrc) (host : Str) (kind : Nat) (victimAuth : Bool) (n s nowMs : Int) :
    Option Bool × List FloodSrc :=
  match srcSlot flood host with
  | none => (none, flood)
  | some (i, flood) =>
      let f := flood.getD i {}
      let hit := windowHit (f.w.getD kind {}) n s nowMs
      let seen := if victimAuth then f.victimAuth ||| kindBit kind else f.victimAuth
      let f := { f with lastMs := nowMs, w := f.w.set kind hit.2, victimAuth := seen }
      if hit.1 then
        (some (seen &&& kindBit kind != 0),
          flood.set i { f with victimAuth := seen &&& ~~~kindBit kind })
      else (none, flood.set i f)

/-! ### Counting -/

/-- `FloodKind as usize`. -/
def kindIdx : FloodKind → Nat
  | .chan => 0
  | .ctcp => 1
  | .join => 2
  | .nick => 3
  | .deop => 4
  | .kick => 5
  | .ban => 6
  | .botCmd => 7
  | .botMsg => 8
  | .botCtcp => 9
  | .sendq => 10

/-- `KIND_NAME`. -/
def kindName : FloodKind → Str
  | .chan => str "chan"
  | .ctcp => str "ctcp"
  | .join => str "join"
  | .nick => str "nick"
  | .deop => str "deop"
  | .kick => str "kick"
  | .ban => str "ban"
  | _ => []

/-- The floods for which ops can be let off. -/
def isTextKind : FloodKind → Bool
  | .chan | .ctcp | .join | .nick => true
  | _ => false

def isOpKind : FloodKind → Bool
  | .deop | .kick | .ban => true
  | _ => false

/-- `count_at`: `some` when the event tripped its flood. -/
def countAt (b : BotState) (ci : Nat) (nuh : Str) (kind : FloodKind) (victimAuth : Bool)
    (nowMs : Int) : Option Bool × BotState :=
  if flChanCount ≤ kindIdx kind then (none, b)
  else
    match b.chans[ci]? with
    | none => (none, b)
    | some c =>
        match getFlood b (some c) kind, srcHost nuh, srcNick nuh with
        | some (n, s), some host, some nick =>
            let verdict := chanNuhAuthorised b ci nuh
            let letOff := isTextKind kind && get b (some c) .dontKickOps ≠ 0 &&
              c.roster.any fun e => eqIc e.nick nick && e.isOp
            if verdict.1 || letOff then (none, verdict.2)
            else
              let flood := if c.flood.isEmpty then List.replicate maxFloodTrack {} else c.flood
              let r := track flood host (kindIdx kind) victimAuth n s nowMs
              (r.1, withChan verdict.2 ci fun c => { c with flood := r.2 })
        | _, _, _ => (none, b)

/-! ### A trip -/

section Trip

variable (sha256 : Str → Str)

/-- `trip`: a join flood and a repeated one ask for a ban, an op flood for a deop, the
others for a kick. The holder of the job reports it. -/
def trip (b : BotState) (ci : Nat) (nuh : Str) (kind : FloodKind) (authVictim : Bool) :
    BotState :=
  match srcNick nuh with
  | none => b
  | some nick =>
      let name := (b.chans.getD ci {}).name
      let limit := (getFlood b b.chans[ci]? kind).getD (0, 0)
      let off := offence b name nuh
      let b := off.2
      let revenge := get b b.chans[ci]? .revenge ≠ 0
      let banStep :=
        if kind = .join then true
        else if isOpKind kind then 2 ≤ off.1 || (revenge && authVictim)
        else decide (2 ≤ off.1)
      let job := if banStep then jobBan else if isOpKind kind then jobOp else jobKick
      let act :=
        if banStep then str "kick+ban" else if isOpKind kind then str "deop" else str "kick"
      let reason := kindName kind ++ str " flood"
      let rank := dealRank sha256 b ci job
      let queued :=
        if banStep then requestBan sha256 b name nuh reason true
        else if isOpKind kind then requestDeop sha256 b name nick reason
        else requestKick sha256 b name nick reason
      if queued.1 && rank = 0 then
        let detail := reason ++ str " " ++ dec limit.1 ++ str ":" ++ dec limit.2 ++
          str ", offence " ++ decNat off.1 ++ str ": " ++ act
        (Enforce.chanEvent queued.2 name (str "floodtrip") nick detail).2
      else queued.2

/-- `event`: one event of `kind` from nick!user@host in a channel the bot is in. -/
def event (b : BotState) (chan nuh : Str) (kind : FloodKind) (victimAuth : Bool) : BotState :=
  match inChan b chan with
  | none => b
  | some ci =>
      match countAt b ci nuh kind victimAuth b.monoMs with
      | (some authVictim, b) => trip sha256 b ci nuh kind authVictim
      | (none, b) => b

/-! ### What an event leaves alone -/

theorem core_countAt (b : BotState) (ci : Nat) (nuh : Str) (kind : FloodKind)
    (victimAuth : Bool) (nowMs : Int) :
    core (countAt b ci nuh kind victimAuth nowMs).2 = core b := by
  unfold countAt
  split
  · rfl
  · split
    · rfl
    · split
      · dsimp only
        split
        · exact core_chanNuhAuthorised b ci nuh
        · refine Eq.trans ?_ (core_chanNuhAuthorised b ci nuh)
          exact core_withChan _ (f := fun c => { c with flood := _ }) fun c _ => rfl
      · rfl

theorem core_trip (b : BotState) (ci : Nat) (nuh : Str) (kind : FloodKind)
    (authVictim : Bool) : core (trip sha256 b ci nuh kind authVictim) = core b := by
  unfold trip
  split
  · rfl
  · rename_i nick _
    have hban (s : BotState) (name reason : Str) :=
      core_requestBan sha256 s name nuh reason true
    have hmember (s : BotState) (act : JobAct) (name reason : Str) :=
      core_requestMember sha256 s act name nick reason
    dsimp only
    unfold requestKick requestDeop
    split_ifs <;> simp [hban, hmember]

/-- **An event leaves the core alone**, whatever it trips. -/
theorem core_event (b : BotState) (chan nuh : Str) (kind : FloodKind) (victimAuth : Bool) :
    core (event sha256 b chan nuh kind victimAuth) = core b := by
  unfold event
  split
  · rfl
  · rename_i ci _
    have hcount := core_countAt b ci nuh kind victimAuth b.monoMs
    split
    · rename_i heq
      rw [heq] at hcount
      rw [core_trip]
      exact hcount
    · rename_i heq
      rwa [heq] at hcount

theorem standing_event (b : BotState) (chan nuh : Str) (kind : FloodKind) (victimAuth : Bool) :
    standing (event sha256 b chan nuh kind victimAuth) = standing b :=
  standing_of_core (core_event sha256 b chan nuh kind victimAuth)

end Trip

end IrcBot.Chanflood
