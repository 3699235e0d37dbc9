/-
# Flood counters keep hosts apart (`chanflood.rs`, `botflood.rs`)

The sources of a channel, the hosts that write to the bot and the users that command it are counted
in three tables of the same kind.

* `track_tracks`, `hostHit_tracks`, `cmdCount_tracks` — each is a table with one entry for each key.
* `hosts_apart` — so hosts do not meet in it, have one entry each and give way when idle longest.
-/
import IrcBot.Botflood

namespace IrcBot.FloodHosts

open Cstr Chanflood Botflood Lib.Tracker

/-! ### The events -/

/-- An event of a source in a channel: its host, its kind, whether an authorised victim was hit, the
limit it counts against and the time. -/
structure ChanHit where
  host : Str
  kind : Nat
  victimAuth : Bool
  n : Int
  s : Int
  now : Int
deriving DecidableEq

/-- A message or CTCP of a host to the bot. -/
structure BotHit where
  host : Str
  ctcp : Bool
  n : Int
  s : Int
  now : Int
deriving DecidableEq

structure UserCmd where
  uuid : Str
  n : Int
  s : Int
  now : Int
deriving DecidableEq

def trackStep (flood : List FloodSrc) (e : ChanHit) : Option Bool × List FloodSrc :=
  track flood e.host e.kind e.victimAuth e.n e.s e.now

def hostStep (f : BotFlood) (e : BotHit) : Bool × BotFlood := f.hostHit e.now e.host e.ctcp e.n e.s

def cmdStep (f : BotFlood) (e : UserCmd) : CmdStep × BotFlood := f.cmdCount e.now e.uuid e.n e.s

/-! ### The tables -/

def srcShape : Shape FloodSrc Str where
  free f := f.host.isEmpty
  key f := f.host
  last f := f.lastMs
  fresh host := { host }
  blank := {}

/-- What an event makes of the source's entry, and whether it trips. -/
def hitSrc (e : ChanHit) (f : FloodSrc) : Option Bool × FloodSrc :=
  let hit := windowHit (f.w.getD e.kind {}) e.n e.s e.now
  let seen := if e.victimAuth then f.victimAuth ||| kindBit e.kind else f.victimAuth
  let f := { f with lastMs := e.now, w := f.w.set e.kind hit.2, victimAuth := seen }
  if hit.1 then
    (some (seen &&& kindBit e.kind != 0), { f with victimAuth := seen &&& ~~~kindBit e.kind })
  else (none, f)

theorem trackStep_eq (flood : List FloodSrc) (e : ChanHit) :
    trackStep flood e =
      ((touch srcShape flood ⟨e.host, hitSrc e⟩).1.join, (touch srcShape flood ⟨e.host, hitSrc e⟩).2) := by
  have hslot : srcSlot flood e.host = slot srcShape flood e.host := rfl
  unfold trackStep track touch hitSrc
  rw [hslot]
  cases slot srcShape flood e.host with
  | none => rfl
  | some r =>
      dsimp only [srcShape]
      split
      · rfl
      · rfl

/-- The sources of a channel have one entry for each host. -/
theorem track_tracks :
    Tracks srcShape (fun flood => flood) trackStep ChanHit.host ChanHit.now
      (fun e => ⟨e.host, hitSrc e⟩) Option.join := by
  constructor
  · rfl
  · intro host
    rfl
  · intro flood e
    rw [trackStep_eq]
    exact ⟨rfl, rfl⟩
  · intro e
    rfl
  · intro e f
    dsimp only [hitSrc, srcShape]
    split
    · exact ⟨rfl, rfl⟩
    · exact ⟨rfl, rfl⟩

/-- The hosts that write to the bot have one entry each. -/
theorem hostHit_tracks :
    Tracks hostShape BotFlood.hostFlood hostStep BotHit.host BotHit.now
      (fun e => ⟨e.host, BotFlood.hitHost e.now e.ctcp e.n e.s⟩) (·.getD false) := by
  constructor
  · rfl
  · intro host
    rfl
  · intro f e
    rw [hostStep, f.hostHit_eq]
    exact ⟨rfl, rfl⟩
  · intro e
    rfl
  · intro e h
    dsimp only [BotFlood.hitHost, hostShape]
    split
    · exact ⟨rfl, rfl⟩
    · exact ⟨rfl, rfl⟩

theorem hitCmd_entry (now n s : Int) (c : CmdFlood) :
    (BotFlood.hitCmd now n s c).2.uuid = c.uuid ∧ (BotFlood.hitCmd now n s c).2.lastMs = now := by
  unfold BotFlood.hitCmd
  dsimp only
  split_ifs
  all_goals exact ⟨rfl, rfl⟩

/-- The users that command the bot have one entry each. -/
theorem cmdCount_tracks :
    Tracks cmdShape BotFlood.cmdFlood cmdStep UserCmd.uuid UserCmd.now
      (fun e => ⟨e.uuid, BotFlood.hitCmd e.now e.n e.s⟩) (·.getD .ok) := by
  constructor
  · rfl
  · intro uuid
    rfl
  · intro f e
    rw [cmdStep, f.cmdCount_eq]
    exact ⟨rfl, rfl⟩
  · intro e
    rfl
  · intro e c
    exact hitCmd_entry e.now e.n e.s c

/-! ### Hosts do not meet -/

section

variable {α σ ε ν : Type} (p : Shape α Str) (table : σ → List α) (step : σ → ε → ν × σ)
  (key : ε → Str) (time : ε → Int)

/-- A table that starts with `slots` free slots keeps its keys apart. -/
structure KeepsApart (s : σ) (slots : Nat) : Prop where
  /-- The verdicts on a key are those of a run with only its events, while there is a slot for
  each. -/
  apart : ∀ (es : List ε) (keys : List Str), (∀ e ∈ es, key e ∈ keys) → keys.length ≤ slots → ∀ k,
    (verdicts step key s es).filter (fun v => v.1 == k) =
      verdicts step key s (es.filter fun e => key e == k)
  /-- No two entries are of one key. -/
  unique : ∀ (es : List ε) (i j : Nat) (a b : α), (table (run step s es))[i]? = some a →
    (table (run step s es))[j]? = some b → p.free a = false → p.free b = false →
      p.key a = p.key b → i = j
  /-- An entry is stamped with the time of the last event of its key. -/
  stamp : ∀ (es : List ε), ∀ a ∈ table (run step s es), p.free a = false →
    ∃ before e later, es = before ++ e :: later ∧ key e = p.key a ∧ p.last a = time e ∧
      ∀ e' ∈ later, key e' ≠ p.key a
  /-- A new key in a full table takes the slot of the entry with the oldest stamp, and only that. -/
  givesWay : ∀ (es : List ε) (e : ε), (∀ a ∈ table (run step s es), p.free a = false) →
    (∀ a ∈ table (run step s es), p.key a ≠ key e) →
    ∃ (i : Nat) (a b : α), (table (run step s es))[i]? = some a ∧
      (∀ c ∈ table (run step s es), p.last a ≤ p.last c) ∧ p.key b = key e ∧
      table (step (run step s es) e).2 = (table (run step s es)).set i b

variable {p table step key time}

theorem keepsApart_of_tracks {β : Type} {event : ε → Event α β Str} {out : Option β → ν}
    (h : Tracks p table step key time event out) {s : σ} {slots : Nat}
    (hblank : table s = List.replicate slots p.blank) (hpos : 0 < slots) :
    KeepsApart p table step key time s slots := by
  have hlen (es : List ε) : (table (run step s es)).length = slots := by
    rw [h.table_run, length_after, hblank, List.length_replicate]
  constructor
  · intro es keys hkeys hle k
    exact h.apart hblank hkeys hle k
  · intro es
    exact h.unique hblank es
  · intro es a ha hfree
    exact h.stamp hblank ha hfree
  · intro es e hfull hnew
    refine h.givesWay (h.unique hblank es) ?_ hfull hnew
    intro hnil
    have hzero := hlen es
    rw [hnil, List.length_nil] at hzero
    omega

end

/-- **Flood counters keep hosts apart**: the sources of a channel, the hosts that write to the bot,
and the users that command it. -/
theorem hosts_apart :
    KeepsApart srcShape (fun flood => flood) trackStep ChanHit.host ChanHit.now
        (List.replicate maxFloodTrack {}) maxFloodTrack ∧
      KeepsApart hostShape BotFlood.hostFlood hostStep BotHit.host BotHit.now {} maxHostTrack ∧
      KeepsApart cmdShape BotFlood.cmdFlood cmdStep UserCmd.uuid UserCmd.now {} maxUserRecords := by
  refine ⟨?_, ?_, ?_⟩
  · exact keepsApart_of_tracks track_tracks rfl (by decide)
  · exact keepsApart_of_tracks hostHit_tracks rfl (by decide)
  · exact keepsApart_of_tracks cmdCount_tracks rfl (by decide)

end IrcBot.FloodHosts
