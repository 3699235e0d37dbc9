/-
# Who is in a channel (`chanenf.rs`)

The roster is kept from WHO replies and from the arrivals and departures the server
shows. An arrival also counts as a join event of its host.
-/
import IrcBot.Chanflood

namespace IrcBot.Roster

open Cstr Chancfg Chanenf Enforce Jobs

/-! ### The roster -/

/-- `roster_set`: add an entry or replace it; a nick or a mask that is too long is left
out, and so is a newcomer to a full roster. -/
def rosterSet (c : Chan) (nick hostmask : Str) (op halfop voice : Bool) : Chan :=
  let e : RosterEntry :=
    { nick, hostmask, isOp := op, isHalfop := halfop, isVoice := voice }
  if maxMemberNick ≤ nick.length || maxMaskLen ≤ hostmask.length then c
  else
    match rfind c nick with
    | some i => { c with roster := c.roster.set i e }
    | none =>
        if maxRosterSize ≤ c.roster.length then c else { c with roster := c.roster ++ [e] }

/-- `rremove`. -/
def rremove (c : Chan) (nick : Str) : Chan :=
  match rfind c nick with
  | some i => { c with roster := c.roster.eraseIdx i }
  | none => c

theorem rfind_eq_some {c : Chan} {nick : Str} {i : Nat} (h : rfind c nick = some i) :
    ∃ e, c.roster[i]? = some e ∧ eqIc e.nick nick = true := by
  obtain ⟨hlt, he, -⟩ := List.findIdx?_eq_some_iff_getElem.mp h
  exact ⟨c.roster[i], List.getElem?_eq_getElem hlt, he⟩

/-- The entry of `nick`, written over. -/
theorem withEntry_roster (c : Chan) (nick : Str) (f : RosterEntry → RosterEntry) :
    (∃ i e, rfind c nick = some i ∧ c.roster[i]? = some e ∧
      (Chanlive.withEntry c nick f).roster = c.roster.set i (f e)) ∨
    rfind c nick = none ∧ Chanlive.withEntry c nick f = c := by
  unfold Chanlive.withEntry
  cases hi : rfind c nick with
  | none => exact .inr ⟨rfl, rfl⟩
  | some i =>
      obtain ⟨e, he, -⟩ := rfind_eq_some hi
      obtain ⟨hlt, hget⟩ := List.getElem?_eq_some_iff.mp he
      refine .inl ⟨i, e, rfl, he, List.ext_getElem? fun j => ?_⟩
      dsimp only
      rw [List.getElem?_modify, List.getElem?_set]
      by_cases hij : i = j
      · obtain rfl := hij
        simp [hlt, hget]
      · simp [hij]

theorem membership_rosterSet (c : Chan) (nick hostmask : Str) (op halfop voice : Bool) :
    membership (rosterSet c nick hostmask op halfop voice) = membership c := by
  unfold rosterSet
  dsimp only
  split
  · rfl
  · split
    · rfl
    · split <;> rfl

theorem membership_rremove (c : Chan) (nick : Str) :
    membership (rremove c nick) = membership c := by
  unfold rremove
  split <;> rfl

/-! ### Arrivals and departures -/

section

variable (sha256 : Str → Str)

/-- `on_join`: somebody else arrives. -/
def onJoin (b : BotState) (chan nuh : Str) : BotState :=
  match inChan b chan, nuhNick nuh with
  | some ci, some nick =>
      if !nuh.contains (byte '@') || isMe b nick then b
      else
        let name := (b.chans.getD ci {}).name
        let b := withChan b ci fun c =>
          { rosterSet c nick nuh false false false with enfDirty := true }
        Chanflood.event sha256 b name nuh .join false
  | _, _ => b

/-- `on_part`: somebody else leaves. -/
def onPart (b : BotState) (chan nick : Str) : BotState :=
  if isMe b nick then b
  else
    match find b chan with
    | none => b
    | some ci => withChan b ci fun c => { rremove c nick with enfDirty := true }

/-- The mask of a member under another nick; `none` where it does not fit. -/
def renamedMask (hostmask new : Str) : Option Str :=
  if !hostmask.contains (byte '!') then none
  else
    let mask := new ++ hostmask.dropWhile (· ≠ byte '!')
    if mask.length < maxMaskLen then some mask else none

/-- A member under its new nick. A stale entry under that nick goes; a change of case
names the same entry. -/
def renameMember (c : Chan) (old new mask : Str) : Chan :=
  let c := if eqIc old new then c else rremove c new
  Chanlive.withEntry c old fun r => { r with nick := new, hostmask := mask, authGen := 0 }

/-- What `on_nick` does in one channel. -/
def onNickChan (old new : Str) (b : BotState) (ci : Nat) : BotState :=
  match (b.chans[ci]?.filter (·.status == .inside)).bind (member · old) with
  | none => b
  | some (_, e) =>
      let name := (b.chans.getD ci {}).name
      match if validNick b new then renamedMask e.hostmask new else none with
      -- a nick that cannot be tracked: the member is forgotten
      | none => withChan b ci fun c => { rremove c old with enfDirty := true }
      | some mask =>
          let b := withChan b ci fun c => renameMember c old new mask
          let b := Chanflood.event sha256 b name mask .nick false
          withChan b ci fun c => { c with enfDirty := true }

/-- `on_nick`. -/
def onNick (b : BotState) (old new : Str) : BotState :=
  (List.range b.chans.length).foldl (onNickChan sha256 old new) b

theorem standing_onJoin (b : BotState) (chan nuh : Str) :
    standing (onJoin sha256 b chan nuh) = standing b := by
  unfold onJoin
  split
  · split
    · rfl
    · rw [Chanflood.standing_event]
      exact standing_withChan b _ fun c => membership_rosterSet c _ nuh false false false
  · rfl

theorem membership_renameMember (c : Chan) (old new mask : Str) :
    membership (renameMember c old new mask) = membership c := by
  have hentry (c : Chan) (f : RosterEntry → RosterEntry) :
      membership (Chanlive.withEntry c old f) = membership c := by
    unfold Chanlive.withEntry
    split <;> rfl
  unfold renameMember
  dsimp only
  rw [hentry]
  split
  · rfl
  · exact membership_rremove c new

theorem standing_onNickChan (old new : Str) (b : BotState) (ci : Nat) :
    standing (onNickChan sha256 old new b ci) = standing b := by
  unfold onNickChan
  split
  · rfl
  · dsimp only
    split
    · exact standing_withChan b ci fun c => membership_rremove c old
    · rename_i mask _
      rw [standing_withChan _ ci (f := fun c => { c with enfDirty := true }) fun c => rfl,
        Chanflood.standing_event]
      exact standing_withChan b ci fun c => membership_renameMember c old new mask

/-- **A member's new nick leaves the bot's own standing alone.** -/
theorem standing_onNick (b : BotState) (old new : Str) :
    standing (onNick sha256 b old new) = standing b := by
  unfold onNick
  generalize List.range b.chans.length = places
  induction places generalizing b with
  | nil => rfl
  | cons ci places ih => rw [List.foldl_cons, ih, standing_onNickChan]

theorem standing_onPart (b : BotState) (chan nick : Str) :
    standing (onPart b chan nick) = standing b := by
  unfold onPart
  split
  · rfl
  · split
    · rfl
    · exact standing_withChan b _ fun c => membership_rremove c nick

end

end IrcBot.Roster
