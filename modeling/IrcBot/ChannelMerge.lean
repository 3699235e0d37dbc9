/-
# Merging channel records (`hub_client.rs`)

The hub sends `c|` lines; `sync_channel_line` takes one if its stamp is above the
stored one. A line without a key leaves the key, and the deletion of a channel
that the bot does not know is skipped.

* `syncChannelLines_converge_iff` — when two bots that get the lines of a channel in
  different orders end up with the same record.
* `not_syncChannelLines_converge` — a newer line without a key: the key depends on
  whether the older line came first.
-/
import IrcBot.SettingsMerge

namespace IrcBot.ChannelMerge

open Cstr Chancfg Config HubSync Lib.LastWriter SettingsMerge

/-! ### The registers of a channel -/

/-- What a `c|` line decides about a channel. -/
structure ChanSync where
  key : Str
  modes : UInt32
  isManaged : Bool
  timestamp : Int
deriving DecidableEq

def ChanSync.of (c : Chan) : ChanSync := ⟨c.key, c.modes, c.isManaged, c.timestamp⟩

/-- The record of the channel of that name, if the bot knows the channel. -/
def chanSync (b : BotState) (name : Str) : Option ChanSync := (byName b name).map ChanSync.of

/-- The record of a line that is known to be readable. -/
def hubChan (line : Str) : HubChan := (parseHubChan line).getD {}

def lineLevel (line : Str) : Int ×ₗ Bool :=
  lwwLevel (hubChan line).ts ((hubChan line).op == str "add")

/-- The key a line writes, if it has one. -/
def keyWrites : Writes Str (Int ×ₗ Bool) Str where
  level := lineLevel
  value line := if (hubChan line).key.isEmpty then none else some (trunc (hubChan line).key maxKey)

/-- The join modes a line writes. -/
def modesWrites : Writes Str (Int ×ₗ Bool) UInt32 where
  level := lineLevel
  value line := some (UInt32.ofInt (toI32 (hubChan line).modes))

/-- The register of a part `val` of the record. -/
def ChanSync.register {β : Type} (val : ChanSync → β) (g : ChanSync) : Register (Int ×ₗ Bool) β :=
  ⟨lwwLevel g.timestamp g.isManaged, val g⟩

/-- The two registers hold the whole record. -/
theorem ChanSync.eq_of_registers {g g' : ChanSync} (hkey : g.register key = g'.register key)
    (hmodes : g.register modes = g'.register modes) : g = g' := by
  obtain ⟨k, m, a, t⟩ := g
  obtain ⟨k', m', a', t'⟩ := g'
  simp only [ChanSync.register, Register.mk.injEq, lwwLevel, EmbeddingLike.apply_eq_iff_eq,
    Prod.mk.injEq] at hkey hmodes
  obtain ⟨⟨rfl, hmanaged⟩, rfl⟩ := hkey
  obtain ⟨-, rfl⟩ := hmodes
  obtain rfl : a = a' := by simpa using hmanaged
  rfl

theorem eq_of_map_registers {o o' : Option ChanSync}
    (hkey : o.map (ChanSync.register ChanSync.key) = o'.map (ChanSync.register ChanSync.key))
    (hmodes : o.map (ChanSync.register ChanSync.modes) = o'.map (ChanSync.register ChanSync.modes)) :
    o = o' := by
  cases o with
  | none =>
      have hnone : o' = none := by simpa using hkey
      exact hnone.symm
  | some g =>
      cases o' with
      | none => simp at hkey
      | some g' =>
          rw [Option.map_some, Option.map_some, Option.some.injEq] at hkey hmodes
          rw [ChanSync.eq_of_registers hkey hmodes]

/-! ### What a line does -/

/-- A line for the channel of that name. -/
def IsFor (name line : Str) : Prop := ∃ p, parseHubChan line = some p ∧ eqIc p.chan name = true

/-- The first field of a line, of width `max`. -/
theorem length_carry_le {max : Nat} {excl data old : Str} {fmt : List Fmt}
    (hold : old.length ≤ max) :
    (carry (sscanf data (.set max excl :: fmt)) 0 old).length ≤ max := by
  rw [sscanf]
  split
  · rename_i v rest hset
    exact length_setNot_le hset
  · exact hold

theorem length_chan_parseHubChan {data : Str} {p : HubChan} (h : parseHubChan data = some p) :
    p.chan.length < maxChan := by
  have hlen (data old : Str) (fmt : List Fmt) (hold : old.length ≤ 64) :
      (carry (sscanf data (.set 64 [byte '|'] :: fmt)) 0 old).length ≤ 64 := length_carry_le hold
  suffices p.chan.length ≤ 64 from Nat.lt_succ_of_le this
  unfold parseHubChan at h
  dsimp only at h
  split at h
  · obtain rfl := Option.some.inj h
    exact hlen _ _ _ (Nat.zero_le _)
  · split at h
    · obtain rfl := Option.some.inj h
      exact hlen _ _ _ (hlen _ _ _ (Nat.zero_le _))
    · split at h
      · obtain rfl := Option.some.inj h
        exact hlen _ _ _ (hlen _ _ _ (hlen _ _ _ (Nat.zero_le _)))
      · split at h
        · obtain rfl := Option.some.inj h
          exact hlen _ _ _ (hlen _ _ _ (hlen _ _ _ (hlen _ _ _ (Nat.zero_le _))))
        · simp at h

/-- Parting or joining changes where the bot is, not the record. -/
theorem chans_followSync (b : BotState) (ci : Nat) (p : HubChan) (wasManaged : Bool) :
    ∃ status : Chan → ChanStatus, (followSync b ci p wasManaged).chans =
      b.chans.modify ci fun c => { c with status := status c } := by
  have hprint (b : BotState) (line : Str) : (ircPrintf b line).chans = b.chans := by
    obtain ⟨out, heq, -⟩ := ircPrintf_eq b line
    rw [heq]
  have hid : b.chans.modify ci (fun c => { c with status := c.status }) = b.chans :=
    List.modify_id ci b.chans
  unfold followSync
  split
  · exact ⟨fun c => c.status, hid.symm⟩
  · rename_i c _
    -- the JOIN line leaves the table to the PART
    have hjoin (b' : BotState) (join : Bool) (l l' : Str) : (if join then
        (if c.key.isEmpty then ircPrintf b' l else ircPrintf b' l') else b').chans = b'.chans := by
      split
      · split
        · exact hprint b' l
        · exact hprint b' l'
      · rfl
    dsimp only
    rw [hjoin]
    split
    · exact ⟨fun _ => .out, by rw [withChan, hprint]⟩
    · exact ⟨fun c => c.status, hid.symm⟩

/-- What a line leaves of a record that it replaces. -/
def HubChan.replace (p : HubChan) (g : ChanSync) : ChanSync :=
  ⟨if p.key.isEmpty then g.key else trunc p.key maxKey, UInt32.ofInt (toI32 p.modes),
    p.op == str "add", p.ts⟩

/-- **A `c|` line replaces the record of its channel if it is above it**; an addition
makes the record of a channel the bot does not know. -/
theorem chanSync_syncChannelLine {name line : Str} {p : HubChan} (b : BotState)
    (hread : parseHubChan line = some p) (hname : eqIc p.chan name = true) :
    chanSync (syncChannelLine b line).2 name =
      match chanSync b name with
      | some g =>
          some (if lwwLevel g.timestamp g.isManaged < lwwLevel p.ts (p.op == str "add") then
            HubChan.replace p g else g)
      | none =>
          if (p.op == str "add") = true then some (HubChan.replace p ⟨[], 0, true, 0⟩) else none := by
  have hfind (b : BotState) : find b p.chan = find b name := find_congr b hname
  rw [syncChannelLine, hread]
  dsimp only
  rw [hfind]
  cases hknown : find b name with
  | some ci =>
      obtain ⟨c, hc, -⟩ := find_eq_some hknown
      have hchan : chanSync b name = some (.of c) := by
        rw [chanSync, byName_eq_some hknown hc, Option.map_some]
      rw [Option.bind_some, hc, Option.map_some, hchan]
      dsimp only
      split
      · rename_i hrejected
        rw [hchan, if_neg]
        rw [← lwwAccepts_iff]
        simpa [ChanSync.of] using hrejected
      · rename_i haccepted
        obtain ⟨status, hstatus⟩ := chans_followSync (withChan b ci p.store) ci p c.isManaged
        let stored (c : Chan) : Chan := { p.store c with status := status (p.store c) }
        have hchans : (followSync (withChan b ci p.store) ci p c.isManaged).chans =
            b.chans.modify ci stored := by
          rw [hstatus, withChan, List.modify_modify_eq]
          rfl
        rw [chanSync, byName_modify (f := stored) hknown hc (fun _ => rfl) hchans, Option.map_some,
          if_pos]
        · rfl
        · rw [← lwwAccepts_iff]
          simpa [ChanSync.of] using haccepted
  | none =>
      have hunknown : chanSync b name = none := by
        rw [chanSync, byName_eq_none hknown, Option.map_none]
      rw [Option.bind_none, hunknown]
      dsimp only
      cases hadd : p.op == str "add" with
      | false => exact hunknown
      | true =>
          rw [Bool.not_true, if_neg (by decide), if_pos rfl]
          cases hnew : add b p.chan with
          | none =>
              unfold add at hnew
              rw [hfind, hknown] at hnew
              simp at hnew
          | some q =>
              obtain ⟨ci, b'⟩ := q
              obtain ⟨hfound, hget⟩ := add_eq_some (length_chan_parseHubChan hread) hnew
              rw [find_congr b' hname] at hfound
              dsimp only
              rw [chanSync, byName_modify (f := p.store) hfound hget (fun _ => rfl) rfl,
                Option.map_some]
              rfl

theorem hubChan_eq {line : Str} {p : HubChan} (h : parseHubChan line = some p) :
    hubChan line = p := by
  rw [hubChan, h, Option.getD_some]

/-- The lines, one after the other. -/
def syncChannelLines (b : BotState) (lines : List Str) : BotState :=
  lines.foldl (fun b line => (syncChannelLine b line).2) b

section

variable {β : Type} (W : Writes Str (Int ×ₗ Bool) β) (val : ChanSync → β)

/-- A line writes the register of a part of the record. -/
theorem register_syncChannelLine {name line : Str} (b : BotState) (h : IsFor name line)
    (hlevel : W.level = lineLevel)
    (hvalue : ∀ g, val (HubChan.replace (hubChan line) g) = (W.value line).getD (val g)) :
    (chanSync (syncChannelLine b line).2 name).map (ChanSync.register val) =
      W.put opensChan (val ⟨[], 0, true, 0⟩) ((chanSync b name).map (ChanSync.register val)) line := by
  obtain ⟨p, hread, hname⟩ := h
  have hline : lwwLevel p.ts (p.op == str "add") = W.level line := by
    rw [hlevel, lineLevel, hubChan_eq hread]
  rw [hubChan_eq hread] at hvalue
  rw [chanSync_syncChannelLine b hread hname, hline]
  cases chanSync b name with
  | some g =>
      dsimp only
      rw [Option.map_some, Option.map_some, Writes.put, Writes.write]
      split
      · rename_i habove
        refine congrArg some (Eq.trans ?_ (if_pos habove).symm)
        rw [ChanSync.register, hvalue]
        exact Register.ext hline rfl
      · rename_i hbelow
        exact congrArg some (if_neg hbelow).symm
  | none =>
      dsimp only
      rw [Option.map_none, Writes.put, ← hline, opensChan_lwwLevel, hline]
      cases p.op == str "add" with
      | false => rfl
      | true =>
          rw [if_pos rfl, if_pos rfl, Option.map_some, ChanSync.register, hvalue]
          exact congrArg some (Register.ext hline rfl)

/-- Lines fill the register of a part of the record. -/
theorem register_syncChannelLines {name : Str} {lines : List Str}
    (hlines : ∀ l ∈ lines, IsFor name l) (hlevel : W.level = lineLevel)
    (hvalue : ∀ line g, val (HubChan.replace (hubChan line) g) = (W.value line).getD (val g))
    (b : BotState) :
    (chanSync (syncChannelLines b lines) name).map (ChanSync.register val) =
      W.fill opensChan (val ⟨[], 0, true, 0⟩) ((chanSync b name).map (ChanSync.register val))
        lines := by
  induction lines generalizing b with
  | nil => rfl
  | cons line lines ih =>
      simp only [List.mem_cons, forall_eq_or_imp] at hlines
      rw [syncChannelLines, List.foldl_cons, Writes.fill, List.foldl_cons,
        ← register_syncChannelLine W val b hlines.1 hlevel (hvalue line)]
      exact ih hlines.2 _

end

theorem key_replace (line : Str) (g : ChanSync) :
    (HubChan.replace (hubChan line) g).key = (keyWrites.value line).getD g.key := by
  rw [HubChan.replace, keyWrites]
  dsimp only
  split <;> rfl

/-! ### When the order does not matter -/

/-- The newest lines carry the same modes, and either the same key or there is no
line that could bring another key than the stored one. -/
def RecordSettled (b : BotState) (name : Str) (lines : List Str) : Prop :=
  match chanSync b name with
  | some g => keyWrites.Settled (g.register ChanSync.key) lines ∧
      modesWrites.Settled (g.register ChanSync.modes) lines
  | none => keyWrites.SettledNew opensChan [] lines ∧ modesWrites.SettledNew opensChan 0 lines

/-- **The `c|` lines of a channel converge exactly if its record is settled**: then
every order of the lines ends in the same key, join modes, managed flag and
stamp. -/
theorem syncChannelLines_converge_iff (b : BotState) (name : Str) (lines : List Str)
    (hlines : ∀ l ∈ lines, IsFor name l) :
    (∀ lines' : List Str, lines'.Perm lines →
        chanSync (syncChannelLines b lines') name = chanSync (syncChannelLines b lines) name) ↔
      RecordSettled b name lines := by
  have hkey {lines' : List Str} (h : ∀ l ∈ lines', IsFor name l) :=
    register_syncChannelLines keyWrites ChanSync.key h rfl key_replace b
  have hmodes {lines' : List Str} (h : ∀ l ∈ lines', IsFor name l) :=
    register_syncChannelLines modesWrites ChanSync.modes h rfl (fun _ _ => rfl) b
  have hfor {lines' : List Str} (hperm : lines'.Perm lines) : ∀ l ∈ lines', IsFor name l :=
    fun l hl => hlines l (hperm.mem_iff.mp hl)
  have hsame {lines' : List Str} (hperm : lines'.Perm lines) :
      chanSync (syncChannelLines b lines') name = chanSync (syncChannelLines b lines) name ↔
        (keyWrites.fill opensChan [] ((chanSync b name).map (ChanSync.register ChanSync.key)) lines' =
          keyWrites.fill opensChan [] ((chanSync b name).map (ChanSync.register ChanSync.key)) lines) ∧
        modesWrites.fill opensChan 0 ((chanSync b name).map (ChanSync.register ChanSync.modes)) lines' =
          modesWrites.fill opensChan 0 ((chanSync b name).map (ChanSync.register ChanSync.modes))
            lines := by
    constructor
    · intro heq
      exact ⟨by rw [← hkey (hfor hperm), ← hkey hlines, heq],
        by rw [← hmodes (hfor hperm), ← hmodes hlines, heq]⟩
    · rintro ⟨hk, hm⟩
      rw [← hkey (hfor hperm), ← hkey hlines] at hk
      rw [← hmodes (hfor hperm), ← hmodes hlines] at hm
      exact eq_of_map_registers hk hm
  unfold RecordSettled
  cases hknown : chanSync b name with
  | some g =>
      rw [hknown] at hsame
      simp only [Option.map_some, Writes.fill_some, Option.some.injEq] at hsame
      constructor
      · intro hall
        exact ⟨Writes.settled_of_perm fun ys hperm => ((hsame hperm).mp (hall ys hperm)).1,
          Writes.settled_of_perm fun ys hperm => ((hsame hperm).mp (hall ys hperm)).2⟩
      · rintro ⟨hk, hm⟩ lines' hperm
        exact (hsame hperm).mpr ⟨Writes.run_eq_of_settled hk fun _ => hperm.mem_iff,
          Writes.run_eq_of_settled hm fun _ => hperm.mem_iff⟩
  | none =>
      rw [hknown] at hsame
      simp only [Option.map_none] at hsame
      constructor
      · intro hall
        exact ⟨Writes.settledNew_of_perm fun ys hperm => ((hsame hperm).mp (hall ys hperm)).1,
          Writes.settledNew_of_perm fun ys hperm => ((hsame hperm).mp (hall ys hperm)).2⟩
      · rintro ⟨hk, hm⟩ lines' hperm
        exact (hsame hperm).mpr ⟨Writes.fill_eq_of_settledNew hk fun _ => hperm.mem_iff,
          Writes.fill_eq_of_settledNew hm fun _ => hperm.mem_iff⟩

/-- Two lines with a key each: the newer one's key and modes stay. -/
theorem syncChannelLines_converge_iff_keys :
    let lines := [str "#a|k|0|add|5", str "#a|j|0|add|7"]
    (∀ lines' : List Str, lines'.Perm lines →
        chanSync (syncChannelLines {} lines') (str "#a") =
          chanSync (syncChannelLines {} lines) (str "#a")) ↔
      RecordSettled {} (str "#a") lines := by
  refine syncChannelLines_converge_iff {} (str "#a") _ ?_
  simp only [List.mem_cons, List.not_mem_nil, or_false]
  rintro l (rfl | rfl)
  · exact ⟨⟨str "#a", str "k", 0, str "add", 5⟩, by decide, by decide⟩
  · exact ⟨⟨str "#a", str "j", 0, str "add", 7⟩, by decide, by decide⟩

/-- A newer line without a key keeps the key of the older line only if that came
first. -/
theorem not_syncChannelLines_converge :
    ¬ ∀ (b : BotState) (name : Str) (lines lines' : List Str), (∀ l ∈ lines, IsFor name l) →
        lines'.Perm lines →
        chanSync (syncChannelLines b lines') name = chanSync (syncChannelLines b lines) name := by
  intro hall
  have hsame := hall {} (str "#a") [str "#a|k|0|add|5", str "#a||0|add|7"]
    [str "#a||0|add|7", str "#a|k|0|add|5"] (by
      simp only [List.mem_cons, List.not_mem_nil, or_false]
      rintro l (rfl | rfl)
      · exact ⟨⟨str "#a", str "k", 0, str "add", 5⟩, by decide, by decide⟩
      · exact ⟨⟨str "#a", [], 0, str "add", 7⟩, by decide, by decide⟩)
    (List.Perm.swap _ _ _)
  exact absurd hsame (by decide)

end IrcBot.ChannelMerge
