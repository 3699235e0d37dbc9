/-
# Purging tombstones (`hub_client.rs`, `chancfg.rs`)

A `PURGE` line drops the tombstones stamped before a cutoff. The row of a channel carries two
records, `c|` and `C|`, each with a stamp and a tombstone of its own, and goes as a whole by the
first of them.

* `applyPurge_cases` — what is left of each table.
* `purges_iff` — the four kinds of tombstones go and nothing else of them; the `C|` records in
  force stay exactly when no row that goes holds one.
-/
import IrcBot.BanTable
import IrcBot.ChanRecord
import IrcBot.HubSync

namespace IrcBot.Purge

open Cstr Chancfg HubPush HubSync ChanRecord

/-! ### The bans -/

theorem swapRemove_cons {front back : List CfgBan} {x y : CfgBan} :
    ((front ++ x :: (back ++ [y])).set front.length y).take (front.length + back.length + 1) =
      front ++ y :: back := by
  rw [List.set_append_right _ _ (Nat.le_refl _), Nat.sub_self, List.set_cons_zero,
    Nat.add_assoc, List.take_length_add_append, List.take_succ_cons, List.take_left]

/-- The places before `i` are done; of the others, the tombstones go. -/
theorem perm_purgeBansLoop (cutoff : Int) (fuel : Nat) : ∀ (front rest : List CfgBan),
    rest.length ≤ fuel →
      (purgeBansLoop cutoff fuel front.length (front ++ rest)).1.Perm
        (front ++ rest.filter fun x => !purged cutoff x.active x.ts) := by
  induction fuel with
  | zero =>
      intro front rest h
      obtain rfl := List.length_eq_zero_iff.mp (Nat.le_zero.mp h)
      exact List.Perm.refl _
  | succ fuel ih =>
      intro front rest h
      cases rest with
      | nil =>
          unfold purgeBansLoop
          rw [List.append_nil, List.getElem?_eq_none (Nat.le_refl _)]
          simp
      | cons x rest =>
          rw [List.length_cons, Nat.succ_le_succ_iff] at h
          unfold purgeBansLoop
          rw [List.getElem?_append_right (Nat.le_refl _), Nat.sub_self, List.getElem?_cons_zero]
          dsimp only
          by_cases hold : (!x.active && (cutoff == 0 || x.ts < cutoff)) = true
          · have hgone : (!purged cutoff x.active x.ts) = false := by
              rw [purged, hold]
              rfl
            rw [if_pos hold, List.filter_cons, hgone]
            rcases List.eq_nil_or_concat rest with rfl | ⟨back, y, rfl⟩
            · have hlast : (front ++ [x])[(front ++ [x]).length - 1]? = some x := by simp
              rw [hlast]
              have hset : ((front ++ [x]).set front.length x).take ((front ++ [x]).length - 1) =
                  front := by simp
              rw [hset]
              simpa using ih front [] (Nat.zero_le _)
            · have hlen : (front ++ x :: (back ++ [y])).length - 1 =
                  front.length + back.length + 1 := by
                simp
                omega
              have hlast : (front ++ x :: (back ++ [y]))[front.length + back.length + 1]? =
                  some y := by
                rw [List.getElem?_append_right (by omega)]
                have : front.length + back.length + 1 - front.length = back.length + 1 := by omega
                rw [this]
                simp
              rw [List.concat_eq_append, hlen, hlast]
              dsimp only
              rw [swapRemove_cons]
              have hrest : (y :: back).length ≤ fuel := by
                simpa using h
              refine (ih front (y :: back) hrest).trans (List.Perm.append_left front ?_)
              exact (List.perm_append_singleton y back).symm.filter _
          · have hkept : (!purged cutoff x.active x.ts) = true := by
              rw [purged, Bool.not_eq_true _ |>.mp hold]
              rfl
            rw [if_neg hold, List.filter_cons, hkept]
            have hnext := ih (front ++ [x]) rest h
            simpa using hnext

/-- **`purge_bans` drops the old tombstones and no other ban.** -/
theorem perm_purgeBans (b : BotState) (cutoff : Int) :
    (purgeBans b cutoff).2.cfgBans.Perm
      (b.cfgBans.filter fun x => !purged cutoff x.active x.ts) := by
  exact perm_purgeBansLoop cutoff b.cfgBans.length [] b.cfgBans (Nat.le_refl _)

/-! ### What is left -/

/-- What is kept of a ban across a restart. -/
def banRecord (x : CfgBan) : CfgBan := { x with pushPending := false }

/-- Writing the config uses the link, and marks bans as sent. -/
theorem writeConfig_eq (b : BotState) :
    ∃ link out bans, writeConfig b = { b with link := link, hubOut := out, cfgBans := bans } ∧
      bans.map banRecord = b.cfgBans.map banRecord := by
  unfold writeConfig pushConfig
  split
  · split
    · exact ⟨_, _, _, rfl, rfl⟩
    · dsimp only
      split
      · exact ⟨_, _, _, rfl, rfl⟩
      · have hlink := (sameButLink_sendFrame b cmdConfigPush (generateConfigPayload b)).eq
        rcases hsent : sendFrame b cmdConfigPush (generateConfigPayload b) with ⟨sent, b'⟩
        rw [hsent] at hlink
        dsimp only at hlink
        have hbans : b'.cfgBans = b.cfgBans := by rw [hlink]
        cases sent with
        | true =>
            refine ⟨b'.link, b'.hubOut, b'.cfgBans.map fun x => { x with pushPending := false }, ?_, ?_⟩
            · dsimp only
              rw [hlink]
            · rw [hbans, List.map_map]
              rfl
        | false =>
            exact ⟨b'.link, b'.hubOut, b.cfgBans, hlink, rfl⟩
  · exact ⟨_, _, _, rfl, rfl⟩

/-- The cutoff of a `PURGE` line, if it has one. -/
def cutoffOf (arg : Str) : Option Int := (parseI64 (arg.dropWhile isCSpace)).filter (0 ≤ ·)

/-- A row that goes: its `c|` half is an old tombstone, or was never there. -/
def Goes (cutoff : Int) (c : Chan) : Prop := purged cutoff c.isManaged c.timestamp = true

/-- The `C|` half of a row is in force. -/
def InForce (c : Chan) : Prop := c.cfgActive = true ∧ 0 < c.cfgTs

/-- The `c|` records. A row that is held for its `C|` half alone has none. -/
def chanRecords (b : BotState) : List Saved :=
  (b.chans.filter fun c => c.isManaged || c.timestamp != 0).map saved

/-- Exactly the old tombstones of the four kinds go, and no record in force does. -/
structure Purges (cutoff : Int) (b b' : BotState) : Prop where
  channels : chanRecords b' =
    (chanRecords b).filter fun r => !purged cutoff r.isManaged r.timestamp
  users : b'.userRecords = b.userRecords.filter fun u => !purged cutoff u.isActive u.timestamp
  masks : b'.maskRecords = b.maskRecords.filter fun m => !purged cutoff m.isActive m.timestamp
  bans : (b'.cfgBans.map banRecord).Perm
    ((b.cfgBans.map banRecord).filter fun x => !purged cutoff x.active x.ts)
  settings : ∀ c ∈ b.chans, InForce c → c ∈ b'.chans
  defaults : (b'.netModes, b'.netSettings, b'.netTs) = (b.netModes, b.netSettings, b.netTs)
  bots : b'.trustedBots = b.trustedBots
  flags : (b'.optFlags, b'.optFlagsTs) = (b.optFlags, b.optFlagsTs)

/-- The tables after a purge; the rest is the link and what it was sent. -/
theorem applyPurge_cases {b : BotState} {arg : Str} {cutoff : Int}
    (h : cutoffOf arg = some cutoff) :
    ∃ link out bans,
      applyPurge b arg = { b with
        chans := b.chans.filter fun c => !purged cutoff c.isManaged c.timestamp
        userRecords := b.userRecords.filter fun u => !purged cutoff u.isActive u.timestamp
        maskRecords := b.maskRecords.filter fun m => !purged cutoff m.isActive m.timestamp
        link := link, hubOut := out, cfgBans := bans } ∧
      (bans.map banRecord).Perm
        ((b.cfgBans.filter fun x => !purged cutoff x.active x.ts).map banRecord) := by
  obtain ⟨hparse, hpos⟩ := Option.filter_eq_some_iff.mp h
  rw [decide_eq_true_eq] at hpos
  have hbans := (perm_purgeBans b cutoff).map banRecord
  unfold applyPurge
  rw [hparse]
  dsimp only
  rw [if_neg (Int.not_lt.mpr hpos)]
  split
  · obtain ⟨link, out, bans, hwrite, hsame⟩ := writeConfig_eq (purgeBans { b with
      chans := b.chans.filter fun c => !purged cutoff c.isManaged c.timestamp
      userRecords := b.userRecords.filter fun u => !purged cutoff u.isActive u.timestamp
      maskRecords := b.maskRecords.filter fun m => !purged cutoff m.isActive m.timestamp } cutoff).2
    refine ⟨link, out, bans, ?_, ?_⟩
    · rw [hwrite]
      rfl
    · rw [hsame]
      exact hbans
  · exact ⟨_, _, _, rfl, hbans⟩

/-- A purge takes the row of a channel by its `c|` half: that is right for every kind of record
but the `C|` half of a row that goes. -/
theorem purges_iff {b : BotState} {arg : Str} {cutoff : Int} (h : cutoffOf arg = some cutoff) :
    Purges cutoff b (applyPurge b arg) ↔ ∀ c ∈ b.chans, Goes cutoff c → ¬ InForce c := by
  obtain ⟨link, out, bans, hafter, hbans⟩ := applyPurge_cases (b := b) h
  rw [hafter]
  constructor
  · intro hpurges c hc hgoes hforce
    obtain ⟨-, hkept⟩ := List.mem_filter.mp (hpurges.settings c hc hforce)
    rw [hgoes] at hkept
    exact Bool.noConfusion hkept
  · intro hnone
    constructor
    · unfold chanRecords
      dsimp only
      rw [List.filter_map, List.filter_filter, List.filter_filter]
      exact congrArg (List.map saved) (List.filter_congr fun c _ => Bool.and_comm _ _)
    · rfl
    · rfl
    · rw [List.filter_map]
      exact hbans
    · intro c hc hforce
      refine List.mem_filter.mpr ⟨hc, ?_⟩
      rw [Bool.not_eq_true', Bool.eq_false_iff]
      exact fun hgoes => hnone c hc hgoes hforce
    · rfl
    · rfl
    · rfl

/-- A channel known from its settings alone. -/
def held : Chan := { name := str "#a", cfgSettings := str "+bitch", cfgTs := 5, cfgActive := true }

/-- Tombstones from before and after the cutoff in every table, and a held row that is not in
force. -/
def graves : BotState where
  chans := [
    { name := str "#a", isManaged := true, timestamp := 20, cfgSettings := str "bitch=1", cfgTs := 5
      cfgActive := true },
    { name := str "#b", timestamp := 30 },
    { held with name := str "#c", cfgActive := false },
    { held with name := str "#d", timestamp := 80 }]
  userRecords := [
    { uuid := str "u1", isActive := true, timestamp := 10 }, { uuid := str "u2", timestamp := 30 },
    { uuid := str "u3", timestamp := 60 }]
  maskRecords := [
    { uuid := str "u2", mask := str "*!*@h", timestamp := 30 },
    { uuid := str "u1", mask := str "*!*@i", isActive := true, timestamp := 10 }]
  cfgBans := [
    { chan := str "#a", mask := str "*!*@x", ts := 40 },
    { chan := str "#a", mask := str "*!*@y", ts := 45, active := true },
    { chan := str "*", mask := str "*!*@z", ts := 70 }]

theorem purges_graves : Purges 50 graves (applyPurge graves (str "50")) := by
  refine (purges_iff (by decide)).mpr fun c hc hgoes hforce => ?_
  have hnone : ∀ c ∈ graves.chans,
    (purged 50 c.isManaged c.timestamp && c.cfgActive) = false := by decide
  have hboth := hnone c hc
  rw [show purged 50 c.isManaged c.timestamp = true from hgoes, hforce.1] at hboth
  cases hboth

/-- **Settings that came before their channel are purged while in force.** -/
theorem not_purges : ¬ ∀ (b : BotState) (arg : Str) (cutoff : Int), cutoffOf arg = some cutoff →
    Purges cutoff b (applyPurge b arg) := by
  intro h
  have hkept := (h { chans := [held] } (str "0") 0 (by decide)).settings held
    (List.mem_singleton_self _) ⟨rfl, by decide⟩
  have hgone : (applyPurge { chans := [held] } (str "0")).chans = [] := by
    obtain ⟨link, out, bans, hafter, -⟩ :=
      applyPurge_cases (b := { chans := [held] }) (show cutoffOf (str "0") = some 0 by decide)
    rw [hafter]
    rfl
  rw [hgone] at hkept
  exact List.not_mem_nil hkept

end IrcBot.Purge
