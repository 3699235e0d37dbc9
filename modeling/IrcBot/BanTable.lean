/-
# The table of bans (`chancfg.rs`)

A ban is stored by `ban_store` alone: for a `B|` line, for the bot itself and for an admin.
`purge_bans` drops tombstones.

* `Run.sound` — each channel and mask has one record; the table and each channel keep their
  caps; and a record that stays does not get older.
* `applyBLines_converge` — as long as the caps are not reached, the order in which lines are
  applied does not matter.
-/
import IrcBot.LocalWrites
import Mathlib.Data.List.Perm.Basic
import Mathlib.Data.List.Perm.Subperm
import Mathlib.Data.Finset.Card

namespace IrcBot.BanTable

open Cstr Chancfg HubPush LocalWrites

/-! ### A sound table -/

/-- Each key has one record, and the caps are kept. -/
structure Sound (bans : List CfgBan) : Prop where
  keys : (bans.map banKey).Nodup
  size : bans.length ≤ cfgMaxBans
  room : ∀ chan, activeBans bans chan ≤ cap chan

theorem eq_star_of_eqIc {a c : Str} (h : eqIc a c = true) (hc : c = str "*") : a = str "*" := by
  subst hc
  obtain ⟨x, rfl, hx⟩ := List.map_eq_singleton_iff.mp (eqIc_iff.mp h)
  rw [eq_of_lower (by decide) hx]
  rfl

/-- One channel, whatever its case, has one cap. -/
theorem cap_congr {a c : Str} (h : eqIc a c = true) : cap a = cap c := by
  have hiff : a = str "*" ↔ c = str "*" :=
    ⟨eq_star_of_eqIc (eqIc_iff.mpr (eqIc_iff.mp h).symm), eq_star_of_eqIc h⟩
  unfold cap
  by_cases hc : c = str "*"
  · rw [if_pos hc, if_pos (hiff.mpr hc)]
  · rw [if_neg hc, if_neg (mt hiff.mp hc)]

theorem activeBans_congr {a c : Str} (bans : List CfgBan) (h : eqIc a c = true) :
    activeBans bans a = activeBans bans c := by
  refine List.countP_congr fun x _ => ?_
  rw [Bool.and_eq_true, Bool.and_eq_true, eqIc_iff, eqIc_iff, eqIc_iff.mp h]

/-- A record counts for its channel, while it is active. -/
def counts (chan : Str) (x : CfgBan) : Nat := if x.active && eqIc x.chan chan then 1 else 0

theorem activeBans_set {bans : List CfgBan} {i : Nat} {x r : CfgBan} (hx : bans[i]? = some x)
    (chan : Str) :
    activeBans (bans.set i r) chan + counts chan x = activeBans bans chan + counts chan r := by
  obtain ⟨hlt, rfl⟩ := List.getElem?_eq_some_iff.mp hx
  have hmem := List.boole_getElem_le_countP (p := fun x => x.active && eqIc x.chan chan) hlt
  have hset := List.countP_set (p := fun x : CfgBan => x.active && eqIc x.chan chan) (a := r) hlt
  unfold activeBans counts
  omega

/-- A record that takes the place of one with its key. -/
theorem map_banKey_set {bans : List CfgBan} {i : Nat} {x r : CfgBan} (hx : bans[i]? = some x)
    (hkey : banKey x = banKey r) : (bans.set i r).map banKey = bans.map banKey := by
  obtain ⟨hlt, rfl⟩ := List.getElem?_eq_some_iff.mp hx
  have hlt' : i < (bans.map banKey).length := by simpa using hlt
  have hsame : (bans.map banKey)[i] = banKey r := by rw [List.getElem_map, hkey]
  rw [List.map_set, ← hsame, List.set_getElem_self]

/-- A record that counts is let in where there is room. -/
theorem room_of_counts {bans : List CfgBan} {r : CfgBan}
    (hroom : r.active = true → activeBans bans r.chan < cap r.chan) (chan : Str)
    (h : activeBans bans chan ≤ cap chan) : activeBans bans chan + counts chan r ≤ cap chan := by
  unfold counts
  split
  · rename_i hcounts
    obtain ⟨hactive, hchan⟩ := Bool.and_eq_true_iff.mp hcounts
    have hlt := hroom hactive
    rw [activeBans_congr bans hchan, cap_congr hchan] at hlt
    exact hlt
  · exact h

theorem Sound.stores {bans bans' : List CfgBan} {r : CfgBan} (h : Sound bans)
    (hs : Stores bans r bans') : Sound bans' := by
  obtain ⟨hkeys, hsize, hcaps⟩ := h
  cases hs with
  | @replaces i x _ hx hkey hnewer hroom =>
      have hset := fun chan => activeBans_set (r := r) hx chan
      refine ⟨?_, by rwa [List.length_set], fun chan => ?_⟩
      · rw [map_banKey_set hx hkey]
        exact hkeys
      · have hset := hset chan
        cases hold : x.active with
        | true =>
            -- the new record counts for the channel of the old one
            have hcounts : counts chan r ≤ counts chan x := by
              unfold counts
              have hchan : x.chan.map lower = r.chan.map lower := (Prod.mk.inj hkey).1
              have hsame : eqIc r.chan chan = eqIc x.chan chan := by
                rw [eqIc, eqIc, hchan]
              rw [hold, hsame]
              split
              · rename_i hr
                rw [Bool.and_eq_true] at hr
                simp [hr.2]
              · exact Nat.zero_le _
            have hle := hcaps chan
            omega
        | false =>
            have hroom' : r.active = true → activeBans bans r.chan < cap r.chan := by
              intro hactive
              rcases hroom hactive with htrue | hlt
              · rw [hold] at htrue
                cases htrue
              · exact hlt
            have hle := room_of_counts hroom' chan (hcaps chan)
            omega
  | joins hnew hroom hlen =>
      refine ⟨?_, by rw [List.length_append, List.length_singleton]; omega, fun chan => ?_⟩
      · rw [List.map_append, List.map_singleton, ← List.concat_eq_append]
        refine hkeys.concat ?_
        rw [List.mem_map]
        rintro ⟨x, hx, heq⟩
        exact hnew x hx heq
      · have hle := room_of_counts hroom chan (hcaps chan)
        rw [activeBans, List.countP_append, List.countP_singleton]
        exact hle
  | @evicts i x hnew hroom _ hold =>
      have hx := oldestTombstone_mem hold
      refine ⟨?_, by rwa [List.length_set], fun chan => ?_⟩
      · rw [List.map_set]
        refine hkeys.set ?_
        rw [List.mem_map]
        rintro ⟨y, hy, heq⟩
        exact hnew y hy heq
      · have hset := activeBans_set (r := r) hx chan
        have hle := room_of_counts hroom chan (hcaps chan)
        omega

/-- A sound table stays sound when records are dropped, whatever their order then. -/
theorem Sound.subperm {bans bans' : List CfgBan} (h : Sound bans) (hs : bans'.Subperm bans) :
    Sound bans' := by
  refine ⟨?_, le_trans hs.length_le h.size, fun chan => le_trans (hs.countP_le _) (h.room chan)⟩
  obtain ⟨l, hperm, hsub⟩ := hs
  exact (hperm.map banKey).nodup_iff.mp (h.keys.sublist (hsub.map banKey))

/-- The last record takes the place of one that is removed. -/
theorem subperm_swapRemove (bans : List CfgBan) (i : Nat) :
    ((match bans[bans.length - 1]? with
      | some y => bans.set i y
      | none => bans).take (bans.length - 1)).Subperm bans := by
  rcases List.eq_nil_or_concat bans with rfl | ⟨front, y, rfl⟩
  · exact List.Subperm.refl []
  · rw [List.concat_eq_append]
    have hlast : (front ++ [y])[(front ++ [y]).length - 1]? = some y := by simp
    rw [hlast]
    dsimp only
    have hlen : (front ++ [y]).length - 1 = front.length := by simp
    rw [hlen]
    by_cases hi : i < front.length
    · rw [List.set_append_left _ _ hi, List.take_left' (List.length_set ..)]
      have hperm := List.set_perm_cons_eraseIdx hi y
      refine hperm.subperm.trans ?_
      have hcons : (y :: front.eraseIdx i).Subperm (y :: front) :=
        (List.subperm_cons y).mpr (List.eraseIdx_sublist ..).subperm
      exact hcons.trans (List.perm_append_singleton y front).symm.subperm
    · rw [List.set_append_right _ _ (Nat.not_lt.mp hi), List.take_left]
      exact (List.sublist_append_left front [y]).subperm

theorem subperm_purgeBansLoop (cutoff : Int) (fuel : Nat) : ∀ (i : Nat) (bans : List CfgBan),
    (purgeBansLoop cutoff fuel i bans).1.Subperm bans := by
  induction fuel with
  | zero =>
      intro i bans
      exact List.Subperm.refl bans
  | succ fuel ih =>
      intro i bans
      unfold purgeBansLoop
      split
      · exact List.Subperm.refl bans
      · split
        · exact (ih i _).trans (subperm_swapRemove bans i)
        · exact ih (i + 1) bans

theorem subperm_purgeBans (b : BotState) (cutoff : Int) :
    (purgeBans b cutoff).2.cfgBans.Subperm b.cfgBans := subperm_purgeBansLoop cutoff _ 0 b.cfgBans

/-! ### No record gets older -/

/-- A record that stays is as new as it was. -/
def NoOlder (bans bans' : List CfgBan) : Prop :=
  ∀ k x y, byKey bans k = some x → byKey bans' k = some y → x.ts ≤ y.ts

theorem mem_of_byKey {bans : List CfgBan} {k : Str × Str} {x : CfgBan} (h : byKey bans k = some x) :
    x ∈ bans ∧ banKey x = k := ⟨List.mem_of_find?_eq_some h, by simpa using List.find?_some h⟩

/-- In a sound table a key has one record. -/
theorem byKey_of_mem {bans : List CfgBan} {x : CfgBan} (h : (bans.map banKey).Nodup)
    (hx : x ∈ bans) : byKey bans (banKey x) = some x := by
  cases hfind : byKey bans (banKey x) with
  | none =>
      have hnone := List.find?_eq_none.mp hfind x hx
      simp at hnone
  | some y =>
      obtain ⟨hy, hkey⟩ := mem_of_byKey hfind
      rw [List.inj_on_of_nodup_map h hy hx hkey]

theorem NoOlder.of_mem {bans bans' : List CfgBan}
    (hall : ∀ y ∈ bans', ∀ x ∈ bans, banKey x = banKey y → x.ts ≤ y.ts) : NoOlder bans bans' := by
  intro k x y hx hy
  obtain ⟨hx, hkey⟩ := mem_of_byKey hx
  obtain ⟨hy, hkey'⟩ := mem_of_byKey hy
  exact hall y hy x hx (hkey.trans hkey'.symm)

theorem Sound.noOlder_stores {bans bans' : List CfgBan} {r : CfgBan} (h : Sound bans)
    (hs : Stores bans r bans') : NoOlder bans bans' := by
  have hsame {x y : CfgBan} (hx : x ∈ bans) (hy : y ∈ bans) (hkey : banKey x = banKey y) :
      x.ts ≤ y.ts := by
    rw [List.inj_on_of_nodup_map h.keys hx hy hkey]
  refine .of_mem fun y hy x hx hkey => ?_
  cases hs with
  | @replaces i z _ hz hzkey hnewer hroom =>
      rcases List.mem_or_eq_of_mem_set hy with hy | rfl
      · exact hsame hx hy hkey
      · have hxz := List.inj_on_of_nodup_map h.keys hx (List.mem_of_getElem? hz)
          (hkey.trans hzkey.symm)
        rw [hxz]
        exact le_of_lwwAccepts hnewer
  | joins hnew _ _ =>
      rcases List.mem_append.mp hy with hy | hy
      · exact hsame hx hy hkey
      · rw [List.mem_singleton.mp hy] at hkey
        exact absurd hkey (hnew x hx)
  | evicts hnew _ _ _ =>
      rcases List.mem_or_eq_of_mem_set hy with hy | rfl
      · exact hsame hx hy hkey
      · exact absurd hkey (hnew x hx)

theorem Sound.noOlder_subperm {bans bans' : List CfgBan} (h : Sound bans)
    (hs : bans'.Subperm bans) : NoOlder bans bans' :=
  .of_mem fun y hy x hx hkey => by
    rw [List.inj_on_of_nodup_map h.keys hx (hs.subset hy) hkey]

/-! ### The four operations -/

/-- What `apply_b_line` reads from the body of a `B|` line, if it is well formed. -/
def readBan (data : Str) : Option CfgBan :=
  if bLineMax < data.length then none
  else
    match splitBan data with
    | none => none
    | some (head, op, stamp) =>
        match splitPipes 6 head, addOp op, parseLl stamp with
        | [chan, mask, expires, flags, setter, reason], some isAdd, some ts =>
            if ts ≤ 0 then none
            else if chan ≠ str "*" ∧ !validChanName chan then none
            else if mask.isEmpty || banMaskMax < mask.length || !plainText mask ||
                mask.contains (byte ' ') then none
            else
              match parseLl expires with
              | none => none
              | some expires =>
                  if 8 ≤ flags.length || !plainText flags then none
                  else if banSetterMax < setter.length || !plainText setter then none
                  else if banReasonMax < reason.length ||
                      reason.any fun c => c < 0x20 || c == 0x7f then none
                  else some { chan, mask, flags, setter, reason, expires, ts, active := isAdd }
        | _, _, _ => none

theorem applyBLine_eq (b : BotState) (data : Str) :
    applyBLine b data = match readBan data with
      | none => (false, b)
      | some r => banStore b r := by
  unfold applyBLine readBan
  by_cases hlen : bLineMax < data.length
  · rw [if_pos hlen, if_pos hlen]
  · rw [if_neg hlen, if_neg hlen]
    cases splitBan data with
    | none => rfl
    | some p =>
        obtain ⟨head, op, stamp⟩ := p
        dsimp only
        generalize splitPipes 6 head = fields
        generalize addOp op = isAdd
        generalize parseLl stamp = ts
        -- six fields, a flag and a stamp, or nothing is read
        rcases fields with _ | ⟨chan, _ | ⟨mask, _ | ⟨expires, _ | ⟨flags, _ | ⟨setter, _ |
          ⟨reason, _ | ⟨extra, rest⟩⟩⟩⟩⟩⟩⟩
        iterate 6 rfl
        · cases isAdd with
          | none => rfl
          | some isAdd =>
              cases ts with
              | none => rfl
              | some ts =>
                  dsimp only
                  cases parseLl expires with
                  | none => split_ifs <;> rfl
                  | some expires => split_ifs <;> rfl
        · rfl

/-- A call of one of the four. -/
inductive Call where
  | applyBLine (data : Str)
  | botBan (chan mask : Str) (expires : Int) (flags reason : Option Str) (del : Bool)
  | localBan (chan mask : Str) (expires : Int) (flags setter reason : Str) (del : Bool)
  | purgeBans (cutoff : Int)

def Call.run (b : BotState) : Call → BotState
  | .applyBLine data => (Chancfg.applyBLine b data).2
  | .botBan chan mask expires flags reason del =>
      (LocalWrites.botBan b chan mask expires flags reason del).2
  | .localBan chan mask expires flags setter reason del =>
      (LocalWrites.localBan b chan mask expires flags setter reason del).2
  | .purgeBans cutoff => (Chancfg.purgeBans b cutoff).2

/-- The tables before and after one call. -/
structure Keeps (bans bans' : List CfgBan) : Prop where
  sound : Sound bans → Sound bans'
  noOlder : Sound bans → NoOlder bans bans'

theorem NoOlder.refl (bans : List CfgBan) : NoOlder bans bans := by
  intro k x y hx hy
  rw [hx] at hy
  rw [Option.some.inj hy]

theorem Keeps.refl (bans : List CfgBan) : Keeps bans bans := ⟨id, fun _ => .refl bans⟩

theorem keeps_banStore (b : BotState) (r : CfgBan) : Keeps b.cfgBans (banStore b r).2.cfgBans := by
  rcases banStore_cases b r with h | ⟨bans, hs, h⟩
  · rw [h]
    exact .refl _
  · rw [h]
    exact ⟨fun hsound => hsound.stores hs, fun hsound => hsound.noOlder_stores hs⟩

/-- Taking the mark off a ban changes nothing else. -/
theorem unmark_cases (b : BotState) (chan mask : Str) :
    ∃ i, (unmark b chan mask).cfgBans =
      b.cfgBans.modify i fun x => { x with pushPending := false } := by
  unfold unmark
  split
  · exact ⟨_, rfl⟩
  · exact ⟨b.cfgBans.length, (List.modify_eq_self (Nat.le_refl _)).symm⟩

/-- What the invariants look at. -/
def core (x : CfgBan) : (Str × Str) × Bool × Int := (banKey x, x.active, x.ts)

theorem keeps_of_core {bans bans' : List CfgBan} (h : bans'.map core = bans.map core) :
    Keeps bans bans' := by
  have hkeys : bans'.map banKey = bans.map banKey := by
    have hfst := congrArg (List.map Prod.fst) h
    rwa [List.map_map, List.map_map] at hfst
  constructor
  · intro hsound
    refine ⟨by rw [hkeys]; exact hsound.keys, ?_, fun chan => ?_⟩
    · have hlen := congrArg List.length h
      rw [List.length_map, List.length_map] at hlen
      rw [hlen]
      exact hsound.size
    · have hcount (l : List CfgBan) : activeBans l chan =
          (l.map core).countP fun c => c.2.1 && c.1.1 == chan.map lower := by
        rw [List.countP_map]
        rfl
      rw [hcount, h, ← hcount]
      exact hsound.room chan
  · intro hsound
    refine .of_mem fun y hy x hx hkey => ?_
    have hmem : core y ∈ bans.map core := by
      rw [← h]
      exact List.mem_map_of_mem hy
    obtain ⟨z, hz, hcore⟩ := List.mem_map.mp hmem
    have hxz := List.inj_on_of_nodup_map hsound.keys hx hz (hkey.trans (congrArg Prod.fst hcore).symm)
    rw [hxz]
    exact le_of_eq (congrArg (fun c => c.2.2) hcore)

theorem Keeps.trans {bans bans' bans'' : List CfgBan} (h : Keeps bans bans')
    (hcore : bans''.map core = bans'.map core) : Keeps bans bans'' := by
  have hlast := keeps_of_core hcore
  refine ⟨fun hsound => hlast.sound (h.sound hsound), fun hsound k x z hx hz => ?_⟩
  have hsound' := h.sound hsound
  obtain ⟨hz, hzkey⟩ := mem_of_byKey hz
  have hmem : core z ∈ bans'.map core := by
    rw [← hcore]
    exact List.mem_map_of_mem hz
  obtain ⟨y, hy, hyz⟩ := List.mem_map.mp hmem
  have hykey : banKey y = k := (congrArg Prod.fst hyz).trans hzkey
  have hle := h.noOlder hsound k x y hx (by rw [← hykey]; exact byKey_of_mem hsound'.keys hy)
  exact le_trans hle (le_of_eq (congrArg (fun c => c.2.2) hyz))

theorem cfgBans_pushLines (b : BotState) (lines : Str) :
    (pushLines b lines).2.cfgBans = b.cfgBans := by
  unfold pushLines
  split
  · rfl
  · rw [(sameButLink_sendFrame b _ lines).eq]

theorem cfgBans_localCommit (b : BotState) (line : Str) :
    (localCommit b line).cfgBans = b.cfgBans := by
  unfold localCommit
  dsimp only
  split
  · rfl
  · exact cfgBans_pushLines b line

/-- The line of a ban goes up, and its mark may go: nothing else changes. -/
theorem core_pushBan (b : BotState) (r : CfgBan) :
    (pushBan b r).cfgBans.map core = b.cfgBans.map core := by
  unfold pushBan
  split
  · rfl
  · rename_i line _
    have hline := cfgBans_pushLines b line
    split
    · rename_i b' heq
      rw [heq] at hline
      obtain ⟨i, hi⟩ := unmark_cases b' r.chan r.mask
      rw [hi, hline, Activity.map_modify_of_same]
      exact fun x => rfl
    · rename_i b' heq
      rw [heq] at hline
      rw [hline]

theorem keeps_botBan (b : BotState) (chan mask : Str) (expires : Int) (flags reason : Option Str)
    (del : Bool) : Keeps b.cfgBans (botBan b chan mask expires flags reason del).2.cfgBans := by
  unfold botBan
  split
  · exact .refl _
  · rename_i r _
    have hstore := keeps_banStore b r
    split
    · rename_i b' heq
      rw [heq] at hstore
      exact hstore
    · rename_i b' heq
      rw [heq] at hstore
      have hpush := core_pushBan b' r
      generalize pushBan b' r = pushed at *
      exact hstore.trans hpush

theorem keeps_localBan (b : BotState) (chan mask : Str) (expires : Int) (flags setter reason : Str)
    (del : Bool) : Keeps b.cfgBans (localBan b chan mask expires flags setter reason del).2.cfgBans := by
  unfold localBan
  split
  · exact .refl _
  · rename_i r _
    have hstore := keeps_banStore b r
    split
    · rename_i b' heq
      rw [heq] at hstore
      exact hstore
    · rename_i b' heq
      rw [heq] at hstore
      dsimp only
      rw [cfgBans_localCommit]
      exact hstore

theorem keeps_call (b : BotState) (call : Call) : Keeps b.cfgBans (call.run b).cfgBans := by
  cases call with
  | applyBLine data =>
      show Keeps b.cfgBans (Chancfg.applyBLine b data).2.cfgBans
      rw [applyBLine_eq]
      split
      · exact .refl _
      · exact keeps_banStore b _
  | botBan chan mask expires flags reason del =>
      exact keeps_botBan b chan mask expires flags reason del
  | localBan chan mask expires flags setter reason del =>
      exact keeps_localBan b chan mask expires flags setter reason del
  | purgeBans cutoff =>
      have hsub := subperm_purgeBans b cutoff
      exact ⟨fun hsound => hsound.subperm hsub, fun hsound => hsound.noOlder_subperm hsub⟩

/-! ### Runs -/

/-- One call, in any state of the bot with this table. -/
def Step (bans bans' : List CfgBan) : Prop :=
  ∃ (b : BotState) (call : Call), b.cfgBans = bans ∧ (call.run b).cfgBans = bans'

inductive Run (bans₀ : List CfgBan) : List CfgBan → Prop where
  | start : Run bans₀ bans₀
  | step {bans bans' : List CfgBan} (h : Run bans₀ bans) (hs : Step bans bans') : Run bans₀ bans'

/-- Runs in which a key stays in the table. -/
inductive Stays (k : Str × Str) (bans₀ : List CfgBan) : List CfgBan → Prop where
  | start (h : (byKey bans₀ k).isSome = true) : Stays k bans₀ bans₀
  | step {bans bans' : List CfgBan} (h : Stays k bans₀ bans) (hs : Step bans bans')
      (hk : (byKey bans' k).isSome = true) : Stays k bans₀ bans'

theorem keeps_step {bans bans' : List CfgBan} (h : Step bans bans') : Keeps bans bans' := by
  obtain ⟨b, call, rfl, rfl⟩ := h
  exact keeps_call b call

theorem Stays.noOlder {k : Str × Str} {bans bans' : List CfgBan} (h : Stays k bans bans')
    (hsound : Sound bans) : Sound bans' ∧ ∀ x y, byKey bans k = some x → byKey bans' k = some y →
      x.ts ≤ y.ts := by
  induction h with
  | start _ => exact ⟨hsound, NoOlder.refl bans k⟩
  | @step bans₁ bans₂ hstays hs _ ih =>
      obtain ⟨hsound₁, hle⟩ := ih
      have hkeeps := keeps_step hs
      refine ⟨hkeeps.sound hsound₁, fun x z hx hz => ?_⟩
      have hpresent : (byKey bans₁ k).isSome = true := by
        cases hstays with
        | start h => exact h
        | step _ _ h => exact h
      obtain ⟨y, hy⟩ := Option.isSome_iff_exists.mp hpresent
      exact le_trans (hle x y hx hy) (hkeeps.noOlder hsound₁ k y z hy hz)

/-- **In every run from the empty table, each key has one record, the caps are kept, and a
record that stays does not get older.** -/
theorem Run.sound_table {bans : List CfgBan} (h : Run [] bans) :
    Sound bans ∧ ∀ k bans' x y, Stays k bans bans' → byKey bans k = some x →
      byKey bans' k = some y → x.ts ≤ y.ts := by
  have hsound : Sound bans := by
    induction h with
    | start => exact ⟨List.nodup_nil, Nat.zero_le _, fun _ => Nat.zero_le _⟩
    | step _ hs ih => exact (keeps_step hs).sound ih
  exact ⟨hsound, fun k bans' x y hstays => (hstays.noOlder hsound).2 x y⟩

/-! ### The order of lines -/

/-- `apply_b_line`, line by line. -/
def applyBLines (b : BotState) (lines : List Str) : BotState :=
  lines.foldl (fun b line => (applyBLine b line).2) b

/-- The stamps tell the records of a key apart, and their keys are within the caps. -/
structure WithinCaps (rs : List CfgBan) : Prop where
  stamps : rs.Pairwise fun r r' => banKey r = banKey r' → r.ts ≠ r'.ts
  chans : ∀ chan, ((rs.filter fun r => eqIc r.chan chan).map banKey).toFinset.card ≤ cap chan
  all : (rs.map banKey).toFinset.card ≤ cfgMaxBans

/-- The newest record of a key. -/
structure Newest (k : Str × Str) (rs : List CfgBan) (r : CfgBan) : Prop where
  mem : r ∈ rs
  key : banKey r = k
  le : ∀ r' ∈ rs, banKey r' = k → r'.ts ≤ r.ts

/-- The table holds the newest record of each key. -/
structure Holds (rs bans : List CfgBan) : Prop where
  keys : (bans.map banKey).Nodup
  newest : ∀ x ∈ bans, Newest (banKey x) rs x
  all : ∀ r ∈ rs, ∃ x ∈ bans, banKey x = banKey r

theorem WithinCaps.ts_ne {rs : List CfgBan} (h : WithinCaps rs) {x y : CfgBan} (hx : x ∈ rs)
    (hy : y ∈ rs) (hne : x ≠ y) (hkey : banKey x = banKey y) : x.ts ≠ y.ts := by
  have hsymm : Std.Symm fun r r' : CfgBan => banKey r = banKey r' → r.ts ≠ r'.ts :=
    ⟨fun r r' hr heq => (hr heq.symm).symm⟩
  exact h.stamps.forall hx hy hne hkey

theorem WithinCaps.perm {rs rs' : List CfgBan} (h : WithinCaps rs) (hperm : rs.Perm rs') :
    WithinCaps rs' := by
  refine ⟨(hperm.pairwise_iff fun hr heq => (hr heq.symm).symm).mp h.stamps, fun chan => ?_, ?_⟩
  · rw [← List.toFinset_eq_of_perm _ _ ((hperm.filter _).map banKey)]
    exact h.chans chan
  · rw [← List.toFinset_eq_of_perm _ _ (hperm.map banKey)]
    exact h.all

/-- Keys that are all among those of `rs`. -/
theorem length_le_card {ks ks' : List (Str × Str)} (h : ks.Nodup) (hsub : ∀ k ∈ ks, k ∈ ks') :
    ks.length ≤ ks'.toFinset.card := by
  rw [← List.toFinset_card_of_nodup h]
  refine Finset.card_le_card fun k hk => ?_
  rw [List.mem_toFinset] at hk ⊢
  exact hsub k hk

section

variable {b : BotState} {done rest : List CfgBan} {r : CfgBan}

/-- While the caps are kept there is room for one more. -/
theorem room_of_withinCaps (h : WithinCaps (done ++ r :: rest)) (hholds : Holds done b.cfgBans)
    (hnone : ∀ x ∈ b.cfgBans, x.active = true → banKey x ≠ banKey r) :
    banActiveRoom b r.chan = true := by
  rw [banActiveRoom_iff]
  refine lt_of_lt_of_le ?_ (h.chans r.chan)
  have hsub : ((b.cfgBans.filter fun x => x.active && eqIc x.chan r.chan).map banKey).Nodup :=
    hholds.keys.sublist ((List.filter_sublist).map banKey)
  have hnew : (banKey r :: (b.cfgBans.filter fun x => x.active && eqIc x.chan r.chan).map
      banKey).Nodup := by
    refine List.nodup_cons.mpr ⟨fun hmem => ?_, hsub⟩
    obtain ⟨x, hx, hkey⟩ := List.mem_map.mp hmem
    obtain ⟨hx, hcounts⟩ := List.mem_filter.mp hx
    exact hnone x hx (Bool.and_eq_true_iff.mp hcounts).1 hkey
  have hle := length_le_card hnew (fun k hk => show k ∈
      ((done ++ r :: rest).filter fun x => eqIc x.chan r.chan).map banKey from ?_)
  · rw [List.length_cons, List.length_map, ← List.countP_eq_length_filter] at hle
    exact hle
  · rcases List.mem_cons.mp hk with rfl | hk
    · exact List.mem_map_of_mem (List.mem_filter.mpr ⟨by simp, eqIc_refl r.chan⟩)
    · obtain ⟨x, hx, rfl⟩ := List.mem_map.mp hk
      obtain ⟨hx, hcounts⟩ := List.mem_filter.mp hx
      have hdone := (hholds.newest x hx).mem
      exact List.mem_map_of_mem (List.mem_filter.mpr ⟨by simp [hdone],
        (Bool.and_eq_true_iff.mp hcounts).2⟩)

theorem length_lt_of_withinCaps (h : WithinCaps (done ++ r :: rest)) (hholds : Holds done b.cfgBans)
    (hnew : ∀ x ∈ b.cfgBans, banKey x ≠ banKey r) : b.cfgBans.length < cfgMaxBans := by
  refine lt_of_lt_of_le ?_ h.all
  have hkeys : (banKey r :: b.cfgBans.map banKey).Nodup := by
    refine List.nodup_cons.mpr ⟨fun hmem => ?_, hholds.keys⟩
    obtain ⟨x, hx, hkey⟩ := List.mem_map.mp hmem
    exact hnew x hx hkey
  have hle := length_le_card hkeys (fun k hk => show k ∈ (done ++ r :: rest).map banKey from ?_)
  · rw [List.length_cons, List.length_map] at hle
    exact hle
  · rcases List.mem_cons.mp hk with rfl | hk
    · exact List.mem_map_of_mem (by simp)
    · obtain ⟨x, hx, rfl⟩ := List.mem_map.mp hk
      have hdone := (hholds.newest x hx).mem
      exact List.mem_map_of_mem (by simp [hdone])

/-- A record that stays is the newest of its key still, unless it is older than `r`. -/
theorem Newest.append {k : Str × Str} {x : CfgBan} (h : Newest k done x)
    (hle : banKey r = k → r.ts ≤ x.ts) : Newest k (done ++ [r]) x := by
  refine ⟨List.mem_append_left [r] h.mem, h.key, fun y hy hkey => ?_⟩
  rcases List.mem_append.mp hy with hy | hy
  · exact h.le y hy hkey
  · rw [List.mem_singleton.mp hy] at hkey ⊢
    exact hle hkey

/-- One record is stored, if it is the newest of its key. -/
theorem Holds.banStore (h : WithinCaps (done ++ r :: rest)) (hholds : Holds done b.cfgBans) :
    Holds (done ++ [r]) (banStore b r).2.cfgBans := by
  have hrs : r ∈ done ++ r :: rest := by simp
  have hdone {x : CfgBan} (hx : x ∈ b.cfgBans) : x ∈ done ++ r :: rest :=
    List.mem_append_left _ (hholds.newest x hx).mem
  cases hi : banIdx b r.chan r.mask with
  | some i =>
      obtain ⟨x, hx, hkey⟩ := banIdx_eq_some hi
      have hmem := List.mem_of_getElem? hx
      have hnewest := hholds.newest x hmem
      have honly {y : CfgBan} (hy : y ∈ b.cfgBans) (hykey : banKey y = banKey r) : y = x :=
        List.inj_on_of_nodup_map hholds.keys hy hmem (hykey.trans hkey.symm)
      have hne : x.ts ≠ r.ts :=
        (List.pairwise_append.mp h.stamps).2.2 x hnewest.mem r List.mem_cons_self hkey
      rw [banStore_of_idx hi hx]
      rcases lt_or_gt_of_ne hne with hnewer | holder
      · have haccepts : lwwAccepts r.ts r.active x.ts x.active = true := by
          simp [lwwAccepts, hnewer]
        have hroom : (r.active && !x.active && !banActiveRoom b r.chan) = false := by
          cases hold : x.active with
          | true => simp
          | false =>
              rw [room_of_withinCaps h hholds fun y hy hactive hykey => ?_]
              · simp
              · rw [honly hy hykey, hold] at hactive
                cases hactive
        rw [haccepts, hroom, Bool.not_true, if_neg Bool.false_ne_true, if_neg Bool.false_ne_true]
        have hkeys : ((b.cfgBans.set i r).map banKey).Nodup := by
          rw [map_banKey_set hx hkey]
          exact hholds.keys
        have hr : r ∈ b.cfgBans.set i r :=
          List.mem_set (List.getElem?_eq_some_iff.mp hx).1 r
        refine ⟨hkeys, fun y hy => ?_, fun z hz => ?_⟩
        · by_cases hykey : banKey y = banKey r
          · rw [List.inj_on_of_nodup_map hkeys hy hr hykey]
            refine ⟨by simp, rfl, fun z hz hzkey => ?_⟩
            rcases List.mem_append.mp hz with hz | hz
            · exact le_trans (hnewest.le z hz (hzkey.trans hkey.symm)) (le_of_lt hnewer)
            · rw [List.mem_singleton.mp hz]
          · rcases List.mem_or_eq_of_mem_set hy with hy | rfl
            · exact (hholds.newest y hy).append fun heq => absurd heq.symm hykey
            · exact absurd rfl hykey
        · rcases List.mem_append.mp hz with hz | hz
          · obtain ⟨y, hy, hzkey⟩ := hholds.all z hz
            have hmap : banKey z ∈ (b.cfgBans.set i r).map banKey := by
              rw [map_banKey_set hx hkey, ← hzkey]
              exact List.mem_map_of_mem hy
            exact List.mem_map.mp hmap
          · rw [List.mem_singleton.mp hz]
            exact ⟨r, hr, rfl⟩
      · have hrejects : lwwAccepts r.ts r.active x.ts x.active = false := by
          simp [lwwAccepts, not_lt.mpr (le_of_lt holder), ne_of_lt holder]
        rw [hrejects, Bool.not_false, if_pos rfl]
        refine ⟨hholds.keys, fun y hy => ?_, fun z hz => ?_⟩
        · refine (hholds.newest y hy).append fun heq => ?_
          rw [honly hy heq.symm]
          exact le_of_lt holder
        · rcases List.mem_append.mp hz with hz | hz
          · exact hholds.all z hz
          · rw [List.mem_singleton.mp hz]
            exact ⟨x, hmem, hkey⟩
  | none =>
      have hnew := banIdx_eq_none_iff.mp hi
      have hroom := room_of_withinCaps h hholds fun x hx _ => hnew x hx
      have hlen := length_lt_of_withinCaps h hholds hnew
      rw [banStore_of_none hi, hroom, Bool.not_true, Bool.and_false, if_neg Bool.false_ne_true,
        banSlot, if_pos hlen]
      have hset : (b.cfgBans ++ [({} : CfgBan)]).set b.cfgBans.length r =
        b.cfgBans ++ [r] := by simp
      dsimp only
      rw [hset]
      refine ⟨?_, fun x hx => ?_, fun y hy => ?_⟩
      · rw [List.map_append, List.map_singleton, ← List.concat_eq_append]
        refine hholds.keys.concat fun hmem => ?_
        obtain ⟨x, hx, hkey⟩ := List.mem_map.mp hmem
        exact hnew x hx hkey
      · rcases List.mem_append.mp hx with hx | hx
        · exact (hholds.newest x hx).append fun hkey => absurd hkey.symm (hnew x hx)
        · rw [List.mem_singleton.mp hx]
          refine ⟨by simp, rfl, fun y hy hkey => ?_⟩
          rcases List.mem_append.mp hy with hy | hy
          · obtain ⟨x, hx, hkey'⟩ := hholds.all y hy
            exact absurd (hkey'.trans hkey) (hnew x hx)
          · rw [List.mem_singleton.mp hy]
      · rcases List.mem_append.mp hy with hy | hy
        · obtain ⟨x, hx, hkey⟩ := hholds.all y hy
          exact ⟨x, List.mem_append_left _ hx, hkey⟩
        · rw [List.mem_singleton.mp hy]
          exact ⟨r, by simp, rfl⟩

end

/-- Lines are applied one by one; those that cannot be read change nothing. -/
theorem Holds.applyBLines (lines : List Str) : ∀ {b : BotState} {done : List CfgBan},
    WithinCaps (done ++ lines.filterMap readBan) → Holds done b.cfgBans →
      Holds (done ++ lines.filterMap readBan) (applyBLines b lines).cfgBans := by
  induction lines with
  | nil =>
      intro b done _ hholds
      rw [List.filterMap_nil, List.append_nil]
      exact hholds
  | cons line lines ih =>
      intro b done hcaps hholds
      show Holds _ (BanTable.applyBLines (applyBLine b line).2 lines).cfgBans
      cases hread : readBan line with
      | none =>
          rw [List.filterMap_cons_none hread] at hcaps ⊢
          refine ih hcaps ?_
          rw [applyBLine_eq, hread]
          exact hholds
      | some r =>
          rw [List.filterMap_cons_some hread] at hcaps ⊢
          have hstep := hholds.banStore hcaps
          have hsplit : done ++ r :: lines.filterMap readBan =
              done ++ [r] ++ lines.filterMap readBan := by simp
          rw [hsplit] at hcaps ⊢
          refine ih hcaps ?_
          rw [applyBLine_eq, hread]
          exact hstep

/-- What is found under a key does not depend on how the table came about. -/
theorem Holds.byKey_iff {rs bans : List CfgBan} (h : Holds rs bans) (hcaps : WithinCaps rs)
    {k : Str × Str} {x : CfgBan} : byKey bans k = some x ↔ Newest k rs x := by
  constructor
  · intro hx
    obtain ⟨hmem, rfl⟩ := mem_of_byKey hx
    exact h.newest x hmem
  · intro hx
    obtain ⟨y, hy, hkey⟩ := h.all x hx.mem
    have hynewest := h.newest y hy
    have hsame : y = x := by
      by_contra hne
      refine hcaps.ts_ne hynewest.mem hx.mem hne hkey (le_antisymm ?_ ?_)
      · exact hx.le y hynewest.mem (hkey.trans hx.key)
      · exact hynewest.le x hx.mem hkey.symm
    rw [← hx.key, ← hsame]
    exact byKey_of_mem h.keys hy

theorem Newest.perm {rs rs' : List CfgBan} (hperm : rs.Perm rs') {k : Str × Str} {x : CfgBan}
    (h : Newest k rs x) : Newest k rs' x :=
  ⟨hperm.mem_iff.mp h.mem, h.key, fun y hy => h.le y (hperm.mem_iff.mpr hy)⟩

/-- **Within the caps, and with stamps that tell the records of a key apart, lines come to the
same table in any order.** -/
theorem applyBLines_converge {b b' : BotState} {lines lines' : List Str} (hempty : b.cfgBans = [])
    (hempty' : b'.cfgBans = []) (hperm : lines.Perm lines')
    (hcaps : WithinCaps (lines.filterMap readBan)) (k : Str × Str) :
    byKey (applyBLines b lines).cfgBans k = byKey (applyBLines b' lines').cfgBans k := by
  have hstart {b : BotState} (hb : b.cfgBans = []) : Holds [] b.cfgBans := by
    rw [hb]
    exact ⟨List.nodup_nil, by simp, by simp⟩
  have hrs := hperm.filterMap readBan
  have hcaps' := hcaps.perm hrs
  have hholds := @Holds.applyBLines lines b [] hcaps (hstart hempty)
  have hholds' := @Holds.applyBLines lines' b' [] hcaps' (hstart hempty')
  rw [List.nil_append] at hholds hholds'
  refine Option.ext fun x => ?_
  rw [hholds.byKey_iff hcaps, hholds'.byKey_iff hcaps']
  exact ⟨Newest.perm hrs, Newest.perm hrs.symm⟩

/-! ### A ban that is lifted -/

/-- A ban by the bot, a tombstone from the hub, and the ban lifted. -/
def lifting : List Call := [
  .localBan (str "#c") (str "a!*@*") 0 [] (str "op") (str "spam") false,
  .applyBLine (str "*|x!*@*|0||hub||del|5"),
  .localBan (str "#c") (str "a!*@*") 0 [] (str "op") (str "spam") true]

def after (calls : List Call) : BotState := calls.foldl Call.run { now := 100 }

theorem run_after (calls : List Call) : Run [] (after calls).cfgBans := by
  induction calls using List.reverseRecOn with
  | nil => exact .start
  | append_singleton calls call ih =>
      have hlast : after (calls ++ [call]) = call.run (after calls) := List.foldl_append
      exact .step ih ⟨after calls, call, rfl, congrArg BotState.cfgBans hlast.symm⟩

/-- The hub's tombstone is purged, and the ban comes back: its record has not got older. -/
theorem sound_table_lifting :
    Sound (after lifting).cfgBans ∧
      ∀ x y, byKey (after lifting).cfgBans (str "#c", str "a!*@*") = some x →
      byKey (after (lifting ++ [.purgeBans 50, .applyBLine (str "#C|A!*@*|0||hub||add|900")])).cfgBans
        (str "#c", str "a!*@*") = some y → x.ts ≤ y.ts := by
  obtain ⟨hsound, holder⟩ := Run.sound_table (run_after lifting)
  refine ⟨hsound, fun x y => holder _ _ x y (.step (.step (.start ?_) ⟨_, .purgeBans 50, rfl, rfl⟩ ?_)
    ⟨_, .applyBLine (str "#C|A!*@*|0||hub||add|900"), rfl, rfl⟩ ?_)⟩
  · decide +kernel
  · decide +kernel
  · decide +kernel

example : ((after lifting).cfgBans.map (·.ts),
    (after (lifting ++ [.purgeBans 50, .applyBLine (str "#C|A!*@*|0||hub||add|900")])).cfgBans.map (·.ts)) =
      ([101, 5], [900]) := by
  decide +kernel

def banLines : List Str := [str "#c|a!*@*|0||op||add|5", str "#C|a!*@*|0||op||del|7"]

theorem withinCaps_banLines : WithinCaps (banLines.filterMap readBan) := by
  have hlen : (banLines.filterMap readBan).length ≤ 2 := List.length_filterMap_le ..
  have hcard (l : List (Str × Str)) (hl : l.length ≤ 2) : l.toFinset.card ≤ 100 :=
    le_trans (List.toFinset_card_le l) (le_trans hl (by decide))
  refine ⟨by decide, fun chan => ?_, ?_⟩
  · have hcap : cap chan = 100 := by
      unfold cap
      split <;> rfl
    rw [hcap]
    refine hcard _ ?_
    rw [List.length_map]
    exact le_trans (List.length_filter_le _ _) hlen
  · exact le_trans (hcard _ (by rwa [List.length_map])) (by decide)

theorem converge_banLines :
    byKey (applyBLines {} banLines).cfgBans (str "#c", str "a!*@*") =
      byKey (applyBLines {} banLines.reverse).cfgBans (str "#c", str "a!*@*") :=
  applyBLines_converge rfl rfl (List.reverse_perm banLines).symm withinCaps_banLines
    (str "#c", str "a!*@*")

end IrcBot.BanTable
