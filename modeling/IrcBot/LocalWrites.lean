/-
# Records the bot writes itself (`chancfg.rs`)

`botBan` stores a ban of the bot's own (floods, revenge) and marks it as pending until
the hub has it. `localC`, `localD` and `localBan` store what an admin asked for; the
line is offered to a linked hub at once, and nothing is marked.

* `banStore_cases` — what storing a ban does to the table.
* `byKey_banStore` — what it does key by key.
-/
import IrcBot.HubPush

namespace IrcBot.LocalWrites

open Cstr Chancfg Config HubPush

/-! ### The writers -/

/-- `clean_reason_field`: whole characters, control bytes and `|` blanked. -/
def cleanReasonField (r : Str) : Str :=
  (trunc r (banReasonMax + 1)).map fun c =>
    if c < 0x20 ∨ c = 0x7f ∨ c = byte '|' then byte ' ' else c

/-- `ban_find`. -/
def banFind (b : BotState) (chan mask : Str) : Option CfgBan :=
  b.cfgBans.find? fun x => eqIc x.chan chan && eqIc x.mask mask

/-- What `bot_ban` and `local_ban` ask of a channel and a mask. -/
def banKeyOk (chan mask : Str) : Bool :=
  !(mask.isEmpty || banMaskMax < mask.length || !plainText mask || mask.contains (byte ' ') ||
    (chan != str "*" && !validChanName chan))

/-- The record `bot_ban` stores, if it stores one. -/
def botBanRecord (b : BotState) (chan mask : Str) (expires : Int) (flags reason : Option Str)
    (del : Bool) : Option CfgBan :=
  if b.botUuid.isEmpty then none
  else if !banKeyOk chan mask then none
  else
    let chan := trunc chan maxChan
    let old := banFind b chan mask
    if del then
      (old.filter fun o => o.active && o.setter == b.botUuid).map fun o =>
        { o with active := false, ts := lwwNextTs b.now o.ts, pushPending := true }
    -- the hub takes only timed bot bans
    else if expires ≤ b.now then none
    -- never overwrite another setter's active ban
    else if old.any fun o => o.active && o.setter != b.botUuid then none
    else
      let c :=
        if chan.head? = some (byte '#') ∨ chan.head? = some (byte '&') then
          (find b chan).bind fun ci => b.chans[ci]?
        else none
      let bt := get b c .banTime
      some
        { chan, mask
          setter := trunc b.botUuid (banSetterMax + 1)
          expires := if 0 < bt ∧ b.now + bt * 60 < expires then b.now + bt * 60 else expires
          active := true
          ts := (old.map fun o => lwwNextTs b.now o.ts).getD b.now
          flags := (flags.map (trunc · 8)).getD []
          reason := (reason.map cleanReasonField).getD []
          pushPending := true }

/-- The mark of a ban is taken off. -/
def unmark (b : BotState) (chan mask : Str) : BotState :=
  match banIdx b chan mask with
  | some i => { b with cfgBans := b.cfgBans.modify i fun x => { x with pushPending := false } }
  | none => b

/-- The line of a ban that was stored goes up at once, if it can. -/
def pushBan (b : BotState) (x : CfgBan) : BotState :=
  match formatBLine x with
  | none => b
  | some line =>
      match pushLines b line with
      | (true, b) => unmark b x.chan x.mask
      | (false, b) => b

/-- `bot_ban`. -/
def botBan (b : BotState) (chan mask : Str) (expires : Int) (flags reason : Option Str)
    (del : Bool) : Bool × BotState :=
  match botBanRecord b chan mask expires flags reason del with
  | none => (false, b)
  | some x =>
      match banStore b x with
      | (false, b) => (false, b)
      | (true, b) => (true, { pushBan b x with configDirty := true })

/-- `local_commit`: push complete record lines to the hub when linked, and save the
config. -/
def localCommit (b : BotState) (line : Str) : BotState :=
  let b := if line.isEmpty then b else (pushLines b line).2
  { b with
    configDirty := true
    chans := b.chans.map fun c => { c with enfDirty := true, enfOpsCheck := true } }

/-- `local_c`. -/
def localC (b : BotState) (ci : Nat) (modes settings : Str) : Bool × BotState :=
  match b.chans[ci]? with
  | none => (false, b)
  | some c =>
      let data := c.name ++ str "|" ++ modes ++ str "|" ++ settings ++ str "|add|" ++
        dec (lwwNextTs b.now c.cfgTs)
      if cLineMax + 2 ≤ data.length then (false, b)
      else
        match applyCLine b data with
        | (false, b) => (false, b)
        | (true, b) => (true, localCommit b ((b.chans[ci]?.bind formatCLine).getD []))

/-- `local_d`. -/
def localD (b : BotState) (modes settings : Str) : Bool × BotState :=
  let data := modes ++ str "|" ++ settings ++ str "|" ++ dec (lwwNextTs b.now b.netTs)
  if dLineMax + 2 ≤ data.length then (false, b)
  else
    match applyDLine b data with
    | (false, b) => (false, b)
    | (true, b) => (true, localCommit b ((formatDLine b).getD []))

/-- `ban_get`: the active ban under a channel and a mask. -/
def banGet (b : BotState) (chan mask : Str) : Option CfgBan :=
  b.cfgBans.find? fun x => x.active && eqIc x.chan chan && eqIc x.mask mask

/-- The record `local_ban` stores, if it stores one. -/
def localBanRecord (b : BotState) (chan mask : Str) (expires : Int) (flags setter reason : Str)
    (del : Bool) : Option CfgBan :=
  if !banKeyOk chan mask || setter.isEmpty || banSetterMax < setter.length ||
      !plainText setter then none
  else
    let old := banFind b chan mask
    if del then
      (old.filter (·.active)).map fun o =>
        { o with active := false, ts := lwwNextTs b.now o.ts, pushPending := false }
    else
      some
        { chan := trunc chan maxChan, mask, setter
          flags := trunc flags 8
          reason := cleanReasonField reason
          expires
          active := true
          ts := (old.map fun o => lwwNextTs b.now o.ts).getD b.now
          pushPending := false }

/-- `local_ban`. -/
def localBan (b : BotState) (chan mask : Str) (expires : Int) (flags setter reason : Str)
    (del : Bool) : Bool × BotState :=
  match localBanRecord b chan mask expires flags setter reason del with
  | none => (false, b)
  | some x =>
      match banStore b x with
      | (false, b) => (false, b)
      | (true, b) => (true, localCommit b ((formatBLine x).getD []))

/-! ### What a stored ban does to the table -/

/-- What tells the bans of the table apart. -/
def banKey (x : CfgBan) : Str × Str := (x.chan.map lower, x.mask.map lower)

/-- The ban under a key. -/
def byKey (bans : List CfgBan) (k : Str × Str) : Option CfgBan := bans.find? (banKey · == k)

theorem banIdx_eq (b : BotState) (chan mask : Str) :
    banIdx b chan mask = b.cfgBans.findIdx? (banKey · == (chan.map lower, mask.map lower)) := rfl

/-- An entry that is replaced leaves what is found elsewhere. -/
theorem find?_set_of_ne {α : Type} {p : α → Bool} {xs : List α} {i : Nat} {x y z : α}
    (hx : xs[i]? = some x) (hz : xs.find? p = some z) (hne : x ≠ z) (hy : p y = false) :
    (xs.set i y).find? p = some z := by
  induction xs generalizing i with
  | nil => simp at hx
  | cons a xs ih =>
      cases i with
      | zero =>
          obtain rfl : a = x := by simpa using hx
          rw [List.find?_cons] at hz
          rw [List.set_cons_zero, List.find?_cons, hy]
          cases ha : p a with
          | true =>
              rw [ha] at hz
              exact absurd (Option.some.inj hz) hne
          | false =>
              rw [ha] at hz
              exact hz
      | succ i =>
          rw [List.find?_cons] at hz
          rw [List.set_cons_succ, List.find?_cons]
          cases ha : p a with
          | true =>
              rw [ha] at hz
              exact hz
          | false =>
              rw [ha] at hz
              exact ih (by simpa using hx) hz

/-- The first entry found is replaced by one that is found too. -/
theorem find?_set_first {α : Type} {p : α → Bool} {xs : List α} {i : Nat} {y : α}
    (hi : xs.findIdx? p = some i) (hy : p y = true) : (xs.set i y).find? p = some y := by
  induction xs generalizing i with
  | nil => simp at hi
  | cons a xs ih =>
      rw [List.findIdx?_cons] at hi
      cases ha : p a with
      | true =>
          obtain rfl : 0 = i := by simpa [ha] using hi
          rw [List.set_cons_zero, List.find?_cons, hy]
      | false =>
          obtain ⟨j, hj, rfl⟩ : ∃ j, xs.findIdx? p = some j ∧ j + 1 = i := by
            simpa [ha] using hi
          rw [List.set_cons_succ, List.find?_cons, ha]
          exact ih hj

/-- Where nothing is found, a new entry that is found is the first. -/
theorem find?_set_of_none {α : Type} {p : α → Bool} {xs : List α} {i : Nat} {y : α}
    (hnone : xs.find? p = none) (hi : i < xs.length) (hy : p y = true) :
    (xs.set i y).find? p = some y := by
  induction xs generalizing i with
  | nil => simp at hi
  | cons a xs ih =>
      have ha : p a = false := by
        have hall := List.find?_eq_none.mp hnone a List.mem_cons_self
        simpa using hall
      cases i with
      | zero => rw [List.set_cons_zero, List.find?_cons, hy]
      | succ i =>
          rw [List.find?_cons, ha] at hnone
          rw [List.set_cons_succ, List.find?_cons, ha]
          exact ih hnone (by simpa using hi)

/-- The entry that a full table gives up for a new ban. -/
theorem oldestTombstone_mem {bans : List CfgBan} {i : Nat} {x : CfgBan}
    (h : oldestTombstone bans = some (i, x)) : bans[i]? = some x := by
  have hall : ∀ e ∈ oldestTombstone bans, bans[e.1]? = some e.2 := by
    unfold oldestTombstone
    refine List.foldlRecOn _ _
      (motive := fun best : Option (Nat × CfgBan) => ∀ e ∈ best, bans[e.1]? = some e.2)
      (fun _ he => absurd he (by simp)) ?_
    intro best hbest e he e' he'
    dsimp only at he'
    split at he'
    · obtain rfl := Option.some.inj he'
      obtain ⟨hlt, heq⟩ := List.mem_zipIdx' he
      rw [List.getElem?_eq_getElem hlt, heq]
    · exact hbest e' he'
  exact hall (i, x) h

/-- How many active bans a channel may have. -/
def cap (chan : Str) : Nat := if chan = str "*" then maxGlobalBans else maxBansPerChan

/-- How many it has. -/
def activeBans (bans : List CfgBan) (chan : Str) : Nat :=
  bans.countP fun x => x.active && eqIc x.chan chan

/-- What `ban_store` does to the table. -/
inductive Stores (bans : List CfgBan) (r : CfgBan) : List CfgBan → Prop where
  | replaces {i : Nat} {x : CfgBan} (hi : bans.findIdx? (banKey · == banKey r) = some i)
      (hx : bans[i]? = some x) (hkey : banKey x = banKey r)
      (hnewer : lwwAccepts r.ts r.active x.ts x.active = true)
      (hroom : r.active = true → x.active = true ∨ activeBans bans r.chan < cap r.chan) :
      Stores bans r (bans.set i r)
  | joins (hnew : ∀ x ∈ bans, banKey x ≠ banKey r)
      (hroom : r.active = true → activeBans bans r.chan < cap r.chan)
      (hlen : bans.length < cfgMaxBans) : Stores bans r (bans ++ [r])
  | evicts {i : Nat} {x : CfgBan} (hnew : ∀ x ∈ bans, banKey x ≠ banKey r)
      (hroom : r.active = true → activeBans bans r.chan < cap r.chan)
      (hfull : cfgMaxBans ≤ bans.length) (hold : oldestTombstone bans = some (i, x)) :
      Stores bans r (bans.set i r)

theorem banActiveRoom_iff (b : BotState) (chan : Str) :
    banActiveRoom b chan = true ↔ activeBans b.cfgBans chan < cap chan := by
  rw [banActiveRoom, activeBans, cap, List.countP_eq_length_filter, decide_eq_true_eq]

/-- The record under a key, and its place. -/
theorem banIdx_eq_some {b : BotState} {r : CfgBan} {i : Nat}
    (h : banIdx b r.chan r.mask = some i) : ∃ x, b.cfgBans[i]? = some x ∧ banKey x = banKey r := by
  rw [banIdx_eq] at h
  obtain ⟨hlt, hfind, -⟩ := List.findIdx?_eq_some_iff_getElem.mp h
  exact ⟨_, List.getElem?_eq_getElem hlt, eq_of_beq hfind⟩

theorem banIdx_eq_none_iff {b : BotState} {r : CfgBan} :
    banIdx b r.chan r.mask = none ↔ ∀ x ∈ b.cfgBans, banKey x ≠ banKey r := by
  rw [banIdx_eq, List.findIdx?_eq_none_iff]
  exact forall₂_congr fun x _ => by rw [beq_eq_false_iff_ne]; rfl

theorem banStore_of_idx {b : BotState} {r x : CfgBan} {i : Nat}
    (hi : banIdx b r.chan r.mask = some i) (hx : b.cfgBans[i]? = some x) :
    banStore b r =
      if !lwwAccepts r.ts r.active x.ts x.active then (false, b)
      else if r.active && !x.active && !banActiveRoom b r.chan then (false, b)
      else (true, { b with cfgBans := b.cfgBans.set i r, cfgGen := b.cfgGen + 1 }) := by
  unfold banStore
  rw [hi, Option.bind_some, hx]
  rfl

theorem banStore_of_none {b : BotState} {r : CfgBan} (hi : banIdx b r.chan r.mask = none) :
    banStore b r =
      if r.active && !banActiveRoom b r.chan then (false, b)
      else
        match banSlot b.cfgBans with
        | none => (false, b)
        | some (i, bans) => (true, { b with cfgBans := bans.set i r, cfgGen := b.cfgGen + 1 }) := by
  unfold banStore
  rw [hi]
  rfl

/-- The table is as it was, or the record is stored. -/
theorem banStore_cases (b : BotState) (r : CfgBan) :
    banStore b r = (false, b) ∨ ∃ bans, Stores b.cfgBans r bans ∧
      banStore b r = (true, { b with cfgBans := bans, cfgGen := b.cfgGen + 1 }) := by
  cases hi : banIdx b r.chan r.mask with
  | some i =>
      obtain ⟨x, hx, hkey⟩ := banIdx_eq_some hi
      rw [banStore_of_idx hi hx]
      split
      · exact .inl rfl
      · rename_i hnewer
        split
        · exact .inl rfl
        · rename_i hroom
          refine .inr ⟨_, .replaces hi hx hkey (by simpa using hnewer) fun hactive => ?_, rfl⟩
          cases hold : x.active with
          | true => exact .inl rfl
          | false =>
              rw [hactive, hold] at hroom
              exact .inr ((banActiveRoom_iff b r.chan).mp (by simpa using hroom))
  | none =>
      have hnew := banIdx_eq_none_iff.mp hi
      rw [banStore_of_none hi]
      split
      · exact .inl rfl
      · rename_i hroom
        have hroom' : r.active = true → activeBans b.cfgBans r.chan < cap r.chan := by
          intro hactive
          rw [hactive] at hroom
          exact (banActiveRoom_iff b r.chan).mp (by simpa using hroom)
        cases hslot : banSlot b.cfgBans with
        | none => exact .inl rfl
        | some p =>
            obtain ⟨i, bans⟩ := p
            unfold banSlot at hslot
            split at hslot
            · rename_i hlen
              obtain ⟨rfl, rfl⟩ : b.cfgBans.length = i ∧ b.cfgBans ++ [({} : CfgBan)] = bans := by
                simpa using hslot
              refine .inr ⟨b.cfgBans ++ [r], .joins hnew hroom' hlen, ?_⟩
              simp
            · rename_i hfull
              obtain ⟨⟨j, x⟩, hold, hpair⟩ := Option.map_eq_some_iff.mp hslot
              obtain ⟨rfl, rfl⟩ : j = i ∧ b.cfgBans = bans := by simpa using hpair
              exact .inr ⟨_, .evicts hnew hroom' (Nat.not_lt.mp hfull) hold, rfl⟩

/-- **A ban that is stored is found under its key**, and the others stay, but for the
tombstone whose place it takes. -/
theorem byKey_banStore {b b' : BotState} {r : CfgBan} (h : banStore b r = (true, b')) :
    b' = { b with cfgBans := b'.cfgBans, cfgGen := b'.cfgGen } ∧
      byKey b'.cfgBans (banKey r) = some r ∧
      ∀ k ≠ banKey r, ∀ z, byKey b.cfgBans k = some z →
        byKey b'.cfgBans k = some z ∨
          (banIdx b r.chan r.mask = none ∧ cfgMaxBans ≤ b.cfgBans.length ∧
            ∃ i, oldestTombstone b.cfgBans = some (i, z)) := by
  have hkey : (banKey r == banKey r) = true := by simp
  have hother {k : Str × Str} (hk : k ≠ banKey r) : (banKey r == k) = false := by
    simpa using fun heq : banKey r = k => hk heq.symm
  have hnone (hnew : ∀ x ∈ b.cfgBans, banKey x ≠ banKey r) :
      b.cfgBans.find? (banKey · == banKey r) = none :=
    List.find?_eq_none.mpr fun x hx => by simpa using hnew x hx
  rcases banStore_cases b r with hsame | ⟨bans, hstores, hstore⟩
  · rw [hsame] at h
    cases h
  · rw [hstore] at h
    obtain rfl := (Prod.mk.inj h).2
    refine ⟨rfl, ?_⟩
    dsimp only
    cases hstores with
    | @replaces i x hi hx hxkey _ _ =>
        refine ⟨find?_set_first hi hkey, fun k hk z hz => .inl ?_⟩
        refine find?_set_of_ne hx hz (fun heq => hk ?_) (hother hk)
        have hzkey : banKey z = k := by simpa using List.find?_some hz
        rw [← hzkey, ← heq, hxkey]
    | joins hnew _ _ =>
        refine ⟨?_, fun k _ z hz => .inl ?_⟩
        · rw [byKey, List.find?_append, hnone hnew]
          simp
        · rw [byKey, List.find?_append, ← byKey, hz]
          rfl
    | @evicts i x hnew _ hfull hold =>
        have hx := oldestTombstone_mem hold
        refine ⟨find?_set_of_none (hnone hnew) (List.getElem?_eq_some_iff.mp hx).1 hkey,
          fun k hk z hz => ?_⟩
        by_cases heq : x = z
        · subst heq
          exact .inr ⟨banIdx_eq_none_iff.mpr hnew, hfull, i, hold⟩
        · exact .inl (find?_set_of_ne hx hz heq (hother hk))

end IrcBot.LocalWrites
