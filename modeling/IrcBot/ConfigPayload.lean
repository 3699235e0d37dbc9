/-
# The records of a config push (`hub_client.rs`)

`generateConfigPayload` writes record lines until its buffer is full. Here it is taken
apart again: `configRecords` are the records whose lines it holds, in their order.

* `generateConfigPayload_eq` — the payload is the lines of these records.
* `mem_configRecords` — which records they can be.
* `pending_mem_configRecords` — all pending bans are among them, where they fit.
-/
import IrcBot.HubPush

namespace IrcBot.ConfigPayload

open Cstr Chancfg Config HubPush

/-! ### Lines up to a size -/

section

variable {α : Type} (line : α → Option Str) (max : Nat)

/-- The entries whose lines `appendUntil` takes, behind `len` bytes. -/
def fitting (len : Nat) : List α → List α
  | [] => []
  | x :: xs =>
      match line x with
      | none => []
      | some l => if max ≤ len + l.length then [] else x :: fitting (len + l.length) xs

/-- The text of an entry, empty if it has none. -/
def text (x : α) : Str := (line x).getD []

theorem appendUntil_eq (out : Str) (xs : List α) :
    appendUntil max out (xs.map line) =
      out ++ ((fitting line max out.length xs).map (text line)).flatten := by
  induction xs generalizing out with
  | nil => simp [fitting, appendUntil]
  | cons x xs ih =>
      rw [List.map_cons, fitting]
      cases hline : line x with
      | none => simp [appendUntil]
      | some l =>
          rw [appendUntil]
          dsimp only
          split
          · simp
          · rw [ih, List.length_append, List.map_cons, List.flatten_cons, text, hline,
              Option.getD_some, List.append_assoc]

theorem fitting_isPrefix (len : Nat) (xs : List α) : fitting line max len xs <+: xs := by
  induction xs generalizing len with
  | nil => exact List.prefix_rfl
  | cons x xs ih =>
      unfold fitting
      split
      · exact List.nil_prefix
      · split
        · exact List.nil_prefix
        · exact (List.prefix_cons_inj x).mpr (ih _)

theorem length_appendUntil {out : Str} (xs : List (Option Str)) (h : out.length ≤ max) :
    (appendUntil max out xs).length ≤ max := by
  induction xs generalizing out with
  | nil => exact h
  | cons x xs ih =>
      cases x with
      | none => exact h
      | some l =>
          rw [appendUntil]
          split
          · exact h
          · refine ih ?_
            rw [List.length_append]
            omega

theorem length_appendIf {out l : Str} (h : out.length ≤ max) :
    (appendIf max out l).length ≤ max := by
  unfold appendIf
  split
  · rw [List.length_append]
    omega
  · exact h

/-- What is taken fits. -/
theorem fitting_room {len : Nat} (xs : List α) (hlen : len < max) :
    len + (((fitting line max len xs).map (text line)).map List.length).sum < max := by
  induction xs generalizing len with
  | nil => exact hlen
  | cons x xs ih =>
      rw [fitting]
      cases hl : line x with
      | none => exact hlen
      | some l =>
          dsimp only
          split
          · exact hlen
          · have hroom := @ih (len + l.length) (by omega)
            rw [List.map_cons, List.map_cons, List.sum_cons, text, hl, Option.getD_some]
            omega

/-- All entries are taken if each has a line and all lines together fit. -/
theorem fitting_eq_self {len : Nat} {xs : List α} (hline : ∀ x ∈ xs, line x ≠ none)
    (hroom : len + ((xs.map (text line)).map List.length).sum < max) :
    fitting line max len xs = xs := by
  induction xs generalizing len with
  | nil => rfl
  | cons x xs ih =>
      rw [List.forall_mem_cons] at hline
      obtain ⟨l, hl⟩ := Option.ne_none_iff_exists'.mp hline.1
      rw [List.map_cons, List.map_cons, List.sum_cons, text, hl, Option.getD_some] at hroom
      rw [fitting, hl]
      dsimp only
      rw [if_neg (by omega), ih hline.2 (by omega)]

end

/-! ### The payload -/

/-- A record that is kept under last-writer-wins, or one about the bot itself. -/
inductive Record where
  | channel (c : Chan)
  | settings (chan modes sets : Str) (active : Bool) (ts : Int)
  | defaults (modes sets : Str) (ts : Int)
  | ban (x : CfgBan)
  | version
  | host (name : Str) (ts : Int)
  | nick (name : Str) (ts : Int)

/-- The channels whose `c|` lines are offered. -/
def pushedChans (b : BotState) : List Chan :=
  b.chans.filter fun c =>
    !(b.isOptSet optHubOnlyMutations && !c.enfPending) && !(c.timestamp == 0 && !c.isManaged)

/-- The bans whose `B|` lines are offered. -/
def pushedBans (b : BotState) : List CfgBan :=
  b.cfgBans.filter fun x => x.pushPending && !b.botUuid.isEmpty && x.setter == b.botUuid

/-- The channels whose lines go in, and their size. -/
def sentChans (b : BotState) : List Chan :=
  fitting (some <| chanLine ·) (maxBuffer - 64) 0 (pushedChans b)

def chansSize (b : BotState) : Nat :=
  (((sentChans b).map (text (some <| chanLine ·))).flatten).length

/-- The bans whose lines go in behind them. -/
def sentBans (b : BotState) : List CfgBan :=
  fitting formatBLine (maxBuffer - 64) (chansSize b) (pushedBans b)

/-- The line of a record, as it goes up to the hub. -/
def Record.line : Record → Str
  | .channel c => chanLine c
  | .settings chan modes sets active ts =>
      str "C|" ++ chan ++ str "|" ++ modes ++ str "|" ++ sets ++ str "|" ++ addDel active ++
        str "|" ++ dec ts ++ str "\n"
  | .defaults modes sets ts =>
      str "D|" ++ modes ++ str "|" ++ sets ++ str "|" ++ dec ts ++ str "\n"
  | .ban x => text formatBLine x
  | .version => str "v|" ++ dec botProtoVersion ++ str "|1\n"
  | .host name ts => str "h|" ++ name ++ str "|" ++ dec ts ++ str "\n"
  | .nick name ts => str "n|" ++ name ++ str "|" ++ dec ts ++ str "\n"

/-- A record at the end, if its line fits. -/
def addIf (rs : List Record) (r : Record) : List Record :=
  if ((rs.map Record.line).flatten).length + r.line.length < maxBuffer - 64 then rs ++ [r] else rs

/-- The records whose lines `generateConfigPayload` writes. -/
def configRecords (b : BotState) : List Record :=
  let rs := (sentChans b).map .channel ++ (sentBans b).map .ban
  let rs := addIf rs .version
  let rs :=
    if !b.actualHostname.isEmpty && 0 < b.actualHostnameTs then
      addIf rs (.host b.actualHostname b.actualHostnameTs)
    else rs
  if !b.currentNick.isEmpty && 0 < b.currentNickTs then
    addIf rs (.nick b.currentNick b.currentNickTs)
  else rs

theorem appendIf_eq (rs : List Record) (r : Record) :
    appendIf (maxBuffer - 64) ((rs.map Record.line).flatten) r.line =
      ((addIf rs r).map Record.line).flatten := by
  unfold appendIf addIf
  split
  · simp
  · rfl

theorem appendIf_ite (rs : List Record) (r : Record) (p : Prop) [Decidable p] :
    (if p then appendIf (maxBuffer - 64) ((rs.map Record.line).flatten) r.line
      else (rs.map Record.line).flatten) =
      ((if p then addIf rs r else rs).map Record.line).flatten := by
  split
  · exact appendIf_eq rs r
  · rfl

/-- **The payload is the lines of its records.** -/
theorem generateConfigPayload_eq (b : BotState) :
    generateConfigPayload b = ((configRecords b).map Record.line).flatten := by
  have hchans : appendUntil (maxBuffer - 64) [] ((pushedChans b).map (some <| chanLine ·)) =
      ((sentChans b).map (text (some <| chanLine ·))).flatten :=
    (appendUntil_eq _ _ _ _).trans (List.nil_append _)
  have hbans : appendUntil (maxBuffer - 64) ((sentChans b).map (text (some <| chanLine ·))).flatten
      ((pushedBans b).map formatBLine) =
        (((sentChans b).map Record.channel ++ (sentBans b).map Record.ban).map
          Record.line).flatten := by
    have hchan : Record.line ∘ Record.channel = text (some <| chanLine ·) := by
      funext c
      simp only [Function.comp_apply, Record.line, text, Option.getD_some]
    have hban : Record.line ∘ Record.ban = text formatBLine := by
      funext x
      simp only [Function.comp_apply, Record.line]
    rw [appendUntil_eq, List.map_append, List.flatten_append, List.map_map, List.map_map, hchan,
      hban, sentBans, chansSize]
  rw [configRecords, ← appendIf_ite, ← appendIf_ite, ← appendIf_eq, ← hbans, ← hchans]
  simp only [generateConfigPayload, pushedChans, pushedBans, Record.line]

/-- A payload fits its frame. -/
theorem length_generateConfigPayload (b : BotState) :
    (generateConfigPayload b).length ≤ maxBuffer - 64 := by
  have hbans : (appendIf (maxBuffer - 64) (appendUntil (maxBuffer - 64)
      (appendUntil (maxBuffer - 64) [] ((pushedChans b).map (some <| chanLine ·)))
      ((pushedBans b).map formatBLine)) (str "v|" ++ dec botProtoVersion ++ str "|1\n")).length ≤
      maxBuffer - 64 :=
    length_appendIf _ (length_appendUntil _ _ (length_appendUntil _ _ (Nat.zero_le _)))
  unfold generateConfigPayload
  dsimp only
  split
  · refine length_appendIf _ ?_
    split
    · exact length_appendIf _ hbans
    · exact hbans
  · split
    · exact length_appendIf _ hbans
    · exact hbans

theorem mem_addIf {rs : List Record} {r x : Record} (h : x ∈ addIf rs r) : x ∈ rs ∨ x = r := by
  unfold addIf at h
  split at h
  · simpa using h
  · exact .inl h

theorem subset_addIf (rs : List Record) (r : Record) : rs ⊆ addIf rs r := by
  unfold addIf
  split
  · exact List.subset_append_left rs [r]
  · exact List.Subset.refl rs

/-- What a push can consist of: channels, pending bans of the bot's own, and the three
records about the bot itself. -/
theorem mem_configRecords {b : BotState} {r : Record} (h : r ∈ configRecords b) :
    (∃ c ∈ sentChans b, r = .channel c) ∨ (∃ x ∈ sentBans b, r = .ban x) ∨
      r = .version ∨ r = .host b.actualHostname b.actualHostnameTs ∨
        r = .nick b.currentNick b.currentNickTs := by
  have hbase {x : Record} (hx : x ∈ addIf ((sentChans b).map .channel ++ (sentBans b).map .ban)
      .version) : (∃ c ∈ sentChans b, x = .channel c) ∨ (∃ y ∈ sentBans b, x = .ban y) ∨
        x = .version := by
    rcases mem_addIf hx with hx | hx
    · rcases List.mem_append.mp hx with hx | hx
      · obtain ⟨c, hc, rfl⟩ := List.mem_map.mp hx
        exact .inl ⟨c, hc, rfl⟩
      · obtain ⟨y, hy, rfl⟩ := List.mem_map.mp hx
        exact .inr (.inl ⟨y, hy, rfl⟩)
    · exact .inr (.inr hx)
  have hhost {x : Record} (hx : x ∈ if !b.actualHostname.isEmpty && 0 < b.actualHostnameTs then
      addIf (addIf ((sentChans b).map .channel ++ (sentBans b).map .ban) .version)
        (.host b.actualHostname b.actualHostnameTs)
      else addIf ((sentChans b).map .channel ++ (sentBans b).map .ban) .version) :
      (∃ c ∈ sentChans b, x = .channel c) ∨ (∃ y ∈ sentBans b, x = .ban y) ∨ x = .version ∨
        x = .host b.actualHostname b.actualHostnameTs := by
    split at hx
    · rcases mem_addIf hx with hx | hx
      · rcases hbase hx with hx | hx | hx
        · exact .inl hx
        · exact .inr (.inl hx)
        · exact .inr (.inr (.inl hx))
      · exact .inr (.inr (.inr hx))
    · rcases hbase hx with hx | hx | hx
      · exact .inl hx
      · exact .inr (.inl hx)
      · exact .inr (.inr (.inl hx))
  unfold configRecords at h
  dsimp only at h
  split at h
  · rcases mem_addIf h with h | h
    · rcases hhost h with h | h | h | h
      · exact .inl h
      · exact .inr (.inl h)
      · exact .inr (.inr (.inl h))
      · exact .inr (.inr (.inr (.inl h)))
    · exact .inr (.inr (.inr (.inr h)))
  · rcases hhost h with h | h | h | h
    · exact .inl h
    · exact .inr (.inl h)
    · exact .inr (.inr (.inl h))
    · exact .inr (.inr (.inr (.inl h)))

/-- No push carries the settings of a channel. -/
theorem settings_notMem (b : BotState) (chan modes sets : Str) (active : Bool) (ts : Int) :
    Record.settings chan modes sets active ts ∉ configRecords b := by
  intro h
  rcases mem_configRecords h with ⟨c, -, ⟨⟩⟩ | ⟨x, -, ⟨⟩⟩ | ⟨⟨⟩⟩ | ⟨⟨⟩⟩ | ⟨⟨⟩⟩

/-- No push carries the defaults of the network. -/
theorem defaults_notMem (b : BotState) (modes sets : Str) (ts : Int) :
    Record.defaults modes sets ts ∉ configRecords b := by
  intro h
  rcases mem_configRecords h with ⟨c, -, ⟨⟩⟩ | ⟨x, -, ⟨⟩⟩ | ⟨⟨⟩⟩ | ⟨⟨⟩⟩ | ⟨⟨⟩⟩

/-- A ban in a push is pending. -/
theorem pending_of_mem {b : BotState} {x : CfgBan} (h : Record.ban x ∈ configRecords b) :
    x.pushPending = true := by
  rcases mem_configRecords h with ⟨c, -, ⟨⟩⟩ | ⟨y, hy, heq⟩ | ⟨⟨⟩⟩ | ⟨⟨⟩⟩ | ⟨⟨⟩⟩
  obtain rfl := Record.ban.inj heq
  have hpushed := (List.mem_filter.mp ((fitting_isPrefix _ _ _ _).subset hy)).2
  simp only [Bool.and_eq_true] at hpushed
  exact hpushed.1.1

/-- The lines that go in first go in. -/
theorem ban_mem_configRecords {b : BotState} {x : CfgBan} (h : x ∈ sentBans b) :
    Record.ban x ∈ configRecords b := by
  have hbase : Record.ban x ∈ (sentChans b).map Record.channel ++ (sentBans b).map .ban :=
    List.mem_append.mpr (.inr (List.mem_map.mpr ⟨x, h, rfl⟩))
  have hhost := subset_addIf _ Record.version hbase
  unfold configRecords
  dsimp only
  split
  · refine subset_addIf _ _ ?_
    split
    · exact subset_addIf _ _ hhost
    · exact hhost
  · split
    · exact subset_addIf _ _ hhost
    · exact hhost

/-- A record's line stands in the payload. -/
theorem line_infix_payload {b : BotState} {r : Record} (h : r ∈ configRecords b) :
    r.line <:+: generateConfigPayload b := by
  rw [generateConfigPayload_eq]
  obtain ⟨before, after, heq⟩ := List.append_of_mem h
  rw [heq, List.map_append, List.map_cons, List.flatten_append, List.flatten_cons]
  exact ⟨_, _, List.append_assoc _ _ _⟩

/-- The payload has no other bytes than the lines. -/
theorem notMem_payload {b : BotState} {c : UInt8} (h : ∀ r ∈ configRecords b, c ∉ r.line) :
    c ∉ generateConfigPayload b := by
  rw [generateConfigPayload_eq]
  intro hc
  obtain ⟨l, hl, hcl⟩ := List.mem_flatten.mp hc
  obtain ⟨r, hr, rfl⟩ := List.mem_map.mp hl
  exact h r hr hcl

/-- The pending bans are the bot's own and fit behind the channels. -/
structure PendingFits (b : BotState) : Prop where
  own : ∀ x ∈ b.cfgBans, x.pushPending = true → b.botUuid ≠ [] ∧ x.setter = b.botUuid
  formats : ∀ x ∈ b.cfgBans, x.pushPending = true → formatBLine x ≠ none
  fits : chansSize b + (((b.cfgBans.filter (·.pushPending)).map (text formatBLine)).map
    List.length).sum < maxBuffer - 64

/-- **A push carries all pending bans**, where they fit. -/
theorem pending_mem_configRecords {b : BotState} (h : PendingFits b) {x : CfgBan}
    (hx : x ∈ b.cfgBans) (hpending : x.pushPending = true) : Record.ban x ∈ configRecords b := by
  have hpushed : pushedBans b = b.cfgBans.filter (·.pushPending) := by
    refine List.filter_congr fun y hy => ?_
    cases hp : y.pushPending with
    | false => rfl
    | true =>
        obtain ⟨hne, hsetter⟩ := h.own y hy hp
        simp [hne, hsetter]
  refine ban_mem_configRecords ?_
  rw [sentBans, fitting_eq_self]
  · rw [hpushed]
    exact List.mem_filter.mpr ⟨hx, hpending⟩
  · intro y hy
    rw [hpushed] at hy
    exact h.formats y (List.mem_filter.mp hy).1 (List.mem_filter.mp hy).2
  · rw [hpushed]
    exact h.fits

end IrcBot.ConfigPayload
