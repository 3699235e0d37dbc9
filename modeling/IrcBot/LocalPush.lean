/-
# What an admin changed while the hub was away (`chancfg.rs`, `hub_client.rs`)

`localC`, `localD` and `localBan` offer their line to a linked hub and leave the rest to
"the next full push". That push takes channels and bans marked as pending; what an admin
wrote is neither.

* `not_mem_configRecords` — the record is in no full push, however the run goes on.
-/
import IrcBot.ConfigPayload
import IrcBot.LocalWrites

namespace IrcBot.LocalPush

open Cstr Chancfg HubPush ConfigPayload LocalWrites

/-- What an admin changes: the settings of a channel, the defaults of the network, or a
ban. -/
inductive LocalWrite where
  | settings (ci : Nat) (modes sets : Str)
  | defaults (modes sets : Str)
  | ban (chan mask : Str) (expires : Int) (flags setter reason : Str) (del : Bool)

/-- The change, and whether it was stored. -/
def LocalWrite.run (b : BotState) : LocalWrite → Bool × BotState
  | .settings ci modes sets => localC b ci modes sets
  | .defaults modes sets => localD b modes sets
  | .ban chan mask expires flags setter reason del =>
      localBan b chan mask expires flags setter reason del

/-- The record that the change leaves in the state. -/
def LocalWrite.record (b b' : BotState) : LocalWrite → Option Record
  | .settings ci _ _ => b'.chans[ci]?.map fun c =>
      .settings c.name c.cfgModes c.cfgSettings c.cfgActive c.cfgTs
  | .defaults _ _ => some (.defaults b'.netModes b'.netSettings b'.netTs)
  | .ban chan mask expires flags setter reason del =>
      (localBanRecord b chan mask expires flags setter reason del).map .ban

/-- The record is still what the state has under its name. -/
def Held (b : BotState) : Record → Prop
  | .settings chan modes sets active ts => ∃ c ∈ b.chans,
      c.name = chan ∧ c.cfgModes = modes ∧ c.cfgSettings = sets ∧ c.cfgActive = active ∧
        c.cfgTs = ts
  | .defaults modes sets ts => b.netModes = modes ∧ b.netSettings = sets ∧ b.netTs = ts
  | .ban x => x ∈ b.cfgBans
  | _ => True

/-- A run: an admin writes a record while the link is down (`b` to `b₁`), anything
happens that does not supersede the record, and in `b₂` the link is up and the full push
goes out. -/
structure OfflineRun (w : LocalWrite) (r : Record) (b b₁ b₂ : BotState) : Prop where
  down : linkReady b = false
  wrote : w.run b = (true, b₁)
  record : w.record b b₁ = some r
  held : Held b₂ r
  up : linkReady b₂ = true
  pushed : (sendFrame b₂ cmdConfigPush (generateConfigPayload b₂)).1 = true

/-- A ban that an admin wrote is not marked as pending. -/
theorem pushPending_localBanRecord {b : BotState} {chan mask flags setter reason : Str}
    {expires : Int} {del : Bool} {x : CfgBan}
    (h : localBanRecord b chan mask expires flags setter reason del = some x) :
    x.pushPending = false := by
  unfold localBanRecord at h
  split at h
  · simp at h
  · dsimp only at h
    split at h
    · obtain ⟨o, -, rfl⟩ := Option.map_eq_some_iff.mp h
      rfl
    · obtain rfl := Option.some.inj h
      rfl

/-- **What an admin wrote while the link was down is not in the push after it.** -/
theorem not_mem_configRecords {w : LocalWrite} {r : Record} {b b₁ b₂ : BotState}
    (h : OfflineRun w r b b₁ b₂) : r ∉ configRecords b₂ := by
  have hrecord := h.record
  cases w with
  | settings ci modes sets =>
      obtain ⟨c, -, rfl⟩ := Option.map_eq_some_iff.mp hrecord
      exact settings_notMem b₂ _ _ _ _ _
  | defaults modes sets =>
      obtain rfl := Option.some.inj hrecord
      exact defaults_notMem b₂ _ _ _
  | ban chan mask expires flags setter reason del =>
      obtain ⟨x, hx, rfl⟩ := Option.map_eq_some_iff.mp hrecord
      intro hmem
      have hpending := pending_of_mem hmem
      rw [pushPending_localBanRecord hx] at hpending
      exact Bool.noConfusion hpending

/-- The network's default modes, changed while the link is down. -/
def changed : BotState := (localD { now := 100 } (str "+nt") []).2

def linked : BotState :=
  { changed with hubs := [str "hub:1"], link := { sock := true, authenticated := true } }

theorem offlineRun_defaults : OfflineRun (.defaults (str "+nt") [])
    (.defaults changed.netModes changed.netSettings changed.netTs) { now := 100 } changed linked where
  down := rfl
  wrote := Prod.ext (by decide) rfl
  record := rfl
  held := ⟨rfl, rfl, rfl⟩
  up := rfl
  pushed := by decide

theorem not_mem_configRecords_defaults :
    Record.defaults changed.netModes changed.netSettings changed.netTs ∉ configRecords linked :=
  not_mem_configRecords offlineRun_defaults

/-- The record is missing from the push. -/
theorem not_pushed_after : ¬ ∀ (w : LocalWrite) (r : Record) (b b₁ b₂ : BotState),
    OfflineRun w r b b₁ b₂ → r ∈ configRecords b₂ := by
  intro hall
  exact defaults_notMem linked _ _ _ (hall _ _ _ _ _ offlineRun_defaults)

end IrcBot.LocalPush
