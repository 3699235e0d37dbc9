/-
# Hub-driven upgrades (`hub_client.rs`, `updater.rs`)

PREPARE asks whether the bot could take a build and is answered from the checks; COMMIT
installs it; ABORT puts the retained build back. What the network, the file system and the
new build answer is a `Machine`, which may be another one at each message.

* `vetted_run_iff` — over every run, what is installed is what the last PREPARE vetted, in
  time and once, exactly when no COMMIT that is let through names a variant of its own.
* `not_vetted_run` — a COMMIT that names another variant than its PREPARE is let through.
-/
import IrcBot.HubPush

namespace IrcBot.Upgrade

open Cstr Chancfg Chanenf HubPush

/-! ### The checks -/

/-- What the checks and the installation meet outside the bot's state. -/
structure Machine where
  arch : Str := str "x86_64"
  libc : Str := str "gnu"
  exePath : Str := str "/ircbot"
  /-- The password file for an unattended restart is there. -/
  passFile : Bool := true
  /-- TLS is usable for the release tree of a base. -/
  tls : Str → Except Str Unit := fun _ => .ok ()
  /-- `set_hub_update_base`. -/
  setBase : Str → Bool := fun _ => true
  /-- The signed manifest below a base lists a build of this version and variant for this
  host. -/
  manifest : Str → Str → Str → Except Str Unit := fun _ _ _ => .ok ()
  /-- Download, hash, self-test and hand-over from a base, of a version and variant; `ok`
  where the process is replaced. -/
  install : Str → Str → Str → Except Str Unit := fun _ _ _ => .ok ()
  /-- The build that was replaced is retained and can be put back. -/
  retained : Bool := true

/-- The characters that may not stand in a variant or a base. -/
def shellChars : Str := str ";|&\x60$ \t\r\n"

/-- `hub_local_check`. -/
def hubLocalCheck (m : Machine) (targetVer wantVariant minFrom : Str) : Except Str Unit :=
  if 7 < wantVariant.length || wantVariant.isEmpty ||
      wantVariant.any fun c => c == byte '/' || shellChars.contains c then
    .error (str "rejected malformed variant from hub")
  else if versionCmp targetVer botVersion = .lt then
    .error (str "target is older than the running version")
  else if versionCmp targetVer botVersion = .eq ∧ wantVariant = botUpdateVariant then
    .error (str "already running the target version")
  else if minFrom ≠ [] ∧ minFrom ≠ str "*" ∧ versionCmp botVersion minFrom = .lt then
    .error (str "running version is below the target's min_from")
  else if !m.passFile then .error (str "no .ircbot.pass; cannot restart unattended")
  else if m.exePath.head? ≠ some (byte '/') then .error (str "executable path is not absolute")
  else .ok ()

/-- `hub_set_tree`. -/
def hubSetTree (m : Machine) (base wantVariant : Str) : Except Str Unit :=
  let root := if base.isEmpty then botUpdateBase else base
  if 512 ≤ root.length || root.any shellChars.contains then
    .error (str "rejected malformed manifest base from hub")
  else if !m.setBase (root ++ str "/" ++ wantVariant) then
    .error (str "could not record the hub's manifest base")
  else .ok ()

/-- `hub_prepare_check`. -/
def hubPrepareCheck (m : Machine) (targetVer variant minFrom base : Str) : Except Str Unit := do
  let want := if variant.isEmpty then botUpdateVariant else variant
  hubLocalCheck m targetVer want minFrom
  m.tls base
  hubSetTree m base want
  m.manifest base targetVer want

/-- `hub_commit`: `ok` where the process is replaced. -/
def hubCommit (m : Machine) (targetVer variant base : Str) : Except Str Unit := do
  let want := if variant.isEmpty then botUpdateVariant else variant
  hubLocalCheck m targetVer want []
  m.tls base
  hubSetTree m base want
  m.install base targetVer want

/-- `commit_err_is_integrity`: the release itself is bad. -/
def commitErrIsIntegrity (err : Str) : Bool :=
  [str "SHA-256 mismatch", str "signature INVALID", str "is not a ircbot release",
    str "untrusted artifact URL"].any fun m => decide (m <:+: err)

/-! ### The state of an upgrade -/

/-- What an upgrade is about, and when. -/
structure Plan where
  id : Str
  version : Str
  variant : Str
  time : Int
deriving DecidableEq, Repr

/-- What a run shows of its upgrades. -/
inductive Event where
  /-- A PREPARE was answered "ready". -/
  | ready (plan : Plan)
  /-- An ABORT came in. -/
  | abort
  /-- The install step was started. -/
  | install (plan : Plan)
  /-- The retained build was put back for `id`, while `installed` was on record. -/
  | rollback (id installed : Str)
deriving DecidableEq, Repr

/-- The bot with the `upgrade_*` fields of its state. -/
structure Node where
  bot : BotState := {}
  upgradeId : Str := []
  upgradeTarget : Str := []
  upgradeVariant : Str := []
  upgradeBase : Str := []
  upgradePrepared : Int := 0
  /-- Another build has taken the place of this process. -/
  replaced : Bool := false
  /-- Newest first. -/
  history : List Event := []

/-! ### The messages -/

/-- `send_upgrade_ready`. -/
def sendUpgradeReady (b : BotState) (m : Machine) (id : Str) (ready : Bool) (reason : Str) :
    BotState :=
  (sendFrame b cmdUpgradeReady (id ++ str "|" ++ b.botUuid ++ str "|" ++ botVersion ++ str "|" ++
    botUpdateVariant ++ str "|" ++ m.arch ++ str "|" ++ m.libc ++ str "|" ++
    (if ready then str "1" else str "0") ++ str "|" ++ upgradeField reason)).2

/-- The id and the version a message starts with. -/
def idVersion (f : List Str) : Option (Str × Str) :=
  match f with
  | id :: ver :: _ =>
      if id.isEmpty || ver.isEmpty || 63 < id.length || 63 < ver.length then none
      else some (id, ver)
  | _ => none

/-- `handle_upgrade_prepare`. -/
def handleUpgradePrepare (m : Machine) (n : Node) (payload : Str) : Node :=
  let f := splitOn (byte '|') payload
  match idVersion f with
  | none => n
  | some (id, ver) =>
      let variant := f.getD 2 []
      let base := f.getD 5 []
      match hubPrepareCheck m ver variant (f.getD 4 []) base with
      | .error reason => { n with bot := sendUpgradeReady n.bot m id false reason }
      | .ok () =>
          -- the plan: COMMIT repeats only the id and the version
          let kept := if variant.isEmpty then botUpdateVariant else variant
          { n with
            bot := sendUpgradeReady n.bot m id true []
            upgradeId := id, upgradeTarget := ver, upgradeVariant := kept, upgradeBase := base
            upgradePrepared := n.bot.now
            history := .ready ⟨id, ver, kept, n.bot.now⟩ :: n.history }

/-- The variant a COMMIT names. -/
def commitVariant (payload : Str) : Str := (splitPipes 3 payload).getD 2 []

/-- `handle_upgrade_commit`. -/
def handleUpgradeCommit (m : Machine) (n : Node) (payload : Str) : Node :=
  match idVersion (splitPipes 3 payload) with
  | none => n
  | some (id, ver) =>
      let variant := commitVariant payload
      if n.upgradeId.isEmpty ∨ n.upgradeId ≠ id then
        if versionCmp botVersion ver = .eq ∧ (variant.isEmpty ∨ variant = botUpdateVariant) then
          { n with bot := sendUpgradeResult n.bot id (str "ok") [] }
        else
          { n with
            bot := sendUpgradeResult n.bot id (str "skip") (str "no matching UPGRADE_PREPARE") }
      else if n.upgradeTarget ≠ ver then
        { n with
          bot := sendUpgradeResult n.bot id (str "skip")
            (str "commit version differs from prepare") }
      else if upgradePrepareTtl < n.bot.now - n.upgradePrepared then
        { n with
          upgradeId := [], bot := sendUpgradeResult n.bot id (str "skip") (str "prepare expired") }
      else
        let variant := if variant.isEmpty then n.upgradeVariant else variant
        let n := { n with history := .install ⟨id, ver, variant, n.bot.now⟩ :: n.history }
        match hubCommit m ver variant n.upgradeBase with
        | .ok () => { n with replaced := true }
        | .error e =>
            let status := if commitErrIsIntegrity e then str "fail" else str "skip"
            { n with upgradeId := [], bot := sendUpgradeResult n.bot id status e }

/-- `handle_upgrade_abort`. -/
def handleUpgradeAbort (m : Machine) (n : Node) (payload : Str) : Node :=
  let id := ((splitOnce (byte '|') payload).getD (payload, [])).1
  let id := if id.isEmpty then str "-" else id
  let n := { n with upgradeId := [], upgradePrepared := 0, history := .abort :: n.history }
  if id = str "-" ∨ id ≠ n.bot.upgradeInstalledId then
    { n with bot := sendUpgradeResult n.bot id (str "aborted") (str "not moved by this run") }
  else if m.retained then
    { n with
      replaced := true, history := .rollback id n.bot.upgradeInstalledId :: n.history }
  else
    { n with
      bot := sendUpgradeResult n.bot id (str "aborted") (str "nothing retained to roll back to") }

/-- `handle_response` for these messages. -/
def handleUpgrade (m : Machine) (n : Node) (cmd : UInt8) (payload : Str) : Node :=
  if payload.isEmpty then n
  else if cmd = cmdUpgradePrepare then handleUpgradePrepare m n payload
  else if cmd = cmdUpgradeCommit then handleUpgradeCommit m n payload
  else if cmd = cmdUpgradeAbort then handleUpgradeAbort m n payload
  else n

/-! ### Runs -/

/-- A message with what the machine answers then, or anything else the bot does meanwhile,
the clock included. -/
inductive Input where
  | message (m : Machine) (cmd : UInt8) (payload : Str)
  | elsewhere (bot : BotState)

/-- One input. A process that has been replaced does nothing more. -/
def step (n : Node) : Input → Node
  | .message m cmd payload => if n.replaced then n else handleUpgrade m n cmd payload
  | .elsewhere bot => if n.replaced then n else { n with bot }

def run (n : Node) (ins : List Input) : Node := ins.foldl step n

/-! ### What may be installed -/

/-- The plan of the last PREPARE that was answered "ready", unless it has been aborted or
used since. -/
def openPlan : List Event → Option Plan
  | [] => none
  | .ready plan :: _ => some plan
  | .abort :: _ => none
  | .install _ :: _ => none
  | .rollback _ _ :: older => openPlan older

/-- An event is due after the ones before it. -/
def Due (older : List Event) : Event → Prop
  | .install p => ∃ plan, openPlan older = some plan ∧ p.id = plan.id ∧ p.version = plan.version ∧
      p.variant = plan.variant ∧ p.time - plan.time ≤ 900
  | .rollback id installed => id = installed
  | _ => True

/-- All events of a history are due. -/
def Vetted : List Event → Prop
  | [] => True
  | e :: older => Due older e ∧ Vetted older

/-- A COMMIT passes the checks that come before the installation. -/
def Admits (n : Node) (payload : Str) : Prop :=
  ∃ id ver, idVersion (splitPipes 3 payload) = some (id, ver) ∧ n.upgradeId ≠ [] ∧
    n.upgradeId = id ∧ n.upgradeTarget = ver ∧ n.bot.now - n.upgradePrepared ≤ upgradePrepareTtl

/-- The COMMIT of an input, if it passes, names no variant or the prepared one. -/
def KeepsVariant (n : Node) : Input → Prop
  | .message _ cmd payload =>
      n.replaced = false → payload ≠ [] → cmd = cmdUpgradeCommit → Admits n payload →
        commitVariant payload = [] ∨ commitVariant payload = n.upgradeVariant
  | .elsewhere _ => True

/-- All COMMITs of a run do. -/
def KeepsVariants : Node → List Input → Prop
  | _, [] => True
  | n, i :: ins => KeepsVariant n i ∧ KeepsVariants (step n i) ins

/-- While the process runs, the plan on record is the open one. -/
def OnRecord (n : Node) : Prop :=
  n.replaced = false → n.upgradeId ≠ [] →
    openPlan n.history = some ⟨n.upgradeId, n.upgradeTarget, n.upgradeVariant, n.upgradePrepared⟩

/-- Nothing has happened to the plan, but that it may be forgotten. -/
structure PlanKept (n n' : Node) : Prop where
  history : n'.history = n.history
  replaced : n'.replaced = n.replaced
  plan : n'.upgradeId = [] ∨ (n'.upgradeId = n.upgradeId ∧ n'.upgradeTarget = n.upgradeTarget ∧
    n'.upgradeVariant = n.upgradeVariant ∧ n'.upgradePrepared = n.upgradePrepared)

theorem PlanKept.onRecord {n n' : Node} (h : PlanKept n n') (hn : OnRecord n) : OnRecord n' := by
  intro hrun hid
  rcases h.plan with hnil | ⟨hid', htarget, hvariant, hprepared⟩
  · exact absurd hnil hid
  · rw [h.replaced] at hrun
    rw [hid'] at hid
    rw [h.history, hid', htarget, hvariant, hprepared]
    exact hn hrun hid

theorem PlanKept.of_bot (n : Node) (bot : BotState) : PlanKept n { n with bot } :=
  ⟨rfl, rfl, .inr ⟨rfl, rfl, rfl, rfl⟩⟩

/-! ### What one message can do -/

/-- A PREPARE is put on record as it is answered "ready", or changes nothing. -/
theorem prepare_cases (m : Machine) (n : Node) (payload : Str) :
    PlanKept n (handleUpgradePrepare m n payload) ∨
      ∃ plan, (handleUpgradePrepare m n payload).history = .ready plan :: n.history ∧
        OnRecord (handleUpgradePrepare m n payload) := by
  unfold handleUpgradePrepare
  dsimp only
  split
  · exact .inl (.of_bot n n.bot)
  · split
    · exact .inl (.of_bot n _)
    · exact .inr ⟨_, rfl, fun _ _ => rfl⟩

/-- A COMMIT that is let through starts the install step, once; any other one installs
nothing. -/
theorem commit_cases (m : Machine) (n : Node) (payload : Str) :
    (¬ Admits n payload ∧ PlanKept n (handleUpgradeCommit m n payload)) ∨
      (Admits n payload ∧
        (handleUpgradeCommit m n payload).history =
          .install ⟨n.upgradeId, n.upgradeTarget,
            if (commitVariant payload).isEmpty then n.upgradeVariant else commitVariant payload,
            n.bot.now⟩ :: n.history ∧
        OnRecord (handleUpgradeCommit m n payload)) := by
  unfold handleUpgradeCommit
  split
  · rename_i hparse
    refine .inl ⟨?_, .of_bot n n.bot⟩
    rintro ⟨id, ver, hsome, -⟩
    rw [hparse] at hsome
    cases hsome
  · rename_i id ver hparse
    have hadmits : Admits n payload ↔ n.upgradeId ≠ [] ∧ n.upgradeId = id ∧
        n.upgradeTarget = ver ∧ n.bot.now - n.upgradePrepared ≤ upgradePrepareTtl := by
      constructor
      · rintro ⟨id', ver', hsome, h⟩
        rw [hparse, Option.some.injEq, Prod.mk.injEq] at hsome
        rw [hsome.1, hsome.2]
        exact h
      · exact fun h => ⟨id, ver, hparse, h⟩
    dsimp only
    split
    · rename_i hid
      refine .inl ⟨?_, ?_⟩
      · rw [hadmits]
        rintro ⟨hne, heq, -⟩
        rcases hid with hid | hid
        · exact hne (List.isEmpty_iff.mp hid)
        · exact hid heq
      · split
        · exact .of_bot n _
        · exact .of_bot n _
    · rename_i hid
      simp only [List.isEmpty_iff, not_or, ne_eq, not_not] at hid
      split
      · rename_i hver
        exact .inl ⟨fun h => hver (hadmits.mp h).2.2.1, .of_bot n _⟩
      · rename_i hver
        simp only [ne_eq, not_not] at hver
        split
        · rename_i hlate
          exact .inl ⟨fun h => absurd (hadmits.mp h).2.2.2 (not_le.mpr hlate), rfl, rfl, .inl rfl⟩
        · rename_i hlate
          have hin : Admits n payload := hadmits.mpr ⟨hid.1, hid.2, hver, not_lt.mp hlate⟩
          refine .inr ⟨hin, ?_, ?_⟩
          · rw [← hid.2, ← hver]
            split <;> rfl
          · split
            · exact fun hrun => absurd hrun (by simp)
            · exact fun _ hne => absurd rfl hne

/-- An ABORT closes the plan; what is put back is what is on record as installed. -/
theorem abort_cases (m : Machine) (n : Node) (payload : Str) :
    OnRecord (handleUpgradeAbort m n payload) ∧
      ((handleUpgradeAbort m n payload).history = .abort :: n.history ∨
        ∃ id, (handleUpgradeAbort m n payload).history =
          .rollback id id :: .abort :: n.history) := by
  unfold handleUpgradeAbort
  dsimp only
  generalize (if List.isEmpty ((splitOnce (byte '|') payload).getD (payload, [])).1 then str "-"
    else ((splitOnce (byte '|') payload).getD (payload, [])).1) = id
  split
  · exact ⟨fun _ hne => absurd rfl hne, .inl rfl⟩
  · rename_i hid
    rw [not_or, not_not] at hid
    split
    · exact ⟨fun _ hne => absurd rfl hne, .inr ⟨_, by rw [← hid.2]⟩⟩
    · exact ⟨fun _ hne => absurd rfl hne, .inl rfl⟩

/-! ### Every run -/

theorem keepsVariant_commit_iff {n : Node} {m : Machine} {payload : Str} (hrun : n.replaced = false)
    (hne : payload ≠ []) (hin : Admits n payload) :
    KeepsVariant n (.message m cmdUpgradeCommit payload) ↔
      (if (commitVariant payload).isEmpty then n.upgradeVariant else commitVariant payload) =
        n.upgradeVariant := by
  unfold KeepsVariant
  by_cases hvariant : commitVariant payload = []
  · simp [hvariant]
  · simp [hvariant, hrun, hne, hin]

/-- One input keeps the record, and adds only events that are due, exactly when a COMMIT
that passes keeps the variant. -/
theorem step_vetted {n : Node} (hn : OnRecord n) (i : Input) :
    OnRecord (step n i) ∧
      (Vetted (step n i).history ↔ Vetted n.history ∧ KeepsVariant n i) := by
  cases i with
  | elsewhere bot =>
      rw [step]
      by_cases hrun : n.replaced = true
      · rw [if_pos hrun]
        exact ⟨hn, by simp [KeepsVariant]⟩
      · rw [if_neg hrun]
        exact ⟨(PlanKept.of_bot n bot).onRecord hn, by simp [KeepsVariant]⟩
  | message m cmd payload =>
      rw [step]
      by_cases hrun : n.replaced = true
      · rw [if_pos hrun]
        exact ⟨hn, by simp [KeepsVariant, hrun]⟩
      rw [if_neg hrun]
      rw [Bool.not_eq_true] at hrun
      unfold handleUpgrade
      by_cases hne : payload.isEmpty = true
      · rw [if_pos hne]
        exact ⟨hn, by simp [KeepsVariant, List.isEmpty_iff.mp hne]⟩
      rw [if_neg hne]
      rw [List.isEmpty_iff] at hne
      by_cases hprepare : cmd = cmdUpgradePrepare
      · rw [if_pos hprepare]
        have hkeeps : KeepsVariant n (.message m cmd payload) := by
          intro _ _ hcommit
          exact absurd (hprepare.symm.trans hcommit) (by decide)
        rcases prepare_cases m n payload with hkept | ⟨plan, hhistory, hrecord⟩
        · exact ⟨hkept.onRecord hn, by simp [hkept.history, hkeeps]⟩
        · exact ⟨hrecord, by simp [hhistory, Vetted, Due, hkeeps]⟩
      rw [if_neg hprepare]
      by_cases hcommit : cmd = cmdUpgradeCommit
      · rw [if_pos hcommit]
        subst hcommit
        rcases commit_cases m n payload with ⟨hout, hkept⟩ | ⟨hin, hhistory, hrecord⟩
        · refine ⟨hkept.onRecord hn, ?_⟩
          have hkeeps : KeepsVariant n (.message m cmdUpgradeCommit payload) :=
            fun _ _ _ hin => absurd hin hout
          simp [hkept.history, hkeeps]
        · refine ⟨hrecord, ?_⟩
          obtain ⟨id, ver, -, hid, -, -, htime⟩ := id hin
          have hplan := hn hrun hid
          rw [keepsVariant_commit_iff hrun hne hin, hhistory, Vetted, and_comm]
          refine and_congr_right fun _ => ?_
          simp only [Due, hplan, Option.some.injEq, exists_eq_left', true_and]
          exact ⟨fun h => h.1, fun h => ⟨h, htime⟩⟩
      rw [if_neg hcommit]
      have hkeeps : KeepsVariant n (.message m cmd payload) := fun _ _ h => absurd h hcommit
      split
      · obtain ⟨hrecord, hhistory | ⟨id, hhistory⟩⟩ := abort_cases m n payload
        · exact ⟨hrecord, by simp [hhistory, Vetted, Due, hkeeps]⟩
        · exact ⟨hrecord, by simp [hhistory, Vetted, Due, hkeeps]⟩
      · exact ⟨hn, by simp [hkeeps]⟩

theorem run_vetted {n : Node} (hn : OnRecord n) (ins : List Input) :
    Vetted (run n ins).history ↔ Vetted n.history ∧ KeepsVariants n ins := by
  induction ins generalizing n with
  | nil => simp [run, KeepsVariants]
  | cons i ins ih =>
      obtain ⟨hrecord, hstep⟩ := step_vetted hn i
      have hrest := ih hrecord
      rw [hstep, and_assoc] at hrest
      exact hrest

/-- **The commit gate.** What a run installs is what the last PREPARE vetted (the same id,
version and variant, no more than 900 s later, neither aborted nor used before), and what it
puts back is the upgrade on record, exactly when every COMMIT that is let through names no
variant or the prepared one. -/
theorem vetted_run_iff (bot : BotState) (ins : List Input) :
    Vetted (run { bot } ins).history ↔ KeepsVariants { bot } ins := by
  have hnew : OnRecord { bot } := fun _ hne => absurd rfl hne
  rw [run_vetted hnew]
  simp [Vetted]

/-- The variant is not compared as the version is: a bot asked about one variant installs
another. -/
theorem not_vetted_run :
    ¬ ∀ (bot : BotState) (ins : List Input), Vetted (run { bot } ins).history := by
  intro h
  have hnew : OnRecord { bot := {} } := fun _ hne => absurd rfl hne
  have hrun := ((run_vetted hnew _).mp (h {}
    [.message {} cmdUpgradePrepare (str "r1|9.9.9|rs||*|"),
      .message {} cmdUpgradeCommit (str "r1|9.9.9|c")])).2
  have hkeeps := hrun.2.1 (by decide) (by decide) rfl
    ⟨str "r1", str "9.9.9", by decide⟩
  revert hkeeps
  decide

end IrcBot.Upgrade
