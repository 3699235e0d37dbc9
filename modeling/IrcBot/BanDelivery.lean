/-
# Bans on their way to the hub (`chancfg::bot_ban`, `hub_client::push_config`)

A ban of the bot's own is pending until its line went up. `push_config` takes the marks
off all bans once its frame is sent, whether or not their lines fit the frame; and a full
table gives a tombstone's place away whether or not it is pending.

* `Run.delivered` — while pending bans fit, and no pending tombstone is given away, a ban
  stays pending until its line was in a frame that went out.
-/
import IrcBot.ConfigPayload
import IrcBot.LocalWrites

namespace IrcBot.BanDelivery

open Cstr Chancfg HubPush ConfigPayload LocalWrites

/-! ### The log of frames -/

theorem sendFrame_log (b : BotState) (cmd : UInt8) (payload : Str) :
    (sendFrame b cmd payload).2.hubOut =
      if (sendFrame b cmd payload).1 then b.hubOut ++ [(cmd, payload)] else b.hubOut := by
  unfold sendFrame
  split
  · rfl
  · split
    · rfl
    · unfold sendRaw
      split
      · rfl
      · split
        · rfl
        · rfl

theorem sendFrame_sent {b : BotState} {cmd : UInt8} {payload : Str}
    (hauth : b.link.authenticated = true) (hsock : b.link.sock = true)
    (hleft : b.link.sendLeft = none) (hlen : payload.length ≤ maxBuffer - 64) :
    (sendFrame b cmd payload).1 = true := by
  unfold sendFrame sendRaw
  rw [if_neg (by simp [hauth, hsock]), if_neg (by omega), if_neg (by simp [hsock]), hleft]

/-- A push of lines that reports success put them in a frame. -/
theorem pushLines_log (b : BotState) (lines : Str) :
    (pushLines b lines).2.cfgBans = b.cfgBans ∧
      (pushLines b lines).2.hubOut =
        if (pushLines b lines).1 then b.hubOut ++ [(cmdConfigPush, lines)] else b.hubOut := by
  unfold pushLines
  split
  · exact ⟨rfl, rfl⟩
  · exact ⟨by rw [(sameButLink_sendFrame b _ _).eq], sendFrame_log b _ _⟩

theorem pushChannel_log (b : BotState) (ci : Nat) :
    (pushChannel b ci).cfgBans = b.cfgBans ∧ b.hubOut <+: (pushChannel b ci).hubOut := by
  unfold pushChannel
  split
  · exact ⟨rfl, List.prefix_rfl⟩
  · split
    · exact ⟨rfl, List.prefix_rfl⟩
    · split
      · exact ⟨rfl, List.prefix_rfl⟩
      · rename_i c _ _
        have hlink := (sameButLink_sendFrame b cmdConfigPush (chanLine c)).eq
        have hlog := sendFrame_log b cmdConfigPush (chanLine c)
        split
        · rename_i b' hsend
          rw [hsend] at hlink hlog
          dsimp only at hlink
          have hbans : b'.cfgBans = b.cfgBans := by rw [hlink]
          refine ⟨hbans, ?_⟩
          rw [show (withChan b' ci _).hubOut = b'.hubOut from rfl, hlog]
          exact List.prefix_append _ _
        · rename_i b' hsend
          rw [hsend] at hlink hlog
          dsimp only at hlink
          have hbans : b'.cfgBans = b.cfgBans := by rw [hlink]
          refine ⟨hbans, ?_⟩
          rw [hlog]
          exact List.prefix_rfl

/-- A full push that goes out. -/
theorem pushConfig_of_sent {b : BotState} (hready : linkReady b = true)
    (hne : generateConfigPayload b ≠ [])
    (hsent : (sendFrame b cmdConfigPush (generateConfigPayload b)).1 = true) :
    (pushConfig b).cfgBans = b.cfgBans.map (fun x => { x with pushPending := false }) ∧
      (pushConfig b).hubOut = b.hubOut ++ [(cmdConfigPush, generateConfigPayload b)] := by
  have hlink := (sameButLink_sendFrame b cmdConfigPush (generateConfigPayload b)).eq
  have hlog := sendFrame_log b cmdConfigPush (generateConfigPayload b)
  unfold pushConfig
  rw [if_neg (by simp [hready])]
  dsimp only
  rw [if_neg (by simpa using hne)]
  split
  · rename_i b' hsend
    rw [hsend] at hlink hlog
    dsimp only at hlink
    have hbans : b'.cfgBans = b.cfgBans := by rw [hlink]
    dsimp only
    rw [hbans]
    exact ⟨rfl, hlog⟩
  · rename_i b' hsend
    rw [hsend] at hsent
    simp at hsent

theorem pushConfig_of_unsent {b : BotState}
    (h : linkReady b = false ∨ generateConfigPayload b = [] ∨
    (sendFrame b cmdConfigPush (generateConfigPayload b)).1 = false) :
    (pushConfig b).cfgBans = b.cfgBans ∧ (pushConfig b).hubOut = b.hubOut := by
  have hlink := (sameButLink_sendFrame b cmdConfigPush (generateConfigPayload b)).eq
  have hlog := sendFrame_log b cmdConfigPush (generateConfigPayload b)
  unfold pushConfig
  split
  · exact ⟨rfl, rfl⟩
  · rename_i hready
    dsimp only
    split
    · exact ⟨rfl, rfl⟩
    · rename_i hne
      split
      · rename_i b' hsend
        rw [hsend] at h
        simp only [Bool.not_eq_true', Bool.not_eq_false] at hready
        simp [hready] at h
        simp [h] at hne
      · rename_i b' hsend
        rw [hsend] at hlink hlog
        dsimp only at hlink
        have hbans : b'.cfgBans = b.cfgBans := by rw [hlink]
        exact ⟨hbans, hlog⟩

/-! ### What is owed -/

/-- The line of a ban was in one of the frames since the log had `n` of them. -/
def Sent (b : BotState) (n : Nat) (x : CfgBan) : Prop :=
  ∃ f ∈ b.hubOut.drop n, f.1 = cmdConfigPush ∧ text formatBLine x <:+: f.2

theorem Sent.mono {b b' : BotState} {n : Nat} {x : CfgBan} (h : Sent b n x)
    (hlog : b.hubOut <+: b'.hubOut) : Sent b' n x := by
  obtain ⟨f, hf, hcmd, hline⟩ := h
  obtain ⟨more, hmore⟩ := hlog
  refine ⟨f, ?_, hcmd, hline⟩
  rw [← hmore, List.drop_append]
  exact List.mem_append_left _ hf

/-- The last frame counts. -/
theorem sent_of_last {b b' : BotState} {n : Nat} {x : CfgBan} {payload : Str}
    (hn : n ≤ b.hubOut.length) (hlog : b'.hubOut = b.hubOut ++ [(cmdConfigPush, payload)])
    (hline : text formatBLine x <:+: payload) : Sent b' n x := by
  refine ⟨(cmdConfigPush, payload), ?_, rfl, hline⟩
  rw [hlog, List.drop_append_of_le_length hn]
  exact List.mem_append_right _ List.mem_cons_self

/-- What the hub is owed: under a channel and a mask, the ban last written there, and how
many frames the log had then. -/
abbrev Owed := Str × Str → Option (CfgBan × Nat)

/-- A ban that is owed is pending in the table, or its line went out since it was
written. -/
def Delivered (b : BotState) (owed : Owed) : Prop :=
  ∀ k x n, owed k = some (x, n) →
    n ≤ b.hubOut.length ∧ banKey x = k ∧
      (byKey b.cfgBans k = some { x with pushPending := true } ∨ Sent b n x)

/-- What is pending is owed from the start. -/
def owedAtStart (b : BotState) : Owed := fun k =>
  ((byKey b.cfgBans k).filter (·.pushPending)).map fun x => (x, b.hubOut.length)

/-- A ban that is written is owed instead of the one before it. -/
def Owed.write (owed : Owed) (b : BotState) (x : CfgBan) : Owed := fun k =>
  if k = banKey x then some (x, b.hubOut.length) else owed k

/-- What `bot_ban` adds to what is owed. -/
def Owed.ban (owed : Owed) (b : BotState) (x : Option CfgBan) : Owed :=
  match x with
  | some x => if (banStore b x).1 then owed.write b x else owed
  | none => owed

/-! ### Steps -/

section

variable {owed : Owed} {b b' : BotState}

theorem delivered_start (b : BotState) : Delivered b (owedAtStart b) := by
  intro k x n h
  obtain ⟨y, hy, hpair⟩ := Option.map_eq_some_iff.mp h
  obtain ⟨rfl, rfl⟩ : y = x ∧ b.hubOut.length = n := by simpa using hpair
  obtain ⟨hfind, hpending⟩ := Option.filter_eq_some_iff.mp hy
  refine ⟨Nat.le_refl _, by simpa using List.find?_some hfind, .inl ?_⟩
  rw [hfind, ← hpending]

/-- A step that leaves the table alone. -/
theorem Delivered.frame (h : Delivered b owed) (hbans : b'.cfgBans = b.cfgBans)
    (hlog : b.hubOut <+: b'.hubOut) : Delivered b' owed := by
  intro k x n howed
  obtain ⟨hn, hkey, hpending | hsent⟩ := h k x n howed
  · refine ⟨hn.trans hlog.length_le, hkey, .inl ?_⟩
    rw [hbans]
    exact hpending
  · exact ⟨hn.trans hlog.length_le, hkey, .inr (hsent.mono hlog)⟩

/-- The ban in whose place `x` is stored is not pending. -/
def KeepsPending (b : BotState) (x : CfgBan) : Prop :=
  banIdx b x.chan x.mask = none → cfgMaxBans ≤ b.cfgBans.length →
    ∀ i z, oldestTombstone b.cfgBans = some (i, z) → z.pushPending = false

theorem Delivered.store {x : CfgBan} (h : Delivered b owed) (hx : x.pushPending = true)
    (hstore : banStore b x = (true, b')) (hkeeps : KeepsPending b x) :
    Delivered b' (owed.write b x) := by
  obtain ⟨hframe, hfound, hothers⟩ := byKey_banStore hstore
  have hlog : b'.hubOut = b.hubOut := by rw [hframe]
  intro k y n howed
  unfold Owed.write at howed
  split at howed
  · rename_i hk
    obtain ⟨rfl, rfl⟩ : x = y ∧ b.hubOut.length = n := by simpa using howed
    refine ⟨by rw [hlog], hk.symm, .inl ?_⟩
    rw [hk, hfound, ← hx]
  · rename_i hk
    obtain ⟨hn, hkey, hpending | hsent⟩ := h k y n howed
    · refine ⟨by rwa [hlog], hkey, .inl ?_⟩
      rcases hothers k hk _ hpending with hkept | ⟨hnew, hfull, i, hold⟩
      · exact hkept
      · exact Bool.noConfusion (hkeeps hnew hfull i _ hold)
    · exact ⟨by rwa [hlog], hkey, .inr (hsent.mono (by rw [hlog]))⟩

/-- A mark is taken off a ban whose line went out. -/
theorem Delivered.unmark {x : CfgBan} {n : Nat} (h : Delivered b owed)
    (howed : owed (banKey x) = some (x, n)) (hsent : Sent b n x) :
    Delivered (unmark b x.chan x.mask) owed := by
  have hlog : (LocalWrites.unmark b x.chan x.mask).hubOut = b.hubOut := by
    unfold LocalWrites.unmark
    split
    · rfl
    · rfl
  intro k y m hky
  obtain ⟨hm, hkey, hrest⟩ := h k y m hky
  refine ⟨by rwa [hlog], hkey, ?_⟩
  by_cases hk : k = banKey x
  · subst hk
    obtain ⟨rfl, rfl⟩ : x = y ∧ n = m := by simpa [howed] using hky
    exact .inr (hsent.mono (by rw [hlog]))
  · rcases hrest with hpending | hsent'
    · refine .inl ?_
      unfold LocalWrites.unmark
      split
      · rename_i i hi
        rw [banIdx_eq] at hi
        obtain ⟨hlt, hxi, -⟩ := List.findIdx?_eq_some_iff_getElem.mp hi
        have hikey : banKey b.cfgBans[i] = banKey x := eq_of_beq hxi
        dsimp only
        rw [List.modify_eq_set_getElem?, List.getElem?_eq_getElem hlt]
        refine find?_set_of_ne (List.getElem?_eq_getElem hlt) hpending (fun heq => hk ?_) ?_
        · rw [← hikey, heq]
          exact hkey.symm
        · rw [beq_eq_false_iff_ne]
          exact fun heq => hk (heq.symm.trans hikey)
      · exact hpending
    · exact .inr (hsent'.mono (by rw [hlog]))

theorem Delivered.pushBan {x : CfgBan} (h : Delivered b owed)
    (howed : ∃ n, owed (banKey x) = some (x, n)) : Delivered (pushBan b x) owed := by
  unfold LocalWrites.pushBan
  split
  · exact h
  · rename_i line hline
    obtain ⟨hbans, hlog⟩ := pushLines_log b line
    split
    · rename_i b' hpush
      rw [hpush] at hbans hlog
      have hpushed : Delivered b' owed := h.frame hbans (hlog ▸ List.prefix_append _ _)
      obtain ⟨n, hn⟩ := howed
      refine hpushed.unmark hn (sent_of_last (h _ _ _ hn).1 hlog ?_)
      rw [text, hline]
      exact List.infix_rfl
    · rename_i b' hpush
      rw [hpush] at hbans hlog
      exact h.frame hbans (hlog ▸ List.prefix_rfl)

theorem pushPending_botBanRecord {chan mask : Str} {expires : Int} {flags reason : Option Str}
    {del : Bool} {x : CfgBan} (h : botBanRecord b chan mask expires flags reason del = some x) :
    x.pushPending = true := by
  unfold botBanRecord at h
  split at h
  · simp at h
  · split at h
    · simp at h
    · dsimp only at h
      split at h
      · obtain ⟨o, -, rfl⟩ := Option.map_eq_some_iff.mp h
        rfl
      · split at h
        · simp at h
        · split at h
          · simp at h
          · obtain rfl := Option.some.inj h
            rfl

/-- **A ban the bot writes is owed**, and the others stay as they are. -/
theorem Delivered.botBan (h : Delivered b owed) (chan mask : Str) (expires : Int)
    (flags reason : Option Str) (del : Bool)
    (hkeeps : ∀ x, botBanRecord b chan mask expires flags reason del = some x → KeepsPending b x) :
    Delivered (botBan b chan mask expires flags reason del).2
      (owed.ban b (botBanRecord b chan mask expires flags reason del)) := by
  unfold LocalWrites.botBan Owed.ban
  cases hx : botBanRecord b chan mask expires flags reason del with
  | none => exact h
  | some x =>
      dsimp only
      rcases hstore : banStore b x with ⟨stored, b'⟩
      cases stored with
      | false =>
          have hsame : b' = b := by
            have hidle := onlyApplied_banStore b x
            rw [hstore] at hidle
            exact hidle rfl
          rw [hsame]
          exact h
      | true =>
          have hstored := h.store (pushPending_botBanRecord hx) hstore (hkeeps x hx)
          have howed : (owed.write b x) (banKey x) = some (x, b.hubOut.length) := if_pos rfl
          have hpushed := hstored.pushBan ⟨_, howed⟩
          dsimp only
          rw [if_pos rfl]
          generalize LocalWrites.pushBan b' x = b'' at hpushed ⊢
          exact hpushed.frame rfl List.prefix_rfl

/-- **A full push delivers what is pending**, where it fits. -/
theorem Delivered.pushConfig (h : Delivered b owed) (hfits : linkReady b = true → PendingFits b) :
    Delivered (pushConfig b) owed := by
  by_cases hsent : linkReady b = true ∧ generateConfigPayload b ≠ [] ∧
      (sendFrame b cmdConfigPush (generateConfigPayload b)).1 = true
  · obtain ⟨hready, hne, hsend⟩ := hsent
    obtain ⟨-, hlog⟩ := pushConfig_of_sent hready hne hsend
    have hgrow : b.hubOut <+: (HubPush.pushConfig b).hubOut := by
      rw [hlog]
      exact List.prefix_append _ _
    intro k x n howed
    obtain ⟨hn, hkey, hpending | hsent⟩ := h k x n howed
    · have hrecord :=
        pending_mem_configRecords (hfits hready) (List.mem_of_find?_eq_some hpending) rfl
      have hline : (Record.ban { x with pushPending := true }).line = text formatBLine x := by
        simp only [Record.line, text, formatBLine]
      have hin := line_infix_payload hrecord
      rw [hline] at hin
      exact ⟨hn.trans hgrow.length_le, hkey, .inr (sent_of_last hn hlog hin)⟩
    · exact ⟨hn.trans hgrow.length_le, hkey, .inr (hsent.mono hgrow)⟩
  · have hunsent : linkReady b = false ∨ generateConfigPayload b = [] ∨
        (sendFrame b cmdConfigPush (generateConfigPayload b)).1 = false := by
      simp only [not_and_or, not_not, Bool.not_eq_true] at hsent
      exact hsent
    obtain ⟨hbans, hlog⟩ := pushConfig_of_unsent hunsent
    refine h.frame hbans ?_
    rw [hlog]

end

/-! ### Runs -/

/-- Runs of the bot as far as its bans go: bans it writes, pushes of one channel and of
everything, and anything else that leaves the table alone, such as the link going up
and down. `fits` and `keeps` are asked of the state before a full push and before a ban
is stored. -/
inductive Run (fits : BotState → Prop) (keeps : BotState → CfgBan → Prop) :
    BotState → Owed → Prop
  | start (b : BotState) : Run fits keeps b (owedAtStart b)
  | ban {b owed} (h : Run fits keeps b owed) (chan mask : Str) (expires : Int)
      (flags reason : Option Str) (del : Bool)
      (hkeeps : ∀ x, botBanRecord b chan mask expires flags reason del = some x → keeps b x) :
      Run fits keeps (LocalWrites.botBan b chan mask expires flags reason del).2
        (owed.ban b (botBanRecord b chan mask expires flags reason del))
  | config {b owed} (h : Run fits keeps b owed) (hfits : linkReady b = true → fits b) :
      Run fits keeps (HubPush.pushConfig b) owed
  | channel {b owed} (h : Run fits keeps b owed) (ci : Nat) :
      Run fits keeps (pushChannel b ci) owed
  | other {b b' owed} (h : Run fits keeps b owed) (hbans : b'.cfgBans = b.cfgBans)
      (hlog : b.hubOut <+: b'.hubOut) : Run fits keeps b' owed

/-- **No ban is lost on its way**, while the pending ones fit and keep their places. -/
theorem Run.delivered {b : BotState} {owed : Owed} (h : Run PendingFits KeepsPending b owed) :
    Delivered b owed := by
  induction h with
  | start b => exact delivered_start b
  | ban _ chan mask expires flags reason del hkeeps ih =>
      exact ih.botBan chan mask expires flags reason del hkeeps
  | config _ hfits ih => exact ih.pushConfig hfits
  | channel _ ci ih =>
      obtain ⟨hbans, hlog⟩ := pushChannel_log _ ci
      exact ih.frame hbans hlog
  | other _ hbans hlog ih => exact ih.frame hbans hlog

/-- A bot on its own. -/
def alone : BotState := { now := 100, botUuid := str "u" }

/-- A ban from a flood, written while the link is down. -/
def floodBan : Option CfgBan := botBanRecord alone (str "*") (str "x!y@z") 200 none none false

def banned : BotState := (LocalWrites.botBan alone (str "*") (str "x!y@z") 200 none none false).2

def relinked : BotState :=
  { banned with hubs := [str "hub:1"], link := { sock := true, authenticated := true } }

/-- The full push after it delivers it. -/
theorem delivered_one :
    Delivered (HubPush.pushConfig relinked) ((owedAtStart alone).ban alone floodBan) := by
  have hban : Run PendingFits KeepsPending banned ((owedAtStart alone).ban alone floodBan) :=
    (Run.start alone).ban (str "*") (str "x!y@z") 200 none none false
      fun _ _ _ hfull => absurd hfull (by decide)
  have hlink : Run PendingFits KeepsPending relinked ((owedAtStart alone).ban alone floodBan) :=
    hban.other rfl List.prefix_rfl
  exact (hlink.config fun _ => ⟨by decide, by decide, by decide⟩).delivered

/-- A ban with a long mask and a long reason. -/
def longBan (name : Str) : CfgBan :=
  { chan := str "*", mask := name ++ str "!" ++ List.replicate 110 (byte 'x') ++ str "@y"
    setter := str "u", reason := List.replicate 120 (byte 'r'), expires := 200, ts := 100
    active := true, pushPending := true }

/-- More pending bans than a frame holds. -/
def crowded : BotState :=
  { hubs := [str "hub:1"], link := { sock := true, authenticated := true }, botUuid := str "u"
    cfgBans := (List.range 63).map (longBan <| decNat ·) ++ [longBan (str "z")] }

/-- The line of such a ban is that long besides its name, which alone can have a `z` in it. -/
theorem text_longBan {name : Str} (hname : name.length ≤ 9) :
    (text formatBLine (longBan name)).length = 254 + name.length ∧
      (byte 'z' ∈ text formatBLine (longBan name) ↔ byte 'z' ∈ name) := by
  obtain ⟨before, hbefore⟩ : ∃ before, before = str "B|" ++ str "*" ++ str "|" := ⟨_, rfl⟩
  obtain ⟨after, hafter⟩ : ∃ after, after = str "!" ++ List.replicate 110 (byte 'x') ++ str "@y" ++
    str "|" ++ dec 200 ++ str "|" ++ [] ++ str "|" ++ str "u" ++ str "|" ++
    List.replicate 120 (byte 'r') ++ str "|" ++ addDel true ++ str "|" ++ dec 100 ++ str "\n" :=
    ⟨_, rfl⟩
  have hparts : before.length + after.length = 254 ∧ byte 'z' ∉ before ∧ byte 'z' ∉ after := by
    rw [hbefore, hafter]
    decide +kernel
  have hline : formatBLine (longBan name) = some (before ++ (name ++ after)) := by
    have hroom : (before ++ (name ++ after)).length < bLineMax + 2 := by
      rw [List.length_append, List.length_append]
      have hmax : 263 < bLineMax + 2 := by decide
      omega
    have hsame : before ++ (name ++ after) = str "B|" ++ str "*" ++ str "|" ++ (name ++ str "!" ++
        List.replicate 110 (byte 'x') ++ str "@y") ++ str "|" ++ dec 200 ++ str "|" ++ [] ++
        str "|" ++ str "u" ++ str "|" ++ List.replicate 120 (byte 'r') ++ str "|" ++ addDel true ++
        str "|" ++ dec 100 ++ str "\n" := by
      rw [hbefore, hafter]
      simp only [List.append_assoc]
    rw [hsame] at hroom ⊢
    unfold formatBLine longBan
    dsimp only
    rw [if_pos hroom]
  rw [text, hline, Option.getD_some]
  constructor
  · rw [List.length_append, List.length_append]
    omega
  · rw [List.mem_append, List.mem_append, or_iff_right hparts.2.1, or_iff_left hparts.2.2]

/-- Lines of a frame leave the last of these bans out. -/
theorem sentBans_crowded {x : CfgBan} (h : x ∈ sentBans crowded) :
    ∃ n < 63, x = longBan (decNat n) := by
  have hnames : ∀ n < 63, (decNat n).length ≤ 9 := by decide
  have hsums : maxBuffer - 64 ≤
      ((List.range 63).map fun n => 254 + (decNat n).length).sum + (254 + (str "z").length) := by
    decide
  have hpushed : pushedBans crowded = (List.range 63).map (longBan <| decNat ·) ++
      [longBan (str "z")] :=
    List.filter_eq_self.mpr fun x hx => by
      obtain hx | hx := List.mem_append.mp hx
      · obtain ⟨n, -, rfl⟩ := List.mem_map.mp hx
        rfl
      · exact List.mem_singleton.mp hx ▸ rfl
  have hprefix := fitting_isPrefix formatBLine (maxBuffer - 64) (chansSize crowded)
    (pushedBans crowded)
  rw [hpushed, List.prefix_concat_iff] at hprefix
  obtain hall | hsome := hprefix
  · have hroom := @fitting_room _ formatBLine (maxBuffer - 64) (chansSize crowded)
      (pushedBans crowded) (by decide)
    have hsizes : (((List.range 63).map (longBan <| decNat ·)).map (text formatBLine)).map
        List.length = (List.range 63).map fun n => 254 + (decNat n).length := by
      rw [List.map_map, List.map_map, List.map_inj_left]
      intro n hn
      rw [Function.comp_apply, Function.comp_apply]
      exact (text_longBan (hnames n (List.mem_range.mp hn))).1
    rw [hpushed, hall] at hroom
    have hlast := (@text_longBan (str "z") (by decide)).1
    simp only [List.map_append, List.sum_append, hsizes, List.map_cons, List.map_nil, List.sum_cons,
      List.sum_nil, hlast] at hroom
    omega
  · rw [sentBans, hpushed] at h
    obtain ⟨n, hn, rfl⟩ := List.mem_map.mp (hsome.subset h)
    exact ⟨n, List.mem_range.mp hn, rfl⟩

/-- The lines that go in leave the last of them out. -/
theorem z_notMem_payload : byte 'z' ∉ generateConfigPayload crowded := by
  have hnames : ∀ n < 63, (decNat n).length ≤ 9 ∧ byte 'z' ∉ decNat n := by decide
  refine notMem_payload fun r hr => ?_
  rcases mem_configRecords hr with ⟨c, hc, -⟩ | ⟨x, hx, rfl⟩ | rfl | rfl | rfl
  · exact absurd hc List.not_mem_nil
  · obtain ⟨n, hn, rfl⟩ := sentBans_crowded hx
    exact fun hz => (hnames n hn).2 ((text_longBan (hnames n hn).1).2.mp hz)
  · decide
  · decide
  · decide

/-- A full push takes the mark off the last of them without sending it. -/
theorem not_delivered : ¬ ∀ (b : BotState) (owed : Owed),
    Run (fun _ => True) (fun _ _ => True) b owed → Delivered b owed := by
  intro hall
  have hfirst : longBan (str "0") ∈ sentBans crowded := by decide +kernel
  have hne : generateConfigPayload crowded ≠ [] :=
    (line_infix_payload (ban_mem_configRecords hfirst)).ne_nil (by decide +kernel)
  obtain ⟨hbans, hlog⟩ := pushConfig_of_sent (b := crowded) rfl hne
    (sendFrame_sent rfl rfl rfl (length_generateConfigPayload crowded))
  have howed : owedAtStart crowded (banKey (longBan (str "z"))) = some (longBan (str "z"), 0) := by
    decide
  have hrun : Run (fun _ => True) (fun _ _ => True) (HubPush.pushConfig crowded)
      (owedAtStart crowded) := .config (.start crowded) fun _ => trivial
  obtain ⟨-, -, hpending | ⟨f, hf, -, hline⟩⟩ := hall _ _ hrun _ _ _ howed
  · have hmem := List.mem_of_find?_eq_some hpending
    rw [hbans] at hmem
    obtain ⟨x, -, hx⟩ := List.mem_map.mp hmem
    exact Bool.noConfusion (congrArg CfgBan.pushPending hx)
  · rw [hlog] at hf
    obtain rfl := List.mem_singleton.mp (List.mem_of_mem_drop hf)
    have hz : byte 'z' ∈ text formatBLine (longBan (str "z")) := by decide +kernel
    dsimp only at hline
    exact z_notMem_payload (hline.mem hz)

end IrcBot.BanDelivery
