/-
# What the bot knows of a channel's modes (`chanlive.rs`, `irc_parser.rs`)

The bot learns the modes and the ban list of a channel from snapshots, which are 324 and a
list of 367 up to 368, and from the MODE lines between them.

* `Run` — one stay in a channel, as the server reports it.
* `follows_server` — after the first snapshot of either kind the bot knows what the server holds.
-/
import IrcBot.ServerModes
import IrcBot.ServerNumerics

namespace IrcBot.LiveTracking

open Cstr Chancfg Chanlive ServerModes ServerNumerics Lib.IrcMessage Lib.Mirror Spelling

/-! ### Lines -/

/-- What is tracked of each channel. -/
def views (b : BotState) : List (Str × UInt64 × Str × Int × List LiveBan × Bool) :=
  b.chans.map fun c => (c.name, live c)

/-- Nothing that is tracked differs. -/
structure SameLive (b b' : BotState) : Prop where
  views : views b' = views b
  isup : b'.isup = b.isup

theorem SameLive.trans {b b' b'' : BotState} (h : SameLive b b') (h' : SameLive b' b'') :
    SameLive b b'' :=
  ⟨h'.views.trans h.views, h'.isup.trans h.isup⟩

theorem sameLive_withChan (b : BotState) (ci : Nat) {f : Chan → Chan}
    (hf : ∀ c, (f c).name = c.name ∧ live (f c) = live c) : SameLive b (withChan b ci f) := by
  refine ⟨?_, rfl⟩
  unfold views withChan
  refine List.ext_getElem? fun i => ?_
  rw [List.getElem?_map, List.getElem?_map, List.getElem?_modify]
  cases b.chans[i]? with
  | none => rfl
  | some c =>
      rw [Option.map_eq_map, Option.map_some, Option.map_some, Option.map_some]
      split
      · rw [(hf c).1, (hf c).2]
      · rfl

theorem sameLive_ircPrintf (b : BotState) (line : Str) : SameLive b (ircPrintf b line) := by
  obtain ⟨out, heq, -⟩ := ircPrintf_eq b line
  rw [heq]
  exact ⟨rfl, rfl⟩

theorem sameLive_grantHeldOps (b : BotState) (ci : Nat) :
    SameLive b (HubRequests.grantHeldOps b ci) := by
  obtain ⟨out, names, heq, -⟩ := HubRequests.grantHeldOps_eq b ci
  have hheld : SameLive b (withChan b ci fun c => { c with opGrantHeld := [] }) :=
    sameLive_withChan b ci fun _ => ⟨rfl, rfl⟩
  rw [heq]
  exact ⟨hheld.views, rfl⟩

theorem SameLive.byName {b b' : BotState} (h : SameLive b b') (chan : Str) :
    (Chancfg.byName b' chan).map live = (Chancfg.byName b chan).map live := by
  have hnames : b'.chans.map Chan.name = b.chans.map Chan.name := by
    have hfst := congrArg (List.map Prod.fst) h.views
    unfold LiveTracking.views at hfst
    rw [List.map_map, List.map_map] at hfst
    exact hfst
  have hlive (i : Nat) : (b'.chans[i]?).map live = (b.chans[i]?).map live := by
    have hat := congrArg (fun l => (l[i]?).map Prod.snd) h.views
    unfold LiveTracking.views at hat
    rw [List.getElem?_map, List.getElem?_map, Option.map_map, Option.map_map] at hat
    exact hat
  unfold Chancfg.byName
  rw [find_of_names hnames]
  cases find b chan with
  | none => rfl
  | some ci => exact hlive ci

theorem live_withEntry (c : Chan) (nick : Str) (f : RosterEntry → RosterEntry) :
    (withEntry c nick f).name = c.name ∧ live (withEntry c nick f) = live c := by
  unfold withEntry
  split <;> exact ⟨rfl, rfl⟩

theorem sameLive_ownOp (b : BotState) (ci : Nat) (adding : Bool) :
    SameLive b (IrcParser.ownOp b ci adding) := by
  have hflag := sameLive_withChan b ci
    (fun c => live_withEntry { c with iAmOpped := adding } b.currentNick
      fun r => { r with isOp := adding })
  unfold IrcParser.ownOp
  dsimp only
  split
  · refine hflag.trans (SameLive.trans (sameLive_withChan _ ci ?_) (sameLive_grantHeldOps _ ci))
    exact fun _ => ⟨rfl, rfl⟩
  · split
    · exact hflag
    · refine hflag.trans (SameLive.trans (sameLive_withChan _ ci ?_)
        (SameLive.trans (sameLive_ircPrintf _ _) (sameLive_withChan _ ci ?_)))
      · exact fun _ => ⟨rfl, rfl⟩
      · exact fun _ => ⟨rfl, rfl⟩

/-- The rest of `handle_mode_change` leaves what is tracked alone. -/
theorem sameLive_handleModeLoop (ci : Nat) (managed : Bool) (b : BotState) (modes : Str)
    (args : List Str) : SameLive b (IrcParser.handleModeLoop ci managed b true modes args) := by
  have hstep (b : BotState) (z : (Bool × UInt8) × Option Str) :
      SameLive b (IrcParser.handleModeStep ci managed b z) := by
    unfold IrcParser.handleModeStep
    split
    · cases z.2 with
      | none => exact ⟨rfl, rfl⟩
      | some arg =>
          rw [Option.elim_some]
          unfold IrcParser.opChange
          split
          · exact sameLive_ownOp b ci z.1.1
          · exact sameLive_withChan b ci fun c => live_withEntry c arg _
    · split
      · refine sameLive_withChan b ci fun c => ?_
        unfold IrcParser.keyChange
        repeat' split
        all_goals exact ⟨rfl, rfl⟩
      · split
        · exact sameLive_withChan b ci fun _ => ⟨rfl, rfl⟩
        · exact ⟨rfl, rfl⟩
  rw [IrcParser.handleModeLoop_eq]
  generalize Lib.ArgWalk.assign IrcParser.loopTakes (signed true modes) args = zs
  induction zs generalizing b with
  | nil => exact ⟨rfl, rfl⟩
  | cons z zs ih => exact (hstep b z).trans (ih _)

section

variable {b : BotState} {chan : Str} {c : Chan} (hc : byName b chan = some c)
include hc

theorem exists_find : ∃ ci, find b chan = some ci ∧ b.chans[ci]? = some c := by
  unfold byName at hc
  cases hfind : find b chan with
  | none =>
      rw [hfind] at hc
      cases hc
  | some ci =>
      rw [hfind] at hc
      exact ⟨ci, rfl, hc⟩

/-- A MODE line, as it moves what is tracked. -/
theorem handleModeChange_live {args : Str} (hargs : args.length < 1024) (modes : Str) :
    (IrcParser.handleModeChange b chan modes args).isup = b.isup ∧
      ∃ c', byName (IrcParser.handleModeChange b chan modes args) chan = some c' ∧
        live c' = live (applyLoop b.isup b.now false c true modes (tokens args)) := by
  obtain ⟨ci, hfind, hat⟩ := exists_find hc
  have happly : byName (apply b ci modes args false) chan =
      some (applyLoop b.isup b.now false c true modes (tokens args)) :=
    byName_modify hfind hat
      (fun c => name_applyLoop b.isup b.now false modes c true (tokens args)) rfl
  unfold IrcParser.handleModeChange
  rw [hfind]
  dsimp only
  rw [if_pos hargs]
  have hsame := sameLive_handleModeLoop ci (keyManaged (apply b ci modes args false) ci)
    (apply b ci modes args false) modes (tokens args)
  have hlive := hsame.byName chan
  rw [happly, Option.map_some] at hlive
  exact ⟨hsame.isup, Option.map_eq_some_iff.mp hlive⟩

variable {me : Str} (hme : Word me) (hchan : Word chan)
include hme hchan

/-- A line about the channel that changes it. -/
theorem numeric_byName {command : Str} {more : List Str} {f : Chan → Chan}
    (hlen : (paramStr (me :: chan :: more)).length < 1024)
    (hon : ∀ ci, numericOn b ci command (paramStr more) = withChan b ci f)
    (hf : ∀ c, (f c).name = c.name) :
    (numeric b command (paramStr (me :: chan :: more))).isup = b.isup ∧
      byName (numeric b command (paramStr (me :: chan :: more))) chan = some (f c) := by
  obtain ⟨ci, hfind, hat⟩ := exists_find hc
  have hnumeric : numeric b command (paramStr (me :: chan :: more)) = withChan b ci f := by
    unfold numeric
    rw [if_neg (Nat.not_le.mpr hlen), tokNext_paramStr hme]
    dsimp only
    rw [tokNext_paramStr hchan]
    dsimp only
    rw [Option.bind_some, hfind]
    exact hon ci
  rw [hnumeric]
  exact ⟨rfl, byName_modify hfind hat hf rfl⟩

end

/-- A channel that a 324 is read into. -/
def blank (c : Chan) : Chan :=
  { c with liveFlags := 0, liveKey := [], liveLimit := 0, liveKnown := true }

theorem modesAgree_blank (is : Isupport) (c : Chan) : ModesAgree is {} (blank c) := by
  have hnone (m : UInt8) : liveHas (blank c) m = false := by
    unfold liveHas blank
    rw [UInt64.zero_and]
    exact Bool.and_false _
  exact ⟨fun m _ => hnone m, hnone _, rfl, hnone _, rfl⟩

theorem numericOn_324 (b : BotState) (ci : Nat) {modes : Str} (hmodes : Word modes)
    (args : List Str) : numericOn b ci (str "324") (paramStr (modes :: args)) =
      withChan b ci fun c => { applyLoop b.isup b.now true (blank c) true modes
        (tokens (paramStr args)) with enfDirty := true } := by
  have hmerge (b : BotState) (f g : Chan → Chan) :
      withChan (withChan b ci f) ci g = withChan b ci fun c => g (f c) := by
    unfold withChan
    dsimp only
    rw [List.modify_modify_eq]
    rfl
  unfold numericOn
  rw [if_pos rfl, tokNext_paramStr hmodes]
  exact hmerge b _ _

theorem numericOn_367 (b : BotState) (ci : Nat) {mask : Str} {more : List Str} (hmask : Word mask)
    (hmore : ∀ w ∈ more, Word w) : numericOn b ci (str "367") (paramStr (mask :: more)) =
      withChan b ci (banListEntry b.isup mask (more.getD 0 []) ((more[1]?.map parseTs).getD 0)) := by
  have hne : str "367" ≠ str "324" ∧ str "367" ≠ str "329" := by decide
  unfold numericOn
  rw [if_neg hne.1, if_neg hne.2, if_pos rfl,
    tokens_paramStr (List.forall_mem_cons.mpr ⟨hmask, hmore⟩)]

theorem name_banListEntry (is : Isupport) (mask setter : Str) (when : Int) (c : Chan) :
    (banListEntry is mask setter when c).name = c.name := by
  unfold banListEntry banAdd
  repeat' split
  all_goals rfl

theorem numericOn_368 (b : BotState) (ci : Nat) (rest : Str) : numericOn b ci (str "368") rest =
    withChan b ci fun c => { banListEnd c with enfDirty := true } := by
  have hne : str "368" ≠ str "324" ∧ str "368" ≠ str "329" ∧ str "368" ≠ str "367" := by decide
  unfold numericOn
  rw [if_neg hne.1, if_neg hne.2.1, if_neg hne.2.2, if_pos rfl]

/-! ### A stay in a channel -/

/-- What has been reported: whether there was a 324, whether there was a whole ban list, and
the masks of a list that is being reported. -/
structure Phase where
  known : Bool := false
  listed : Bool := false
  sent : List Str := []

/-- One stay in a channel, from `live_reset` on: the bot, the server, and what was reported.
Between the lines the bot may do whatever leaves what it tracks of the channel alone. No line
of IRC is as long as the 1024 bytes past which the bot skips it. -/
inductive Run (is : Isupport) (chan : Str) : BotState → Server → Phase → Prop
  | start {b : BotState} {s : Server} {c : Chan} (hisup : b.isup = is)
      (hc : byName b chan = some c) (hreset : live c = live (liveReset c)) (hs : s.Ok is) :
      Run is chan b s {}
  | mode {b s p} (h : Run is chan b s p) (hsent : p.sent = []) {modes : Str} {args : List Str}
      {xs : List Change} (hspells : Spells modes args xs) (hgoes : Goes is s xs)
      (hlen : (paramStr args).length < 1024) :
      Run is chan (IrcParser.handleModeChange b chan modes (paramStr args))
        (xs.foldl (Server.change is) s) p
  | modes {b s p} (h : Run is chan b s p) {me modes : Str} {args : List Str} {xs : List Change}
      (hme : Word me) (hmodes : Word modes) (hspells : Spells modes args xs)
      (hreports : Reports is s xs)
      (hlen : (paramStr (me :: chan :: modes :: args)).length < 1024) :
      Run is chan (numeric b (str "324") (paramStr (me :: chan :: modes :: args))) s
        { p with known := true }
  | entry {b s p} (h : Run is chan b s p) {me mask : Str} {more : List Str} (hme : Word me)
      (hmore : ∀ w ∈ more, Word w) (hmask : mask ∈ s.bans) (hnew : mask ∉ p.sent)
      (hlen : (paramStr (me :: chan :: mask :: more)).length < 1024) :
      Run is chan (numeric b (str "367") (paramStr (me :: chan :: mask :: more))) s
        { p with sent := p.sent ++ [mask] }
  | listEnd {b s p} (h : Run is chan b s p) {me : Str} {more : List Str} (hme : Word me)
      (hall : ∀ mask ∈ s.bans, mask ∈ p.sent)
      (hlen : (paramStr (me :: chan :: more)).length < 1024) :
      Run is chan (numeric b (str "368") (paramStr (me :: chan :: more))) s
        { p with sent := [], listed := true }
  | other {b b' s p} (h : Run is chan b s p) (hisup : b'.isup = b.isup)
      (hlive : (byName b' chan).map live = (byName b chan).map live) : Run is chan b' s p

/-- What the bot holds of the channel, by what was reported. While a list is being reported
the masks so far are all there is of it. -/
structure Follows (is : Isupport) (s : Server) (p : Phase) (c : Chan) : Prop where
  modes : p.known = true → ModesAgree is s c
  opened : c.banListOpen = !p.sent.isEmpty
  masks : p.sent ≠ [] → c.bans.map (·.mask) = p.sent
  sent : p.sent ⊆ s.bans
  once : p.sent.Nodup
  bans : p.listed = true → p.sent = [] → BansAgree s c

section

variable {is : Isupport} {s : Server} {p : Phase} {c : Chan}

theorem Follows.of_live (h : Follows is s p c) {c' : Chan} (hlive : live c' = live c) :
    Follows is s p c' := by
  obtain ⟨-, -, -, hbans, hopen⟩ := live_eq hlive
  constructor
  · exact fun hknown => (h.modes hknown).of_live hlive
  · rw [hopen]
    exact h.opened
  · rw [hbans]
    exact h.masks
  · exact h.sent
  · exact h.once
  · intro hlisted hsent
    unfold BansAgree
    rw [hbans]
    exact h.bans hlisted hsent

theorem open_foldl (is : Isupport) (now : Int) (from324 : Bool) (xs : List Change) (c : Chan) :
    (xs.foldl (fun c x => applyLetter is now from324 c x.adding x.letter x.arg) c).banListOpen =
      c.banListOpen := by
  induction xs generalizing c with
  | nil => rfl
  | cons x xs ih => exact (ih _).trans (open_applyLetter is now from324 c x.adding x.letter x.arg)

theorem bans_foldl (is : Isupport) (now : Int) (xs : List Change) (c : Chan) :
    (xs.foldl (fun c x => applyLetter is now true c x.adding x.letter x.arg) c).bans = c.bans := by
  induction xs generalizing c with
  | nil => rfl
  | cons x xs ih => exact (ih _).trans (bans_applyLetter is now c x.adding (.inl rfl) x.arg)

/-- A MODE line. -/
theorem Follows.mode (hclasses : Classes is) (h : Follows is s p c) (hsent : p.sent = [])
    {xs : List Change} (hgoes : Goes is s xs) (now : Int) :
    Follows is (xs.foldl (Server.change is) s) p
      (xs.foldl (fun c x => applyLetter is now false c x.adding x.letter x.arg) c) := by
  constructor
  · exact fun hknown => modesAgree_foldl hclasses hgoes.ok now false (h.modes hknown)
  · rw [open_foldl]
    exact h.opened
  · exact fun hne => absurd hsent hne
  · rw [hsent]
    exact List.nil_subset _
  · exact h.once
  · exact fun hlisted _ => bansAgree_foldl hclasses now hgoes (h.bans hlisted hsent)

/-- A 324. -/
theorem Follows.modes_known (hclasses : Classes is) (h : Follows is s p c) {xs : List Change}
    (hreports : Reports is s xs) (now : Int) :
    Follows is s { p with known := true }
      (xs.foldl (fun c x => applyLetter is now true c x.adding x.letter x.arg) (blank c)) := by
  constructor
  · exact fun _ => (modesAgree_foldl hclasses hreports.ok now true
      (modesAgree_blank is c)).of_same hreports.same
  · rw [open_foldl]
    exact h.opened
  · rw [bans_foldl]
    exact h.masks
  · exact h.sent
  · exact h.once
  · intro hlisted hsent
    unfold BansAgree
    rw [bans_foldl]
    exact h.bans hlisted hsent

/-- A 367. The masks that were sent are some of the server's, so there is room for one more. -/
theorem Follows.entry (h : Follows is s p c) (hs : s.Ok is) {mask : Str} (hmask : mask ∈ s.bans)
    (hnew : mask ∉ p.sent) (setter : Str) (when : Int) :
    Follows is s { p with sent := p.sent ++ [mask] } (banListEntry is mask setter when c) := by
  obtain ⟨c₀, hc₀⟩ : ∃ c₀, c₀ = if c.banListOpen then c else { c with bans := [], banListOpen := true } :=
    ⟨_, rfl⟩
  have hopen : c₀.banListOpen = true := by
    rw [hc₀]
    split
    · assumption
    · rfl
  have hmasks : c₀.bans.map (·.mask) = p.sent := by
    rw [hc₀, h.opened]
    cases hsent : p.sent with
    | nil => rfl
    | cons m ms =>
        rw [← hsent]
        refine Eq.trans ?_ (h.masks (by rw [hsent]; exact List.cons_ne_nil m ms))
        rw [hsent]
        rfl
  have hsub : p.sent ++ [mask] ⊆ s.bans :=
    List.append_subset.mpr ⟨h.sent, List.cons_subset.mpr ⟨hmask, List.nil_subset _⟩⟩
  have honce : (p.sent ++ [mask]).Nodup :=
    List.nodup_append_comm.mp (List.nodup_cons.mpr ⟨hnew, h.once⟩)
  have hadd : banAdd is c₀ mask setter when =
      { c₀ with bans := c₀.bans ++ [⟨mask, trunc setter (maxMemberNick + 32), when⟩] } := by
    obtain ⟨hword, hlen⟩ := hs.mask mask hmask
    have hshort : ¬ (mask.isEmpty || decide (maxMaskLen ≤ mask.length)) = true := by
      simp [hword.ne_nil, Nat.not_le.mpr hlen]
    have hother : ¬ (c₀.bans.any fun x => eqIc x.mask mask) = true := by
      rw [any_eqIc, decide_eq_true_eq]
      intro hmem
      obtain ⟨x, hx, hfold⟩ := List.mem_map.mp hmem
      have hin : x.mask ∈ p.sent := hmasks ▸ List.mem_map_of_mem hx
      exact hnew (List.inj_on_of_nodup_map hs.distinct (h.sent hin) hmask hfold ▸ hin)
    have hroom : ¬ is.banCap ≤ c₀.bans.length := by
      have hle := (List.subperm_of_subset honce hsub).length_le
      have hcap := hs.room
      rw [← hmasks, List.length_append, List.length_map, List.length_singleton] at hle
      omega
    unfold banAdd
    rw [if_neg hshort, if_neg hother, if_neg hroom]
  unfold banListEntry
  rw [← hc₀, hadd]
  constructor
  · intro hknown
    refine (h.modes hknown).congr ?_ ?_ ?_
    all_goals
      rw [hc₀]
      split <;> rfl
  · dsimp only
    rw [hopen, List.isEmpty_eq_false_iff.mpr (List.append_ne_nil_of_right_ne_nil _ (by simp))]
    rfl
  · intro _
    rw [List.map_append, hmasks]
    rfl
  · exact hsub
  · exact honce
  · exact fun _ hnil => absurd hnil (List.append_ne_nil_of_right_ne_nil _ (by simp))

/-- A 368, once all masks were sent. -/
theorem Follows.listEnd (h : Follows is s p c) (hs : s.Ok is)
    (hall : ∀ mask ∈ s.bans, mask ∈ p.sent) :
    Follows is s { p with sent := [], listed := true } (banListEnd c) := by
  have hbans : BansAgree s (banListEnd c) := by
    have hperm : p.sent.Perm s.bans :=
      (List.perm_ext_iff_of_nodup h.once (List.Nodup.of_map _ hs.distinct)).mpr
        fun m => ⟨fun hm => h.sent hm, hall m⟩
    have hmasks : (banListEnd c).bans.map (·.mask) = p.sent := by
      unfold banListEnd
      rw [h.opened]
      cases hsent : p.sent with
      | nil => rfl
      | cons m ms =>
          rw [← hsent]
          refine Eq.trans ?_ (h.masks (by rw [hsent]; exact List.cons_ne_nil m ms))
          rw [hsent]
          rfl
    refine ⟨?_, hs.distinct⟩
    have hkeys : (banListEnd c).bans.map (fold ·.mask) = p.sent.map fold := by
      rw [← hmasks, List.map_map]
      rfl
    rw [hkeys]
    exact hperm.map fold
  constructor
  · exact fun hknown => (h.modes hknown).congr rfl rfl rfl
  · rfl
  · exact fun hne => absurd rfl hne
  · exact List.nil_subset _
  · exact List.nodup_nil
  · exact fun _ _ => hbans

end

theorem Run.follows {is : Isupport} (hclasses : Classes is) {chan : Str} (hchan : Word chan)
    {b : BotState} {s : Server} {p : Phase} (h : Run is chan b s p) :
    b.isup = is ∧ s.Ok is ∧ ∃ c, byName b chan = some c ∧ Follows is s p c := by
  induction h with
  | @start b s c hisup hc hreset hs =>
      obtain ⟨-, -, -, -, hopen⟩ := live_eq hreset
      refine ⟨hisup, hs, c, hc, ?_, hopen, ?_, List.nil_subset _, List.nodup_nil, ?_⟩
      · exact fun hknown => Bool.noConfusion hknown
      · exact fun hne => absurd rfl hne
      · exact fun hlisted => Bool.noConfusion hlisted
  | @mode b s p _ hsent modes args xs hspells hgoes hlen ih =>
      obtain ⟨rfl, hs, c, hc, hfollows⟩ := ih
      obtain ⟨hisup, c', hc', hlive⟩ := handleModeChange_live hc hlen modes
      rw [applyLoop_spells hclasses hspells hgoes.ok] at hlive
      exact ⟨hisup, hs.foldl hclasses hgoes, c', hc',
        (hfollows.mode hclasses hsent hgoes b.now).of_live hlive⟩
  | @modes b s p _ me modes args xs hme hmodes hspells hreports hlen ih =>
      obtain ⟨rfl, hs, c, hc, hfollows⟩ := ih
      obtain ⟨hisup, hc'⟩ := numeric_byName hc hme hchan hlen
        (fun ci => numericOn_324 b ci hmodes args)
        (fun c => name_applyLoop b.isup b.now true modes (blank c) true (tokens (paramStr args)))
      refine ⟨hisup, hs, _, hc', ?_⟩
      rw [applyLoop_spells hclasses hspells hreports.ok]
      exact (hfollows.modes_known hclasses hreports b.now).of_live rfl
  | @entry b s p _ me mask more hme hmore hmask hnew hlen ih =>
      obtain ⟨rfl, hs, c, hc, hfollows⟩ := ih
      obtain ⟨hisup, hc'⟩ := numeric_byName hc hme hchan hlen
        (fun ci => numericOn_367 b ci (hs.mask mask hmask).1 hmore)
        (name_banListEntry b.isup mask (more.getD 0 []) ((more[1]?.map parseTs).getD 0))
      exact ⟨hisup, hs, _, hc', hfollows.entry hs hmask hnew _ _⟩
  | @listEnd b s p _ me more hme hall hlen ih =>
      obtain ⟨rfl, hs, c, hc, hfollows⟩ := ih
      obtain ⟨hisup, hc'⟩ := numeric_byName hc hme hchan hlen
        (fun ci => numericOn_368 b ci (paramStr more)) (fun _ => rfl)
      exact ⟨hisup, hs, _, hc', (hfollows.listEnd hs hall).of_live rfl⟩
  | @other b b' s p _ hisup hlive ih =>
      obtain ⟨rfl, hs, c, hc, hfollows⟩ := ih
      rw [hc, Option.map_some] at hlive
      obtain ⟨c', hc', hsame⟩ := Option.map_eq_some_iff.mp hlive
      exact ⟨hisup, hs, c', hc', hfollows.of_live hsame⟩

/-- **The bot knows what the server holds**: the modes from the first 324 on, the ban list from
the first whole one on, but while another is being reported. -/
theorem follows_server {is : Isupport} (hclasses : Classes is) {chan : Str} (hchan : Word chan)
    {b : BotState} {s : Server} {p : Phase} (h : Run is chan b s p) :
    ∃ c, byName b chan = some c ∧ (p.known = true → ModesAgree is s c) ∧
      (p.listed = true → p.sent = [] →
        {k | ∃ x ∈ c.bans, fold x.mask = k} = {k | ∃ mask ∈ s.bans, fold mask = k}) := by
  obtain ⟨-, -, c, hc, hfollows⟩ := h.follows hclasses hchan
  refine ⟨c, hc, hfollows.modes, fun hlisted hsent => ?_⟩
  ext k
  have hkeys := (hfollows.bans hlisted hsent).mem_iff k
  rw [List.mem_map, List.mem_map] at hkeys
  exact hkeys

/-- The classes of RFC 1459, which hold until a 005 says otherwise. -/
theorem classes_default : Classes {} :=
  ⟨by decide, by decide, by decide, by decide, by decide +kernel⟩

/-- The bot has just joined a channel that has a key. -/
def joined : BotState := { chans := [{ name := str "#c", status := .inside }] }

def locked : Server :=
  { flags := fun m => m = byte 'n', key := some (str "Key"), bans := [str "a!*@*"] }

/-- A ban is set and one goes after all was reported. -/
def afterwards : List Change :=
  [⟨true, byte 'b', some (str "b!*@*")⟩, ⟨true, byte 'v', some (str "eve")⟩,
    ⟨false, byte 'b', some (str "A!*@*")⟩]

theorem afterwards_goes : Goes {} locked afterwards := by
  have hok {x : Change} {a : Str} (hx : x.letter = byte 'b' ∨ x.letter = byte 'v')
      (harg : x.arg = some a) (hword : Word a) (hlen : a.length < maxMaskLen) : x.Ok {} := by
    refine ⟨?_, fun _ => ⟨a, harg, hword, fun _ => hlen, ?_, ?_⟩, fun hbare => absurd ?_ hbare⟩
    · rcases hx with hx | hx <;> exact hx ▸ by decide
    · rintro hk
      rcases hx with hx | hx <;> exact absurd (hx.symm.trans hk) (by decide)
    · rintro hl
      rcases hx with hx | hx <;> exact absurd (hx.symm.trans hl) (by decide)
    · rcases hx with hx | hx
      · exact .inr (.inl (hx ▸ by decide))
      · exact .inl (hx ▸ by decide)
  exact ⟨hok (.inl rfl) rfl ⟨by decide, by decide⟩ (by decide), by decide,
    hok (.inr rfl) rfl ⟨by decide, by decide⟩ (by decide), by decide,
    hok (.inl rfl) rfl ⟨by decide, by decide⟩ (by decide), by decide, trivial⟩

def botName : Str := str "bot"

/-- All of it was reported. -/
def reported : BotState :=
  numeric (numeric (numeric joined (str "324") (paramStr [botName, str "#c", str "+nk", str "Key"]))
    (str "367") (paramStr [botName, str "#c", str "a!*@*", str "eve", str "100"]))
    (str "368") (paramStr [botName, str "#c", str ":End"])

theorem reported_run : Run {} (str "#c") reported locked { known := true, listed := true } := by
  have hbot : Word botName := ⟨by decide, by decide⟩
  have hstart : Run {} (str "#c") joined locked {} :=
    .start rfl (c := { name := str "#c", status := .inside }) rfl rfl
      ⟨by decide, List.forall_mem_singleton.mpr ⟨⟨by decide, by decide⟩, by decide⟩, by decide⟩
  have hreports : Reports {} locked [⟨true, byte 'n', none⟩,
    ⟨true, byte 'k', some (str "Key")⟩] := by
    refine ⟨List.forall_mem_cons.mpr ⟨?_, List.forall_mem_singleton.mpr ?_⟩, by decide +kernel, rfl, rfl⟩
    · refine ⟨by decide, fun htakes => absurd htakes ?_, fun _ => rfl⟩
      unfold Change.Takes
      decide
    · refine ⟨by decide, fun _ => ⟨str "Key", rfl, ⟨by decide, by decide⟩, ?_, ?_, ?_⟩, ?_⟩
      · exact fun hb => absurd hb (by decide)
      · exact fun _ _ => by decide
      · exact fun hl => absurd hl (by decide)
      · exact fun hbare => absurd (.inr (.inr (.inl (by decide)))) hbare
  have hmodes : Run {} (str "#c") (numeric joined (str "324")
      (paramStr [botName, str "#c", str "+nk", str "Key"])) locked { known := true } :=
    hstart.modes hbot ⟨by decide, by decide⟩ ⟨by decide, by decide⟩ hreports (by decide)
  have hmore : ∀ w ∈ [str "eve", str "100"], Word w :=
    List.forall_mem_cons.mpr ⟨⟨by decide, by decide⟩,
      List.forall_mem_singleton.mpr ⟨by decide, by decide⟩⟩
  have hentry : Run {} (str "#c") (numeric (numeric joined (str "324")
      (paramStr [botName, str "#c", str "+nk", str "Key"])) (str "367")
      (paramStr [botName, str "#c", str "a!*@*", str "eve", str "100"])) locked
      { known := true, sent := [str "a!*@*"] } :=
    hmodes.entry hbot hmore List.mem_cons_self List.not_mem_nil (by decide)
  exact hentry.listEnd hbot (List.forall_mem_singleton.mpr List.mem_cons_self) (by decide)

theorem follows_server_reported :
    ∃ c, byName (IrcParser.handleModeChange reported (str "#c") (str "+bv-b")
        (paramStr [str "b!*@*", str "eve", str "A!*@*"])) (str "#c") = some c ∧
      ModesAgree {} (afterwards.foldl (Server.change {}) locked) c ∧
        {k | ∃ x ∈ c.bans, fold x.mask = k} =
          {k | ∃ mask ∈ (afterwards.foldl (Server.change {}) locked).bans, fold mask = k} := by
  have hspells : Spells (str "+bv-b") [str "b!*@*", str "eve", str "A!*@*"] afterwards :=
    ⟨by decide, by decide⟩
  obtain ⟨c, hc, hmodes, hbans⟩ := follows_server classes_default ⟨by decide, by decide⟩
    (reported_run.mode rfl hspells afterwards_goes (by decide))
  exact ⟨c, hc, hmodes rfl, hbans rfl rfl⟩

end IrcBot.LiveTracking
