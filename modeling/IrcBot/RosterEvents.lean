/-
# The members over a run (`chanenf.rs`)

Arrivals, departures, new nicks and WHO replies keep the rosters of the channels.

* `changes_run` — an event changes the entries of the nicks that it names, in the channel that it
  names.
* `roster_tracked` — in every run the nicks of a roster differ, and each hostmask is that of its
  member.
-/
import IrcBot.ModeEvents
import IrcBot.ServerNumerics

namespace IrcBot.RosterEvents

open Cstr Chancfg Chanenf Enforce Jobs Roster ModeEvents

/-! ### Rosters -/

/-- A nick up to case. -/
def key (e : RosterEntry) : Str := e.nick.map lower

/-- The hostmask is not known, or is that of the nick, and fits. -/
structure MaskOk (e : RosterEntry) : Prop where
  own : e.hostmask = [] ∨ e.nick ++ str "!" <+: e.hostmask
  short : e.hostmask.length < maxMaskLen

/-- The nicks differ, up to case, and the hostmasks are theirs. -/
structure Tracked (roster : List RosterEntry) : Prop where
  distinct : (roster.map key).Nodup
  masks : ∀ e ∈ roster, MaskOk e

/-- The entries of other nicks. -/
def others (names : List Str) (roster : List RosterEntry) : List RosterEntry :=
  roster.filter fun e => !names.any (eqIc e.nick)

/-- The members of the channels, less the cached verdicts. -/
def rosters (b : BotState) : List (List RosterEntry) := b.chans.map fun c => c.roster.map face

/-- Who is in the channels is part of the core. -/
theorem rosters_of_core {b b' : BotState} (h : core b' = core b) : rosters b' = rosters b := by
  have hview : ∀ s : BotState, rosters (core s) = rosters s := by
    intro s
    unfold rosters core
    dsimp only
    rw [List.map_map]
    refine List.map_congr_left fun c _ => ?_
    simp [lessCaches, face]
  rw [← hview, h, hview]

/-- The cached verdicts are none of what is tracked. -/
theorem tracked_face {roster : List RosterEntry} : Tracked (roster.map face) ↔ Tracked roster := by
  have hkeys : (roster.map face).map key = roster.map key := by
    rw [List.map_map]
    rfl
  constructor
  · intro h
    refine ⟨hkeys ▸ h.distinct, ?_⟩
    intro e he
    obtain ⟨hown, hshort⟩ := h.masks _ (List.mem_map_of_mem he)
    exact ⟨hown, hshort⟩
  · intro h
    refine ⟨hkeys.symm ▸ h.distinct, ?_⟩
    intro e he
    obtain ⟨e, hmem, rfl⟩ := List.mem_map.mp he
    obtain ⟨hown, hshort⟩ := h.masks e hmem
    exact ⟨hown, hshort⟩

theorem others_face (names : List Str) (roster : List RosterEntry) :
    others names (roster.map face) = (others names roster).map face := by
  unfold others
  rw [List.filter_map]
  rfl

/-! ### One entry -/

/-- A nick that is not found is the key of no entry. -/
theorem key_notMem_of_rfind {c : Chan} {nick : Str} (h : rfind c nick = none) :
    nick.map lower ∉ c.roster.map key := by
  intro hmem
  obtain ⟨e, he, heq⟩ := List.mem_map.mp hmem
  have hnot := List.findIdx?_eq_none_iff.mp h e he
  rw [eqIc_iff.mpr heq] at hnot
  cases hnot

/-- The entry in place `i` gives way to others that are left out too. -/
theorem filter_replace {α : Type} {p : α → Bool} {l : List α} {i : Nat} {a : α} {mid : List α}
    (ha : l[i]? = some a) (hp : p a = false) (hmid : ∀ x ∈ mid, p x = false) :
    (l.take i ++ mid ++ l.drop (i + 1)).filter p = l.filter p := by
  obtain ⟨hlt, rfl⟩ := List.getElem?_eq_some_iff.mp ha
  have hnone : mid.filter p = [] := by
    rw [List.filter_eq_nil_iff]
    intro x hx
    rw [hmid x hx]
    exact Bool.false_ne_true
  conv_rhs =>
    rw [← List.take_append_drop i l, List.drop_eq_getElem_cons hlt, List.filter_append,
      List.filter_cons_of_neg (Bool.eq_false_iff.mp hp)]
  rw [List.filter_append, List.filter_append, hnone, List.append_nil]

theorem named_of_eqIc {names : List Str} {nick : Str} (hnick : nick ∈ names) {e : RosterEntry}
    (he : eqIc e.nick nick = true) : (!names.any (eqIc e.nick)) = false := by
  rw [Bool.not_eq_false', List.any_eq_true]
  exact ⟨nick, hnick, he⟩

/-- An entry of one of the nicks is written: those of others are the same. -/
theorem others_set {c : Chan} {names : List Str} {nick : Str} {i : Nat} {e : RosterEntry}
    (hi : rfind c nick = some i) (hnick : nick ∈ names) (he : ∃ n ∈ names, eqIc e.nick n = true) :
    others names (c.roster.set i e) = others names c.roster := by
  obtain ⟨old, hold, heq⟩ := rfind_eq_some hi
  obtain ⟨n, hn, hen⟩ := he
  have hlt := (List.getElem?_eq_some_iff.mp hold).1
  have hset : c.roster.set i e = c.roster.take i ++ [e] ++ c.roster.drop (i + 1) := by
    rw [List.set_eq_take_append_cons_drop, if_pos hlt, List.append_assoc]
    rfl
  rw [others, hset]
  refine filter_replace hold (named_of_eqIc hnick heq) ?_
  intro x hx
  rw [List.mem_singleton.mp hx]
  exact named_of_eqIc hn hen

/-- An entry is removed. -/
theorem others_rremove (c : Chan) {names : List Str} {nick : Str} (hnick : nick ∈ names) :
    others names (rremove c nick).roster = others names c.roster := by
  unfold rremove
  split
  · rename_i i hi
    obtain ⟨old, hold, heq⟩ := rfind_eq_some hi
    have herase : c.roster.eraseIdx i = c.roster.take i ++ [] ++ c.roster.drop (i + 1) := by
      rw [List.append_nil, List.eraseIdx_eq_take_drop_succ]
    dsimp only
    rw [others, herase]
    refine filter_replace hold (named_of_eqIc hnick heq) ?_
    intro x hx
    cases hx
  · rfl

/-- An entry is written or added. -/
theorem others_rosterSet (c : Chan) (nick hostmask : Str) (op halfop voice : Bool) :
    others [nick] (rosterSet c nick hostmask op halfop voice).roster = others [nick] c.roster := by
  unfold rosterSet
  dsimp only
  split
  · rfl
  · split
    · rename_i i hi
      exact others_set hi (List.mem_singleton_self nick) ⟨nick, List.mem_singleton_self nick,
        eqIc_refl nick⟩
    · split
      · rfl
      · simp [others]

/-- An entry takes another nick, and the one that was there of that nick goes. -/
theorem others_renameMember (c : Chan) (old new mask : Str) :
    others [old, new] (renameMember c old new mask).roster = others [old, new] c.roster := by
  have hstale : others [old, new] (if eqIc old new then c else rremove c new).roster =
      others [old, new] c.roster := by
    split
    · rfl
    · exact others_rremove c (by simp)
  unfold renameMember
  dsimp only
  rw [← hstale]
  generalize (if eqIc old new then c else rremove c new) = c'
  rcases withEntry_roster c' old fun r => { r with nick := new, hostmask := mask, authGen := 0 } with
    ⟨i, e, hi, -, heq⟩ | ⟨-, heq⟩
  · rw [heq]
    exact others_set hi (by simp) ⟨new, by simp, eqIc_refl new⟩
  · rw [heq]

/-! ### Well-kept rosters -/

theorem tracked_nil : Tracked [] := ⟨List.nodup_nil, fun _ h => absurd h List.not_mem_nil⟩

/-- To remove keeps a roster well tracked. -/
theorem Tracked.rremove {c : Chan} (h : Tracked c.roster) (nick : Str) :
    Tracked (rremove c nick).roster := by
  unfold Roster.rremove
  split
  · refine ⟨?_, fun e he => h.masks e (List.mem_of_mem_eraseIdx he)⟩
    exact h.distinct.sublist ((List.eraseIdx_sublist _ _).map key)
  · exact h

/-- The entry of a nick is written over under the same nick, or under one that nobody has. -/
theorem Tracked.set {c : Chan} (h : Tracked c.roster) {nick : Str} {i : Nat} {e : RosterEntry}
    (hi : rfind c nick = some i) (hkey : key e = nick.map lower ∨ key e ∉ c.roster.map key)
    (he : MaskOk e) : Tracked (c.roster.set i e) := by
  refine ⟨?_, ?_⟩
  · rw [List.map_set]
    rcases hkey with hkey | hkey
    · obtain ⟨old, hold, heq⟩ := rfind_eq_some hi
      have hsame : (c.roster.map key)[i]? = some (key e) := by
        rw [List.getElem?_map, hold, Option.map_some, hkey]
        exact congrArg some (eqIc_iff.mp heq)
      obtain ⟨hlt, hget⟩ := List.getElem?_eq_some_iff.mp hsame
      rw [← hget, List.set_getElem_self]
      exact h.distinct
    · exact h.distinct.set hkey
  · intro x hx
    rcases List.mem_or_eq_of_mem_set hx with hx | rfl
    · exact h.masks x hx
    · exact he

/-- So does to write an entry whose hostmask is the nick's. -/
theorem Tracked.rosterSet {c : Chan} (h : Tracked c.roster) {nick hostmask : Str}
    (op halfop voice : Bool) (hown : nick ++ str "!" <+: hostmask) :
    Tracked (rosterSet c nick hostmask op halfop voice).roster := by
  unfold Roster.rosterSet
  dsimp only
  split
  · exact h
  · rename_i hfits
    simp only [Bool.or_eq_true, decide_eq_true_eq, not_or, not_le] at hfits
    have hmask (hf : RosterEntry) (hnick : hf.nick = nick) (hhost : hf.hostmask = hostmask) : MaskOk hf :=
      ⟨.inr (hnick ▸ hhost ▸ hown), hhost ▸ hfits.2⟩
    split
    · rename_i i hi
      exact h.set hi (.inl rfl) (hmask _ rfl rfl)
    · rename_i hnone
      split
      · exact h
      · refine ⟨?_, ?_⟩
        · dsimp only
          rw [List.map_append, List.nodup_append]
          refine ⟨h.distinct, List.nodup_singleton _, ?_⟩
          rintro x hx y hy rfl
          rw [List.map_singleton, List.mem_singleton] at hy
          rw [hy] at hx
          exact key_notMem_of_rfind hnone hx
        · intro e he
          rcases List.mem_append.mp he with he | he
          · exact h.masks e he
          · rw [List.mem_singleton.mp he]
            exact hmask _ rfl rfl

/-- Nobody has a nick whose entry has been removed. -/
theorem Tracked.key_notMem_rremove {c : Chan} (h : Tracked c.roster) (nick : Str) :
    nick.map lower ∉ (Roster.rremove c nick).roster.map key := by
  unfold Roster.rremove
  cases hi : rfind c nick with
  | none => exact key_notMem_of_rfind hi
  | some i =>
      dsimp only
      intro hmem
      obtain ⟨e, he, heq⟩ := rfind_eq_some hi
      rw [← List.eraseIdx_map, List.mem_eraseIdx_iff_getElem?] at hmem
      obtain ⟨j, hne, hj⟩ := hmem
      have hi' : (c.roster.map key)[i]? = some (nick.map lower) := by
        rw [List.getElem?_map, he, Option.map_some]
        exact congrArg some (eqIc_iff.mp heq)
      obtain ⟨hlt, hget⟩ := List.getElem?_eq_some_iff.mp hi'
      obtain ⟨hlt', hget'⟩ := List.getElem?_eq_some_iff.mp hj
      exact hne ((h.distinct.getElem_inj_iff).mp (hget'.trans hget.symm))

/-- So does a nick change, with the hostmask of the new nick. -/
theorem Tracked.renameMember {c : Chan} (h : Tracked c.roster) (old : Str) {new mask : Str}
    (hown : new ++ str "!" <+: mask) (hshort : mask.length < maxMaskLen) :
    Tracked (renameMember c old new mask).roster := by
  unfold Roster.renameMember
  dsimp only
  by_cases hcase : eqIc old new = true
  · rw [if_pos hcase]
    rcases withEntry_roster c old fun r => { r with nick := new, hostmask := mask, authGen := 0 } with
      ⟨i, e, hi, -, heq⟩ | ⟨-, heq⟩
    · rw [heq]
      exact h.set hi (.inl (eqIc_iff.mp hcase).symm) ⟨.inr hown, hshort⟩
    · rw [heq]
      exact h
  · rw [if_neg hcase]
    have hgone := h.key_notMem_rremove new
    have hkept := h.rremove new
    rcases withEntry_roster (Roster.rremove c new) old
        fun r => { r with nick := new, hostmask := mask, authGen := 0 } with
          ⟨i, e, hi, -, heq⟩ | ⟨-, heq⟩
    · rw [heq]
      exact hkept.set hi (.inr hgone) ⟨.inr hown, hshort⟩
    · rw [heq]
      exact hkept

theorem bang_prefix {s : Str} (h : byte '!' ∈ s) : str "!" <+: s.dropWhile (· ≠ byte '!') := by
  cases hdrop : s.dropWhile (· ≠ byte '!') with
  | nil =>
      have hall := List.dropWhile_eq_nil_iff.mp hdrop _ h
      simp at hall
  | cons x xs =>
      have hhead := List.head?_dropWhile_not (fun c => decide (c ≠ byte '!')) s
      rw [hdrop] at hhead
      have hx : x = byte '!' := by simpa using hhead
      rw [hx]
      exact ⟨xs, rfl⟩

/-- What follows the nick of a member is put behind its new nick. -/
theorem renamedMask_eq_some {hostmask new mask : Str} (h : renamedMask hostmask new = some mask) :
    new ++ str "!" <+: mask ∧ mask.length < maxMaskLen := by
  unfold renamedMask at h
  split at h
  · cases h
  · rename_i hbang
    dsimp only at h
    split at h
    · rename_i hlen
      obtain rfl := Option.some_inj.mp h
      refine ⟨?_, hlen⟩
      rw [List.prefix_append_right_inj]
      exact bang_prefix (by simpa using hbang)
    · cases h

/-! ### What an event changes -/

/-- All rosters are well kept. -/
def AllTracked (b : BotState) : Prop := ∀ c ∈ b.chans, Tracked c.roster

/-- It is said of rosters alone. -/
theorem allTracked_iff {b : BotState} : AllTracked b ↔ ∀ r ∈ rosters b, Tracked r := by
  unfold AllTracked rosters
  rw [List.forall_mem_map]
  refine forall₂_congr fun c _ => ?_
  exact tracked_face.symm

/-- From `b` to `b'` the entries of `names` have changed, in the channels `here`, and nothing else
of the rosters but the cached verdicts; well-kept rosters have stayed so. -/
structure Edits (names : List Str) (here : Nat → Prop) (b b' : BotState) : Prop where
  away : ∀ i, ¬ here i → (rosters b')[i]? = (rosters b)[i]?
  others : ∀ i : Nat, ((rosters b')[i]?).map (others names) = ((rosters b)[i]?).map (others names)
  tracked : AllTracked b → AllTracked b'

section Edits

variable {names : List Str} {here : Nat → Prop} {b b' b'' : BotState}

/-- What leaves the rosters alone. -/
theorem Edits.of_rosters (h : rosters b' = rosters b) : Edits names here b b' := by
  constructor
  · intro i _
    rw [h]
  · intro i
    rw [h]
  · intro hb
    rw [allTracked_iff] at hb ⊢
    rwa [h]

/-- One edit after the other. -/
theorem Edits.trans (h : Edits names here b b') (h' : Edits names here b' b'') :
    Edits names here b b'' := by
  constructor
  · intro i hi
    exact (h'.away i hi).trans (h.away i hi)
  · intro i
    exact (h'.others i).trans (h.others i)
  · intro hb
    exact h'.tracked (h.tracked hb)

theorem rosters_withChan (b : BotState) (ci : Nat) (f : Chan → Chan) (i : Nat) :
    (rosters (withChan b ci f))[i]? =
      (b.chans[i]?).map fun c => (if ci = i then f c else c).roster.map face := by
  unfold rosters withChan
  dsimp only
  rw [List.getElem?_map, List.getElem?_modify]
  cases b.chans[i]? with
  | none => rfl
  | some c => rfl

/-- A change of one channel that is for these nicks only. -/
theorem edits_withChan {ci : Nat} {f : Chan → Chan} (hhere : here ci)
    (hf : ∀ c, RosterEvents.others names (f c).roster = RosterEvents.others names c.roster)
    (htracked : ∀ c, Tracked c.roster → Tracked (f c).roster) :
    Edits names here b (withChan b ci f) := by
  constructor
  · intro i hi
    have hne : ci ≠ i := by
      rintro rfl
      exact hi hhere
    rw [rosters_withChan, rosters, List.getElem?_map]
    simp [hne]
  · intro i
    rw [rosters_withChan, rosters, List.getElem?_map, Option.map_map, Option.map_map]
    cases b.chans[i]? with
    | none => rfl
    | some c =>
        simp only [Option.map_some, Function.comp_apply, others_face]
        split
        · rw [hf]
        · rfl
  · intro h c' hc'
    rcases mem_withChan hc' with hold | ⟨c, hc, rfl⟩
    · exact h c' hold
    · exact htracked c (h c hc)

end Edits

/-! ### The events -/

section Events

variable (sha256 : Str → Str)

/-- `nick!user@host`. -/
def IsNuh (nuh : Str) : Prop := ∃ nick user host, nuh = nick ++ str "!" ++ user ++ str "@" ++ host

/-- To count towards a flood leaves the rosters alone. -/
theorem rosters_event (b : BotState) (chan nuh : Str) (kind : FloodKind) (victimAuth : Bool) :
    rosters (Chanflood.event sha256 b chan nuh kind victimAuth) = rosters b :=
  rosters_of_core (Chanflood.core_event sha256 b chan nuh kind victimAuth)

theorem inChan_eq_some {b : BotState} {chan : Str} {ci : Nat} (h : inChan b chan = some ci) :
    find b chan = some ci := (Option.filter_eq_some_iff.mp h).1

/-- The nick of a prefix is in front of its `!`. -/
theorem nuhNick_bang {nuh nick : Str} (hnuh : IsNuh nuh) (h : nuhNick nuh = some nick) :
    nick ++ str "!" <+: nuh := by
  unfold nuhNick at h
  dsimp only at h
  split at h
  · cases h
  · obtain rfl := Option.some_inj.mp h
    obtain ⟨n, user, host, heq⟩ := hnuh
    have hmem : byte '!' ∈ nuh := by
      rw [heq]
      simp [str, byte]
    conv_rhs => rw [← List.takeWhile_append_dropWhile (p := (· ≠ byte '!')) (l := nuh)]
    rw [List.prefix_append_right_inj]
    exact bang_prefix hmem

/-- A join writes the entry of the one who joins. -/
theorem edits_onJoin (b : BotState) (chan : Str) {nuh : Str} (hnuh : IsNuh nuh) :
    Edits ((nuhNick nuh).toList) (fun i => find b chan = some i) b (onJoin sha256 b chan nuh) := by
  unfold onJoin
  split
  · rename_i ci nick hci hnick
    split
    · exact .of_rosters rfl
    · rw [hnick, Option.toList_some]
      dsimp only
      refine .trans (edits_withChan (inChan_eq_some hci) ?_ ?_) (.of_rosters (rosters_event ..))
      · intro c
        exact others_rosterSet c nick nuh false false false
      · intro c h
        exact h.rosterSet false false false (nuhNick_bang hnuh hnick)
  · exact .of_rosters rfl

/-- A part removes that of the one who parts. -/
theorem edits_onPart (b : BotState) (chan nick : Str) :
    Edits [nick] (fun i => find b chan = some i) b (onPart b chan nick) := by
  unfold onPart
  split
  · exact .of_rosters rfl
  · split
    · exact .of_rosters rfl
    · rename_i ci hci
      refine edits_withChan hci ?_ ?_
      · intro c
        exact others_rremove c (List.mem_singleton_self nick)
      · intro c h
        exact h.rremove nick

/-- A quit removes it everywhere. -/
theorem edits_onQuit (b : BotState) (nick : Str) :
    Edits [nick] (fun _ => True) b (onQuit b nick) := by
  unfold onQuit
  split
  · exact .of_rosters rfl
  · constructor
    · intro i hi
      exact absurd trivial hi
    · intro i
      simp only [rosters, List.map_map, List.getElem?_map, Option.map_map]
      cases b.chans[i]? with
      | none => rfl
      | some c =>
          simp only [Option.map_some, Function.comp_apply, others_face]
          split
          · rw [others_rremove c (List.mem_singleton_self nick)]
          · rfl
    · intro h c' hc'
      obtain ⟨c, hc, rfl⟩ := List.mem_map.mp hc'
      split
      · exact (h c hc).rremove nick
      · exact h c hc

theorem rosters_nickVerdict (b : BotState) (ci : Nat) (nick : Str) :
    rosters (nickVerdict b ci nick).2 = rosters b := by
  unfold nickVerdict
  split
  · rename_i i e hmember
    obtain ⟨c, hc, hc'⟩ := Option.bind_eq_some_iff.mp hmember
    exact rosters_of_core (core_memberVerdict hc (getElem?_of_member hc'))
  · rfl

theorem core_revenge (b : BotState) (ci : Nat) (pre : Str) :
    core (revenge sha256 b ci pre) = core b := by
  unfold revenge
  split
  · rfl
  · dsimp only
    split
    · rw [core_jobSubmit, core_offence]
    · rw [core_requestBan, core_offence]

/-- A kick removes that of the victim. -/
theorem edits_onKick (b : BotState) (chan : Str) (pre : Option Str) (victim : Str) :
    Edits [victim] (fun i => find b chan = some i) b (onKick sha256 b chan pre victim) := by
  unfold onKick
  split
  · exact .of_rosters rfl
  · rename_i ci hci
    split
    · exact .of_rosters rfl
    · dsimp only
      have hgone : Edits [victim] (fun i => find b chan = some i) b
          (withChan (recentAck (nickVerdict b ci victim).2 (b.chans.getD ci {}).name (str "kick") victim) ci
            fun c => { rremove c victim with enfDirty := true }) := by
        have hseen : Edits [victim] (fun i => find b chan = some i) b
            (recentAck (nickVerdict b ci victim).2 (b.chans.getD ci {}).name (str "kick") victim) :=
          .of_rosters (rosters_nickVerdict b ci victim)
        refine hseen.trans (edits_withChan (inChan_eq_some hci) ?_ ?_)
        · intro c
          exact others_rremove c (List.mem_singleton_self victim)
        · intro c h
          exact h.rremove victim
      split
      · exact hgone
      · rename_i p _
        generalize withChan (recentAck _ _ _ _) ci _ = s at hgone ⊢
        refine hgone.trans (.of_rosters ?_)
        have hevent := Chanflood.core_event sha256 s (b.chans.getD ci {}).name p .kick (nickVerdict b ci victim).1
        have hknown := (core_chanNuhAuthorised (Chanflood.event sha256 s (b.chans.getD ci {}).name p .kick
          (nickVerdict b ci victim).1) ci p).trans hevent
        split
        · split
          · exact rosters_of_core hknown
          · exact rosters_of_core ((core_revenge sha256 _ ci p).trans hknown)
        · exact rosters_of_core hevent

/-- A nick change in one channel. -/
theorem edits_onNickChan (old new : Str) (b : BotState) (ci : Nat) :
    Edits [old, new] (fun _ => True) b (onNickChan sha256 old new b ci) := by
  unfold onNickChan
  split
  · exact .of_rosters rfl
  · rename_i e _
    dsimp only
    split
    · refine edits_withChan trivial ?_ ?_
      · intro c
        exact others_rremove c (by simp)
      · intro c h
        exact h.rremove old
    · rename_i mask hmask
      have hown : new ++ str "!" <+: mask ∧ mask.length < maxMaskLen := by
        split at hmask
        · exact renamedMask_eq_some hmask
        · cases hmask
      refine .trans (edits_withChan trivial ?_ ?_) (.trans (.of_rosters (rosters_event ..))
        (edits_withChan trivial ?_ ?_))
      · intro c
        exact others_renameMember c old new mask
      · intro c h
        exact h.renameMember old hown.1 hown.2
      · intro c
        rfl
      · intro c h
        exact h

/-- A nick change, in every channel. -/
theorem edits_onNick (b : BotState) (old new : Str) :
    Edits [old, new] (fun _ => True) b (onNick sha256 b old new) := by
  unfold onNick
  generalize List.range b.chans.length = places
  induction places generalizing b with
  | nil => exact .of_rosters rfl
  | cons ci places ih =>
      rw [List.foldl_cons]
      exact (edits_onNickChan sha256 old new b ci).trans (ih _)

/-! ### Runs -/

inductive Event where
  | join (chan nuh : Str)
  | part (chan nick : Str)
  | quit (nick : Str)
  | kick (chan : Str) (pre : Option Str) (victim : Str)
  | renick (old new : Str)
  /-- `roster_set` of the channel in place `ci`. -/
  | set (ci : Nat) (nick hostmask : Str) (op halfop voice : Bool)

def Event.run (b : BotState) : Event → BotState
  | .join chan nuh => onJoin sha256 b chan nuh
  | .part chan nick => onPart b chan nick
  | .quit nick => onQuit b nick
  | .kick chan pre victim => onKick sha256 b chan pre victim
  | .renick old new => onNick sha256 b old new
  | .set ci nick hostmask op halfop voice =>
      withChan b ci fun c => rosterSet c nick hostmask op halfop voice

/-- The nicks that an event names. -/
def Event.names : Event → List Str
  | .join _ nuh => (nuhNick nuh).toList
  | .part _ nick => [nick]
  | .quit nick => [nick]
  | .kick _ _ victim => [victim]
  | .renick old new => [old, new]
  | .set _ nick _ _ _ _ => [nick]

/-- The channels that an event names, or all. -/
def Event.Here (b : BotState) (i : Nat) : Event → Prop
  | .join chan _ => find b chan = some i
  | .part chan _ => find b chan = some i
  | .quit _ => True
  | .kick chan _ _ => find b chan = some i
  | .renick _ _ => True
  | .set ci _ _ _ _ _ => ci = i

/-- The prefix of a JOIN, and the hostmask of a WHO row, is `nick!user@host`. -/
def Event.WellFormed : Event → Prop
  | .join _ nuh => IsNuh nuh
  | .set _ nick hostmask _ _ _ => ∃ user host, hostmask = nick ++ str "!" ++ user ++ str "@" ++ host
  | _ => True

/-- Events, and whatever else leaves each roster as it is, up to the cached verdicts, or empties
it. -/
inductive Run (b₀ : BotState) : BotState → Prop where
  | start : Run b₀ b₀
  | event {b : BotState} (e : Event) : Run b₀ b → e.WellFormed → Run b₀ (e.run sha256 b)
  | elsewhere {b b' : BotState} : Run b₀ b → (∀ r ∈ rosters b', r = [] ∨ r ∈ rosters b) → Run b₀ b'

/-- **An event changes the entries of the nicks it names**, in the channels it names. -/
theorem edits_run (b : BotState) {e : Event} (h : e.WellFormed) :
    Edits e.names (fun i => e.Here b i) b (e.run sha256 b) := by
  cases e with
  | join chan nuh => exact edits_onJoin sha256 b chan h
  | part chan nick => exact edits_onPart b chan nick
  | quit nick => exact edits_onQuit b nick
  | kick chan pre victim => exact edits_onKick sha256 b chan pre victim
  | renick old new => exact edits_onNick sha256 b old new
  | set ci nick hostmask op halfop voice =>
      obtain ⟨user, host, rfl⟩ := h
      refine edits_withChan rfl ?_ ?_
      · intro c
        exact others_rosterSet c nick _ op halfop voice
      · intro c hc
        refine hc.rosterSet op halfop voice ?_
        rw [List.append_assoc, List.append_assoc]
        exact List.prefix_append _ _

/-- **In every run each roster stays well tracked.** -/
theorem Run.allTracked {b₀ b : BotState} (h : Run sha256 b₀ b) (hstart : AllTracked b₀) :
    AllTracked b := by
  induction h with
  | start => exact hstart
  | event e _ hwell ih => exact (edits_run sha256 _ hwell).tracked ih
  | elsewhere _ hsame ih =>
      rw [allTracked_iff] at ih ⊢
      intro r hr
      rcases hsame r hr with rfl | hold
      · exact tracked_nil
      · exact ih r hold

theorem rosterSet_roster {c c' : Chan} (h : c'.roster = c.roster) (nick hostmask : Str)
    (op halfop voice : Bool) :
    (rosterSet c' nick hostmask op halfop voice).roster =
      (rosterSet c nick hostmask op halfop voice).roster := by
  have hfind : rfind c' nick = rfind c nick := by rw [rfind, rfind, h]
  unfold rosterSet
  dsimp only
  rw [hfind, h]
  split
  · exact h
  · split
    · rfl
    · split
      · exact h
      · rfl

/-- **A WHO reply is such a step**: the handler itself puts the row together. -/
theorem Run.whoMember {b₀ b : BotState} (h : Run sha256 b₀ b) (chan ident host nick modes : Str) :
    Run sha256 b₀ (ServerNumerics.whoMember b chan ident host nick modes) := by
  unfold ServerNumerics.whoMember
  dsimp only
  generalize hs : (if eqIc nick b.currentNick then
    JoinPart.updateOwnHostmask b (trunc (nick ++ str "!" ++ ident ++ str "@" ++ host) maxMaskLen) else b) = s
  have hsame : s.chans = b.chans := by
    rw [← hs]
    split
    · obtain ⟨host', ts, link, out, heq⟩ := JoinPart.updateOwnHostmask_eq b
        (trunc (nick ++ str "!" ++ ident ++ str "@" ++ host) maxMaskLen)
      rw [heq]
    · rfl
  have hnext : Run sha256 b₀ s := by
    refine .elsewhere h ?_
    intro r hr
    rw [rosters, hsame] at hr
    exact .inr hr
  split
  · exact hnext
  · rename_i ci _
    have hset := hnext.event
      (.set ci nick (nick ++ str "!" ++ ident ++ str "@" ++ host) (modes.contains (byte '@'))
        (ServerNumerics.prefixSym s.isup (byte 'h') modes) (ServerNumerics.prefixSym s.isup (byte 'v') modes))
      ⟨ident, host, rfl⟩
    by_cases hfits : (nick ++ str "!" ++ ident ++ str "@" ++ host).length < maxMaskLen
    · simp only [hfits, if_true]
      refine .elsewhere hset ?_
      intro r hr
      obtain ⟨i, hi⟩ := List.mem_iff_getElem?.mp hr
      right
      refine List.mem_of_getElem? (i := i) ?_
      rw [← hi, Event.run, rosters_withChan, rosters_withChan]
      congr 1
      funext c
      split
      · refine congrArg (List.map face) (rosterSet_roster ?_ nick _ _ _ _).symm
        split <;> rfl
      · rfl
    · simp only [hfits, if_false]
      refine .elsewhere hnext ?_
      intro r hr
      obtain ⟨i, hi⟩ := List.mem_iff_getElem?.mp hr
      right
      refine List.mem_of_getElem? (i := i) ?_
      rw [← hi, rosters_withChan, rosters, List.getElem?_map]
      congr 1
      funext c
      split
      · split <;> rfl
      · rfl

/-- **The rosters of every run.** The nicks of a channel differ up to case, each hostmask is empty
or begins with its member's nick and fits, and a further event changes the entries of the nicks it
names, where it says, and no other. -/
theorem roster_tracked {b₀ b : BotState} (hstart : ∀ c ∈ b₀.chans, c.roster = [])
    (hrun : Run sha256 b₀ b) :
    (∀ c ∈ b.chans, (c.roster.map fun e => e.nick.map lower).Nodup ∧
      ∀ e ∈ c.roster, (e.hostmask = [] ∨ e.nick ++ str "!" <+: e.hostmask) ∧
        e.hostmask.length < maxMaskLen) ∧
    ∀ e : Event, e.WellFormed →
      (∀ i, ¬ e.Here b i → (rosters (e.run sha256 b))[i]? = (rosters b)[i]?) ∧
      ∀ i : Nat, ((rosters (e.run sha256 b))[i]?).map (others e.names) =
        ((rosters b)[i]?).map (others e.names) := by
  have htracked : AllTracked b := by
    refine hrun.allTracked sha256 ?_
    intro c hc
    rw [hstart c hc]
    exact tracked_nil
  refine ⟨?_, ?_⟩
  · intro c hc
    refine ⟨(htracked c hc).distinct, ?_⟩
    intro e he
    exact ⟨((htracked c hc).masks e he).own, ((htracked c hc).masks e he).short⟩
  · intro e hwell
    have hedits := edits_run sha256 b hwell
    exact ⟨hedits.away, hedits.others⟩

end Events

/-- Bob comes in and changes the case of his nick. -/
def bobCame : BotState :=
  Event.run id { chans := [{ name := str "#c", status := .inside }] } (.join (str "#c") (str "Bob!u@h"))

def bobRenamed : BotState := Event.run id bobCame (.renick (str "Bob") (str "bob"))

/-- A nick change between two others. -/
theorem bob_tracked :
    (bobRenamed.chans.map fun c => c.roster.map fun e => (e.nick, e.hostmask)) =
      [[(str "bob", str "bob!u@h")]] ∧
    ∀ c ∈ bobRenamed.chans, (c.roster.map fun e => e.nick.map lower).Nodup := by
  have hjoin : IsNuh (str "Bob!u@h") := ⟨str "Bob", str "u", str "h", by decide⟩
  have hrun : Run id { chans := [{ name := str "#c", status := .inside }] } bobRenamed :=
    (Run.start.event (.join (str "#c") (str "Bob!u@h")) hjoin).event (.renick (str "Bob") (str "bob")) trivial
  refine ⟨by decide, ?_⟩
  intro c hc
  refine ((roster_tracked id ?_ hrun).1 c hc).1
  intro c hc
  rw [List.mem_singleton.mp hc]

end IrcBot.RosterEvents
