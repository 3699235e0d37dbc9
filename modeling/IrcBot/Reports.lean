/-
# Reports to the hub in chunks (`hub_client.rs`)

`send_activity` and `push_admin_delta` pack one line of each record into frames of bounded size. The
hub link can fail at any frame.

* `Sent.send` — a frame goes out, or the link is at its end.
* `sendActivity_reports` — each line that is pending is in exactly one frame; no longer pending are
  those whose frame was taken.
* `hub_reports` — the same for the push of the records, which stays pending until all is sent.
-/
import Mathlib.Data.List.ReduceOption
import IrcBot.Activity
import IrcBot.HubPush

namespace IrcBot.Reports

open Cstr Activity HubPush Config

/-! ### Frames on a link that may fail -/

/-- The link after it has taken `n` frames. -/
structure Live (b₀ b : BotState) (n : Nat) : Prop where
  authenticated : b.link.authenticated = true
  sock : b.link.sock = true
  left : b.link.sendLeft = b₀.link.sendLeft.map (· - n)
  enough : ∀ m, b₀.link.sendLeft = some m → n ≤ m

/-- The frames that a link has taken, each made of whole lines. -/
structure Sent (cmd : UInt8) (b₀ b : BotState) (frames : List (List Str)) : Prop where
  out : b.hubOut = b₀.hubOut ++ frames.map fun f => (cmd, f.flatten)
  fits : ∀ f ∈ frames, f ≠ [] ∧ f.flatten.length ≤ 16320

variable {cmd : UInt8} {b₀ b : BotState} {frames : List (List Str)} {acc : List Str}

theorem Sent.refl (cmd : UInt8) (b : BotState) : Sent cmd b b [] :=
  ⟨(List.append_nil _).symm, nofun⟩

theorem Live.refl (hauth : b.link.authenticated = true) (hsock : b.link.sock = true) : Live b b 0 :=
  ⟨hauth, hsock, by cases b.link.sendLeft <;> rfl, fun m _ => Nat.zero_le m⟩

/-- **A frame goes out**, or the link has failed at it. -/
theorem Sent.send (h : Sent cmd b₀ b frames) (hlive : Live b₀ b frames.length) (hne : acc ≠ [])
    (hlen : acc.flatten.length ≤ 16320) :
    (∃ b', sendFrame b cmd acc.flatten = (true, b') ∧ Sent cmd b₀ b' (frames ++ [acc]) ∧
      Live b₀ b' (frames ++ [acc]).length) ∨
    (sendFrame b cmd acc.flatten).1 = false ∧ Sent cmd b₀ (sendFrame b cmd acc.flatten).2 frames ∧
      b₀.link.sendLeft = some frames.length := by
  have hfits : ¬ maxBuffer - 64 < acc.flatten.length := Nat.not_lt.mpr hlen
  have hraw : sendFrame b cmd acc.flatten = sendRaw b (cmd, acc.flatten) := by
    rw [sendFrame, hlive.authenticated, hlive.sock, Bool.not_true, Bool.or_false,
      if_neg Bool.false_ne_true,
      if_neg hfits]
  rw [hraw, sendRaw, hlive.sock, Bool.not_true, if_neg Bool.false_ne_true]
  by_cases hend : b.link.sendLeft = some 0
  · refine .inr ?_
    rw [hend]
    refine ⟨rfl, ⟨h.out, h.fits⟩, ?_⟩
    have hleft := hlive.left
    rw [hend] at hleft
    obtain ⟨m, hm, hzero⟩ := Option.map_eq_some_iff.mp hleft.symm
    have henough := hlive.enough m hm
    rw [hm, show m = frames.length by omega]
  · let b' : BotState := { b with
      link := { b.link with sendLeft := b.link.sendLeft.map (· - 1) }
      hubOut := b.hubOut ++ [(cmd, acc.flatten)] }
    refine .inl ⟨b', ?_, ⟨?_, fun f hf => ?_⟩,
      ⟨hlive.authenticated, hlive.sock, ?_, fun m hm => ?_⟩⟩
    · split
      · rename_i hzero
        exact absurd hzero hend
      · rfl
    · rw [List.map_append, ← List.append_assoc, ← h.out]
      rfl
    · rcases List.mem_append.mp hf with hf | hf
      · exact h.fits f hf
      · rw [List.mem_singleton.mp hf]
        exact ⟨hne, hlen⟩
    · change b.link.sendLeft.map (· - 1) = _
      rw [hlive.left, Option.map_map, List.length_append]
      exact congrArg (Option.map · b₀.link.sendLeft) (funext fun m => Nat.sub_sub m frames.length 1)
    · have henough := hlive.enough m hm
      have hleft := hlive.left
      rw [hm, Option.map_some] at hleft
      rw [List.length_append, List.length_singleton]
      have hne0 : m - frames.length ≠ 0 := fun hz => hend (by rw [hleft, hz])
      omega

/-! ### Reports of activity -/

/-- The lines with those below `k` struck out. -/
def struck (k : Nat) (lines : List (Option Str)) : List (Option Str) :=
  lines.mapIdx fun j line => if j < k then none else line

theorem activityLines_clearPending (b : BotState) (first i : Nat) :
    activityLines (clearPending b first i) =
      (activityLines b).mapIdx fun j line => if first ≤ j ∧ j < i then none else line := by
  rw [activityLines, activityLines, List.mapIdx_append, List.length_map]
  congr 1
  · refine List.ext_getElem (by simp [clearPending]) fun j _ _ => ?_
    simp only [clearPending, List.getElem_map, List.getElem_mapIdx]
    split
    · rfl
    · rfl
  · refine List.ext_getElem (by simp [clearPending]) fun j _ _ => ?_
    simp only [clearPending, List.getElem_map, List.getElem_mapIdx, Nat.add_comm j]
    split
    · rfl
    · rfl

theorem activityLines_of_link {b b' : BotState} (h : SameButLink b b') :
    activityLines b' = activityLines b := by
  rw [h.eq]
  rfl

theorem struck_clear {first i : Nat} (h : first ≤ i) (lines : List (Option Str)) :
    (struck first lines).mapIdx (fun j line => if first ≤ j ∧ j < i then none else line) = struck i lines := by
  refine List.ext_getElem (by simp [struck]) fun j _ _ => ?_
  simp only [struck, List.getElem_mapIdx]
  by_cases hj : j < i
  · rw [if_pos hj]
    by_cases hfirst : first ≤ j
    · rw [if_pos ⟨hfirst, hj⟩]
    · rw [if_neg fun h => hfirst h.1, if_pos (by omega)]
  · rw [if_neg fun h => hj h.2, if_neg (by omega), if_neg hj]

/-- Lines that are not there need no striking out. -/
theorem struck_eq_of_take {first i : Nat} (h : first ≤ i) {lines : List (Option Str)}
    (hsame : (lines.take i).reduceOption = (lines.take first).reduceOption) :
    struck first lines = struck i lines := by
  have hnone : ((lines.take i).drop first).reduceOption = [] := by
    have hfront : lines.take first = (lines.take i).take first := by
      rw [List.take_take, Nat.min_eq_left h]
    have hsplit : lines.take i = lines.take first ++ (lines.take i).drop first := by
      rw [hfront, List.take_append_drop]
    rw [hsplit, List.reduceOption_append] at hsame
    exact List.append_right_eq_self.mp hsame
  obtain ⟨n, hn⟩ := (List.reduceOption_eq_nil_iff _).mp hnone
  refine List.ext_getElem (by simp [struck]) fun j hj _ => ?_
  rw [struck, List.length_mapIdx] at hj
  simp only [struck, List.getElem_mapIdx]
  by_cases hji : j < i
  · rw [if_pos hji]
    by_cases hfirst : first ≤ j
    · have hmem : lines[j] ∈ (lines.take i).drop first := by
        refine List.mem_iff_getElem.mpr ⟨j - first, by simp; omega, ?_⟩
        simp [Nat.add_sub_cancel' hfirst]
      rw [hn] at hmem
      rw [if_neg (by omega), (List.mem_replicate.mp hmem).2]
    · rw [if_pos (by omega)]
  · rw [if_neg (by omega), if_neg hji]

/-- What has been reported: the frames carry the pending lines of the records below `k`, and those
are the records that are no longer pending. -/
structure Reported (b₀ b : BotState) (k : Nat) (frames : List (List Str)) : Prop extends
    Sent cmdActivity b₀ b frames where
  lines : frames.flatten = ((activityLines b₀).take k).reduceOption
  pending : activityLines b = struck k (activityLines b₀)

theorem reported_refl (b : BotState) : Reported b b 0 [] := by
  refine ⟨.refl cmdActivity b, rfl, ?_⟩
  refine List.ext_getElem (by simp [struck]) fun j _ _ => ?_
  simp only [struck, List.getElem_mapIdx]
  rw [if_neg (Nat.not_lt_zero j)]

variable {first i k : Nat}

/-- A frame is taken and its records are no longer pending, or the link has failed. -/
theorem Reported.send (h : Reported b₀ b first frames) (hlive : Live b₀ b frames.length)
    (hle : first ≤ i)
    (hopen : ((activityLines b₀).take i).reduceOption = frames.flatten ++ acc) (hne : acc ≠ [])
    (hlen : acc.flatten.length ≤ 16320) :
    (∃ b', sendFrame b cmdActivity acc.flatten = (true, b') ∧
      Reported b₀ (clearPending b' first i) i (frames ++ [acc]) ∧
      Live b₀ (clearPending b' first i) (frames ++ [acc]).length) ∨
    (sendFrame b cmdActivity acc.flatten).1 = false ∧
      Reported b₀ (sendFrame b cmdActivity acc.flatten).2 first frames ∧
      b₀.link.sendLeft = some frames.length := by
  have hlink := activityLines_of_link (sameButLink_sendFrame b cmdActivity acc.flatten)
  rcases h.toSent.send hlive hne hlen with ⟨b', hsend, hsent, hlive'⟩ | ⟨hfail, hsent, hleft⟩
  · rw [hsend] at hlink
    refine .inl ⟨b', hsend, ⟨⟨hsent.out, hsent.fits⟩, ?_, ?_⟩,
      ⟨hlive'.authenticated, hlive'.sock, hlive'.left, hlive'.enough⟩⟩
    · rw [List.flatten_append, List.flatten_singleton, hopen]
    · rw [activityLines_clearPending, hlink, h.pending, struck_clear hle]
  · exact .inr ⟨hfail, ⟨hsent, h.lines, hlink.trans h.pending⟩, hleft⟩

/-- With nothing in the open chunk the next one starts here. -/
theorem Reported.skip (h : Reported b₀ b first frames) (hle : first ≤ i)
    (hopen : ((activityLines b₀).take i).reduceOption = frames.flatten) : Reported b₀ b i frames :=
  ⟨h.toSent, hopen.symm, h.pending.trans (struck_eq_of_take hle (hopen.trans h.lines))⟩

theorem mem_reduceOption {line : Str} {lines : List (Option Str)} :
    line ∈ lines.reduceOption ↔ some line ∈ lines := by
  simp [List.reduceOption]

/-- **The chunk loop.** All that is pending is reported, or the link has failed behind the last
frame. -/
theorem activityLoop_reports (hsize : ∀ line ∈ (activityLines b₀).reduceOption, line ≠ [] ∧
    line.length ≤ 16320)
    (rest : List (Option Str)) : ∀ {b : BotState} {frames : List (List Str)} {acc : List Str} {first i : Nat},
    Reported b₀ b first frames → Live b₀ b frames.length → first ≤ i →
    (activityLines b₀).drop i = rest →
      ((activityLines b₀).take i).reduceOption = frames.flatten ++ acc →
        acc.flatten.length ≤ 16320 →
        ∃ k frames', Reported b₀ (activityLoop b acc.flatten first i rest) k frames' ∧
          (((activityLines b₀).drop k).reduceOption = [] ∨ b₀.link.sendLeft = some frames'.length) := by
  -- an open chunk without bytes is one without lines
  have hempty {frames : List (List Str)} {acc : List Str} {i : Nat}
      (hopen : ((activityLines b₀).take i).reduceOption = frames.flatten ++ acc) :
      acc.flatten.isEmpty = true ↔ acc = [] := by
    refine ⟨fun hflat => List.eq_nil_iff_forall_not_mem.mpr fun line hline => ?_,
      fun h => by rw [h]; rfl⟩
    have hmem : line ∈ ((activityLines b₀).take i).reduceOption :=
      hopen ▸ List.mem_append_right _ hline
    have hpending := mem_reduceOption.mpr (List.mem_of_mem_take (mem_reduceOption.mp hmem))
    exact (hsize line hpending).1 (List.flatten_eq_nil_iff.mp (List.isEmpty_iff.mp hflat) line hline)
  induction rest with
  | nil =>
      intro b frames acc first i h hlive hle hdrop hopen hlen
      have hall : ((activityLines b₀).drop i).reduceOption = [] := by rw [hdrop]; rfl
      unfold activityLoop
      by_cases hacc : acc = []
      · rw [if_pos ((hempty hopen).mpr hacc)]
        rw [hacc, List.append_nil] at hopen
        exact ⟨i, frames, h.skip hle hopen, .inl hall⟩
      · rw [if_neg fun hflat => hacc ((hempty hopen).mp hflat)]
        rcases h.send hlive hle hopen hacc hlen with
          ⟨b', hsend, hreported, -⟩ | ⟨hfail, hreported, hleft⟩
        · rw [hsend]
          exact ⟨i, frames ++ [acc], hreported, .inl hall⟩
        · rw [show sendFrame b cmdActivity acc.flatten = (false, (sendFrame b cmdActivity acc.flatten).2) from
            Prod.ext hfail rfl]
          exact ⟨first, frames, hreported, .inr hleft⟩
  | cons line rest ih =>
      intro b frames acc first i h hlive hle hdrop hopen hlen
      have hget : (activityLines b₀)[i]? = some line := by
        rw [← List.head?_drop, hdrop, List.head?_cons]
      have hdrop' : (activityLines b₀).drop (i + 1) = rest := by
        rw [← List.tail_drop, hdrop, List.tail_cons]
      have hopen' : ((activityLines b₀).take (i + 1)).reduceOption =
        frames.flatten ++ (acc ++ line.toList) := by
        rw [List.take_add_one, hget, List.reduceOption_append, hopen, List.append_assoc]
        cases line <;> rfl
      have hw : line.getD [] = line.toList.flatten := by
        cases line with
        | none => rfl
        | some l => exact (List.append_nil l).symm
      have hwlen : line.toList.flatten.length ≤ 16320 := by
        rw [← hw]
        cases hline : line with
        | none => exact Nat.zero_le _
        | some l => exact (hsize l (mem_reduceOption.mpr (hline ▸ List.mem_of_getElem? hget))).2
      unfold activityLoop
      dsimp only
      rw [hw]
      by_cases hacc : acc = []
      · rw [(hempty hopen).mpr hacc, Bool.not_true, Bool.false_and,
          if_neg Bool.false_ne_true, if_pos rfl]
        subst hacc
        rw [List.append_nil] at hopen
        exact ih (h.skip hle hopen) hlive (Nat.le_succ i) hdrop' hopen' hwlen
      · have hopened : acc.flatten.isEmpty = false :=
          Bool.eq_false_iff.mpr fun hflat => hacc ((hempty hopen).mp hflat)
        rw [hopened, Bool.not_false, Bool.true_and, if_neg Bool.false_ne_true]
        split
        · -- the line does not fit: the chunk goes out first
          rcases h.send hlive hle hopen hacc hlen with
            ⟨b', hsend, hreported, hlive'⟩ | ⟨hfail, hreported, hleft⟩
          · rw [hsend]
            refine ih hreported hlive' (Nat.le_succ i) hdrop' ?_ hwlen
            rw [hopen', List.flatten_append, List.flatten_singleton, List.append_assoc]
          · rw [show sendFrame b cmdActivity acc.flatten = (false, (sendFrame b cmdActivity acc.flatten).2) from
              Prod.ext hfail rfl]
            exact ⟨first, frames, hreported, .inr hleft⟩
        · rename_i hfits
          rw [decide_eq_true_eq, Nat.not_lt] at hfits
          rw [← List.flatten_append]
          refine ih h hlive (Nat.le_succ_of_le hle) hdrop' hopen' ?_
          rw [List.flatten_append, List.length_append]
          exact hfits

/-! ### Lines of records -/

/-- A record that the table can be saved with: its line fits, and its activity is a time. -/
def UserFits (u : UserRecord) : Prop :=
  (formatUserLine u).length < max cfgMaskLineMax cfgUserLineMax ∧ u.actPending ≤ i64Max

def MaskFits (m : MaskRecord) : Prop :=
  (formatMaskLine m).length < max cfgMaskLineMax cfgUserLineMax ∧ m.actPending ≤ i64Max

instance (u : UserRecord) : Decidable (UserFits u) := inferInstanceAs (Decidable (_ ∧ _))

instance (m : MaskRecord) : Decidable (MaskFits m) := inferInstanceAs (Decidable (_ ∧ _))

theorem length_dec_i64 {t : Int} (hpos : 0 < t) (hmax : t ≤ i64Max) : (dec t).length ≤ 19 := by
  rw [dec, if_neg (by omega), decNat, List.length_map,
    Nat.length_toDigits_le_iff (by decide) (by decide)]
  unfold i64Max at hmax
  omega

theorem activityLines_fit {b : BotState} (husers : ∀ u ∈ b.userRecords, UserFits u)
    (hmasks : ∀ m ∈ b.maskRecords, MaskFits m) :
    ∀ line ∈ (activityLines b).reduceOption, line ≠ [] ∧ line.length ≤ 16320 := by
  intro line hline
  rw [mem_reduceOption, activityLines, List.mem_append, List.mem_map, List.mem_map] at hline
  have hmax : max cfgMaskLineMax cfgUserLineMax = 384 := rfl
  rcases hline with ⟨u, hu, hline⟩ | ⟨m, hm, hline⟩
  · obtain ⟨hpos, hline⟩ := Option.ite_none_right_eq_some.mp hline
    obtain ⟨hfits, htime⟩ := husers u hu
    have hdec := length_dec_i64 hpos htime
    rw [hmax] at hfits
    rw [← Option.some.inj hline]
    refine ⟨nofun, ?_⟩
    simp only [formatUserLine, List.length_cons, List.length_append] at hfits
    simp only [List.length_append, show (str "a|").length = 2 from rfl,
      show (str "|").length = 1 from rfl,
      show (str "\n").length = 1 from rfl]
    omega
  · obtain ⟨hpos, hline⟩ := Option.ite_none_right_eq_some.mp hline
    obtain ⟨hfits, htime⟩ := hmasks m hm
    have hdec := length_dec_i64 hpos htime
    rw [hmax] at hfits
    rw [← Option.some.inj hline]
    refine ⟨nofun, ?_⟩
    simp only [formatMaskLine, List.length_append] at hfits
    simp only [List.length_append, show (str "m|").length = 2 from rfl,
      show (str "|").length = 1 from rfl,
      show (str "\n").length = 1 from rfl]
    omega

/-- The line of every record, users first. -/
def recordLines (b : BotState) : List Str :=
  b.userRecords.map formatUserLine ++ b.maskRecords.map formatMaskLine

theorem recordLines_fit {b : BotState} (husers : ∀ u ∈ b.userRecords, UserFits u)
    (hmasks : ∀ m ∈ b.maskRecords, MaskFits m) :
    ∀ line ∈ recordLines b, line ≠ [] ∧ line.length < max cfgMaskLineMax cfgUserLineMax := by
  intro line hline
  rcases List.mem_append.mp hline with hline | hline
  · obtain ⟨u, hu, rfl⟩ := List.mem_map.mp hline
    exact ⟨nofun, (husers u hu).1⟩
  · obtain ⟨m, hm, rfl⟩ := List.mem_map.mp hline
    exact ⟨nofun, (hmasks m hm).1⟩

/-! ### The push of the records -/

/-- **The chunk loop of the push.** All lines go out, or the link has failed before those that are
left. -/
theorem adminDeltaLoop_sends (lines : List Str)
    (hlines : ∀ line ∈ lines, line ≠ [] ∧ line.length < max cfgMaskLineMax cfgUserLineMax) :
    ∀ {b : BotState} {frames : List (List Str)} {acc : List Str}, Sent cmdConfigPush b₀ b frames →
      Live b₀ b frames.length → (∀ line ∈ acc, line ≠ []) → acc.flatten.length ≤ 16320 →
        ∃ frames' rest, Sent cmdConfigPush b₀ (adminDeltaLoop b acc.flatten lines).2 frames' ∧
          frames.flatten ++ (acc ++ lines) = frames'.flatten ++ rest ∧
          ((adminDeltaLoop b acc.flatten lines).1 = true ∧ rest = [] ∨
            (adminDeltaLoop b acc.flatten lines).1 = false ∧ rest ≠ [] ∧
              b₀.link.sendLeft = some frames'.length) := by
  have hempty {acc : List Str} (hacc : ∀ line ∈ acc, line ≠ []) : acc.flatten = [] ↔ acc = [] := by
    refine ⟨fun hflat => List.eq_nil_iff_forall_not_mem.mpr fun line hline => ?_,
      fun h => by rw [h]; rfl⟩
    exact hacc line hline (List.flatten_eq_nil_iff.mp hflat line hline)
  induction lines with
  | nil =>
      intro b frames acc h hlive hacc hlen
      rw [adminDeltaLoop, List.append_nil]
      by_cases hnil : acc = []
      · subst hnil
        have hflat : ([] : List Str).flatten.isEmpty = true := rfl
        rw [if_pos hflat, List.append_nil]
        exact ⟨frames, [], h, (List.append_nil _).symm, .inl ⟨rfl, rfl⟩⟩
      · rw [if_neg (by simpa [hempty hacc] using hnil)]
        rcases h.send hlive hnil hlen with ⟨b', hsend, hsent, -⟩ | ⟨hfail, hsent, hleft⟩
        · rw [hsend]
          refine ⟨frames ++ [acc], [], hsent, ?_, .inl ⟨rfl, rfl⟩⟩
          rw [List.flatten_append, List.flatten_singleton, List.append_nil]
        · exact ⟨frames, acc, hsent, rfl, .inr ⟨hfail, hnil, hleft⟩⟩
  | cons line lines ih =>
      intro b frames acc h hlive hacc hlen
      obtain ⟨⟨hne, hshort⟩, hlines⟩ := List.forall_mem_cons.mp hlines
      replace ih := @ih hlines
      have hlinelen : line.length ≤ 16320 := Nat.le_trans (Nat.le_of_lt hshort) (by decide)
      rw [adminDeltaLoop, if_neg (Nat.not_le.mpr hshort)]
      by_cases hfull : maxBuffer - 64 < acc.flatten.length + line.length
      · -- the line does not fit: the chunk goes out first
        rw [if_pos hfull]
        have hnil : acc ≠ [] := by
          rintro rfl
          rw [List.flatten_nil, List.length_nil, Nat.zero_add] at hfull
          exact absurd hlinelen (Nat.not_le.mpr hfull)
        rcases h.send hlive hnil hlen with ⟨b', hsend, hsent, hlive'⟩ | ⟨hfail, hsent, hleft⟩
        · rw [hsend]
          have hacc₁ : ∀ l ∈ [line], l ≠ [] := by simpa using hne
          have hnext := ih hsent hlive' hacc₁ (by simpa using hlinelen)
          rw [List.flatten_singleton] at hnext
          obtain ⟨frames', rest, hsent', heq, hends⟩ := hnext
          refine ⟨frames', rest, hsent', ?_, hends⟩
          rw [← heq, List.flatten_append, List.flatten_singleton, List.append_assoc]
          rfl
        · rw [show sendFrame b cmdConfigPush acc.flatten = (false, (sendFrame b cmdConfigPush acc.flatten).2) from
            Prod.ext hfail rfl]
          refine ⟨frames, acc ++ line :: lines, hsent, rfl, .inr ⟨rfl, ?_, hleft⟩⟩
          simp [hnil]
      · rw [if_neg hfull]
        have hflat : acc.flatten ++ line = (acc ++ [line]).flatten := by
          rw [List.flatten_append, List.flatten_singleton]
        have hacc' : ∀ l ∈ acc ++ [line], l ≠ [] := by
          intro l hl
          rcases List.mem_append.mp hl with hl | hl
          · exact hacc l hl
          · exact List.mem_singleton.mp hl ▸ hne
        rw [hflat]
        have hnext := ih h hlive hacc' (by rw [← hflat, List.length_append]; exact Nat.not_lt.mp hfull)
        rw [List.append_assoc, List.singleton_append] at hnext
        exact hnext

/-! ### The reports -/

/-- The bot is logged in at a hub. -/
def Ready (b : BotState) : Prop := b.link.authenticated = true ∧ b.link.sock = true

theorem sendActivity_reports {b : BotState} (husers : ∀ u ∈ b.userRecords, UserFits u)
    (hmasks : ∀ m ∈ b.maskRecords, MaskFits m) :
    ∃ k frames, Reported b (sendActivity b) k frames ∧
      (((activityLines b).drop k).reduceOption = [] ∨ ¬ Ready b ∨ b.link.sendLeft = some frames.length) := by
  rw [sendActivity]
  by_cases hready : Ready b
  · rw [hready.1, hready.2, Bool.not_true, Bool.or_false, if_neg Bool.false_ne_true]
    obtain ⟨k, frames, hreported, hends⟩ := activityLoop_reports (activityLines_fit husers hmasks)
      (activityLines b) (reported_refl b) (.refl hready.1 hready.2) (Nat.le_refl 0) rfl
      (show ([] : List Str) = _ from rfl) (Nat.zero_le _)
    exact ⟨k, frames, hreported, hends.imp_right .inr⟩
  · have hdown : (!b.link.authenticated || !b.link.sock) = true := by
      rw [Ready] at hready
      simpa [imp_iff_not_or] using hready
    rw [if_pos hdown]
    exact ⟨0, [], reported_refl b, .inr (.inl hready)⟩

theorem pushAdminDelta_sends {b : BotState} (husers : ∀ u ∈ b.userRecords, UserFits u)
    (hmasks : ∀ m ∈ b.maskRecords, MaskFits m) :
    ∃ frames rest, Sent cmdConfigPush b (pushAdminDelta b) frames ∧
      recordLines b = frames.flatten ++ rest ∧
      (Ready b → ((pushAdminDelta b).adminDeltaPending = false ↔ rest = [])) ∧
      (¬ Ready b → (pushAdminDelta b).adminDeltaPending = false → b.adminDeltaPending = false) ∧
      (rest = [] ∨ ¬ Ready b ∨ b.link.sendLeft = some frames.length) := by
  rw [pushAdminDelta]
  by_cases hready : Ready b
  · rw [hready.1, hready.2, Bool.not_true, Bool.or_false, if_neg Bool.false_ne_true]
    dsimp only
    have hnone : ∀ line ∈ ([] : List Str), line ≠ [] := nofun
    obtain ⟨frames, rest, hsent, heq, hends⟩ :=
      adminDeltaLoop_sends (recordLines b) (recordLines_fit husers hmasks)
      (.refl cmdConfigPush { b with adminDeltaPending := true, configDirty := true })
      (.refl hready.1 hready.2) hnone (Nat.zero_le _)
    have hkeeps := sameButLink_adminDeltaLoop (recordLines b)
      { b with adminDeltaPending := true, configDirty := true } []
    change recordLines b = _ at heq
    change Sent _ _ (adminDeltaLoop _ [] (recordLines b)).2 _ at hsent
    change (adminDeltaLoop _ [] (recordLines b)).1 = _ ∧ _ ∨
      (adminDeltaLoop _ [] (recordLines b)).1 = _ ∧ _ at hends
    refine ⟨frames, rest, ?_⟩
    rw [recordLines] at hsent hends hkeeps
    rcases hends with ⟨hok, hrest⟩ | ⟨hfail, hrest, hleft⟩
    · split
      · rename_i b' hloop
        rw [hloop] at hsent
        exact ⟨⟨hsent.out, hsent.fits⟩, heq, fun _ => iff_of_true rfl hrest,
          fun h => absurd hready h, .inl hrest⟩
      · rename_i b' hloop
        rw [hloop] at hok
        cases hok
    · split
      · rename_i b' hloop
        rw [hloop] at hfail
        cases hfail
      · rename_i b' hloop
        rw [hloop] at hsent hkeeps
        have hpending : b'.adminDeltaPending = true := congrArg BotState.adminDeltaPending hkeeps.eq
        refine ⟨⟨hsent.out, hsent.fits⟩, heq, fun _ => iff_of_false ?_ hrest,
          fun h => absurd hready h,
          .inr (.inr hleft)⟩
        rw [hpending]
        exact nofun
  · have hdown : (!b.link.authenticated || !b.link.sock) = true := by
      rw [Ready] at hready
      simpa [imp_iff_not_or] using hready
    rw [if_pos hdown]
    split
    · exact ⟨[], recordLines b, ⟨(List.append_nil _).symm, nofun⟩, rfl,
        fun h => absurd h hready, nofun,
        .inr (.inl hready)⟩
    · exact ⟨[], recordLines b, .refl _ b, rfl, fun h => absurd h hready,
        fun _ h => h, .inr (.inl hready)⟩

/-- **Chunked reports lose nothing**, at whatever frame the link fails. The frames of an activity
report carry the pending lines of the first records, each in one place, and just those records are
no longer pending; the frames of a push carry the lines of the first records, and only when that is
all of them is the push no longer pending. Whatever is left was not taken by the link. -/
theorem hub_reports {b : BotState} (husers : ∀ u ∈ b.userRecords, UserFits u)
    (hmasks : ∀ m ∈ b.maskRecords, MaskFits m) :
    (∃ k frames, Reported b (sendActivity b) k frames ∧
      (((activityLines b).drop k).reduceOption = [] ∨ ¬ Ready b ∨ b.link.sendLeft = some frames.length)) ∧
    ∃ frames rest, Sent cmdConfigPush b (pushAdminDelta b) frames ∧
      recordLines b = frames.flatten ++ rest ∧
      (Ready b → ((pushAdminDelta b).adminDeltaPending = false ↔ rest = [])) ∧
      (¬ Ready b → (pushAdminDelta b).adminDeltaPending = false → b.adminDeltaPending = false) ∧
      (rest = [] ∨ ¬ Ready b ∨ b.link.sendLeft = some frames.length) :=
  ⟨sendActivity_reports husers hmasks, pushAdminDelta_sends husers hmasks⟩

/-- A link that takes one frame and fails, and more to report than one frame holds. -/
def failing : BotState where
  link := { authenticated := true, sock := true, sendLeft := some 1 }
  userRecords := [
    { uuid := str "u1", name := str "alice", isActive := true, actPending := 7200 },
    { uuid := str "u2", name := str "bob", typ := byte 'o', isActive := true },
    { uuid := str "u3", name := str "carl", timestamp := 90, actPending := 7260 }]
  maskRecords := (List.range 70).map fun i => {
    uuid := str "u1", mask := dec i ++ str "!*@" ++ List.replicate 240 (byte 'x'), isActive := true
    actPending := 7200 }

/-- All that is pending went out, or one frame did; and the same of the records that are pushed. -/
theorem hub_reports_failing :
    (∃ k frames, Reported failing (sendActivity failing) k frames ∧
      (((activityLines failing).drop k).reduceOption = [] ∨ frames.length = 1)) ∧
    ∃ frames rest, Sent cmdConfigPush failing (pushAdminDelta failing) frames ∧
      recordLines failing = frames.flatten ++ rest ∧
      ((pushAdminDelta failing).adminDeltaPending = false ↔ rest = []) ∧
      (rest = [] ∨ frames.length = 1) := by
  have hready : Ready failing := ⟨rfl, rfl⟩
  have hone {n : Nat} (h : ¬ Ready failing ∨ failing.link.sendLeft = some n) : n = 1 :=
    h.elim (absurd hready) fun hleft => (Option.some.inj hleft).symm
  obtain ⟨⟨k, frames, hreported, hends⟩, pushed, rest, hsent, hlines, hmark, -, hleft⟩ :=
    hub_reports (b := failing) (by decide +kernel) (by decide +kernel)
  exact ⟨⟨k, frames, hreported, hends.imp_right hone⟩, pushed, rest, hsent, hlines, hmark hready,
    hleft.imp_right hone⟩

end IrcBot.Reports
