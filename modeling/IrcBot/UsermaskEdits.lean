/-
# What a mask edit does (`commands.rs`)

`+usermask` and `-usermask` change the hostmasks that are taken for a user. A mask that is added is
cut to its field, a mask that was removed is revived, and masks compare without case.

* `cmdAddUsermask_eq`, `cmdDelUsermask_eq` — what the commands say, and the masks they leave.
* `usermask_edits` — an edit that succeeds means what it says, but for a mask that was cut.
* `usermask_cut` — a mask of more than 255 bytes lets somebody in whom it does not match.
-/
import IrcBot.UserCommands

namespace IrcBot.UsermaskEdits

open Cstr Masks HubPush UserCommands

/-! ### What the commands say -/

/-- The user that the command is about. -/
def namedUser (b : BotState) (name : Str) : Option UserRecord :=
  (userByName b name).bind fun ui => b.userRecords[ui]?

/-- What `+usermask` says if it fails, or the masks that it leaves. -/
def addOutcome (b : BotState) (name mask : Str) : Except Str (List MaskRecord) :=
  if !maskShaped mask then .error (str "Error: mask must contain ! and @")
  else
    match namedUser b name with
    | none => .error (str "Error: user " ++ quoted name ++ str " not found.")
    | some u =>
        match maskTomb b u.uuid mask with
        | .error e => .error e
        | .ok (some i) => .ok (b.maskRecords.modify i (revivedMask b.now))
        | .ok none =>
            if maxUserMasks ≤ b.maskRecords.length then .error (str "Error: mask table full.")
            else
              .ok (b.maskRecords ++
                [{ uuid := u.uuid, mask := trunc mask maxMaskLen, isActive := true, timestamp := b.now }])

/-- What `-usermask` says if it fails, or the masks that it leaves. -/
def delOutcome (b : BotState) (name mask : Str) : Except Str (List MaskRecord) :=
  match namedUser b name with
  | none => .error (str "Error: user " ++ quoted name ++ str " not found.")
  | some u =>
      match b.maskRecords.findIdx? fun m => m.isActive && m.uuid == u.uuid && eqIc m.mask mask with
      | none =>
          .error (str "Error: mask " ++ quoted mask ++ str " not found for " ++ name ++ str ".")
      | some mi => .ok (b.maskRecords.modify mi (buriedMask b.now))

section

variable {b : BotState} {nick name mask : Str} {a : Args}

/-- The command tells what went wrong, or stores the masks and says so. -/
def told (b : BotState) (nick done : Str) : Except Str (List MaskRecord) → BotState
  | .error e => say b nick e
  | .ok masks => say (pushAdminDelta (writeConfig { b with maskRecords := masks })) nick done

theorem cmdAddUsermask_eq (hname : a.a1 = some name) (hmask : a.a2 = some mask) :
    cmdAddUsermask b nick a =
      told b nick (str "Mask " ++ mask ++ str " added to " ++ name) (addOutcome b name mask) := by
  unfold cmdAddUsermask addOutcome namedUser
  rw [hname, hmask]
  dsimp only
  by_cases hshape : (!maskShaped mask) = true
  · rw [if_pos hshape, if_pos hshape]
    rfl
  · rw [if_neg hshape, if_neg hshape]
    cases (userByName b name).bind fun ui => b.userRecords[ui]? with
    | none => rfl
    | some u =>
        dsimp only
        cases maskTomb b u.uuid mask with
        | error e => rfl
        | ok tomb =>
            cases tomb with
            | some i => rfl
            | none =>
                dsimp only
                by_cases hfull : maxUserMasks ≤ b.maskRecords.length
                · rw [if_pos hfull, if_pos hfull]
                  rfl
                · rw [if_neg hfull, if_neg hfull]
                  rfl

theorem cmdDelUsermask_eq (hname : a.a1 = some name) (hmask : a.a2 = some mask) :
    cmdDelUsermask b nick a =
      told b nick (str "Mask " ++ mask ++ str " removed from " ++ name) (delOutcome b name mask) := by
  unfold cmdDelUsermask delOutcome namedUser
  rw [hname, hmask]
  dsimp only
  cases (userByName b name).bind fun ui => b.userRecords[ui]? with
  | none => rfl
  | some u =>
      dsimp only
      cases b.maskRecords.findIdx? fun m => m.isActive && m.uuid == u.uuid && eqIc m.mask mask with
      | none => rfl
      | some mi => rfl

theorem maskRecords_told {masks : List MaskRecord} (done : Str) :
    (told b nick done (.ok masks)).maskRecords = masks := by
  have h : directory (told b nick done (.ok masks)) =
    directory { b with maskRecords := masks } := by
    rw [told, directory_say, directory_pushAdminDelta, directory_writeConfig]
  exact congrArg Directory.masks h

end

/-! ### Hostmasks of a user -/

/-- A hostmask that one of the user's active masks matches. -/
def Accepts (masks : List MaskRecord) (uuid nuh : Str) : Prop :=
  ∃ m ∈ masks, m.isActive = true ∧ m.uuid = uuid ∧ wildcardMatch m.mask nuh = true

/-- The user's masks differ, up to case. -/
def Distinct (masks : List MaskRecord) (uuid : Str) : Prop :=
  ∀ (i j : Nat) (m m' : MaskRecord), masks[i]? = some m → masks[j]? = some m' → m.uuid = uuid →
    m'.uuid = uuid → eqIc m.mask m'.mask = true → i = j

/-- The masks of everybody else are the same. -/
def OthersSame (masks masks' : List MaskRecord) (uuid : Str) : Prop :=
  masks'.filter (·.uuid != uuid) = masks.filter (·.uuid != uuid)

/-- What was matched before, and what the mask matches. -/
def Adds (masks masks' : List MaskRecord) (uuid mask : Str) : Prop :=
  ∀ nuh, Accepts masks' uuid nuh ↔ Accepts masks uuid nuh ∨ wildcardMatch mask nuh = true

/-- What the user's other active masks match. -/
def Removes (masks masks' : List MaskRecord) (uuid mask : Str) : Prop :=
  ∀ nuh, Accepts masks' uuid nuh ↔
    ∃ m ∈ masks, m.isActive = true ∧ m.uuid = uuid ∧ eqIc m.mask mask = false ∧
      wildcardMatch m.mask nuh = true

/-- The mask is stored whole, or it is there from before, or what it lost makes no difference. -/
def StoredWell (masks : List MaskRecord) (uuid mask : Str) : Prop :=
  mask.length < maxMaskLen ∨ (∃ m ∈ masks, m.uuid = uuid ∧ eqIc m.mask mask = true) ∨
    ∀ nuh, wildcardMatch (trunc mask maxMaskLen) nuh ≠ wildcardMatch mask nuh →
      Accepts masks uuid nuh

section

variable {masks : List MaskRecord} {uuid mask : Str}

theorem mem_modify {f : MaskRecord → MaskRecord} {i : Nat} {m₀ m : MaskRecord}
    (hi : masks[i]? = some m₀) :
    m ∈ masks.modify i f ↔ m = f m₀ ∨ ∃ j : Nat, j ≠ i ∧ masks[j]? = some m := by
  have hlt := (List.getElem?_eq_some_iff.mp hi).1
  constructor
  · intro hm
    obtain ⟨j, hj⟩ := List.mem_iff_getElem?.mp hm
    rw [List.getElem?_modify] at hj
    by_cases hij : i = j
    · subst hij
      rw [hi] at hj
      left
      simpa using hj.symm
    · right
      refine ⟨j, Ne.symm hij, ?_⟩
      simpa [hij] using hj
  · rintro (rfl | ⟨j, hij, hj⟩)
    · apply List.mem_of_getElem? (i := i)
      rw [List.getElem?_modify, hi]
      simp
    · apply List.mem_of_getElem? (i := j)
      rw [List.getElem?_modify, hj]
      simp [Ne.symm hij]

theorem othersSame_modify {f : MaskRecord → MaskRecord} {i : Nat} {m₀ : MaskRecord}
    (hi : masks[i]? = some m₀) (huuid : m₀.uuid = uuid) (hf : (f m₀).uuid = m₀.uuid) :
    OthersSame masks (masks.modify i f) uuid := by
  unfold OthersSame
  induction masks generalizing i with
  | nil => cases hi
  | cons m masks ih =>
      cases i with
      | zero =>
          obtain rfl := Option.some.inj hi
          rw [List.modify_zero_cons, List.filter_cons_of_neg (by simp [hf, huuid]),
            List.filter_cons_of_neg (by simp [huuid])]
      | succ i =>
          rw [List.modify_succ_cons, List.filter_cons, List.filter_cons, ih hi]

/-- The place of a tombstone, or no record of the mask. -/
theorem maskTomb_cases {b : BotState} :
    (∀ i, maskTomb b uuid mask = .ok (some i) →
      ∃ m, b.maskRecords[i]? = some m ∧ m.uuid = uuid ∧ eqIc m.mask mask = true) ∧
    (maskTomb b uuid mask = .ok none →
      ∀ m ∈ b.maskRecords, m.uuid = uuid → eqIc m.mask mask = false) := by
  unfold maskTomb
  dsimp only
  split
  · constructor
    · intro i h
      cases h
    · intro h
      cases h
  · constructor
    · intro i h
      obtain ⟨⟨m, j⟩, hlast, rfl⟩ := Option.map_eq_some_iff.mp (Except.ok.inj h)
      obtain ⟨hmem, hown⟩ := List.mem_filter.mp (List.mem_of_getLast? hlast)
      obtain ⟨huuid, hmask⟩ := Bool.and_eq_true_iff.mp hown
      exact ⟨m, List.mem_zipIdx_iff_getElem?.mp hmem, beq_iff_eq.mp huuid, hmask⟩
    · intro h m hm huuid
      rw [Except.ok.injEq, Option.map_eq_none_iff, List.getLast?_eq_none_iff,
        List.filter_eq_nil_iff] at h
      obtain ⟨i, hi⟩ := List.mem_iff_getElem?.mp hm
      have hno := h (m, i) (List.mem_zipIdx_iff_getElem?.mpr hi)
      rw [huuid] at hno
      rw [← Bool.not_eq_true]
      simpa using hno

/-- A tombstone that is revived matches what the mask matches. -/
theorem adds_revived {i : Nat} {m : MaskRecord} (now : Int) (hi : masks[i]? = some m)
    (huuid : m.uuid = uuid) (hmask : eqIc m.mask mask = true) :
    Adds masks (masks.modify i (revivedMask now)) uuid mask := by
  intro nuh
  constructor
  · rintro ⟨m', hm', hactive, huuid', hhit⟩
    rcases (mem_modify hi).mp hm' with rfl | ⟨j, -, hj⟩
    · right
      rw [← wildcardMatch_of_eqIc hmask]
      exact hhit
    · exact .inl ⟨m', List.mem_of_getElem? hj, hactive, huuid', hhit⟩
  · rintro (⟨m', hm', hactive, huuid', hhit⟩ | hhit)
    · obtain ⟨j, hj⟩ := List.mem_iff_getElem?.mp hm'
      by_cases hji : j = i
      · subst hji
        obtain rfl := Option.some.inj (hj.symm.trans hi)
        exact ⟨_, (mem_modify hi).mpr (.inl rfl), rfl, huuid, hhit⟩
      · exact ⟨m', (mem_modify hi).mpr (.inr ⟨j, hji, hj⟩), hactive, huuid', hhit⟩
    · refine ⟨_, (mem_modify hi).mpr (.inl rfl), rfl, huuid, ?_⟩
      rw [← wildcardMatch_of_eqIc hmask] at hhit
      exact hhit

theorem accepts_append {m : MaskRecord} (hactive : m.isActive = true) (huuid : m.uuid = uuid)
    (nuh : Str) :
    Accepts (masks ++ [m]) uuid nuh ↔ Accepts masks uuid nuh ∨ wildcardMatch m.mask nuh = true := by
  constructor
  · rintro ⟨m', hm', hrest⟩
    rcases List.mem_append.mp hm' with hold | hnew
    · exact .inl ⟨m', hold, hrest⟩
    · obtain rfl := List.mem_singleton.mp hnew
      exact .inr hrest.2.2
  · rintro (⟨m', hm', hrest⟩ | hhit)
    · exact ⟨m', List.mem_append_left [m] hm', hrest⟩
    · exact ⟨m, List.mem_append_right masks (List.mem_singleton_self m), hactive, huuid, hhit⟩

/-- A new mask matches what it says when its cut makes no difference. -/
theorem adds_appended {m : MaskRecord} (hactive : m.isActive = true) (huuid : m.uuid = uuid)
    (hcut : m.mask = trunc mask maxMaskLen)
    (hnew : ∀ m' ∈ masks, m'.uuid = uuid → eqIc m'.mask mask = false) :
    Adds masks (masks ++ [m]) uuid mask ↔ StoredWell masks uuid mask := by
  have hacc : ∀ nuh, Accepts (masks ++ [m]) uuid nuh ↔
      Accepts masks uuid nuh ∨ wildcardMatch m.mask nuh = true := accepts_append hactive huuid
  rw [hcut] at hacc
  constructor
  · intro hadds
    right; right
    intro nuh hdiff
    by_contra hnot
    have hiff := hadds nuh
    rw [hacc nuh] at hiff
    simp only [hnot, false_or] at hiff
    exact hdiff (Bool.eq_iff_iff.mpr hiff)
  · rintro (hshort | ⟨m', hm', huuid', hmask'⟩ | hsame)
    · intro nuh
      rw [hacc nuh, trunc_of_lt hshort]
    · rw [hnew m' hm' huuid'] at hmask'
      cases hmask'
    · intro nuh
      rw [hacc nuh]
      by_cases heq : wildcardMatch (trunc mask maxMaskLen) nuh = wildcardMatch mask nuh
      · rw [heq]
      · have hbefore := hsame nuh heq
        exact ⟨fun _ => .inl hbefore, fun _ => .inl hbefore⟩

theorem othersSame_append {m : MaskRecord} (huuid : m.uuid = uuid) :
    OthersSame masks (masks ++ [m]) uuid := by
  simp [OthersSame, List.filter_append, huuid]

/-- A mask that is buried takes its hostmasks along, as no other record is of that mask. -/
theorem removes_buried {i : Nat} {m : MaskRecord} (now : Int) (hdistinct : Distinct masks uuid)
    (hi : masks[i]? = some m) (huuid : m.uuid = uuid) (hmask : eqIc m.mask mask = true) :
    Removes masks (masks.modify i (buriedMask now)) uuid mask := by
  intro nuh
  constructor
  · rintro ⟨m', hm', hactive, huuid', hhit⟩
    rcases (mem_modify hi).mp hm' with rfl | ⟨j, hji, hj⟩
    · cases hactive
    · refine ⟨m', List.mem_of_getElem? hj, hactive, huuid', ?_, hhit⟩
      rw [← Bool.not_eq_true]
      intro hsame
      apply hji
      refine hdistinct j i m' m hj hi huuid' huuid ?_
      rw [eqIc_iff] at hsame hmask ⊢
      rw [hsame, hmask]
  · rintro ⟨m', hm', hactive, huuid', hother, hhit⟩
    obtain ⟨j, hj⟩ := List.mem_iff_getElem?.mp hm'
    have hji : j ≠ i := by
      rintro rfl
      obtain rfl := Option.some.inj (hj.symm.trans hi)
      rw [hmask] at hother
      cases hother
    exact ⟨m', (mem_modify hi).mpr (.inr ⟨j, hji, hj⟩), hactive, huuid', hhit⟩

end

/-! ### The edits -/

section

variable {b : BotState} {name mask : Str} {masks : List MaskRecord}

/-- **What an addition does**: it means what it says exactly when the mask is stored well. -/
theorem addOutcome_spec (h : addOutcome b name mask = .ok masks) :
    ∃ u, namedUser b name = some u ∧ OthersSame b.maskRecords masks u.uuid ∧
      (Adds b.maskRecords masks u.uuid mask ↔ StoredWell b.maskRecords u.uuid mask) := by
  unfold addOutcome at h
  split at h
  · cases h
  split at h
  · cases h
  rename_i u hu
  refine ⟨u, hu, ?_⟩
  obtain ⟨htomb, hnone⟩ := @maskTomb_cases u.uuid mask b
  split at h
  · cases h
  · rename_i i hi
    obtain rfl := Except.ok.inj h
    obtain ⟨m, hm, huuid, hmask⟩ := htomb i hi
    constructor
    · exact othersSame_modify hm huuid rfl
    · constructor
      · intro _
        exact .inr (.inl ⟨m, List.mem_of_getElem? hm, huuid, hmask⟩)
      · intro _
        exact adds_revived b.now hm huuid hmask
  · rename_i hnew
    split at h
    · cases h
    · obtain rfl := Except.ok.inj h
      constructor
      · exact othersSame_append rfl
      · exact adds_appended rfl rfl rfl (hnone hnew)

/-- **What a removal does**. -/
theorem delOutcome_spec (hdistinct : ∀ uuid, Distinct b.maskRecords uuid)
    (h : delOutcome b name mask = .ok masks) :
    ∃ u, namedUser b name = some u ∧ OthersSame b.maskRecords masks u.uuid ∧
      Removes b.maskRecords masks u.uuid mask := by
  unfold delOutcome at h
  split at h
  · cases h
  rename_i u hu
  refine ⟨u, hu, ?_⟩
  split at h
  · cases h
  · rename_i mi hfound
    obtain rfl := Except.ok.inj h
    obtain ⟨hlt, hown, -⟩ := List.findIdx?_eq_some_iff_getElem.mp hfound
    obtain ⟨hboth, hmask⟩ := Bool.and_eq_true_iff.mp hown
    have huuid := beq_iff_eq.mp (Bool.and_eq_true_iff.mp hboth).2
    have hm := List.getElem?_eq_getElem hlt
    constructor
    · exact othersSame_modify hm huuid rfl
    · exact removes_buried b.now (hdistinct u.uuid) hm huuid hmask

/-- **Mask edits mean what they say**. A removal that succeeds takes the mask's hostmasks from its
user. An addition that succeeds adds them, if and only if the mask is stored well. Neither touches
anybody else. -/
theorem usermask_edits (hdistinct : ∀ uuid, Distinct b.maskRecords uuid) {a : Args}
    (hname : a.a1 = some name) (hmask : a.a2 = some mask) (nick : Str) :
    (∀ masks, delOutcome b name mask = .ok masks → ∃ u, namedUser b name = some u ∧
      OthersSame b.maskRecords (cmdDelUsermask b nick a).maskRecords u.uuid ∧
      Removes b.maskRecords (cmdDelUsermask b nick a).maskRecords u.uuid mask) ∧
    ∀ masks, addOutcome b name mask = .ok masks → ∃ u, namedUser b name = some u ∧
      OthersSame b.maskRecords (cmdAddUsermask b nick a).maskRecords u.uuid ∧
      (Adds b.maskRecords (cmdAddUsermask b nick a).maskRecords u.uuid mask ↔
        StoredWell b.maskRecords u.uuid mask) := by
  constructor
  · intro masks h
    rw [cmdDelUsermask_eq hname hmask, h, maskRecords_told]
    exact delOutcome_spec hdistinct h
  · intro masks h
    rw [cmdAddUsermask_eq hname hmask, h, maskRecords_told]
    exact addOutcome_spec h

end

/-- A bot with one user, who has no masks yet. -/
def oneUser : BotState :=
  { userRecords := [{ uuid := str "id", name := str "joe", isActive := true }] }

theorem distinct_oneUser (uuid : Str) : Distinct oneUser.maskRecords uuid := by
  intro i j m m' hm
  cases hm

theorem distinct_of_nodup {masks : List MaskRecord}
    (h : (masks.map fun m => (m.uuid, m.mask.map lower)).Nodup) (uuid : Str) :
    Distinct masks uuid := by
  intro i j m m' hi hj hm hm' heq
  have hlt : i < (masks.map fun m => (m.uuid, m.mask.map lower)).length := by
    rw [List.length_map]
    exact (List.getElem?_eq_some_iff.mp hi).1
  refine (List.getElem?_inj hlt h).mp ?_
  rw [List.getElem?_map, List.getElem?_map, hi, hj, Option.map_some, Option.map_some, hm, hm',
    (eqIc_iff ..).mp heq]

/-- Two users with a mask in common; the first also had another one. -/
def twoUsers : BotState where
  now := 70
  userRecords := [
    { uuid := str "id", name := str "joe", isActive := true },
    { uuid := str "id2", name := str "ann", isActive := true }]
  maskRecords := [
    { uuid := str "id2", mask := str "*!*@h1", isActive := true, timestamp := 20 },
    { uuid := str "id", mask := str "*!*@h1", isActive := true, timestamp := 30 },
    { uuid := str "id", mask := str "joe!*@h2", timestamp := 40 },
    { uuid := str "id", mask := str "joe!*@h3", isActive := true, timestamp := 50 }]

/-- The mask of one of two users that have it is removed, and one that was removed comes back. -/
theorem usermask_edits_twoUsers :
    Removes twoUsers.maskRecords
      (cmdDelUsermask twoUsers (str "a") { a1 := some (str "joe"), a2 := some (str "*!*@H1") }).maskRecords
      (str "id") (str "*!*@H1") ∧
    OthersSame twoUsers.maskRecords
      (cmdDelUsermask twoUsers (str "a") { a1 := some (str "joe"), a2 := some (str "*!*@H1") }).maskRecords
      (str "id") ∧
    Adds twoUsers.maskRecords
      (cmdAddUsermask twoUsers (str "a") { a1 := some (str "joe"), a2 := some (str "joe!*@h2") }).maskRecords
      (str "id") (str "joe!*@h2") := by
  have hdistinct := distinct_of_nodup (show (twoUsers.maskRecords.map fun m => (m.uuid, m.mask.map lower)).Nodup by decide)
  obtain ⟨u, hu, hothers, hremoves⟩ := (usermask_edits hdistinct
    (a := { a1 := some (str "joe"), a2 := some (str "*!*@H1") }) rfl rfl (str "a")).1 _ rfl
  obtain ⟨u', hu', -, hadds⟩ := (usermask_edits hdistinct
    (a := { a1 := some (str "joe"), a2 := some (str "joe!*@h2") }) rfl rfl (str "a")).2 _ rfl
  obtain rfl := Option.some.inj hu
  obtain rfl := Option.some.inj hu'
  exact ⟨hremoves, hothers, hadds.mpr (.inl (by decide))⟩

/-- A mask of 260 bytes. -/
def longMask : Str := str "a!b@" ++ List.replicate 256 (byte 'x')

/-- **A long mask lets somebody in whom it does not match**: `+usermask` says that it is added, and
what is stored of it matches a shorter host. -/
theorem usermask_cut :
    ¬ ∀ (b : BotState) (nick name mask : Str) (a : Args) (masks : List MaskRecord) (u : UserRecord),
      (∀ uuid, Distinct b.maskRecords uuid) → a.a1 = some name → a.a2 = some mask →
      addOutcome b name mask = .ok masks → namedUser b name = some u →
      Adds b.maskRecords (cmdAddUsermask b nick a).maskRecords u.uuid mask := by
  intro h
  have hok : addOutcome oneUser (str "joe") longMask = .ok ([] ++
      [{ uuid := str "id", mask := trunc longMask maxMaskLen, isActive := true, timestamp := 0 }]) := rfl
  have hadds := h oneUser (str "a") (str "joe") longMask { a1 := some (str "joe"), a2 := some longMask } _
    { uuid := str "id", name := str "joe", isActive := true } distinct_oneUser rfl rfl hok rfl
  rw [cmdAddUsermask_eq rfl rfl, hok, maskRecords_told] at hadds
  have hcut : trunc longMask maxMaskLen = str "a!b@" ++ List.replicate 251 (byte 'x') := by
    decide +kernel
  rw [hcut] at hadds
  have hin := (hadds (str "a!b@" ++ List.replicate 251 (byte 'x'))).mp
    ((accepts_append rfl rfl _).mpr (.inr (by decide +kernel)))
  rcases hin with ⟨m, hm, -⟩ | hhit
  · cases hm
  · revert hhit
    decide +kernel

end IrcBot.UsermaskEdits
