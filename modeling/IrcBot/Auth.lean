/-
# Usermask matching and trusted-bot lookup (`auth.rs`)

Who counts as authorised: a trusted bot, or an active user through one of its
active masks. A leading `~` of the ident is dropped before a trusted bot's mask
is compared (`stripIdentTilde`); user masks are compared as they stand.

* `isAuthorised_iff` — the two ways to be authorised.
* `maskOverlapsAuthorised_eq_none_iff` — the overlap test passes exactly when
  the stripped mask overlaps no stripped mask of a bot or an active user.
-/
import IrcBot.Masks

namespace IrcBot.Auth

open Cstr Masks

/-- Drop a leading `~` of the ident of nick!ident@host: a `~` right behind the
first `!`. -/
def stripIdentTilde (s : Str) : Str :=
  match s.dropWhile (· ≠ byte '!') with
  | bang :: tilde :: rest =>
      if tilde = byte '~' then s.takeWhile (· ≠ byte '!') ++ bang :: rest else s
  | _ => s

/-- The ident of `s` starts with a `~`. -/
def hasIdentTilde (s : Str) : Bool := (s.dropWhile (· ≠ byte '!'))[1]? == some (byte '~')

/-- Index of the trusted bot whose stored mask matches `userHost`. -/
def trustedBotByHost (b : BotState) (userHost : Str) : Option Nat :=
  if b.trustedBots.isEmpty then none
  else
    let norm := stripIdentTilde (trunc userHost maxMaskLen)
    b.trustedBots.findIdx? fun tb => wildcardMatch (stripIdentTilde tb.mask) norm

def trustedBotByUuid (b : BotState) (uuid : Str) : Option Nat :=
  if uuid.isEmpty then none else b.trustedBots.findIdx? fun tb => tb.uuid == uuid

def isTrustedBot (b : BotState) (userHost : Str) : Bool := (trustedBotByHost b userHost).isSome

/-- Index of the active user record owning `uuid`. -/
def maskHasActiveUser (b : BotState) (uuid : Str) : Option Nat :=
  b.userRecords.findIdx? fun u => u.isActive && u.uuid == uuid

/-- Matches a trusted bot, or an active mask of an active user. -/
def isAuthorised (b : BotState) (nuh : Str) : Bool :=
  if nuh.isEmpty then false
  else if isTrustedBot b nuh then true
  else b.maskRecords.any fun mr =>
    mr.isActive && !mr.mask.isEmpty && wildcardMatch mr.mask nuh &&
      (maskHasActiveUser b mr.uuid).isSome

/-- `mask_overlaps_authorised`: a label of the first conflict when the ban mask
could also hit a bot or a user who is not in the channel right now. -/
def maskOverlapsAuthorised (b : BotState) (mask : Str) : Option Str :=
  let nmask := stripIdentTilde mask
  match b.trustedBots.find? fun tb => globOverlap nmask (stripIdentTilde tb.mask) with
  | some tb => some (str "bot " ++ tb.mask)
  | none =>
      b.maskRecords.findSome? fun mr =>
        if !mr.isActive || mr.mask.isEmpty || !globOverlap nmask (stripIdentTilde mr.mask) then
          none
        else
          (maskHasActiveUser b mr.uuid).bind fun ui =>
            b.userRecords[ui]?.map fun u => str "user " ++ u.name

/-- Every active, keyed user record that owns an active mask matching
`userHost`, once each, with the first matching mask's index. -/
def userCandidates (b : BotState) (userHost : Str) : List (Nat × Nat) :=
  b.maskRecords.zipIdx.foldl (fun out (mr, mi) =>
    if maxUserRecords ≤ out.length then out
    else if !mr.isActive || mr.mask.isEmpty || !wildcardMatch mr.mask userHost then out
    else
      match b.userRecords.findIdx? fun u => u.isActive && u.hasPubkey && u.uuid == mr.uuid with
      | some ui => if out.any fun p => p.1 == ui then out else out ++ [(ui, mi)]
      | none => out) []

/-! ### The ident's tilde -/

theorem stripIdentTilde_of_no_tilde {s : Str} (h : hasIdentTilde s = false) :
    stripIdentTilde s = s := by
  unfold stripIdentTilde
  unfold hasIdentTilde at h
  split
  · rename_i bang tilde rest heq
    rw [heq] at h
    have hne : tilde ≠ byte '~' := by simpa using h
    rw [if_neg hne]
  · rfl

/-! ### Who is authorised -/

/-- A mask record that authorises whoever it matches. -/
def Authorises (b : BotState) (mr : MaskRecord) : Prop :=
  mr.isActive = true ∧ mr.mask ≠ [] ∧ ∃ u ∈ b.userRecords, u.isActive = true ∧ u.uuid = mr.uuid

theorem isSome_maskHasActiveUser_iff {b : BotState} {uuid : Str} :
    (maskHasActiveUser b uuid).isSome = true ↔
      ∃ u ∈ b.userRecords, u.isActive = true ∧ u.uuid = uuid := by
  simp [maskHasActiveUser]

theorem isTrustedBot_iff {b : BotState} {nuh : Str} (hlen : nuh.length < maxMaskLen) :
    isTrustedBot b nuh = true ↔
      ∃ tb ∈ b.trustedBots,
        wildcardMatch (stripIdentTilde tb.mask) (stripIdentTilde nuh) = true := by
  unfold isTrustedBot trustedBotByHost
  rw [trunc_of_lt hlen]
  cases b.trustedBots <;> simp

/-- An owner that was found has a name to report. -/
theorem ownerLabel_eq_none_iff {b : BotState} {uuid : Str} :
    ((maskHasActiveUser b uuid).bind fun ui =>
      b.userRecords[ui]?.map fun u => str "user " ++ u.name) = none ↔
      ¬ ∃ u ∈ b.userRecords, u.isActive = true ∧ u.uuid = uuid := by
  rw [← isSome_maskHasActiveUser_iff]
  cases hu : maskHasActiveUser b uuid with
  | none => simp
  | some ui =>
      obtain ⟨hlt, -⟩ := List.findIdx?_eq_some_iff_getElem.mp hu
      simp [List.getElem?_eq_getElem hlt]

/-- The two ways to be authorised. -/
theorem isAuthorised_iff {b : BotState} {nuh : Str} (hne : nuh ≠ [])
    (hlen : nuh.length < maxMaskLen) :
    isAuthorised b nuh = true ↔
      (∃ tb ∈ b.trustedBots,
        wildcardMatch (stripIdentTilde tb.mask) (stripIdentTilde nuh) = true) ∨
      ∃ mr ∈ b.maskRecords, Authorises b mr ∧ wildcardMatch mr.mask nuh = true := by
  rw [← isTrustedBot_iff hlen, isAuthorised]
  simp only [List.isEmpty_iff, hne, if_false]
  by_cases ht : isTrustedBot b nuh = true
  · simp [ht]
  · rw [if_neg ht, List.any_eq_true, or_iff_right ht]
    refine exists_congr fun mr => and_congr_right fun _ => ?_
    simp only [Bool.and_eq_true, Bool.not_eq_true', List.isEmpty_eq_false_iff, Authorises,
      isSome_maskHasActiveUser_iff]
    tauto

/-- The overlap test passes exactly when the stripped mask overlaps no stripped
mask that could authorise. -/
theorem maskOverlapsAuthorised_eq_none_iff {b : BotState} {mask : Str} :
    maskOverlapsAuthorised b mask = none ↔
      (∀ tb ∈ b.trustedBots,
        globOverlap (stripIdentTilde mask) (stripIdentTilde tb.mask) = false) ∧
      ∀ mr ∈ b.maskRecords, Authorises b mr →
        globOverlap (stripIdentTilde mask) (stripIdentTilde mr.mask) = false := by
  unfold maskOverlapsAuthorised
  dsimp only
  cases hbot : b.trustedBots.find? fun tb =>
      globOverlap (stripIdentTilde mask) (stripIdentTilde tb.mask) with
  | some tb =>
      have hov := List.find?_some hbot
      have hmem := List.mem_of_find?_eq_some hbot
      simp only [reduceCtorEq, false_iff, not_and]
      intro h
      simp [h tb hmem] at hov
  | none =>
      have hnone : ∀ tb ∈ b.trustedBots,
          globOverlap (stripIdentTilde mask) (stripIdentTilde tb.mask) = false := by
        simpa using List.find?_eq_none.mp hbot
      rw [List.findSome?_eq_none_iff, and_iff_right hnone]
      refine forall₂_congr fun mr _ => ?_
      by_cases hskip : (!mr.isActive || mr.mask.isEmpty ||
          !globOverlap (stripIdentTilde mask) (stripIdentTilde mr.mask)) = true
      · rw [if_pos hskip]
        simp only [Bool.or_eq_true, Bool.not_eq_true', List.isEmpty_iff] at hskip
        refine iff_of_true rfl fun ⟨hactive, hmask, _⟩ => ?_
        rcases hskip with (h | h) | h
        · simp [hactive] at h
        · exact absurd h hmask
        · exact h
      · rw [if_neg hskip, ownerLabel_eq_none_iff]
        simp only [Bool.or_eq_true, Bool.not_eq_true', List.isEmpty_iff, not_or,
          Bool.not_eq_false] at hskip
        obtain ⟨⟨hactive, hmask⟩, hov⟩ := hskip
        rw [hov]
        exact ⟨fun h ha => absurd ha.2.2 h, fun h ha => by simpa using h ⟨hactive, hmask, ha⟩⟩

end IrcBot.Auth
