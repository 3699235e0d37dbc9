/-
# Who is authorised in a channel, and who holds a job (`chanenf.rs`)

The cached verdict on a roster entry, the safety check of a ban, and the deal
that assigns the channel jobs to the opped bots.

* `entryAuthorised_again` — filling the caches does not change what a further
  call reports at the same reading of the clock.
* `banAllowedWhy_none_eq_ok_iff` — without a channel, a ban is allowed exactly
  when its mask is a safe token and overlaps nobody authorised.
-/
import IrcBot.Auth
import IrcBot.Lib.Deal

namespace IrcBot.Chanenf

open Cstr Masks Auth

/-! ### Small helpers -/

/-- A token that may stand on an IRC line: no space, no control byte. -/
def safeToken (s : Str) (max : Nat) : Bool :=
  !s.isEmpty && s.length ≤ max && s.all fun c => 0x20 < c && c ≠ 0x7f

/-- `snprintf(dst, dsz, lower(src))`. -/
def lowerCopy (src : Str) (dsz : Nat) : Str := (trunc src dsz).map lower

def isMe (b : BotState) (nick : Str) : Bool := eqIc nick b.currentNick

/-- Index of `nick` in the roster. -/
def rfind (c : Chan) (nick : Str) : Option Nat := c.roster.findIdx? fun r => eqIc r.nick nick

/-! ### The cached verdict -/

/-- One string into the fingerprint (FNV-1a, with a separator). -/
def fpStr (h : UInt64) (s : Str) : UInt64 :=
  (s.foldl (fun h b => (h ^^^ b.toUInt64) * 1099511628211) h ^^^ 0xff) * 1099511628211

/-- What the verdicts depend on, hashed: trusted bots, masks, users. -/
def authFingerprint (b : BotState) : UInt64 :=
  let h := b.trustedBots.foldl (fun h tb => fpStr (fpStr h tb.mask) tb.uuid) 14695981039346656037
  let h := b.maskRecords.foldl
    (fun h m => fpStr (fpStr h m.mask) m.uuid + m.isActive.toUInt64) h
  let h := b.userRecords.foldl (fun h u => fpStr h u.uuid + u.isActive.toUInt64) h
  h * 1099511628211 + b.trustedBots.length.toUInt64 * 3 + b.maskRecords.length.toUInt64 * 5 +
    b.userRecords.length.toUInt64

/-- The cells after `auth_epoch`. The records are hashed at most every 200 ms; a
change starts a new generation. -/
def authCells (b : BotState) : AuthCells :=
  let c := b.auth
  if c.gen ≠ 0 ∧ c.seenCfgGen = b.cfgGen ∧ b.monoMs - c.fpMs < 200 then c
  else
    let h := authFingerprint b
    if c.gen = 0 ∨ h ≠ c.fp ∨ c.seenCfgGen ≠ b.cfgGen then
      ⟨if c.gen + 1 = 0 then 1 else c.gen + 1, b.cfgGen, h, b.monoMs⟩
    else { c with fpMs := b.monoMs }

/-- `auth_epoch`: the generation the cached verdicts must carry to be valid. -/
def authEpoch (b : BotState) : UInt32 × BotState :=
  ((authCells b).gen, { b with auth := authCells b })

/-- `entry_authorised`: the verdict on a roster entry, and the entry and the state
with their caches filled. -/
def entryAuthorised (b : BotState) (e : RosterEntry) : Bool × RosterEntry × BotState :=
  if isMe b e.nick then (true, e, b)
  else
    let (gen, b) := authEpoch b
    let e :=
      if e.authGen ≠ gen then
        { e with authorised := isAuthorised b e.hostmask, authGen := gen }
      else e
    (e.authorised, e, b)

/-- What `entry_authorised` reports. -/
def entryVerdict (b : BotState) (e : RosterEntry) : Bool := (entryAuthorised b e).1

/-! ### Bans -/

/-- `allowed_members`: an authorised member whom `mask` would hit. Every call in
the walk sees one generation of the cache (`entryAuthorised_again`), so the
verdicts are those of the state it starts from. -/
def allowedMembers (b : BotState) (ci : Nat) (mask : Str) : Option Str :=
  b.chans[ci]?.bind fun c =>
    (c.roster.find? fun e => entryVerdict b e && wildcardMatch mask e.hostmask).map fun e =>
      str "member " ++ e.nick

/-- `ban_allowed_why`: `error who` names what the mask would hit. -/
def banAllowedWhy (b : BotState) (ci : Option Nat) (mask : Str) : Except Str Unit :=
  if !safeToken mask banMaskMax then .error (str "bad mask")
  else
    match ci.bind fun ci => allowedMembers b ci mask with
    | some who => .error who
    | none =>
        match maskOverlapsAuthorised b mask with
        | some who => .error who
        | none => .ok ()

/-! ### The deal -/

/-- The rest of two digit runs: the longer one is greater, else the first
difference decides. -/
def digitRun (state : Ordering) (c1 c2 : UInt8) : Str → Str → Ordering
  | d1 :: p1, d2 :: p2 =>
      let state := state.then (compare c1 c2)
      if isDigit d1 then if isDigit d2 then digitRun state d1 d2 p1 p2 else .gt
      else if isDigit d2 then .lt
      else state
  | d1 :: _, [] => if isDigit d1 then .gt else state.then (compare c1 c2)
  | [], d2 :: _ => if isDigit d2 then .lt else state.then (compare c1 c2)
  | [], [] => state.then (compare c1 c2)

/-- `strverscmp`: at the first difference two digits are compared along with the digits that
follow them, other bytes by themselves. -/
def strverscmp : Str → Str → Ordering
  | [], [] => .eq
  | x :: a, y :: b =>
      if x = y then if x = 0 then .eq else strverscmp a b
      else if isDigit x ∧ isDigit y then digitRun .eq x y a b
      else compare x y
  | x :: _, [] => compare x 0
  | [], y :: _ => compare 0 y

def stripV (v : Str) : Str :=
  match v with
  | c :: rest => if c = byte 'v' ∨ c = byte 'V' then rest else v
  | [] => []

/-- `updater::version_cmp`. -/
def versionCmp (a b : Str) : Ordering := strverscmp (stripV a) (stripV b)

/-- The tree shows `id` running a version that knows no jobs. -/
def botTooOld (b : BotState) (id : Str) : Bool :=
  b.botTree.any fun r =>
    r.kind ≠ byte 'h' && r.uuid == id && !r.version.isEmpty &&
      versionCmp r.version jobMinVersion == .lt

structure Elig where
  h : Nat
  id : Str
deriving DecidableEq, Repr

/-- `elig_cmp`, as an order: by hash, then by id. -/
def Elig.le (a b : Elig) : Bool := a.h < b.h || (a.h == b.h && decide (a.id ≤ b.id))

section Deal

variable (sha256 : Str → Str)

/-- First 8 bytes (big endian) of SHA-256(lc_chan || id). -/
def dealHash (lcChan id : Str) : Nat :=
  ((sha256 (lcChan ++ id)).take 8).foldl (fun n b => n * 256 + b.toNat) 0

/-- `elig_add`; `none` where it refuses. -/
def eligAdd (el : List Elig) (lcChan id : Str) : Option (List Elig) :=
  if el.any fun e => e.id == id then none
  else if maxChan + 64 < lcChan.length + id.length then none
  else some (el ++ [⟨dealHash sha256 lcChan id, trunc id 64⟩])

/-- The id under which an opped roster entry takes part in the deal. -/
def dealId (b : BotState) (e : RosterEntry) : Option Str :=
  if !e.isOp || isMe b e.nick then none
  else
    (trustedBotByHost b e.hostmask).bind fun ti =>
      b.trustedBots[ti]?.bind fun tb =>
        let id := if tb.uuid.isEmpty then tb.mask else tb.uuid
        if botTooOld b id then none else some id

/-- One roster entry of the walk in `deal_rank`. -/
def dealStep (b : BotState) (lc : Str) (el : List Elig) (e : RosterEntry) : List Elig :=
  if maxRosterSize < el.length then el
  else
    match dealId b e with
    | some id => (eligAdd sha256 el lc id).getD el
    | none => el

/-- The id this bot deals itself in under. -/
def dealMe (b : BotState) : Str := trunc (if b.botUuid.isEmpty then b.currentNick else b.botUuid) 64

/-- `deal_rank`: this bot's backup index (0 = holds the job now), or -1 when it
takes no part. -/
def dealRank (b : BotState) (ci job : Nat) : Int :=
  match b.chans[ci]? with
  | none => -1
  | some c =>
      if !c.iAmOpped || jobCount ≤ job then -1
      else
        let lc := lowerCopy c.name maxChan
        let me := dealMe b
        match eligAdd sha256 [] lc me with
        | none => -1
        | some el =>
            let el := (c.roster.foldl (dealStep sha256 b lc) el).insertionSort (Elig.le · ·)
            match Lib.Deal.rposition (·.id == me) el with
            | none => -1
            | some pos => (Lib.Deal.dealt el.length pos job : Nat)

end Deal

/-! ### What the cache reports -/

@[simp] theorem safeToken_iff {s : Str} {max : Nat} :
    safeToken s max = true ↔
      s ≠ [] ∧ s.length ≤ max ∧ ∀ c ∈ s, 0x20 < c ∧ c ≠ 0x7f := by
  simp [safeToken, and_assoc]

/-- A generation, once taken, stands for the rest of this reading of the clock. -/
theorem authCells_again (b : BotState) :
    authCells { b with auth := authCells b } = authCells b := by
  have hfresh : (authCells b).gen ≠ 0 ∧ (authCells b).seenCfgGen = b.cfgGen ∧
      b.monoMs - (authCells b).fpMs < 200 := by
    unfold authCells
    dsimp only
    split
    · assumption
    · split
      · refine ⟨?_, rfl, by simp⟩
        dsimp only
        split
        · decide
        · assumption
      · rename_i h
        simp only [not_or, ne_eq, not_not] at h
        exact ⟨h.1, h.2.2, by simp⟩
  exact if_pos hfresh

/-- The verdict in terms of the generation and the records. -/
theorem entryVerdict_eq (b : BotState) (e : RosterEntry) :
    entryVerdict b e =
      (isMe b e.nick ||
        if e.authGen = (authCells b).gen then e.authorised else isAuthorised b e.hostmask) := by
  unfold entryVerdict entryAuthorised
  by_cases hme : isMe b e.nick = true
  · simp [hme]
  · by_cases hgen : e.authGen = (authCells b).gen
    · simp [hme, authEpoch, hgen]
    · simp [hme, authEpoch, hgen]
      rfl

/-- Filling the caches does not change what a further call reports, about the
same entry or any other. -/
theorem entryAuthorised_again (b : BotState) (e f : RosterEntry) :
    entryVerdict (entryAuthorised b e).2.2 f = entryVerdict b f := by
  by_cases hme : isMe b e.nick = true
  · simp [entryAuthorised, hme]
  · have hstate : (entryAuthorised b e).2.2 = { b with auth := authCells b } := by
      simp [entryAuthorised, hme, authEpoch]
    rw [hstate, entryVerdict_eq, entryVerdict_eq, authCells_again]
    rfl

/-- The entry with its cache filled is reported as before. -/
theorem entryVerdict_filled (b : BotState) (e : RosterEntry) :
    entryVerdict (entryAuthorised b e).2.2 (entryAuthorised b e).2.1 = entryVerdict b e := by
  rw [entryAuthorised_again, entryVerdict_eq, entryVerdict_eq]
  by_cases hme : isMe b e.nick = true
  · simp [entryAuthorised, hme]
  · by_cases hgen : e.authGen = (authCells b).gen
    · simp [entryAuthorised, authEpoch, hme, hgen]
    · simp [entryAuthorised, authEpoch, hme, hgen]
      rfl

/-! ### When a ban is allowed -/

/-- Without a channel only the token check and the overlap test count. -/
theorem banAllowedWhy_none_eq_ok_iff {b : BotState} {mask : Str} :
    banAllowedWhy b none mask = .ok () ↔
      safeToken mask banMaskMax = true ∧ maskOverlapsAuthorised b mask = none := by
  unfold banAllowedWhy
  by_cases hs : safeToken mask banMaskMax = true
  · cases maskOverlapsAuthorised b mask <;> simp [hs]
  · simp only [Bool.not_eq_true] at hs
    simp [hs]

end IrcBot.Chanenf
