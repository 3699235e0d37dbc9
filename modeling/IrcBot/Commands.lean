/-
# Sealed commands of people (`commands.rs`)

`a2HandleAuth` answers a signed request for the bot's key (~A2A); `a2OpenCommand`
opens a sealed command (~A2, ~A2S), over PRIVMSG or over a DCC chat. Both check
the envelope against `adminNonces`, and nothing else touches that cache.

`no_envelope_twice` follows any run of these calls, with anything else the bot
does in between: no envelope is accepted a second time, by whichever path.
-/
import IrcBot.Activity
import IrcBot.Auth
import IrcBot.Envelope

namespace IrcBot.Commands

open Cstr Crypto Auth Envelope Activity

variable (P : Primitives)

/-! ### ~A2A -/

/-- The signed request of ~A2A, checked up to its envelope: signature, envelope
text, stamp and nonce. -/
def a2ParseAuth (arg : Str) (now : Int) : Option (Str × Str × Int × UInt64) :=
  if arg.findIdx? (· == byte ' ') ≠ some 88 then none
  else
    let tsn := arg.drop 89
    if 40 ≤ tsn.length then none
    else
      -- the envelope parser needs a command: a dummy one
      match envelopeParse (tsn ++ str ":x") with
      | some (ts, nonce, d) =>
          if d ≠ str "x" then none
          else if a2TsSkew < ((now - ts).natAbs : Int) then none
          else some (arg.take 88, tsn, ts, nonce)
      | none => none

/-- The candidate whose key verifies the request. -/
def a2Verify (b : BotState) (userHost msg sig : Str) : Option (Nat × Nat) :=
  (userCandidates b userHost).find? fun (ui, _) =>
    match b.userRecords[ui]?.bind fun u => pubkeyB64Decode P u.pubkeyB64 with
    | some p => P.ed25519Verify (halves p).1 msg sig
    | none => false

/-- The answer to a request that was accepted: the lockbox with the bot's key,
unless throttled. -/
def a2AnswerAuth (b : BotState) (nick dest tsn : Str) (who whoMask : Nat) : BotState :=
  let lastReply := (b.userRecords[who]?.map (·.lastAuthReply)).getD 0
  if b.now - lastReply < a2AuthReplyMinInterval ∨
      b.now - b.lastAuthReplyAny < a2AuthReplyGlobalInterval then b
  else if !b.selfPubSet then b
  else
    let frame := do
      let aad ← a2Context 256 a2kLabel dest nick (some tsn)
      let u ← b.userRecords[who]?
      let upub ← pubkeyB64Decode P u.pubkeyB64
      sealFrame P none (halves upub).2 a2kLabel aad b.selfPub
    match frame with
    | none => b
    | some frame =>
        let b := { b with
          userRecords := b.userRecords.modify who fun u => { u with lastAuthReply := b.now }
          lastAuthReplyAny := b.now }
        let b := markUsed b (some who) (some whoMask) b.now
        ircPrintf b (str "NOTICE " ++ nick ++ str " :~A2K " ++ P.b64Encode frame ++ crlf)

/-- `a2_handle_auth`, and the envelope it accepted, if any. -/
def a2HandleAuth (b : BotState) (nick userHost dest arg : Str) :
    Option (Int × UInt64) × BotState :=
  match a2ParseAuth arg b.now with
  | none => (none, b)
  | some (sigB64, tsn, ts, nonce) =>
      match (b64Decode P sigB64).filter (·.length == 64), a2Context 256 a2aLabel dest nick tsn with
      | some sig, some msg =>
          match a2Verify P b userHost msg sig with
          | none => (none, b)
          | some (who, whoMask) =>
              if b.adminNonces.seen nonce b.now then (none, b)
              else
                let b := { b with adminNonces := b.adminNonces.record nonce b.now }
                (some (ts, nonce), a2AnswerAuth P b nick dest tsn who whoMask)
      | _, _ => (none, b)

/-! ### ~A2 and ~A2S -/

/-- An opened sealed command: who sent it, the command, and for ~A2S the reply
key. -/
structure Opened where
  who : Nat
  cmd : Str
  rk : Option Str

/-- The candidate whose tag verifies, the plaintext and the reply key. `onlyUuid`
limits the candidates to one record. -/
def a2TryKeys (b : BotState) (x : Str) (userHost : Str) (onlyUuid : Option Str)
    (label aad frame : Str) (sealedReplies : Bool) : Option (Nat × Nat × Str × Option Str) :=
  (userCandidates b userHost).findSome? fun (ui, mi) => do
    let u ← b.userRecords[ui]?
    if onlyUuid.any (· ≠ u.uuid) then none
    else
      let upub ← pubkeyB64Decode P u.pubkeyB64
      let (pt, rk) ← openRk P x (halves b.selfPub).2 (some (halves upub).2) label aad frame
        (if sealedReplies then some a2rLabel else none)
      some (ui, mi, pt, rk)

/-- `a2_open_command`, and the envelope it accepted, if any. -/
def a2OpenCommand (b : BotState) (nick userHost dest : Str) (onlyUuid : Option Str) (b64 : Str)
    (sealedReplies : Bool) : Option (Int × UInt64 × Opened) × BotState :=
  let label := if sealedReplies then a2sLabel else a2Label
  if a2B64Max < b64.length then (none, b)
  else
    match a2Context 160 label dest nick none,
        (b64Decode P b64).filter (sealOverhead ≤ ·.length) with
    | some aad, some frame =>
        if !b.selfPubSet then (none, b)
        else
          let (key, b) :=
            if (userCandidates b userHost).isEmpty then (none, b) else botKeyDecode P b
          match key.bind fun (_, x) =>
              a2TryKeys P b x userHost onlyUuid label aad frame sealedReplies with
          | none => (none, b)
          | some (who, whoMask, pt, rk) =>
              if hasControlBytes pt then (none, b)
              else
                match envelopeParse (fromUtf8Lossy pt) with
                | none => (none, b)
                | some (ts, nonce, cmd) =>
                    if a2TsSkew < ((b.now - ts).natAbs : Int) then (none, b)
                    else if b.adminNonces.seen nonce b.now then (none, b)
                    else
                      let b := { b with adminNonces := b.adminNonces.record nonce b.now }
                      (some (ts, nonce, { who, cmd, rk }),
                        markUsed b (some who) (some whoMask) b.now)
    | _, _ => (none, b)

/-! ### What one call does to the nonces -/

/-- A call that looks at an envelope either leaves the cache alone and accepts
nothing, or accepts an envelope whose stamp is within the skew and whose nonce
was not seen, and records it. -/
def NonceStep (b b' : BotState) : Option (Int × UInt64) → Prop
  | none => b'.adminNonces = b.adminNonces
  | some (ts, nonce) =>
      ts - b.now ≤ a2TsSkew ∧ b.now - ts ≤ a2TsSkew ∧ b.adminNonces.seen nonce b.now = false ∧
        b'.adminNonces = b.adminNonces.record nonce b.now

theorem adminNonces_markUsed (b : BotState) (user maskIdx : Option Nat) (now : Int) :
    (markUsed b user maskIdx now).adminNonces = b.adminNonces ∧
      (markUsed b user maskIdx now).now = b.now := by
  rw [(sameButActivity_markUsed b user maskIdx now).eq]
  exact ⟨rfl, rfl⟩

theorem adminNonces_ircPrintf (b : BotState) (line : Str) :
    (ircPrintf b line).adminNonces = b.adminNonces ∧ (ircPrintf b line).now = b.now := by
  obtain ⟨out, h, -⟩ := ircPrintf_eq b line
  rw [h]
  exact ⟨rfl, rfl⟩

theorem a2AnswerAuth_frame (b : BotState) (nick dest tsn : Str) (who whoMask : Nat) :
    (a2AnswerAuth P b nick dest tsn who whoMask).adminNonces = b.adminNonces ∧
      (a2AnswerAuth P b nick dest tsn who whoMask).now = b.now := by
  unfold a2AnswerAuth
  dsimp only
  split
  · exact ⟨rfl, rfl⟩
  · split
    · exact ⟨rfl, rfl⟩
    · split
      · exact ⟨rfl, rfl⟩
      · have hirc := adminNonces_ircPrintf
        have hused := adminNonces_markUsed
        exact ⟨(hirc _ _).1.trans (hused _ _ _ _).1, (hirc _ _).2.trans (hused _ _ _ _).2⟩

theorem a2ParseAuth_skew {arg sig tsn : Str} {now ts : Int} {nonce : UInt64}
    (h : a2ParseAuth arg now = some (sig, tsn, ts, nonce)) :
    ts - now ≤ a2TsSkew ∧ now - ts ≤ a2TsSkew := by
  unfold a2ParseAuth at h
  dsimp only at h
  split at h
  · simp at h
  · split at h
    · simp at h
    · split at h
      · split at h
        · simp at h
        · split at h
          · simp at h
          · rename_i hskew
            simp only [Option.some.injEq, Prod.mk.injEq] at h
            obtain ⟨-, -, rfl, -⟩ := h
            omega
      · simp at h

theorem nonceStep_a2HandleAuth (b : BotState) (nick userHost dest arg : Str) :
    NonceStep b (a2HandleAuth P b nick userHost dest arg).2
        (a2HandleAuth P b nick userHost dest arg).1 ∧
      (a2HandleAuth P b nick userHost dest arg).2.now = b.now := by
  unfold a2HandleAuth
  split
  · exact ⟨rfl, rfl⟩
  · rename_i hparse
    obtain ⟨hearly, hlate⟩ := a2ParseAuth_skew hparse
    split
    · split
      · exact ⟨rfl, rfl⟩
      · split
        · exact ⟨rfl, rfl⟩
        · rename_i hunseen
          have hframe := a2AnswerAuth_frame P
          exact ⟨⟨hearly, hlate, by simpa using hunseen, (hframe _ _ _ _ _ _).1⟩,
            (hframe _ _ _ _ _ _).2⟩
    · exact ⟨rfl, rfl⟩

/-- The envelope an opened command was accepted with. -/
def envelopeOf : Option (Int × UInt64 × Opened) → Option (Int × UInt64)
  | some (ts, nonce, _) => some (ts, nonce)
  | none => none

theorem nonceStep_a2OpenCommand (b : BotState) (nick userHost dest : Str) (onlyUuid : Option Str)
    (b64 : Str) (sealedReplies : Bool) :
    NonceStep b (a2OpenCommand P b nick userHost dest onlyUuid b64 sealedReplies).2
        (envelopeOf (a2OpenCommand P b nick userHost dest onlyUuid b64 sealedReplies).1) ∧
      (a2OpenCommand P b nick userHost dest onlyUuid b64 sealedReplies).2.now = b.now := by
  -- whether or not the identity key had to be decoded, the rest sees the same state
  have hkey : ∃ raw, (if (userCandidates b userHost).isEmpty then (none, b)
      else botKeyDecode P b).2 = { b with hubKeyRaw := raw } := by
    split
    · exact ⟨_, rfl⟩
    · exact botKeyDecode_eq P b
  unfold a2OpenCommand
  dsimp only
  generalize (if (userCandidates b userHost).isEmpty then (none, b) else botKeyDecode P b) = r
    at hkey ⊢
  obtain ⟨key, b'⟩ := r
  obtain ⟨raw, rfl⟩ := hkey
  split
  · exact ⟨rfl, rfl⟩
  · split
    · split
      · exact ⟨rfl, rfl⟩
      · split
        · exact ⟨rfl, rfl⟩
        · split
          · exact ⟨rfl, rfl⟩
          · split
            · exact ⟨rfl, rfl⟩
            · split
              · exact ⟨rfl, rfl⟩
              · split
                · exact ⟨rfl, rfl⟩
                · rename_i hskew hunseen
                  have hused := adminNonces_markUsed
                  dsimp only at hskew
                  exact ⟨⟨by omega, by omega, by simpa using hunseen, (hused _ _ _ _).1⟩,
                    (hused _ _ _ _).2⟩
    · exact ⟨rfl, rfl⟩

/-! ### Runs -/

/-- An envelope that was accepted, and when. -/
structure Accepted where
  ts : Int
  nonce : UInt64
  time : Int

/-- What one call adds to the list of accepted envelopes. -/
def accept (time : Int) : Option (Int × UInt64) → List Accepted → List Accepted
  | some (ts, nonce), tr => ⟨ts, nonce, time⟩ :: tr
  | none, tr => tr

theorem length_accept_le (time : Int) (env : Option (Int × UInt64)) (tr : List Accepted) :
    (accept time env tr).length ≤ tr.length + 1 := by
  cases env with
  | none => exact Nat.le_succ _
  | some _ => exact le_rfl

/-- Runs of one process: calls of the two entry points in any order and with any
input, over PRIVMSG or DCC, and anything else the bot does, with what has been
accepted so far, newest first. The clock does not go back. -/
inductive Run : BotState → List Accepted → Prop
  | start (b : BotState) : Run b []
  | auth {b tr} (h : Run b tr) (nick userHost dest arg : Str) :
      Run (a2HandleAuth P b nick userHost dest arg).2
        (accept b.now (a2HandleAuth P b nick userHost dest arg).1 tr)
  | command {b tr} (h : Run b tr) (nick userHost dest : Str) (onlyUuid : Option Str) (b64 : Str)
      (sealedReplies : Bool) :
      Run (a2OpenCommand P b nick userHost dest onlyUuid b64 sealedReplies).2
        (accept b.now
          (envelopeOf (a2OpenCommand P b nick userHost dest onlyUuid b64 sealedReplies).1) tr)
  /-- Everything else: only the two calls touch the cache. -/
  | other {b b' tr} (h : Run b tr) (hcache : b'.adminNonces = b.adminNonces)
      (hclock : b.now ≤ b'.now) : Run b' tr

/-- An accepted envelope as the cache sees it. -/
def Accepted.receipt (e : Accepted) : Lib.ReplayRing.Receipt UInt64 := ⟨e.nonce, e.ts, e.time⟩

/-- The nonces recorded, with their times, newest first. -/
def recorded (tr : List Accepted) : List (UInt64 × Int) := tr.map fun e => (e.nonce, e.time)

/-- One call is one step of the receiver behind the cache. -/
theorem ringRun_step {b b' : BotState} {tr : List Accepted} {env : Option (Int × UInt64)}
    (h : Lib.ReplayRing.Run nonceTtlSeconds a2TsSkew a2TsSkew b.adminNonces b.now
      (tr.map Accepted.receipt))
    (hstep : NonceStep b b' env) (hnow : b'.now = b.now) :
    Lib.ReplayRing.Run nonceTtlSeconds a2TsSkew a2TsSkew b'.adminNonces b'.now
      ((accept b.now env tr).map Accepted.receipt) := by
  cases env with
  | none =>
      rw [show b'.adminNonces = b.adminNonces from hstep, hnow]
      exact h
  | some env =>
      obtain ⟨hearly, hlate, hunseen, hrecord⟩ := hstep
      rw [hrecord, hnow]
      exact h.accept env.2 env.1 hearly hlate hunseen

/-- **The two calls implement the receiver**: every run is a run of it. -/
theorem Run.ringRun {b : BotState} {tr : List Accepted} (h : Run P b tr) :
    Lib.ReplayRing.Run nonceTtlSeconds a2TsSkew a2TsSkew b.adminNonces b.now
      (tr.map Accepted.receipt) := by
  induction h with
  | start b => exact .start _ _
  | auth _ nick userHost dest arg ih =>
      obtain ⟨hstep, hnow⟩ := nonceStep_a2HandleAuth P _ nick userHost dest arg
      exact ringRun_step ih hstep hnow
  | command _ nick userHost dest onlyUuid b64 sealedReplies ih =>
      obtain ⟨hstep, hnow⟩ :=
        nonceStep_a2OpenCommand P _ nick userHost dest onlyUuid b64 sealedReplies
      exact ringRun_step ih hstep hnow
  | other _ hcache hclock ih =>
      rw [hcache]
      exact ih.tick hclock

/-- **No envelope is accepted twice**, by any mix of the paths, while fewer than
4096 different nonces are recorded within any 60 seconds, both ends counted as
the cache counts them. -/
theorem no_envelope_twice {b : BotState} {tr : List Accepted} (h : Run P b tr)
    (hrate : Lib.ReplayRing.Sparse nonceTtlSeconds maxSeenHashes (recorded tr)) :
    tr.Pairwise fun e f => (e.ts, e.nonce) ≠ (f.ts, f.nonce) := by
  have hnodup := (h.ringRun P).nodup (by decide) (by
    simpa [recorded, Accepted.receipt, Lib.ReplayRing.Receipt.entry, Function.comp_def] using hrate)
  refine (List.pairwise_map.mp hnodup).imp fun {e f} hne heq => ?_
  simp only [Prod.mk.injEq] at heq
  exact hne ⟨heq.2, heq.1⟩

/-! ### A request sent twice -/

/-- A bot with one keyed user, at time 100. -/
def oneUser : BotState :=
  { now := 100
    userRecords := [{
      uuid := str "u", isActive := true, hasPubkey := true,
      pubkeyB64 := List.replicate 86 (byte 'A') ++ str "==" }]
    maskRecords := [{ uuid := str "u", mask := str "*!*@a.net", isActive := true }] }

/-- A signed request with stamp 100. -/
def request : Str := List.replicate 88 (byte 'A') ++ str " 100:00000000000000ff"

/-- One delivery of the request. -/
def deliver (b : BotState) : Option (Int × UInt64) × BotState :=
  a2HandleAuth .clear b (str "nick") (str "nick!user@a.net") (str "bot") request

/-- The request is accepted once; its repetition is not. -/
theorem no_envelope_twice_repeated :
    (deliver oneUser).1 = some (100, 255) ∧ (deliver (deliver oneUser).2).1 = none ∧
      (accept 100 (deliver (deliver oneUser).2).1 (accept 100 (deliver oneUser).1 [])).Pairwise
        fun e f => (e.ts, e.nonce) ≠ (f.ts, f.nonce) := by
  refine ⟨by decide +kernel, by decide +kernel, ?_⟩
  have hfirst : Run .clear (deliver oneUser).2 (accept 100 (deliver oneUser).1 []) :=
    (Run.start oneUser).auth (str "nick") (str "nick!user@a.net") (str "bot") request
  have hclock : (deliver oneUser).2.now = 100 := by
    have hnow := (nonceStep_a2HandleAuth .clear oneUser (str "nick") (str "nick!user@a.net")
      (str "bot") request).2
    rw [deliver, hnow]
    rfl
  have htwice : Run .clear (deliver (deliver oneUser).2).2
      (accept (deliver oneUser).2.now (deliver (deliver oneUser).2).1
        (accept 100 (deliver oneUser).1 [])) :=
    hfirst.auth (str "nick") (str "nick!user@a.net") (str "bot") request
  rw [hclock] at htwice
  refine no_envelope_twice .clear htwice (Lib.ReplayRing.sparse_of_length_lt ?_)
  have hfew := length_accept_le 100 (deliver (deliver oneUser).2).1
    (accept 100 (deliver oneUser).1 [])
  have hfew' := length_accept_le 100 (deliver oneUser).1 []
  have hmax : maxSeenHashes = 4096 := rfl
  rw [recorded, List.length_map, hmax]
  simp only [List.length_nil] at hfew'
  omega

end IrcBot.Commands
