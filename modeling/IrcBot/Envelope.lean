/-
# The envelope of a sealed command (`bot_comms.rs`, `commands.rs`)

`<ts>:<nonce>:<command>`, shared by the sealed commands of people (~A2, ~A2A,
~A2S) and of bots (~B2), and the context they are bound to.
-/
import IrcBot.Crypto

namespace IrcBot.Envelope

open Cstr Crypto

/-- The value of a run of decimal digits. -/
def decVal (s : Str) : Nat := s.foldl (fun n c => n * 10 + (c - 48).toNat) 0

/-- The value of a run of lower-case hexadecimal digits. -/
def hexVal (s : Str) : Nat :=
  s.foldl (fun n c => n * 16 + if isDigit c then (c - 48).toNat else (c - 87).toNat) 0

/-- `envelope_parse`: ts of 1 to 19 digits, nonce of exactly 16 lower-case
hexadecimal digits, a command that is not empty. -/
def envelopeParse (pt : Str) : Option (Int × UInt64 × Str) :=
  let digits := pt.takeWhile isDigit
  let nd := digits.length
  if nd = 0 ∨ 19 < nd ∨ pt[nd]? ≠ some (byte ':') then none
  else
    let q := pt.drop (nd + 1)
    let hex (c : UInt8) : Bool := isDigit c || (97 ≤ c && c ≤ 102)
    if q.length < 18 || !(q.take 16).all hex || q[16]? ≠ some (byte ':') then none
    else if i64Max < decVal digits then none
    else some (decVal digits, UInt64.ofNat (hexVal (q.take 16)), q.drop 17)

/-- `lc_copy`: lower-cased, `none` unless `0 < len < cap`. -/
def lcCopy (s : Str) (cap : Nat) : Option Str :=
  if s.isEmpty || cap ≤ s.length then none else some (s.map lower)

/-- `a2_context`: label, lower-cased nicks and an extra field, separated by NULs. -/
def a2Context (cap : Nat) (label botnick usernick : Str) (extra : Option Str) : Option Str := do
  let b ← lcCopy botnick a2NickMax
  let u ← lcCopy usernick a2NickMax
  let out := label ++ 0 :: b ++ 0 :: u ++ (extra.elim [] fun e => 0 :: e)
  if out.isEmpty || cap ≤ out.length then none else some out

/-- `bot_key_decode`: the identity key, decoded from its base64 form (and kept)
when the raw copy was never filled. -/
def botKeyDecode (P : Primitives) (b : BotState) : Option (Str × Str) × BotState :=
  if !b.hubKeyRaw.all (· == 0) then (some (halves b.hubKeyRaw), b)
  else
    match b64Decode P b.hubKey with
    | some dec =>
        if dec.length = hubKeyRawLen then (some (halves dec), { b with hubKeyRaw := dec })
        else (none, b)
    | none => (none, b)

/-- Decoding the key fills the raw copy, or does nothing. -/
theorem botKeyDecode_eq (P : Primitives) (b : BotState) :
    ∃ raw, (botKeyDecode P b).2 = { b with hubKeyRaw := raw } := by
  unfold botKeyDecode
  split
  · exact ⟨_, rfl⟩
  · split
    · split
      · exact ⟨_, rfl⟩
      · exact ⟨_, rfl⟩
    · exact ⟨_, rfl⟩

end IrcBot.Envelope
