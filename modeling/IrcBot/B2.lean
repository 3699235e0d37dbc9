/-
# Sealed frames of bots (`bot_comms.rs`)

A ~B2 frame is sealed by one bot to another, and only the holder of the sender's
key can make one that opens. `openB2` checks and opens one and records its nonce;
`b2Send` seals a command and puts it on its way, by the hub or as a PRIVMSG.
-/
import IrcBot.Auth
import IrcBot.Envelope
import IrcBot.HubPush

namespace IrcBot.B2

open Cstr Crypto Envelope HubPush

variable (P : Primitives)

/-- `b2_aad`: the label and the two bots. -/
def b2Aad (senderUuid recipientUuid : Str) : Str :=
  b2Label ++ 0 :: (senderUuid ++ 0 :: recipientUuid)

/-- The plaintext of a frame from trusted bot `sender`, and the state with the
identity key decoded if it had to be. -/
def openFrom (b : BotState) (sender : TrustedBot) (b64 : Str) : Option Str × BotState :=
  if !sender.hasPub || sender.uuid.isEmpty then (none, b)
  else if !b.selfPubSet || b.botUuid.isEmpty then (none, b)
  else if a2B64Max < b64.length then (none, b)
  else
    match (b64Decode P b64).filter (sealOverhead ≤ ·.length) with
    | none => (none, b)
    | some frame =>
        let (key, b) := botKeyDecode P b
        (key.bind fun (_, x) =>
          openFrame P x (halves b.selfPub).2 (some (halves sender.pubKey).2) b2Label
            (b2Aad sender.uuid b.botUuid) frame, b)

/-- The first half of `open_and_dispatch`: the envelope of a frame that is
accepted, with its nonce recorded. -/
def openB2 (b : BotState) (sender : TrustedBot) (b64 : Str) :
    Option (Int × UInt64 × Str) × BotState :=
  match openFrom P b sender b64 with
  | (none, b) => (none, b)
  | (some pt, b) =>
      if hasControlBytes pt then (none, b)
      else
        match envelopeParse (fromUtf8Lossy pt) with
        | none => (none, b)
        | some (ts, nonce, cmd) =>
            if b2TsSkew < ((b.now - ts).natAbs : Int) then (none, b)
            else if b.recentNonces.seen nonce b.now then (none, b)
            else (some (ts, nonce, cmd), { b with recentNonces := b.recentNonces.record nonce b.now })

/-! ### Sending -/

/-- Two lower-case hexadecimal digits. -/
def hexByte (b : UInt8) : Str :=
  let digit (n : Nat) : UInt8 := if n < 10 then 48 + n.toUInt8 else 87 + n.toUInt8
  [digit (b.toNat / 16), digit (b.toNat % 16)]

/-- The sealed line for trusted bot `tb`, and the state with the identity key
decoded if it had to be. -/
def sealTo (b : BotState) (tb : TrustedBot) (command : Str) : Option Str × BotState :=
  if !tb.hasPub || tb.uuid.isEmpty then (none, b)
  else if !b.selfPubSet || b.botUuid.isEmpty then (none, b)
  else if 256 ≤ command.length then (none, b)
  else
    match P.randomBytes b.monoMs 8 with
    | none => (none, b)
    | some rnd =>
        let pt := dec b.now ++ str ":" ++ rnd.flatMap hexByte ++ str ":" ++ command
        if 512 ≤ pt.length then (none, b)
        else
          let (key, b) := botKeyDecode P b
          let line := do
            let (_, x) ← key
            let frame ← sealFrame P (some (x, (halves b.selfPub).2)) (halves tb.pubKey).2 b2Label
              (b2Aad b.botUuid tb.uuid) pt
            let line := str "~B2 " ++ P.b64Encode frame
            if 1024 ≤ line.length then none else some line
          (line, b)

/-- `b2_send`. -/
def b2Send (b : BotState) (ti : Option Nat) (targetNick command : Str) : BotState :=
  match ti.bind fun i => b.trustedBots[i]? with
  | none => b
  | some tb =>
      match sealTo P b tb command with
      | (none, b) => b
      | (some line, b) =>
          match relayBotCommand b tb.uuid line with
          | (true, b) => b
          | (false, b) => ircPrintf b (str "PRIVMSG " ++ targetNick ++ str " :" ++ line ++ crlf)

/-- `trusted_bot_by_nick`. -/
def trustedBotByNick (b : BotState) (nick : Str) : Option Nat :=
  if nick.isEmpty then none else b.trustedBots.findIdx? fun tb => eqIc tb.nick nick

/-- `send_command`. -/
def sendCommand (b : BotState) (targetNick command : Str) : BotState :=
  b2Send P b (trustedBotByNick b targetNick) targetNick command

/-! ### What opening and sealing can change -/

theorem openFrom_eq (b : BotState) (sender : TrustedBot) (b64 : Str) :
    ∃ raw, (openFrom P b sender b64).2 = { b with hubKeyRaw := raw } := by
  unfold openFrom
  split
  · exact ⟨_, rfl⟩
  · split
    · exact ⟨_, rfl⟩
    · split
      · exact ⟨_, rfl⟩
      · split
        · exact ⟨_, rfl⟩
        · exact botKeyDecode_eq P b

/-- Opening a frame decodes the key and notes a nonce, and no more. -/
theorem openB2_eq (b : BotState) (sender : TrustedBot) (b64 : Str) :
    ∃ raw ring, (openB2 P b sender b64).2 = { b with hubKeyRaw := raw, recentNonces := ring } := by
  obtain ⟨raw, hopen⟩ := openFrom_eq P b sender b64
  unfold openB2
  split
  · rename_i b' heq
    rw [heq] at hopen
    exact ⟨raw, _, hopen⟩
  · rename_i pt b' heq
    rw [heq] at hopen
    dsimp only at hopen
    subst hopen
    split
    · exact ⟨_, _, rfl⟩
    · split
      · exact ⟨_, _, rfl⟩
      · split
        · exact ⟨_, _, rfl⟩
        · split
          · exact ⟨_, _, rfl⟩
          · exact ⟨_, _, rfl⟩

theorem sealTo_eq (b : BotState) (tb : TrustedBot) (command : Str) :
    ∃ raw, (sealTo P b tb command).2 = { b with hubKeyRaw := raw } := by
  unfold sealTo
  split
  · exact ⟨_, rfl⟩
  · split
    · exact ⟨_, rfl⟩
    · split
      · exact ⟨_, rfl⟩
      · split
        · exact ⟨_, rfl⟩
        · dsimp only
          split
          · exact ⟨_, rfl⟩
          · exact botKeyDecode_eq P b

end IrcBot.B2
