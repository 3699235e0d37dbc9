/-
# A sealed command, from end to end (`bot_auth.rs`, `commands.rs`)

`bot-auth cmd` seals one command for a bot, and `a2_open_command` opens it. The two programs build
the keys, the associated data, the frame and the envelope each by code of its own.

* `openRk_sealed` — the frame of one opens in the other, for the key that it was sealed for.
* `not_roundTrip` — a record with the same X25519 half that is tried earlier takes the command.
* `roundTrip` — where no record that is tried earlier derives the same key, the command arrives as
  it was given, from the user who gave it, and with the reply key that was kept for it.
-/
import IrcBot.BotAuth
import IrcBot.Chancfg
import IrcBot.Commands
import IrcBot.EnvelopeText

namespace IrcBot

open Cstr

namespace BotAuth

/-- `Die`: the exit status and the message. -/
structure Die where
  status : Int
  text : Str
deriving DecidableEq, Repr

/-- A key file that was loaded. Where a holder has the key, it takes the same steps with it. -/
structure UserKey where
  privKey : Str

/-- `derive_pub`. -/
def derivePub (T : Tools) (privKey : Str) : Str :=
  T.ed25519Public (privKey.take 32) ++ T.x25519Public (privKey.drop 32)

def UserKey.pubKey (T : Tools) (k : UserKey) : Str := derivePub T k.privKey

/-- What one call finds: the files, its input, the clock in seconds since 1970, what it draws, and
whether the reply key can be written. -/
structure Env where
  files : Str → Option Str
  stdin : Str
  now : Nat
  nonce : Option Str
  eph : Option Str
  iv : Option Str
  writable : Bool

/-- `read_first_line`, of a file that may not be there. -/
def readFirstLine (file : Option Str) (cap : Nat) : Option Str :=
  let stops (c : UInt8) : Bool := c == byte ' ' || c == 9 || c == 13 || c == 10 || c == 0
  (file.map fun data => (data.take (chunkLen cap data)).takeWhile (!stops ·)).filter (!·.isEmpty)

/-- `load_pub`: inline, or "@file". -/
def loadPub (files : Str → Option Str) (arg : Str) : Except Die Str := do
  let line ←
    if arg.head? = some (byte '@') then
      match readFirstLine (files (arg.drop 1)) 256 with
      | some l => pure l
      | none => throw ⟨1, str "cannot read the pubkey file"⟩
    else pure ((readFirstLine (files arg) 256).getD (arg.take 255))
  match if line.length = 88 then (b64dec line keyLen).filter (·.length = keyLen) else none with
  | some key => pure key
  | none => throw ⟨1, str "not an 88-char public key"⟩

/-- `read_cmd_line`: the line, and whether the input ended with it. -/
def readCmdLine (stdin : Str) : Str × Bool :=
  let line := stdin.take (chunkLen (maxCmd + 2) stdin)
  (line, line.length < maxCmd + 1 && line.getLast? != some 10)

/-- The command that `cmd` is given. -/
def readCommand (stdin : Str) : Except Die Str := do
  let (lineIn, eof) := readCmdLine stdin
  if lineIn.isEmpty && eof then throw ⟨1, str "no command on stdin"⟩
  let s := untilNul lineIn
  let cmd := s.takeWhile fun c => c ≠ 13 && c ≠ 10
  if cmd.length = s.length && !eof then throw ⟨1, str "command too long"⟩
  if cmd.isEmpty then throw ⟨1, str "empty command"⟩
  if cmd.any fun c => c < 0x20 || c = 0x7f then
    throw ⟨1, str "control characters are not allowed in commands"⟩
  pure cmd

section Seal

variable (T : Tools) (k : UserKey) (e : Env) (bot me bpub : Str)

/-- The frame of a plaintext, and the reply key of a ~A2S. -/
def sealCommand (isSealed : Bool) (pt : Str) : Option (Str × Option Str) := do
  let label := if isSealed then a2sLabel else a2Label
  let info := label ++ (k.pubKey T).drop 32 ++ bpub.drop 32
  let eph ← e.eph
  let ephPub := T.x25519Public eph
  let aad ← context 160 label bot me none
  let shared ← T.x25519 eph (bpub.drop 32)
  let own ← T.x25519 (k.privKey.drop 32) (bpub.drop 32)
  let key ← T.hkdf (shared ++ own) ephPub info
  let iv ← e.iv
  let (ct, tag) ← T.gcmEncrypt key iv aad pt
  let frame := ephPub ++ iv ++ ct ++ tag
  if isSealed then
    -- the two labels are of one length
    let rk ← T.hkdf (shared ++ own) ephPub (a2rLabel ++ info.drop a2rLabel.length)
    some (frame, some rk)
  else some (frame, none)

/-- `cmd_cmd`: the line it prints, and what it leaves in the reply key file. -/
def cmdCmd (botpub : Str) (isSealed : Bool) : Except Die (Str × Option Str) := do
  let bpub ← loadPub e.files botpub
  let cmd ← readCommand e.stdin
  let some nonce := e.nonce | throw ⟨2, str "RNG failure"⟩
  let pt := dec e.now ++ str ":" ++ nonce.flatMap B2.hexByte ++ str ":" ++ cmd
  let some (frame, rk) := sealCommand T k e bot me bpub isSealed pt
    | throw ⟨2, str "sealing failed"⟩
  let out := b64enc frame
  if maxLine < out.length + (if isSealed then 5 else 4) then
    throw ⟨1, str "command too long for one IRC line (keep it under ~200 chars)"⟩
  if rk.isSome && !e.writable then throw ⟨1, str "cannot write the reply key file"⟩
  pure ((if isSealed then str "~A2S " else str "~A2 ") ++ out, rk.map fun rk => b64enc rk ++ [10])

end Seal

end BotAuth

namespace SealedCommand

open Crypto Envelope EnvelopeText Commands BotAuth

/-! ### What both sides build -/

/-- What the crates are relied on for. -/
structure Ideal (T : Tools) : Prop extends T.Opens where
  /-- Nothing opens under another key. -/
  authentic : ∀ {key iv aad pt ct tag key' iv' aad' pt'},
    T.gcmEncrypt key iv aad pt = some (ct, tag) →
    T.gcmDecrypt key' iv' aad' ct tag = some pt' → key' = key
  symmetric : ∀ a c, T.x25519 a (T.x25519Public c) = T.x25519 c (T.x25519Public a)
  length_x25519Public : ∀ c, (T.x25519Public c).length = 32
  length_ed25519Public : ∀ c, (T.ed25519Public c).length = 32
  lenient : ∀ x, T.lenientDecode (b64enc x) = some x

/-- What a frame between nicks is bound to. -/
def aadOf (label bot me : Str) : Str := label ++ 0 :: bot.map lower ++ 0 :: me.map lower

theorem context_eq {cap : Nat} {label bot me : Str} (hbot : bot.length < 64) (hme : me.length < 64)
    (hcap : label.length + 128 < cap) :
    context cap label bot me none = some (aadOf label bot me) := by
  unfold context
  rw [lcCopy_of_lt hbot, lcCopy_of_lt hme]
  simp only [Option.elim_none, List.append_nil]
  rw [if_pos]
  · rfl
  · simp only [List.length_append, List.length_cons, List.length_map]
    omega

theorem lcCopy_eq {s : Str} (hpos : 0 < s.length) (hlt : s.length < a2NickMax) :
    Envelope.lcCopy s a2NickMax = some (s.map lower) := by
  have hempty : s.isEmpty = false := by
    rw [List.isEmpty_eq_false_iff]
    exact List.ne_nil_of_length_pos hpos
  rw [Envelope.lcCopy, hempty, if_neg]
  simpa using hlt

/-- The bot builds the same from the nicks as it has them. -/
theorem a2Context_eq {cap : Nat} {label bot me dest nick : Str}
    (hdest : dest.map lower = bot.map lower)
    (hnick : nick.map lower = me.map lower) (hbot : 0 < bot.length ∧ bot.length < 64)
    (hme : 0 < me.length ∧ me.length < 64) (hcap : label.length + 128 < cap) :
    a2Context cap label dest nick none = some (aadOf label bot me) := by
  have hd : dest.length = bot.length := by simpa using congrArg List.length hdest
  have hn : nick.length = me.length := by simpa using congrArg List.length hnick
  unfold a2Context
  rw [lcCopy_eq (by omega) (by rw [hd]; exact hbot.2),
    lcCopy_eq (by omega) (by rw [hn]; exact hme.2),
    hdest, hnick]
  simp only [Option.bind_eq_bind, Option.bind_some, Option.elim_none, List.append_nil]
  rw [if_neg]
  · rfl
  · simp only [Bool.or_eq_true, List.isEmpty_iff, decide_eq_true_eq, not_or, not_le]
    constructor
    · simp
    · simp only [List.length_append, List.length_cons, List.length_map]
      omega

/-- The label of a command, sealed replies or not. -/
def labelOf (isSealed : Bool) : Str := if isSealed then BotAuth.a2sLabel else BotAuth.a2Label

theorem labelOf_lt (isSealed : Bool) : (labelOf isSealed).length + 128 < 160 := by
  cases isSealed
  · decide
  · decide

/-- The key that the bot derives for a frame and the X25519 half of a record. -/
def frameKey (T : Tools) (label x selfX ephPub ux : Str) : Option Str := do
  let shared ← T.x25519 x ephPub
  let own ← T.x25519 x ux
  T.hkdf (shared ++ own) ephPub (label ++ ux ++ selfX)

/-- The two labels are of one length. -/
theorem relabel (rest : Str) :
    BotAuth.a2rLabel ++ (BotAuth.a2sLabel ++ rest).drop BotAuth.a2rLabel.length =
      BotAuth.a2rLabel ++ rest := by
  have hlen : BotAuth.a2rLabel.length = BotAuth.a2sLabel.length := by decide
  rw [hlen, List.drop_left]

section Frame

variable {T : Tools} (hT : Ideal T)
include hT

theorem halves_pubKey (k : UserKey) :
    (halves (k.pubKey T)).2 = T.x25519Public (k.privKey.drop 32) := by
  simp [halves, UserKey.pubKey, derivePub, List.drop_left', hT.length_ed25519Public]

/-- What a sealed frame is: of the parts that the bot takes it apart in, and under the key that the
bot derives. -/
theorem sealCommand_eq_some {k : UserKey} {e : Env} {bot me bpub x pt frame : Str} {isSealed : Bool}
    {rk : Option Str} (hbpub : bpub.drop 32 = T.x25519Public x)
    (h : sealCommand T k e bot me bpub isSealed pt = some (frame, rk)) :
    ∃ eph iv ct tag key aad,
      frame = T.x25519Public eph ++ iv ++ ct ++ tag ∧ e.eph = some eph ∧ e.iv = some iv ∧
      context 160 (labelOf isSealed) bot me none = some aad ∧
      T.gcmEncrypt key iv aad pt = some (ct, tag) ∧
      frameKey T (labelOf isSealed) x (T.x25519Public x) (T.x25519Public eph)
        (halves (k.pubKey T)).2 = some key ∧
      (rk = if isSealed then
        frameKey T BotAuth.a2rLabel x (T.x25519Public x) (T.x25519Public eph)
          (halves (k.pubKey T)).2 else none) ∧ (isSealed = true → rk.isSome = true) := by
  have hux : (k.pubKey T).drop 32 = T.x25519Public (k.privKey.drop 32) := halves_pubKey hT k
  simp only [sealCommand, hbpub, hux, Option.bind_eq_bind, Option.bind_eq_some_iff] at h
  obtain ⟨eph, heph, aad, haad, shared, hshared, own, hown, key, hkey, iv, hiv,
    ⟨ct, tag⟩, hct, h⟩ := h
  rw [hT.symmetric] at hshared hown
  have hderive (label : Str) : frameKey T label x (T.x25519Public x) (T.x25519Public eph)
      (halves (k.pubKey T)).2 = T.hkdf (shared ++ own) (T.x25519Public eph)
        (label ++ T.x25519Public (k.privKey.drop 32) ++ T.x25519Public x) := by
    rw [frameKey, halves_pubKey hT, hshared, Option.bind_eq_bind, Option.bind_some, hown]
    rfl
  have hframe : frame = T.x25519Public eph ++ iv ++ ct ++ tag ∧ (rk = if isSealed then
      frameKey T BotAuth.a2rLabel x (T.x25519Public x) (T.x25519Public eph) (halves (k.pubKey T)).2
      else none) ∧ (isSealed = true → rk.isSome = true) := by
    cases isSealed with
    | false =>
        simp only [Bool.false_eq_true, if_false, Option.some.injEq, Prod.mk.injEq] at h ⊢
        exact ⟨h.1.symm, h.2.symm, by simp⟩
    | true =>
        simp only [if_true, List.append_assoc, relabel, Option.bind_eq_some_iff, Option.some.injEq,
          Prod.mk.injEq] at h ⊢
        obtain ⟨r, hr, hframe, hrk⟩ := h
        rw [hderive, List.append_assoc, hr]
        exact ⟨hframe.symm, hrk.symm, fun _ => by rw [← hrk]; rfl⟩
  exact ⟨eph, iv, ct, tag, key, aad, hframe.1, heph, hiv, haad, hct, (hderive _).trans hkey,
    hframe.2⟩

end Frame

section Open

variable (T : Tools)

theorem sealKdf_eq {ikm ephPub label ux selfX : Str} (hlabel : label.length ≤ 64) :
    sealKdf T.toPrimitives ikm ephPub label (some ux) selfX =
      T.hkdf ikm ephPub (label ++ ux ++ selfX) := by
  rw [sealKdf, if_neg (by omega)]
  rfl

theorem gcmOpen_frame {key aad iv ct tag : Str} (hiv : iv.length = 12) (htag : tag.length = 16) :
    gcmOpen T.toPrimitives key aad (iv ++ ct ++ tag) = T.gcmDecrypt key iv aad ct tag := by
  have hlen : (iv ++ ct ++ tag).length = ct.length + 28 := by
    simp only [List.length_append]
    omega
  have hrest : (iv ++ ct ++ tag).drop gcmIvLen = ct ++ tag := by
    rw [List.append_assoc]
    exact List.drop_left' hiv
  have hfront : (iv ++ ct ++ tag).take gcmIvLen = iv := by
    rw [List.append_assoc]
    exact List.take_left' hiv
  have hct : (ct ++ tag).length - gcmTagLen = ct.length := by
    rw [List.length_append, htag]
    exact Nat.add_sub_cancel _ _
  unfold gcmOpen
  rw [if_neg (by rw [hlen]; exact Nat.not_lt.mpr (Nat.le_add_left _ _))]
  dsimp only
  rw [hrest, hfront, hct, List.take_left, List.drop_left]

/-- What the bot makes of a frame: it derives the key for the record, and opens the parts. -/
theorem openRk_frame {label x ux selfX aad ephPub iv ct tag : Str} {rkLabel : Option Str}
    (hlabel : label.length ≤ 64) (heph : ephPub.length = 32) (hiv : iv.length = 12)
    (htag : tag.length = 16) (hct : ct.length ≤ sealMaxPlaintext)
    (hrk : ∀ l ∈ rkLabel, l.length ≤ 64) :
    openRk T.toPrimitives x selfX (some ux) label aad (ephPub ++ iv ++ ct ++ tag) rkLabel =
      (frameKey T label x selfX ephPub ux).bind fun key =>
        (T.gcmDecrypt key iv aad ct tag).bind fun pt =>
          if pt.length ≠ ct.length then none
          else
            match rkLabel with
            | some l => (frameKey T l x selfX ephPub ux).map fun rk => (pt, some rk)
            | none => some (pt, none) := by
  have hlen : (ephPub ++ iv ++ ct ++ tag).length = ct.length + sealOverhead := by
    simp only [List.length_append, heph, hiv, htag]
    rw [show sealOverhead = 60 from rfl]
    omega
  have htake : (ephPub ++ iv ++ ct ++ tag).take 32 = ephPub := by
    rw [List.append_assoc, List.append_assoc, List.take_left' heph]
  have hdrop : (ephPub ++ iv ++ ct ++ tag).drop 32 = iv ++ ct ++ tag := by
    rw [List.append_assoc, List.append_assoc, List.drop_left' heph, List.append_assoc]
  unfold openRk
  rw [hlen, Nat.add_sub_cancel, htake, hdrop, if_neg (by simp), if_neg (by omega),
    if_neg (by omega)]
  unfold frameKey
  simp only [Option.bind_eq_bind]
  cases T.x25519 x ephPub with
  | none => rfl
  | some shared =>
      cases T.x25519 x ux with
      | none => rfl
      | some own =>
          simp only [Option.bind_some, Option.map_some, sealKdf_eq T hlabel,
            gcmOpen_frame T hiv htag]
          cases rkLabel with
          | none => rfl
          | some l => simp only [sealKdf_eq T (hrk l rfl)]

end Open

/-! ### The envelope -/

/-- What `bot-auth` seals: the clock, the nonce and the command. -/
def envelope (now : Nat) (nonce cmd : Str) : Str :=
  dec now ++ str ":" ++ nonce.flatMap B2.hexByte ++ str ":" ++ cmd

theorem envelope_eq (now : Nat) (nonce cmd : Str) : envelope now nonce cmd =
    decNat now ++ byte ':' :: (nonce.flatMap B2.hexByte ++ byte ':' :: cmd) := by
  have hdec : dec (now : Int) = decNat now := by simp [dec]
  simp [envelope, hdec, str]

/-- The envelope is read as it was written. -/
theorem envelopeParse_envelope {now : Nat} {nonce cmd : Str} (hnow : (now : Int) ≤ i64Max)
    (hnonce : nonce.length = 8) (hcmd : cmd ≠ []) :
    envelopeParse (envelope now nonce cmd) =
      some ((now : Int), UInt64.ofNat (hexVal (nonce.flatMap B2.hexByte)), cmd) := by
  rw [envelope_eq, (shape_written hnow hnonce hcmd).parse, value_decNat, hexVal_eq]

/-- What is sealed is text, with no control byte in it. -/
theorem envelope_text {now : Nat} {nonce cmd : Str} (htext : Lib.Utf8.Text cmd) :
    fromUtf8Lossy (envelope now nonce cmd) = envelope now nonce cmd := by
  have hfront : Lib.Utf8.Text
      (decNat now ++ byte ':' :: (nonce.flatMap B2.hexByte ++ [byte ':'])) := by
    refine Lib.Utf8.text_of_ascii fun c hc => ?_
    have hhex : ∀ c : UInt8, isDigit c = true ∨ 97 ≤ c ∧ c ≤ 102 → c < 0x80 := by
      intro c h
      unfold isDigit at h
      grind
    simp only [List.mem_append, List.mem_cons, List.not_mem_nil, or_false] at hc
    rcases hc with hc | rfl | hc | rfl
    · exact hhex c (.inl (isDigit_of_mem_decNat hc))
    · decide
    · exact hhex c (hex_nonce nonce c hc)
    · decide
  have hsplit : envelope now nonce cmd =
      decNat now ++ byte ':' :: (nonce.flatMap B2.hexByte ++ [byte ':']) ++ cmd := by
    rw [envelope_eq]
    simp
  rw [hsplit]
  exact fromUtf8Lossy_text (hfront.append htext)

theorem hasControlBytes_envelope {now : Nat} {nonce cmd : Str}
    (hcmd : ∀ c ∈ cmd, ¬ (c < 0x20 ∨ c = 0x7f)) :
    hasControlBytes (envelope now nonce cmd) = false := by
  have hhex : ∀ c : UInt8, isDigit c = true ∨ 97 ≤ c ∧ c ≤ 102 → ¬ (c < 0x20 ∨ c = 0x7f) := by
    intro c h
    unfold isDigit at h
    grind
  rw [hasControlBytes, List.any_eq_false]
  intro c hc
  rw [envelope_eq] at hc
  simp only [List.mem_append, List.mem_cons] at hc
  have hnot : ¬ (c < 0x20 ∨ c = 0x7f) := by
    rcases hc with hc | rfl | hc | rfl | hc
    · exact hhex c (.inl (isDigit_of_mem_decNat hc))
    · decide
    · exact hhex c (hex_nonce nonce c hc)
    · decide
    · exact hcmd c hc
  simpa using hnot

/-! ### What `bot-auth` accepts -/

theorem readCommand_ok {stdin cmd : Str} (h : readCommand stdin = .ok cmd) :
    cmd ≠ [] ∧ ∀ c ∈ cmd, ¬ (c < 0x20 ∨ c = 0x7f) := by
  unfold readCommand at h
  dsimp only at h
  split at h
  · cases h
  · split at h
    · cases h
    · split at h
      · cases h
      · rename_i hne
        split at h
        · cases h
        · rename_i hclean
          cases h
          refine ⟨by simpa using hne, fun c hc => ?_⟩
          rw [Bool.not_eq_true, List.any_eq_false] at hclean
          simpa using hclean c hc

theorem cmdCmd_ok {T : Tools} {k : UserKey} {e : Env} {bot me botpub line : Str} {isSealed : Bool}
    {kept : Option Str} (h : cmdCmd T k e bot me botpub isSealed = .ok (line, kept)) :
    ∃ bpub cmd nonce frame rk, loadPub e.files botpub = .ok bpub ∧ readCommand e.stdin = .ok cmd ∧
      e.nonce = some nonce ∧
      sealCommand T k e bot me bpub isSealed (envelope e.now nonce cmd) = some (frame, rk) ∧
      (b64enc frame).length + 4 ≤ maxLine ∧
      line = (if isSealed then str "~A2S " else str "~A2 ") ++ b64enc frame ∧
      kept = rk.map fun rk => b64enc rk ++ [10] := by
  unfold cmdCmd at h
  cases hbpub : loadPub e.files botpub with
  | error die =>
      rw [hbpub] at h
      cases h
  | ok bpub =>
      cases hcmd : readCommand e.stdin with
      | error die =>
          rw [hbpub, hcmd] at h
          cases h
      | ok cmd =>
          cases hnonce : e.nonce with
          | none =>
              rw [hbpub, hcmd, hnonce] at h
              cases h
          | some nonce =>
              rw [hbpub, hcmd, hnonce] at h
              dsimp only [bind, Except.bind] at h
              have htag : 4 ≤ if isSealed then 5 else 4 := by
                cases isSealed
                · exact le_rfl
                · decide
              generalize (if isSealed = true then 5 else 4) = tagLen at h htag
              generalize (if isSealed = true then str "~A2S " else str "~A2 ") = tag at h ⊢
              split at h
              · rename_i frame rk hframe
                split at h
                · cases h
                · rename_i hfits
                  split at h
                  · cases h
                  · cases h
                    exact ⟨bpub, cmd, nonce, frame, rk, rfl, rfl, rfl, hframe, by omega, rfl, rfl⟩
              · cases h

/-! ### Whose key is tried -/

section Candidates

variable (b : BotState) (userHost : Str)

/-- Whose mask a record is: of the first active user with a key that has its uuid. -/
def ownerOf (mr : MaskRecord) : Option Nat :=
  if !mr.isActive || mr.mask.isEmpty || !Masks.wildcardMatch mr.mask userHost then none
  else b.userRecords.findIdx? fun u => u.isActive && u.hasPubkey && u.uuid == mr.uuid

/-- One step of `user_candidates`. -/
def candidateStep (out : List (Nat × Nat)) (p : MaskRecord × Nat) : List (Nat × Nat) :=
  if maxUserRecords ≤ out.length then out
  else
    match ownerOf b userHost p.1 with
    | some ui => if out.any fun q => q.1 == ui then out else out ++ [(ui, p.2)]
    | none => out

theorem userCandidates_eq : Auth.userCandidates b userHost =
    b.maskRecords.zipIdx.foldl (candidateStep b userHost) [] := by
  unfold Auth.userCandidates
  congr 1
  funext out ⟨mr, mi⟩
  simp only [candidateStep, ownerOf]
  split
  · rfl
  · split
    · rfl
    · rfl

/-- The candidates are records, each of them once. -/
structure Distinct (out : List (Nat × Nat)) : Prop where
  nodup : (out.map Prod.fst).Nodup
  lt : ∀ p ∈ out, p.1 < b.userRecords.length

variable {b userHost}

theorem Distinct.step {out : List (Nat × Nat)} (h : Distinct b out) (p : MaskRecord × Nat) :
    Distinct b (candidateStep b userHost out p) ∧
      ∀ ui ∈ out.map Prod.fst, ui ∈ (candidateStep b userHost out p).map Prod.fst := by
  unfold candidateStep
  split
  · exact ⟨h, fun _ hui => hui⟩
  · split
    · rename_i ui howner
      split
      · exact ⟨h, fun _ hui => hui⟩
      · rename_i hnew
        refine ⟨⟨?_, fun q hq => ?_⟩, fun j hj => ?_⟩
        · rw [List.map_append, List.map_singleton]
          refine List.nodup_append.mpr ⟨h.nodup, List.nodup_singleton _, fun j hj k hk heq => ?_⟩
          obtain ⟨q, hq, rfl⟩ := List.mem_map.mp hj
          rw [List.mem_singleton] at hk
          exact hnew (List.any_eq_true.mpr ⟨q, hq, by simpa [hk] using heq⟩)
        · rcases List.mem_append.mp hq with hq | hq
          · exact h.lt q hq
          · rw [List.mem_singleton.mp hq]
            unfold ownerOf at howner
            split at howner
            · cases howner
            · exact (List.findIdx?_eq_some_iff_getElem.mp howner).1
        · rw [List.map_append]
          exact List.mem_append_left _ hj
    · exact ⟨h, fun _ hui => hui⟩

/-- The owner of a mask is among the candidates once the mask was looked at: there is room for
every record. -/
theorem Distinct.mem_step (hle : b.userRecords.length ≤ maxUserRecords) {out : List (Nat × Nat)}
    (h : Distinct b out) {p : MaskRecord × Nat} {ui : Nat}
    (howner : ownerOf b userHost p.1 = some ui) :
    ui ∈ (candidateStep b userHost out p).map Prod.fst := by
  have hui : ui < b.userRecords.length := by
    unfold ownerOf at howner
    split at howner
    · cases howner
    · exact (List.findIdx?_eq_some_iff_getElem.mp howner).1
  unfold candidateStep
  split
  · rename_i hfull
    -- as many distinct records as there are at all
    have hsub : out.map Prod.fst ⊆ List.range b.userRecords.length := by
      intro j hj
      obtain ⟨q, hq, rfl⟩ := List.mem_map.mp hj
      exact List.mem_range.mpr (h.lt q hq)
    have hperm := (List.subperm_of_subset h.nodup hsub).perm_of_length_le (by
      rw [List.length_range, List.length_map]
      omega)
    exact hperm.mem_iff.mpr (List.mem_range.mpr hui)
  · rw [howner]
    dsimp only
    split
    · rename_i hin
      obtain ⟨q, hq, heq⟩ := List.any_eq_true.mp hin
      exact List.mem_map.mpr ⟨q, hq, by simpa using heq⟩
    · simp

/-- Every owner of a mask that matches is a candidate. -/
theorem mem_userCandidates (hle : b.userRecords.length ≤ maxUserRecords)
    {mr : MaskRecord} {ui : Nat}
    (hmr : mr ∈ b.maskRecords) (howner : ownerOf b userHost mr = some ui) :
    ∃ mi, (ui, mi) ∈ Auth.userCandidates b userHost := by
  have hfold : ∀ (l : List (MaskRecord × Nat)) out, Distinct b out →
      (ui ∈ out.map Prod.fst ∨ ∃ p ∈ l, ownerOf b userHost p.1 = some ui) →
      ui ∈ (l.foldl (candidateStep b userHost) out).map Prod.fst := by
    intro l
    induction l with
    | nil =>
        rintro out - (hin | ⟨p, hp, -⟩)
        · exact hin
        · cases hp
    | cons p l ih =>
        intro out hout hin
        have hstep : Distinct b (candidateStep b userHost out p) ∧ _ := hout.step p
        refine ih _ hstep.1 ?_
        rcases hin with hin | ⟨q, hq, hqui⟩
        · exact .inl (hstep.2 ui hin)
        · rcases List.mem_cons.mp hq with rfl | hq
          · exact .inl (hout.mem_step hle hqui)
          · exact .inr ⟨q, hq, hqui⟩
  obtain ⟨i, hi⟩ := List.mem_iff_getElem?.mp hmr
  have hzip : (mr, i) ∈ b.maskRecords.zipIdx := List.mk_mem_zipIdx_iff_getElem?.mpr hi
  have hmem := hfold _ [] ⟨List.nodup_nil, by simp⟩ (.inr ⟨(mr, i), hzip, howner⟩)
  rw [← userCandidates_eq] at hmem
  obtain ⟨⟨j, mi⟩, hq, rfl⟩ := List.mem_map.mp hmem
  exact ⟨mi, hq⟩

end Candidates

/-! ### From end to end -/

/-- A command on its way: what `bot-auth` is given, and what the bot has when it comes in. -/
structure Round where
  key : UserKey
  env : Env
  bot : Str
  me : Str
  botpub : Str
  isSealed : Bool
  state : BotState
  nick : Str
  userHost : Str
  dest : Str
  onlyUuid : Option Str
  /-- The place of the user's record. -/
  who : Nat

section Rounds

variable (T : Tools) (r : Round)

/-- The bot holds the user's key for one active record, by one of whose masks it knows the sender;
both have the same nicks and about the same time, and the nonce is new. -/
structure Expected : Prop where
  bpub : loadPub r.env.files r.botpub = .ok r.state.selfPub
  text : ∀ cmd, readCommand r.env.stdin = .ok cmd → Lib.Utf8.Text cmd
  now_le : (r.env.now : Int) ≤ i64Max
  nonce_len : ∀ nonce ∈ r.env.nonce, nonce.length = 8
  iv_len : ∀ iv ∈ r.env.iv, iv.length = 12
  bot_len : 0 < r.bot.length ∧ r.bot.length < 64
  me_len : 0 < r.me.length ∧ r.me.length < 64
  dest : r.dest.map lower = r.bot.map lower
  nick : r.nick.map lower = r.me.map lower
  self : r.state.selfPubSet = true ∧ ∃ ed x,
    (botKeyDecode T.toPrimitives r.state).1 = some (ed, x) ∧
      r.state.selfPub.drop 32 = T.x25519Public x
  users_le : r.state.userRecords.length ≤ maxUserRecords
  user : ∃ u, r.state.userRecords[r.who]? = some u ∧ u.isActive = true ∧ u.hasPubkey = true ∧
    pubkeyB64Decode T.toPrimitives u.pubkeyB64 = some (r.key.pubKey T) ∧
    ∀ uuid ∈ r.onlyUuid, uuid = u.uuid
  mask : ∃ mr ∈ r.state.maskRecords, ownerOf r.state r.userHost mr = some r.who
  clock : ((r.state.now - r.env.now).natAbs : Int) ≤ a2TsSkew
  unseen : ∀ nonce ∈ r.env.nonce,
    r.state.adminNonces.seen (UInt64.ofNat (hexVal (nonce.flatMap B2.hexByte))) r.state.now = false

/-- No other active record holds the key. -/
def HeldOnce : Prop := ∀ j v, r.state.userRecords[j]? = some v → v.isActive = true →
  v.hasPubkey = true → pubkeyB64Decode T.toPrimitives v.pubkeyB64 =
    some (r.key.pubKey T) → j = r.who

/-- What `bot-auth` prints, the bot opens as the user's and as it was given; and the reply key that
was kept is the one that the bot derives. -/
def Arrives : Prop := ∀ line kept,
  cmdCmd T r.key r.env r.bot r.me r.botpub r.isSealed = .ok (line, kept) →
    ∃ b64 cmd rk nonce, line = (if r.isSealed then str "~A2S " else str "~A2 ") ++ b64 ∧
      readCommand r.env.stdin = .ok cmd ∧ kept = rk.map (fun rk => b64enc rk ++ [10]) ∧
      rk.isSome = r.isSealed ∧
      (a2OpenCommand T.toPrimitives r.state r.nick r.userHost r.dest r.onlyUuid b64 r.isSealed).1 =
        some ((r.env.now : Int), nonce, { who := r.who, cmd, rk })

/-- The records whose keys the bot tries before the user's: candidates that come earlier and are
not passed over for another uuid. -/
def TriedBefore (j : Nat) (v : UserRecord) : Prop :=
  r.state.userRecords[j]? = some v ∧ (∀ uuid ∈ r.onlyUuid, uuid = v.uuid) ∧
    ∃ before mi after, Auth.userCandidates r.state r.userHost = before ++ (r.who, mi) :: after ∧
      j ∈ before.map Prod.fst

/-- No record that is tried earlier derives the key of the frame. -/
def NoClash : Prop := ∀ j v vpub ed x, ∀ eph ∈ r.env.eph, TriedBefore r j v →
  pubkeyB64Decode T.toPrimitives v.pubkeyB64 = some vpub →
  (botKeyDecode T.toPrimitives r.state).1 = some (ed, x) →
    frameKey T (labelOf r.isSealed) x (T.x25519Public x) (T.x25519Public eph) (halves vpub).2 ≠
      frameKey T (labelOf r.isSealed) x (T.x25519Public x) (T.x25519Public eph)
        (halves (r.key.pubKey T)).2

variable {T r}

/-- The keys are tried in turn: the first that opens the frame is the user's. -/
theorem a2TryKeys_sealed (hT : Ideal T) (hr : Expected T r) (hclash : NoClash T r) {raw ed x : Str}
    (hx : (botKeyDecode T.toPrimitives r.state).1 = some (ed, x))
    (hself : r.state.selfPub.drop 32 = T.x25519Public x) {pt frame : Str} {rk : Option Str}
    (hpt : pt.length ≤ sealMaxPlaintext)
    (hseal : sealCommand T r.key r.env r.bot r.me r.state.selfPub r.isSealed pt = some (frame, rk)) :
    ∃ mi, a2TryKeys T.toPrimitives { r.state with hubKeyRaw := raw } x r.userHost r.onlyUuid
      (labelOf r.isSealed) (aadOf (labelOf r.isSealed) r.bot r.me) frame r.isSealed =
        some (r.who, mi, pt, rk) := by
  obtain ⟨eph, iv, ct, tag, key, aad, rfl, heph, hiv, haad, hct, hkey, hrk, hsome⟩ :=
    sealCommand_eq_some hT hself hseal
  obtain rfl : aadOf (labelOf r.isSealed) r.bot r.me = aad := by
    rw [context_eq hr.bot_len.2 hr.me_len.2 (labelOf_lt r.isSealed)] at haad
    exact Option.some.inj haad
  have hlen := hT.ct_length hct
  have hopen := hT.opens hct
  have hlabel : (labelOf r.isSealed).length ≤ 64 := by
    have := labelOf_lt r.isSealed
    omega
  have hrkLabel : ∀ l ∈ (if r.isSealed then some IrcBot.a2rLabel else none), l.length ≤ 64 := by
    intro l hl
    split at hl
    · obtain rfl := Option.some.inj hl
      decide
    · cases hl
  have hframe (ux : Str) := @openRk_frame T _ x ux (T.x25519Public x)
    (aadOf (labelOf r.isSealed) r.bot r.me) _ _ _ _ _ hlabel (hT.length_x25519Public eph)
    (hr.iv_len iv hiv) (hT.tag_length hct) (hlen.le.trans hpt) hrkLabel
  obtain ⟨u, hu, -, -, hpub, honly⟩ := hr.user
  obtain ⟨mr, hmr, howner⟩ := hr.mask
  obtain ⟨mi, hmi⟩ := mem_userCandidates hr.users_le hmr howner
  obtain ⟨before, after, hsplit⟩ := List.append_of_mem hmi
  refine ⟨mi, ?_⟩
  unfold a2TryKeys
  change List.findSome? _ (Auth.userCandidates r.state r.userHost) = _
  rw [hsplit, List.findSome?_append]
  have hself2 : (halves r.state.selfPub).2 = T.x25519Public x := hself
  -- a record that is tried earlier derives another key, or none
  rw [List.findSome?_eq_none_iff.mpr, Option.none_or, List.findSome?_cons]
  · have hown : openRk T.toPrimitives x (halves r.state.selfPub).2 (some (halves (r.key.pubKey T)).2)
        (labelOf r.isSealed) (aadOf (labelOf r.isSealed) r.bot r.me)
        (T.x25519Public eph ++ iv ++ ct ++ tag)
        (if r.isSealed then some IrcBot.a2rLabel else none) = some (pt, rk) := by
      rw [hself2, hframe, hkey, Option.bind_some, hopen, Option.bind_some,
        if_neg (by simp [hlen])]
      cases hs : r.isSealed with
      | false =>
          rw [hs] at hrk
          simp [hrk]
      | true =>
          rw [hs] at hrk hsome
          obtain ⟨key, hrk'⟩ := Option.isSome_iff_exists.mp (hsome rfl)
          have hderived : frameKey T IrcBot.a2rLabel x (T.x25519Public x) (T.x25519Public eph)
              (halves (r.key.pubKey T)).2 = some key := hrk.symm.trans hrk'
          simp only [if_true]
          rw [hderived, hrk']
          rfl
    have hnot : (r.onlyUuid.any fun x => decide (x ≠ u.uuid)) = false := by
      cases huuid : r.onlyUuid with
      | none => rfl
      | some uuid => simpa using honly uuid huuid
    simp only [hu, Option.bind_eq_bind, Option.bind_some, hpub, hown, hnot]
    rfl
  · rintro ⟨j, mj⟩ hj
    simp only [Option.bind_eq_bind]
    cases hv : r.state.userRecords[j]? with
    | none => rfl
    | some v =>
        rw [Option.bind_some]
        split
        · rfl
        · rename_i honly
          cases hvpub : pubkeyB64Decode T.toPrimitives v.pubkeyB64 with
          | none => rfl
          | some vpub =>
              have huuid : ∀ uuid ∈ r.onlyUuid, uuid = v.uuid := fun uuid huuid => by
                simpa [Option.mem_def.mp huuid] using honly
              have hne := hclash j v vpub ed x eph heph ⟨hv, huuid, before, mi, after, hsplit,
                List.mem_map.mpr ⟨_, hj, rfl⟩⟩ hvpub hx
              rw [Option.bind_some, hself2, hframe]
              cases hkey' : frameKey T (labelOf r.isSealed) x (T.x25519Public x) (T.x25519Public eph)
                  (halves vpub).2 with
              | none => rfl
              | some key' =>
                  rw [hkey, hkey'] at hne
                  have hclosed : T.gcmDecrypt key' iv (aadOf (labelOf r.isSealed) r.bot r.me) ct tag =
                      none := by
                    rw [Option.eq_none_iff_forall_ne_some]
                    intro pt' hpt'
                    exact hne (congrArg some (hT.authentic hct hpt'))
                  rw [Option.bind_some, hclosed]
                  rfl

/-- A frame that fits a line is not too long for the bot. -/
theorem frame_fits {frame : Str} (h : (b64enc frame).length + 4 ≤ maxLine) :
    frame.length ≤ sealMaxPlaintext ∧ (b64enc frame).length ≤ a2B64Max := by
  rw [length_b64enc] at *
  have hmax : maxLine = 400 := rfl
  have hpt : sealMaxPlaintext = 1024 := rfl
  have hb64 : a2B64Max = 1448 := by decide
  omega

/-- A command arrives as it was given, where no record that is tried earlier derives its key. -/
theorem roundTrip (hT : Ideal T) (hr : Expected T r) (hclash : NoClash T r) : Arrives T r := by
  intro line kept hcmd
  obtain ⟨bpub, cmd, nonce, frame, rk, hbpub, hread, hnonce, hseal, hfits, rfl, rfl⟩ :=
    cmdCmd_ok hcmd
  obtain rfl : r.state.selfPub = bpub := Except.ok.inj (hr.bpub.symm.trans hbpub)
  obtain ⟨hset, ed, x, hx, hself⟩ := hr.self
  obtain ⟨hcmdne, hclean⟩ := readCommand_ok hread
  obtain ⟨hframe, hb64⟩ := frame_fits hfits
  obtain ⟨eph, iv, ct, tag, key, aad, heq, heph, hiv, -, hct, -, hrk, hsome⟩ :=
    sealCommand_eq_some hT hself hseal
  have hlen : frame.length = (envelope r.env.now nonce cmd).length + sealOverhead := by
    have hoverhead : sealOverhead = 60 := rfl
    have heph := hT.length_x25519Public eph
    have hiv := hr.iv_len iv hiv
    have htag := hT.tag_length hct
    have hctlen := hT.ct_length hct
    rw [heq]
    simp only [List.length_append]
    omega
  have haad : a2Context 160 (labelOf r.isSealed) r.dest r.nick none =
      some (aadOf (labelOf r.isSealed) r.bot r.me) :=
    a2Context_eq hr.dest hr.nick hr.bot_len hr.me_len (labelOf_lt r.isSealed)
  have hdecode : (b64Decode T.toPrimitives (b64enc frame)).filter (sealOverhead ≤ ·.length) =
      some frame := by
    have hne : frame.isEmpty = false := by
      cases frame with
      | nil => simp [sealOverhead] at hlen
      | cons => rfl
    simp [b64Decode, hT.lenient, hne, hlen]
  have hcands : (Auth.userCandidates r.state r.userHost).isEmpty = false := by
    obtain ⟨mr, hmr, howner⟩ := hr.mask
    obtain ⟨mi, hmi⟩ := mem_userCandidates hr.users_le hmr howner
    exact List.isEmpty_eq_false_iff.mpr (List.ne_nil_of_mem hmi)
  -- decoding the identity key fills the raw copy, and nothing else
  obtain ⟨b', hkey, hnow, hnonces, mi, htry⟩ : ∃ b',
      botKeyDecode T.toPrimitives r.state = (some (ed, x), b') ∧ b'.now = r.state.now ∧
      b'.adminNonces = r.state.adminNonces ∧
      ∃ mi, a2TryKeys T.toPrimitives b' x r.userHost r.onlyUuid (labelOf r.isSealed)
        (aadOf (labelOf r.isSealed) r.bot r.me) frame r.isSealed =
          some (r.who, mi, envelope r.env.now nonce cmd, rk) := by
    obtain ⟨raw, hraw⟩ := botKeyDecode_eq T.toPrimitives r.state
    exact ⟨_, Prod.ext hx hraw, rfl, rfl,
      a2TryKeys_sealed hT hr hclash hx hself (le_trans (by omega) hframe) hseal⟩
  have htext : Crypto.fromUtf8Lossy (envelope r.env.now nonce cmd) = _ :=
    envelope_text (hr.text cmd hread)
  refine ⟨b64enc frame, cmd, rk, UInt64.ofNat (hexVal (nonce.flatMap B2.hexByte)), rfl, hread, rfl,
    ?_, ?_⟩
  · cases hs : r.isSealed with
    | false => simp [hrk, hs]
    | true => exact hsome hs
  · have hparse := envelopeParse_envelope hr.now_le (hr.nonce_len nonce hnonce) hcmdne
    have hlabel : (if r.isSealed then IrcBot.a2sLabel else IrcBot.a2Label) =
        labelOf r.isSealed := rfl
    unfold a2OpenCommand
    rw [hlabel]
    dsimp only
    rw [if_neg (by omega), haad, hdecode]
    simp only [hset, hcands, hkey, Bool.not_true, Bool.false_eq_true, if_false,
      Option.bind_some, htry,
      hasControlBytes_envelope hclean, htext, hparse, hnow, hnonces]
    rw [if_neg (Int.not_lt.mpr hr.clock), if_neg (by simp [hr.unseen nonce hnonce])]

end Rounds

/-! ### Two records with one X25519 half -/

/-- Keys that are their own public keys, agreed on by adding; the tag is the key. -/
def adding : Tools where
  toPrimitives := { Primitives.clear with
    lenientDecode := std.decode
    strictDecode := std.decode
    b64Encode := b64enc
    x25519 := fun a p => some (List.zipWith (· + ·) ((a ++ List.replicate 32 0).take 32) p)
    x25519Public := fun a => (a ++ List.replicate 32 0).take 32
    ed25519Public := fun a => (a ++ List.replicate 32 0).take 32
    hkdf := fun _ _ info => some ((info.reverse.drop 32).take 16)
    gcmEncrypt := fun key _ _ pt => if key.length = 16 then some (pt, key) else none
    gcmDecrypt := fun key _ _ ct tag => if tag = key ∧ key.length = 16 then some ct else none }
  scrypt _ _ _ _ _ := some (List.replicate 32 0)

theorem adding_ideal : Ideal adding := by
  have hsealed {key iv aad pt ct tag : Str} (h : adding.gcmEncrypt key iv aad pt = some (ct, tag)) :
      key.length = 16 ∧ ct = pt ∧ tag = key := by
    simp only [adding] at h
    split at h
    · obtain ⟨rfl, rfl⟩ := Prod.mk.inj (Option.some.inj h)
      exact ⟨‹_›, rfl, rfl⟩
    · cases h
  refine ⟨⟨fun h => ?_, fun h => ?_, fun h => ?_⟩, fun h h' => ?_, fun a c => ?_, fun c => ?_,
    fun c => ?_, fun x => std.decode_encode x⟩
  · obtain ⟨hlen, rfl, rfl⟩ := hsealed h
    simp [adding, hlen]
  · rw [(hsealed h).2.1]
  · rw [(hsealed h).2.2, (hsealed h).1]
  · obtain ⟨-, -, rfl⟩ := hsealed h
    simp only [adding] at h'
    split at h'
    · rename_i heq
      exact heq.1.symm
    · cases h'
  · simp only [adding]
    rw [List.zipWith_comm_of_comm]
    exact fun x y => UInt8.add_comm x y
  · simp [adding]
  · simp [adding]

/-- 32 bytes for each half of a key. -/
def keyOf (ed x : UInt8) : Str := List.replicate 32 ed ++ List.replicate 32 x

/-- The first record is another user's; its X25519 half is `c`, and the sender's is 2. -/
def roundOf (c : UInt8) : Round where
  key := ⟨keyOf 1 2⟩
  env := {
    files := fun _ => none
    stdin := str "status\n"
    now := 100
    nonce := some (List.replicate 8 0xAB)
    eph := some (List.replicate 32 7)
    iv := some (List.replicate 12 9)
    writable := true }
  bot := str "Bot"
  me := str "Alice"
  botpub := b64enc (keyOf 4 5)
  isSealed := false
  state := {
    now := 110
    selfPub := keyOf 4 5
    selfPubSet := true
    hubKeyRaw := keyOf 4 5
    userRecords := [
      { uuid := str "other", isActive := true, hasPubkey := true, pubkeyB64 := b64enc (keyOf 3 c) },
      { uuid := str "alice", isActive := true, hasPubkey := true, pubkeyB64 := b64enc (keyOf 1 2) }]
    maskRecords := [
      { uuid := str "other", mask := str "*!*@*", isActive := true },
      { uuid := str "alice", mask := str "alice!*@*", isActive := true }] }
  nick := str "alice"
  userHost := str "alice!a@host"
  dest := str "bot"
  onlyUuid := none
  who := 1

theorem decode_roundOf {c : UInt8} (hc : c = 2 ∨ c = 6) :
    pubkeyB64Decode adding.toPrimitives (b64enc (keyOf 3 c)) = some (keyOf 3 c) := by
  rcases hc with rfl | rfl
  · decide
  · decide

/-- A key is read where it is given inline, and no file has its name. -/
theorem loadPub_inline {files : Str → Option Str} {key : Str} (hkey : key.length = keyLen)
    (hfile : files (b64enc key) = none) : loadPub files (b64enc key) = .ok key := by
  have hlen : (b64enc key).length = 88 := by
    rw [length_b64enc, hkey]
    rfl
  have hne : key ≠ [] := by
    rintro rfl
    cases hkey
  have hat : (b64enc key).head? ≠ some (byte '@') := fun h =>
    forall_b64enc (p := (· ≠ byte '@')) (by decide) (by decide) key _
      (List.mem_of_head? h) rfl
  have hfilter : (b64dec (b64enc key) keyLen).filter (·.length = keyLen) = some key := by
    rw [b64dec_b64enc hne hkey.le]
    simp [hkey]
  unfold loadPub
  rw [if_neg hat, hfile, List.take_of_length_le (by omega)]
  simp [readFirstLine, hlen, hfilter, bind, Except.bind, pure, Except.pure]

theorem expected_roundOf {c : UInt8} (hc : c = 2 ∨ c = 6) : Expected adding (roundOf c) where
  bpub := @loadPub_inline _ (keyOf 4 5) (by decide) rfl
  text cmd h := by
    obtain rfl : str "status" = cmd := Except.ok.inj h
    exact Lib.Utf8.text_of_ascii (by decide +kernel)
  now_le := show (100 : Int) ≤ i64Max by decide
  nonce_len := by
    rintro nonce ⟨⟩
    rfl
  iv_len := by
    rintro iv ⟨⟩
    rfl
  bot_len := show 0 < (str "Bot").length ∧ (str "Bot").length < 64 by decide
  me_len := show 0 < (str "Alice").length ∧ (str "Alice").length < 64 by decide
  dest := show (str "bot").map lower = (str "Bot").map lower by decide
  nick := show (str "alice").map lower = (str "Alice").map lower by decide
  self := ⟨rfl, (keyOf 4 5).take 32, (keyOf 4 5).drop 32, by rfl, by rfl⟩
  users_le := show 2 ≤ maxUserRecords by decide
  user := by
    have hkey : pubkeyB64Decode adding.toPrimitives (b64enc (keyOf 1 2)) = some (keyOf 1 2) := by
      decide
    exact ⟨_, rfl, rfl, rfl, hkey, by simp [roundOf]⟩
  mask := by
    refine ⟨{ uuid := str "alice", mask := str "alice!*@*", isActive := true }, by simp [roundOf], ?_⟩
    rcases hc with rfl | rfl
    · decide
    · decide
  clock := show (((110 : Int) - 100).natAbs : Int) ≤ a2TsSkew by decide
  unseen := by
    rintro nonce ⟨⟩
    rcases hc with rfl | rfl
    · decide +kernel
    · decide +kernel

theorem heldOnce_roundOf {c : UInt8} (hc : c = 2 ∨ c = 6) : HeldOnce adding (roundOf c) := by
  intro j v hv _ _ hkey
  match j, hv with
  | 0, hv =>
      obtain rfl := Option.some.inj hv
      rw [decode_roundOf hc] at hkey
      have hed : List.replicate 32 (3 : UInt8) = List.replicate 32 1 :=
        List.append_inj_left (Option.some.inj hkey) rfl
      exact absurd hed (by decide)
  | 1, _ => rfl
  | j + 2, hv => cases hv

/-- The line that is printed, and who the bot takes it from. -/
def openedBy (c : UInt8) : Option (Str × Option Nat) :=
  match cmdCmd adding (roundOf c).key (roundOf c).env (roundOf c).bot (roundOf c).me
      (roundOf c).botpub false with
  | .ok (line, _) => some (line, (a2OpenCommand adding.toPrimitives (roundOf c).state (roundOf c).nick
      (roundOf c).userHost (roundOf c).dest none (line.drop 4) false).1.map (·.2.2.who))
  | .error _ => none

/-- **Two keys with one X25519 half**: the command of one user is taken for the other's, whose
record is tried first. -/
theorem not_roundTrip : ¬ ∀ T r, Ideal T → Expected T r → HeldOnce T r → Arrives T r := by
  intro h
  have hfirst : (openedBy 2).map (·.2) = some (some 0) := by decide +kernel
  have harrives := h adding (roundOf 2) adding_ideal (expected_roundOf (.inl rfl))
    (heldOnce_roundOf (.inl rfl))
  unfold openedBy at hfirst
  split at hfirst
  · rename_i line kept hline
    obtain ⟨b64, cmd, rk, nonce, hb64, -, -, -, hopen⟩ := harrives line kept hline
    have hdrop : line.drop 4 = b64 := by
      rw [hb64]
      rfl
    rw [Option.map_some, hdrop] at hfirst
    have hwho : (a2OpenCommand adding.toPrimitives (roundOf 2).state (roundOf 2).nick
        (roundOf 2).userHost (roundOf 2).dest none b64 false).1.map (·.2.2.who) = some 1 := by
      rw [show (false : Bool) = (roundOf 2).isSealed from rfl,
        show (none : Option Str) = (roundOf 2).onlyUuid from rfl, hopen]
      rfl
    rw [hwho] at hfirst
    cases hfirst
  · cases hfirst

/-- With a half of its own, the other record lets the command pass. -/
theorem roundTrip_sixes : Arrives adding (roundOf 6) := by
  refine roundTrip adding_ideal (expected_roundOf (.inr rfl)) ?_
  rintro j v vpub ed x eph heph ⟨hv, -, before, mi, after, hsplit, hj⟩ hvpub hx
  have hcands : Auth.userCandidates (roundOf 6).state (roundOf 6).userHost = [(0, 0), (1, 1)] := by
    decide
  rw [hcands] at hsplit
  have hzero : j = 0 := by
    rcases before with _ | ⟨p, _ | ⟨q, before⟩⟩
    · cases hj
    · obtain ⟨rfl, -⟩ := List.cons.inj hsplit
      simpa using hj
    · have hlen := congrArg List.length hsplit
      simp at hlen
  subst hzero
  obtain rfl := Option.some.inj hv
  rw [decode_roundOf (.inr rfl)] at hvpub
  obtain rfl := Option.some.inj hvpub
  obtain rfl : List.replicate 32 7 = eph := Option.some.inj heph
  obtain ⟨-, rfl⟩ : _ ∧ (keyOf 4 5).drop 32 = x := Prod.mk.inj (Option.some.inj hx)
  decide

end SealedCommand

end IrcBot
