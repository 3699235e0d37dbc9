/-
# Sealed frames (`crypto.rs`)

The constructions the bot builds from third-party primitives: key halves, the
key derivation of a sealed frame, sealing one and opening one. `Primitives` is what the
crates provide; what is relied on is asked for where a result needs it (`Primitives.Opens`).
-/
import IrcBot.Lib.Utf8
import IrcBot.State

namespace IrcBot

/-- What the third-party crates provide: base64, X25519, HKDF-SHA256,
AES-256-GCM, Ed25519, SHA-256, and random bytes. -/
structure Primitives where
  /-- Base64 decode, padding optional. -/
  lenientDecode : Str → Option Str
  /-- Base64 decode of the canonical spelling. -/
  strictDecode : Str → Option Str
  b64Encode : Str → Str
  x25519 : Str → Str → Option Str
  /-- HKDF-SHA256 of key material, salt and info, to 32 bytes. -/
  hkdf : Str → Str → Str → Option Str
  /-- AES-256-GCM: key, iv, associated data, plaintext; the ciphertext and the tag. -/
  gcmEncrypt : Str → Str → Str → Str → Option (Str × Str)
  /-- AES-256-GCM: key, iv, associated data, ciphertext, tag. -/
  gcmDecrypt : Str → Str → Str → Str → Str → Option Str
  ed25519Verify : Str → Str → Str → Bool
  ed25519Public : Str → Str
  x25519Public : Str → Str
  sha256 : Str → Str
  /-- `random_bytes`: what is drawn, so many bytes, to seal a plaintext under a key and
  associated data. -/
  drawn : Nat → Str → Str → Str → Option Str
  /-- `random_bytes`: what is drawn at a reading of the monotonic clock, for so
  many bytes. -/
  randomBytes : Int → Nat → Option Str

/-- Primitives that leave everything in clear, for runs on concrete inputs: a
frame carries its plaintext, and every signature verifies. -/
def Primitives.clear : Primitives where
  lenientDecode s := some (if s.length = combinedKeyB64 then s.take hubKeyRawLen else s)
  strictDecode s := some (s.take hubKeyRawLen)
  b64Encode s := s ++ List.replicate 22 (byte 'A') ++ str "=="
  x25519 _ _ := some []
  hkdf _ _ _ := some []
  gcmEncrypt _ _ _ pt := some (pt, List.replicate gcmTagLen 0)
  gcmDecrypt _ _ _ ct _ := some ct
  ed25519Verify _ _ _ := true
  ed25519Public key := key
  x25519Public key := key
  sha256 s := (s ++ List.replicate 32 0).take 32
  drawn n _ _ _ := some (List.replicate n 0)
  randomBytes _ n := some (List.replicate n 0)

/-- What AES-256-GCM is relied on for. -/
structure Primitives.Opens (P : Primitives) : Prop where
  opens : ∀ {key iv aad pt ct tag}, P.gcmEncrypt key iv aad pt = some (ct, tag) →
    P.gcmDecrypt key iv aad ct tag = some pt
  ct_length : ∀ {key iv aad pt ct tag}, P.gcmEncrypt key iv aad pt = some (ct, tag) →
    ct.length = pt.length
  tag_length : ∀ {key iv aad pt ct tag}, P.gcmEncrypt key iv aad pt = some (ct, tag) →
    tag.length = 16

theorem Primitives.Opens.congr {P Q : Primitives} (h : P.Opens) (henc : Q.gcmEncrypt = P.gcmEncrypt)
    (hdec : Q.gcmDecrypt = P.gcmDecrypt) : Q.Opens where
  opens hct := hdec ▸ h.opens (henc ▸ hct)
  ct_length hct := h.ct_length (henc ▸ hct)
  tag_length hct := h.tag_length (henc ▸ hct)

theorem Primitives.clear_opens : Primitives.clear.Opens where
  opens h := by
    obtain ⟨rfl, rfl⟩ := Prod.mk.inj (Option.some.inj h)
    rfl
  ct_length h := by
    obtain ⟨rfl, -⟩ := Prod.mk.inj (Option.some.inj h)
    rfl
  tag_length h := by
    obtain ⟨-, rfl⟩ := Prod.mk.inj (Option.some.inj h)
    rfl

namespace Crypto

open Cstr

/-- `pub_halves` and `split_priv`: the Ed25519 and the X25519 half. -/
def halves (p : Str) : Str × Str := (p.take 32, p.drop 32)

/-! ### UTF-8 -/

/-- How `from_utf8_lossy` reads the front of a string: what it emits, and how many
bytes that takes. A sequence that breaks off is replaced as one. -/
def utf8Chunk : Str → Str × Nat
  | [] => ([], 0)
  | b0 :: rest =>
      let replaced := [0xEF, 0xBF, 0xBD]
      let cont (b : UInt8) : Bool := 0x80 ≤ b && b ≤ 0xBF
      -- the bytes a sequence may go on with, and how many more follow
      let lead : Option ((UInt8 → Bool) × Nat) :=
        if 0xC2 ≤ b0 ∧ b0 ≤ 0xDF then some (cont, 0)
        else if b0 = 0xE0 then some (fun b => 0xA0 ≤ b && b ≤ 0xBF, 1)
        else if b0 = 0xED then some (fun b => 0x80 ≤ b && b ≤ 0x9F, 1)
        else if 0xE1 ≤ b0 ∧ b0 ≤ 0xEF then some (cont, 1)
        else if b0 = 0xF0 then some (fun b => 0x90 ≤ b && b ≤ 0xBF, 2)
        else if 0xF1 ≤ b0 ∧ b0 ≤ 0xF3 then some (cont, 2)
        else if b0 = 0xF4 then some (fun b => 0x80 ≤ b && b ≤ 0x8F, 2)
        else none
      if b0 < 0x80 then ([b0], 1)
      else
        match lead with
        | none => (replaced, 1)
        | some (second, more) =>
            match rest with
            | [] => (replaced, 1)
            | b1 :: tail =>
                if !second b1 then (replaced, 1)
                else
                  let got := ((tail.take more).takeWhile cont).length
                  if got = more then (b0 :: b1 :: tail.take more, 2 + more)
                  else (replaced, 2 + got)

def fromUtf8LossyLoop : Nat → Str → Str
  | 0, _ => []
  | _ + 1, [] => []
  | fuel + 1, s => (utf8Chunk s).1 ++ fromUtf8LossyLoop fuel (s.drop (utf8Chunk s).2)

/-- `String::from_utf8_lossy`. Each chunk takes at least one byte. -/
def fromUtf8Lossy (s : Str) : Str := fromUtf8LossyLoop s.length s

theorem utf8Chunk_isChar {c : Str} (h : Lib.Utf8.IsChar c) (rest : Str) :
    utf8Chunk (c ++ rest) = (c, c.length) := by
  have hcont {b : UInt8} (hb : Lib.Utf8.Tail b) : (0x80 ≤ b && b ≤ 0xBF) = true := by
    simpa [Lib.Utf8.Tail] using hb
  cases h with
  | one ha =>
      have ha : _ < (0x80 : UInt8) := UInt8.lt_of_le_of_lt ha (by decide)
      simp [utf8Chunk, ha]
  | two ha hb =>
      have hlt : ¬ _ < (0x80 : UInt8) := UInt8.not_lt.mpr (UInt8.le_trans (by decide) ha.1)
      simp [utf8Chunk, hlt, ha, hcont hb]
  | @three a b c ha hb hlow hhigh hc =>
      have hlt : ¬ a < 0x80 := UInt8.not_lt.mpr (UInt8.le_trans (by decide) ha.1)
      have htwo : ¬ a ≤ 0xDF := UInt8.not_le.mpr (UInt8.lt_of_lt_of_le (by decide) ha.1)
      by_cases hE0 : a = 0xE0
      · subst hE0
        simp [utf8Chunk, hlow rfl, hb.2, hcont hc]
      · by_cases hED : a = 0xED
        · subst hED
          simp [utf8Chunk, hb.1, hhigh rfl, hcont hc]
        · have hmid : 0xE1 ≤ a := by
            have hne := mt UInt8.toNat_inj.mp hE0
            have hle := UInt8.le_iff_toNat_le.mp ha.1
            rw [UInt8.le_iff_toNat_le]
            simp only [UInt8.reduceToNat] at *
            omega
          simp [utf8Chunk, hlt, htwo, hE0, hED, hmid, ha.2, hcont hb, hcont hc]
  | @four a b c d ha hb hlow hhigh hc hd =>
      have hlt : ¬ a < 0x80 := UInt8.not_lt.mpr (UInt8.le_trans (by decide) ha.1)
      have htwo : ¬ a ≤ 0xDF := UInt8.not_le.mpr (UInt8.lt_of_lt_of_le (by decide) ha.1)
      have hthree : ¬ a ≤ 0xEF := UInt8.not_le.mpr (UInt8.lt_of_lt_of_le (by decide) ha.1)
      by_cases hF0 : a = 0xF0
      · subst hF0
        simp [utf8Chunk, hlow rfl, hb.2, hcont hc, hcont hd]
      · by_cases hF4 : a = 0xF4
        · subst hF4
          simp [utf8Chunk, hb.1, hhigh rfl, hcont hc, hcont hd]
        · have hmid : 0xF1 ≤ a ∧ a ≤ 0xF3 := by
            have hne := mt UInt8.toNat_inj.mp hF0
            have hne' := mt UInt8.toNat_inj.mp hF4
            have hle := UInt8.le_iff_toNat_le.mp ha.1
            have hle' := UInt8.le_iff_toNat_le.mp ha.2
            rw [UInt8.le_iff_toNat_le, UInt8.le_iff_toNat_le]
            simp only [UInt8.reduceToNat] at *
            omega
          have hE0 : a ≠ 0xE0 := fun h => hthree (h ▸ by decide)
          have hED : a ≠ 0xED := fun h => hthree (h ▸ by decide)
          simp [utf8Chunk, hlt, htwo, hthree, hE0, hED, hF0, hmid, hcont hb, hcont hc, hcont hd]

/-- A text is kept as it is. -/
theorem fromUtf8Lossy_text {s : Str} (h : Lib.Utf8.Text s) : fromUtf8Lossy s = s := by
  suffices hloop : ∀ fuel, s.length ≤ fuel → fromUtf8LossyLoop fuel s = s from hloop _ le_rfl
  induction h with
  | nil =>
      intro fuel _
      cases fuel <;> rfl
  | @cons c rest _ ih =>
      intro fuel hfuel
      have hc := Lib.Utf8.isChar_utf8EncodeChar c
      have hchunk := utf8Chunk_isChar hc rest
      obtain ⟨a, more, hchar, -⟩ := hc.cases_tail
      rw [hchar] at hchunk hfuel ⊢
      obtain ⟨fuel, rfl⟩ : ∃ n, fuel = n + 1 := ⟨fuel - 1, by simp at hfuel; omega⟩
      have hrest : rest.length ≤ fuel := by
        simp only [List.length_append, List.length_cons] at hfuel
        omega
      rw [List.cons_append] at hchunk ⊢
      rw [fromUtf8LossyLoop, hchunk, ← List.cons_append, List.drop_left, ih fuel hrest]
      exact List.cons_ne_nil a _

/-- True if any C0 control byte or DEL is present. -/
def hasControlBytes (buf : Str) : Bool := buf.any fun b => b < 0x20 || b == 0x7f

section Primitives

variable (P : Primitives)

/-- `b64_decode`: nothing decoded counts as a failure. -/
def b64Decode (s : Str) : Option Str := (P.lenientDecode s).filter (!·.isEmpty)

/-- `pubkey_b64_decode`: only the canonical base64 of 64 bytes, neither half zero. -/
def pubkeyB64Decode (b64 : Str) : Option Str :=
  let alpha (c : UInt8) : Bool :=
    isDigit c || (65 ≤ c && c ≤ 90) || (97 ≤ c && c ≤ 122) || c == byte '+' || c == byte '/'
  if b64.length ≠ combinedKeyB64 then none
  else if !(b64.zipIdx.all fun (c, i) =>
      if combinedKeyB64 - 2 ≤ i then c == byte '=' else alpha c) then none
  else
    (P.strictDecode b64).bind fun key =>
      if key.length ≠ hubKeyRawLen ∨ P.b64Encode key ≠ b64 then none
      else if (key.take 32).all (· == 0) || (key.drop 32).all (· == 0) then none
      else some key

/-- `gcm_seal`: iv(12, random) || ct || tag(16). -/
def gcmSeal (key aad pt : Str) : Option Str := do
  let iv ← P.drawn gcmIvLen key aad pt
  let (ct, tag) ← P.gcmEncrypt key iv aad pt
  some (iv ++ ct ++ tag)

/-- `gcm_open`: iv(12) || ct || tag(16). -/
def gcmOpen (key aad frame : Str) : Option Str :=
  if frame.length < gcmIvLen + gcmTagLen then none
  else
    let rest := frame.drop gcmIvLen
    let n := rest.length - gcmTagLen
    P.gcmDecrypt key (frame.take gcmIvLen) aad (rest.take n) (rest.drop n)

/-- `seal_kdf`. -/
def sealKdf (ikm ephPub label : Str) (sXPub : Option Str) (rXPub : Str) : Option Str :=
  if 64 < label.length then none else P.hkdf ikm ephPub (label ++ sXPub.getD [] ++ rXPub)

/-- `seal`, with the key pair of the sender, or anonymous:
eph_pub(32) || iv(12) || ct || tag(16). -/
def sealFrame (sender : Option (Str × Str)) (rXPub label aad pt : Str) : Option Str :=
  if sealMaxPlaintext < pt.length then none
  else do
    let ephPriv ← P.drawn 32 rXPub aad pt
    let ephPub := P.x25519Public ephPriv
    let shared ← P.x25519 ephPriv rXPub
    let ikm ← match sender with
      | some (sPriv, _) => (P.x25519 sPriv rXPub).map (shared ++ ·)
      | none => some shared
    let key ← sealKdf P ikm ephPub label (sender.map (·.2)) rXPub
    let body ← gcmSeal P key aad pt
    some (ephPub ++ body)

/-- `open_rk`: the plaintext, and the reply key when `rkLabel` asks for one. -/
def openRk (rXPriv rXPub : Str) (sXPub : Option Str) (label aad frame : Str)
    (rkLabel : Option Str) : Option (Str × Option Str) :=
  if rkLabel.isSome && sXPub.isNone then none
  else if frame.length < sealOverhead then none
  else if sealMaxPlaintext < frame.length - sealOverhead then none
  else do
    let ephPub := frame.take 32
    let shared ← P.x25519 rXPriv ephPub
    let ikm ← match sXPub with
      | some s => (P.x25519 rXPriv s).map (shared ++ ·)
      | none => some shared
    let key ← sealKdf P ikm ephPub label sXPub rXPub
    let pt ← gcmOpen P key aad (frame.drop 32)
    if pt.length ≠ frame.length - sealOverhead then none
    else
      match rkLabel with
      | some l => (sealKdf P ikm ephPub l sXPub rXPub).map fun rk => (pt, some rk)
      | none => some (pt, none)

/-- `open`: `open_rk` without a reply key. -/
def openFrame (rXPriv rXPub : Str) (sXPub : Option Str) (label aad frame : Str) : Option Str :=
  (openRk P rXPriv rXPub sXPub label aad frame none).map (·.1)

/-- **What `gcm_seal` writes.** The iv it draws, the ciphertext and the tag, in this order. -/
theorem gcmSeal_layout (hP : P.Opens) {key aad pt frame : Str}
    (h : gcmSeal P key aad pt = some frame) :
    ∃ iv ct tag, P.drawn gcmIvLen key aad pt = some iv ∧ frame = iv ++ ct ++ tag ∧
      ct.length = pt.length ∧ tag.length = 16 ∧ P.gcmDecrypt key iv aad ct tag = some pt := by
  obtain ⟨iv, hiv, h⟩ := Option.bind_eq_some_iff.mp h
  obtain ⟨⟨ct, tag⟩, hsealed, hframe⟩ := Option.bind_eq_some_iff.mp h
  exact ⟨iv, ct, tag, hiv, (Option.some.inj hframe).symm, hP.ct_length hsealed,
    hP.tag_length hsealed,
    hP.opens hsealed⟩

section Opening

variable (hP : P.Opens)
  (hdrawn : ∀ {n key aad pt bytes}, P.drawn n key aad pt = some bytes → bytes.length = n)
include hP hdrawn

/-- What was sealed opens under the same key. -/
theorem gcmOpen_gcmSeal {key aad pt frame : Str} (h : gcmSeal P key aad pt = some frame) :
    gcmOpen P key aad frame = some pt ∧ frame.length = pt.length + 28 := by
  obtain ⟨iv, ct, tag, hiv, rfl, hct, htag, hopen⟩ := gcmSeal_layout P hP h
  have hlen : iv.length = 12 := hdrawn hiv
  have hwhole : (iv ++ (ct ++ tag)).length = pt.length + 28 := by
    simp only [List.length_append]
    omega
  have hrest : (ct ++ tag).length - gcmTagLen = ct.length := by
    rw [List.length_append, htag]
    exact Nat.add_sub_cancel ..
  rw [List.append_assoc]
  refine ⟨?_, hwhole⟩
  unfold gcmOpen
  rw [if_neg (by rw [hwhole]; exact Nat.not_lt.mpr (Nat.le_add_left ..))]
  simp only [show gcmIvLen = 12 from rfl, List.drop_left' hlen, List.take_left' hlen, hrest,
    List.take_left,
    List.drop_left, hopen]

/-- **A sealed frame opens.** Its recipient reads the plaintext, whoever sealed it, provided that
both name the same sender, label and associated data. -/
theorem openFrame_sealFrame (hsymm : ∀ a c, P.x25519 a (P.x25519Public c) = P.x25519 c (P.x25519Public a))
    (hpub : ∀ c, (P.x25519Public c).length = 32) {sender : Option Str} {r label aad pt frame : Str}
    (h : sealFrame P (sender.map fun s => (s, P.x25519Public s)) (P.x25519Public r) label aad pt =
      some frame) :
    openFrame P r (P.x25519Public r) (sender.map P.x25519Public) label aad frame = some pt := by
  unfold sealFrame at h
  split at h
  · cases h
  · rename_i hmax
    obtain ⟨eph, heph, h⟩ := Option.bind_eq_some_iff.mp h
    obtain ⟨shared, hshared, h⟩ := Option.bind_eq_some_iff.mp h
    -- the key material, with the static term or without
    obtain ⟨ikm, key, body, hikm, hkey, hbody, hframe⟩ : ∃ ikm key body,
        (sender.elim (some shared) fun s => (P.x25519 s (P.x25519Public r)).map (shared ++ ·)) = some ikm ∧
        sealKdf P ikm (P.x25519Public eph) label (sender.map P.x25519Public) (P.x25519Public r) =
          some key ∧
        gcmSeal P key aad pt = some body ∧ P.x25519Public eph ++ body = frame := by
      cases sender
      all_goals
        obtain ⟨ikm, hikm, h⟩ := Option.bind_eq_some_iff.mp h
        obtain ⟨key, hkey, h⟩ := Option.bind_eq_some_iff.mp h
        obtain ⟨body, hbody, hframe⟩ := Option.bind_eq_some_iff.mp h
        exact ⟨ikm, key, body, hikm, hkey, hbody, Option.some.inj hframe⟩
    obtain ⟨hopen, hblen⟩ := gcmOpen_gcmSeal P hP hdrawn hbody
    have hlen : frame.length = pt.length + sealOverhead := by
      rw [← hframe, List.length_append, hpub, hblen, sealOverhead]
      omega
    have heph : frame.take 32 = P.x25519Public eph := hframe ▸ List.take_left' (hpub eph)
    have hrest : frame.drop 32 = body := hframe ▸ List.drop_left' (hpub eph)
    unfold openFrame openRk
    rw [if_neg (by simp), if_neg (by omega), if_neg (by omega)]
    simp only [heph, hrest, hsymm r eph, hshared, Option.bind_eq_bind, Option.bind_some]
    cases sender with
    | none =>
        obtain rfl := Option.some.inj hikm
        simp only [Option.map_none] at hkey
        simp [hkey, hopen, hlen]
    | some s =>
        simp only [Option.map_some, Option.elim_some] at hikm hkey
        simp [hsymm r s, hikm, hkey, hopen, hlen]

end Opening

end Primitives

end Crypto

end IrcBot
