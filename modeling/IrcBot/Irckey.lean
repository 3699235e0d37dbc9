/-
# Keys under a passphrase (`keygen.rs`, `bot_auth.rs`)

`keygen` writes the line "irckey-v2 scrypt log2N r p salt nonce ct"; it and `bot-auth` each have a
reader of their own for it. `keygen` leaves the fields out that are empty and looks at the padding,
`bot-auth` keeps every field and only counts.

* `forall_splitOn_ne_nil_iff` — no field is empty where no two spaces meet and none is at an end.
* `irckey_format` — the readers agree on every line that has the tag, and what `keygen` writes they
  both read and open.
-/
import IrcBot.BotAuth
import IrcBot.Chancfg

namespace IrcBot

open Cstr BotAuth Chancfg

/-- A parsed line, of either program. -/
structure IrcKey where
  log2n : Nat
  r : Nat
  p : Nat
  salt : Str
  nonce : Str
  ct : Str
  aad : Str
deriving DecidableEq, Repr

/-- `windows(2).any(|w| w == b"  ")`. -/
def doubleSpace : Str → Bool
  | a :: b :: rest => (a == byte ' ' && b == byte ' ') || doubleSpace (b :: rest)
  | _ => false

/-- `small_uint`, the same in both programs. -/
def smallUint (s : Str) (lo hi : Nat) : Option Nat :=
  if s.isEmpty || 3 < s.length || !s.all isDigit then none
  else
    let x := s.foldl (fun a c => a * 10 + (c - 48).toNat) 0
    if lo ≤ x ∧ x ≤ hi then some x else none

namespace Keygen

def irckeyTag : Str := str "irckey-v2"
def irckeyLog2n : Nat := 17
def irckeyR : Nat := 8
def irckeyP : Nat := 1
def irckeyLog2nMin : Nat := 14
def irckeyLog2nMax : Nat := 18
def irckeyRMax : Nat := 8
def irckeyPMax : Nat := 4
def irckeySalt : Nat := 16
def irckeyNonce : Nat := 12
def irckeyTaglen : Nat := 16
def irckeyLineMax : Nat := 512

/-- `unb64_n`. -/
def unb64N (s : Str) (n : Nat) : Option Str :=
  let want := 4 * ((n + 2) / 3)
  let pad := (3 - n % 3) % 3
  if s.length ≠ want || (s.drop (want - pad)).any (· ≠ byte '=') ||
      (pad < want && s[want - 1 - pad]? == some (byte '=')) then
    none
  else (std.decode s).filter fun v => v.length = n

/-- What stands before the ciphertext. -/
def irckeyHead (salt nonce : Str) : Str :=
  irckeyTag ++ str " scrypt " ++ decNat irckeyLog2n ++ str " " ++ decNat irckeyR ++ str " " ++
    decNat irckeyP ++ str " " ++ b64enc salt ++ str " " ++ b64enc nonce

/-- `irckey_line`, with the salt and the nonce that are drawn. -/
def irckeyLine (T : Tools) (salt nonce : Option Str) (privKey pass : Str) : Option Str :=
  if pass.isEmpty then some (b64enc privKey)
  else do
    let salt ← salt
    let nonce ← nonce
    let head := irckeyHead salt nonce
    let key ← T.scrypt pass salt irckeyLog2n irckeyR irckeyP
    let (ct, tag) ← T.gcmEncrypt key nonce head privKey
    some (head ++ str " " ++ b64enc (ct ++ tag))

/-- `irckey_parse`. -/
def irckeyParse (line : Str) : Option IrcKey :=
  if irckeyLineMax ≤ line.length || doubleSpace line || line.getLast? == some (byte ' ') then none
  else
    match (splitOn (byte ' ') line).filter fun t => !t.isEmpty with
    | [f0, f1, f2, f3, f4, f5, f6, f7] =>
        if f0 ≠ irckeyTag || f1 ≠ str "scrypt" then none
        else do
          let log2n ← smallUint f2 irckeyLog2nMin irckeyLog2nMax
          let r ← smallUint f3 1 irckeyRMax
          let p ← smallUint f4 1 irckeyPMax
          let salt ← unb64N f5 irckeySalt
          let nonce ← unb64N f6 irckeyNonce
          let ct ← unb64N f7 (64 + irckeyTaglen)
          some ⟨log2n, r, p, salt, nonce, ct, line.take (line.length - f7.length - 1)⟩
    | _ => none

/-- `irckey_open`. -/
def irckeyOpen (T : Tools) (k : IrcKey) (pass : Str) : Option Str := do
  let key ← T.scrypt pass k.salt k.log2n k.r k.p
  T.gcmDecrypt key k.nonce k.aad (k.ct.take 64) (k.ct.drop 64)

end Keygen

namespace BotAuth

def irckeyTag : Str := str "irckey-v2"
def irckeyLog2n : Nat × Nat := (14, 18)
def irckeyRMax : Nat := 8
def irckeyPMax : Nat := 4
def irckeyLineMax : Nat := 512

/-- `b64dec_n`. -/
def b64decN (s : Str) (n : Nat) : Option Str :=
  if s.length = 4 * ((n + 2) / 3) then (b64dec s n).filter fun v => v.length = n else none

/-- `irckey_parse`. -/
def irckeyParse (line : Str) : Option IrcKey :=
  if irckeyLineMax ≤ line.length || doubleSpace line || line.getLast? == some (byte ' ') then none
  else
    match splitOn (byte ' ') line with
    | [f0, f1, f2, f3, f4, f5, f6, f7] =>
        if f0 ≠ irckeyTag || f1 ≠ str "scrypt" then none
        else do
          let log2n ← smallUint f2 irckeyLog2n.1 irckeyLog2n.2
          let r ← smallUint f3 1 irckeyRMax
          let p ← smallUint f4 1 irckeyPMax
          let salt ← b64decN f5 16
          let nonce ← b64decN f6 12
          let ct ← b64decN f7 (keyLen + 16)
          some ⟨log2n, r, p, salt, nonce, ct, line.take (line.length - f7.length - 1)⟩
    | _ => none

/-- `irckey_open`. -/
def irckeyOpen (T : Tools) (k : IrcKey) (pass : Str) : Option Str := do
  let key ← T.scrypt pass k.salt k.log2n k.r k.p
  T.gcmDecrypt key k.nonce k.aad (k.ct.take keyLen) (k.ct.drop keyLen)

end BotAuth

namespace Irckey

/-! ### Base64 fields -/

/-- Both accept the base64 of `n` bytes, whichever test they make first. -/
theorem unb64N_eq {n : Nat} (hn : 0 < n) (s : Str) : Keygen.unb64N s n = b64decN s n := by
  refine Option.ext fun v => ?_
  have hkeygen : Keygen.unb64N s n = some v ↔ std.decode s = some v ∧ v.length = n := by
    unfold Keygen.unb64N
    dsimp only
    constructor
    · intro h
      split at h
      · cases h
      · obtain ⟨hdec, hlen⟩ := Option.filter_eq_some_iff.mp h
        exact ⟨hdec, by simpa using hlen⟩
    · rintro ⟨hdec, rfl⟩
      obtain ⟨hlen, body, hs, hbody⟩ := std.decode_padding hdec
      have hpad : (3 - v.length % 3) % 3 < 4 * ((v.length + 2) / 3) := by omega
      have hcut : 4 * ((v.length + 2) / 3) - (3 - v.length % 3) % 3 = body.length := by
        rw [← hlen, hs, List.length_append, List.length_replicate]
        omega
      have hlast : 4 * ((v.length + 2) / 3) - 1 - (3 - v.length % 3) % 3 = body.length - 1 := by
        omega
      have hbodypos : 0 < body.length := by omega
      have hend : s[body.length - 1]? ≠ some (byte '=') := by
        rw [hs, List.getElem?_append_left (by omega)]
        exact fun h => hbody (List.mem_of_getElem? h)
      rw [hcut, hlast]
      have hdrop : s.drop body.length = List.replicate ((3 - v.length % 3) % 3) (byte '=') := by
        rw [hs, List.drop_left]
        rfl
      rw [if_neg, hdec]
      · simp
      · simp [hlen, hdrop, hend]
  have hbot : b64decN s n = some v ↔ std.decode s = some v ∧ v.length = n := by
    unfold b64decN
    constructor
    · intro h
      split at h
      · obtain ⟨hdec, hlen⟩ := Option.filter_eq_some_iff.mp h
        exact ⟨(b64dec_eq_some_iff.mp hdec).2.1, by simpa using hlen⟩
      · cases h
    · rintro ⟨hdec, rfl⟩
      have hlen := (std.decode_padding hdec).1
      have hne : s ≠ [] := by
        rintro rfl
        cases hdec
        cases hn
      rw [if_pos hlen, b64dec_eq_some_iff.mpr ⟨hne, hdec, le_rfl⟩]
      simp
  rw [hkeygen, hbot]

theorem b64decN_b64enc {x : Str} (h : x ≠ []) : b64decN (b64enc x) x.length = some x := by
  rw [b64decN, if_pos (length_b64enc x), b64dec_b64enc h le_rfl]
  simp

/-! ### Fields -/

theorem tail_splitOn {sep c : UInt8} (h : c ≠ sep) (s : Str) :
    ∃ f, splitOn sep s = f :: (splitOn sep s).tail ∧
      splitOn sep (c :: s) = (c :: f) :: (splitOn sep s).tail := by
  obtain ⟨f, fs, hs⟩ := List.exists_cons_of_ne_nil (splitOn_ne_nil sep s)
  exact ⟨f, by rw [hs]; rfl, by rw [splitOn, if_neg h, hs]; rfl⟩

/-- The fields behind the first one. -/
theorem forall_tail_ne_nil_iff (s : Str) :
    (∀ f ∈ (splitOn (byte ' ') s).tail, f ≠ []) ↔
      doubleSpace s = false ∧ s.getLast? ≠ some (byte ' ') := by
  induction s with
  | nil => simp [splitOn, doubleSpace]
  | cons c s ih =>
      by_cases hc : c = byte ' '
      · subst hc
        have htail : (splitOn (byte ' ') (byte ' ' :: s)).tail = splitOn (byte ' ') s := by
          simp [splitOn]
        rw [htail]
        cases s with
        | nil => simp [splitOn]
        | cons d s =>
            by_cases hd : d = byte ' '
            · subst hd
              simp [splitOn, doubleSpace]
            · obtain ⟨f, -, hsplit⟩ := tail_splitOn hd s
              rw [hsplit] at ih ⊢
              simpa [doubleSpace, hd] using ih
      · obtain ⟨f, -, hsplit⟩ := tail_splitOn hc s
        rw [hsplit, List.tail_cons, ih]
        cases s with
        | nil => simp [doubleSpace, hc]
        | cons d s => simp [doubleSpace, hc]

/-- No field is empty where no two spaces meet, and none is at an end. -/
theorem forall_splitOn_ne_nil_iff (s : Str) :
    (∀ f ∈ splitOn (byte ' ') s, f ≠ []) ↔
      s ≠ [] ∧ s.head? ≠ some (byte ' ') ∧ doubleSpace s = false ∧
        s.getLast? ≠ some (byte ' ') := by
  cases s with
  | nil => simp [splitOn]
  | cons c s =>
      by_cases hc : c = byte ' '
      · subst hc
        simp [splitOn]
      · have htail := forall_tail_ne_nil_iff (c :: s)
        obtain ⟨f, -, hsplit⟩ := tail_splitOn hc s
        rw [hsplit] at htail ⊢
        simpa [hc] using htail

theorem irckeyParse_eq {line : Str} (h : irckeyTag ++ str " " <+: line) :
    Keygen.irckeyParse line = BotAuth.irckeyParse line := by
  obtain ⟨rest, rfl⟩ := h
  unfold Keygen.irckeyParse BotAuth.irckeyParse
  rw [show Keygen.irckeyLineMax = irckeyLineMax from rfl]
  split
  · rfl
  · rename_i hguard
    simp only [Bool.or_eq_true, not_or, Bool.not_eq_true, decide_eq_true_eq, beq_iff_eq] at hguard
    obtain ⟨⟨-, hdouble⟩, hlast⟩ := hguard
    have hhead : (irckeyTag ++ str " " ++ rest).head? ≠ some (byte ' ') := by
      rw [show irckeyTag = byte 'i' :: str "rckey-v2" from rfl]
      simp only [List.cons_append, List.head?_cons, ne_eq, Option.some.injEq]
      decide
    have hne : irckeyTag ++ str " " ++ rest ≠ [] := by
      intro hnil
      rw [hnil] at hdouble
      simp [irckeyTag, str] at hnil
    have hfields := (forall_splitOn_ne_nil_iff _).mpr ⟨hne, hhead, hdouble, hlast⟩
    have hfilter : (splitOn (byte ' ') (irckeyTag ++ str " " ++ rest)).filter (fun t => !t.isEmpty) =
        splitOn (byte ' ') (irckeyTag ++ str " " ++ rest) :=
      List.filter_eq_self.mpr fun f hf => by simpa using hfields f hf
    rw [hfilter]
    generalize splitOn (byte ' ') (irckeyTag ++ str " " ++ rest) = fields
    split
    · rw [unb64N_eq (by decide), unb64N_eq (by decide), unb64N_eq (by decide)]
      rfl
    · rfl

/-! ### The line of a key -/

theorem space_notMem_b64enc (x : Str) : byte ' ' ∉ b64enc x := fun h => by
  cases (clean_b64enc x _ h).1

/-- The front of the line, which no key changes. -/
def front : Str := str "irckey-v2 scrypt 17 8 1 "

theorem irckeyHead_eq (salt nonce : Str) :
    Keygen.irckeyHead salt nonce = front ++ b64enc salt ++ byte ' ' :: b64enc nonce := by
  have hfront : Keygen.irckeyTag ++ str " scrypt " ++ decNat Keygen.irckeyLog2n ++ str " " ++
      decNat Keygen.irckeyR ++ str " " ++ decNat Keygen.irckeyP ++ str " " = front := by
    decide
  rw [Keygen.irckeyHead, hfront]
  simp [str]

theorem splitOn_front (s : Str) : splitOn (byte ' ') (front ++ s) =
    [irckeyTag, str "scrypt", str "17", str "8", str "1"] ++ splitOn (byte ' ') s := by
  have hfront : front = irckeyTag ++ byte ' ' :: (str "scrypt" ++ byte ' ' :: (str "17" ++
      byte ' ' :: (str "8" ++ byte ' ' :: (str "1" ++ [byte ' '])))) := by decide
  rw [hfront]
  simp only [List.append_assoc, List.cons_append, List.nil_append]
  rw [splitOn_append (by decide), splitOn_append (by decide),
    splitOn_append (by decide), splitOn_append (by decide),
    splitOn_append (by decide)]

/-- A line with the parameters that `keygen` writes is read as it was meant. -/
theorem irckeyParse_line {salt nonce ct : Str} (hsalt : salt.length = 16)
    (hnonce : nonce.length = 12) (hct : ct.length = 80) :
    BotAuth.irckeyParse (Keygen.irckeyHead salt nonce ++ str " " ++ b64enc ct) =
      some ⟨Keygen.irckeyLog2n, Keygen.irckeyR, Keygen.irckeyP, salt, nonce, ct,
        Keygen.irckeyHead salt nonce⟩ := by
  have hne {x : Str} {n : Nat} (h : x.length = n + 1) : x ≠ [] := by
    rintro rfl
    cases h
  have hline : Keygen.irckeyHead salt nonce ++ str " " ++ b64enc ct =
      front ++ (b64enc salt ++ byte ' ' :: (b64enc nonce ++ byte ' ' :: b64enc ct)) := by
    rw [irckeyHead_eq]
    simp [str]
  have hsplit : splitOn (byte ' ') (Keygen.irckeyHead salt nonce ++ str " " ++ b64enc ct) =
      [irckeyTag, str "scrypt", str "17", str "8", str "1", b64enc salt, b64enc nonce,
        b64enc ct] := by
    rw [hline, splitOn_front, splitOn_append (space_notMem_b64enc salt),
      splitOn_append (space_notMem_b64enc nonce), splitOn_of_notMem (space_notMem_b64enc ct)]
    rfl
  have hlen : (Keygen.irckeyHead salt nonce ++ str " " ++ b64enc ct).length = 174 := by
    have hs := length_b64enc salt
    have hn := length_b64enc nonce
    have hc := length_b64enc ct
    have hf : front.length = 24 := rfl
    rw [hline]
    simp only [List.length_append, List.length_cons]
    omega
  have hclean := (forall_splitOn_ne_nil_iff _).mp (show ∀ f ∈ splitOn (byte ' ')
      (Keygen.irckeyHead salt nonce ++ str " " ++ b64enc ct), f ≠ [] by
    rw [hsplit]
    simp only [List.mem_cons, List.not_mem_nil, or_false]
    rintro f (rfl | rfl | rfl | rfl | rfl | rfl | rfl | rfl)
    · decide
    · decide
    · decide
    · decide
    · decide
    · exact std.encode_ne_nil (hne hsalt)
    · exact std.encode_ne_nil (hne hnonce)
    · exact std.encode_ne_nil (hne hct))
  obtain ⟨-, -, hdouble, hlast⟩ := hclean
  have hlast : ((Keygen.irckeyHead salt nonce ++ str " " ++ b64enc ct).getLast? ==
      some (byte ' ')) = false := by simpa using hlast
  have hmax : ¬ irckeyLineMax ≤ 174 := by decide
  have hsaltDec := b64decN_b64enc (hne hsalt)
  have hnonceDec := b64decN_b64enc (hne hnonce)
  have hctDec := b64decN_b64enc (hne hct)
  rw [hsalt] at hsaltDec
  rw [hnonce] at hnonceDec
  rw [hct] at hctDec
  have haad : (Keygen.irckeyHead salt nonce ++ str " " ++ b64enc ct).take
      (174 - (b64enc ct).length - 1) = Keygen.irckeyHead salt nonce := by
    have hhead : 174 - (b64enc ct).length - 1 = (Keygen.irckeyHead salt nonce).length := by
      have hspace : (str " ").length = 1 := rfl
      rw [List.length_append, List.length_append] at hlen
      omega
    rw [hhead, List.append_assoc, List.take_left]
  unfold BotAuth.irckeyParse
  rw [hlen, hdouble, hlast, hsplit, if_neg (by simp [hmax])]
  simp only [haad]
  rw [if_neg (by simp), show keyLen + 16 = 80 from rfl, hsaltDec, hnonceDec, hctDec]
  rfl

/-- Every line that `keygen` writes for a key and a passphrase is read alike by both programs, and
opens in both; and both accept the same lines. -/
theorem irckey_format (T : Tools) (hT : T.Opens) :
    (∀ salt nonce privKey pass line, (∀ s ∈ salt, s.length = 16) → (∀ s ∈ nonce, s.length = 12) →
      privKey.length = 64 → pass ≠ [] →
      Keygen.irckeyLine T salt nonce privKey pass = some line →
      ∃ k, (Keygen.irckeyParse line = some k ∧ BotAuth.irckeyParse line = some k) ∧
        (salt = some k.salt ∧ nonce = some k.nonce ∧ line = k.aad ++ str " " ++ b64enc k.ct) ∧
        Keygen.irckeyOpen T k pass = some privKey ∧ BotAuth.irckeyOpen T k pass = some privKey) ∧
    ∀ line, irckeyTag ++ str " " <+: line →
      Keygen.irckeyParse line = BotAuth.irckeyParse line := by
  refine ⟨?_, fun line => irckeyParse_eq⟩
  intro salt nonce privKey pass line hsalt hnonce hpriv hpass hline
  have hempty : pass.isEmpty = false := by simpa using hpass
  simp only [Keygen.irckeyLine, hempty, Bool.false_eq_true, if_false, Option.bind_eq_bind,
    Option.bind_eq_some_iff, Option.some.injEq] at hline
  obtain ⟨salt, rfl, nonce, rfl, key, hkey, ⟨ct, tag⟩, hct, rfl⟩ := hline
  have hlen : (ct ++ tag).length = 80 := by
    rw [List.length_append, hT.ct_length hct, hT.tag_length hct, hpriv]
  have hparse := irckeyParse_line (hsalt salt rfl) (hnonce nonce rfl) hlen
  have hopen := hT.opens hct
  have htag : irckeyTag ++ str " " <+:
      Keygen.irckeyHead salt nonce ++ str " " ++ b64enc (ct ++ tag) := by
    rw [irckeyHead_eq]
    exact ⟨_, by simp [front, irckeyTag, str]; rfl⟩
  have hctlen : ct.length = 64 := (hT.ct_length hct).trans hpriv
  refine ⟨_, ⟨(irckeyParse_eq htag).trans hparse, hparse⟩, ⟨rfl, rfl, rfl⟩, ?_, ?_⟩
  · simp [Keygen.irckeyOpen, hkey, ← hctlen, hopen]
  · simp [BotAuth.irckeyOpen, hkey, show keyLen = ct.length from hctlen.symm, hopen]

/-- A key of sevens, and back. -/
theorem irckey_format_sevens : ∃ line k,
    Keygen.irckeyLine Tools.clear (some (List.replicate 16 1)) (some (List.replicate 12 2))
      (List.replicate 64 7) (str "open sesame") = some line ∧
    BotAuth.irckeyParse line = some k ∧
    BotAuth.irckeyOpen Tools.clear k (str "open sesame") = some (List.replicate 64 7) := by
  obtain ⟨k, ⟨-, hparse⟩, -, -, hopen⟩ := (irckey_format Tools.clear Primitives.clear_opens).1
    (some (List.replicate 16 1)) (some (List.replicate 12 2)) (List.replicate 64 7)
    (str "open sesame") _ (by rintro s ⟨⟩; rfl) (by rintro s ⟨⟩; rfl) rfl (by decide) rfl
  exact ⟨_, k, rfl, hparse, hopen⟩

end Irckey

end IrcBot
