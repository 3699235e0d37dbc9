/-
# The tool of an admin (`bot_auth.rs`)

`bot-auth` is the other end of the sealed commands: a program of its own, with its own copies
of the labels and of the bounds. Here is what its commands share.

* `b64dec_b64enc` — it reads the base64 that it writes.
* `fgetsChunks_line` — a line that fits the buffer is one chunk.
-/
import IrcBot.B2
import IrcBot.Lib.Base64

namespace IrcBot.BotAuth

open Cstr

def a2aLabel : Str := str "ircbot-A2A-v1"
def a2kLabel : Str := str "ircbot-A2K-v1"
def a2Label : Str := str "ircbot-A2-v1"
def a2sLabel : Str := str "ircbot-A2S-v1"
def a2rLabel : Str := str "ircbot-A2R-v1"

/-- "<seq>:<more>:" and up to 240 bytes of text. -/
def a2rPtMax : Nat := 264

/-- Ed25519 and X25519. -/
def keyLen : Nat := 64

/-- What an IRC line has room for. -/
def maxLine : Nat := 400
def maxCmd : Nat := 300

/-- What the crates provide to the tools of an admin, over what they provide to the bot. -/
structure Tools extends Primitives where
  /-- Passphrase, salt, log2 N, r and p, to 32 bytes. -/
  scrypt : Str → Str → Nat → Nat → Nat → Option Str

/-- Tools that leave everything in clear, for runs on concrete inputs. -/
def Tools.clear : Tools where
  toPrimitives := Primitives.clear
  scrypt _ _ _ _ _ := some (List.replicate 32 0)

/-! ### Base64 -/

/-- The standard alphabet. -/
def b64Digit (n : Fin 64) : UInt8 :=
  if n.val < 26 then UInt8.ofNat (n.val + 65)
  else if n.val < 52 then UInt8.ofNat (n.val - 26 + 97)
  else if n.val < 62 then UInt8.ofNat (n.val - 52 + 48)
  else if n.val = 62 then byte '+'
  else byte '/'

def b64Value (c : UInt8) : Option (Fin 64) :=
  if 65 ≤ c ∧ c ≤ 90 then some (Fin.ofNat 64 (c.toNat - 65))
  else if 97 ≤ c ∧ c ≤ 122 then some (Fin.ofNat 64 (c.toNat - 97 + 26))
  else if isDigit c then some (Fin.ofNat 64 (c.toNat - 48 + 52))
  else if c = byte '+' then some 62
  else if c = byte '/' then some 63
  else none

/-- The engine `DECODE`, and `STANDARD` where it encodes. -/
def std : Lib.Base64 UInt8 where
  digit := b64Digit
  value := b64Value
  pad := byte '='
  value_digit := by decide
  value_pad := by decide

def b64enc (data : Str) : Str := std.encode data

/-- `b64dec` into a buffer of `cap` bytes. -/
def b64dec (s : Str) (cap : Nat) : Option Str :=
  if s.length = 0 ∨ s.length % 4 ≠ 0 ∨ cap + 2 < s.length / 4 * 3 then none
  else (std.decode s).filter fun v => v.length ≤ cap

theorem b64enc_injective : Function.Injective b64enc := std.encode_injective

theorem length_b64enc (x : Str) : (b64enc x).length = 4 * ((x.length + 2) / 3) :=
  std.length_encode x

/-- What `b64dec` takes is what the engine decodes, where the buffer holds it. -/
theorem b64dec_eq_some_iff {s x : Str} {cap : Nat} :
    b64dec s cap = some x ↔ s ≠ [] ∧ std.decode s = some x ∧ x.length ≤ cap := by
  unfold b64dec
  constructor
  · intro h
    split at h
    · cases h
    · rename_i hok
      obtain ⟨hdec, hlen⟩ := Option.filter_eq_some_iff.mp h
      exact ⟨fun hnil => hok (.inl (by simp [hnil])), hdec, by simpa using hlen⟩
  · rintro ⟨hne, hdec, hlen⟩
    have hs := (std.decode_padding hdec).1
    have := List.length_pos_of_ne_nil hne
    rw [if_neg (by omega)]
    simp [hdec, hlen]

/-- It reads the base64 that it writes. -/
theorem b64dec_b64enc {x : Str} {cap : Nat} (hne : x ≠ []) (hlen : x.length ≤ cap) :
    b64dec (b64enc x) cap = some x :=
  b64dec_eq_some_iff.mpr ⟨std.encode_ne_nil hne, std.decode_encode x, hlen⟩

/-- What holds of the digits and of the padding holds of all that it writes. -/
theorem forall_b64enc {p : UInt8 → Prop} (hdigit : ∀ n, p (b64Digit n)) (hpad : p (byte '='))
    (x : Str) : ∀ c ∈ b64enc x, p c := by
  intro c hc
  rcases std.mem_encode hc with rfl | ⟨n, rfl⟩
  · exact hpad
  · exact hdigit n

/-- None of it is white space, and none ends a string. -/
theorem clean_b64enc (x : Str) : ∀ c ∈ b64enc x, isCSpace c = false ∧ c ≠ 0 :=
  forall_b64enc (by decide) (by decide) x

/-! ### Nicks -/

/-- `lc_copy`: lower-cased, cut to a buffer of `cap` bytes. -/
def lcCopy (s : Str) (cap : Nat) : Str := (s.take (cap - 1)).map lower

theorem lcCopy_of_lt {s : Str} {cap : Nat} (h : s.length < cap) : lcCopy s cap = s.map lower := by
  rw [lcCopy, List.take_of_length_le (by omega)]

/-- `context`: the label, the lower-cased nicks and what is extra, with a NUL between them. -/
def context (cap : Nat) (label bot me : Str) (extra : Option Str) : Option Str :=
  let v := label ++ 0 :: lcCopy bot 64 ++ 0 :: lcCopy me 64 ++ (extra.elim [] fun x => 0 :: x)
  if v.length < cap then some v else none

/-! ### Lines -/

/-- How much of the stream the next `fgets(line, cap, f)` takes. -/
def chunkLen (cap : Nat) (rest : Str) : Nat :=
  let lim := min rest.length (cap - 1)
  let upTo := ((rest.take lim).takeWhile (· ≠ 10)).length
  if upTo < lim then upTo + 1 else lim

def fgetsLoop (cap : Nat) : Nat → Str → List Str
  | 0, _ => []
  | fuel + 1, rest =>
      if rest.isEmpty then []
      else rest.take (chunkLen cap rest) :: fgetsLoop cap fuel (rest.drop (chunkLen cap rest))

/-- `fgets_chunks`. Each chunk takes at least one byte. -/
def fgetsChunks (data : Str) (cap : Nat) : List Str := fgetsLoop cap data.length data

theorem chunkLen_pos {cap : Nat} (hcap : 2 ≤ cap) {rest : Str} (h : rest ≠ []) :
    0 < chunkLen cap rest := by
  have := List.length_pos_of_ne_nil h
  unfold chunkLen
  dsimp only
  split
  · omega
  · omega

/-- There is always fuel enough. -/
theorem fgetsLoop_eq {cap : Nat} (hcap : 2 ≤ cap) {fuel : Nat} {rest : Str}
    (h : rest.length ≤ fuel) : fgetsLoop cap fuel rest = fgetsChunks rest cap := by
  induction fuel using Nat.strong_induction_on generalizing rest with
  | _ fuel ih =>
      rcases eq_or_ne rest [] with rfl | hne
      · cases fuel <;> rfl
      · have hpos := chunkLen_pos hcap hne
        have hlen := List.length_pos_of_ne_nil hne
        obtain ⟨n, rfl⟩ : ∃ n, fuel = n + 1 := ⟨fuel - 1, by omega⟩
        obtain ⟨m, hm⟩ : ∃ m, rest.length = m + 1 := ⟨rest.length - 1, by omega⟩
        have hdrop : (rest.drop (chunkLen cap rest)).length ≤ m := by
          rw [List.length_drop]
          omega
        rw [fgetsChunks, hm]
        simp only [fgetsLoop]
        rw [ih n (by omega) (by omega), ih m (by omega) hdrop]

theorem fgetsChunks_cons {cap : Nat} (hcap : 2 ≤ cap) {rest : Str} (h : rest ≠ []) :
    fgetsChunks rest cap =
      rest.take (chunkLen cap rest) :: fgetsChunks (rest.drop (chunkLen cap rest)) cap := by
  obtain ⟨m, hm⟩ : ∃ m, rest.length = m + 1 :=
    ⟨rest.length - 1, by have := List.length_pos_of_ne_nil h; omega⟩
  have hpos := chunkLen_pos hcap h
  have hempty : rest.isEmpty = false := by simpa using h
  have hdrop : (rest.drop (chunkLen cap rest)).length ≤ m := by
    rw [List.length_drop]
    omega
  rw [← fgetsLoop_eq hcap hdrop, fgetsChunks, hm, fgetsLoop, if_neg (by simp [hempty])]

/-- A line that fits the buffer is one chunk. -/
theorem fgetsChunks_line {cap : Nat} {line : Str} (hline : (10 : UInt8) ∉ line)
    (hcap : line.length + 1 < cap) (rest : Str) :
    fgetsChunks (line ++ 10 :: rest) cap = (line ++ [10]) :: fgetsChunks rest cap := by
  have hwhile : ∀ n, line.length < n →
    (((line ++ 10 :: rest).take n).takeWhile (· ≠ 10)) = line := by
    intro n hn
    rw [List.take_append, List.take_of_length_le hn.le]
    obtain ⟨k, hk⟩ : ∃ k, n - line.length = k + 1 := ⟨n - line.length - 1, by omega⟩
    have hne : ∀ c ∈ line, decide (c ≠ 10) = true := fun c hc =>
      decide_eq_true (ne_of_mem_of_not_mem hc hline)
    rw [hk, List.take_succ_cons, List.takeWhile_append_of_pos hne]
    simp
  have hlen : chunkLen cap (line ++ 10 :: rest) = line.length + 1 := by
    have hall : (line ++ 10 :: rest).length = line.length + rest.length + 1 := by simp; omega
    unfold chunkLen
    dsimp only
    rw [hwhile _ (by omega), if_pos (by omega)]
  rw [fgetsChunks_cons (by omega) (by simp), hlen]
  congr 1
  · simp [List.take_append]
  · congr 1
    simp [List.drop_append]

end IrcBot.BotAuth
