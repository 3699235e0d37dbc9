/-
# The replies to a sealed command, read back (`bot_auth.rs`)

`bot-auth reply` reads lines, opens the frames that they carry and joins the pieces again. It goes
by the number of a piece and by whether more of the reply follows it.

* `strtoul_decNat` — it reads back the number that the bot prints.
* `foldl_readReply` — lines that carry frames are read as the frames.
* `Stands.take` — what one piece does to the joiner, from where a run without its losses stands.
-/
import IrcBot.Lib.Delivery
import IrcBot.ReplyPieces
import IrcBot.SealedCommand

namespace IrcBot.BotAuth

open Cstr

/-! ### A piece -/

/-- One more digit, and whether any has overflowed. -/
def ulongStep (v : Nat × Bool) (c : UInt8) : Nat × Bool :=
  let x := v.1 * 10 + (c - 48).toNat
  if x < 2 ^ 64 then (x, v.2) else (v.1, true)

/-- `strtoul(s, &e, 10)`: the value, and how many bytes it took. -/
def strtoul (s : Str) : Nat × Nat :=
  let space := (s.takeWhile isCSpace).length
  let sign := (s.drop space).head?
  let neg := sign = some (byte '-')
  let d0 := if sign = some (byte '+') ∨ neg then space + 1 else space
  let digits := (s.drop d0).takeWhile isDigit
  if digits = [] then (0, 0)
  else
    let (v, overflowed) := digits.foldl ulongStep (0, false)
    (if overflowed then 2 ^ 64 - 1 else if neg then (2 ^ 64 - v) % 2 ^ 64 else v, d0 + digits.length)

/-- "<seq>:<more>:<text>". -/
def readPiece (pt : Str) : Option (Nat × Bool × Str) :=
  let (seq, e) := strtoul pt
  let at_ (i : Nat) := pt.getD i 0
  if e = 0 || at_ e ≠ byte ':' || (at_ (e + 1) ≠ byte '0' && at_ (e + 1) ≠ byte '1') ||
      at_ (e + 2) ≠ byte ':' then none
  else some (seq, at_ (e + 1) ≠ byte '0', pt.drop (e + 3))

/-- Control bytes are shown as '?'. -/
def shown (t : UInt8) : UInt8 := if t < 0x20 ∨ t = 0x7F then byte '?' else t

/-- A line of the output; the mark says that a piece of it went missing. -/
structure Line where
  text : Str
  marked : Bool
deriving DecidableEq, Repr

def Line.bytes (l : Line) : Str := l.text ++ (if l.marked then str " [...]\n" else str "\n")

/-- What `cmd_reply` keeps from line to line. -/
structure Joiner where
  joined : Str := []
  next : Nat := 0
  seen : Bool := false
  bad : Nat := 0
  out : List Line := []
  err : List Str := []
deriving DecidableEq, Repr

/-- How much of a reply is joined. -/
def joinedMax : Nat := 8192 - 1

/-- A piece that opened. -/
def Joiner.take (j : Joiner) (seq : Nat) (more : Bool) (text : Str) : Joiner :=
  -- a repeat of a piece already shown
  if j.seen && seq < j.next then j
  else
    -- a piece went missing
    let j := if j.seen && seq ≠ j.next && !j.joined.isEmpty then
      { j with out := j.out ++ [⟨j.joined, true⟩], joined := [] } else j
    let joined := j.joined ++ (text.map shown).take (joinedMax - j.joined.length)
    let j := { j with next := (seq + 1) % 2 ^ 64, seen := true, joined }
    if more then j else { j with out := j.out ++ [⟨j.joined, false⟩], joined := [] }

/-! ### A line of the input -/

def marker : Str := str "~A2R "

/-- What is behind the first "~A2R ". -/
def afterMarker : Str → Option Str
  | [] => none
  | c :: s => if marker <+: c :: s then some ((c :: s).drop marker.length) else afterMarker s

/-- What ends the base64. -/
def endsFrame (c : UInt8) : Bool := c == 13 || c == 10 || c == byte ' ' || c == 9

section Primitives

variable (P : Primitives) (rk aad : Str)

/-- The plaintext of a frame, up to its first NUL. -/
def openReply (b64 : Str) : Option Str := do
  let fr ← b64dec b64 (a2rPtMax + 28 + 4)
  if 28 ≤ fr.length ∧ fr.length - 28 ≤ a2rPtMax then
    let rest := fr.drop 12
    let n := fr.length - 28
    (P.gcmDecrypt rk (fr.take 12) aad (rest.take n) ((rest.drop n).take 16)).map untilNul
  else none

/-- What a frame makes of the joiner. -/
def readFrame (j : Joiner) (b64 : Str) : Joiner :=
  match openReply P rk aad b64 with
  | none =>
      { j with
        bad := j.bad + 1
        err := j.err ++ [str "bot-auth: an ~A2R line did not open (a reply to another command, or the wrong nicks)"] }
  | some pt =>
      match readPiece pt with
      | none => { j with bad := j.bad + 1 }
      | some (seq, more, text) => j.take seq more text

/-- One turn of the loop of `cmd_reply`. -/
def readReply (j : Joiner) (line : Str) : Joiner :=
  match afterMarker (untilNul line) with
  | none => j
  | some p => readFrame P rk aad j (p.takeWhile (!endsFrame ·))

/-- What the input came to: nothing more follows what is still joined. -/
def Joiner.finish (j : Joiner) : Joiner :=
  if j.joined.isEmpty then j
  else { j with out := j.out ++ [⟨j.joined, true⟩], joined := [] }

end Primitives

/-- What `cmd_reply` prints, and its exit status. -/
structure Replies where
  status : Int
  out : List Line
  err : List Str
deriving DecidableEq, Repr

/-- What goes to the standard output. -/
def Replies.stdout (r : Replies) : Str := r.out.flatMap Line.bytes

/-- `cmd_reply`, with the reply key file and the standard input. -/
def cmdReply (P : Primitives) (rkfile : Option Str) (bot me stdin : Str) : Except Die Replies := do
  let some line := readFirstLine rkfile 2048 | throw ⟨1, str "cannot read the reply key file"⟩
  let some rk := (b64dec line 32).filter (·.length = 32)
    | throw ⟨1, str "not a reply key file (from bot-auth cmd --sealed)"⟩
  let some aad := context 160 a2rLabel bot me none
    | throw ⟨1, str "bot nick or your nick too long"⟩
  let j := ((fgetsChunks stdin 2048).foldl (readReply P rk aad) {}).finish
  pure ⟨if 0 < j.bad then 2 else 0, j.out, j.err⟩

/-! ### Reading back a frame -/

theorem foldl_ulongStep_decNat {n : Nat} (hn : n < 2 ^ 64) :
    (decNat n).foldl ulongStep (0, false) = (n, false) := by
  have hstep (v d : Nat) (hd : d < 10) (hv : v * 10 + d < 2 ^ 64) :
      ulongStep (v, false) (digitByte d) = (v * 10 + d, false) := by
    simp only [ulongStep, toNat_digitByte hd]
    rw [if_pos hv]
  induction n using Nat.strongRecOn with
  | ind n ih =>
      rw [decNat_eq]
      split
      · rename_i hlt
        simpa using hstep 0 n hlt (by omega)
      · have hdiv : n / 10 * 10 + n % 10 = n := by omega
        rw [List.foldl_append, ih (n / 10) (by omega) (by omega), List.foldl_cons, List.foldl_nil,
          hstep (n / 10) (n % 10) (Nat.mod_lt _ (by decide)) (by omega), hdiv]

/-- It reads back the number that the bot prints, and stops behind it. -/
theorem strtoul_decNat {n : Nat} (hn : n < 2 ^ 64) {rest : Str}
    (hrest : ∀ c ∈ rest.head?, isDigit c = false) :
    strtoul (decNat n ++ rest) = (n, (decNat n).length) := by
  have hdigits : (decNat n ++ rest).takeWhile isDigit = decNat n := by
    rw [List.takeWhile_append_of_pos fun c hc => isDigit_of_mem_decNat hc]
    cases rest with
    | nil => simp
    | cons c rest => simp [hrest c rfl]
  have hne := decNat_ne_nil n
  have hfold := foldl_ulongStep_decNat hn
  obtain ⟨d, ds, hd⟩ := List.exists_cons_of_ne_nil hne
  obtain ⟨hspace, hminus, hplus⟩ :=
    not_space_of_isDigit (isDigit_of_mem_decNat (n := n) (c := d) (by simp [hd]))
  have hspaces : ((decNat n ++ rest).takeWhile isCSpace).length = 0 := by simp [hd, hspace]
  have hsign : (decNat n ++ rest).head? = some d := by simp [hd]
  unfold strtoul
  simp only [hspaces, List.drop_zero, hsign, Option.some.injEq, hminus, hplus,
    Bool.false_eq_true, or_self, if_false, hdigits, hne, hfold, Nat.zero_add]

theorem readPiece_plaintext {n : Nat} (hn : n < 2 ^ 64) (more : Bool) (piece : Str) :
    readPiece (Sendq.plaintext n more piece) = some (n, more, piece) := by
  obtain ⟨flag, hflag, hmore, hbytes⟩ : ∃ flag, (if more then str "1" else str "0") = [flag] ∧
      decide (flag ≠ byte '0') = more ∧ (more = true → flag = byte '1') := by
    cases more
    · exact ⟨byte '0', rfl, by decide, by decide⟩
    · exact ⟨byte '1', rfl, by decide, by decide⟩
  have hpt : Sendq.plaintext n more piece =
      decNat n ++ byte ':' :: flag :: byte ':' :: piece := by
    rw [Sendq.plaintext, hflag]
    simp [str]
  have hget (i : Nat) : (decNat n ++ byte ':' :: flag :: byte ':' :: piece).getD
      ((decNat n).length + i) 0 = (byte ':' :: flag :: byte ':' :: piece).getD i 0 := by
    rw [List.getD_eq_getElem?_getD, List.getElem?_append_right (Nat.le_add_right _ i),
      Nat.add_sub_cancel_left, ← List.getD_eq_getElem?_getD]
  have hfirst : (decNat n ++ byte ':' :: flag :: byte ':' :: piece).getD (decNat n).length 0 =
      byte ':' := hget 0
  have hdrop : (decNat n ++ byte ':' :: flag :: byte ':' :: piece).drop ((decNat n).length + 3) =
      piece := by
    rw [← List.drop_drop, List.drop_left]
    rfl
  have hlen : (decNat n).length ≠ 0 := by simpa using decNat_ne_nil n
  have hcolon : isDigit (byte ':') = false := by decide
  unfold readPiece
  rw [hpt, strtoul_decNat hn (by simpa using hcolon)]
  simp only [hfirst, hget 1, hget 2, hdrop, List.getD_cons_zero, List.getD_cons_succ, hmore]
  rw [if_neg]
  simpa [hlen] using hbytes

/-- What is relied on for the frames of the bot. -/
structure Seals (P : Primitives) : Prop extends P.Opens where
  /-- `random_bytes` fills the buffer. -/
  drawn_length : ∀ {n key aad pt bytes}, P.drawn n key aad pt = some bytes → bytes.length = n
  b64 : ∀ x, P.b64Encode x = b64enc x

section Primitives

variable {P : Primitives} (hP : Seals P) {rk aad : Str}
include hP

/-- What the bot sealed opens, whatever it is. -/
theorem openReply_sealed {pt frame : Str} (h : Sendq.replySeal P rk aad pt = some frame)
    (hpt : (0 : UInt8) ∉ pt) : openReply P rk aad (P.b64Encode frame) = some pt := by
  unfold Sendq.replySeal at h
  split at h
  · cases h
  · rename_i hmax
    obtain ⟨iv, ct, tag, hdrawn, rfl, hct, htag, hopen⟩ := Crypto.gcmSeal_layout P hP.toOpens h
    have hiv : iv.length = 12 := hP.drawn_length hdrawn
    have hlen : (iv ++ ct ++ tag).length = pt.length + 28 := by
      simp only [List.length_append]
      omega
    have hmax' : pt.length ≤ 264 := Nat.le_of_not_lt hmax
    have hbuf : a2rPtMax + 28 + 4 = 296 := rfl
    have hne : iv ++ ct ++ tag ≠ [] := List.ne_nil_of_length_pos (by omega)
    have hiv' : (iv ++ ct ++ tag).take 12 = iv := by
      rw [List.append_assoc, List.take_left' hiv]
    have hrest : (iv ++ ct ++ tag).drop 12 = ct ++ tag := by
      rw [List.append_assoc, List.drop_left' hiv]
    unfold openReply
    rw [hP.b64, b64dec_b64enc hne (by omega)]
    simp only [Option.bind_eq_bind, Option.bind_some, hlen, Nat.add_sub_cancel, hiv', hrest]
    rw [if_pos ⟨Nat.le_add_left _ _, hmax'⟩, List.take_left' hct, List.drop_left' hct,
      List.take_of_length_le htag.le, hopen, Option.map_some, untilNul_eq_self hpt]

theorem readFrame_sealed {n : Nat} (hn : n < 2 ^ 64) {more : Bool} {piece frame : Str}
    (hpiece : (0 : UInt8) ∉ piece)
    (h : Sendq.replySeal P rk aad (Sendq.plaintext n more piece) = some frame) (j : Joiner) :
    readFrame P rk aad j (P.b64Encode frame) = j.take n more piece := by
  have hpt : (0 : UInt8) ∉ Sendq.plaintext n more piece := by
    have hflag : (0 : UInt8) ∉ if more then str "1" else str "0" := by
      cases more
      · decide
      · decide
    simp only [Sendq.plaintext, List.mem_append, not_or]
    refine ⟨⟨⟨⟨fun hdigit => ?_, by decide⟩, hflag⟩, by decide⟩, hpiece⟩
    exact absurd (isDigit_of_mem_decNat hdigit) (by decide)
  unfold readFrame
  rw [openReply_sealed hP h hpt]
  dsimp only
  rw [readPiece_plaintext hn]

end Primitives

/-! ### Lines that carry frames -/

/-- The frame is behind the first marker of the line, and ends there. -/
def Carries (line b64 : Str) : Prop :=
  ∃ pre post, untilNul line = pre ++ marker ++ b64 ++ post ∧ ¬ marker <:+: pre ++ str "~A2R" ∧
    ∀ c ∈ post.head?, endsFrame c = true

/-- Lines that carry frames, in order; there may be other lines. -/
inductive Arrives : List Str → List Str → Prop
  | done : Arrives [] []
  | frame {line b64 : Str} {frames lines : List Str} (hline : Carries line b64)
      (h : Arrives frames lines) : Arrives (b64 :: frames) (line :: lines)
  | other {line : Str} {frames lines : List Str} (hline : ¬ marker <:+: untilNul line)
      (h : Arrives frames lines) : Arrives frames (line :: lines)

theorem afterMarker_eq_none {s : Str} (h : ¬ marker <:+: s) : afterMarker s = none := by
  induction s with
  | nil => rfl
  | cons c s ih =>
      rw [afterMarker, if_neg fun hpre => h hpre.isInfix]
      exact ih fun hin => h (hin.trans (List.suffix_cons c s).isInfix)

/-- The first marker is found where none begins before it. -/
theorem afterMarker_append {pre : Str} (h : ¬ marker <:+: pre ++ str "~A2R") (rest : Str) :
    afterMarker (pre ++ marker ++ rest) = some rest := by
  induction pre with
  | nil => exact if_pos (List.prefix_append marker rest)
  | cons c pre ih =>
      have hno : ¬ marker <+: c :: (pre ++ marker ++ rest) := by
        intro hpre
        have hlen : marker.length ≤ (c :: pre ++ str "~A2R").length := by
          simp only [List.length_append, List.length_cons]
          rw [show marker.length = 5 from rfl, show (str "~A2R").length = 4 from rfl]
          omega
        have hfront : c :: pre ++ str "~A2R" <+: c :: (pre ++ marker ++ rest) := by
          refine ⟨byte ' ' :: rest, ?_⟩
          simp [marker, str]
        exact h (List.prefix_of_prefix_length_le hpre hfront hlen).isInfix
      rw [List.cons_append, List.cons_append, afterMarker, if_neg hno]
      exact ih fun hin => h (hin.trans (List.suffix_cons c _).isInfix)

theorem carries_line {pre b64 : Str} (hpre : ∀ c ∈ pre, c ≠ 0 ∧ c ≠ byte '~')
    (hb64 : ∀ c ∈ b64, c ≠ 0) : Carries (pre ++ marker ++ b64 ++ [10]) b64 := by
  refine ⟨pre, [10], untilNul_eq_self ?_, ?_, by simp [endsFrame]⟩
  · simp only [List.mem_append, not_or]
    exact ⟨⟨⟨fun h => (hpre 0 h).1 rfl, by decide⟩, fun h => hb64 0 h rfl⟩, by decide⟩
  · -- the only '~' is too close to the end
    rintro ⟨a, b, hin⟩
    rw [List.append_assoc] at hin
    have hlen : marker.length = 5 ∧ (str "~A2R").length = 4 := ⟨rfl, rfl⟩
    rcases List.append_eq_append_iff.mp hin with ⟨c, hc, hrest⟩ | ⟨c, -, hrest⟩
    · cases c with
      | nil =>
          have := congrArg List.length hrest
          simp only [List.length_append, List.nil_append] at this
          omega
      | cons d c =>
          have htilde : byte '~' = d := (List.cons.inj hrest).1
          exact (hpre d (by simp [hc])).2 htilde.symm
    · have := congrArg List.length hrest
      simp only [List.length_append] at this
      omega

/-- A log that has nothing else in it. -/
theorem arrives_log {pre : Str} (hpre : ∀ c ∈ pre, c ≠ 0 ∧ c ≠ 10 ∧ c ≠ byte '~')
    {frames : List Str} (hframes : ∀ b64 ∈ frames, (∀ c ∈ b64, c ≠ 0 ∧ c ≠ 10) ∧
      pre.length + b64.length + 6 < 2048) :
    Arrives frames
      (fgetsChunks (frames.flatMap fun b64 => pre ++ marker ++ b64 ++ [10]) 2048) := by
  induction frames with
  | nil => exact .done
  | cons b64 frames ih =>
      obtain ⟨hb64, hlen⟩ := hframes b64 (by simp)
      have hbreak : (10 : UInt8) ∉ pre ++ marker ++ b64 := by
        simp only [List.mem_append, not_or]
        exact ⟨⟨fun h => (hpre 10 h).2.1 rfl, by decide⟩, fun h => (hb64 10 h).2 rfl⟩
      have hfits : (pre ++ marker ++ b64).length + 1 < 2048 := by
        simp only [List.length_append]
        rw [show marker.length = 5 from rfl]
        omega
      rw [List.flatMap_cons, List.append_assoc (pre ++ marker ++ b64), List.singleton_append,
        fgetsChunks_line hbreak hfits]
      exact .frame (carries_line (fun c hc => ⟨(hpre c hc).1, (hpre c hc).2.2⟩)
        fun c hc => (hb64 c hc).1) (ih fun b hb => hframes b (List.mem_cons_of_mem _ hb))

section Primitives

variable {P : Primitives} {rk aad : Str}

theorem readReply_of_carries {line b64 : Str} (h : Carries line b64)
    (hb64 : ∀ c ∈ b64, endsFrame c = false) (j : Joiner) :
    readReply P rk aad j line = readFrame P rk aad j b64 := by
  obtain ⟨pre, post, hline, hfirst, hpost⟩ := h
  have htoken : (b64 ++ post).takeWhile (!endsFrame ·) = b64 := by
    rw [List.takeWhile_append_of_pos (by simpa using hb64)]
    cases post with
    | nil => simp
    | cons c post => simp [hpost c rfl]
  unfold readReply
  rw [hline, List.append_assoc (pre ++ marker), afterMarker_append hfirst]
  dsimp only
  rw [htoken]

/-- The lines are read as the frames that they carry. -/
theorem foldl_readReply {frames lines : List Str} (h : Arrives frames lines)
    (hframes : ∀ b64 ∈ frames, ∀ c ∈ b64, endsFrame c = false) (j : Joiner) :
    lines.foldl (readReply P rk aad) j = frames.foldl (readFrame P rk aad) j := by
  induction h generalizing j with
  | done => rfl
  | @frame line b64 frames lines hline _ ih =>
      rw [List.foldl_cons, List.foldl_cons, readReply_of_carries hline (hframes b64 (by simp))]
      exact ih (fun b hb => hframes b (List.mem_cons_of_mem _ hb)) _
  | @other line frames lines hline _ ih =>
      rw [List.foldl_cons, readReply, afterMarker_eq_none hline]
      exact ih hframes j

end Primitives

/-! ### What the joiner makes of a run -/

/-- Where the joiner stands before the `n`th piece: `t` has been joined since the last loss, and
what stands joined from before a loss shows by its number. -/
structure Joiner.Stands (n : Nat) (t : Str) (j : Joiner) : Prop where
  le : j.seen = true → j.next ≤ n
  joined : (j.seen = true ∧ j.next = n ∧ j.joined = (t.map shown).take joinedMax) ∨
    (t = [] ∧ (j.joined ≠ [] → j.seen = true ∧ j.next < n))

/-- Nothing has been lost that would show. -/
def Joiner.Whole (n : Nat) (j : Joiner) : Prop := j.joined = [] ∨ j.seen = true ∧ j.next = n

theorem Joiner.stands_start : Joiner.Stands 0 [] {} :=
  ⟨by simp, .inr ⟨rfl, by simp⟩⟩

theorem Joiner.Stands.lost {n : Nat} {t : Str} {j : Joiner} (h : j.Stands n t) :
    j.Stands (n + 1) [] := by
  refine ⟨fun hseen => (h.le hseen).trans (Nat.le_succ n), .inr ⟨rfl, fun hne => ?_⟩⟩
  rcases h.joined with ⟨hseen, hnext, -⟩ | ⟨-, hgap⟩
  · exact ⟨hseen, by omega⟩
  · exact ⟨(hgap hne).1, (hgap hne).2.trans (Nat.lt_succ_self n)⟩

/-- **One piece**: it goes behind what was joined since the last loss; what stood joined from before
the loss is marked. -/
theorem Joiner.Stands.take {n : Nat} {t : Str} {j : Joiner} (h : j.Stands n t)
    (hn : n + 1 < 2 ^ 64) (p : Str) :
    ∃ marks : List Line, (∀ l ∈ marks, l.marked = true) ∧ (j.Whole n → marks = []) ∧
      ∀ more, j.take n more p =
        let all := ((t ++ p).map shown).take joinedMax
        if more then { j with joined := all, next := n + 1, seen := true, out := j.out ++ marks }
        else { j with
          joined := []
          next := n + 1
          seen := true
          out := j.out ++ marks ++ [⟨all, false⟩] } := by
  have hrepeat : (j.seen && decide (n < j.next)) = false := by
    cases hseen : j.seen with
    | false => rfl
    | true => simpa using h.le hseen
  have hmod : (n + 1) % 18446744073709551616 = n + 1 := Nat.mod_eq_of_lt hn
  rcases h.joined with ⟨hseen, hnext, hjoined⟩ | ⟨rfl, hgap⟩
  · refine ⟨[], by simp, fun _ => rfl, fun more => ?_⟩
    have hall : (t.map shown).take joinedMax ++
        (p.map shown).take (joinedMax - ((t.map shown).take joinedMax).length) =
        ((t ++ p).map shown).take joinedMax := by
      rw [List.map_append, List.take_append, List.length_take]
      congr 2
      omega
    unfold Joiner.take
    rw [hrepeat]
    simp only [Bool.false_eq_true, if_false, hnext, ne_eq, not_true, decide_false, Bool.and_false,
      Bool.false_and, hjoined, hall, Nat.reducePow, hmod, List.append_nil]
  · rcases eq_or_ne j.joined [] with hempty | hne
    · refine ⟨[], by simp, fun _ => rfl, fun more => ?_⟩
      unfold Joiner.take
      rw [hrepeat]
      simp [hempty, hmod]
    · obtain ⟨hseen, hlt⟩ := hgap hne
      refine ⟨[⟨j.joined, true⟩], by simp, fun hwhole => ?_, fun more => ?_⟩
      · rcases hwhole with hempty | ⟨-, hnext⟩
        · exact absurd hempty hne
        · omega
      · have hmissing : (j.seen && decide (n ≠ j.next) && !j.joined.isEmpty) = true := by
          simp [hseen, hne, hlt.ne']
        unfold Joiner.take
        rw [hrepeat, hmissing]
        simp [hmod]

/-- A piece that is there again changes nothing. -/
theorem Joiner.take_again {j : Joiner} {k : Nat} (hseen : j.seen = true) (hk : k < j.next)
    (more : Bool) (p : Str) : j.take k more p = j := by
  simp [Joiner.take, hseen, hk]

/-- A piece that is next, or comes after others were lost, is counted. -/
theorem Joiner.take_next {j : Joiner} {n : Nat} (hle : j.next ≤ n) (hn : n + 1 < 2 ^ 64)
    (more : Bool) (p : Str) : (j.take n more p).next = n + 1 ∧ (j.take n more p).seen = true := by
  have hmod : (n + 1) % 2 ^ 64 = n + 1 := Nat.mod_eq_of_lt hn
  have hrepeat : (j.seen && decide (n < j.next)) = false := by simp [Nat.not_lt.mpr hle]
  unfold Joiner.take
  rw [hrepeat]
  cases more
  · exact ⟨hmod, rfl⟩
  · exact ⟨hmod, rfl⟩

/-- The pieces that arrive, of those from `n` on, are taken one after the other. -/
def Joiner.run (arrives : Nat → Bool) : Joiner → Nat → List (Str × Bool) → Joiner
  | j, _, [] => j
  | j, n, p :: ps => Joiner.run arrives (if arrives n then j.take n p.2 p.1 else j) (n + 1) ps

/-- The line that a reply comes to, where its last piece, of number `last`, arrives. -/
def lineOf (arrives : Nat → Bool) (last : Nat) (left : Str) : List Line :=
  if arrives last then [⟨(left.map shown).take joinedMax, false⟩] else []

/-- **One reply**: what is left after the last loss comes out where its last piece arrives. Nothing
comes out before but what is marked, and that only where something was lost. -/
theorem Joiner.Stands.run_pieces (arrives : Nat → Bool) (text : Str) {n : Nat} {t : Str}
    {j : Joiner} (h : j.Stands n t) (hn : n + (Sendq.pieces text).length < 2 ^ 64) :
    ∃ marks : List Line, (∀ l ∈ marks, l.marked = true) ∧
      ((∀ i < (Sendq.pieces text).length, arrives (n + i) = true) → j.Whole n →
        marks = [] ∧ (j.run arrives n (Sendq.pieces text)).joined = []) ∧
      (j.run arrives n (Sendq.pieces text)).out = j.out ++ marks ++
        lineOf arrives (n + (Sendq.pieces text).length - 1)
          (Lib.Delivery.afterLoss arrives n t ((Sendq.pieces text).map (·.1))) ∧
      (j.run arrives n (Sendq.pieces text)).Stands (n + (Sendq.pieces text).length) [] ∧
      (j.run arrives n (Sendq.pieces text)).bad = j.bad ∧
      (j.run arrives n (Sendq.pieces text)).err = j.err := by
  induction text using Sendq.pieces_induction generalizing n t j with
  | last text _ =>
      simp only [List.length_singleton] at hn
      simp only [Joiner.run, Lib.Delivery.afterLoss, lineOf, List.length_singleton, List.map_cons,
        List.map_nil, Nat.add_sub_cancel]
      cases harr : arrives n with
      | false =>
          refine ⟨[], by simp, fun hall => ?_, by simp, h.lost, rfl, rfl⟩
          have := hall 0 Nat.one_pos
          rw [Nat.add_zero, harr] at this
          cases this
      | true =>
          obtain ⟨marks, hmarks, hwhole, htake⟩ := h.take hn text
          have hlast := htake false
          simp only [Bool.false_eq_true, if_false] at hlast
          rw [if_pos rfl, if_pos rfl, if_pos rfl, hlast]
          refine ⟨marks, hmarks, fun _ hw => ⟨hwhole hw, rfl⟩, rfl, ?_, rfl, rfl⟩
          exact ⟨fun _ => le_rfl, .inr ⟨rfl, fun hne => absurd rfl hne⟩⟩
  | more text _ ih =>
      generalize Sendq.pieces (text.drop (Sendq.pieceLen text)) = ps at ih hn ⊢
      generalize text.take (Sendq.pieceLen text) = p at hn ⊢
      simp only [List.length_cons] at hn
      simp only [Joiner.run, Lib.Delivery.afterLoss, List.length_cons, List.map_cons]
      have hnum : n + (ps.length + 1) = n + 1 + ps.length := by omega
      have hlater (hall : ∀ i < ps.length + 1, arrives (n + i) = true) :
          ∀ i < ps.length, arrives (n + 1 + i) = true := by
        intro i hi
        rw [show n + 1 + i = n + (i + 1) by omega]
        exact hall (i + 1) (by omega)
      rw [hnum]
      cases harr : arrives n with
      | false =>
          obtain ⟨marks, hmarks, -, hout, hstands⟩ := ih h.lost (by omega)
          refine ⟨marks, hmarks, fun hall => ?_, hout, hstands⟩
          have := hall 0 (Nat.succ_pos _)
          rw [Nat.add_zero, harr] at this
          cases this
      | true =>
          obtain ⟨marks, hmarks, hwhole, htake⟩ := h.take (by omega) p
          have hmore := htake true
          simp only [if_true] at hmore
          rw [if_pos rfl, if_pos rfl, hmore]
          have hnext : Joiner.Stands (n + 1) (t ++ p) { j with
              joined := ((t ++ p).map shown).take joinedMax
              next := n + 1
              seen := true
              out := j.out ++ marks } := ⟨fun _ => le_rfl, .inl ⟨rfl, rfl, rfl⟩⟩
          obtain ⟨later, hlaters, hrest, hout, hstands⟩ := ih hnext (by omega)
          refine ⟨marks ++ later, ?_, fun hall hw => ?_, ?_, hstands⟩
          · intro l hl
            exact (List.mem_append.mp hl).elim (hmarks l) (hlaters l)
          · obtain ⟨hnone, hempty⟩ := hrest (hlater hall) (.inr ⟨rfl, rfl⟩)
            refine ⟨?_, hempty⟩
            rw [hwhole hw, hnone]
            rfl
          · rw [hout]
            simp only [List.append_assoc]

theorem Joiner.run_append (arrives : Nat → Bool) (j : Joiner) (n : Nat)
    (ps qs : List (Str × Bool)) :
    j.run arrives n (ps ++ qs) = (j.run arrives n ps).run arrives (n + ps.length) qs := by
  induction ps generalizing j n with
  | nil => rfl
  | cons p ps ih =>
      rw [List.cons_append, Joiner.run, Joiner.run, ih, List.length_cons,
        show n + 1 + ps.length = n + (ps.length + 1) by omega]

/-- What is still joined in the end comes out marked. -/
theorem Joiner.finish_unmarked (j : Joiner) (shows : Str → Prop) :
    (∀ l ∈ j.finish.out, l.marked = false → shows l.text) ↔
      ∀ l ∈ j.out, l.marked = false → shows l.text := by
  unfold Joiner.finish
  split
  · rfl
  · simp [or_imp, forall_and]

@[simp] theorem Joiner.finish_bad (j : Joiner) : j.finish.bad = j.bad := by
  unfold Joiner.finish
  split <;> rfl

@[simp] theorem Joiner.finish_err (j : Joiner) : j.finish.err = j.err := by
  unfold Joiner.finish
  split <;> rfl

/-- What is left of a reply, whose first frame is the `n`th, after its last frame that is lost. -/
def leftOf (arrives : Nat → Bool) (n : Nat) (text : Str) : Str :=
  Lib.Delivery.afterLoss arrives n [] ((Sendq.pieces text).map (·.1))

/-- Where the frames of a reply all arrive, all of it is left. -/
theorem leftOf_of_all {arrives : Nat → Bool} {n : Nat} {text : Str}
    (h : ∀ i < (Sendq.pieces text).length, arrives (n + i) = true) :
    leftOf arrives n text = text := by
  rw [leftOf, Lib.Delivery.afterLoss_of_all arrives (by simpa using h), List.nil_append,
    Sendq.flatten_pieces]

/-- **A run without losses**: every reply, as it is shown, on a line of its own. -/
theorem Joiner.Stands.run_all (texts : List Str)
    (htexts : ∀ t ∈ texts, t.length ≤ joinedMax) {n : Nat}
    {j : Joiner} (h : j.Stands n []) (hempty : j.joined = [])
    (hn : n + (texts.flatMap Sendq.pieces).length < 2 ^ 64) :
    (j.run (fun _ => true) n (texts.flatMap Sendq.pieces)).out =
        j.out ++ texts.map (fun t => ⟨t.map shown, false⟩) ∧
      (j.run (fun _ => true) n (texts.flatMap Sendq.pieces)).joined = [] ∧
      (j.run (fun _ => true) n (texts.flatMap Sendq.pieces)).bad = j.bad ∧
      (j.run (fun _ => true) n (texts.flatMap Sendq.pieces)).err = j.err := by
  induction texts generalizing n j with
  | nil => simp [Joiner.run, hempty]
  | cons t texts ih =>
      rw [List.flatMap_cons, List.length_append] at hn
      obtain ⟨marks, -, hwhole, hout, hstands, hbad, herr⟩ :=
        h.run_pieces (fun _ => true) t (by omega)
      obtain ⟨rfl, hjoined⟩ := hwhole (fun _ _ => rfl) (.inl hempty)
      have hleft : leftOf (fun _ => true) n t = t := leftOf_of_all fun _ _ => rfl
      rw [leftOf] at hleft
      rw [hleft, lineOf, if_pos rfl, List.append_nil,
        List.take_of_length_le (by simpa using htexts t (by simp))] at hout
      obtain ⟨hrest, hend, hbads, herrs⟩ :=
        ih (fun u hu => htexts u (List.mem_cons_of_mem _ hu)) hstands hjoined (by omega)
      rw [List.flatMap_cons, Joiner.run_append, hrest, hbads, herrs, hout]
      exact ⟨by simp, hend, hbad, herr⟩

/-- **A run with losses**: what comes out unmarked is what is left of the replies whose last piece
arrives. -/
theorem Joiner.Stands.unmarked_run (arrives : Nat → Bool) (shows : Str → Prop) (texts : List Str)
    {n : Nat} {j : Joiner} (h : j.Stands n [])
    (hn : n + (texts.flatMap Sendq.pieces).length < 2 ^ 64) :
    ((∀ l ∈ (j.run arrives n (texts.flatMap Sendq.pieces)).out, l.marked = false → shows l.text) ↔
      (∀ l ∈ j.out, l.marked = false → shows l.text) ∧
      ∀ before t after, texts = before ++ t :: after →
        arrives (n + (before.flatMap Sendq.pieces).length + (Sendq.pieces t).length - 1) = true →
        shows (((leftOf arrives (n + (before.flatMap Sendq.pieces).length) t).map shown).take
          joinedMax)) ∧
      (j.run arrives n (texts.flatMap Sendq.pieces)).bad = j.bad ∧
      (j.run arrives n (texts.flatMap Sendq.pieces)).err = j.err := by
  induction texts generalizing n j with
  | nil => simp [Joiner.run]
  | cons t texts ih =>
      rw [List.flatMap_cons, List.length_append] at hn
      obtain ⟨marks, hmarks, -, hout, hstands, hbad, herr⟩ := h.run_pieces arrives t (by omega)
      obtain ⟨hrest, hbads, herrs⟩ := ih hstands (by omega)
      have hnum (before : List Str) : n + ((t :: before).flatMap Sendq.pieces).length =
          n + (Sendq.pieces t).length + (before.flatMap Sendq.pieces).length := by
        rw [List.flatMap_cons, List.length_append]
        omega
      rw [List.flatMap_cons, Joiner.run_append, hbads, herrs, hrest, hout]
      refine ⟨?_, hbad, herr⟩
      constructor
      · rintro ⟨hfirst, hlater⟩
        refine ⟨fun l hl => hfirst l (by simp [hl]), fun before u after hsplit harr => ?_⟩
        rcases before with _ | ⟨t', before⟩
        · obtain ⟨rfl, -⟩ := List.cons.inj hsplit
          refine hfirst ⟨_, false⟩ (List.mem_append_right _ ?_) rfl
          rw [lineOf, if_pos (by simpa using harr)]
          exact List.mem_singleton_self _
        · obtain ⟨rfl, htail⟩ := List.cons.inj hsplit
          rw [hnum] at harr ⊢
          exact hlater before u after htail harr
      · rintro ⟨hold, hall⟩
        refine ⟨fun l hl hunmarked => ?_, fun before u after hsplit harr => ?_⟩
        · rcases List.mem_append.mp hl with hl | hl
          · rcases List.mem_append.mp hl with hl | hl
            · exact hold l hl hunmarked
            · rw [hmarks l hl] at hunmarked
              cases hunmarked
          · unfold lineOf at hl
            split at hl
            · rename_i harr
              rw [List.mem_singleton.mp hl]
              exact hall [] t texts rfl (by simpa using harr)
            · cases hl
        · have hshows := hall (t :: before) u after (by rw [hsplit]; rfl)
          rw [hnum] at hshows
          exact hshows harr

/-! ### From the frames to the joiner -/

section Primitives

variable {P : Primitives} (hP : Seals P) {rk aad : Str}
include hP

/-- The frames that arrive are read as the pieces in them. -/
theorem foldl_kept (arrives : Nat → Bool) {n : Nat} {ps : List (Str × Bool)} {frames : List Str}
    (h : Sendq.Sealed P rk aad n ps frames) (hps : ∀ p ∈ ps, (0 : UInt8) ∉ p.1)
    (hn : n + ps.length ≤ 2 ^ 64) (j : Joiner) :
    (Lib.Delivery.kept arrives n frames).foldl (readFrame P rk aad) j = j.run arrives n ps := by
  induction h generalizing j with
  | nil n => rfl
  | @cons n piece frame more ps frames hseal _ ih =>
      rw [List.length_cons] at hn
      have hread := readFrame_sealed hP (n := n) (by omega) (hps (piece, more) (by simp)) hseal j
      have hrest := ih (fun p hp => hps p (List.mem_cons_of_mem _ hp)) (by omega)
      rw [Lib.Delivery.kept, Joiner.run]
      cases arrives n with
      | false => exact hrest j
      | true =>
          rw [if_pos rfl, if_pos rfl, List.foldl_cons, hread]
          exact hrest _

/-- Each frame is read as a piece, by its number. -/
theorem readFrame_getD {n : Nat} {ps : List (Str × Bool)} {frames : List Str}
    (h : Sendq.Sealed P rk aad n ps frames) (hps : ∀ p ∈ ps, (0 : UInt8) ∉ p.1)
    (hn : n + ps.length ≤ 2 ^ 64) {k : Nat} (hk : k < frames.length) :
    ∃ more piece, ∀ j, readFrame P rk aad j (frames.getD k []) = j.take (n + k) more piece := by
  induction h generalizing k with
  | nil n => exact absurd hk (Nat.not_lt_zero k)
  | @cons n piece frame more ps frames hseal _ ih =>
      rw [List.length_cons] at hn
      cases k with
      | zero => exact ⟨more, piece, readFrame_sealed hP (by omega) (hps (piece, more) (by simp)) hseal⟩
      | succ k =>
          obtain ⟨more', piece', hread⟩ := ih (fun p hp => hps p (List.mem_cons_of_mem _ hp))
            (by omega) (by simpa using hk)
          refine ⟨more', piece', fun j => ?_⟩
          rw [List.getD_cons_succ, hread, show n + 1 + k = n + (k + 1) by omega]

/-- **Repeats**: frames that first arrive in order are read as if each had arrived once. -/
theorem foldl_inOrder {ps : List (Str × Bool)} {frames : List Str}
    (h : Sendq.Sealed P rk aad 0 ps frames) (hps : ∀ p ∈ ps, (0 : UInt8) ∉ p.1)
    (hn : ps.length < 2 ^ 64) {order : List Nat}
    (horder : Lib.Delivery.InOrder frames.length 0 order) :
    (order.map fun k => frames.getD k []).foldl (readFrame P rk aad) {} =
      frames.foldl (readFrame P rk aad) {} := by
  have hlen := h.length_eq
  have hsucc {n : Nat} (hlt : n < frames.length) :
      readFrame P rk aad ((frames.take n).foldl (readFrame P rk aad) {}) (frames.getD n []) =
        (frames.take (n + 1)).foldl (readFrame P rk aad) {} := by
    rw [List.take_add_one, List.foldl_append, List.getD_eq_getElem?_getD,
      List.getElem?_eq_getElem hlt]
    rfl
  -- once it has read `n` frames, the joiner goes by their number
  have hcount (n : Nat) (hle : n ≤ frames.length) :
      ((frames.take n).foldl (readFrame P rk aad) {}).next = n ∧
        (0 < n → ((frames.take n).foldl (readFrame P rk aad) {}).seen = true) := by
    induction n with
    | zero => exact ⟨rfl, fun h0 => absurd h0 (Nat.lt_irrefl 0)⟩
    | succ n ih =>
        obtain ⟨more, piece, hread⟩ := readFrame_getD hP h hps (by omega) (k := n) (by omega)
        obtain ⟨hnext, hseen⟩ := Joiner.take_next (ih (by omega)).1.le (by omega) more piece
        rw [← hsucc (by omega), hread, Nat.zero_add]
        exact ⟨hnext, fun _ => hseen⟩
  have hagain (n : Nat) (hle : n ≤ frames.length) (k : Nat) (hk : k < n) :
      readFrame P rk aad ((frames.take n).foldl (readFrame P rk aad) {}) (frames.getD k []) =
        (frames.take n).foldl (readFrame P rk aad) {} := by
    obtain ⟨more, piece, hread⟩ := readFrame_getD hP h hps (by omega) (k := k) (by omega)
    obtain ⟨hnext, hseen⟩ := hcount n hle
    rw [hread, Nat.zero_add]
    exact Joiner.take_again (hseen (by omega)) (by omega) more piece
  have hfold := @Lib.Delivery.InOrder.foldl_eq _ (fun j k => readFrame P rk aad j (frames.getD k []))
    (fun n => (frames.take n).foldl (readFrame P rk aad) {}) _ (fun n hlt => hsucc hlt) hagain _ _
    horder
  rw [List.take_length] at hfold
  rw [List.foldl_map]
  exact hfold

end Primitives

end IrcBot.BotAuth
