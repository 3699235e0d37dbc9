/-
# The tokens of 005, slice by slice (`chanlive.rs`)

The parser as it reads a line: every slice of a `str` and every subtraction can fault, and a loop
that does not end has no result.

* `isupportParseRun_text` — on text nothing faults, and what is read is `isupportParse`.
* `isupport_runs` — the values stay in their ranges over any lines, and the prefix letters and
  symbols in line; a malformed `PREFIX` or `CHANMODES` is passed over.
-/
import IrcBot.ServerNumerics
import IrcBot.Lib.Utf8

namespace IrcBot.ServerTokens

open Cstr Chancfg Chanlive ServerNumerics Lib.Utf8

/-! ### What can fault -/

/-- `&s[a..b]` of a `str`. -/
def slice (s : Str) (a b : Nat) : Option Str :=
  if a ≤ b ∧ b ≤ s.length ∧ isCharBoundary s a ∧ isCharBoundary s b then some ((s.take b).drop a)
  else none

/-- `&s[a..b]` of its bytes. -/
def byteSlice (s : Str) (a b : Nat) : Option Str :=
  if a ≤ b ∧ b ≤ s.length then some ((s.take b).drop a) else none

/-- A subtraction of `usize`. -/
def usub (a b : Nat) : Option Nat := if b ≤ a then some (a - b) else none

/-- `find`. -/
def find (c : UInt8) (s : Str) : Option Nat := s.findIdx? (· == c)

/-- Before and behind the first `c`, where there is one. -/
def cutAt (c : UInt8) (s : Str) : Option (Option (Str × Str)) :=
  match find c s with
  | none => some none
  | some e => do
      let before ← slice s 0 e
      let after ← slice s (e + 1) s.length
      some (some (before, after))

/-! ### The parser -/

/-- The name and the value of a token, and whether it takes the value back. -/
def partsRun (tok : Str) : Option (Bool × Str × Str) := do
  let neg := tok.head? = some (byte '-')
  let tok ← if neg then slice tok 1 tok.length else some tok
  let parts ← cutAt (byte '=') tok
  some (neg, parts.getD (tok, []))

/-- The walk over `MAXLIST`, for at most so many groups. -/
def maxlistRun : Nat → Isupport → Str → Option Isupport
  | 0, _, _ => none
  | fuel + 1, is, p => do
      match ← cutAt (byte ':') p with
      | none => some is
      | some (letters, rest) =>
          let group ← cutAt (byte ',') rest
          let num := (group.map Prod.fst).getD rest
          let is :=
            if letters.contains (byte 'b') then (positive num).elim is ({ is with maxlistB := · })
            else is
          match group with
          | some (_, next) => maxlistRun fuel is next
          | none => some is

/-- `PREFIX`. -/
def prefixRun (is : Isupport) (neg : Bool) (val : Str) : Option Isupport :=
  if neg then some { is with prefixModes := str "ov", prefixSyms := str "@+" }
  else if val.head? ≠ some (byte '(') then some is
  else
    match find (byte ')') val with
    | none => some is
    | some close => do
        let ml ← usub close 1
        let sl ← (usub val.length close).bind (usub · 1)
        if ml = 0 ∨ ml ≠ sl ∨ 9 ≤ ml then some is
        else
          let bytes ← byteSlice val 1 (1 + ml)
          if !bytes.all isAlpha then some is
          else
            let letters ← slice val 1 (1 + ml)
            let syms ← slice val (close + 1) val.length
            some { is with prefixModes := letters, prefixSyms := syms }

/-- `trunc`. -/
def truncRun (s : Str) (cap : Nat) : Option Str :=
  if s.length ≤ cap - 1 then some s else slice s 0 (cutBack s (cap - 1))

/-- The loop of `CHANMODES` over the lists that are left; `none` inside where they are
malformed. -/
def chanmodesRun : Nat → Str → List Str → Option (Option (List Str))
  | 0, _, tmp => some (some tmp)
  | left + 1, p, tmp =>
      let comma := find (byte ',') p
      let fl := comma.getD p.length
      if 0 < left ∧ (comma = none ∨ 64 ≤ fl) then some none
      else do
        let field ← slice p 0 fl
        let cut ← truncRun field 64
        let rest ← match comma with
          | some c => slice p (c + 1) p.length
          | none => slice p fl p.length
        chanmodesRun left rest (tmp ++ [cut])

/-- `isupport_token`. -/
def isupportTokenRun (is : Isupport) (tok : Str) : Option Isupport := do
  let (neg, name, val) ← partsRun tok
  if name = str "MODES" then some (isupModes is neg val)
  else if name = str "MAXLIST" then
    if neg then some { is with maxlistB := 0 } else maxlistRun (val.length + 1) is val
  else if name = str "MAXBANS" then some (isupMaxbans is val)
  else if name = str "NICKLEN" then some (isupNicklen is neg val)
  else if name = str "PREFIX" then prefixRun is neg val
  else if name = str "CHANMODES" then
    if neg then some is
    else
      (chanmodesRun 4 val []).map fun lists => lists.elim is fun tmp =>
        { is with
          cmA := tmp.getD 0 [], cmB := tmp.getD 1 [], cmC := tmp.getD 2 [], cmD := tmp.getD 3 [] }
  else some is

/-- `Tok::next(" ")`: the token, and what the walk has left. -/
def nextRun (rest : Str) : Option (Option Str × Str) :=
  let s := rest.dropWhile (· == byte ' ')
  if s.isEmpty then some (none, s)
  else
    match find (byte ' ') s with
    | some i => do
        let rest ← slice s (i + 1) s.length
        let tok ← slice s 0 i
        some (some tok, rest)
    | none => (slice s s.length s.length).map fun rest => (some s, rest)

/-- The loop of `isupport_parse`, for at most so many tokens. -/
def parseLoop : Nat → Isupport → Str → Option Isupport
  | 0, _, _ => none
  | fuel + 1, is, rest => do
      match ← nextRun rest with
      | (none, _) => some is
      | (some tok, rest) =>
          if tok.head? = some (byte ':') then some is
          else
            let is ← if tok.length < 120 then isupportTokenRun is tok else some is
            parseLoop fuel is rest

/-- `isupport_parse`: the first token is the bot's nick. -/
def isupportParseRun (is : Isupport) (params : Str) : Option Isupport := do
  let (_, rest) ← nextRun params
  parseLoop (params.length + 1) is rest

/-! ### Slices of text -/

theorem isCharBoundary_iff {s : Str} {n : Nat} :
    isCharBoundary s n = true ↔ ∀ b ∈ s[n]?, ¬ Tail b := by
  unfold isCharBoundary
  cases s[n]? with
  | none => simp
  | some b =>
      simp only [Option.mem_def, Option.some.injEq, forall_eq', Tail, Bool.or_eq_true,
        decide_eq_true_eq, UInt8.le_iff_toNat_le, UInt8.lt_iff_toNat_lt, UInt8.reduceToNat]
      omega

theorem slice_text {s x y z : Str} (hs : s = x ++ (y ++ z)) (hy : Text (y ++ z)) (hz : Text z) :
    slice s x.length (x.length + y.length) = some y := by
  have hfront : isCharBoundary s x.length = true := by
    rw [isCharBoundary_iff, hs, List.getElem?_append_right le_rfl, Nat.sub_self,
      ← List.head?_eq_getElem?]
    exact hy.head
  have hback : isCharBoundary s (x.length + y.length) = true := by
    rw [isCharBoundary_iff, hs, List.getElem?_append_right (Nat.le_add_right _ _),
      Nat.add_sub_cancel_left, List.getElem?_append_right le_rfl, Nat.sub_self,
      ← List.head?_eq_getElem?]
    exact hz.head
  have hlen : x.length + y.length ≤ s.length := by
    rw [hs, List.length_append, List.length_append]
    omega
  rw [slice, if_pos ⟨Nat.le_add_right _ _, hlen, hfront, hback⟩, hs, ← List.append_assoc,
    ← List.length_append, List.take_left, List.drop_left]

theorem slice_front {a b : Str} (h : Text (a ++ b)) (hb : Text b) :
    slice (a ++ b) 0 a.length = some a := by
  have hslice := slice_text (x := []) rfl h hb
  rwa [List.length_nil, Nat.zero_add] at hslice

theorem slice_rest {a b : Str} (hb : Text b) :
    slice (a ++ b) a.length (a ++ b).length = some b := by
  have hslice := slice_text (s := a ++ b) (z := []) (by rw [List.append_nil])
    (by rwa [List.append_nil]) .nil
  rwa [← List.length_append] at hslice

/-- What stands behind one byte. -/
theorem slice_behind {a b : Str} (c : UInt8) (hb : Text b) :
    slice (a ++ c :: b) (a.length + 1) (a ++ c :: b).length = some b := by
  have hslice := slice_rest (a := a ++ [c]) hb
  rwa [List.append_assoc, List.singleton_append, List.length_append,
    List.length_singleton] at hslice

theorem text_cons {c : UInt8} {s : Str} (hc : c < 0x80) (h : Text s) : Text (c :: s) :=
  (text_of_ascii (s := [c]) fun d hd => by rwa [List.mem_singleton.mp hd]).append h

theorem find_none {c : UInt8} {s : Str} (h : c ∉ s) : find c s = none := by
  rw [find, List.findIdx?_eq_none_iff]
  exact fun b hb => beq_false_of_ne fun heq => h (heq ▸ hb)

theorem find_append {c : UInt8} {a : Str} (h : c ∉ a) (b : Str) :
    find c (a ++ c :: b) = some a.length := by
  rw [find, List.findIdx?_append, ← find, find_none h]
  simp [List.findIdx?_cons]

/-- Text is cut at an ASCII byte, and both parts are text. -/
theorem cutAt_append {c : UInt8} {a b : Str} (hc : c < 0x80) (h : c ∉ a) (ht : Text (a ++ c :: b)) :
    cutAt c (a ++ c :: b) = some (some (a, b)) := by
  obtain ⟨-, hb⟩ := ht.of_ascii_append hc
  rw [cutAt, find_append h]
  dsimp only
  rw [slice_front ht (text_cons hc hb), slice_behind c hb]
  rfl

theorem cutAt_notMem {c : UInt8} {s : Str} (h : c ∉ s) : cutAt c s = some none := by
  rw [cutAt, find_none h]

theorem splitOnce_notMem {c : UInt8} {s : Str} (h : c ∉ s) : splitOnce c s = none := by
  cases hs : splitOnce c s with
  | none => rfl
  | some p =>
      have heq : s = p.1 ++ c :: p.2 := splitOnce_eq_some hs
      exact absurd (by rw [heq]; simp) h

theorem takeWhile_notMem {c : UInt8} {s : Str} (h : c ∉ s) : s.takeWhile (· ≠ c) = s :=
  List.takeWhile_eq_self_iff.mpr fun b hb => decide_eq_true fun heq : b = c => h (heq ▸ hb)

theorem takeWhile_append {c : UInt8} {a : Str} (h : c ∉ a) (b : Str) :
    (a ++ c :: b).takeWhile (· ≠ c) = a := by
  have hall : ∀ d ∈ a, decide (d ≠ c) = true := fun d hd =>
    decide_eq_true fun heq : d = c => h (heq ▸ hd)
  rw [List.takeWhile_append_of_pos hall, List.takeWhile_cons_of_neg (by simp), List.append_nil]

/-- The first `c` of a string, if there is one. -/
theorem cases_sep (c : UInt8) (s : Str) : c ∉ s ∨ ∃ a b, c ∉ a ∧ s = a ++ c :: b := by
  by_cases h : c ∈ s
  · obtain ⟨a, b, rfl, ha⟩ := List.eq_append_cons_of_mem h
    exact .inr ⟨a, b, ha, rfl⟩
  · exact .inl h

theorem cutAt_text {c : UInt8} {s : Str} (hc : c < 0x80) (h : Text s) :
    cutAt c s = some (splitOnce c s) := by
  rcases cases_sep c s with hs | ⟨a, b, ha, rfl⟩
  · rw [cutAt_notMem hs, splitOnce_notMem hs]
  · rw [cutAt_append hc ha h, splitOnce_append ha]

theorem truncRun_text {s : Str} (h : Text s) (cap : Nat) : truncRun s cap = some (trunc s cap) := by
  unfold truncRun trunc
  dsimp only
  split
  · rfl
  · have hcut : ∀ n, isCharBoundary s (cutBack s n) = true := by
      intro n
      induction n with
      | zero =>
          rw [cutBack, isCharBoundary_iff, ← List.head?_eq_getElem?]
          exact h.head
      | succ n ih =>
          unfold cutBack
          split
          · assumption
          · exact ih
    have hfront : isCharBoundary s 0 = true := hcut 0
    have hle := cutBack_le s (cap - 1)
    rw [slice, if_pos ⟨Nat.zero_le _, by omega, hfront, hcut _⟩, List.drop_zero]

/-! ### The parser on text -/

theorem partsRun_text {tok : Str} (h : Text tok) :
    partsRun tok = some (tokenParts tok) ∧ Text (tokenParts tok).2.2 := by
  have hval {t : Str} (ht : Text t) : Text ((splitOnce (byte '=') t).getD (t, [])).2 := by
    rcases cases_sep (byte '=') t with hs | ⟨a, b, ha, rfl⟩
    · rw [splitOnce_notMem hs]
      exact .nil
    · rw [splitOnce_append ha]
      exact (ht.of_ascii_append (by decide)).2
  unfold partsRun tokenParts
  by_cases hneg : tok.head? = some (byte '-')
  · obtain ⟨rest, rfl⟩ := List.head?_eq_some_iff.mp hneg
    have hrest : Text rest := h.of_ascii_cons (by decide)
    have hslice : slice (byte '-' :: rest) 1 (byte '-' :: rest).length = some rest :=
      slice_behind (a := []) _ hrest
    simp only [hneg, if_true, hslice, Option.bind_eq_bind, Option.bind_some,
      cutAt_text (show byte '=' < 0x80 by decide) hrest, List.tail_cons,
      true_and]
    exact hval hrest
  · simp only [hneg, if_false, Option.bind_eq_bind, Option.bind_some,
      cutAt_text (show byte '=' < 0x80 by decide) h, true_and]
    exact hval h

theorem takeWhile_splitOnce (c : UInt8) (s : Str) :
    ((splitOnce c s).map Prod.fst).getD s = s.takeWhile (· ≠ c) := by
  rcases cases_sep c s with hs | ⟨a, b, ha, rfl⟩
  · rw [splitOnce_notMem hs, takeWhile_notMem hs]
    rfl
  · rw [splitOnce_append ha, takeWhile_append ha]
    rfl

theorem maxlistRun_text (fuel : Nat) : ∀ {is : Isupport} {p : Str}, Text p → p.length < fuel →
    maxlistRun fuel is p = some (maxlistLoop fuel is p) := by
  induction fuel with
  | zero => exact fun _ h => absurd h (Nat.not_lt_zero _)
  | succ fuel ih =>
      intro is p hp hlen
      rw [maxlistRun, maxlistLoop, cutAt_text (by decide) hp]
      rcases cases_sep (byte ':') p with hs | ⟨letters, rest, hletters, rfl⟩
      · rw [splitOnce_notMem hs]
        rfl
      · have hrest : Text rest := (hp.of_ascii_append (by decide)).2
        rw [splitOnce_append hletters]
        simp only [Option.bind_eq_bind, Option.bind_some]
        rw [cutAt_text (by decide) hrest, Option.bind_some, takeWhile_splitOnce]
        rcases cases_sep (byte ',') rest with hs | ⟨num, next, hnum, rfl⟩
        · rw [splitOnce_notMem hs]
        · rw [splitOnce_append hnum]
          refine ih (hrest.of_ascii_append (by decide)).2 ?_
          simp only [List.length_append, List.length_cons] at hlen
          omega

/-- What stands between the parentheses and behind them, and the checks of it. -/
theorem prefixRun_paren {is : Isupport} {letters syms : Str} (hletters : byte ')' ∉ letters)
    (h : Text (byte '(' :: (letters ++ byte ')' :: syms))) :
    prefixRun is false (byte '(' :: (letters ++ byte ')' :: syms)) =
      some (if letters.length = 0 ∨ letters.length ≠ syms.length ∨ 9 ≤ letters.length then is
        else if !letters.all isAlpha then is
        else { is with prefixModes := letters, prefixSyms := syms }) := by
  have hclose : find (byte ')') (byte '(' :: (letters ++ byte ')' :: syms)) =
      some (letters.length + 1) :=
    find_append (List.not_mem_cons_of_ne_of_not_mem (by decide) hletters) syms
  have hrest : Text (letters ++ byte ')' :: syms) := h.of_ascii_cons (by decide)
  obtain ⟨-, hsyms⟩ := hrest.of_ascii_append (by decide)
  have hbehind : Text (byte ')' :: syms) := text_cons (by decide) hsyms
  have hlen : (byte '(' :: (letters ++ byte ')' :: syms)).length =
      letters.length + syms.length + 2 := by
    simp only [List.length_cons, List.length_append]
    omega
  have hml : usub (letters.length + 1) 1 = some letters.length := by
    rw [usub, if_pos (by omega), Nat.add_sub_cancel]
  have hsl : (usub (letters.length + syms.length + 2) (letters.length + 1)).bind (usub · 1) =
      some syms.length := by
    rw [usub, if_pos (by omega), Option.bind_some, usub, if_pos (by omega)]
    congr 1
    omega
  have hinner : slice (byte '(' :: (letters ++ byte ')' :: syms)) 1 (1 + letters.length) =
      some letters := slice_text (x := [byte '(']) rfl hrest hbehind
  have hbytes : byteSlice (byte '(' :: (letters ++ byte ')' :: syms)) 1 (1 + letters.length) =
      some letters := by
    rw [byteSlice, if_pos ⟨by omega, by rw [hlen]; omega⟩, Nat.add_comm, List.take_succ_cons,
      List.take_left]
    rfl
  have hlast : slice (byte '(' :: (letters ++ byte ')' :: syms)) (letters.length + 1 + 1)
      (letters.length + syms.length + 2) = some syms := by
    rw [← hlen]
    exact slice_behind (a := byte '(' :: letters) _ hsyms
  rw [prefixRun, if_neg Bool.false_ne_true, List.head?_cons, if_neg (not_not_intro rfl),
    hclose, hlen]
  simp only [hml, hsl, hbytes, hinner, hlast, Option.bind_eq_bind, Option.bind_some]
  split
  · rfl
  · split <;> rfl

theorem prefixRun_text {is : Isupport} {val : Str} (neg : Bool) (h : Text val) :
    prefixRun is neg val = some (isupPrefix is neg val) := by
  cases neg with
  | true => rfl
  | false =>
      by_cases hopen : val.head? = some (byte '(')
      · obtain ⟨rest, rfl⟩ := List.head?_eq_some_iff.mp hopen
        rw [isupPrefix, if_neg Bool.false_ne_true, List.head?_cons, List.tail_cons]
        rcases cases_sep (byte ')') rest with hs | ⟨letters, syms, hletters, rfl⟩
        · rw [splitOnce_notMem hs, prefixRun, if_neg Bool.false_ne_true, List.head?_cons,
            if_neg (not_not_intro rfl), find_none (List.not_mem_cons_of_ne_of_not_mem (by decide) hs)]
        · rw [prefixRun_paren hletters h, splitOnce_append hletters]
          simp only [ne_eq, not_true_eq_false, false_or, List.isEmpty_iff, List.length_eq_zero_iff]
          by_cases hshort : letters = [] ∨ ¬ letters.length = syms.length ∨ 9 ≤ letters.length
          · rw [if_pos hshort, if_pos ?_]
            rcases hshort with hempty | hlen | hlong
            · exact .inl hempty
            · exact .inr (.inl hlen)
            · exact .inr (.inr (.inl hlong))
          · rw [if_neg hshort]
            rw [not_or, not_or] at hshort
            simp only [hshort, false_or]
      · rw [prefixRun, isupPrefix, if_neg Bool.false_ne_true, if_pos hopen,
          if_neg Bool.false_ne_true]
        cases val with
        | nil => rfl
        | cons c rest =>
            rw [List.head?_cons, List.tail_cons]
            have hc : c ≠ byte '(' := fun heq => hopen (by rw [heq]; rfl)
            cases splitOnce (byte ')') rest with
            | none => rfl
            | some p => simp [hc]

/-- One of the lists that may not be cut. -/
theorem chanmodesRun_step (left : Nat) {p : Str} (h : Text p) (tmp : List Str) :
    chanmodesRun (left + 2) p tmp =
      match splitOnce (byte ',') p with
      | none => some none
      | some (f, rest) =>
          if 64 ≤ f.length then some none else chanmodesRun (left + 1) rest (tmp ++ [f]) := by
  rcases cases_sep (byte ',') p with hs | ⟨f, rest, hf, rfl⟩
  · rw [chanmodesRun, find_none hs, splitOnce_notMem hs]
    exact if_pos ⟨Nat.succ_pos _, .inl rfl⟩
  · obtain ⟨htext, hrest⟩ := h.of_ascii_append (c := byte ',') (by decide)
    have hfield := slice_front h (text_cons (by decide) hrest)
    have hnext := slice_behind (a := f) (byte ',') hrest
    rw [chanmodesRun, find_append hf, splitOnce_append hf]
    simp only [Option.getD_some]
    by_cases hlong : 64 ≤ f.length
    · rw [if_pos ⟨Nat.succ_pos _, .inr hlong⟩, if_pos hlong]
    · have hcut : trunc f 64 = f := trunc_of_lt (by omega)
      rw [if_neg fun hc => hlong (hc.2.resolve_left nofun), if_neg hlong, hfield]
      simp only [Option.bind_eq_bind, Option.bind_some, truncRun_text htext, hcut, hnext]

/-- The last list is cut. -/
theorem chanmodesRun_last {p : Str} (h : Text p) (tmp : List Str) :
    chanmodesRun 1 p tmp = some (some (tmp ++ [trunc (p.takeWhile (· ≠ byte ',')) 64])) := by
  rcases cases_sep (byte ',') p with hs | ⟨d, rest, hd, rfl⟩
  · have hfield : slice p 0 p.length = some p := by
      have hslice := slice_front (a := p) (b := []) (by rwa [List.append_nil]) .nil
      rwa [List.append_nil] at hslice
    have hend : slice p p.length p.length = some [] := by
      have hslice := slice_rest (a := p) .nil
      rwa [List.append_nil] at hslice
    rw [chanmodesRun, find_none hs, takeWhile_notMem hs]
    simp only [Option.getD_none, if_neg (fun hc : 0 < 0 ∧ _ => Nat.lt_irrefl _ hc.1), hfield, hend,
      Option.bind_eq_bind, Option.bind_some, truncRun_text h, chanmodesRun]
  · obtain ⟨htext, hrest⟩ := h.of_ascii_append (c := byte ',') (by decide)
    have hfield := slice_front h (text_cons (by decide) hrest)
    have hnext := slice_behind (a := d) (byte ',') hrest
    rw [chanmodesRun, find_append hd, takeWhile_append hd]
    simp only [Option.getD_some, if_neg (fun hc : 0 < 0 ∧ _ => Nat.lt_irrefl _ hc.1), hfield, hnext,
      Option.bind_eq_bind, Option.bind_some, truncRun_text htext, chanmodesRun]

theorem head_splitOn (c : UInt8) (s : Str) :
    ∃ fs, splitOn c s = s.takeWhile (· ≠ c) :: fs := by
  rcases cases_sep c s with hs | ⟨a, b, ha, rfl⟩
  · exact ⟨[], by rw [splitOn_of_notMem hs, takeWhile_notMem hs]⟩
  · exact ⟨splitOn c b, by rw [splitOn_append ha, takeWhile_append ha]⟩

/-- The four lists of a `CHANMODES`. -/
theorem chanmodesRun_text {val : Str} (h : Text val) (is : Isupport) :
    ((chanmodesRun 4 val []).map fun lists => lists.elim is fun tmp =>
        { is with
          cmA := tmp.getD 0 [], cmB := tmp.getD 1 [], cmC := tmp.getD 2 [],
            cmD := tmp.getD 3 [] }) =
      some (isupChanmodes is false val) := by
  rw [isupChanmodes, if_neg Bool.false_ne_true, chanmodesRun_step 2 h]
  rcases cases_sep (byte ',') val with hs | ⟨a, val, ha, rfl⟩
  · rw [splitOnce_notMem hs, splitOn_of_notMem hs]
    rfl
  replace h := (h.of_ascii_append (by decide)).2
  rw [splitOnce_append ha, splitOn_append ha]
  dsimp only
  rw [chanmodesRun_step 1 h]
  rcases cases_sep (byte ',') val with hs | ⟨b, val, hb, rfl⟩
  · rw [splitOnce_notMem hs, splitOn_of_notMem hs]
    split <;> rfl
  replace h := (h.of_ascii_append (by decide)).2
  rw [splitOnce_append hb, splitOn_append hb]
  dsimp only
  rw [chanmodesRun_step 0 h]
  rcases cases_sep (byte ',') val with hs | ⟨c, val, hc, rfl⟩
  · rw [splitOnce_notMem hs, splitOn_of_notMem hs]
    split
    · rfl
    · split <;> rfl
  replace h := (h.of_ascii_append (by decide)).2
  obtain ⟨fs, hd⟩ := head_splitOn (byte ',') val
  rw [splitOnce_append hc, splitOn_append hc, hd]
  dsimp only
  rw [chanmodesRun_last h]
  -- each of the three lists may be too long
  by_cases hla : 64 ≤ a.length
  · rw [if_pos hla, if_pos (.inl hla)]
    rfl
  by_cases hlb : 64 ≤ b.length
  · rw [if_neg hla, if_pos hlb, if_pos (.inr (.inl hlb))]
    rfl
  by_cases hlc : 64 ≤ c.length
  · rw [if_neg hla, if_neg hlb, if_pos hlc, if_pos (.inr (.inr hlc))]
    rfl
  · rw [if_neg hla, if_neg hlb, if_neg hlc, if_neg (by simp [hla, hlb, hlc])]
    rfl

/-- **A token of text is read without a fault.** -/
theorem isupportTokenRun_text (is : Isupport) {tok : Str} (h : Text tok) :
    isupportTokenRun is tok = some (isupportToken is tok) := by
  obtain ⟨hparts, hval⟩ := partsRun_text h
  unfold isupportTokenRun isupportToken
  rw [hparts, Option.bind_eq_bind, Option.bind_some]
  generalize tokenParts tok = parts at hval ⊢
  obtain ⟨neg, name, val⟩ := parts
  dsimp only at hval ⊢
  have hlist : (if neg then some { is with maxlistB := 0 }
      else maxlistRun (val.length + 1) is val) = some (isupMaxlist is neg val) := by
    rw [isupMaxlist, maxlistRun_text _ hval (Nat.lt_succ_self _)]
    split <;> rfl
  have hmodes : (if neg then some is
      else (chanmodesRun 4 val []).map fun lists => lists.elim is fun tmp =>
        { is with
          cmA := tmp.getD 0 [], cmB := tmp.getD 1 [], cmC := tmp.getD 2 [],
          cmD := tmp.getD 3 [] }) = some (isupChanmodes is neg val) := by
    cases neg with
    | true => rfl
    | false => exact chanmodesRun_text hval is
  rw [hlist, hmodes, prefixRun_text neg hval]
  split_ifs <;> rfl

/-! ### A line of tokens -/

theorem tokens_blank (s : Str) : tokens (byte ' ' :: s) = tokens s := by
  unfold tokens
  rw [show byte ' ' :: s = [] ++ byte ' ' :: s from rfl, splitOn_append List.not_mem_nil]
  rfl

theorem tokens_dropWhile (s : Str) : tokens (s.dropWhile (· == byte ' ')) = tokens s := by
  induction s with
  | nil => rfl
  | cons c s ih =>
      by_cases hc : c = byte ' '
      · subst hc
        rw [List.dropWhile_cons_of_pos (by simp), ih, tokens_blank]
      · rw [List.dropWhile_cons_of_neg (by simpa using hc)]

theorem text_dropWhile {s : Str} (h : Text s) : Text (s.dropWhile (· == byte ' ')) := by
  induction s with
  | nil => exact .nil
  | cons c s ih =>
      by_cases hc : c = byte ' '
      · subst hc
        rw [List.dropWhile_cons_of_pos (by simp)]
        exact ih (h.of_ascii_cons (by decide))
      · rwa [List.dropWhile_cons_of_neg (by simpa using hc)]

theorem tokens_append {w rest : Str} (hne : w ≠ []) (hw : byte ' ' ∉ w) :
    tokens (w ++ byte ' ' :: rest) = w :: tokens rest := by
  unfold tokens
  rw [splitOn_append hw, List.filter_cons_of_pos (by simpa using hne)]

/-- The next token is the first of the tokens, and the rest is left. -/
theorem nextRun_text {rest : Str} (h : Text rest) :
    ((nextRun rest = some (none, [])) ∧ tokens rest = []) ∨
      ∃ w more, nextRun rest = some (some w, more) ∧ tokens rest = w :: tokens more ∧ Text w ∧
        Text more ∧ more.length < rest.length := by
  have htext := text_dropWhile h
  have hle := (List.dropWhile_sublist (l := rest) (· == byte ' ')).length_le
  have hhead := List.head?_dropWhile_not (· == byte ' ') rest
  rw [← tokens_dropWhile]
  unfold nextRun
  dsimp only
  generalize rest.dropWhile (· == byte ' ') = s at htext hle hhead ⊢
  by_cases hempty : s = []
  · subst hempty
    exact .inl ⟨rfl, rfl⟩
  rw [if_neg (by simpa using hempty)]
  refine .inr ?_
  rcases cases_sep (byte ' ') s with hs | ⟨w, more, hw, rfl⟩
  · have hend := slice_rest (a := s) .nil
    rw [List.append_nil] at hend
    refine ⟨s, [], by rw [find_none hs, hend]; rfl, ?_, htext, .nil, ?_⟩
    · unfold tokens
      rw [splitOn_of_notMem hs, List.filter_cons_of_pos (by simpa using hempty)]
      rfl
    · exact Nat.lt_of_lt_of_le (List.length_pos_iff.mpr hempty) hle
  · obtain ⟨hwtext, hmore⟩ := htext.of_ascii_append (c := byte ' ') (by decide)
    have hne : w ≠ [] := by
      rintro rfl
      simp at hhead
    refine ⟨w, more, ?_, tokens_append hne hw, hwtext, hmore, ?_⟩
    · rw [find_append hw]
      simp only [slice_behind (byte ' ') hmore, slice_front htext (text_cons (by decide) hmore),
        Option.bind_eq_bind, Option.bind_some]
    · rw [List.length_append, List.length_cons] at hle
      omega

theorem parseLoop_text (fuel : Nat) : ∀ {is : Isupport} {rest : Str}, Text rest →
    rest.length < fuel →
    parseLoop fuel is rest = some ((((tokens rest).takeWhile fun tok =>
      tok.head? ≠ some (byte ':')).filter (·.length < 120)).foldl isupportToken is) := by
  induction fuel with
  | zero => exact fun _ h => absurd h (Nat.not_lt_zero _)
  | succ fuel ih =>
      intro is rest h hlen
      rw [parseLoop]
      rcases nextRun_text h with ⟨hnext, htokens⟩ | ⟨w, more, hnext, htokens, hw, hmore, hless⟩
      · rw [hnext, htokens]
        rfl
      · rw [hnext, htokens]
        simp only [Option.bind_eq_bind, Option.bind_some]
        by_cases hcolon : w.head? = some (byte ':')
        · rw [if_pos hcolon, List.takeWhile_cons_of_neg (by simpa using hcolon)]
          rfl
        · rw [if_neg hcolon, List.takeWhile_cons_of_pos (by simpa using hcolon)]
          by_cases hshort : w.length < 120
          · rw [if_pos hshort, isupportTokenRun_text is hw, Option.bind_some,
              List.filter_cons_of_pos (by simpa using hshort), List.foldl_cons]
            exact ih hmore (by omega)
          · rw [if_neg hshort, List.filter_cons_of_neg (by simpa using hshort)]
            exact ih hmore (by omega)

/-- **A line of text is read to its end, and nothing in it faults.** -/
theorem isupportParseRun_text (is : Isupport) {params : Str} (h : Text params) :
    isupportParseRun is params = some (isupportParse is params) := by
  unfold isupportParseRun isupportParse
  rcases nextRun_text h with ⟨hnext, htokens⟩ | ⟨w, more, hnext, htokens, -, hmore, hless⟩
  · rw [hnext, htokens, Option.bind_eq_bind, Option.bind_some]
    exact parseLoop_text _ .nil (Nat.succ_pos _)
  · rw [hnext, htokens, Option.bind_eq_bind, Option.bind_some]
    exact parseLoop_text _ hmore (by omega)

/-! ### What every run keeps -/

/-- A Rust `str`. -/
abbrev Utf8Str := {s : Str // Text s}

/-- What the server can do to the values: send a line, or be left for another one. -/
inductive Event where
  | line (params : Utf8Str)
  | reset

/-- One event; `none` where the parser faults. -/
def stepRun (is : Isupport) : Event → Option Isupport
  | .line params => isupportParseRun is params.1
  | .reset => some {}

/-- A run of events. -/
def eventsRun (is : Isupport) : List Event → Option Isupport
  | [] => some is
  | e :: es => (stepRun is e).bind (eventsRun · es)

/-- What a token could break: the prefix letters and symbols are in line, and there are never
too many modes for a line. -/
structure Ranges (is : Isupport) : Prop where
  same : is.prefixModes.length = is.prefixSyms.length
  one_le : 1 ≤ is.prefixModes.length
  le : is.prefixModes.length ≤ 8
  modes_one : 1 ≤ is.modes
  modes_le : is.modes ≤ 12

/-- All values that are used are in their ranges. -/
structure Kept (is : Isupport) : Prop extends Ranges is where
  banCap_one : 1 ≤ is.banCap
  banCap_le : is.banCap ≤ 200
  nicklen_le : Enforce.nicklen is ≤ 31

theorem Ranges.kept {is : Isupport} (h : Ranges is) : Kept is := by
  have hcap : 1 ≤ is.banCap ∧ is.banCap ≤ 200 := by
    unfold Isupport.banCap
    have hdefault : maxlistDefault = 100 := rfl
    have hmax : banListCap = 200 := rfl
    split <;> omega
  exact { h with
    banCap_one := hcap.1
    banCap_le := hcap.2
    nicklen_le := Nat.min_le_right _ _ }

theorem ranges_reset : Ranges {} := ⟨rfl, by decide, by decide, by decide, by decide⟩

theorem positive_pos {val : Str} {v : Int} (h : positive val = some v) : 1 ≤ v := by
  unfold positive at h
  split at h
  · rename_i hok
    exact Option.some.inj h ▸ hok.2
  · cases h

theorem Ranges.with_modes {is : Isupport} (h : Ranges is) {v : Int} (hone : 1 ≤ v) (hle : v ≤ 12) :
    Ranges { is with modes := v } :=
  ⟨h.same, h.one_le, h.le, hone, hle⟩

theorem ranges_isupModes {is : Isupport} (h : Ranges is) (neg : Bool) (val : Str) :
    Ranges (isupModes is neg val) := by
  unfold isupModes
  split
  · exact h.with_modes (by decide) (by decide)
  · split
    · exact h.with_modes (by decide) (by decide)
    · split
      · rename_i v hv
        have hpos := positive_pos hv
        have hmax : isupportModesMax = 12 := rfl
        exact h.with_modes (by omega) (by omega)
      · exact h

/-- A `PREFIX` is taken whole or not at all. -/
theorem ranges_isupPrefix {is : Isupport} (h : Ranges is) (neg : Bool) (val : Str) :
    Ranges (isupPrefix is neg val) := by
  unfold isupPrefix
  split
  · have hone : 1 ≤ (str "ov").length := by decide
    have hle : (str "ov").length ≤ 8 := by decide
    exact { h with same := rfl, one_le := hone, le := hle }
  · split
    · rename_i c letters syms _ _
      split
      · exact h
      · rename_i hok
        simp only [not_or, ne_eq, not_not] at hok
        obtain ⟨-, hne, hsame, hlt, -⟩ := hok
        have hpos : 1 ≤ letters.length := List.length_pos_iff.mpr fun heq => hne (by rw [heq]; rfl)
        exact { h with same := hsame, one_le := hpos, le := by dsimp only; omega }
    · exact h

theorem maxlistLoop_eq (fuel : Nat) : ∀ (is : Isupport) (p : Str),
    ∃ n, maxlistLoop fuel is p = { is with maxlistB := n } := by
  induction fuel with
  | zero => exact fun is _ => ⟨is.maxlistB, rfl⟩
  | succ fuel ih =>
      intro is p
      have hgroup (letters num : Str) : ∃ n, (if letters.contains (byte 'b') then
          (positive num).elim is ({ is with maxlistB := · }) else is) = { is with
            maxlistB := n } := by
        split
        · cases positive num with
          | none => exact ⟨is.maxlistB, rfl⟩
          | some v => exact ⟨v, rfl⟩
        · exact ⟨is.maxlistB, rfl⟩
      rw [maxlistLoop]
      split
      · exact ⟨is.maxlistB, rfl⟩
      · rename_i letters rest _
        obtain ⟨n, hn⟩ := hgroup letters (rest.takeWhile (· ≠ byte ','))
        dsimp only
        rw [hn]
        split
        · exact ⟨n, rfl⟩
        · obtain ⟨m, hm⟩ := ih { is with maxlistB := n } _
          exact ⟨m, by rw [hm]⟩

/-- **One token keeps the ranges.** -/
theorem ranges_token {is : Isupport} (h : Ranges is) (tok : Str) :
    Ranges (isupportToken is tok) := by
  unfold isupportToken
  obtain ⟨neg, name, val⟩ := tokenParts tok
  have hother {is' : Isupport} (hm : is'.modes = is.modes) (hl : is'.prefixModes = is.prefixModes)
      (hs : is'.prefixSyms = is.prefixSyms) : Ranges is' :=
    ⟨by rw [hl, hs, h.same], hl ▸ h.one_le, hl ▸ h.le, hm ▸ h.modes_one, hm ▸ h.modes_le⟩
  dsimp only
  split
  · exact ranges_isupModes h neg val
  split
  · unfold isupMaxlist
    split
    · exact hother rfl rfl rfl
    · obtain ⟨n, hn⟩ := maxlistLoop_eq (val.length + 1) is val
      rw [hn]
      exact hother rfl rfl rfl
  split
  · unfold isupMaxbans
    split
    · cases positive val with
      | none => exact h
      | some v => exact hother rfl rfl rfl
    · exact h
  split
  · unfold isupNicklen
    split
    · exact hother rfl rfl rfl
    · cases positive val with
      | none => exact h
      | some v => exact hother rfl rfl rfl
  split
  · exact ranges_isupPrefix h neg val
  split
  · unfold isupChanmodes
    split
    · exact h
    · split
      · split
        · exact h
        · exact hother rfl rfl rfl
      · exact h
  · exact h

theorem ranges_parse {is : Isupport} (h : Ranges is) (params : Str) :
    Ranges (isupportParse is params) := by
  unfold isupportParse
  generalize List.filter _ _ = toks
  induction toks generalizing is with
  | nil => exact h
  | cons tok toks ih => exact ih (ranges_token h tok)

/-- A run does not fault and keeps the ranges. -/
theorem eventsRun_ranges (es : List Event) : ∀ {is : Isupport}, Ranges is →
    ∃ is', eventsRun is es = some is' ∧ Ranges is' := by
  induction es with
  | nil => exact fun h => ⟨_, rfl, h⟩
  | cons e es ih =>
      intro is h
      rw [eventsRun]
      cases e with
      | line params =>
          rw [stepRun, isupportParseRun_text is params.2, Option.bind_some]
          exact ih (ranges_parse h params.1)
      | reset => exact ih ranges_reset

/-! ### Malformed tokens -/

/-- `(letters)symbols`: as many symbols as letters, one to eight. -/
def PrefixValue (val : Str) : Prop :=
  ∃ letters syms, val = byte '(' :: (letters ++ byte ')' :: syms) ∧ letters.length = syms.length ∧
    1 ≤ letters.length ∧ letters.length ≤ 8 ∧ ∀ c ∈ letters, isAlpha c = true

/-- `A,B,C,D`, where none of the first three is 64 bytes or longer. -/
def ChanmodesValue (val : Str) : Prop :=
  ∃ a b c d, val = a ++ byte ',' :: (b ++ byte ',' :: (c ++ byte ',' :: d)) ∧
    (byte ',' ∉ a ∧ a.length < 64) ∧ (byte ',' ∉ b ∧ b.length < 64) ∧ byte ',' ∉ c ∧ c.length < 64

/-- A token that names a value and does not give one of its form. -/
def Gives (tok name : Str) (val : Str) : Prop :=
  tok = name ++ byte '=' :: val ∨ (tok = name ∧ val = [])

def Malformed (tok : Str) : Prop :=
  (∃ val, Gives tok (str "PREFIX") val ∧ ¬ PrefixValue val) ∨
    ∃ val, Gives tok (str "CHANMODES") val ∧ ¬ ChanmodesValue val

theorem tokenParts_gives {tok name val : Str} (h : Gives tok name val) (hname : byte '=' ∉ name)
    (hneg : (name ++ [0]).head? ≠ some (byte '-')) : tokenParts tok = (false, name, val) := by
  rcases h with rfl | ⟨rfl, rfl⟩
  · have hhead : (name ++ byte '=' :: val).head? ≠ some (byte '-') := by
      cases name with
      | nil => exact fun h => absurd (Option.some.inj h) (by decide)
      | cons c name => exact hneg
    simp only [tokenParts, hhead, if_false, splitOnce_append hname, Option.getD_some, decide_false]
  · have hhead : tok.head? ≠ some (byte '-') := by
      cases tok with
      | nil => decide
      | cons c tok => exact hneg
    simp only [tokenParts, hhead, if_false, splitOnce_notMem hname, Option.getD_none, decide_false]

theorem isupPrefix_malformed {val : Str} (h : ¬ PrefixValue val) (is : Isupport) :
    isupPrefix is false val = is := by
  unfold isupPrefix
  rw [if_neg Bool.false_ne_true]
  split
  · rename_i c letters syms hc hsplit
    refine if_pos (Decidable.not_not.mp fun hok => h ?_)
    simp only [not_or, ne_eq, not_not, Bool.not_eq_true', Bool.not_eq_false] at hok
    obtain ⟨hopen, hne, hsame, hlt, hall⟩ := hok
    obtain ⟨rest, rfl⟩ := List.head?_eq_some_iff.mp hc
    rw [List.tail_cons] at hsplit
    have hpos : 1 ≤ letters.length := List.length_pos_iff.mpr fun heq => hne (by rw [heq]; rfl)
    exact ⟨letters, syms, by rw [hopen, splitOnce_eq_some hsplit], hsame, hpos, by omega,
      List.all_eq_true.mp hall⟩
  · rfl

theorem isupChanmodes_malformed {val : Str} (h : ¬ ChanmodesValue val) (is : Isupport) :
    isupChanmodes is false val = is := by
  unfold isupChanmodes
  rw [if_neg Bool.false_ne_true]
  split
  · rename_i a b c d more hsplit
    refine if_pos (Decidable.not_not.mp fun hok => h ?_)
    simp only [not_or, Nat.not_le] at hok
    have hmem : ∀ f ∈ a :: b :: c :: d :: more, byte ',' ∉ f := fun f hf =>
      notMem_of_mem_splitOn (hsplit ▸ hf)
    obtain ⟨-, hnil⟩ | ⟨val₁, rfl, h₁⟩ := splitOn_eq_cons hsplit
    · cases hnil
    obtain ⟨-, hnil⟩ | ⟨val₂, rfl, h₂⟩ := splitOn_eq_cons h₁
    · cases hnil
    obtain ⟨-, hnil⟩ | ⟨val₃, rfl, -⟩ := splitOn_eq_cons h₂
    · cases hnil
    exact ⟨a, b, c, val₃, rfl, ⟨hmem a (by simp), hok.1⟩, ⟨hmem b (by simp), hok.2.1⟩,
      hmem c (by simp), hok.2.2⟩
  · rfl

theorem isupportToken_malformed {tok : Str} (h : Malformed tok) (is : Isupport) :
    isupportToken is tok = is := by
  unfold isupportToken
  rcases h with ⟨val, hgives, hval⟩ | ⟨val, hgives, hval⟩
  · rw [tokenParts_gives hgives (by decide) (by decide)]
    exact isupPrefix_malformed hval is
  · rw [tokenParts_gives hgives (by decide) (by decide)]
    exact isupChanmodes_malformed hval is

/-- **The parser of 005.** Over any lines the prefix letters and symbols stay in line, one to
eight of each, and the other values in their ranges; a malformed `PREFIX` or `CHANMODES` leaves
everything as it was; and nothing that a server can send makes the parser fault. -/
theorem isupport_runs :
    (∀ es : List Event, ∃ is, eventsRun {} es = some is ∧ Kept is) ∧
      ∀ (is : Isupport) (tok : Utf8Str), Malformed tok.1 → isupportTokenRun is tok.1 = some is := by
  refine ⟨fun es => ?_, fun is tok h => ?_⟩
  · obtain ⟨is, hrun, hranges⟩ := eventsRun_ranges es ranges_reset
    exact ⟨is, hrun, hranges.kept⟩
  · rw [isupportTokenRun_text is tok.2, isupportToken_malformed h]

/-- A `PREFIX` with more letters than symbols. -/
theorem isupport_runs_short :
    isupportTokenRun {} (str "PREFIX=(qo)~") = some {} :=
  isupport_runs.2 {} ⟨str "PREFIX=(qo)~", text_of_ascii (forall_of_all (by decide))⟩
    (.inl ⟨str "(qo)~", .inl rfl, by
      rintro ⟨letters, syms, heq, hsame, -, -, -⟩
      have hlen := congrArg List.length heq
      simp only [List.length_cons, List.length_append] at hlen
      have hfive : (str "(qo)~").length = 5 := rfl
      omega⟩)

end IrcBot.ServerTokens
