/-
# The loop of `wildcard_match` (`auth.rs`)

The matcher as it runs: two cursors, and the last star with the place in the text it takes up
to. A turn of the loop moves the cursors or answers.

* `turn_lt` — a turn that goes on has less left to do.
* `run_eq` — the run of the turns is the walk over what is left of pattern and text.
* `wildcardMatch_decides` — every run ends, and says whether the text is in the language of the
  pattern.
-/
import IrcBot.Masks
import Mathlib.Computability.Language

namespace IrcBot.Wildcard

open Cstr Masks Lib.Glob

/-! ### The language of a pattern -/

/-- One byte of a pattern stands for a text: `*` for any, `?` for any one byte, every other byte
for itself up to case. -/
def StandsFor (b : UInt8) (s : Str) : Prop :=
  if b = byte '*' then True else ∃ c, s = [c] ∧ (b = byte '?' ∨ lower b = lower c)

def byteLanguage (b : UInt8) : Language UInt8 := {s | StandsFor b s}

/-- The texts that a pattern stands for: one part for each of its bytes. -/
def language (p : Str) : Language UInt8 := (p.map byteLanguage).prod

theorem mem_language_cons {b : UInt8} {p t : Str} :
    t ∈ language (b :: p) ↔ ∃ s, StandsFor b s ∧ ∃ u ∈ language p, s ++ u = t := by
  have hcons : language (b :: p) = byteLanguage b * language p := by
    rw [language, List.map_cons, List.prod_cons]
    rfl
  rw [hcons]
  exact Language.mem_mul

theorem mem_language_star {p t : Str} :
    t ∈ language (byte '*' :: p) ↔ ∃ k, t.drop k ∈ language p := by
  rw [mem_language_cons]
  constructor
  · rintro ⟨s, -, u, hu, rfl⟩
    exact ⟨s.length, by rwa [List.drop_left]⟩
  · rintro ⟨k, hk⟩
    exact ⟨t.take k, by simp [StandsFor], t.drop k, hk, List.take_append_drop k t⟩

theorem mem_language_one {b : UInt8} (hb : b ≠ byte '*') {p t : Str} :
    t ∈ language (b :: p) ↔
      ∃ c u, t = c :: u ∧ (b = byte '?' ∨ lower b = lower c) ∧ u ∈ language p := by
  rw [mem_language_cons]
  simp only [StandsFor, if_neg hb]
  constructor
  · rintro ⟨_, ⟨c, rfl, hc⟩, u, hu, rfl⟩
    exact ⟨c, u, rfl, hc, hu⟩
  · rintro ⟨c, u, rfl, hc, hu⟩
    exact ⟨[c], ⟨c, rfl, hc⟩, u, hu, rfl⟩

/-- The language in terms of the symbols, on which letters have no case. -/
theorem mem_language_iff {p t : Str} : t ∈ language p ↔ Matches (syms p) (fold t) := by
  induction p generalizing t with
  | nil =>
      rw [syms_nil, matches_nil_iff]
      exact (Language.mem_one t).trans List.map_eq_nil_iff.symm
  | cons b p ih =>
      by_cases hb : b = byte '*'
      · subst hb
        rw [mem_language_star, syms_cons, sym_star, matches_star_iff]
        exact exists_congr fun k => by rw [ih, fold, fold, List.map_drop]
      · rw [mem_language_one hb, syms_cons, matches_cons_iff (mt sym_eq_star_iff.mp hb)]
        constructor
        · rintro ⟨c, u, rfl, hc, hu⟩
          exact ⟨lower c, fold u, rfl, (sym_accepts_iff hb).mpr hc, ih.mp hu⟩
        · rintro ⟨a, v, htext, ha, hv⟩
          obtain ⟨c, u, rfl, rfl, rfl⟩ := List.map_eq_cons_iff.mp htext
          exact ⟨c, u, rfl, (sym_accepts_iff hb).mp ha, ih.mpr hv⟩

/-! ### The turns of the loop -/

/-- Where the loop stands: the cursors in the pattern and in the text, the last star that was
passed, and up to where in the text it takes. -/
structure Cursors where
  pi : Nat := 0
  ti : Nat := 0
  star : Option Nat := none
  starT : Nat := 0
deriving DecidableEq, Repr

/-- What a turn comes to. -/
inductive Turn where
  | answer (matched : Bool)
  | goOn (c : Cursors)
deriving DecidableEq, Repr

/-- One turn of the loop; behind its end, what is left of the pattern has to be stars. -/
def turn (p t : Str) (c : Cursors) : Turn :=
  match t[c.ti]? with
  | some d =>
      if p[c.pi]? = some (byte '*') then
        .goOn { c with star := some c.pi, pi := c.pi + 1, starT := c.ti }
      else if p[c.pi]?.any fun b => b == byte '?' || lower b == lower d then
        .goOn { c with pi := c.pi + 1, ti := c.ti + 1 }
      else
        match c.star with
        | some s => .goOn { c with pi := s + 1, starT := c.starT + 1, ti := c.starT + 1 }
        | none => .answer false
  | none => .answer ((p.drop c.pi).dropWhile (· == byte '*')).isEmpty

/-- The loop, for at most so many turns: `none` while it has not answered. -/
def run (p t : Str) : Nat → Cursors → Option Bool
  | 0, _ => none
  | n + 1, c =>
      match turn p t c with
      | .answer matched => some matched
      | .goOn c => run p t n c

/-- The cursors stand in the pattern and in the text, behind the last star. -/
structure Cursors.Ok (p t : Str) (c : Cursors) : Prop where
  pi : c.pi ≤ p.length
  ti : c.ti ≤ t.length
  starT : c.starT ≤ c.ti
  star : ∀ s, c.star = some s → s < c.pi

/-- What is left to do: first how often the last star can still be restarted, then the way to
the ends. -/
def left (p t : Str) (c : Cursors) : Nat :=
  (if c.star.isSome then t.length - c.starT else t.length + 1) * (p.length + t.length + 1) +
    (p.length - c.pi) + (t.length - c.ti)

/-- The star that was passed last and the rest of the text it starts from, for the walk over
what is left. -/
def Cursors.restart (p t : Str) (c : Cursors) : Option (Str × Str) :=
  c.star.map fun s => (p.drop (s + 1), t.drop c.starT)

/-! ### Every run ends -/

/-- A turn that goes on has less left to do. -/
theorem turn_lt {p t : Str} {c c' : Cursors} (h : c.Ok p t) (hturn : turn p t c = .goOn c') :
    c'.Ok p t ∧ left p t c' < left p t c := by
  unfold turn at hturn
  split at hturn
  · rename_i d hd
    have hti : c.ti < t.length := (List.getElem?_eq_some_iff.mp hd).1
    have hstarT := h.starT
    split at hturn
    · -- a star is passed: those before it are not restarted any more
      rename_i hstar
      have hpi : c.pi < p.length := (List.getElem?_eq_some_iff.mp hstar).1
      cases hturn
      refine ⟨⟨hpi, h.ti, le_rfl, fun s hs => by cases hs; exact Nat.lt_succ_self _⟩, ?_⟩
      have hrestarts : t.length - c.ti ≤ if c.star.isSome then t.length - c.starT
          else t.length + 1 := by
        split <;> omega
      have hmul := Nat.mul_le_mul_right (p.length + t.length + 1) hrestarts
      simp only [left, Option.isSome_some, if_true]
      omega
    · split at hturn
      · rename_i hone
        obtain ⟨b, hb, -⟩ := (Option.any_eq_true _ _).mp hone
        have hpi : c.pi < p.length := (List.getElem?_eq_some_iff.mp hb).1
        cases hturn
        refine ⟨⟨hpi, hti, by dsimp only; omega, fun s hs => ?_⟩, ?_⟩
        · exact Nat.lt_succ_of_lt (h.star s hs)
        · simp only [left]
          omega
      · split at hturn
        · rename_i s hs
          cases hturn
          have hpi := h.star s hs
          have hlen := h.pi
          refine ⟨⟨by dsimp only; omega, by dsimp only; omega, le_rfl, fun s' hs' => ?_⟩, ?_⟩
          · obtain rfl := Option.some.inj (hs.symm.trans hs')
            exact Nat.lt_succ_self _
          · have hsucc : t.length - c.starT = (t.length - (c.starT + 1)) + 1 := by omega
            simp only [left, hs, Option.isSome_some, if_true, hsucc, Nat.add_mul, Nat.one_mul]
            omega
        · cases hturn
  · cases hturn

/-- With more turns than there is left to do, the loop answers. -/
theorem run_answers {p t : Str} (n : Nat) : ∀ {c : Cursors}, c.Ok p t → left p t c < n →
    ∃ matched, run p t n c = some matched := by
  induction n with
  | zero => exact fun _ h => absurd h (Nat.not_lt_zero _)
  | succ n ih =>
      intro c hok hleft
      rw [run]
      cases hturn : turn p t c with
      | answer matched => exact ⟨matched, rfl⟩
      | goOn c' =>
          obtain ⟨hok', hlt⟩ := turn_lt hok hturn
          exact ih hok' (by omega)

/-! ### What it answers -/

/-- One turn of the cursors is one step of the walk over what is left. -/
theorem wildcardLoop_turn {p t : Str} {c : Cursors} (n : Nat) :
    wildcardLoop (n + 1) (p.drop c.pi) (t.drop c.ti) (c.restart p t) =
      match turn p t c with
      | .answer matched => matched
      | .goOn c => wildcardLoop n (p.drop c.pi) (t.drop c.ti) (c.restart p t) := by
  unfold turn
  cases hd : t[c.ti]? with
  | none =>
      rw [List.drop_eq_nil_of_le (List.getElem?_eq_none_iff.mp hd), wildcardLoop]
      rw [Bool.eq_iff_iff, List.isEmpty_iff, List.dropWhile_eq_nil_iff, List.all_eq_true]
  | some d =>
      obtain ⟨hti, hd⟩ := List.getElem?_eq_some_iff.mp hd
      rw [List.drop_eq_getElem_cons hti, hd]
      have hrestart : (c.restart p t).any (fun r =>
            wildcardLoop n r.1 r.2.tail (some (r.1, r.2.tail))) =
          c.star.any fun s => wildcardLoop n (p.drop (s + 1)) (t.drop (c.starT + 1))
            (some (p.drop (s + 1), t.drop (c.starT + 1))) := by
        unfold Cursors.restart
        cases c.star with
        | none => rfl
        | some s => simp [List.tail_drop]
      cases hb : p[c.pi]? with
      | none =>
          rw [List.drop_eq_nil_of_le (List.getElem?_eq_none_iff.mp hb), wildcardLoop, hrestart]
          cases c.star with
          | none => rfl
          | some s => rfl
      | some b =>
          obtain ⟨hpi, hb⟩ := List.getElem?_eq_some_iff.mp hb
          rw [List.drop_eq_getElem_cons hpi, hb, wildcardLoop, hrestart]
          by_cases hstar : b = byte '*'
          · subst hstar
            simp only [if_true]
            rw [Cursors.restart, Option.map_some, List.drop_eq_getElem_cons hti, hd]
          · dsimp only
            rw [if_neg hstar, if_neg fun h => hstar (Option.some.inj h)]
            by_cases hone : b = byte '?' ∨ lower b = lower d
            · rw [if_pos hone, if_pos (by simpa using hone)]
              rfl
            · rw [if_neg hone, if_neg (by simpa using hone)]
              cases c.star with
              | none => rfl
              | some s => rfl

/-- An answer is the one of the walk over what is left. -/
theorem run_eq {p t : Str} (n : Nat) : ∀ {c : Cursors} {matched : Bool},
    run p t n c = some matched →
      wildcardLoop n (p.drop c.pi) (t.drop c.ti) (c.restart p t) = matched := by
  induction n with
  | zero => exact fun h => nomatch h
  | succ n ih =>
      intro c matched h
      rw [wildcardLoop_turn]
      rw [run] at h
      cases hturn : turn p t c with
      | answer matched' =>
          rw [hturn] at h
          exact Option.some.inj h
      | goOn c' =>
          rw [hturn] at h
          exact ih h

/-- More turns do not change the answer. -/
theorem run_mono {p t : Str} {n : Nat} : ∀ {m : Nat} {c : Cursors} {matched : Bool},
    n ≤ m → run p t n c = some matched → run p t m c = some matched := by
  induction n with
  | zero => exact fun _ h => nomatch h
  | succ n ih =>
      intro m c matched hle h
      obtain ⟨m, rfl⟩ := Nat.exists_eq_add_of_le' (Nat.lt_of_lt_of_le (Nat.succ_pos n) hle)
      rw [run] at h ⊢
      cases hturn : turn p t c with
      | answer matched' => rwa [hturn] at h
      | goOn c' =>
          rw [hturn] at h
          exact ih (by omega) h

/-- **The matcher decides the language.** On every pattern and text the loop comes to an end,
and it answers yes exactly if the text is in the language of the pattern. -/
theorem wildcardMatch_decides (p t : Str) :
    ∃ n matched, (∀ m, n ≤ m → run p t m {} = some matched) ∧ wildcardMatch p t = matched ∧
      (matched = true ↔ t ∈ language p) := by
  have hok : Cursors.Ok p t {} := ⟨Nat.zero_le _, Nat.zero_le _, le_rfl, nofun⟩
  have hleft : left p t {} < (t.length + 2) * (p.length + t.length + 1) := by
    have hadd : (t.length + 2) * (p.length + t.length + 1) =
        (t.length + 1) * (p.length + t.length + 1) + (p.length + t.length + 1) := by
      rw [show t.length + 2 = (t.length + 1) + 1 from rfl, Nat.add_mul (t.length + 1) 1,
        Nat.one_mul]
    simp only [left, Option.isSome_none, Bool.false_eq_true, if_false]
    omega
  obtain ⟨matched, hrun⟩ := run_answers _ hok hleft
  have hmatch : wildcardMatch p t = matched := run_eq _ hrun
  refine ⟨_, matched, fun m hm => run_mono hm hrun, hmatch, ?_⟩
  rw [← hmatch, wildcardMatch_iff, mem_language_iff]

example : run (str "a*b*c") (str "aXXbYYc") 20 {} = some true := by decide
example : run (str "a*b*c") (str "aXXbYY") 40 {} = some false := by decide

end IrcBot.Wildcard
