/-
# Matching a mask, and the overlap of two masks

`wildcard_match` (`auth.rs`) and `glob_overlap` (`glob_overlap.rs`) on bytes,
with their meaning in terms of glob patterns:

* `wildcardMatch_iff` — the greedy loop accepts exactly the texts the pattern
  matches, whatever its stars. The loop restarts only the last star it has
  passed; `LoopInv` is what it has to remember about that star.
* `globOverlap_iff` — within its length bound the row-by-row table answers
  exactly whether some text is matched by both patterns.
* `globOverlap_of_long` — beyond the bound it answers that there is one.
* `globOverlap_exact` — both together.
-/
import Mathlib.Data.List.Infix
import IrcBot.Lib.Glob
import IrcBot.State

namespace IrcBot.Masks

open Cstr Lib.Glob

/-! ### Patterns and texts -/

/-- The symbol a pattern byte stands for; letters compare without case. -/
def sym (b : UInt8) : Sym UInt8 :=
  if b = byte '*' then .star else if b = byte '?' then .any else .lit (lower b)

/-- The pattern a mask stands for. -/
def syms (p : Str) : List (Sym UInt8) := p.map sym

/-- The text a string stands for. -/
def fold (t : Str) : List UInt8 := t.map lower

@[simp] theorem syms_nil : syms [] = [] := rfl
@[simp] theorem syms_cons (b : UInt8) (p : Str) : syms (b :: p) = sym b :: syms p := rfl
@[simp] theorem syms_append (p q : Str) : syms (p ++ q) = syms p ++ syms q := by simp [syms]
@[simp] theorem length_syms (p : Str) : (syms p).length = p.length := by simp [syms]
@[simp] theorem fold_nil : fold [] = [] := rfl
@[simp] theorem fold_cons (b : UInt8) (t : Str) : fold (b :: t) = lower b :: fold t := rfl
@[simp] theorem fold_append (s t : Str) : fold (s ++ t) = fold s ++ fold t := by simp [fold]

@[simp] theorem sym_star : sym (byte '*') = .star := rfl

theorem sym_eq_star_iff {b : UInt8} : sym b = .star ↔ b = byte '*' := by
  unfold sym
  split
  · simp_all
  · split <;> simp_all

/-- A pattern byte other than a star takes one byte: any for `?`, itself up to
case otherwise. -/
theorem sym_accepts_iff {b c : UInt8} (hb : b ≠ byte '*') :
    (sym b).Accepts (lower c) ↔ b = byte '?' ∨ lower b = lower c := by
  unfold sym
  rw [if_neg hb]
  split <;> simp_all [Sym.Accepts]

theorem sym_compatible_iff {b c : UInt8} (hb : b ≠ byte '*') (hc : c ≠ byte '*') :
    (sym b).Compatible (sym c) ↔ b = byte '?' ∨ c = byte '?' ∨ lower b = lower c := by
  unfold sym
  rw [if_neg hb, if_neg hc]
  split <;> split <;> simp_all [Sym.Compatible]

/-! ### `wildcard_match` -/

/-- The loop of `wildcard_match`. Its cursors `pi`, `ti` are the rests `p`, `t` of
pattern and text; `star` is the pattern behind the last star and the text from
`star_t` on. -/
def wildcardLoop : Nat → Str → Str → Option (Str × Str) → Bool
  | 0, _, _, _ => false
  | _ + 1, p, [], _ => p.all (· == byte '*')
  | fuel + 1, p, c :: t, star =>
      -- let the last star swallow one byte more
      let restart := star.any fun (sp, st) => wildcardLoop fuel sp st.tail (some (sp, st.tail))
      match p with
      | b :: p' =>
          if b = byte '*' then wildcardLoop fuel p' (c :: t) (some (p', c :: t))
          else if b = byte '?' ∨ lower b = lower c then wildcardLoop fuel p' t star
          else restart
      | [] => restart

/-- `wildcard_match`. The fuel is more than the loop can use: the last star moves
right at most once for each byte of the text. -/
def wildcardMatch (pattern text : Str) : Bool :=
  wildcardLoop ((text.length + 2) * (pattern.length + text.length + 1)) pattern text none

/-- What the loop remembers about the last star: since then the pattern block
`q`, free of stars, has taken the text `w`. -/
def LoopInv (p t : Str) : Option (Str × Str) → Prop
  | none => True
  | some (sp, st) => ∃ q w, sp = q ++ p ∧ st = w ++ t ∧ q.length = w.length ∧ byte '*' ∉ q

/-- What a restart of the last star could still achieve. -/
def Restartable : Option (Str × Str) → Prop
  | none => False
  | some (sp, st) => ∃ k, Matches (syms sp) (fold (st.drop (k + 1)))

/-- How many restarts are left, at most. -/
def restarts (t : Str) : Option (Str × Str) → Nat
  | none => t.length + 1
  | some (_, st) => st.length

/-- How much pattern there is to walk, at most. -/
def walkBound (p t : Str) : Option (Str × Str) → Nat
  | none => p.length + t.length
  | some (sp, st) => sp.length + st.length

theorem star_not_mem_syms {q : Str} (h : byte '*' ∉ q) : Sym.star ∉ syms q := by
  intro hm
  obtain ⟨b, hb, he⟩ := List.mem_map.mp hm
  exact h (sym_eq_star_iff.mp he ▸ hb)

theorem matches_syms_nil_iff {p : Str} :
    Matches (syms p) [] ↔ p.all (· == byte '*') = true := by
  simp [matches_nil_right, syms, sym_eq_star_iff]

/-- Once a further star is reached, restarting the previous one adds nothing. -/
theorem matches_star_of_restartable {p t : Str} {star : Option (Str × Str)}
    (hinv : LoopInv (byte '*' :: p) t star) (h : Restartable star) :
    Matches (.star :: syms p) (fold t) := by
  cases star with
  | none => exact h.elim
  | some s =>
      obtain ⟨sp, st⟩ := s
      obtain ⟨q, w, rfl, rfl, hlen, hq⟩ := hinv
      obtain ⟨k, hk⟩ := h
      rw [fold, List.map_drop, List.map_append, syms_append, syms_cons, sym_star] at hk
      exact Matches.star_of_restart (star_not_mem_syms hq) (by simpa using hlen) hk

/-- A star at the cursor matches at once or after swallowing a byte more. -/
theorem matches_star_iff_restartable {p t : Str} :
    Matches (.star :: syms p) (fold t) ↔
      Matches (syms p) (fold t) ∨ Restartable (some (p, t)) := by
  rw [matches_star_iff]
  constructor
  · rintro ⟨k, hk⟩
    cases k with
    | zero => exact .inl (by simpa using hk)
    | succ k => exact .inr ⟨k, by simpa [fold, List.map_drop] using hk⟩
  · rintro (h | ⟨k, hk⟩)
    · exact ⟨0, by simpa using h⟩
    · exact ⟨k + 1, by simpa [fold, List.map_drop] using hk⟩

theorem restartable_some_iff {sp st : Str} (hst : st ≠ []) :
    Restartable (some (sp, st)) ↔
      Matches (syms sp) (fold st.tail) ∨ Restartable (some (sp, st.tail)) := by
  rw [← matches_star_iff_restartable, matches_star_iff]
  obtain ⟨c, st, rfl⟩ := List.exists_cons_of_ne_nil hst
  simp [Restartable, fold, List.map_drop]

/-- **The loop decides the match**: from a state that satisfies its invariant,
and with enough fuel, it succeeds exactly when the rest of the pattern matches
the rest of the text or a restart of the last star leads to a match. -/
theorem wildcardLoop_iff {N : Nat} : ∀ (fuel : Nat) (p t : Str) (star : Option (Str × Str)),
    LoopInv p t star → p.length + t.length ≤ N → walkBound p t star ≤ N →
    restarts t star * (N + 1) + p.length + t.length < fuel →
    (wildcardLoop fuel p t star = true ↔ Matches (syms p) (fold t) ∨ Restartable star)
  | 0, _, _, _ => by intro _ _ _ h; omega
  | fuel + 1, p, [], star => by
      intro hinv _ _ _
      rw [wildcardLoop, ← matches_syms_nil_iff]
      refine ⟨.inl, fun h => h.elim id fun hr => ?_⟩
      -- the text is used up, so no restart can do better than the cursor
      cases star with
      | none => exact hr.elim
      | some s =>
          obtain ⟨sp, st⟩ := s
          obtain ⟨q, w, rfl, rfl, hlen, hq⟩ := hinv
          obtain ⟨k, hk⟩ := hr
          rw [syms_append] at hk
          have hrest := hk.drop_block (star_not_mem_syms hq)
          rwa [fold, List.map_drop, List.drop_drop, List.drop_of_length_le] at hrest
          simp
          omega
  | fuel + 1, p, c :: t, star => by
      intro hinv hN hwalk hfuel
      have hrestart : Matches (syms p) (fold (c :: t)) = False →
          (star.any (fun (sp, st) => wildcardLoop fuel sp st.tail (some (sp, st.tail))) = true ↔
            Matches (syms p) (fold (c :: t)) ∨ Restartable star) := by
        intro hp
        rw [hp, false_or]
        cases star with
        | none => simp [Restartable]
        | some s =>
            obtain ⟨sp, st⟩ := s
            obtain ⟨q, w, hsp, hst, -, -⟩ := hinv
            have hne : st ≠ [] := by
              rintro rfl
              simp at hst
            obtain ⟨d, st, rfl⟩ := List.exists_cons_of_ne_nil hne
            rw [restartable_some_iff hne]
            simp only [Option.any_some, List.tail_cons]
            simp only [walkBound, restarts, List.length_cons] at hwalk hfuel
            refine wildcardLoop_iff (N := N) fuel sp st _ ⟨[], [], rfl, rfl, rfl, by simp⟩
              (by omega) (by simp only [walkBound]; omega) ?_
            simp only [restarts]
            rw [Nat.add_mul] at hfuel
            omega
      cases p with
      | nil =>
          rw [wildcardLoop]
          exact hrestart (by simp [matches_nil_iff])
      | cons b p =>
          rw [wildcardLoop]
          by_cases hb : b = byte '*'
          · subst hb
            have hstep := wildcardLoop_iff (N := N) fuel p (c :: t) (some (p, c :: t))
              ⟨[], [], rfl, rfl, rfl, by simp⟩ (by simp at hN ⊢; omega)
              (by simp [walkBound] at hN ⊢; omega) (by
                have hle : (c :: t).length ≤ restarts (c :: t) star := by
                  cases star with
                  | none => simp [restarts]
                  | some s =>
                      obtain ⟨q, w, -, hst, -, -⟩ := hinv
                      simp [restarts, hst]
                have hmul := Nat.mul_le_mul_right (N + 1) hle
                simp only [restarts, List.length_cons] at hfuel hmul ⊢
                omega)
            rw [if_pos rfl, hstep, ← matches_star_iff_restartable, syms_cons, sym_star]
            exact ⟨.inl, fun h => h.elim id fun hr => matches_star_of_restartable hinv hr⟩
          · rw [if_neg hb]
            have hmatch : Matches (syms (b :: p)) (fold (c :: t)) ↔
                (b = byte '?' ∨ lower b = lower c) ∧ Matches (syms p) (fold t) := by
              rw [syms_cons, fold_cons, matches_cons_iff (mt sym_eq_star_iff.mp hb)]
              simp [← sym_accepts_iff hb]
            by_cases hbc : b = byte '?' ∨ lower b = lower c
            · rw [if_pos hbc, hmatch]
              have hstep := wildcardLoop_iff (N := N) fuel p t star (by
                  cases star with
                  | none => trivial
                  | some s =>
                      obtain ⟨q, w, hsp, hst, hlen, hq⟩ := hinv
                      refine ⟨q ++ [b], w ++ [c], ?_, ?_, ?_, ?_⟩
                      · simpa using hsp
                      · simpa using hst
                      · simpa using hlen
                      · simpa [hq] using Ne.symm hb)
                (by simp at hN; omega) (by
                  cases star with
                  | none => simp [walkBound] at hwalk ⊢; omega
                  | some s => exact hwalk) (by
                  have hle : restarts t star * (N + 1) ≤ restarts (c :: t) star * (N + 1) :=
                    Nat.mul_le_mul_right _ (by cases star <;> simp [restarts])
                  simp only [List.length_cons] at hfuel
                  omega)
              rw [hstep]
              simp [hbc]
            · rw [if_neg hbc]
              exact hrestart (by rw [hmatch]; simp [hbc])

/-- **`wildcard_match` is glob matching.** -/
theorem wildcardMatch_iff {p t : Str} :
    wildcardMatch p t = true ↔ Matches (syms p) (fold t) := by
  have h := wildcardLoop_iff (N := p.length + t.length)
    ((t.length + 2) * (p.length + t.length + 1)) p t none trivial le_rfl le_rfl (by
      simp only [restarts]
      rw [show t.length + 2 = (t.length + 1) + 1 from rfl, Nat.add_mul (t.length + 1) 1]
      omega)
  simpa [wildcardMatch, Restartable] using h

/-- The case of a mask does not count. -/
theorem syms_of_eqIc {m m' : Str} (h : eqIc m m' = true) : syms m = syms m' := by
  have hsym (x : UInt8) : sym (lower x) = sym x := by
    unfold sym
    have hstar : lower x = byte '*' ↔ x = byte '*' := by
      change lower x = 42 ↔ x = 42
      unfold lower
      grind
    have hany : lower x = byte '?' ↔ x = byte '?' := by
      change lower x = 63 ↔ x = 63
      unfold lower
      grind
    simp only [hstar, hany, lower_lower]
  have hfold (m : Str) : syms m = (m.map lower).map sym := by
    unfold syms
    rw [List.map_map]
    exact List.map_congr_left fun x _ => (hsym x).symm
  rw [hfold, hfold, eqIc_iff.mp h]

theorem wildcardMatch_of_eqIc {m m' : Str} (h : eqIc m m' = true) (t : Str) :
    wildcardMatch m t = wildcardMatch m' t := by
  rw [Bool.eq_iff_iff, wildcardMatch_iff, wildcardMatch_iff, syms_of_eqIc h]

/-- A mask matches itself. -/
theorem matches_self (p : Str) : Matches (syms p) (fold p) := by
  induction p with
  | nil => exact .nil
  | cons c p ih =>
      rw [syms_cons, fold_cons]
      by_cases hc : c = byte '*'
      · rw [hc, sym_star]
        exact .starEat (.starSkip ih)
      · exact .one ((sym_accepts_iff hc).mpr (.inr rfl)) ih

/-! ### `glob_overlap` -/

/-- `GLOB_OVERLAP_MAX`. -/
def globOverlapMax : Nat := 256

/-- The first cell of a row. -/
def firstCell : List Bool → Bool
  | [] => false
  | v :: _ => v

/-- Row `i = la`: the first pattern has ended. -/
def endRow : Str → List Bool
  | [] => [true]
  | y :: b => (y == byte '*' && firstCell (endRow b)) :: endRow b

/-- Row `i` from row `i + 1`, for the symbol `x` at `i`. -/
def overlapRow (x : UInt8) : Str → List Bool → List Bool
  | [], next => [x == byte '*' && firstCell next]
  | y :: b, next =>
      let cur := overlapRow x b next.tail
      (if x = byte '*' ∨ y = byte '*' then firstCell next || firstCell cur
        else if x = byte '?' ∨ y = byte '?' ∨ lower x = lower y then firstCell next.tail
        else false) :: cur

/-- `glob_overlap`. -/
def globOverlap (a b : Str) : Bool :=
  if globOverlapMax < a.length ∨ globOverlapMax < b.length then true
  else firstCell (a.foldr (overlapRow · b) (endRow b))

/-- A row holds, for each rest of the second pattern, whether it overlaps `p`. -/
def RowFor (p b : Str) (row : List Bool) : Prop :=
  List.Forall₂ (fun q v => v = true ↔ Overlaps (syms p) (syms q)) b.tails row

theorem RowFor.first {p b : Str} {row : List Bool} (h : RowFor p b row) :
    firstCell row = true ↔ Overlaps (syms p) (syms b) := by
  cases b <;> (cases h; assumption)

theorem RowFor.tail {p b : Str} {y : UInt8} {row : List Bool} (h : RowFor p (y :: b) row) :
    RowFor p b row.tail := by
  cases h
  assumption

theorem overlaps_syms_nil_star {q : Str} :
    Overlaps [] (syms (byte '*' :: q)) ↔ Overlaps [] (syms q) := by
  rw [syms_cons, sym_star, overlaps_nil_star]

theorem not_overlaps_syms_nil {y : UInt8} (hy : y ≠ byte '*') {q : Str} :
    ¬ Overlaps [] (syms (y :: q)) :=
  overlaps_nil_cons (mt sym_eq_star_iff.mp hy)

theorem rowFor_endRow : ∀ b : Str, RowFor [] b (endRow b)
  | [] => .cons (by simp) .nil
  | y :: b => by
      have ih := rowFor_endRow b
      refine .cons ?_ ih
      by_cases hy : y = byte '*'
      · subst hy
        rw [syms_nil, overlaps_syms_nil_star, ← syms_nil, ← ih.first]
        simp
      · simp [hy, -syms_cons, not_overlaps_syms_nil hy]

/-- **One row of the table**: each cell follows the recursion of `Overlaps`. -/
theorem rowFor_overlapRow (x : UInt8) (p : Str) :
    ∀ (b : Str) (next : List Bool), RowFor p b next → RowFor (x :: p) b (overlapRow x b next)
  | [], next => by
      intro h
      refine .cons ?_ .nil
      rw [syms_nil, overlaps_comm]
      by_cases hx : x = byte '*'
      · subst hx
        rw [overlaps_syms_nil_star, overlaps_comm, ← syms_nil, ← h.first]
        simp
      · simp [hx, -syms_cons, not_overlaps_syms_nil hx]
  | y :: b, next => by
      intro h
      have ih := rowFor_overlapRow x p b next.tail h.tail
      refine .cons ?_ ih
      by_cases hx : x = byte '*'
      · subst hx
        rw [if_pos (.inl rfl), Bool.or_eq_true, h.first, ih.first]
        simp only [syms_cons, sym_star]
        exact overlaps_star_left.symm
      · by_cases hy : y = byte '*'
        · subst hy
          rw [if_pos (.inr rfl), Bool.or_eq_true, h.first, ih.first]
          simp only [syms_cons, sym_star]
          exact overlaps_star_right.symm
        · have hxs := mt sym_eq_star_iff.mp hx
          have hys := mt sym_eq_star_iff.mp hy
          rw [if_neg (by simp [hx, hy]), syms_cons, syms_cons, overlaps_cons_iff hxs hys,
            sym_compatible_iff hx hy, ← h.tail.first]
          split <;> simp_all

/-- Every row of the table, by induction on the first pattern from its end. -/
theorem rowFor_foldr (b : Str) : ∀ a : Str, RowFor a b (a.foldr (overlapRow · b) (endRow b))
  | [] => rowFor_endRow b
  | x :: a => rowFor_overlapRow x a b _ (rowFor_foldr b a)

/-- **`glob_overlap` decides whether two patterns overlap.** -/
theorem globOverlap_iff {a b : Str} (ha : a.length ≤ globOverlapMax)
    (hb : b.length ≤ globOverlapMax) :
    globOverlap a b = true ↔ Overlaps (syms a) (syms b) := by
  rw [globOverlap, if_neg (by omega)]
  exact (rowFor_foldr b a).first

/-- Patterns past the bound are reported as overlapping. -/
theorem globOverlap_of_long {a b : Str}
    (h : globOverlapMax < a.length ∨ globOverlapMax < b.length) : globOverlap a b = true := by
  rw [globOverlap, if_pos h]

/-- A pattern does not see the case of what it accepts. -/
theorem accepts_lower {p : Str} : ∀ x ∈ syms p, ∀ b, x.Accepts b → x.Accepts (lower b) := by
  intro x hx b hb
  obtain ⟨c, -, rfl⟩ := List.mem_map.mp hx
  unfold sym at hb ⊢
  split
  · simp_all [Sym.Accepts]
  · split
    · trivial
    · have hc : lower c = b := by simp_all [Sym.Accepts]
      rw [← hc, lower_lower]
      rfl

/-- Patterns overlap when some string is matched by both. -/
theorem overlaps_syms_iff {a b : Str} :
    Overlaps (syms a) (syms b) ↔ ∃ s, wildcardMatch a s = true ∧ wildcardMatch b s = true := by
  constructor
  · rintro ⟨t, ha, hb⟩
    exact ⟨t, wildcardMatch_iff.mpr (ha.map accepts_lower),
      wildcardMatch_iff.mpr (hb.map accepts_lower)⟩
  · rintro ⟨s, ha, hb⟩
    exact ⟨fold s, wildcardMatch_iff.mp ha, wildcardMatch_iff.mp hb⟩

/-- **`glob_overlap` is exact** on patterns within its bound, and answers that longer ones
overlap. -/
theorem globOverlap_exact (a b : Str) :
    globOverlap a b = true ↔
      (globOverlapMax < a.length ∨ globOverlapMax < b.length) ∨
        ∃ s, wildcardMatch a s = true ∧ wildcardMatch b s = true := by
  by_cases hlong : globOverlapMax < a.length ∨ globOverlapMax < b.length
  · exact iff_of_true (globOverlap_of_long hlong) (.inl hlong)
  · rw [not_or, Nat.not_lt, Nat.not_lt] at hlong
    rw [globOverlap_iff hlong.1 hlong.2, overlaps_syms_iff]
    refine ⟨.inr, fun h => h.resolve_left ?_⟩
    omega

/-- Two masks that match a text in common are always reported, whatever their
lengths. -/
theorem globOverlap_of_common {a b t : Str} (ha : wildcardMatch a t = true)
    (hb : wildcardMatch b t = true) : globOverlap a b = true := by
  by_cases h : globOverlapMax < a.length ∨ globOverlapMax < b.length
  · exact globOverlap_of_long h
  · exact (globOverlap_iff (by omega) (by omega)).mpr
      ⟨fold t, wildcardMatch_iff.mp ha, wildcardMatch_iff.mp hb⟩

end IrcBot.Masks
