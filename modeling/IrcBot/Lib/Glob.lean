/-
# Glob patterns over an arbitrary alphabet

A pattern is a list of symbols: a literal letter, `any` (exactly one letter) or
`star` (any run of letters). `Matches` says which texts a pattern accepts, and
`Overlaps` that two patterns accept a text in common. The rules below are what
a matcher and an intersection test need:

* `matches_star_iff`, `matches_cons_iff` — one symbol of a pattern at a time.
* `Matches.drop_block`, `Matches.star_of_drop` — a matcher that reaches a
  second star may forget the first one: a block without stars consumes exactly
  its own length, so every later restart of the first star is covered by the
  second. This is what makes greedy backtracking to the last star complete.
* `Matches.split`, `Matches.around_star` — which symbol takes a given letter, and back.
* `overlaps_star_left`, `overlaps_star_right`, `overlaps_cons_iff` — the
  recursion of an intersection test, one row and one column at a time.
-/
import Mathlib.Data.List.Basic
import Mathlib.Tactic.Common

namespace IrcBot.Lib.Glob

variable {α : Type*}

/-- One symbol of a pattern. -/
inductive Sym (α : Type*) where
  | star
  | any
  | lit (a : α)
deriving DecidableEq, Repr

/-- The letters a symbol other than `star` stands for. -/
def Sym.Accepts : Sym α → α → Prop
  | .star, _ => False
  | .any, _ => True
  | .lit b, a => b = a

/-- Two symbols other than `star` stand for a letter in common. -/
def Sym.Compatible : Sym α → Sym α → Prop
  | .star, _ => False
  | _, .star => False
  | .any, _ => True
  | _, .any => True
  | .lit a, .lit b => a = b

/-- `Matches p t`: the pattern `p` accepts the whole text `t`. -/
inductive Matches : List (Sym α) → List α → Prop
  | nil : Matches [] []
  | starSkip {p t} (h : Matches p t) : Matches (.star :: p) t
  | starEat {p a t} (h : Matches (.star :: p) t) : Matches (.star :: p) (a :: t)
  | one {x p a t} (hx : x.Accepts a) (h : Matches p t) : Matches (x :: p) (a :: t)

/-- Some text is accepted by both patterns. -/
def Overlaps (p q : List (Sym α)) : Prop :=
  ∃ t, Matches p t ∧ Matches q t

/-! ### One symbol at a time -/

theorem matches_nil_iff {t : List α} : Matches [] t ↔ t = [] := by
  constructor
  · intro h; cases h; rfl
  · rintro rfl; exact .nil

/-- A star takes some front part of the text, possibly nothing. -/
theorem matches_star_iff {p : List (Sym α)} {t : List α} :
    Matches (.star :: p) t ↔ ∃ k, Matches p (t.drop k) := by
  constructor
  · intro h
    generalize hq : Sym.star :: p = q at h
    induction h with
    | nil => cases hq
    | starSkip h _ => cases hq; exact ⟨0, h⟩
    | starEat _ ih =>
        obtain ⟨k, hk⟩ := ih hq
        exact ⟨k + 1, by simpa using hk⟩
    | one hx _ _ => cases hq; exact hx.elim
  · rintro ⟨k, hk⟩
    induction k generalizing t with
    | zero => exact .starSkip hk
    | succ k ih =>
        cases t with
        | nil => exact .starSkip hk
        | cons a t => exact .starEat (ih hk)

theorem matches_star_cons {p : List (Sym α)} {a : α} {t : List α} :
    Matches (.star :: p) (a :: t) ↔ Matches p (a :: t) ∨ Matches (.star :: p) t := by
  constructor
  · intro h
    cases h with
    | starSkip h => exact .inl h
    | starEat h => exact .inr h
    | one hx _ => exact hx.elim
  · rintro (h | h)
    · exact .starSkip h
    · exact .starEat h

/-- A symbol other than a star takes exactly one letter. -/
theorem matches_cons_iff {x : Sym α} (hx : x ≠ .star) {p : List (Sym α)} {t : List α} :
    Matches (x :: p) t ↔ ∃ a u, t = a :: u ∧ x.Accepts a ∧ Matches p u := by
  constructor
  · intro h
    cases h with
    | starSkip _ => exact absurd rfl hx
    | starEat _ => exact absurd rfl hx
    | one ha h => exact ⟨_, _, rfl, ha, h⟩
  · rintro ⟨a, u, rfl, ha, h⟩
    exact .one ha h

/-- Only a run of stars accepts the empty text. -/
theorem matches_nil_right {p : List (Sym α)} : Matches p [] ↔ ∀ x ∈ p, x = .star := by
  induction p with
  | nil => simp [matches_nil_iff]
  | cons x p ih =>
      by_cases hx : x = .star
      · subst hx
        simp [matches_star_iff, ih]
      · simp [matches_cons_iff hx, hx]

/-- Patterns one after the other accept texts one after the other. -/
theorem Matches.append {p q : List (Sym α)} {s t : List α} (hp : Matches p s) (hq : Matches q t) :
    Matches (p ++ q) (s ++ t) := by
  induction hp with
  | nil => exact hq
  | starSkip _ ih => exact .starSkip ih
  | starEat _ ih => exact .starEat ih
  | one hx _ ih => exact .one hx ih

/-- What patterns one after the other accept falls apart as they do. -/
theorem matches_append_iff {p q : List (Sym α)} {t : List α} :
    Matches (p ++ q) t ↔ ∃ s u, t = s ++ u ∧ Matches p s ∧ Matches q u := by
  constructor
  · intro h
    induction p generalizing t with
    | nil => exact ⟨[], t, rfl, .nil, h⟩
    | cons x p ih =>
        by_cases hx : x = .star
        · subst hx
          obtain ⟨k, hk⟩ := matches_star_iff.mp h
          obtain ⟨s, u, hsplit, hs, hu⟩ := ih hk
          refine ⟨t.take k ++ s, u, ?_, matches_star_iff.mpr ⟨(t.take k).length, ?_⟩, hu⟩
          · rw [List.append_assoc, ← hsplit, List.take_append_drop]
          · rwa [List.drop_left]
        · obtain ⟨a, t, rfl, ha, ht⟩ := (matches_cons_iff hx).mp h
          obtain ⟨s, u, rfl, hs, hu⟩ := ih ht
          exact ⟨a :: s, u, rfl, .one ha hs, hu⟩
  · rintro ⟨s, u, rfl, hs, hu⟩
    exact hs.append hu

/-- A star accepts everything. -/
theorem matches_star (t : List α) : Matches [.star] t :=
  matches_star_iff.mpr ⟨t.length, by rw [List.drop_length]; exact .nil⟩

/-- Some symbol takes a given letter of the text; a star may go on to take what is around it. -/
theorem Matches.split {p : List (Sym α)} {w y : List α} {c : α} (h : Matches p (w ++ c :: y)) :
    ∃ a x r, p = a ++ x :: r ∧
      (x = .star ∧ Matches (a ++ [.star]) w ∧ Matches (.star :: r) y ∨
        x.Accepts c ∧ Matches a w ∧ Matches r y) := by
  induction p generalizing w with
  | nil => simp [matches_nil_iff] at h
  | cons x p ih =>
      by_cases hx : x = .star
      · subst hx
        obtain ⟨k, hk⟩ := matches_star_iff.mp h
        by_cases hkw : k ≤ w.length
        · -- the star stops ahead of the letter
          rw [List.drop_append_of_le_length hkw] at hk
          obtain ⟨a, x, r, rfl, hcut⟩ := ih hk
          have hstar {q : List (Sym α)} (hq : Matches q (w.drop k)) : Matches (.star :: q) w :=
            matches_star_iff.mpr ⟨k, hq⟩
          refine ⟨.star :: a, x, r, rfl, hcut.imp ?_ ?_⟩
          · exact fun ⟨hx, ha, hr⟩ => ⟨hx, hstar ha, hr⟩
          · exact fun ⟨hx, ha, hr⟩ => ⟨hx, hstar ha, hr⟩
        · refine ⟨[], .star, p, rfl, .inl ⟨rfl, matches_star w, matches_star_iff.mpr ⟨k - w.length - 1, ?_⟩⟩⟩
          rwa [List.drop_append, List.drop_of_length_le (by omega), List.nil_append,
            show k - w.length = (k - w.length - 1) + 1 by omega, List.drop_succ_cons] at hk
      · obtain ⟨a, t, ht, ha, hp⟩ := (matches_cons_iff hx).mp h
        cases w with
        | nil =>
            obtain ⟨rfl, rfl⟩ := List.cons.inj ht
            exact ⟨[], x, p, rfl, .inr ⟨ha, .nil, hp⟩⟩
        | cons b w =>
            obtain ⟨rfl, rfl⟩ := List.cons.inj ht
            obtain ⟨a, y, r, rfl, hcut⟩ := ih hp
            refine ⟨x :: a, y, r, rfl, hcut.imp ?_ ?_⟩
            · exact fun ⟨hy, hw, hr⟩ => ⟨hy, .one ha hw, hr⟩
            · exact fun ⟨hy, hw, hr⟩ => ⟨hy, .one ha hw, hr⟩

/-- What is taken on both sides of a star is taken with anything between. -/
theorem Matches.around_star {a r : List (Sym α)} {w y : List α} (m : List α)
    (hw : Matches (a ++ [.star]) w) (hy : Matches (.star :: r) y) :
    Matches (a ++ .star :: r) (w ++ (m ++ y)) := by
  obtain ⟨s, u, rfl, hs, -⟩ := matches_append_iff.mp hw
  obtain ⟨k, hk⟩ := matches_star_iff.mp hy
  rw [List.append_assoc]
  refine hs.append (matches_star_iff.mpr ⟨(u ++ (m ++ y.take k)).length, ?_⟩)
  have hsplit : u ++ (m ++ y) = (u ++ (m ++ y.take k)) ++ y.drop k := by
    simp only [List.append_assoc, List.take_append_drop]
  rwa [hsplit, List.drop_left]

/-- A text is accepted whatever is done to its letters that the symbols do not see. -/
theorem Matches.map {p : List (Sym α)} {t : List α} {f : α → α} (h : Matches p t)
    (hf : ∀ x ∈ p, ∀ a, x.Accepts a → x.Accepts (f a)) : Matches p (t.map f) := by
  induction h with
  | nil => exact .nil
  | starSkip _ ih => exact .starSkip (ih fun x hx => hf x (List.mem_cons_of_mem _ hx))
  | starEat _ ih => exact .starEat (ih hf)
  | one hx _ ih =>
      exact .one (hf _ List.mem_cons_self _ hx) (ih fun x hx => hf x (List.mem_cons_of_mem _ hx))

/-! ### What greedy matching may forget -/

/-- A block without stars consumes exactly its own length. -/
theorem Matches.drop_block {q p : List (Sym α)} {t : List α} (hq : Sym.star ∉ q)
    (h : Matches (q ++ p) t) : Matches p (t.drop q.length) := by
  induction q generalizing t with
  | nil => simpa using h
  | cons x q ih =>
      have hx : x ≠ .star := fun e => hq (by simp [e])
      obtain ⟨a, u, rfl, -, hu⟩ := (matches_cons_iff hx).mp h
      simpa using ih (fun hm => hq (List.mem_cons_of_mem _ hm)) hu

/-- A star that accepts a rest of the text accepts the text. -/
theorem Matches.star_of_drop {p : List (Sym α)} {t : List α} {k : Nat}
    (h : Matches (.star :: p) (t.drop k)) : Matches (.star :: p) t := by
  obtain ⟨j, hj⟩ := matches_star_iff.mp h
  exact matches_star_iff.mpr ⟨k + j, by simpa [List.drop_drop] using hj⟩

/-- **The last star is enough.** A block `q` without stars has consumed `w`, and
the pattern goes on with a star. Whatever an earlier star could still achieve by
restarting further right, the new star achieves from here. -/
theorem Matches.star_of_restart {q p : List (Sym α)} {w t : List α} {k : Nat}
    (hq : Sym.star ∉ q) (hlen : q.length = w.length)
    (h : Matches (q ++ .star :: p) ((w ++ t).drop k)) : Matches (.star :: p) t := by
  have hrest := h.drop_block hq
  rw [List.drop_drop, Nat.add_comm, ← List.drop_drop, hlen, List.drop_left] at hrest
  exact hrest.star_of_drop

/-! ### The recursion of an intersection test -/

theorem Overlaps.symm {p q : List (Sym α)} (h : Overlaps p q) : Overlaps q p := by
  obtain ⟨t, hp, hq⟩ := h
  exact ⟨t, hq, hp⟩

theorem overlaps_comm {p q : List (Sym α)} : Overlaps p q ↔ Overlaps q p :=
  ⟨Overlaps.symm, Overlaps.symm⟩

@[simp] theorem overlaps_nil_nil : Overlaps ([] : List (Sym α)) [] :=
  ⟨[], .nil, .nil⟩

theorem overlaps_nil_star {q : List (Sym α)} :
    Overlaps [] (.star :: q) ↔ Overlaps [] q := by
  simp [Overlaps, matches_nil_iff, matches_star_iff]

theorem overlaps_nil_cons {x : Sym α} (hx : x ≠ .star) {q : List (Sym α)} :
    ¬ Overlaps [] (x :: q) := by
  simp [Overlaps, matches_nil_iff, matches_cons_iff hx]

/-- Every symbol stands for some letter, so a text can be extended on the left
by one that a given symbol takes. -/
theorem Matches.exists_cons [Nonempty α] {x : Sym α} {p : List (Sym α)} {t : List α}
    (h : Matches p t) : ∃ a, Matches (x :: p) (a :: t) := by
  cases x with
  | star => exact ⟨Classical.arbitrary α, .starEat (.starSkip h)⟩
  | any => exact ⟨Classical.arbitrary α, .one trivial h⟩
  | lit a => exact ⟨a, .one rfl h⟩

/-- A star on the left is either spent or swallows one symbol on the right. -/
theorem overlaps_star_left [Nonempty α] {p q : List (Sym α)} {y : Sym α} :
    Overlaps (.star :: p) (y :: q) ↔ Overlaps p (y :: q) ∨ Overlaps (.star :: p) q := by
  constructor
  · rintro ⟨t, hp, hq⟩
    induction t with
    | nil =>
        rw [matches_star_iff] at hp
        exact .inl ⟨[], by simpa using hp, hq⟩
    | cons a t ih =>
        rcases matches_star_cons.mp hp with hp | hp
        · exact .inl ⟨a :: t, hp, hq⟩
        · cases hq with
          | starSkip hq => exact .inr ⟨a :: t, .starEat hp, hq⟩
          | starEat hq => exact ih hp hq
          | one _ hq => exact .inr ⟨t, hp, hq⟩
  · rintro (⟨t, hp, hq⟩ | ⟨t, hp, hq⟩)
    · exact ⟨t, .starSkip hp, hq⟩
    · obtain ⟨a, ha⟩ := hq.exists_cons (x := y)
      exact ⟨a :: t, .starEat hp, ha⟩

theorem overlaps_star_right [Nonempty α] {p q : List (Sym α)} {x : Sym α} :
    Overlaps (x :: p) (.star :: q) ↔ Overlaps p (.star :: q) ∨ Overlaps (x :: p) q := by
  rw [overlaps_comm, overlaps_star_left, overlaps_comm (p := q),
    overlaps_comm (p := .star :: q), or_comm]

/-- Two symbols other than a star have to stand for a letter in common. -/
theorem overlaps_cons_iff [Nonempty α] {x y : Sym α} (hx : x ≠ .star) (hy : y ≠ .star)
    {p q : List (Sym α)} :
    Overlaps (x :: p) (y :: q) ↔ x.Compatible y ∧ Overlaps p q := by
  have hcompat : x.Compatible y ↔ ∃ a, x.Accepts a ∧ y.Accepts a := by
    cases x <;> cases y <;> simp_all [Sym.Compatible, Sym.Accepts, eq_comm]
  rw [hcompat]
  constructor
  · rintro ⟨t, hp, hq⟩
    obtain ⟨a, u, rfl, ha, hp⟩ := (matches_cons_iff hx).mp hp
    obtain ⟨b, v, ht, hb, hq⟩ := (matches_cons_iff hy).mp hq
    obtain ⟨rfl, rfl⟩ := List.cons.inj ht
    exact ⟨⟨a, ha, hb⟩, u, hp, hq⟩
  · rintro ⟨⟨a, ha, hb⟩, u, hp, hq⟩
    exact ⟨a :: u, .one ha hp, .one hb hq⟩

end IrcBot.Lib.Glob
