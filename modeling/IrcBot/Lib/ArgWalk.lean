/-
# Letters that take arguments

A line of letters is read from the left beside a list of arguments; a letter that
takes an argument takes the next one that is left, if there is any.

* `getElem?_assign` — a letter gets the argument at the place given by the number
  of letters ahead of it that take one.
* `foldl_assign_last` — the last argument makes no difference to a walk whose letter
  does not look at it.
* `assign_inj` — the letters with their arguments determine the arguments, if there
  are as many as the letters take.
* `chosen_eq_iff` — two readings give some letters the same arguments exactly when
  the arguments at the two places of each such letter are the same.
-/
import Mathlib.Data.List.Basic
import Mathlib.Tactic.Common

namespace IrcBot.Lib.ArgWalk

variable {ι α σ : Type}

/-- The letters with the argument each one takes. -/
def assign (takes : ι → Bool) : List ι → List α → List (ι × Option α)
  | [], _ => []
  | x :: xs, args =>
      if takes x then (x, args.head?) :: assign takes xs args.tail
      else (x, none) :: assign takes xs args

/-- The place in the list of arguments where letter `i` finds its own. -/
def place (takes : ι → Bool) (xs : List ι) (i : Nat) : Nat := (xs.take i).countP takes

@[simp] theorem assign_nil (takes : ι → Bool) (args : List α) : assign takes [] args = [] := rfl

theorem assign_cons (takes : ι → Bool) (x : ι) (xs : List ι) (args : List α) :
    assign takes (x :: xs) args =
      if takes x then (x, args.head?) :: assign takes xs args.tail
      else (x, none) :: assign takes xs args := rfl

/-- A letter gets the argument at its place. -/
theorem getElem?_assign (takes : ι → Bool) (xs : List ι) :
    ∀ (args : List α) (i : Nat), (assign takes xs args)[i]? =
      xs[i]?.map fun x => (x, if takes x then args[place takes xs i]? else none) := by
  induction xs with
  | nil =>
      intro args i
      rfl
  | cons x xs ih =>
      intro args i
      rw [assign_cons]
      split
      · rename_i htakes
        cases i with
        | zero => simp [place, htakes, List.head?_eq_getElem?]
        | succ i => simp [place, ih, htakes]
      · rename_i htakes
        cases i with
        | zero => simp [place, htakes]
        | succ i => simp [place, ih, htakes]

/-- The letter that takes the argument at a place. -/
def taker (takes : ι → Bool) (xs : List ι) (n : Nat) : Option ι := (xs.filter takes)[n]?

/-- What the last argument is makes no difference where its letter does not look at it. -/
theorem foldl_assign_last {takes : ι → Bool} {f : σ → ι × Option α → σ} {u v : α} (xs : List ι) :
    ∀ (s : σ) (args : List α),
      (∀ x ∈ taker takes xs args.length, ∀ s, f s (x, some u) = f s (x, some v)) →
        (assign takes xs (args ++ [u])).foldl f s = (assign takes xs (args ++ [v])).foldl f s := by
  induction xs with
  | nil =>
      intro s args _
      rfl
  | cons x xs ih =>
      intro s args h
      rw [assign_cons, assign_cons]
      unfold taker at h
      by_cases htakes : takes x = true
      · rw [List.filter_cons_of_pos htakes] at h
        rw [if_pos htakes, if_pos htakes, List.foldl_cons, List.foldl_cons]
        cases args with
        | nil => exact congrArg ((assign takes xs []).foldl f) (h x rfl s)
        | cons a args => exact ih _ args h
      · rw [List.filter_cons_of_neg htakes] at h
        rw [if_neg htakes, if_neg htakes, List.foldl_cons, List.foldl_cons]
        exact ih _ args h

theorem map_fst_assign (takes : ι → Bool) (xs : List ι) :
    ∀ args : List α, (assign takes xs args).map Prod.fst = xs := by
  induction xs with
  | nil =>
      intro args
      rfl
  | cons x xs ih =>
      intro args
      rw [assign_cons]
      split <;> simp [ih]

/-- The arguments of those entries that have one, assigned to their letters. -/
theorem assign_map {β : Type} (takes : ι → Bool) (letter : β → ι) (arg : β → α) (hasArg : β → Bool)
    (l : List β) (h : ∀ b ∈ l, takes (letter b) = hasArg b) :
    assign takes (l.map letter) ((l.filter hasArg).map arg) =
      l.map fun b => (letter b, if hasArg b then some (arg b) else none) := by
  induction l with
  | nil => rfl
  | cons b l ih =>
      have hb := h b List.mem_cons_self
      have ih := ih fun x hx => h x (List.mem_cons_of_mem b hx)
      rw [List.map_cons, List.map_cons, assign_cons, hb]
      cases harg : hasArg b with
      | true =>
          rw [List.filter_cons_of_pos harg, List.map_cons, List.tail_cons, ih]
          rfl
      | false =>
          rw [List.filter_cons_of_neg (by simp [harg]), ih]
          rfl

/-- The letters with their arguments determine the arguments. -/
theorem assign_inj (takes : ι → Bool) (xs : List ι) : ∀ {args args' : List α},
    args.length = xs.countP takes → args'.length ≤ args.length →
      assign takes xs args' = assign takes xs args → args' = args := by
  induction xs with
  | nil =>
      intro args args' hlen hle _
      have hargs : args = [] := List.length_eq_zero_iff.mp hlen
      subst hargs
      exact List.length_eq_zero_iff.mp (Nat.le_zero.mp hle)
  | cons x xs ih =>
      intro args args' hlen hle heq
      by_cases htakes : takes x = true
      · rw [List.countP_cons_of_pos htakes] at hlen
        obtain ⟨a, as, rfl⟩ := List.exists_cons_of_length_eq_add_one hlen
        simp only [assign_cons, if_pos htakes, List.cons.injEq, Prod.mk.injEq, true_and,
          List.head?_cons,
          List.tail_cons] at heq
        obtain ⟨hhead, hrest⟩ := heq
        cases args' with
        | nil => cases hhead
        | cons a' as' =>
            obtain rfl : a' = a := by simpa using hhead
            rw [ih (Nat.succ.inj hlen) (Nat.le_of_succ_le_succ hle) hrest]
      · rw [List.countP_cons_of_neg htakes] at hlen
        simp only [assign_cons, if_neg htakes, List.cons.injEq, true_and] at heq
        exact ih hlen hle heq

/-- The letters that `p` chooses, with their arguments. -/
def chosen (takes p : ι → Bool) (xs : List ι) (args : List α) : List (ι × Option α) :=
  (assign takes xs args).filter (p ·.1)

/-- Two lists over the same letters give the chosen ones the same second parts
exactly when they do so place by place. -/
theorem filter_fst_eq_iff {β : Type} (p : ι → Bool) {l l' : List (ι × β)}
    (h : l.map Prod.fst = l'.map Prod.fst) :
    l.filter (p ·.1) = l'.filter (p ·.1) ↔
      ∀ (i : Nat) (x : ι × β), l[i]? = some x → p x.1 = true → l'[i]? = some x := by
  induction l generalizing l' with
  | nil =>
      obtain rfl : l' = [] := by simpa using h.symm
      simp
  | cons x l ih =>
      cases l' with
      | nil => simp at h
      | cons y l' =>
          simp only [List.map_cons, List.cons.injEq] at h
          obtain ⟨hfst, hrest⟩ := h
          have hsplit : (∀ (i : Nat) (z : ι × β), (x :: l)[i]? = some z → p z.1 = true →
                (y :: l')[i]? = some z) ↔
              (p x.1 = true → y = x) ∧
                ∀ (i : Nat) (z : ι × β), l[i]? = some z → p z.1 = true → l'[i]? = some z := by
            constructor
            · intro hall
              exact ⟨fun hp => by simpa using hall 0 x (by simp) hp,
                fun i z hz hp => by simpa using hall (i + 1) z (by simpa using hz) hp⟩
            · rintro ⟨hhead, htail⟩ i z hz hp
              cases i with
              | zero =>
                  obtain rfl : x = z := by simpa using hz
                  simpa using hhead hp
              | succ i => simpa using htail i z (by simpa using hz) hp
          rw [hsplit, ← ih hrest]
          by_cases hp : p x.1 = true
          · have hp' : p y.1 = true := by rw [← hfst]; exact hp
            rw [List.filter_cons_of_pos (by simpa using hp),
              List.filter_cons_of_pos (by simpa using hp'), List.cons.injEq]
            exact ⟨fun ⟨hxy, hl⟩ => ⟨fun _ => hxy.symm, hl⟩, fun ⟨hxy, hl⟩ => ⟨(hxy hp).symm, hl⟩⟩
          · have hp' : ¬ p y.1 = true := by rw [← hfst]; exact hp
            rw [List.filter_cons_of_neg (by simpa using hp),
              List.filter_cons_of_neg (by simpa using hp')]
            exact ⟨fun hl => ⟨fun h => absurd h hp, hl⟩, fun hl => hl.2⟩

/-- What letter `i` is given. -/
def given (takes : ι → Bool) (xs : List ι) (args : List α) (i : Nat) : Option α :=
  xs[i]?.bind fun x => if takes x then args[place takes xs i]? else none

/-- **When two readings agree** on the chosen letters: the arguments at the two
places of each of them are the same. -/
theorem chosen_eq_iff (takes takes' p : ι → Bool) (xs : List ι) (args : List α) :
    chosen takes p xs args = chosen takes' p xs args ↔
      ∀ (i : Nat) (x : ι), xs[i]? = some x → p x = true →
        given takes xs args i = given takes' xs args i := by
  unfold chosen
  rw [filter_fst_eq_iff p (by rw [map_fst_assign, map_fst_assign])]
  simp only [getElem?_assign, Option.map_eq_some_iff]
  constructor
  · intro h i x hx hp
    obtain ⟨y, hy, heq⟩ := h i (x, _) ⟨x, hx, rfl⟩ hp
    obtain rfl : x = y := Option.some.inj (hx.symm.trans hy)
    simp only [given, hx, Option.bind_some]
    exact (Prod.mk.inj heq).2.symm
  · rintro h i _ ⟨x, hx, rfl⟩ hp
    have hgiven := h i x hx hp
    simp only [given, hx, Option.bind_some] at hgiven
    exact ⟨x, hx, by rw [hgiven]⟩

end IrcBot.Lib.ArgWalk
