/-
# The order of versions (`updater.rs`)

`version_cmp` decides what counts as a downgrade. It walks two strings to their first
difference and decides there: by the longer rest of digits where both go on with one, by the
bytes otherwise.

* `ordered_iff` — three versions are ordered by their numbers exactly when, for each two of
  them, the length of a number and the byte behind it tell the greater one.
* `not_ordered` — `2.10`, `2.1b` and `2.2` go round in a circle.
-/
import IrcBot.Upgrade
import Mathlib.Data.Nat.Digits.Defs

namespace IrcBot.Versions

open Cstr Chanenf Upgrade

/-! ### Numbers in a string -/

/-- The number that digits stand for. -/
def value (m : Str) : Nat := Nat.ofDigits 10 (m.reverse.map fun c => (c - 48).toNat)

/-- A number: digits, one or more. -/
structure Number (m : Str) : Prop where
  ne_nil : m ≠ []
  digits : ∀ c ∈ m, isDigit c = true

/-- The next byte is no digit. -/
def Ended (s : Str) : Prop := ∀ c ∈ s.head?, isDigit c = false

theorem ended_nil : Ended [] := fun _ h => nomatch h

theorem ended_cons {c : UInt8} {s : Str} (h : ¬ isDigit c = true) : Ended (c :: s) := by
  intro d hd
  cases hd
  exact Bool.not_eq_true _ |>.mp h

/-- `x` and `y` are the same up to a number, which is `m` in one and `n` in the other. -/
structure AgreeUpTo (x y p m n s t : Str) : Prop where
  left : x = p ++ (m ++ s)
  right : y = p ++ (n ++ t)
  front : 0 ∉ p
  whole : ∀ c ∈ p.getLast?, isDigit c = false
  numberLeft : Number m
  numberRight : Number n
  endLeft : Ended s
  endRight : Ended t

theorem AgreeUpTo.symm {x y p m n s t : Str} (h : AgreeUpTo x y p m n s t) :
    AgreeUpTo y x p n m t s :=
  ⟨h.right, h.left, h.front, h.whole, h.numberRight, h.numberLeft, h.endRight, h.endLeft⟩

theorem isDigit_iff {c : UInt8} : isDigit c = true ↔ byte '0' ≤ c ∧ c ≤ byte '9' := by
  unfold isDigit
  rw [Bool.and_eq_true, decide_eq_true_eq, decide_eq_true_eq]
  rfl

theorem digit_lt {c : UInt8} (h : isDigit c = true) : (c - 48).toNat < 10 := by
  obtain ⟨hlo, hhi⟩ := isDigit_iff.mp h
  rw [UInt8.le_iff_toNat_le] at hlo hhi
  have hsub : (c - 48).toNat = c.toNat - 48 :=
    UInt8.toNat_sub_of_le c 48 (UInt8.le_iff_toNat_le.mpr hlo)
  have h9 : (byte '9').toNat = 57 := rfl
  omega

theorem digit_lt_digit {c d : UInt8} (hc : isDigit c = true) (hd : isDigit d = true) (h : c < d) :
    (c - 48).toNat < (d - 48).toNat := by
  obtain ⟨hlo, -⟩ := isDigit_iff.mp hc
  obtain ⟨hlo', -⟩ := isDigit_iff.mp hd
  rw [UInt8.lt_iff_toNat_lt] at h
  rw [UInt8.toNat_sub_of_le c 48 hlo, UInt8.toNat_sub_of_le d 48 hlo']
  rw [UInt8.le_iff_toNat_le] at hlo
  have h0 : (byte '0').toNat = 48 := rfl
  have h48 : (48 : UInt8).toNat = 48 := rfl
  omega

@[simp] theorem value_nil : value [] = 0 := rfl

theorem value_append (m n : Str) : value (m ++ n) = value m * 10 ^ n.length + value n := by
  unfold value
  rw [List.reverse_append, List.map_append, Nat.ofDigits_append, List.length_map,
    List.length_reverse, Nat.add_comm, Nat.mul_comm]

theorem value_cons (c : UInt8) (m : Str) :
    value (c :: m) = (c - 48).toNat * 10 ^ m.length + value m := by
  have hone : value [c] = (c - 48).toNat := Nat.ofDigits_singleton
  rw [← List.singleton_append, value_append, hone]

theorem value_lt {m : Str} (h : ∀ c ∈ m, isDigit c = true) : value m < 10 ^ m.length := by
  have hlt := Nat.ofDigits_lt_base_pow_length (b := 10)
    (l := m.reverse.map fun c => (c - 48).toNat) (by decide) fun x hx => by
      obtain ⟨c, hc, rfl⟩ := List.mem_map.mp hx
      exact digit_lt (h c (List.mem_reverse.mp hc))
  rwa [List.length_map, List.length_reverse] at hlt

/-- Of numbers of one length, the first different digit tells the greater one. -/
theorem value_lt_value {r m n : Str} {c d : UInt8} (hlen : m.length = n.length)
    (hm : ∀ c ∈ m, isDigit c = true) (hc : isDigit c = true) (hd : isDigit d = true) (h : c < d) :
    value (r ++ c :: m) < value (r ++ d :: n) := by
  have hlt := value_lt hm
  have hdigit := Nat.mul_le_mul_right (10 ^ m.length) (digit_lt_digit hc hd h)
  rw [Nat.succ_mul] at hdigit
  rw [value_append, value_append, value_cons, value_cons, List.length_cons, List.length_cons, hlen]
  rw [hlen] at hlt hdigit
  omega

/-! ### `strverscmp` -/

theorem strverscmp_append {w : Str} (h : 0 ∉ w) (x y : Str) :
    strverscmp (w ++ x) (w ++ y) = strverscmp x y := by
  induction w with
  | nil => rfl
  | cons c w ih =>
      rw [List.mem_cons, not_or] at h
      rw [List.cons_append, List.cons_append, strverscmp, if_pos rfl, if_neg (Ne.symm h.1), ih h.2]

theorem digitRun_nil (state : Ordering) (c d : UInt8) {s t : Str} (hs : Ended s) (ht : Ended t) :
    digitRun state c d s t = state.then (compare c d) := by
  cases s with
  | nil =>
      cases t with
      | nil => rfl
      | cons e t =>
          rw [digitRun, ht e rfl]
          rfl
  | cons e s =>
      cases t with
      | nil =>
          rw [digitRun, hs e rfl]
          rfl
      | cons f t =>
          rw [digitRun, hs e rfl, ht f rfl]
          rfl

/-- Once the digits differ, the longer run is greater; else the difference stands. -/
theorem digitRun_eq {s t : Str} (hs : Ended s) (ht : Ended t) (m : Str) :
    ∀ (n : Str) (state : Ordering) (c d : UInt8), (∀ e ∈ m, isDigit e = true) →
      (∀ e ∈ n, isDigit e = true) → state.then (compare c d) ≠ .eq →
      digitRun state c d (m ++ s) (n ++ t) =
        if m.length < n.length then .lt
        else if n.length < m.length then .gt
        else state.then (compare c d) := by
  induction m with
  | nil =>
      intro n state c d _ hn _
      cases n with
      | nil => exact digitRun_nil state c d hs ht
      | cons f n =>
          have hf := hn f List.mem_cons_self
          rw [List.length_nil, List.length_cons, if_pos (Nat.succ_pos _), List.nil_append,
            List.cons_append]
          cases s with
          | nil => rw [digitRun, if_pos hf]
          | cons e s =>
              have he : isDigit e = false := hs e rfl
              rw [digitRun, he, if_neg Bool.false_ne_true, if_pos hf]
  | cons e m ih =>
      intro n state c d hm hn hne
      have he := hm e List.mem_cons_self
      cases n with
      | nil =>
          rw [List.length_nil, List.length_cons, if_neg (Nat.not_lt_zero _),
            if_pos (Nat.succ_pos _),
            List.nil_append, List.cons_append]
          cases t with
          | nil => rw [digitRun, if_pos he]
          | cons f t =>
              have hf : isDigit f = false := ht f rfl
              rw [digitRun, if_pos he, hf, if_neg Bool.false_ne_true]
      | cons f n =>
          have hf := hn f List.mem_cons_self
          have hkeep (o : Ordering) : (state.then (compare c d)).then o = state.then (compare c d) := by
            cases hstate : state.then (compare c d) with
            | lt => rfl
            | eq => exact absurd hstate hne
            | gt => rfl
          have hnext := ih n (state.then (compare c d)) e f
            (fun x hx => hm x (List.mem_cons_of_mem _ hx))
            (fun x hx => hn x (List.mem_cons_of_mem _ hx)) (by rwa [hkeep])
          rw [List.cons_append, List.cons_append, digitRun, if_pos he, if_pos hf, hnext, hkeep,
            List.length_cons, List.length_cons]
          simp only [Nat.succ_lt_succ_iff]

theorem digitRun_swap (a : Str) : ∀ (b : Str) (state : Ordering) (c d : UInt8),
    digitRun state.swap d c b a = (digitRun state c d a b).swap := by
  have hstep (state : Ordering) (c d : UInt8) :
      state.swap.then (compare d c) = (state.then (compare c d)).swap := by
    rw [Ordering.swap_then, ← Std.OrientedOrd.eq_swap]
  induction a with
  | nil =>
      intro b state c d
      cases b with
      | nil => exact hstep state c d
      | cons f b =>
          unfold digitRun
          split
          · rfl
          · exact hstep state c d
  | cons e a ih =>
      intro b state c d
      cases b with
      | nil =>
          unfold digitRun
          split
          · rfl
          · exact hstep state c d
      | cons f b =>
          rw [digitRun, digitRun, hstep, ih]
          cases isDigit e with
          | true => cases isDigit f <;> rfl
          | false => cases isDigit f <;> rfl

/-- **Compared the other way, two versions compare the other way.** -/
theorem strverscmp_swap (a : Str) : ∀ b : Str, strverscmp b a = (strverscmp a b).swap := by
  induction a with
  | nil =>
      intro b
      cases b with
      | nil => rfl
      | cons y b => exact Std.OrientedOrd.eq_swap
  | cons x a ih =>
      intro b
      cases b with
      | nil => exact Std.OrientedOrd.eq_swap
      | cons y b =>
          rw [strverscmp, strverscmp]
          by_cases hxy : x = y
          · subst hxy
            rw [if_pos rfl, if_pos rfl]
            split
            · rfl
            · exact ih b
          · rw [if_neg hxy, if_neg (Ne.symm hxy)]
            by_cases hdigits : isDigit x ∧ isDigit y
            · rw [if_pos hdigits, if_pos hdigits.symm]
              exact digitRun_swap a b .eq x y
            · rw [if_neg hdigits, if_neg fun h => hdigits h.symm]
              exact Std.OrientedOrd.eq_swap

theorem strverscmp_digits {c d : UInt8} {m n s t : Str} (hc : isDigit c = true)
    (hd : isDigit d = true) (hne : c ≠ d) (hm : ∀ e ∈ m, isDigit e = true)
    (hn : ∀ e ∈ n, isDigit e = true) (hs : Ended s) (ht : Ended t) :
    strverscmp (c :: m ++ s) (d :: n ++ t) =
      if m.length < n.length then .lt
      else if n.length < m.length then .gt
      else compare c d := by
  rw [List.cons_append, List.cons_append, strverscmp, if_neg hne, if_pos ⟨hc, hd⟩]
  refine digitRun_eq hs ht m n .eq c d hm hn ?_
  exact mt Std.compare_eq_iff_eq.mp hne

/-- Away from a number, the bytes decide; past its end a string goes on with zeros. -/
theorem strverscmp_bytes {s t : Str} (hne : s.headD 0 ≠ t.headD 0)
    (hdigit : isDigit (s.headD 0) = false ∨ isDigit (t.headD 0) = false) :
    strverscmp s t = compare (s.headD 0) (t.headD 0) := by
  cases s with
  | nil =>
      cases t with
      | nil => exact absurd rfl hne
      | cons d t => rfl
  | cons c s =>
      cases t with
      | nil => rfl
      | cons d t =>
          rw [List.headD_cons, List.headD_cons] at hne hdigit ⊢
          rw [strverscmp, if_neg hne, if_neg]
          rintro ⟨hc, hd⟩
          rcases hdigit with h | h
          · exact Bool.noConfusion (h.symm.trans hc)
          · exact Bool.noConfusion (h.symm.trans hd)

theorem strverscmp_end {s t : Str} (hs : s.headD 0 = 0) (ht : t.headD 0 = 0) :
    strverscmp s t = .eq := by
  cases s with
  | nil =>
      cases t with
      | nil => rfl
      | cons d t =>
          obtain rfl : d = 0 := ht
          rfl
  | cons c s =>
      obtain rfl : c = 0 := hs
      cases t with
      | nil => rfl
      | cons d t =>
          obtain rfl : d = 0 := ht
          rfl

/-! ### What decides at a number -/

/-- The byte behind a number sorts above every digit. -/
def Above (s : Str) : Prop := ∃ c ∈ s.head?, byte '9' < c

/-- A longer number is no smaller one; and where it is greater by going on with more digits, the
byte behind the shorter one does not sort above them. -/
def LongerTells (x y : Str) : Prop :=
  ∀ p m n s t, AgreeUpTo x y p m n s t → m.length < n.length →
    value m ≤ value n ∧ (m <+: n → value m < value n → ¬ Above s)

/-- Two lists, their common front apart. -/
theorem exists_common {α : Type} [DecidableEq α] (m : List α) : ∀ n : List α,
    ∃ r m' n', m = r ++ m' ∧ n = r ++ n' ∧ (m' = [] ∨ n' = [] ∨ m'.head? ≠ n'.head?) := by
  induction m with
  | nil => exact fun n => ⟨[], [], n, rfl, rfl, .inl rfl⟩
  | cons c m ih =>
      intro n
      cases n with
      | nil => exact ⟨[], c :: m, [], rfl, rfl, .inr (.inl rfl)⟩
      | cons d n =>
          by_cases hcd : c = d
          · subst hcd
            obtain ⟨r, m', n', rfl, rfl, h⟩ := ih n
            exact ⟨c :: r, m', n', rfl, rfl, h⟩
          · refine ⟨[], c :: m, d :: n, rfl, rfl, .inr (.inr ?_)⟩
            exact fun h => hcd (Option.some.inj h)

theorem zero_notMem {m : Str} (h : ∀ c ∈ m, isDigit c = true) : 0 ∉ m := fun hm =>
  Bool.noConfusion (h 0 hm)

theorem ended_headD {s : Str} (h : Ended s) : isDigit (s.headD 0) = false := by
  cases s with
  | nil => rfl
  | cons c s => exact h c rfl

theorem above_iff {s : Str} : Above s ↔ byte '9' < s.headD 0 := by
  cases s with
  | nil =>
      refine iff_of_false ?_ (by decide)
      rintro ⟨c, hc, -⟩
      cases hc
  | cons c s =>
      constructor
      · rintro ⟨d, hd, h⟩
        cases hd
        exact h
      · exact fun h => ⟨c, rfl, h⟩

/-- A byte that is no digit sorts above all digits or below. -/
theorem compare_digit {c d : UInt8} (hc : isDigit c = false) (hd : isDigit d = true) :
    compare c d = if byte '9' < c then .gt else .lt := by
  obtain ⟨hlo, hhi⟩ := isDigit_iff.mp hd
  split
  · rename_i h
    exact Std.compare_eq_gt.mpr (UInt8.lt_of_le_of_lt hhi h)
  · rename_i h
    refine Std.compare_eq_lt.mpr (UInt8.lt_of_lt_of_le ?_ hlo)
    rw [← UInt8.not_le]
    intro hle
    rw [isDigit_iff.mpr ⟨hle, UInt8.not_lt.mp h⟩] at hc
    exact Bool.noConfusion hc

/-- A number that ends where the other goes on is told from it by the byte behind it. -/
theorem strverscmp_ended {s n t : Str} {d : UInt8} (hs : Ended s) (hd : isDigit d = true) :
    strverscmp s (d :: n ++ t) = if byte '9' < s.headD 0 then .gt else .lt := by
  have hend := ended_headD hs
  rw [← compare_digit hend hd, List.cons_append]
  refine strverscmp_bytes ?_ (.inl hend)
  intro heq
  rw [heq, List.headD_cons, hd] at hend
  exact Bool.noConfusion hend

section

variable {x y p m n s t : Str}

/-- Numbers that differ, at their first difference. -/
theorem AgreeUpTo.strip (h : AgreeUpTo x y p m n s t) {r m' n' : Str} (hm : m = r ++ m')
    (hn : n = r ++ n') :
    strverscmp x y = strverscmp (m' ++ s) (n' ++ t) ∧ (∀ c ∈ m', isDigit c = true) ∧
      ∀ c ∈ n', isDigit c = true := by
  subst hm hn
  obtain ⟨hr, hm'⟩ := List.forall_mem_append.mp h.numberLeft.digits
  obtain ⟨-, hn'⟩ := List.forall_mem_append.mp h.numberRight.digits
  refine ⟨?_, hm', hn'⟩
  rw [h.left, h.right, strverscmp_append h.front, List.append_assoc, List.append_assoc,
    strverscmp_append (zero_notMem hr)]

/-- Of numbers of different lengths the longer one is taken for the greater, unless the shorter
is its front and the byte behind sorts above the digits. -/
theorem AgreeUpTo.strverscmp_of_shorter (h : AgreeUpTo x y p m n s t)
    (hlen : m.length < n.length) :
    (strverscmp x y = .lt ∧ ¬ (m <+: n ∧ Above s)) ∨
      (strverscmp x y = .gt ∧ m <+: n ∧ Above s) := by
  obtain ⟨r, m', n', rfl, rfl, hdiff⟩ := exists_common m n
  obtain ⟨hcmp, hm, hn⟩ := h.strip rfl rfl
  rw [List.length_append, List.length_append] at hlen
  rw [hcmp]
  cases n' with
  | nil => exact absurd hlen (by simp)
  | cons d n' =>
      cases m' with
      | nil =>
          rw [List.nil_append, strverscmp_ended h.endLeft (hn d List.mem_cons_self), above_iff]
          split
          · rename_i habove
            exact .inr ⟨rfl, (List.prefix_append_right_inj r).mpr List.nil_prefix, habove⟩
          · rename_i habove
            exact .inl ⟨rfl, fun h => habove h.2⟩
      | cons c m' =>
          have hne : c ≠ d := by
            rcases hdiff with hdiff | hdiff | hdiff
            · cases hdiff
            · cases hdiff
            · exact fun heq => hdiff (congrArg some heq)
          rw [strverscmp_digits (hm c List.mem_cons_self) (hn d List.mem_cons_self) hne
            (fun e he => hm e (List.mem_cons_of_mem _ he))
            (fun e he => hn e (List.mem_cons_of_mem _ he)) h.endLeft h.endRight, if_pos]
          · refine .inl ⟨rfl, fun hpre => hne ?_⟩
            exact (List.cons_prefix_cons.mp ((List.prefix_append_right_inj r).mp hpre.1)).1
          · rw [List.length_cons, List.length_cons] at hlen
            omega

/-- Numbers of one length compare as numbers. -/
theorem AgreeUpTo.strverscmp_of_length (h : AgreeUpTo x y p m n s t) (hlen : m.length = n.length)
    (hne : m ≠ n) :
    (value m < value n ∧ strverscmp x y = .lt) ∨ (value n < value m ∧ strverscmp x y = .gt) := by
  obtain ⟨r, m', n', rfl, rfl, hdiff⟩ := exists_common m n
  obtain ⟨hcmp, hm, hn⟩ := h.strip rfl rfl
  rw [List.length_append, List.length_append, Nat.add_left_cancel_iff] at hlen
  rw [hcmp]
  cases m' with
  | nil =>
      obtain rfl := List.length_eq_zero_iff.mp hlen.symm
      exact absurd rfl hne
  | cons c m' =>
      cases n' with
      | nil => cases hlen
      | cons d n' =>
          have hcd : c ≠ d := by
            rcases hdiff with hdiff | hdiff | hdiff
            · cases hdiff
            · cases hdiff
            · exact fun heq => hdiff (congrArg some heq)
          have hlen' : m'.length = n'.length := Nat.succ.inj hlen
          have hc := hm c List.mem_cons_self
          have hd := hn d List.mem_cons_self
          have hm' : ∀ e ∈ m', isDigit e = true := fun e he => hm e (List.mem_cons_of_mem _ he)
          have hn' : ∀ e ∈ n', isDigit e = true := fun e he => hn e (List.mem_cons_of_mem _ he)
          rw [strverscmp_digits hc hd hcd hm' hn' h.endLeft h.endRight, if_neg (by omega),
            if_neg (by omega)]
          rcases UInt8.lt_or_lt_of_ne hcd with hlt | hlt
          · exact .inl ⟨value_lt_value hlen' hm' hc hd hlt, Std.compare_eq_lt.mpr hlt⟩
          · exact .inr ⟨value_lt_value hlen'.symm hn' hd hc hlt, Std.compare_eq_gt.mpr hlt⟩

end

/-! ### Numbers compare by value -/

/-- Where two versions agree up to a number, the value of the number decides. -/
def ByValue (a b : Str) : Prop :=
  ∀ p m n s t, AgreeUpTo (stripV a) (stripV b) p m n s t →
    (value m < value n → versionCmp a b = .lt) ∧ (value n < value m → versionCmp a b = .gt)

/-- The lengths of their numbers and the bytes behind them tell the greater of two versions. -/
def Fair (a b : Str) : Prop :=
  LongerTells (stripV a) (stripV b) ∧ LongerTells (stripV b) (stripV a)

theorem value_le_append (m k : Str) : value m ≤ value (m ++ k) := by
  rw [value_append]
  exact Nat.le_add_right_of_le (Nat.le_mul_of_pos_right _ (Nat.pow_pos (by decide)))

theorem versionCmp_swap (a b : Str) : versionCmp b a = (versionCmp a b).swap :=
  strverscmp_swap _ _

theorem ByValue.symm {a b : Str} (h : ByValue a b) : ByValue b a := by
  intro p m n s t hat
  obtain ⟨hlt, hgt⟩ := h p n m t s hat.symm
  rw [versionCmp_swap a b]
  exact ⟨fun hv => congrArg Ordering.swap (hgt hv), fun hv => congrArg Ordering.swap (hlt hv)⟩

theorem longerTells_of_byValue {a b : Str} (h : ByValue a b) :
    LongerTells (stripV a) (stripV b) := by
  intro p m n s t hat hlen
  obtain ⟨hlt, hgt⟩ := h p m n s t hat
  rcases hat.strverscmp_of_shorter hlen with ⟨hcmp, hbelow⟩ | ⟨hcmp, hpre, -⟩
  · refine ⟨Nat.not_lt.mp fun hv => ?_, fun hpre _ habove => hbelow ⟨hpre, habove⟩⟩
    cases hcmp.symm.trans (hgt hv)
  · refine ⟨?_, fun _ hv _ => ?_⟩
    · obtain ⟨k, rfl⟩ := hpre
      exact value_le_append m k
    · cases hcmp.symm.trans (hlt hv)

/-- **Two versions compare by the values of their numbers** exactly when lengths and the bytes
behind tell them. -/
theorem byValue_iff {a b : Str} : ByValue a b ↔ Fair a b := by
  constructor
  · exact fun h => ⟨longerTells_of_byValue h, longerTells_of_byValue h.symm⟩
  · rintro ⟨hab, hba⟩
    have hless {a b : Str} (hab : LongerTells (stripV a) (stripV b))
        (hba : LongerTells (stripV b) (stripV a)) {p m n s t : Str}
        (hat : AgreeUpTo (stripV a) (stripV b) p m n s t) (hv : value m < value n) :
        versionCmp a b = .lt := by
      rcases Nat.lt_trichotomy m.length n.length with hlen | hlen | hlen
      · rcases hat.strverscmp_of_shorter hlen with ⟨hcmp, -⟩ | ⟨-, hpre, habove⟩
        · exact hcmp
        · exact absurd habove ((hab p m n s t hat hlen).2 hpre hv)
      · rcases hat.strverscmp_of_length hlen (fun heq => by simp [heq] at hv) with
          ⟨-, hcmp⟩ | ⟨hgt, -⟩
        · exact hcmp
        · omega
      · have hle := (hba p n m t s hat.symm hlen).1
        omega
    intro p m n s t hat
    refine ⟨hless hab hba hat, fun hv => ?_⟩
    rw [versionCmp_swap b a, hless hba hab hat.symm hv]
    rfl

/-! ### A key for each version -/

def natCmp (m n : Nat) : Ordering := compareOfLessAndEq m n

instance : Std.TransCmp natCmp := inferInstanceAs (@Std.TransOrd Nat instOrdNat)

/-- The order of keys. -/
def keyCmp : List Nat → List Nat → Ordering := List.compareLex natCmp

instance : Std.TransCmp keyCmp := inferInstanceAs (Std.TransCmp (List.compareLex natCmp))

theorem keyCmp_cons (a b : Nat) (k l : List Nat) :
    keyCmp (a :: k) (b :: l) = (natCmp a b).then (keyCmp k l) :=
  List.compareLex_cons_cons

theorem keyCmp_lt {a b : Nat} (h : a < b) (k l : List Nat) : keyCmp (a :: k) (b :: l) = .lt := by
  rw [keyCmp_cons, natCmp, compareOfLessAndEq, if_pos h]
  rfl

theorem keyCmp_cons_self (a : Nat) (k l : List Nat) : keyCmp (a :: k) (a :: l) = keyCmp k l := by
  rw [keyCmp_cons, natCmp, compareOfLessAndEq, if_neg (Nat.lt_irrefl a), if_pos rfl]
  rfl

theorem keyCmp_append (k a b : List Nat) : keyCmp (k ++ a) (k ++ b) = keyCmp a b := by
  induction k with
  | nil => rfl
  | cons c k ih => rw [List.cons_append, List.cons_append, keyCmp_cons_self, ih]

theorem keyCmp_swap (k l : List Nat) : keyCmp l k = (keyCmp k l).swap := Std.OrientedCmp.eq_swap

/-- The key of a number: its value, then its length; zeros stand for themselves. -/
def numberKey (m : Str) : List Nat :=
  if value m = 0 then List.replicate m.length 48 else [49, value m, m.length]

/-- The key of what follows the digits `run`. -/
def keyFrom (run : Str) : Str → List Nat
  | [] => numberKey run
  | c :: s =>
      if isDigit c then keyFrom (run ++ [c]) s
      else numberKey run ++ if c = 0 then [] else c.toNat :: keyFrom [] s

/-- The key of a version: a number by its value, any other byte by itself. -/
def key (a : Str) : List Nat := keyFrom [] (stripV a)

theorem numberKey_nil : numberKey [] = [] := rfl

theorem keyFrom_digits {m : Str} (hm : ∀ c ∈ m, isDigit c = true) (s : Str) :
    ∀ run : Str, keyFrom run (m ++ s) = keyFrom (run ++ m) s := by
  induction m with
  | nil =>
      intro run
      rw [List.nil_append, List.append_nil]
  | cons c m ih =>
      intro run
      rw [List.cons_append, keyFrom, if_pos (hm c List.mem_cons_self),
        ih (fun e he => hm e (List.mem_cons_of_mem _ he)), List.append_assoc, List.singleton_append]

theorem keyFrom_ended {s : Str} (hs : Ended s) (run : Str) :
    keyFrom run s = numberKey run ++ keyFrom [] s := by
  cases s with
  | nil => rw [keyFrom, keyFrom, numberKey_nil, List.append_nil]
  | cons c s =>
      have hc : isDigit c = false := hs c rfl
      rw [keyFrom, keyFrom, hc, if_neg Bool.false_ne_true, if_neg Bool.false_ne_true, numberKey_nil,
        List.nil_append]

/-- A front that ends with no digit has a key of its own. -/
theorem keyFrom_front (p : Str) : ∀ run : Str, p ≠ [] → 0 ∉ p →
    (∀ c ∈ p.getLast?, isDigit c = false) →
      ∃ k, ∀ s, keyFrom run (p ++ s) = k ++ keyFrom [] s := by
  induction p with
  | nil => exact fun _ hne => absurd rfl hne
  | cons c p ih =>
      intro run _ hzero hlast
      rw [List.mem_cons, not_or] at hzero
      cases p with
      | nil =>
          have hc : isDigit c = false := hlast c rfl
          refine ⟨numberKey run ++ [c.toNat], fun s => ?_⟩
          rw [List.cons_append, keyFrom, hc, if_neg Bool.false_ne_true, if_neg (Ne.symm hzero.1)]
          simp
      | cons d p =>
          have hrest := fun run => ih run (List.cons_ne_nil d p) hzero.2 hlast
          by_cases hc : isDigit c = true
          · obtain ⟨k, hk⟩ := hrest (run ++ [c])
            refine ⟨k, fun s => ?_⟩
            rw [List.cons_append, keyFrom, if_pos hc, hk]
          · obtain ⟨k, hk⟩ := hrest []
            refine ⟨numberKey run ++ c.toNat :: k, fun s => ?_⟩
            rw [List.cons_append, keyFrom, if_neg hc, if_neg (Ne.symm hzero.1), hk]
            simp

/-- The key behind a number: nothing at the end of the string, else the byte. -/
theorem keyFrom_nil {s : Str} (hs : Ended s) :
    (s.headD 0 = 0 ∧ keyFrom [] s = []) ∨
      (s.headD 0 ≠ 0 ∧ ∃ k, keyFrom [] s = (s.headD 0).toNat :: k) := by
  cases s with
  | nil => exact .inl ⟨rfl, rfl⟩
  | cons c s =>
      have hc : isDigit c = false := hs c rfl
      rw [keyFrom, hc, if_neg Bool.false_ne_true, numberKey_nil, List.nil_append, List.headD_cons]
      by_cases hzero : c = 0
      · rw [if_pos hzero]
        exact .inl ⟨hzero, rfl⟩
      · rw [if_neg hzero]
        exact .inr ⟨hzero, _, rfl⟩

/-- A smaller number has a smaller key. -/
theorem keyCmp_number {m n : Str} (hm : m ≠ []) (h : value m < value n) (k l : List Nat) :
    keyCmp (numberKey m ++ k) (numberKey n ++ l) = .lt := by
  obtain ⟨c, m, rfl⟩ := List.exists_cons_of_ne_nil hm
  unfold numberKey
  rw [if_neg (c := value n = 0) (by omega)]
  split
  · exact keyCmp_lt (by decide) _ _
  · exact (keyCmp_cons_self 49 _ _).trans (keyCmp_lt h _ _)

/-- Of two spellings of a number, the shorter one has the smaller key. -/
theorem keyCmp_spelling {m n : Str} (hv : value m = value n) (hne : value n ≠ 0)
    (h : m.length < n.length) (k l : List Nat) :
    keyCmp (numberKey m ++ k) (numberKey n ++ l) = .lt := by
  unfold numberKey
  rw [if_neg hne, hv, if_neg hne]
  calc keyCmp ([49, value n, m.length] ++ k) ([49, value n, n.length] ++ l)
      = keyCmp ([value n, m.length] ++ k) ([value n, n.length] ++ l) := keyCmp_cons_self 49 _ _
    _ = keyCmp ([m.length] ++ k) ([n.length] ++ l) := keyCmp_cons_self (value n) _ _
    _ = .lt := keyCmp_lt h _ _

/-! ### Fair versions compare as their keys -/

theorem value_eq_zero {m : Str} (hm : ∀ c ∈ m, isDigit c = true) (h : value m = 0) :
    ∀ c ∈ m, c = byte '0' := by
  induction m with
  | nil => exact fun c hc => nomatch hc
  | cons d m ih =>
      have hd := hm d List.mem_cons_self
      rw [value_cons, Nat.add_eq_zero_iff, Nat.mul_eq_zero] at h
      obtain ⟨hdigit, hrest⟩ := h
      have hzero : d = byte '0' := by
        refine UInt8.le_antisymm ?_ (isDigit_iff.mp hd).1
        rw [← UInt8.not_lt]
        intro hlt
        have hpos := digit_lt_digit (c := byte '0') rfl hd hlt
        have hten := Nat.pow_pos (n := m.length) (show 0 < 10 by decide)
        omega
      exact List.forall_mem_cons.mpr ⟨hzero,
        ih (fun e he => hm e (List.mem_cons_of_mem _ he)) hrest⟩

/-- A digit and what a number is followed by. -/
theorem keyCmp_ended {s : Str} {d : Nat} (hs : Ended s) (hlo : 48 ≤ d) (hhi : d ≤ 57)
    (l : List Nat) :
    keyCmp (keyFrom [] s) (d :: l) = if byte '9' < s.headD 0 then .gt else .lt := by
  have hend := ended_headD hs
  rcases keyFrom_nil hs with ⟨hzero, hkey⟩ | ⟨-, k, hkey⟩
  · rw [hkey, hzero]
    rfl
  · rw [hkey]
    have h9 : (byte '9').toNat = 57 := rfl
    split
    · rename_i habove
      rw [UInt8.lt_iff_toNat_lt] at habove
      rw [keyCmp_swap, keyCmp_lt (by omega)]
      rfl
    · rename_i hbelow
      refine keyCmp_lt ?_ _ _
      have hlow : ¬ byte '0' ≤ s.headD 0 := fun hle => by
        rw [isDigit_iff.mpr ⟨hle, UInt8.not_lt.mp hbelow⟩] at hend
        exact Bool.noConfusion hend
      rw [UInt8.le_iff_toNat_le] at hlow
      have h0 : (byte '0').toNat = 48 := rfl
      omega

theorem digit_ne {c d : UInt8} (hc : isDigit c = true) (h : c = d → c = 0) : c ≠ d := by
  intro heq
  rw [h heq] at hc
  exact Bool.noConfusion hc

/-- Behind equal numbers, the next byte decides. -/
theorem strverscmp_behind {s t : Str} (hs : Ended s) (ht : Ended t)
    (hhead : s.headD 0 = t.headD 0 → s.headD 0 = 0) :
    strverscmp s t = keyCmp (keyFrom [] s) (keyFrom [] t) := by
  by_cases heq : s.headD 0 = t.headD 0
  · have hzero := hhead heq
    rw [strverscmp_end hzero (heq ▸ hzero)]
    rcases keyFrom_nil hs with ⟨-, hkey⟩ | ⟨hne, -⟩
    · rcases keyFrom_nil ht with ⟨-, hkey'⟩ | ⟨hne, -⟩
      · rw [hkey, hkey']
        rfl
      · exact absurd (heq ▸ hzero) hne
    · exact absurd hzero hne
  · have hless {s t : Str} (hs : Ended s) (ht : Ended t) (hlt : s.headD 0 < t.headD 0) :
        keyCmp (keyFrom [] s) (keyFrom [] t) = .lt := by
      rcases keyFrom_nil ht with ⟨hzero, -⟩ | ⟨-, k, hkey⟩
      · rw [hzero] at hlt
        exact absurd hlt UInt8.not_lt_zero
      · rw [hkey]
        rcases keyFrom_nil hs with ⟨-, hkey'⟩ | ⟨-, l, hkey'⟩
        · rw [hkey']
          rfl
        · rw [hkey']
          exact keyCmp_lt (UInt8.lt_iff_toNat_lt.mp hlt) _ _
    rw [strverscmp_bytes heq (.inl (ended_headD hs))]
    rcases UInt8.lt_or_lt_of_ne heq with hlt | hlt
    · rw [hless hs ht hlt, Std.compare_eq_lt]
      exact hlt
    · rw [keyCmp_swap, hless ht hs hlt]
      exact Std.compare_eq_gt.mpr hlt

section

variable {r m n s t : Str} (hr : ∀ c ∈ r, isDigit c = true) (hm : ∀ c ∈ m, isDigit c = true)
  (hn : ∀ c ∈ n, isDigit c = true) (hs : Ended s) (ht : Ended t)
include hr hn hs

/-- The shorter of two numbers ends where they differ. -/
theorem strverscmp_front (hne : n ≠ [])
    (hfair : r ≠ [] → value r < value (r ++ n) → ¬ Above s) :
    strverscmp s (n ++ t) =
      keyCmp (numberKey r ++ keyFrom [] s) (numberKey (r ++ n) ++ keyFrom [] t) := by
  obtain ⟨d, n, rfl⟩ := List.exists_cons_of_ne_nil hne
  rw [strverscmp_ended hs (hn d List.mem_cons_self)]
  by_cases hzero : value (r ++ d :: n) = 0
  · -- zeros stand for themselves, and the byte behind is held against one of them
    have hfront : value r = 0 := Nat.le_zero.mp (hzero ▸ value_le_append r _)
    unfold numberKey
    rw [if_pos hfront, if_pos hzero, List.length_append, List.replicate_add, List.append_assoc,
      keyCmp_append]
    exact (keyCmp_ended hs (by decide) (by decide) _).symm
  · by_cases hempty : r = []
    · subst hempty
      unfold numberKey
      rw [if_neg hzero]
      exact (keyCmp_ended hs (by decide) (by decide) _).symm
    · have hlt : value r < value (r ++ d :: n) := by
        rw [value_append, List.length_cons, Nat.pow_succ]
        rcases Nat.eq_zero_or_pos (value r) with hz | hpos
        · rw [value_append, hz] at hzero
          omega
        · have hten := Nat.pow_pos (n := n.length) (show 0 < 10 by decide)
          nlinarith
      rw [keyCmp_number hempty hlt, if_neg (mt above_iff.mpr (hfair hempty hlt))]

include hm ht

/-- The numbers differ in length. -/
theorem strverscmp_shorter (hlen : m.length < n.length)
    (hhead : (m ++ s).headD 0 = (n ++ t).headD 0 → (m ++ s).headD 0 = 0)
    (hfair : r ++ m ≠ [] → value (r ++ m) ≤ value (r ++ n) ∧
      (m = [] → value (r ++ m) < value (r ++ n) → ¬ Above s)) :
    strverscmp (m ++ s) (n ++ t) =
      keyCmp (numberKey (r ++ m) ++ keyFrom [] s) (numberKey (r ++ n) ++ keyFrom [] t) := by
  obtain ⟨d, n, rfl⟩ := List.exists_cons_of_length_pos (Nat.zero_lt_of_lt hlen)
  cases m with
  | nil =>
      rw [List.append_nil] at hfair ⊢
      exact strverscmp_front hr hn hs (List.cons_ne_nil d n) fun hne => (hfair hne).2 rfl
  | cons c m =>
      have hc := hm c List.mem_cons_self
      have hd := hn d List.mem_cons_self
      have hne : c ≠ d := digit_ne hc hhead
      have hm' : ∀ e ∈ m, isDigit e = true := fun e he => hm e (List.mem_cons_of_mem _ he)
      have hn' : ∀ e ∈ n, isDigit e = true := fun e he => hn e (List.mem_cons_of_mem _ he)
      rw [List.length_cons, List.length_cons, Nat.succ_lt_succ_iff] at hlen
      rw [strverscmp_digits hc hd hne hm' hn' hs ht, if_pos hlen]
      have hsome : r ++ c :: m ≠ [] := by simp
      rcases Nat.lt_or_eq_of_le (hfair hsome).1 with hlt | heq
      · exact (keyCmp_number hsome hlt _ _).symm
      · refine (keyCmp_spelling heq (fun hzero => hne ?_) (by simp [hlen]) _ _).symm
        have hleft := value_eq_zero (List.forall_mem_append.mpr ⟨hr, hm⟩) (heq.trans hzero) c (by simp)
        have hright := value_eq_zero (List.forall_mem_append.mpr ⟨hr, hn⟩) hzero d (by simp)
        rw [hleft, hright]

omit hr in
/-- The numbers are of one length. -/
theorem strverscmp_level (hlen : m.length = n.length)
    (hhead : (m ++ s).headD 0 = (n ++ t).headD 0 → (m ++ s).headD 0 = 0) :
    strverscmp (m ++ s) (n ++ t) =
      keyCmp (numberKey (r ++ m) ++ keyFrom [] s) (numberKey (r ++ n) ++ keyFrom [] t) := by
  cases m with
  | nil =>
      obtain rfl := List.length_eq_zero_iff.mp hlen.symm
      rw [keyCmp_append]
      exact strverscmp_behind hs ht hhead
  | cons c m =>
      cases n with
      | nil => cases hlen
      | cons d n =>
          have hc := hm c List.mem_cons_self
          have hd := hn d List.mem_cons_self
          have hm' : ∀ e ∈ m, isDigit e = true := fun e he => hm e (List.mem_cons_of_mem _ he)
          have hn' : ∀ e ∈ n, isDigit e = true := fun e he => hn e (List.mem_cons_of_mem _ he)
          have hlen' : m.length = n.length := Nat.succ.inj hlen
          have hne : c ≠ d := digit_ne hc hhead
          rw [strverscmp_digits hc hd hne hm' hn' hs ht, if_neg (by omega), if_neg (by omega)]
          rcases UInt8.lt_or_lt_of_ne hne with hlt | hlt
          · rw [keyCmp_number (by simp) (value_lt_value hlen' hm' hc hd hlt)]
            exact Std.compare_eq_lt.mpr hlt
          · rw [keyCmp_swap, keyCmp_number (by simp) (value_lt_value hlen'.symm hn' hd hc hlt)]
            exact Std.compare_eq_gt.mpr hlt

end

/-! ### The first difference -/

/-- Two strings, up to their first difference. -/
theorem exists_difference (x : Str) : ∀ y : Str,
    ∃ w x' y', x = w ++ x' ∧ y = w ++ y' ∧ 0 ∉ w ∧ (x'.headD 0 = y'.headD 0 → x'.headD 0 = 0) := by
  induction x with
  | nil => exact fun y => ⟨[], [], y, rfl, rfl, List.not_mem_nil, fun _ => rfl⟩
  | cons c x ih =>
      intro y
      by_cases hhead : c = y.headD 0 ∧ c ≠ 0
      · cases y with
        | nil => exact absurd hhead.1 hhead.2
        | cons d y =>
            obtain rfl : c = d := hhead.1
            obtain ⟨w, x', y', rfl, rfl, hw, h⟩ := ih y
            refine ⟨c :: w, x', y', rfl, rfl, ?_, h⟩
            rw [List.mem_cons, not_or]
            exact ⟨Ne.symm hhead.2, hw⟩
      · refine ⟨[], c :: x, y, rfl, rfl, List.not_mem_nil, fun heq => ?_⟩
        exact not_not.mp fun hne => hhead ⟨heq, hne⟩

/-- A string, up to the digits it ends with. -/
theorem exists_tail (w : Str) :
    ∃ p r, w = p ++ r ∧ (∀ c ∈ r, isDigit c = true) ∧ ∀ c ∈ p.getLast?, isDigit c = false := by
  induction w using List.reverseRecOn with
  | nil =>
      refine ⟨[], [], rfl, List.forall_mem_nil _, ?_⟩
      intro c hc
      cases hc
  | append_singleton w c ih =>
      by_cases hc : isDigit c = true
      · obtain ⟨p, r, rfl, hr, hp⟩ := ih
        refine ⟨p, r ++ [c], (List.append_assoc ..).symm ▸ rfl, ?_, hp⟩
        exact List.forall_mem_append.mpr ⟨hr, List.forall_mem_singleton.mpr hc⟩
      · refine ⟨w ++ [c], [], (List.append_nil _).symm, List.forall_mem_nil _, ?_⟩
        intro d hd
        rw [List.getLast?_concat] at hd
        cases hd
        exact Bool.not_eq_true _ |>.mp hc

/-- A string, from behind the digits it starts with. -/
theorem exists_digits (x : Str) : ∃ m s, x = m ++ s ∧ (∀ c ∈ m, isDigit c = true) ∧ Ended s := by
  induction x with
  | nil => exact ⟨[], [], rfl, List.forall_mem_nil _, ended_nil⟩
  | cons c x ih =>
      by_cases hc : isDigit c = true
      · obtain ⟨m, s, rfl, hm, hs⟩ := ih
        exact ⟨c :: m, s, rfl, List.forall_mem_cons.mpr ⟨hc, hm⟩, hs⟩
      · exact ⟨[], c :: x, rfl, List.forall_mem_nil _, ended_cons hc⟩

theorem strverscmp_eq_keyCmp {x y : Str} (hxy : LongerTells x y) (hyx : LongerTells y x) :
    strverscmp x y = keyCmp (keyFrom [] x) (keyFrom [] y) := by
  obtain ⟨w, x', y', rfl, rfl, hw, hhead⟩ := exists_difference x y
  obtain ⟨p, r, rfl, hr, hp⟩ := exists_tail w
  obtain ⟨m, s, rfl, hm, hs⟩ := exists_digits x'
  obtain ⟨n, t, rfl, hn, ht⟩ := exists_digits y'
  have hzero : 0 ∉ p := fun h => hw (List.mem_append_left _ h)
  have hkeys : keyCmp (keyFrom [] (p ++ r ++ (m ++ s))) (keyFrom [] (p ++ r ++ (n ++ t))) =
      keyCmp (numberKey (r ++ m) ++ keyFrom [] s) (numberKey (r ++ n) ++ keyFrom [] t) := by
    have hrest {m s : Str} (hm : ∀ c ∈ m, isDigit c = true) (hs : Ended s) :
        keyFrom [] (r ++ (m ++ s)) = numberKey (r ++ m) ++ keyFrom [] s := by
      rw [keyFrom_digits hr, keyFrom_digits hm, List.nil_append, keyFrom_ended hs]
    rw [List.append_assoc, List.append_assoc]
    by_cases hempty : p = []
    · rw [hempty, List.nil_append, List.nil_append, hrest hm hs, hrest hn ht]
    · obtain ⟨k, hk⟩ := keyFrom_front p [] hempty hzero hp
      rw [hk, hk, keyCmp_append, hrest hm hs, hrest hn ht]
  have hat (hsome : r ++ m ≠ []) (hsome' : r ++ n ≠ []) :
      AgreeUpTo (p ++ r ++ (m ++ s)) (p ++ r ++ (n ++ t)) p (r ++ m) (r ++ n) s t := by
    constructor
    · simp
    · simp
    · exact hzero
    · exact hp
    · exact ⟨hsome, List.forall_mem_append.mpr ⟨hr, hm⟩⟩
    · exact ⟨hsome', List.forall_mem_append.mpr ⟨hr, hn⟩⟩
    · exact hs
    · exact ht
  rw [hkeys, strverscmp_append hw]
  have hsome {m n : Str} (hlen : m.length < n.length) : r ++ n ≠ [] := by
    rw [Ne, List.append_eq_nil_iff]
    rintro ⟨-, rfl⟩
    exact Nat.not_lt_zero _ hlen
  rcases Nat.lt_trichotomy m.length n.length with hlen | hlen | hlen
  · refine strverscmp_shorter hr hm hn hs ht hlen hhead fun hne => ?_
    obtain ⟨hle, hbehind⟩ := hxy _ _ _ _ _ (hat hne (hsome hlen)) (by simpa using hlen)
    refine ⟨hle, fun hempty => hbehind ?_⟩
    rw [hempty, List.append_nil]
    exact List.prefix_append r n
  · exact strverscmp_level hm hn hs ht hlen hhead
  · rw [strverscmp_swap (n ++ t), keyCmp_swap (numberKey (r ++ n) ++ keyFrom [] t)]
    refine congrArg Ordering.swap (strverscmp_shorter hr hn hm ht hs hlen
      (fun h => h.trans (hhead h.symm)) fun hne => ?_)
    obtain ⟨hle, hbehind⟩ := hyx _ _ _ _ _ (hat (hsome hlen) hne).symm (by simpa using hlen)
    refine ⟨hle, fun hempty => hbehind ?_⟩
    rw [hempty, List.append_nil]
    exact List.prefix_append r m

/-- **Versions that are told apart fairly compare as their keys do.** -/
theorem versionCmp_eq_keyCmp {a b : Str} (h : Fair a b) :
    versionCmp a b = keyCmp (key a) (key b) :=
  strverscmp_eq_keyCmp h.1 h.2

/-! ### Upgrades -/

/-- The guard lets a version replace the running one. -/
def Accepts (running target : Str) : Prop := versionCmp target running ≠ .lt

instance (running target : Str) : Decidable (Accepts running target) :=
  inferInstanceAs (Decidable (_ ≠ _))

/-- What an order of versions has to be: the same both ways round, transitive, and by the values
of the numbers. -/
structure Ordered (a b c : Str) : Prop where
  swap : versionCmp b a = (versionCmp a b).swap
  trans : versionCmp a b ≠ .gt → versionCmp b c ≠ .gt → versionCmp a c ≠ .gt
  byValue : ByValue a b ∧ ByValue b c ∧ ByValue a c

/-- A hub's upgrade passes the guard. -/
theorem accepts_of_localCheck {m : Machine} {target variant minFrom : Str}
    (h : hubLocalCheck m target variant minFrom = .ok ()) : Accepts botVersion target := by
  intro hlt
  unfold hubLocalCheck at h
  rw [if_pos hlt] at h
  split at h <;> cases h

theorem keyCmp_trans {k l j : List Nat} (h : keyCmp k l ≠ .gt) (h' : keyCmp l j ≠ .gt) :
    keyCmp k j ≠ .gt :=
  Ordering.ne_gt_iff_isLE.mpr
    (Std.TransCmp.isLE_trans (Ordering.ne_gt_iff_isLE.mp h) (Ordering.ne_gt_iff_isLE.mp h'))

/-- **Three versions are in order** exactly when each two of them are told apart fairly. -/
theorem ordered_iff {a b c : Str} : Ordered a b c ↔ Fair a b ∧ Fair b c ∧ Fair a c := by
  constructor
  · rintro ⟨-, -, hab, hbc, hac⟩
    exact ⟨byValue_iff.mp hab, byValue_iff.mp hbc, byValue_iff.mp hac⟩
  · rintro ⟨hab, hbc, hac⟩
    refine ⟨versionCmp_swap a b, ?_, byValue_iff.mpr hab, byValue_iff.mpr hbc, byValue_iff.mpr hac⟩
    rw [versionCmp_eq_keyCmp hab, versionCmp_eq_keyCmp hbc, versionCmp_eq_keyCmp hac]
    exact keyCmp_trans

theorem Accepts.keyCmp {v w : Str} (h : Accepts v w) (hfair : Fair v w) :
    keyCmp (key v) (key w) ≠ .gt := by
  rw [← versionCmp_eq_keyCmp hfair]
  intro hgt
  refine h ?_
  rw [versionCmp_swap v w, hgt]
  rfl

/-- Along accepted upgrades the key does not get smaller. -/
theorem keyCmp_of_chain (vs : List Str) : ∀ v, (v :: vs).IsChain Accepts → (v :: vs).Pairwise Fair →
    ∀ u ∈ vs, keyCmp (key v) (key u) ≠ .gt := by
  induction vs with
  | nil => exact fun v _ _ u hu => nomatch hu
  | cons w ws ih =>
      intro v hchain hfair u hu
      obtain ⟨hv, hrest⟩ := List.isChain_cons_cons.mp hchain
      obtain ⟨hfirst, hfair'⟩ := List.pairwise_cons.mp hfair
      have hvw := hv.keyCmp (hfirst w List.mem_cons_self)
      rcases List.mem_cons.mp hu with rfl | hu
      · exact hvw
      · exact keyCmp_trans hvw (ih w hrest hfair' u hu)

/-- `version_cmp` orders versions, and its guard keeps upgrades from leading back, as long as
the length of a number and the byte behind it tell the greater of any two. -/
theorem versions_ordered (a b c v : Str) (vs : List Str) :
    (Ordered a b c ↔ Fair a b ∧ Fair b c ∧ Fair a c) ∧
      ((v :: vs).IsChain Accepts → (v :: vs).Pairwise Fair → ∀ u ∈ vs, versionCmp u v ≠ .lt) := by
  refine ⟨ordered_iff, fun hchain hfair u hu hlt => ?_⟩
  refine keyCmp_of_chain vs v hchain hfair u hu ?_
  rw [← versionCmp_eq_keyCmp ((List.pairwise_cons.mp hfair).1 u hu), versionCmp_swap u v, hlt]
  rfl

/-! ### Versions of the usual form -/

/-- No number starts with a zero, but for the number zero; `inside` a number if digits come
before. -/
def noLeadingZeros (inside : Bool) : Str → Bool
  | c :: d :: s =>
      (inside || c != byte '0' || !isDigit d) && noLeadingZeros (isDigit c) (d :: s)
  | _ => true

theorem noLeadingZeros_number {p : Str} {c d : UInt8} {s : Str} : ∀ {inside : Bool},
    noLeadingZeros inside (p ++ c :: d :: s) = true → (p = [] → inside = false) →
      (∀ e ∈ p.getLast?, isDigit e = false) → isDigit d = true → c ≠ byte '0' := by
  induction p with
  | nil =>
      intro inside h hfirst _ hd
      rw [List.nil_append, noLeadingZeros, hfirst rfl, hd] at h
      simpa using (Bool.and_eq_true_iff.mp h).1
  | cons e p ih =>
      intro inside h _ hwhole hd
      have hrest : noLeadingZeros (isDigit e) (p ++ c :: d :: s) = true := by
        cases p with
        | nil => exact (Bool.and_eq_true_iff.mp h).2
        | cons e' p => exact (Bool.and_eq_true_iff.mp h).2
      refine ih hrest ?_ (fun e' he' => hwhole e' ?_) hd
      · rintro rfl
        exact hwhole e rfl
      · cases p with
        | nil => cases he'
        | cons e'' p => rwa [List.getLast?_cons_cons]

/-- The number with more digits is the greater one, if it does not start with a zero. -/
theorem value_lt_of_length {m n : Str} {c : UInt8} (hm : ∀ e ∈ m, isDigit e = true)
    (hc : isDigit c = true) (hzero : c ≠ byte '0') (hlen : m.length < (c :: n).length) :
    value m < value (c :: n) := by
  have hlt : byte '0' < c := UInt8.lt_of_le_of_ne (isDigit_iff.mp hc).1 hzero.symm
  have hpos : 0 < (c - 48).toNat := digit_lt_digit (by decide) hc hlt
  calc
    value m < 10 ^ m.length := value_lt hm
    _ ≤ 10 ^ n.length := Nat.pow_le_pow_right (by decide) (Nat.lt_succ_iff.mp hlen)
    _ ≤ (c - 48).toNat * 10 ^ n.length := Nat.le_mul_of_pos_left _ hpos
    _ ≤ value (c :: n) := by
        rw [value_cons]
        exact Nat.le_add_right _ _

/-- Numbers without leading zeros, with nothing behind them that sorts above the digits. -/
theorem longerTells_of_plain {x y : Str} (hx : ∀ c ∈ x, c ≤ byte '9')
    (hy : noLeadingZeros false y = true) : LongerTells x y := by
  intro p m n s t hat hlen
  refine ⟨?_, fun _ _ ⟨c, hc, habove⟩ => ?_⟩
  · obtain ⟨c, n, rfl⟩ := List.exists_cons_of_ne_nil hat.numberRight.ne_nil
    have hdigits := hat.numberRight.digits
    cases n with
    | nil =>
        -- a number of one digit is not the longer one
        have hnone := List.length_eq_zero_iff.mp (Nat.lt_one_iff.mp hlen)
        exact absurd hnone hat.numberLeft.ne_nil
    | cons d n =>
        have hright := hat.right
        rw [List.cons_append, List.cons_append] at hright
        rw [hright] at hy
        have hzero := noLeadingZeros_number hy (fun _ => rfl) hat.whole (hdigits d (by simp))
        exact (value_lt_of_length hat.numberLeft.digits (hdigits c (by simp)) hzero hlen).le
  · have hmem : c ∈ x := by
      rw [hat.left]
      exact List.mem_append_right _ (List.mem_append_right _ (List.mem_of_head? hc))
    exact UInt8.not_lt.mpr (hx c hmem) habove

/-- Versions such as `2.10.3`. -/
def Plain (v : Str) : Prop :=
  (∀ c ∈ stripV v, c ≤ byte '9') ∧ noLeadingZeros false (stripV v) = true

instance (v : Str) : Decidable (Plain v) := inferInstanceAs (Decidable (_ ∧ _))

theorem fair_of_plain {a b : Str} (ha : Plain a) (hb : Plain b) : Fair a b :=
  ⟨longerTells_of_plain ha.1 hb.2, longerTells_of_plain hb.1 ha.2⟩

theorem versions_ordered_forward :
    ∀ u ∈ [str "v2.4.17", str "2.10.3", str "2.10.12"], versionCmp u (str "2.4.8") ≠ .lt := by
  refine (versions_ordered [] [] [] (str "2.4.8") [str "v2.4.17", str "2.10.3", str "2.10.12"]).2 ?_ ?_
  · exact .cons_cons (by decide) (.cons_cons (by decide) (.cons_cons (by decide) (.singleton _)))
  · have hplain : ∀ v ∈ [str "2.4.8", str "v2.4.17", str "2.10.3", str "2.10.12"], Plain v := by
      decide +kernel
    exact List.pairwise_of_forall_mem_list fun a ha b hb => fair_of_plain (hplain a ha) (hplain b hb)

/-- **Versions can go round in a circle**: through `2.1b` the guard lets `2.2` replace `2.10`. -/
theorem not_ordered :
    (¬ ∀ a b c : Str, Ordered a b c) ∧
      [str "2.10", str "2.1b", str "2.2"].IsChain Accepts ∧
        versionCmp (str "2.2") (str "2.10") = .lt := by
  refine ⟨fun h => ?_, ?_, by decide⟩
  · exact (h (str "2.10") (str "2.1b") (str "2.2")).trans (by decide) (by decide) (by decide)
  · exact .cons_cons (by decide) (.cons_cons (by decide) (.singleton _))

end IrcBot.Versions
