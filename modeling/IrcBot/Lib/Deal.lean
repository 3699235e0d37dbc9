/-
# Dealing jobs by position in a common order

Several parties sort the same set by the same total order, each starting from
its own listing of it, and each takes the position of its own element; a job
then rotates the positions. The rules here say that they agree:

* `insertionSort_eq_of_perm` — the order of the listing does not matter.
* `rposition_eq_some` — the position found from the right is the position of the
  only element that satisfies the test.
* `dealt_bijOn` — the rotated positions are `0, …, n - 1`, each taken once.
-/
import Mathlib.Data.List.Sort
import Mathlib.Data.Set.Card
import Mathlib.Order.Interval.Finset.Nat

namespace IrcBot.Lib.Deal

variable {α : Type*}

/-- Index of the last element that satisfies `p`. -/
def rposition (p : α → Bool) : List α → Option Nat
  | [] => none
  | x :: l =>
      match rposition p l with
      | some i => some (i + 1)
      | none => if p x then some 0 else none

/-- The place of position `pos` among `n` when job `job` starts at `job % n`. -/
def dealt (n pos job : Nat) : Nat := (pos + n - job % n) % n

theorem rposition_eq_none {p : α → Bool} {l : List α} (h : ∀ x ∈ l, p x = false) :
    rposition p l = none := by
  induction l with
  | nil => rfl
  | cons x l ih =>
      simp only [List.mem_cons, forall_eq_or_imp] at h
      simp [rposition, ih h.2, h.1]

/-- With one element that satisfies the test, its position is the one found. -/
theorem rposition_eq_some {p : α → Bool} {l : List α} {i : Nat} {x : α} (hx : l[i]? = some x)
    (hp : p x = true) (hnodup : l.Nodup) (hunique : ∀ y ∈ l, p y = true → y = x) :
    rposition p l = some i := by
  induction l generalizing i with
  | nil => simp at hx
  | cons y l ih =>
      simp only [List.nodup_cons, List.mem_cons, forall_eq_or_imp] at hnodup hunique
      cases i with
      | zero =>
          obtain rfl : y = x := by simpa using hx
          have hrest : ∀ z ∈ l, p z = false := by
            intro z hz
            by_contra hpz
            exact hnodup.1 (hunique.2 z hz (by simpa using hpz) ▸ hz)
          simp [rposition, rposition_eq_none hrest, hp]
      | succ i =>
          have := ih (by simpa using hx) hnodup.2 hunique.2
          simp [rposition, this]

section Sorted

variable (r : α → α → Prop) [DecidableRel r] [Std.Total r] [IsTrans α r] [Std.Antisymm r]

/-- Two listings of one set are sorted into one list. -/
theorem insertionSort_eq_of_perm {l₁ l₂ : List α} (h : l₁.Perm l₂) :
    l₁.insertionSort r = l₂.insertionSort r :=
  List.Perm.eq_of_pairwise' (List.pairwise_insertionSort r l₁) (List.pairwise_insertionSort r l₂)
    ((List.perm_insertionSort r l₁).trans (h.trans (List.perm_insertionSort r l₂).symm))

end Sorted

/-! ### Rotated positions -/

theorem dealt_lt {n pos job : Nat} (hpos : pos < n) : dealt n pos job < n :=
  Nat.mod_lt _ (by omega)

/-- A rotation keeps positions apart. -/
theorem dealt_injOn (n job : Nat) : Set.InjOn (fun pos => dealt n pos job) (Set.Iio n) := by
  intro p hp q hq h
  simp only [Set.mem_Iio, dealt] at hp hq h
  have hjob : job % n < n := Nat.mod_lt _ (by omega)
  have hmod : ∀ k, k < n → (k + n - job % n) % n =
      if job % n ≤ k then k - job % n else k + n - job % n := by
    intro k hk
    split
    · rw [show k + n - job % n = k - job % n + n by omega, Nat.add_mod_right,
        Nat.mod_eq_of_lt (by omega)]
    · exact Nat.mod_eq_of_lt (by omega)
  rw [hmod p hp, hmod q hq] at h
  split at h <;> split at h <;> omega

/-- **The deal is fair**: `n` parties at different positions of a list of length
`n` take the rotated places `0, …, n - 1`, each once. -/
theorem dealt_bijOn {ι : Type*} [Finite ι] {l : List α} {f : ι → α} {pos : ι → Nat}
    (hcard : Nat.card ι = l.length) (hf : Function.Injective f)
    (hpos : ∀ i, l[pos i]? = some (f i)) (job : Nat) :
    Set.BijOn (fun i => dealt l.length (pos i) job) Set.univ (Set.Iio l.length) := by
  have hlt : ∀ i, pos i < l.length := fun i => (List.getElem?_eq_some_iff.mp (hpos i)).1
  have hmaps : Set.MapsTo (fun i => dealt l.length (pos i) job) Set.univ (Set.Iio l.length) :=
    fun i _ => dealt_lt (hlt i)
  have hinj : Set.InjOn (fun i => dealt l.length (pos i) job) Set.univ := by
    intro i _ j _ h
    have hij : pos i = pos j := dealt_injOn l.length job (hlt i) (hlt j) h
    have hfij : some (f i) = some (f j) := by rw [← hpos i, ← hpos j, hij]
    exact hf (Option.some.inj hfij)
  refine ⟨hmaps, hinj, ?_⟩
  have hsub : (fun i => dealt l.length (pos i) job) '' Set.univ ⊆ Set.Iio l.length :=
    Set.image_subset_iff.mpr hmaps
  have heq := Set.eq_of_subset_of_ncard_le hsub (by
    rw [hinj.ncard_image, Set.ncard_univ, hcard, Set.ncard_eq_toFinset_card']
    simp) (Set.finite_Iio _)
  exact heq.ge

end IrcBot.Lib.Deal
