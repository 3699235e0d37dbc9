/-
# Last-writer-wins registers

A register keeps a level and a value. A write carries a level and, perhaps, a
value; it is taken if its level is above the register's, and one that is taken
without a value leaves the old value there. A register that does not exist yet is
opened by the writes of some levels only, and misses the others.

* `run_eq_of_settled`, `settled_of_perm` — the same writes in any order, with any
  repetitions, end in the same register exactly if the register is `Settled`.
* `fill_eq_of_settledNew`, `settledNew_of_perm` — the same for a register that has
  to be opened first.
* `newest_comm`, `newest_assoc`, `newest_idem`, `run_eq_of_injective` — where the level
  tells records apart, keeping the newer of two is a join.
-/
import Mathlib.Order.Lattice
import Mathlib.Order.Defs.LinearOrder
import Mathlib.Data.List.Perm.Basic
import Mathlib.Tactic.Common

namespace IrcBot.Lib.LastWriter

variable {α κ β : Type*} [LinearOrder κ]

/-- What a write `α` carries. -/
structure Writes (α κ β : Type*) where
  level : α → κ
  value : α → Option β

@[ext] structure Register (κ β : Type*) where
  level : κ
  value : β
deriving DecidableEq

namespace Writes

variable (W : Writes α κ β)

/-- One write. -/
def write (c : Register κ β) (x : α) : Register κ β :=
  if c.level < W.level x then ⟨W.level x, (W.value x).getD c.value⟩ else c

def run (c : Register κ β) (xs : List α) : Register κ β := xs.foldl W.write c

/-- No write of `xs` is above `w`. -/
def Top (xs : List α) (w : α) : Prop := w ∈ xs ∧ ∀ x ∈ xs, W.level x ≤ W.level w

/-- A write that ends up in the register when it comes first. -/
def Winner (c : Register κ β) (xs : List α) (w : α) : Prop :=
  W.Top xs w ∧ c.level < W.level w

/-- The winners agree on a value, or nothing that can be taken changes it. -/
def Settled (c : Register κ β) (xs : List α) : Prop :=
  (∃ v, ∀ w, W.Winner c xs w → W.value w = some v) ∨
    ∀ x ∈ xs, c.level < W.level x → (W.value x).getD c.value = c.value

section

variable {W} {c : Register κ β} {xs ys : List α} {w x : α}

theorem write_of_lt (h : c.level < W.level x) :
    W.write c x = ⟨W.level x, (W.value x).getD c.value⟩ := if_pos h

theorem write_of_le (h : W.level x ≤ c.level) : W.write c x = c := if_neg (not_lt.mpr h)

@[simp] theorem run_nil : W.run c [] = c := rfl

@[simp] theorem run_cons : W.run c (x :: xs) = W.run (W.write c x) xs := rfl

/-- Writes at or below the register change nothing. -/
theorem run_eq_self (h : ∀ x ∈ xs, W.level x ≤ c.level) : W.run c xs = c := by
  induction xs with
  | nil => rfl
  | cons x xs ih =>
      simp only [List.mem_cons, forall_eq_or_imp] at h
      rw [run_cons, write_of_le h.1, ih h.2]

/-- Among some writes one is on top. -/
theorem exists_top (W : Writes α κ β) (h : xs ≠ []) : ∃ w, W.Top xs w := by
  induction xs with
  | nil => exact absurd rfl h
  | cons x xs ih =>
      by_cases hxs : xs = []
      · refine ⟨x, List.mem_cons_self, fun y hy => ?_⟩
        rw [hxs] at hy
        obtain rfl : y = x := by simpa using hy
        exact le_rfl
      · obtain ⟨w, hw, hall⟩ := ih hxs
        rcases le_total (W.level x) (W.level w) with hle | hle
        · refine ⟨w, List.mem_cons_of_mem _ hw, fun y hy => ?_⟩
          rcases List.mem_cons.mp hy with rfl | hy
          · exact hle
          · exact hall y hy
        · refine ⟨x, List.mem_cons_self, fun y hy => ?_⟩
          rcases List.mem_cons.mp hy with rfl | hy
          · exact le_rfl
          · exact (hall y hy).trans hle

/-- Either a write wins, or none is taken. -/
theorem winner_or_le (W : Writes α κ β) (c : Register κ β) (xs : List α) :
    (∃ w, W.Winner c xs w) ∨ ∀ x ∈ xs, W.level x ≤ c.level := by
  by_cases hxs : xs = []
  · exact .inr (by simp [hxs])
  · obtain ⟨w, htop⟩ := W.exists_top hxs
    rcases lt_or_ge c.level (W.level w) with hlt | hle
    · exact .inl ⟨w, htop, hlt⟩
    · exact .inr fun x hx => (htop.2 x hx).trans hle

theorem winner_congr (hmem : ∀ x, x ∈ ys ↔ x ∈ xs) : W.Winner c ys w ↔ W.Winner c xs w := by
  simp only [Winner, Top, hmem]

theorem level_le_write (W : Writes α κ β) (c : Register κ β) (x : α) :
    c.level ≤ (W.write c x).level := by
  unfold write
  split
  · exact le_of_lt ‹_›
  · exact le_rfl

/-- The first of some writes either stays below a winner, or is one. -/
theorem Winner.cons_cases (hw : W.Winner c (x :: xs) w) :
    W.Winner (W.write c x) xs w ∨
      W.Winner c (x :: xs) x ∧ W.level x = W.level w ∧
        W.run c (x :: xs) = ⟨W.level w, (W.value x).getD c.value⟩ := by
  have hmem : ∀ y ∈ xs, W.level y ≤ W.level w := fun y hy => hw.1.2 y (List.mem_cons_of_mem _ hy)
  have hx : W.level x ≤ W.level w := hw.1.2 x List.mem_cons_self
  rcases hx.lt_or_eq with hlt | heq
  · have hin : w ∈ xs := by
      rcases List.mem_cons.mp hw.1.1 with rfl | hin
      · exact absurd hlt (lt_irrefl _)
      · exact hin
    refine .inl ⟨⟨hin, hmem⟩, ?_⟩
    unfold write
    split
    · exact hlt
    · exact hw.2
  · refine .inr ⟨⟨⟨List.mem_cons_self, fun y hy => (hw.1.2 y hy).trans heq.ge⟩, heq ▸ hw.2⟩, heq, ?_⟩
    rw [run_cons, write_of_lt (heq ▸ hw.2), run_eq_self fun y hy => (hmem y hy).trans heq.ge, heq]

theorem level_run_of_winner (hw : W.Winner c xs w) : (W.run c xs).level = W.level w := by
  induction xs generalizing c with
  | nil => exact absurd hw.1.1 List.not_mem_nil
  | cons x xs ih =>
      rcases hw.cons_cases with htail | ⟨-, -, hrun⟩
      · exact ih htail
      · rw [hrun]

/-- The winners' value is what is left, if they agree on one. -/
theorem value_run_of_winner {v : β} (hw : W.Winner c xs w)
    (hagree : ∀ w, W.Winner c xs w → W.value w = some v) : (W.run c xs).value = v := by
  induction xs generalizing c with
  | nil => exact absurd hw.1.1 List.not_mem_nil
  | cons x xs ih =>
      rcases hw.cons_cases with htail | ⟨hx, -, hrun⟩
      · -- a later winner is also one from the register in front of `x`
        refine ih htail fun u hu => hagree u ⟨⟨List.mem_cons_of_mem _ hu.1.1, fun y hy => ?_⟩, ?_⟩
        · exact (hw.1.2 y hy).trans (hu.1.2 w htail.1.1)
        · exact (W.level_le_write c x).trans_lt hu.2
      · rw [hrun, hagree x hx]
        rfl

/-- A value that no taken write changes stays. -/
theorem value_run (h : ∀ x ∈ xs, c.level < W.level x → (W.value x).getD c.value = c.value) :
    (W.run c xs).value = c.value := by
  induction xs generalizing c with
  | nil => rfl
  | cons x xs ih =>
      simp only [List.mem_cons, forall_eq_or_imp] at h
      rw [run_cons]
      rcases lt_or_ge c.level (W.level x) with hlt | hle
      · have hvalue : (W.write c x).value = c.value := by
          rw [write_of_lt hlt]
          exact h.1 hlt
        rw [ih fun y hy hy' => ?_, hvalue]
        rw [hvalue]
        rw [write_of_lt hlt] at hy'
        exact h.2 y hy (hlt.trans hy')
      · rw [write_of_le hle]
        exact ih h.2

/-! ### When the order does not matter -/

/-- **A settled register is the same after the same writes**, in any order and with
any repetitions. -/
theorem run_eq_of_settled (h : W.Settled c xs) (hmem : ∀ x, x ∈ ys ↔ x ∈ xs) :
    W.run c ys = W.run c xs := by
  rcases W.winner_or_le c xs with ⟨w, hw⟩ | hle
  · have hw' := (winner_congr hmem).mpr hw
    have hlevel := (level_run_of_winner hw').trans (level_run_of_winner hw).symm
    have hvalue : (W.run c ys).value = (W.run c xs).value := by
      rcases h with ⟨v, hagree⟩ | hkeep
      · rw [value_run_of_winner hw hagree,
          value_run_of_winner hw' fun u hu => hagree u ((winner_congr hmem).mp hu)]
      · rw [value_run hkeep, value_run fun x hx => hkeep x ((hmem x).mp hx)]
    exact Register.ext hlevel hvalue
  · rw [run_eq_self hle, run_eq_self fun x hx => hle x ((hmem x).mp hx)]

/-- A winner that comes first stays. -/
theorem run_cons_winner (hw : W.Winner c xs w) (hsub : ys ⊆ xs) :
    W.run c (w :: ys) = ⟨W.level w, (W.value w).getD c.value⟩ := by
  rw [run_cons, write_of_lt hw.2, run_eq_self]
  exact fun y hy => hw.1.2 y (hsub hy)

/-- A write that is taken, then a winner. -/
theorem run_cons_cons_winner (hw : W.Winner c xs w) (hx : c.level < W.level x)
    (hlt : W.level x < W.level w) (hsub : ys ⊆ xs) :
    W.run c (x :: w :: ys) = ⟨W.level w, (W.value w).getD ((W.value x).getD c.value)⟩ := by
  rw [run_cons, run_cons, write_of_lt hx, write_of_lt hlt, run_eq_self]
  exact fun y hy => hw.1.2 y (hsub hy)

/-- Different elements can be moved to the front. -/
theorem exists_perm_append (front : List α) (hnodup : front.Nodup) (hsub : front ⊆ xs) :
    ∃ ys, (front ++ ys).Perm xs ∧ ys ⊆ xs := by
  obtain ⟨front', hfront, hsublist⟩ := List.subperm_of_subset hnodup hsub
  obtain ⟨ys, hys⟩ := hsublist.exists_perm_append
  exact ⟨ys, (hfront.symm.append_right ys).trans hys.symm,
    fun y hy => hys.symm.subset (List.mem_append_right _ hy)⟩

theorem exists_perm_cons (hx : x ∈ xs) : ∃ ys, (x :: ys).Perm xs ∧ ys ⊆ xs :=
  exists_perm_append [x] (by simp) (by simpa using hx)

theorem exists_perm_cons_cons (hx : x ∈ xs) (hw : w ∈ xs) (hlt : W.level x < W.level w) :
    ∃ ys, (x :: w :: ys).Perm xs ∧ ys ⊆ xs := by
  have hne : x ≠ w := fun heq => lt_irrefl _ (heq ▸ hlt)
  exact exists_perm_append [x, w] (by simp [hne]) (by simp [hx, hw])

/-- **A register that is the same in every order is settled.** -/
theorem settled_of_perm (h : ∀ ys : List α, ys.Perm xs → W.run c ys = W.run c xs) :
    W.Settled c xs := by
  by_cases hnone : ∃ w, W.Winner c xs w ∧ W.value w = none
  · -- a winner without a value: what it finds must be the old value
    obtain ⟨w, hw, hvalue⟩ := hnone
    obtain ⟨ys, hperm, hsub⟩ := exists_perm_cons hw.1.1
    have hfirst := h _ hperm
    rw [run_cons_winner hw hsub, hvalue, Option.getD_none] at hfirst
    refine .inr fun x hx hlt => ?_
    rcases (hw.1.2 x hx).lt_or_eq with hbelow | heq
    · obtain ⟨zs, hperm', hsub'⟩ := exists_perm_cons_cons hx hw.1.1 hbelow
      have hsecond := h _ hperm'
      rw [run_cons_cons_winner hw hlt hbelow hsub', hvalue, Option.getD_none, ← hfirst] at hsecond
      exact congrArg Register.value hsecond
    · obtain ⟨zs, hperm', hsub'⟩ := exists_perm_cons hx
      have hx' : W.Winner c xs x := ⟨⟨hx, fun y hy => (hw.1.2 y hy).trans heq.ge⟩, hlt⟩
      have hsecond := h _ hperm'
      rw [run_cons_winner hx' hsub', ← hfirst] at hsecond
      exact congrArg Register.value hsecond
  · rcases W.winner_or_le c xs with ⟨w, hw⟩ | hle
    · cases hvalue : W.value w with
      | none => exact absurd ⟨w, hw, hvalue⟩ hnone
      | some v =>
          refine .inl ⟨v, fun u hu => ?_⟩
          cases hvalue' : W.value u with
          | none => exact absurd ⟨u, hu, hvalue'⟩ hnone
          | some v' =>
              obtain ⟨ys, hperm, hsub⟩ := exists_perm_cons hw.1.1
              obtain ⟨zs, hperm', hsub'⟩ := exists_perm_cons hu.1.1
              have hsame := (h _ hperm').trans (h _ hperm).symm
              rw [run_cons_winner hw hsub, run_cons_winner hu hsub', hvalue, hvalue'] at hsame
              exact congrArg some (congrArg Register.value hsame)
    · exact .inl ⟨c.value, fun w hw => absurd (hle w hw.1.1) (not_le.mpr hw.2)⟩

/-- Where every write carries a value, the winners have to agree. -/
theorem settled_iff_of_total (htotal : ∀ x ∈ xs, (W.value x).isSome = true) :
    W.Settled c xs ↔ ∀ u w, W.Winner c xs u → W.Winner c xs w → W.value u = W.value w := by
  constructor
  · rintro (⟨v, hagree⟩ | hkeep) u w hu hw
    · rw [hagree u hu, hagree w hw]
    · have hvalue {u : α} (hu : W.Winner c xs u) : W.value u = some c.value := by
        obtain ⟨v, hv⟩ := Option.isSome_iff_exists.mp (htotal u hu.1.1)
        have hsame := hkeep u hu.1.1 hu.2
        rw [hv] at hsame ⊢
        exact congrArg some hsame
      rw [hvalue hu, hvalue hw]
  · intro hagree
    rcases W.winner_or_le c xs with ⟨w, hw⟩ | hle
    · obtain ⟨v, hv⟩ := Option.isSome_iff_exists.mp (htotal w hw.1.1)
      exact .inl ⟨v, fun u hu => (hagree u w hu hw).trans hv⟩
    · exact .inl ⟨c.value, fun w hw => absurd (hle w hw.1.1) (not_le.mpr hw.2)⟩

end

/-! ### Registers that have to be opened -/

section

variable (opens : κ → Bool) (init : β)

/-- A write to a register that may not exist yet. -/
def put : Option (Register κ β) → α → Option (Register κ β)
  | some c, x => some (W.write c x)
  | none, x => if opens (W.level x) then some ⟨W.level x, (W.value x).getD init⟩ else none

def fill (o : Option (Register κ β)) (xs : List α) : Option (Register κ β) :=
  xs.foldl (W.put opens init) o

/-- Nothing opens the register; or what is on top does, and either these writes agree
on a value or nothing that can be taken changes the initial one. -/
def SettledNew (xs : List α) : Prop :=
  (∀ x ∈ xs, opens (W.level x) = false) ∨
    (∀ w, W.Top xs w → opens (W.level w) = true) ∧
      ((∃ v, ∀ w, W.Top xs w → W.value w = some v) ∨
        ∀ x ∈ xs, (opens (W.level x) = true ∨
            ∃ a ∈ xs, opens (W.level a) = true ∧ W.level a < W.level x) →
          (W.value x).getD init = init)

end

section

variable {W} {opens : κ → Bool} {init : β} {c : Register κ β} {xs ys : List α} {w x a : α}

@[simp] theorem fill_some : W.fill opens init (some c) xs = some (W.run c xs) := by
  induction xs generalizing c with
  | nil => rfl
  | cons x xs ih => exact ih

theorem fill_cons_of_opens (h : opens (W.level x) = true) :
    W.fill opens init none (x :: xs) =
      some (W.run ⟨W.level x, (W.value x).getD init⟩ xs) := by
  rw [fill, List.foldl_cons, put, if_pos h]
  exact fill_some

theorem fill_append_of_closed (h : ∀ x ∈ xs, opens (W.level x) = false) :
    W.fill opens init none (xs ++ ys) = W.fill opens init none ys := by
  induction xs with
  | nil => rfl
  | cons x xs ih =>
      simp only [List.mem_cons, forall_eq_or_imp] at h
      rw [List.cons_append, fill, List.foldl_cons, put, if_neg (by simp [h.1])]
      exact ih h.2

/-- The first element that satisfies a test. -/
theorem exists_first {p : α → Bool} (hx : x ∈ xs) (hp : p x = true) :
    ∃ before a after, xs = before ++ a :: after ∧ p a = true ∧ ∀ y ∈ before, p y = false := by
  obtain ⟨a, hfind⟩ := Option.isSome_iff_exists.mp (List.find?_isSome.mpr ⟨x, hx, hp⟩)
  obtain ⟨ha, before, after, rfl, hbefore⟩ := List.find?_eq_some_iff_append.mp hfind
  exact ⟨before, a, after, rfl, ha, fun y hy => by simpa using hbefore y hy⟩

/-- What a new register holds in the end, when the writes on top open it. -/
theorem fill_eq_of_top (init : β) (hw : W.Top xs w) (hopens : opens (W.level w) = true) :
    ∃ v, W.fill opens init none xs = some ⟨W.level w, v⟩ ∧
      (∀ v', (∀ u, W.Top xs u → W.value u = some v') → v = v') ∧
      ((∀ x ∈ xs, (opens (W.level x) = true ∨
          ∃ a ∈ xs, opens (W.level a) = true ∧ W.level a < W.level x) →
        (W.value x).getD init = init) → v = init) := by
  obtain ⟨before, a, after, rfl, ha, hbefore⟩ :=
    exists_first (p := fun x => opens (W.level x)) hw.1 hopens
  rw [fill_append_of_closed hbefore, fill_cons_of_opens ha]
  have hain : a ∈ before ++ a :: after := by simp
  have hafter {y : α} (hy : y ∈ after) : y ∈ before ++ a :: after := by simp [hy]
  rcases (hw.2 a hain).lt_or_eq with hlt | heq
  · -- the register is opened below the top
    have hin : w ∈ after := by
      rcases List.mem_append.mp hw.1 with hin | hin
      · rw [hbefore w hin] at hopens
        exact absurd hopens (by decide)
      · rcases List.mem_cons.mp hin with rfl | hin
        · exact absurd hlt (lt_irrefl _)
        · exact hin
    have hwin : W.Winner ⟨W.level a, (W.value a).getD init⟩ after w :=
      ⟨⟨hin, fun y hy => hw.2 y (hafter hy)⟩, hlt⟩
    refine ⟨_, congrArg some (Register.ext (level_run_of_winner hwin) rfl), fun v' hagree => ?_,
      fun hkeep => ?_⟩
    · refine value_run_of_winner hwin fun u hu => hagree u ⟨hafter hu.1.1, fun y hy => ?_⟩
      exact (hw.2 y hy).trans (hu.1.2 w hin)
    · have hinit : (W.value a).getD init = init := hkeep a hain (.inl ha)
      refine (value_run fun x hx hlt => ?_).trans hinit
      dsimp only at hlt ⊢
      rw [hinit]
      exact hkeep x (hafter hx) (.inr ⟨a, hain, ha, hlt⟩)
  · have hrun : W.run ⟨W.level a, (W.value a).getD init⟩ after =
        ⟨W.level a, (W.value a).getD init⟩ :=
      run_eq_self fun y hy => (hw.2 y (hafter hy)).trans heq.ge
    refine ⟨_, by rw [hrun, heq], fun v' hagree => ?_, fun hkeep => hkeep a hain (.inl ha)⟩
    rw [hagree a ⟨hain, fun y hy => (hw.2 y hy).trans heq.ge⟩]
    rfl

/-- **A new register that is settled is the same after the same writes.** -/
theorem fill_eq_of_settledNew (h : W.SettledNew opens init xs) (hmem : ∀ x, x ∈ ys ↔ x ∈ xs) :
    W.fill opens init none ys = W.fill opens init none xs := by
  rcases h with hclosed | ⟨htop, hvalue⟩
  · have hnone {zs : List α} (hz : ∀ x ∈ zs, opens (W.level x) = false) :
        W.fill opens init none zs = none := by
      have happ : W.fill opens init none (zs ++ []) = W.fill opens init none [] :=
        fill_append_of_closed hz
      rwa [List.append_nil] at happ
    rw [hnone hclosed, hnone fun x hx => hclosed x ((hmem x).mp hx)]
  · by_cases hxs : xs = []
    · obtain rfl := hxs
      obtain rfl : ys = [] := List.eq_nil_iff_forall_not_mem.mpr fun y hy => by
        simpa using (hmem y).mp hy
      rfl
    · obtain ⟨w, hw⟩ := W.exists_top hxs
      have htops (u : α) : W.Top ys u ↔ W.Top xs u := by simp only [Top, hmem]
      obtain ⟨v, hrun, hagree, hkeep⟩ := fill_eq_of_top init hw (htop w hw)
      obtain ⟨v', hrun', hagree', hkeep'⟩ :=
        fill_eq_of_top init ((htops w).mpr hw) (htop w hw)
      have hsame : v' = v := by
        simp only [htops, hmem] at hagree' hkeep'
        rcases hvalue with ⟨v'', hv⟩ | hinit
        · rw [hagree v'' hv, hagree' v'' hv]
        · rw [hkeep hinit, hkeep' hinit]
      rw [hrun, hrun', hsame]

/-- A top write that opens the register and comes first stays. -/
theorem fill_cons_top (hw : W.Top xs w) (hopens : opens (W.level w) = true) (hsub : ys ⊆ xs) :
    W.fill opens init none (w :: ys) = some ⟨W.level w, (W.value w).getD init⟩ := by
  rw [fill_cons_of_opens hopens, run_eq_self]
  exact fun y hy => hw.2 y (hsub hy)

/-- **A new register that is the same in every order is settled.** -/
theorem settledNew_of_perm
    (h : ∀ ys : List α, ys.Perm xs → W.fill opens init none ys = W.fill opens init none xs) :
    W.SettledNew opens init xs := by
  by_cases hopen : ∃ a ∈ xs, opens (W.level a) = true
  · obtain ⟨a, ha, haopens⟩ := hopen
    have htop (w : α) (hw : W.Top xs w) : opens (W.level w) = true := by
      by_contra hclosed
      have hlt : W.level a < W.level w := (hw.2 a ha).lt_of_ne fun heq => by
        rw [heq] at haopens
        exact hclosed haopens
      -- opened first, the register ends at the top; opened last, it does not
      obtain ⟨ys, hperm, hsub⟩ := exists_perm_cons_cons ha hw.1 hlt
      have hfirst := h _ hperm
      rw [fill_cons_of_opens haopens, run_cons, write_of_lt hlt,
        run_eq_self fun y hy => hw.2 y (hsub hy)] at hfirst
      have hlast := h _ (List.filter_append_perm (fun x => !opens (W.level x)) xs)
      rw [fill_append_of_closed fun x hx => by simpa using (List.mem_filter.mp hx).2] at hlast
      simp only [Bool.not_not] at hlast
      have hne : xs.filter (fun x => opens (W.level x)) ≠ [] :=
        List.ne_nil_of_mem (List.mem_filter.mpr ⟨ha, haopens⟩)
      obtain ⟨u, hu⟩ := W.exists_top hne
      have huopens : opens (W.level u) = true := by simpa using (List.mem_filter.mp hu.1).2
      obtain ⟨v, hrun, -, -⟩ := fill_eq_of_top init hu huopens
      rw [hrun, ← hfirst, Option.some.injEq, Register.mk.injEq] at hlast
      rw [hlast.1] at huopens
      exact hclosed huopens
    refine .inr ⟨htop, ?_⟩
    by_cases hnone : ∃ w, W.Top xs w ∧ W.value w = none
    · obtain ⟨w, hw, hvalue⟩ := hnone
      obtain ⟨ys, hperm, hsub⟩ := exists_perm_cons hw.1
      have hfirst := h _ hperm
      rw [fill_cons_top hw (htop w hw) hsub, hvalue, Option.getD_none] at hfirst
      refine .inr fun x hx hreach => ?_
      rcases (hw.2 x hx).lt_or_eq with hbelow | heq
      · rcases hreach with hxopens | ⟨a', ha', haopens', hax⟩
        · obtain ⟨zs, hperm', hsub'⟩ := exists_perm_cons_cons hx hw.1 hbelow
          have hsecond := h _ hperm'
          rw [fill_cons_of_opens hxopens, run_cons, write_of_lt hbelow,
            run_eq_self fun y hy => hw.2 y (hsub' hy), hvalue, Option.getD_none,
              ← hfirst] at hsecond
          simpa using hsecond
        · have hne : a' ≠ x ∧ a' ≠ w ∧ x ≠ w := by
            refine ⟨fun heq => ?_, fun heq => ?_, fun heq => ?_⟩
            · exact lt_irrefl _ (heq ▸ hax)
            · exact lt_irrefl _ (heq ▸ hax.trans hbelow)
            · exact lt_irrefl _ (heq ▸ hbelow)
          have hfront : [a', x, w] ⊆ xs := by simp [ha', hx, hw.1]
          obtain ⟨zs, hperm', hsub'⟩ := exists_perm_append [a', x, w] (by simp [hne]) hfront
          have hsecond := h _ hperm'
          simp only [List.cons_append, List.nil_append] at hsecond
          rw [fill_cons_of_opens haopens', run_cons, run_cons, write_of_lt (x := x) hax,
            write_of_lt hbelow,
            run_eq_self fun y hy => hw.2 y (hsub' hy), hvalue, Option.getD_none,
              ← hfirst] at hsecond
          cases hvx : W.value x with
          | none => rfl
          | some v => simpa [hvx] using hsecond
      · obtain ⟨zs, hperm', hsub'⟩ := exists_perm_cons hx
        have hx' : W.Top xs x := ⟨hx, fun y hy => (hw.2 y hy).trans heq.ge⟩
        have hsecond := h _ hperm'
        rw [fill_cons_top hx' (htop x hx') hsub', ← hfirst] at hsecond
        simpa [heq] using hsecond
    · obtain ⟨w, hw⟩ := W.exists_top (List.ne_nil_of_mem ha)
      cases hvalue : W.value w with
      | none => exact absurd ⟨w, hw, hvalue⟩ hnone
      | some v =>
          refine .inl ⟨v, fun u hu => ?_⟩
          cases hvalue' : W.value u with
          | none => exact absurd ⟨u, hu, hvalue'⟩ hnone
          | some v' =>
              obtain ⟨ys, hperm, hsub⟩ := exists_perm_cons hw.1
              obtain ⟨zs, hperm', hsub'⟩ := exists_perm_cons hu.1
              have hsame := (h _ hperm').trans (h _ hperm).symm
              rw [fill_cons_top hw (htop w hw) hsub, fill_cons_top hu (htop u hu) hsub', hvalue,
                hvalue'] at hsame
              simp only [Option.getD_some, Option.some.injEq, Register.mk.injEq] at hsame
              exact congrArg some hsame.2
  · exact .inl (by simpa using hopen)

/-- Where every write carries a value, the writes on top have to agree. -/
theorem settledNew_iff_of_total (htotal : ∀ x ∈ xs, (W.value x).isSome = true) :
    W.SettledNew opens init xs ↔ (∀ x ∈ xs, opens (W.level x) = false) ∨
      ∀ u w, W.Top xs u → W.Top xs w → opens (W.level u) = true ∧ W.value u = W.value w := by
  refine or_congr_right ?_
  constructor
  · rintro ⟨htop, ⟨v, hagree⟩ | hkeep⟩ u w hu hw
    · exact ⟨htop u hu, by rw [hagree u hu, hagree w hw]⟩
    · have hvalue {u : α} (hu : W.Top xs u) : W.value u = some init := by
        obtain ⟨v, hv⟩ := Option.isSome_iff_exists.mp (htotal u hu.1)
        have hsame := hkeep u hu.1 (.inl (htop u hu))
        rw [hv] at hsame ⊢
        exact congrArg some hsame
      exact ⟨htop u hu, by rw [hvalue hu, hvalue hw]⟩
  · intro hagree
    refine ⟨fun w hw => (hagree w w hw hw).1, .inl ?_⟩
    by_cases hxs : xs = []
    · exact ⟨init, fun w hw => absurd hw.1 (by simp [hxs])⟩
    · obtain ⟨w, hw⟩ := W.exists_top hxs
      obtain ⟨v, hv⟩ := Option.isSome_iff_exists.mp (htotal w hw.1)
      exact ⟨v, fun u hu => (hagree u w hu hw).2.trans hv⟩

end

end Writes

/-! ### Records that their level tells apart -/

/-- The newer of two records, the first of equals. -/
def newest (level : α → κ) (x y : α) : α := if level x < level y then y else x

section

variable (level : α → κ)

theorem level_newest (x y : α) : level (newest level x y) = max (level x) (level y) := by
  unfold newest
  split
  · exact (max_eq_right (le_of_lt ‹_›)).symm
  · exact (max_eq_left (not_lt.mp ‹_›)).symm

variable {level}

theorem newest_comm (hlevel : Function.Injective level) (x y : α) :
    newest level x y = newest level y x := by
  apply hlevel
  rw [level_newest level, level_newest level, max_comm]

theorem newest_assoc (hlevel : Function.Injective level) (x y z : α) :
    newest level (newest level x y) z = newest level x (newest level y z) := by
  apply hlevel
  simp only [level_newest level, max_assoc]

theorem newest_idem (x : α) : newest level x x = x := if_neg (lt_irrefl _)

/-- If level and value go together, the order of the writes does not matter. -/
theorem Writes.run_eq_of_injective {W : Writes α κ β} {c : Register κ β} {xs ys : List α}
    (htotal : ∀ x ∈ xs, (W.value x).isSome = true)
    (hlevel : ∀ x ∈ xs, ∀ y ∈ xs, W.level x = W.level y → W.value x = W.value y)
    (hmem : ∀ x, x ∈ ys ↔ x ∈ xs) : W.run c ys = W.run c xs := by
  refine Writes.run_eq_of_settled ((Writes.settled_iff_of_total htotal).mpr ?_) hmem
  intro u w hu hw
  exact hlevel u hu.1.1 w hw.1.1 (le_antisymm (hw.1.2 u hu.1.1) (hu.1.2 w hw.1.1))

end

end IrcBot.Lib.LastWriter
