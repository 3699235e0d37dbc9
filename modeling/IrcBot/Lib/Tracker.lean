/-
# Tables with one entry for each key

A table has a fixed number of slots, some of them free. An event of a key acts on the entry of the
key; a key that is new takes a free slot, or in a full table that of the entry idle longest.

* `unique_touch` — no two entries have one key.
* `outcomes_apart` — while there is a slot for every key, the events of a key come out as if they
  were alone.
* `touch_of_full` — a new key in a full table replaces the entry idle longest.
* `Tracks` — a program whose step acts on the entry of a key keeps the keys apart, for the same
  reasons.
-/
import Mathlib.Data.List.Dedup
import Mathlib.Data.List.Induction
import Mathlib.Data.List.Perm.Subperm
import Mathlib.Tactic.Common

namespace IrcBot.Lib.Tracker

/-- How the entries of a table are read, and what a new one is. -/
structure Shape (α κ : Type) where
  free : α → Bool
  key : α → κ
  last : α → Int
  fresh : κ → α
  /-- What a slot that is out of range would hold. -/
  blank : α

section

variable {α β κ : Type} (p : Shape α κ)

/-! ### Slots -/

def isEntry [BEq κ] (k : κ) (a : α) : Bool := !p.free a && p.key a == k

/-- The first of the used slots that has been idle longest. -/
def oldest (table : List α) : Option Nat :=
  table.zipIdx.foldl
    (fun best (a, i) =>
      if p.free a then best
      else
        match best with
        | none => some i
        | some o => if p.last a < p.last (table.getD o p.blank) then some i else best) none

/-- The slot of a key, with the table in which it has one. -/
def slot [BEq κ] (table : List α) (k : κ) : Option (Nat × List α) :=
  match table.findIdx? fun a => !p.free a && p.key a == k with
  | some i => some (i, table)
  | none =>
      ((table.findIdx? fun a => p.free a).or (oldest p table)).map fun i => (i, table.set i (p.fresh k))

/-- An event of a key: what comes of it, and what it makes of the entry. -/
structure Event (α β κ : Type) where
  key : κ
  act : α → β × α

/-- The event acts on the entry of its key. -/
def touch [BEq κ] (table : List α) (e : Event α β κ) : Option β × List α :=
  match slot p table e.key with
  | none => (none, table)
  | some (i, table) =>
      let r := e.act (table.getD i p.blank)
      (some r.1, table.set i r.2)

def after [BEq κ] (table : List α) (es : List (Event α β κ)) : List α :=
  es.foldl (fun table e => (touch p table e).2) table

/-- What comes of each event, with its key. -/
def outcomes [BEq κ] (table : List α) : List (Event α β κ) → List (κ × Option β)
  | [] => []
  | e :: es => (e.key, (touch p table e).1) :: outcomes (touch p table e).2 es

/-- The entry of a key. -/
def lookup [BEq κ] (table : List α) (k : κ) : Option α := table.find? (isEntry p k)

/-! ### One entry for each key -/

/-- No two entries have one key. -/
def Unique (table : List α) : Prop :=
  ∀ (i j : Nat) (a b : α), table[i]? = some a → table[j]? = some b → p.free a = false →
    p.free b = false → p.key a = p.key b → i = j

/-- A new entry is one of its key, and no event changes whose entry it is. -/
structure Keeps (p : Shape α κ) (es : List (Event α β κ)) : Prop where
  fresh : ∀ k, p.key (p.fresh k) = k
  key : ∀ e ∈ es, ∀ a, p.key (e.act a).2 = p.key a

variable {p} {table : List α} {k : κ}

theorem unique_blank {n : Nat} (h : p.free p.blank = true) :
    Unique p (List.replicate n p.blank) := by
  intro i j a b ha _ hfree
  rw [List.eq_of_mem_replicate (List.mem_of_getElem? ha), h] at hfree
  cases hfree

/-- What can stand in a table whose slot `i` was written. -/
theorem getElem?_set_cases {i j : Nat} {a b : α} (h : (table.set i a)[j]? = some b) :
    j = i ∧ b = a ∨ j ≠ i ∧ table[j]? = some b := by
  by_cases hij : i = j
  · subst hij
    obtain ⟨hlt, heq⟩ := List.getElem?_eq_some_iff.mp h
    rw [List.getElem_set_self] at heq
    exact .inl ⟨rfl, heq.symm⟩
  · rw [List.getElem?_set_ne hij] at h
    exact .inr ⟨fun hji => hij hji.symm, h⟩

/-- A slot that is written with an entry of a key that no other slot has. -/
theorem Unique.set (h : Unique p table) {i : Nat} {a : α}
    (hothers : ∀ (j : Nat) (b : α), j ≠ i → table[j]? = some b → p.free b = false →
      p.free a = false →
      p.key b ≠ p.key a) : Unique p (table.set i a) := by
  intro j l b c hb hc hbfree hcfree hkey
  rcases getElem?_set_cases hb with ⟨rfl, rfl⟩ | ⟨hj, hbold⟩
  · rcases getElem?_set_cases hc with ⟨rfl, rfl⟩ | ⟨hl, hcold⟩
    · rfl
    · exact absurd hkey.symm (hothers l c hl hcold hcfree hbfree)
  · rcases getElem?_set_cases hc with ⟨rfl, rfl⟩ | ⟨hl, hcold⟩
    · exact absurd hkey (hothers j b hj hbold hbfree hcfree)
    · exact h j l b c hbold hcold hbfree hcfree hkey

/-- What the walk over the slots has found: no used slot yet, or one that has been idle longest. -/
def Found (p : Shape α κ) (table seen : List α) (best : Option Nat) : Prop :=
  (best = none → ∀ b ∈ seen, p.free b = true) ∧
    ∀ i, best = some i → ∃ a, table[i]? = some a ∧ p.free a = false ∧
      ∀ b ∈ seen, p.free b = false → p.last a ≤ p.last b

theorem found_foldl (l : List (α × Nat)) : ∀ (seen : List α) (best : Option Nat),
    (∀ x ∈ l, table[x.2]? = some x.1) → Found p table seen best →
      Found p table (seen ++ l.map Prod.fst) (l.foldl
        (fun best (a, i) =>
          if p.free a then best
          else
            match best with
            | none => some i
            | some o => if p.last a < p.last (table.getD o p.blank) then some i else best) best) := by
  induction l with
  | nil =>
      intro seen best _ h
      simpa using h
  | cons x l ih =>
      intro seen best hl h
      obtain ⟨a, i⟩ := x
      have ha : table[i]? = some a := hl (a, i) List.mem_cons_self
      have hassoc : seen ++ ((a, i) :: l).map Prod.fst = (seen ++ [a]) ++ l.map Prod.fst := by simp
      rw [List.foldl_cons, hassoc]
      apply ih
      · intro x hx
        exact hl x (List.mem_cons_of_mem _ hx)
      · obtain ⟨hnone, hsome⟩ := h
        dsimp only
        split
        · rename_i hfree
          constructor
          · intro hbest b hb
            rcases List.mem_append.mp hb with hb | hb
            · exact hnone hbest b hb
            · rwa [List.mem_singleton.mp hb]
          · intro o ho
            obtain ⟨c, hc, hcfree, hle⟩ := hsome o ho
            refine ⟨c, hc, hcfree, ?_⟩
            intro b hb hbfree
            rcases List.mem_append.mp hb with hb | hb
            · exact hle b hb hbfree
            · rw [List.mem_singleton.mp hb, hfree] at hbfree
              cases hbfree
        · rename_i hfree
          have hused : p.free a = false := by simpa using hfree
          -- the new slot is the best so far, or it is no better
          have hnew (hle : ∀ b ∈ seen, p.free b = false → p.last a ≤ p.last b) :
              Found p table (seen ++ [a]) (some i) := by
            constructor
            · intro h
              cases h
            · intro o ho
              obtain rfl := Option.some.inj ho
              refine ⟨a, ha, hused, ?_⟩
              intro b hb hbfree
              rcases List.mem_append.mp hb with hb | hb
              · exact hle b hb hbfree
              · exact (List.mem_singleton.mp hb) ▸ Int.le_refl _
          split
          · apply hnew
            intro b hb hbfree
            rw [hnone rfl b hb] at hbfree
            cases hbfree
          · rename_i o
            obtain ⟨c, hc, hcfree, hle⟩ := hsome o rfl
            have hget : table.getD o p.blank = c := by simp [List.getD_eq_getElem?_getD, hc]
            rw [hget]
            split
            · rename_i hlt
              apply hnew
              intro b hb hbfree
              have hcb := hle b hb hbfree
              omega
            · rename_i hge
              constructor
              · intro h
                cases h
              · intro o' ho'
                obtain rfl := Option.some.inj ho'
                refine ⟨c, hc, hcfree, ?_⟩
                intro b hb hbfree
                rcases List.mem_append.mp hb with hb | hb
                · exact hle b hb hbfree
                · rw [List.mem_singleton.mp hb]
                  omega

/-- The slot that gives way is a used one, and no used one has been idle longer. -/
theorem found_oldest (table : List α) : Found p table table (oldest p table) := by
  have h : Found p table ([] ++ table.zipIdx.map Prod.fst) (oldest p table) := by
    apply found_foldl
    · intro x hx
      exact List.mem_zipIdx_iff_getElem?.mp hx
    · constructor
      · intro _ b hb
        cases hb
      · intro i hi
        cases hi
  rwa [List.nil_append, List.zipIdx_map_fst] at h

section Keys

variable [BEq κ]

/-- The entry of the key is in the slot; or the key is new, and has a new entry in a slot that was
free or, where none is, in that of the entry idle longest. -/
theorem slot_cases {i : Nat} {table' : List α} (h : slot p table k = some (i, table')) :
    (∃ a, table[i]? = some a ∧ isEntry p k a = true ∧ table' = table) ∨
      lookup p table k = none ∧ table' = table.set i (p.fresh k) ∧ ∃ a, table[i]? = some a ∧
        (p.free a = true ∨ (∀ b ∈ table, p.free b = false) ∧ ∀ b ∈ table, p.last a ≤ p.last b) := by
  unfold slot at h
  split at h
  · rename_i j hfind
    obtain ⟨rfl, rfl⟩ := Prod.mk.inj (Option.some.inj h)
    obtain ⟨hlt, hentry, -⟩ := List.findIdx?_eq_some_iff_getElem.mp hfind
    exact .inl ⟨_, List.getElem?_eq_getElem hlt, hentry, rfl⟩
  · rename_i hnew
    right
    obtain ⟨j, hj, heq⟩ := Option.map_eq_some_iff.mp h
    obtain ⟨rfl, rfl⟩ := Prod.mk.inj heq
    have hlookup : lookup p table k = none := by
      rw [lookup, List.find?_eq_none]
      intro a ha
      rw [Bool.not_eq_true]
      exact List.findIdx?_eq_none_iff.mp hnew a ha
    refine ⟨hlookup, rfl, ?_⟩
    cases hfree : table.findIdx? (fun a => p.free a) with
    | some m =>
        rw [hfree] at hj
        obtain rfl := Option.some.inj hj
        obtain ⟨hlt, ha, -⟩ := List.findIdx?_eq_some_iff_getElem.mp hfree
        exact ⟨_, List.getElem?_eq_getElem hlt, .inl ha⟩
    | none =>
        rw [hfree] at hj
        have hfull : ∀ b ∈ table, p.free b = false := List.findIdx?_eq_none_iff.mp hfree
        obtain ⟨a, ha, -, hle⟩ := (found_oldest table).2 j hj
        exact ⟨a, ha, .inr ⟨hfull, fun b hb => hle b hb (hfull b hb)⟩⟩

/-- There is a slot for a key that is new, unless there are no slots. -/
theorem slot_isSome (hne : table ≠ []) (k : κ) : ∃ i table', slot p table k = some (i, table') := by
  unfold slot
  split
  · exact ⟨_, _, rfl⟩
  · cases hfree : table.findIdx? (fun a => p.free a) with
    | some m => exact ⟨_, _, rfl⟩
    | none =>
        have hfull : ∀ b ∈ table, p.free b = false := List.findIdx?_eq_none_iff.mp hfree
        cases hold : oldest p table with
        | some m => exact ⟨_, _, rfl⟩
        | none =>
            obtain ⟨a, ha⟩ := List.exists_mem_of_ne_nil table hne
            have hused := (found_oldest table).1 hold a ha
            rw [hfull a ha] at hused
            cases hused

theorem length_touch (table : List α) (e : Event α β κ) :
    (touch p table e).2.length = table.length := by
  unfold touch
  split
  · rfl
  · rename_i i table' hslot
    rw [List.length_set]
    rcases slot_cases hslot with ⟨-, -, -, rfl⟩ | ⟨-, rfl, -⟩
    · rfl
    · exact List.length_set

theorem length_after (es : List (Event α β κ)) : ∀ table : List α,
    (after p table es).length = table.length := by
  induction es with
  | nil =>
      intro table
      rfl
  | cons e es ih =>
      intro table
      exact (ih (touch p table e).2).trans (length_touch table e)

theorem touch_nil (e : Event α β κ) : (touch p ([] : List α) e).2 = [] := rfl

theorem lookup_set_of_ne {a b : α} {k : κ} {i : Nat} (ha : table[i]? = some a)
    (hold : isEntry p k a = false) (hnew : isEntry p k b = false) :
    lookup p (table.set i b) k = lookup p table k := by
  induction table generalizing i with
  | nil => cases ha
  | cons c table ih =>
      cases i with
      | zero =>
          obtain rfl : c = a := Option.some.inj ha
          rw [List.set_cons_zero, lookup, lookup, List.find?_cons_of_neg (by simp [hnew]),
            List.find?_cons_of_neg (by simp [hold])]
      | succ i =>
          have hrest := ih (i := i) ha
          rw [List.set_cons_succ, lookup, lookup]
          by_cases hc : isEntry p k c = true
          · rw [List.find?_cons_of_pos hc, List.find?_cons_of_pos hc]
          · rw [List.find?_cons_of_neg hc, List.find?_cons_of_neg hc]
            exact hrest

variable [LawfulBEq κ]

theorem isEntry_iff {a : α} : isEntry p k a = true ↔ p.free a = false ∧ p.key a = k := by
  simp [isEntry]

theorem lookup_eq_none : lookup p table k = none ↔ ∀ a ∈ table, p.free a = false → p.key a ≠ k := by
  simp only [lookup, List.find?_eq_none, isEntry_iff, not_and, ne_eq]

/-- The entry of a key is found wherever it is. -/
theorem lookup_of_entry (h : Unique p table) {i : Nat} {a : α} (ha : table[i]? = some a)
    (hfree : p.free a = false) : lookup p table (p.key a) = some a := by
  cases hfind : lookup p table (p.key a) with
  | none => exact absurd rfl (lookup_eq_none.mp hfind a (List.mem_of_getElem? ha) hfree)
  | some b =>
      obtain ⟨hb, hkey⟩ := isEntry_iff.mp (List.find?_some hfind)
      obtain ⟨j, hj⟩ := List.mem_iff_getElem?.mp (List.mem_of_find?_eq_some hfind)
      obtain rfl := h i j a b ha hj hfree hb hkey.symm
      exact congrArg some (Option.some.inj (hj.symm.trans ha))

theorem lookup_eq_some (h : Unique p table) {a : α} :
    lookup p table k = some a ↔
      ∃ i : Nat, table[i]? = some a ∧ p.free a = false ∧ p.key a = k := by
  constructor
  · intro hfind
    obtain ⟨hfree, hkey⟩ := isEntry_iff.mp (List.find?_some hfind)
    obtain ⟨i, hi⟩ := List.mem_iff_getElem?.mp (List.mem_of_find?_eq_some hfind)
    exact ⟨i, hi, hfree, hkey⟩
  · rintro ⟨i, hi, hfree, rfl⟩
    exact lookup_of_entry h hi hfree

/-- An event writes one slot: that of the entry of its key, or that of a new entry. -/
theorem touch_eq {e : Event α β κ} (h : Unique p table) (hne : table ≠ []) :
    ∃ i a, table[i]? = some a ∧
      touch p table e = (some (e.act ((lookup p table e.key).getD (p.fresh e.key))).1,
        table.set i (e.act ((lookup p table e.key).getD (p.fresh e.key))).2) ∧
      (isEntry p e.key a = true ∧ lookup p table e.key = some a ∨
        lookup p table e.key = none ∧ (p.free a = true ∨
          (∀ b ∈ table, p.free b = false) ∧ ∀ b ∈ table, p.last a ≤ p.last b)) := by
  obtain ⟨i, table', hslot⟩ := slot_isSome (p := p) hne e.key
  rcases slot_cases hslot with ⟨a, ha, hentry, rfl⟩ | ⟨hnone, rfl, a, ha, hvictim⟩
  · obtain ⟨hfree, hk⟩ := isEntry_iff.mp hentry
    have hlookup : lookup p table' e.key = some a := hk ▸ lookup_of_entry h ha hfree
    have hget : table'.getD i p.blank = a := by simp [List.getD_eq_getElem?_getD, ha]
    refine ⟨i, a, ha, ?_, .inl ⟨hentry, hlookup⟩⟩
    rw [touch, hslot, hlookup]
    dsimp only [Option.getD_some]
    rw [hget]
  · have hlt := (List.getElem?_eq_some_iff.mp ha).1
    have hget : (table.set i (p.fresh e.key)).getD i p.blank = p.fresh e.key := by
      simp [List.getD_eq_getElem?_getD, hlt]
    refine ⟨i, a, ha, ?_, .inr ⟨hnone, hvictim⟩⟩
    rw [touch, hslot, hnone]
    dsimp only [Option.getD_none]
    rw [hget, List.set_set]

/-- The key of what an event leaves in its slot. -/
theorem key_act (table : List α) (hfresh : ∀ k, p.key (p.fresh k) = k) {e : Event α β κ}
    (hkey : ∀ a, p.key (e.act a).2 = p.key a) :
    p.key (e.act ((lookup p table e.key).getD (p.fresh e.key))).2 = e.key := by
  rw [hkey]
  cases hlookup : lookup p table e.key with
  | none => exact hfresh e.key
  | some a => exact (isEntry_iff.mp (List.find?_some hlookup)).2

/-- The entries that an event does not write are of other keys. -/
theorem key_ne_of_touch {e : Event α β κ} (h : Unique p table) {i j : Nat} {a b : α}
    (ha : table[i]? = some a)
    (hcase : isEntry p e.key a = true ∧ lookup p table e.key = some a ∨
      lookup p table e.key = none ∧ (p.free a = true ∨
        (∀ b ∈ table, p.free b = false) ∧ ∀ b ∈ table, p.last a ≤ p.last b))
    (hj : j ≠ i) (hb : table[j]? = some b) (hbfree : p.free b = false) : p.key b ≠ e.key := by
  intro hbkey
  rcases hcase with ⟨hentry, -⟩ | ⟨hnone, -⟩
  · obtain ⟨hfree, hk⟩ := isEntry_iff.mp hentry
    exact hj (h j i b a hb ha hbfree hfree (hbkey.trans hk.symm))
  · exact lookup_eq_none.mp hnone b (List.mem_of_getElem? hb) hbfree hbkey

/-- **No two entries get one key.** -/
theorem unique_touch (hfresh : ∀ k, p.key (p.fresh k) = k) {e : Event α β κ}
    (hkey : ∀ a, p.key (e.act a).2 = p.key a) (h : Unique p table) :
    Unique p (touch p table e).2 := by
  by_cases hne : table = []
  · subst hne
    intro i j a b ha hb
    rw [touch_nil] at ha
    cases ha
  · obtain ⟨i, a, ha, htouch, hcase⟩ := touch_eq h hne
    rw [htouch]
    apply h.set
    intro j b hj hb hbfree _
    rw [key_act table hfresh hkey]
    exact key_ne_of_touch h ha hcase hj hb hbfree

/-! ### Each key on its own -/

/-- What an event does to the entry of its key, or to the missing one. -/
def alone (p : Shape α κ) (o : Option α) (e : Event α β κ) : β × Option α :=
  let r := e.act (o.getD (p.fresh e.key))
  (r.1, if p.free r.2 then none else some r.2)

/-- **An event acts on its own entry**, while there is a slot for it. -/
theorem touch_spec (hfresh : ∀ k, p.key (p.fresh k) = k) {e : Event α β κ}
    (hkey : ∀ a, p.key (e.act a).2 = p.key a) (h : Unique p table)
    (hroom : (lookup p table e.key).isSome ∨ ∃ a ∈ table, p.free a = true) :
    (touch p table e).1 = some (alone p (lookup p table e.key) e).1 ∧
      lookup p (touch p table e).2 e.key = (alone p (lookup p table e.key) e).2 ∧
      ∀ k, k ≠ e.key → lookup p (touch p table e).2 k = lookup p table k := by
  have hne : table ≠ [] := by
    rintro rfl
    rcases hroom with hsome | ⟨a, ha, -⟩
    · cases hsome
    · cases ha
  have hunique := unique_touch hfresh hkey h
  have hact := key_act table hfresh hkey
  obtain ⟨i, a, ha, htouch, hcase⟩ := touch_eq h hne
  -- a slot that is written for a new key was free
  have hslot : isEntry p e.key a = true ∨ lookup p table e.key = none ∧ p.free a = true := by
    rcases hcase with ⟨hentry, -⟩ | ⟨hnone, hfree | ⟨hfull, -⟩⟩
    · exact .inl hentry
    · exact .inr ⟨hnone, hfree⟩
    · rcases hroom with hsome | ⟨b, hb, hbfree⟩
      · rw [hnone] at hsome
        cases hsome
      · rw [hfull b hb] at hbfree
        cases hbfree
  rw [htouch] at hunique ⊢
  unfold alone
  dsimp only at hunique ⊢
  generalize e.act ((lookup p table e.key).getD (p.fresh e.key)) = r at hunique hact ⊢
  have hlt := (List.getElem?_eq_some_iff.mp ha).1
  have hput : (table.set i r.2)[i]? = some r.2 := by simp [hlt]
  refine ⟨rfl, ?_, ?_⟩
  · split
    · rename_i hrfree
      rw [lookup_eq_none]
      intro b hb hbfree hbkey
      obtain ⟨j, hj⟩ := List.mem_iff_getElem?.mp hb
      rcases getElem?_set_cases hj with ⟨-, rfl⟩ | ⟨hji, hold⟩
      · rw [hrfree] at hbfree
        cases hbfree
      · rcases hslot with hentry | ⟨hnone, -⟩
        · obtain ⟨hfree, hk⟩ := isEntry_iff.mp hentry
          exact hji (h j i b a hold ha hbfree hfree (hbkey.trans hk.symm))
        · exact lookup_eq_none.mp hnone b (List.mem_of_getElem? hold) hbfree hbkey
    · rename_i hrfree
      have hfound := lookup_of_entry hunique hput (by simpa using hrfree)
      rwa [hact] at hfound
  · intro k hk
    apply lookup_set_of_ne ha
    · rw [Bool.eq_false_iff]
      intro hentry
      obtain ⟨hfree, hak⟩ := isEntry_iff.mp hentry
      rcases hslot with hmine | ⟨-, hfree'⟩
      · exact hk (hak.symm.trans (isEntry_iff.mp hmine).2)
      · rw [hfree] at hfree'
        cases hfree'
    · rw [Bool.eq_false_iff]
      intro hentry
      exact hk ((isEntry_iff.mp hentry).2.symm.trans hact)

/-! ### Runs -/

/-- What comes of the events of one key, with nothing else there. -/
def aloneRun (p : Shape α κ) : Option α → List (Event α β κ) → List (κ × Option β)
  | _, [] => []
  | o, e :: es => (e.key, some (alone p o e).1) :: aloneRun p (alone p o e).2 es

/-- There is a slot for each key that has an entry or an event to come. -/
def HasRoom (p : Shape α κ) (table : List α) (es : List (Event α β κ)) : Prop :=
  ∃ keys : List κ, keys.length ≤ table.length ∧ (∀ k, (lookup p table k).isSome → k ∈ keys) ∧
    ∀ e ∈ es, e.key ∈ keys

theorem room_of_hasRoom (h : Unique p table) {e : Event α β κ} {es : List (Event α β κ)}
    (hroom : HasRoom p table (e :: es)) :
    (lookup p table e.key).isSome ∨ ∃ a ∈ table, p.free a = true := by
  obtain ⟨keys, hlen, hheld, hevents⟩ := hroom
  by_contra hno
  rw [not_or, not_exists] at hno
  obtain ⟨hnone, hfree⟩ := hno
  have hused : ∀ a ∈ table, p.free a = false := by
    intro a ha
    rw [← Bool.not_eq_true]
    intro hfa
    exact hfree a ⟨ha, hfa⟩
  -- all the slots have entries of keys of their own, and the key of the event is one more
  have hnodup : (e.key :: table.map p.key).Nodup := by
    apply List.nodup_cons.mpr
    constructor
    · intro hmem
      obtain ⟨a, ha, hak⟩ := List.mem_map.mp hmem
      rw [Option.not_isSome_iff_eq_none] at hnone
      exact lookup_eq_none.mp hnone a ha (hused a ha) hak
    · apply List.pairwise_iff_getElem.mpr
      intro i j hi hj hlt hij
      rw [List.getElem_map, List.getElem_map] at hij
      have hi' := List.length_map p.key ▸ hi
      have hj' := List.length_map p.key ▸ hj
      have hplace := h i j _ _ (List.getElem?_eq_getElem hi') (List.getElem?_eq_getElem hj')
        (hused _ (List.getElem_mem hi')) (hused _ (List.getElem_mem hj')) hij
      omega
  have hsub : e.key :: table.map p.key ⊆ keys := by
    intro k hk
    rcases List.mem_cons.mp hk with rfl | hk
    · exact hevents e List.mem_cons_self
    · obtain ⟨a, ha, rfl⟩ := List.mem_map.mp hk
      obtain ⟨i, hi⟩ := List.mem_iff_getElem?.mp ha
      apply hheld
      rw [lookup_of_entry h hi (hused a ha)]
      rfl
  have hle := (List.subperm_of_subset hnodup hsub).length_le
  rw [List.length_cons, List.length_map] at hle
  omega

/-- The room that an event takes is one it had. -/
theorem HasRoom.touch (hfresh : ∀ k, p.key (p.fresh k) = k) (h : Unique p table) {e : Event α β κ}
    (hkey : ∀ a, p.key (e.act a).2 = p.key a) {es : List (Event α β κ)}
    (hroom : HasRoom p table (e :: es)) : HasRoom p (touch p table e).2 es := by
  obtain ⟨-, -, hothers⟩ := touch_spec hfresh hkey h (room_of_hasRoom h hroom)
  obtain ⟨keys, hlen, hheld, hevents⟩ := hroom
  refine ⟨keys, ?_, ?_, ?_⟩
  · rwa [length_touch]
  · intro k hk
    by_cases hek : k = e.key
    · subst hek
      exact hevents e List.mem_cons_self
    · rw [hothers k hek] at hk
      exact hheld k hk
  · intro e' he'
    exact hevents e' (List.mem_cons_of_mem e he')

/-- The events of a key come out as if they were alone with its entry. -/
theorem outcomes_filter {es : List (Event α β κ)} :
    ∀ {table : List α}, Keeps p es → Unique p table →
    HasRoom p table es → ∀ k, (outcomes p table es).filter (fun o => o.1 == k) =
      aloneRun p (lookup p table k) (es.filter fun e => e.key == k) := by
  induction es with
  | nil =>
      intro table _ _ _ k
      rfl
  | cons e es ih =>
      intro table hkeeps h hroom k
      have hkey := hkeeps.key e List.mem_cons_self
      obtain ⟨hout, hown, hothers⟩ := touch_spec hkeeps.fresh hkey h (room_of_hasRoom h hroom)
      have hrest := ih ⟨hkeeps.fresh, fun e' he' => hkeeps.key e' (List.mem_cons_of_mem e he')⟩
        (unique_touch hkeeps.fresh hkey h) (hroom.touch hkeeps.fresh h hkey) k
      rw [outcomes]
      by_cases hk : e.key = k
      · subst hk
        rw [List.filter_cons_of_pos (by simp), List.filter_cons_of_pos (by simp), aloneRun,
          hrest, hout,
          hown]
      · rw [List.filter_cons_of_neg (by simpa using hk),
          List.filter_cons_of_neg (by simpa using hk),
          hrest, hothers k (Ne.symm hk)]

/-- **Keys do not meet**: in a table with a slot for every key, what comes of the events of one key
is what comes of them when there are no others. -/
theorem outcomes_apart (hblank : p.free p.blank = true) {es : List (Event α β κ)}
    (hkeeps : Keeps p es)
    {keys : List κ} (hkeys : ∀ e ∈ es, e.key ∈ keys) {n : Nat} (hlen : keys.length ≤ n) (k : κ) :
    (outcomes p (List.replicate n p.blank) es).filter (fun o => o.1 == k) =
      outcomes p (List.replicate n p.blank) (es.filter fun e => e.key == k) := by
  have hempty (k : κ) : lookup p (List.replicate n p.blank) k = none := by
    rw [lookup_eq_none]
    intro a ha hfree
    rw [List.eq_of_mem_replicate ha, hblank] at hfree
    cases hfree
  have hroom (es' : List (Event α β κ)) (hsub : ∀ e ∈ es', e ∈ es) :
      HasRoom p (List.replicate n p.blank) es' := by
    refine ⟨keys, ?_, ?_, ?_⟩
    · rwa [List.length_replicate]
    · intro k hk
      rw [hempty k] at hk
      cases hk
    · intro e he
      exact hkeys e (hsub e he)
  have hown : ∀ e ∈ es.filter (fun e => e.key == k), e ∈ es := fun e he => (List.mem_filter.mp he).1
  have hall := outcomes_filter hkeeps (unique_blank hblank) (hroom es fun e he => he) k
  have hsolo := outcomes_filter ⟨hkeeps.fresh, fun e he => hkeeps.key e (hown e he)⟩
    (unique_blank hblank) (hroom _ hown) k
  have hfst (table : List α) (es' : List (Event α β κ)) (h : ∀ e ∈ es', e.key = k) :
      (outcomes p table es').filter (fun o => o.1 == k) = outcomes p table es' := by
    induction es' generalizing table with
    | nil => rfl
    | cons e es' ih =>
        rw [outcomes, List.filter_cons_of_pos (by simpa using h e List.mem_cons_self),
          ih _ fun e' he' => h e' (List.mem_cons_of_mem e he')]
  rw [hfst _ _ fun e he => by simpa using (List.mem_filter.mp he).2, List.filter_filter] at hsolo
  rw [hall, hsolo]
  simp

/-- No run makes a second entry for a key. -/
theorem unique_after {es : List (Event α β κ)} : ∀ {table : List α}, Keeps p es → Unique p table →
    Unique p (after p table es) := by
  induction es with
  | nil =>
      intro table _ h
      exact h
  | cons e es ih =>
      intro table hkeeps h
      apply ih
      · exact ⟨hkeeps.fresh, fun e' he' => hkeeps.key e' (List.mem_cons_of_mem e he')⟩
      · exact unique_touch hkeeps.fresh (hkeeps.key e List.mem_cons_self) h

/-- Every entry stands as the last event of its key left it. -/
theorem entry_after {es : List (Event α β κ)} (hkeeps : Keeps p es) (h : Unique p table) :
    ∀ a ∈ after p table es, p.free a = false → (a ∈ table ∧ ∀ e ∈ es, e.key ≠ p.key a) ∨
      ∃ before e later x, es = before ++ e :: later ∧ e.key = p.key a ∧ a = (e.act x).2 ∧
        ∀ e' ∈ later, e'.key ≠ p.key a := by
  induction es using List.reverseRecOn with
  | nil =>
      intro a ha _
      left
      constructor
      · exact ha
      · intro e he
        cases he
  | append_singleton es e ih =>
      have hkeeps' : Keeps p es :=
        ⟨hkeeps.fresh, fun e' he' => hkeeps.key e' (List.mem_append_left [e] he')⟩
      have hkey := hkeeps.key e List.mem_concat_self
      have hunique := unique_after hkeeps' h
      intro b hb hbfree
      rw [after, List.foldl_append] at hb
      change b ∈ (touch p (after p table es) e).2 at hb
      by_cases hne : after p table es = []
      · rw [hne, touch_nil] at hb
        cases hb
      obtain ⟨i, a, ha, htouch, hcase⟩ := touch_eq (e := e) hunique hne
      have hact := key_act (after p table es) hkeeps.fresh hkey
      rw [htouch] at hb
      obtain ⟨j, hj⟩ := List.mem_iff_getElem?.mp hb
      rcases getElem?_set_cases hj with ⟨-, rfl⟩ | ⟨hji, hold⟩
      · right
        refine ⟨es, e, [], _, rfl, hact.symm, rfl, ?_⟩
        intro e' he'
        cases he'
      · have hother := key_ne_of_touch hunique ha hcase hji hold hbfree
        rcases ih hkeeps' b (List.mem_of_getElem? hold) hbfree with
          ⟨hmem, hnone⟩ | ⟨before, e₀, later, x, rfl, hk, rfl, hlater⟩
        · left
          constructor
          · exact hmem
          · intro e' he'
            rcases List.mem_append.mp he' with he' | he'
            · exact hnone e' he'
            · rw [List.mem_singleton.mp he']
              exact hother.symm
        · right
          refine ⟨before, e₀, later ++ [e], x, by simp, hk, rfl, ?_⟩
          intro e' he'
          rcases List.mem_append.mp he' with he' | he'
          · exact hlater e' he'
          · rw [List.mem_singleton.mp he']
            exact hother.symm

/-- **Who gives way**: in a full table a new key takes the slot of the entry that has been idle
longest, and every other slot stays as it is. -/
theorem touch_of_full {e : Event α β κ} (h : Unique p table) (hne : table ≠ [])
    (hfull : ∀ a ∈ table, p.free a = false) (hnew : lookup p table e.key = none) :
    ∃ i a, table[i]? = some a ∧ (∀ b ∈ table, p.last a ≤ p.last b) ∧
      (touch p table e).2 = table.set i (e.act (p.fresh e.key)).2 := by
  obtain ⟨i, a, ha, htouch, hcase⟩ := touch_eq h hne
  rw [hnew, Option.getD_none] at htouch
  rcases hcase with ⟨-, hsome⟩ | ⟨-, hfree | ⟨-, hidle⟩⟩
  · rw [hnew] at hsome
    cases hsome
  · rw [hfull a (List.mem_of_getElem? ha)] at hfree
    cases hfree
  · exact ⟨i, a, ha, hidle, by rw [htouch]⟩

end Keys

end

/-! ### Programs that keep such a table -/

section

variable {α β κ ε ν σ : Type} [BEq κ]

/-- A step of a program acts on the entry of the key of its input, and stamps it. -/
structure Tracks (p : Shape α κ) (table : σ → List α) (step : σ → ε → ν × σ) (key : ε → κ)
    (time : ε → Int) (event : ε → Event α β κ) (out : Option β → ν) : Prop where
  blank : p.free p.blank = true
  fresh : ∀ k, p.key (p.fresh k) = k
  step_eq : ∀ s e, (step s e).1 = out (touch p (table s) (event e)).1 ∧
    table (step s e).2 = (touch p (table s) (event e)).2
  key_event : ∀ e, (event e).key = key e
  act : ∀ e a, p.key ((event e).act a).2 = p.key a ∧ p.last ((event e).act a).2 = time e

/-- What the steps of a run answer, with their keys. -/
def verdicts (step : σ → ε → ν × σ) (key : ε → κ) (s : σ) : List ε → List (κ × ν)
  | [] => []
  | e :: es => (key e, (step s e).1) :: verdicts step key (step s e).2 es

def run (step : σ → ε → ν × σ) (s : σ) (es : List ε) : σ := es.foldl (fun s e => (step s e).2) s

namespace Tracks

variable {p : Shape α κ} {table : σ → List α} {step : σ → ε → ν × σ} {key : ε → κ} {time : ε → Int}
  {event : ε → Event α β κ} {out : Option β → ν}

theorem keeps (h : Tracks p table step key time event out) (es : List ε) :
    Keeps p (es.map event) := by
  constructor
  · exact h.fresh
  · intro e he a
    obtain ⟨e, -, rfl⟩ := List.mem_map.mp he
    exact (h.act e a).1

theorem table_run (h : Tracks p table step key time event out) (es : List ε) : ∀ s,
    table (run step s es) = after p (table s) (es.map event) := by
  induction es with
  | nil =>
      intro s
      rfl
  | cons e es ih =>
      intro s
      rw [List.map_cons, after, List.foldl_cons, ← (h.step_eq s e).2]
      exact ih (step s e).2

theorem verdicts_eq (h : Tracks p table step key time event out) (es : List ε) : ∀ s,
    verdicts step key s es =
      (outcomes p (table s) (es.map event)).map fun o => (o.1, out o.2) := by
  induction es with
  | nil =>
      intro s
      rfl
  | cons e es ih =>
      intro s
      rw [verdicts, List.map_cons, outcomes, List.map_cons, ih, (h.step_eq s e).1,
        (h.step_eq s e).2, h.key_event]

variable [LawfulBEq κ]

/-- The answers to the events of one key are those of a run without the others. -/
theorem apart (h : Tracks p table step key time event out) {s : σ} {n : Nat}
    (hblank : table s = List.replicate n p.blank) {es : List ε} {keys : List κ}
    (hkeys : ∀ e ∈ es, key e ∈ keys) (hlen : keys.length ≤ n) (k : κ) :
    (verdicts step key s es).filter (fun v => v.1 == k) =
      verdicts step key s (es.filter fun e => key e == k) := by
  have hmem : ∀ e ∈ es.map event, e.key ∈ keys := by
    intro e he
    obtain ⟨e', he', rfl⟩ := List.mem_map.mp he
    rw [h.key_event]
    exact hkeys e' he'
  have hfilter : (es.filter fun e => key e == k).map event =
      (es.map event).filter fun e => e.key == k := by
    rw [List.filter_map]
    congr 2
    funext e
    rw [Function.comp_apply, h.key_event]
  rw [h.verdicts_eq, h.verdicts_eq, hblank, hfilter,
    ← outcomes_apart h.blank (h.keeps es) hmem hlen, List.filter_map]
  rfl

/-- No two entries are of one key. -/
theorem unique (h : Tracks p table step key time event out) {s : σ} {n : Nat}
    (hblank : table s = List.replicate n p.blank) (es : List ε) :
    Unique p (table (run step s es)) := by
  rw [h.table_run]
  apply unique_after (h.keeps es)
  rw [hblank]
  exact unique_blank h.blank

/-- The stamp of an entry is the time of the last event of its key. -/
theorem stamp (h : Tracks p table step key time event out) {s : σ} {n : Nat}
    (hblank : table s = List.replicate n p.blank) {es : List ε} {a : α}
    (ha : a ∈ table (run step s es)) (hfree : p.free a = false) :
    ∃ before e later, es = before ++ e :: later ∧ key e = p.key a ∧ p.last a = time e ∧
      ∀ e' ∈ later, key e' ≠ p.key a := by
  have hunique : Unique p (table s) := by
    rw [hblank]
    exact unique_blank h.blank
  rw [h.table_run] at ha
  rcases entry_after (h.keeps es) hunique a ha hfree with
    ⟨hmem, -⟩ | ⟨before, e, later, x, hes, hk, hact, hlater⟩
  · rw [hblank] at hmem
    rw [List.eq_of_mem_replicate hmem, h.blank] at hfree
    cases hfree
  · obtain ⟨before', rest, rfl, rfl, hrest⟩ := List.map_eq_append_iff.mp hes
    obtain ⟨e', later', rfl, rfl, rfl⟩ := List.map_eq_cons_iff.mp hrest
    refine ⟨before', e', later', rfl, ?_, ?_, ?_⟩
    · rw [← h.key_event]
      exact hk
    · rw [hact]
      exact (h.act e' x).2
    · intro e he
      rw [← h.key_event]
      exact hlater (event e) (List.mem_map_of_mem he)

/-- In a full table a new key takes the slot of the entry idle longest, and no other slot
changes. -/
theorem givesWay (h : Tracks p table step key time event out) {s : σ} (hunique : Unique p (table s))
    (hne : table s ≠ []) (hfull : ∀ a ∈ table s, p.free a = false) {e : ε}
    (hnew : ∀ a ∈ table s, p.key a ≠ key e) :
    ∃ (i : Nat) (a b : α), (table s)[i]? = some a ∧ (∀ c ∈ table s, p.last a ≤ p.last c) ∧
      p.key b = key e ∧ table (step s e).2 = (table s).set i b := by
  have hnone : lookup p (table s) (event e).key = none := by
    rw [lookup_eq_none, h.key_event]
    intro a ha _
    exact hnew a ha
  obtain ⟨i, a, ha, hidle, htouch⟩ := touch_of_full hunique hne hfull hnone
  refine ⟨i, a, _, ha, hidle, ?_, (h.step_eq s e).2.trans htouch⟩
  rw [(h.act e _).1, h.fresh, h.key_event]

end Tracks

end

end IrcBot.Lib.Tracker
