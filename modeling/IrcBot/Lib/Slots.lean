/-
# Tables with a slot for each key

A table holds one record for each key, up to a size. `slot` finds the slot of a
record's key or takes a new one, and `claim` is the table then. When a table is
replaced, `Clock.keep` carries over the times that are later in the old one.

* `nodup_foldl_claim` — no two slots have one key.
* `Clock.map_keep_iff` — a table made of records whose time is 0 is the old one again
  exactly if the old one holds these records, with times of their own.
-/
import Mathlib.Data.List.Nodup
import Mathlib.Tactic.Common

namespace IrcBot.Lib.Slots

variable {α κ : Type} [BEq κ] {key : α → κ}

/-! ### Taking a slot -/

/-- The slot of `a` is there already, or it takes a new one while there is room. -/
def claim (key : α → κ) (max : Nat) (table : List α) (a : α) : List α :=
  if table.any fun x => key x == key a then table
  else if table.length < max then table ++ [a] else table

/-- Where the slot of `a` is, and the table with it. -/
def slot (key : α → κ) (max : Nat) (table : List α) (a : α) : Option (Nat × List α) :=
  match table.findIdx? fun x => key x == key a with
  | some i => some (i, table)
  | none => if table.length < max then some (table.length, table ++ [a]) else none

theorem slot_eq_some [LawfulBEq κ] {max i : Nat} {table table' : List α} {a : α}
    (h : slot key max table a = some (i, table')) :
    table' = claim key max table a ∧ ∃ x, table'[i]? = some x ∧ key x = key a := by
  unfold slot at h
  unfold claim
  split at h
  · rename_i j hfind
    obtain ⟨rfl, rfl⟩ : j = i ∧ table = table' := by simpa using h
    obtain ⟨hlt, heq, -⟩ := List.findIdx?_eq_some_iff_getElem.mp hfind
    rw [if_pos (List.any_eq_true.mpr ⟨_, List.getElem_mem hlt, heq⟩)]
    exact ⟨rfl, table[j], List.getElem?_eq_getElem hlt, by simpa using heq⟩
  · rename_i hfind
    split at h
    · rename_i hroom
      obtain ⟨rfl, rfl⟩ : table.length = i ∧ table ++ [a] = table' := by simpa using h
      rw [if_neg, if_pos hroom]
      · exact ⟨rfl, a, List.getElem?_concat_length, rfl⟩
      · rw [List.any_eq_true]
        rintro ⟨x, hx, heq⟩
        exact absurd heq (by simpa using List.findIdx?_eq_none_iff.mp hfind x hx)
    · simp at h

theorem slot_eq_none {max : Nat} {table : List α} {a : α} (h : slot key max table a = none) :
    claim key max table a = table := by
  unfold slot at h
  unfold claim
  split at h
  · simp at h
  · split at h
    · simp at h
    · rename_i hfull
      split
      · rfl
      · rfl

theorem nodup_claim [LawfulBEq κ] {max : Nat} {table : List α} (h : (table.map key).Nodup)
    (a : α) : ((claim key max table a).map key).Nodup := by
  unfold claim
  split
  · exact h
  · rename_i hnew
    split
    · rw [List.map_append, List.map_singleton]
      refine List.nodup_append.mpr ⟨h, List.nodup_singleton _, fun k hmem k' hk' heq => hnew ?_⟩
      rw [heq, List.mem_singleton.mp hk'] at hmem
      obtain ⟨x, hx, heq⟩ := List.mem_map.mp hmem
      exact List.any_eq_true.mpr ⟨x, hx, by simpa using heq⟩
    · exact h

theorem nodup_foldl_claim [LawfulBEq κ] {max : Nat} {as : List α} : ∀ {table : List α},
    (table.map key).Nodup → ((as.foldl (claim key max) table).map key).Nodup := by
  induction as with
  | nil => exact fun h => h
  | cons a as ih => exact fun h => ih (nodup_claim h a)

/-- What is in a slot was there before, or claimed it. -/
theorem mem_foldl_claim {max : Nat} {as : List α} {x : α} : ∀ {table : List α},
    x ∈ as.foldl (claim key max) table → x ∈ table ∨ x ∈ as := by
  induction as with
  | nil => exact fun h => .inl h
  | cons a as ih =>
      intro table h
      rcases ih h with hin | hin
      · unfold claim at hin
        split at hin
        · exact .inl hin
        · split at hin
          · rcases List.mem_append.mp hin with hin | hin
            · exact .inl hin
            · exact .inr (List.mem_cons.mpr (.inl (List.mem_singleton.mp hin)))
          · exact .inl hin
      · exact .inr (List.mem_cons_of_mem a hin)

/-- With keys that differ, a record is the first of its key. -/
theorem find_of_nodup [LawfulBEq κ] {table : List α} {a : α} (h : (table.map key).Nodup)
    (ha : a ∈ table) : (table.find? fun x => key x == key a) = some a := by
  induction table with
  | nil => exact absurd ha List.not_mem_nil
  | cons x table ih =>
      rw [List.map_cons, List.nodup_cons] at h
      rcases List.mem_cons.mp ha with rfl | ha
      · exact List.find?_cons_of_pos (by simp)
      · have hne : ¬ (key x == key a) = true := by
          intro heq
          exact h.1 (List.mem_map.mpr ⟨a, ha, (by simpa using heq : key x = key a).symm⟩)
        rw [List.find?_cons_of_neg (p := fun y => key y == key a) hne]
        exact ih h.2 ha

/-! ### Times carried over -/

/-- A time in a record, apart from its key. -/
structure Clock (key : α → κ) where
  time : α → Int
  stamp : α → Int → α
  time_stamp : ∀ a t, time (stamp a t) = t
  stamp_stamp : ∀ a t t', stamp (stamp a t) t' = stamp a t'
  stamp_time : ∀ a, stamp a (time a) = a
  key_stamp : ∀ a t, key (stamp a t) = key a

namespace Clock

variable (c : Clock key) {old : List α}

/-- The record with the later time, if the old table has one of its key. -/
def keep (old : List α) (a : α) : α :=
  match old.find? fun x => key x == key a with
  | some s => c.stamp a (max (c.time a) (c.time s))
  | none => a

theorem stamp_keep (old : List α) (a : α) (t : Int) : c.stamp (c.keep old a) t = c.stamp a t := by
  unfold keep
  split
  · exact c.stamp_stamp _ _ _
  · rfl

theorem le_time_keep (old : List α) (a : α) : c.time a ≤ c.time (c.keep old a) := by
  unfold keep
  split
  · rw [c.time_stamp]
    exact Int.le_max_left _ _
  · exact Int.le_refl _

/-- A table of new records becomes the old table exactly if that holds the same
records. -/
theorem map_keep_iff [LawfulBEq κ] {table : List α} (hzero : ∀ a ∈ table, c.time a = 0)
    (hnodup : (table.map key).Nodup) :
    table.map (c.keep old) = old ↔
      old.map (c.stamp · 0) = table ∧ ∀ a ∈ old, 0 ≤ c.time a := by
  constructor
  · intro h
    have hstamp : ∀ a ∈ table, c.stamp (c.keep old a) 0 = a := by
      intro a ha
      rw [c.stamp_keep, ← hzero a ha, c.stamp_time]
    have hmap : old.map (c.stamp · 0) = table := by
      rw [← h, List.map_map]
      exact (List.map_congr_left hstamp).trans (List.map_id table)
    refine ⟨hmap, fun a ha => ?_⟩
    rw [← h] at ha
    obtain ⟨x, hx, rfl⟩ := List.mem_map.mp ha
    rw [← hzero x hx]
    exact c.le_time_keep old x
  · rintro ⟨rfl, hpos⟩
    have hkeys : (old.map key).Nodup := by
      rw [List.map_map] at hnodup
      rwa [show old.map key = old.map (key ∘ (c.stamp · 0)) from
        List.map_congr_left fun a _ => (c.key_stamp a 0).symm]
    rw [List.map_map]
    refine (List.map_congr_left fun a ha => ?_).trans (List.map_id old)
    have hfind := find_of_nodup hkeys ha
    rw [Function.comp_apply, keep, c.key_stamp, hfind]
    dsimp only
    rw [c.time_stamp, c.stamp_stamp, Int.max_eq_right (hpos a ha), c.stamp_time]
    rfl

/-- A table carries its own times over to itself exactly if no record is later than
one behind it with the same key. -/
theorem map_keep_self_iff : old.map (c.keep old) = old ↔
    ∀ a ∈ old, ∀ s, (old.find? fun x => key x == key a) = some s → c.time s ≤ c.time a := by
  have hmap : old.map (c.keep old) = old ↔ ∀ a ∈ old, c.keep old a = a := by
    conv_lhs => rhs; rw [← List.map_id old]
    exact List.map_inj_left
  rw [hmap]
  refine forall₂_congr fun a _ => ?_
  constructor
  · intro h s hs
    have htime := congrArg c.time h
    rw [keep, hs] at htime
    dsimp only at htime
    rw [c.time_stamp] at htime
    omega
  · intro h
    unfold keep
    split
    · rename_i s hs
      rw [Int.max_eq_left (h s hs), c.stamp_time]
    · rfl

theorem key_keep (old : List α) (a : α) : key (c.keep old a) = key a := by
  unfold keep
  split
  · exact c.key_stamp _ _
  · rfl

/-- The time of the first record of a key. -/
def timeOf (table : List α) (k : κ) : Option Int := (table.find? fun a => key a == k).map c.time

theorem timeOf_map {f : α → α} (hkey : ∀ a, key (f a) = key a) (table : List α) (k : κ) :
    c.timeOf (table.map f) k = (table.find? fun a => key a == k).map fun a => c.time (f a) := by
  unfold timeOf
  rw [List.find?_map, Option.map_map]
  simp only [Function.comp_def, hkey]

theorem timeOf_congr {table table' : List α}
    (h : table'.map (fun a => (key a, c.time a)) = table.map fun a => (key a, c.time a)) (k : κ) :
    c.timeOf table' k = c.timeOf table k := by
  have hview : ∀ l : List α, c.timeOf l k =
      ((l.map fun a => (key a, c.time a)).find? fun x => x.1 == k).map (·.2) := by
    intro l
    rw [timeOf, List.find?_map, Option.map_map]
    rfl
  rw [hview, hview, h]

/-- A change that keeps the keys and puts no time back. -/
theorem timeOf_map_le {f : α → α} (hkey : ∀ a, key (f a) = key a)
    (hle : ∀ a, c.time a ≤ c.time (f a)) {table : List α} {k : κ} {t : Int}
    (h : c.timeOf table k = some t) : ∃ t', c.timeOf (table.map f) k = some t' ∧ t ≤ t' := by
  obtain ⟨a, ha, rfl⟩ := Option.map_eq_some_iff.mp h
  refine ⟨c.time (f a), ?_, hle a⟩
  rw [c.timeOf_map hkey, ha]
  rfl

/-- **No time goes back in a table that has kept those of the old one.** -/
theorem timeOf_keep [LawfulBEq κ] {table : List α} {k : κ} {t t' : Int}
    (h : c.timeOf old k = some t)
    (h' : c.timeOf (table.map (c.keep old)) k = some t') : t ≤ t' := by
  obtain ⟨s, hs, rfl⟩ := Option.map_eq_some_iff.mp h
  rw [c.timeOf_map (c.key_keep old)] at h'
  obtain ⟨a, ha, rfl⟩ := Option.map_eq_some_iff.mp h'
  have hk : key a = k := by simpa using List.find?_some ha
  rw [keep, hk, hs]
  dsimp only
  rw [c.time_stamp]
  exact Int.le_max_right _ _

/-- A change of one record is seen if the record is the first of its key. -/
theorem timeOf_modify {f : α → α} (hkey : ∀ a, key (f a) = key a) (table : List α)
    (i : Nat) (k : κ) :
    c.timeOf (table.modify i f) k =
      if table.findIdx? (fun a => key a == k) = some i then table[i]?.map fun a => c.time (f a)
      else c.timeOf table k := by
  induction table generalizing i with
  | nil => simp [timeOf]
  | cons a table ih =>
      cases i with
      | zero =>
          unfold timeOf
          rw [List.modify_zero_cons, List.find?_cons, List.find?_cons, List.findIdx?_cons, hkey]
          cases key a == k <;> simp
      | succ i =>
          have htail := ih i
          unfold timeOf at htail ⊢
          rw [List.modify_succ_cons, List.find?_cons, List.find?_cons, List.findIdx?_cons]
          cases key a == k with
          | true => simp
          | false => simpa using htail

end Clock

end IrcBot.Lib.Slots
