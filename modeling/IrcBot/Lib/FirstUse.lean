/-
# The first value of a key

A table that takes a value for a key only where it has none for it. `List.lookup` is the first
value that a list has for a key, so `lookup_firsts` says that the table has, for every key, the
first value that was offered for it; `nodup_firsts`, that it has it once.
-/
import Mathlib.Data.List.Induction
import Mathlib.Data.List.Nodup
import Mathlib.Tactic.Common

namespace IrcBot.Lib.FirstUse

variable {κ ν : Type} [BEq κ]

def add (pins : List (κ × ν)) (p : κ × ν) : List (κ × ν) :=
  if (pins.lookup p.1).isSome then pins else pins ++ [p]

def firsts (offers : List (κ × ν)) : List (κ × ν) := offers.foldl add []

theorem firsts_concat (offers : List (κ × ν)) (p : κ × ν) :
    firsts (offers ++ [p]) = add (firsts offers) p := by
  simp [firsts]

/-- The offers for other keys do not matter. -/
theorem lookup_filter (offers : List (κ × ν)) (k : κ) :
    (offers.filter fun p => k == p.1).lookup k = offers.lookup k := by
  induction offers with
  | nil => rfl
  | cons p offers ih =>
      obtain ⟨j, v⟩ := p
      cases h : k == j with
      | true => simp [h, List.lookup_cons]
      | false => simp [h, List.lookup_cons, ih]

/-- What is in the table was offered. -/
theorem mem_of_mem_firsts {offers : List (κ × ν)} {p : κ × ν} (h : p ∈ firsts offers) :
    p ∈ offers := by
  induction offers using List.reverseRecOn with
  | nil => cases h
  | append_singleton offers q ih =>
      rw [firsts_concat] at h
      unfold add at h
      split at h
      · exact List.mem_append_left _ (ih h)
      · rcases List.mem_append.mp h with h | h
        · exact List.mem_append_left _ (ih h)
        · exact List.mem_append_right _ h

theorem lookup_concat (pins : List (κ × ν)) (p : κ × ν) (k : κ) :
    (pins ++ [p]).lookup k = (pins.lookup k).or (if k == p.1 then some p.2 else none) := by
  rw [List.lookup_append]
  congr 1
  obtain ⟨j, v⟩ := p
  cases h : k == j with
  | true => simp [List.lookup_cons, h]
  | false => simp [List.lookup_cons, h]

variable [LawfulBEq κ]

/-- What is added shows where there was nothing. -/
theorem lookup_add (pins : List (κ × ν)) (p : κ × ν) (k : κ) :
    (add pins p).lookup k = (pins.lookup k).or (if k == p.1 then some p.2 else none) := by
  unfold add
  split
  · rename_i hsome
    cases h : k == p.1 with
    | true =>
        obtain ⟨v, hv⟩ := Option.isSome_iff_exists.mp hsome
        rw [eq_of_beq h, hv, Option.some_or]
    | false => simp
  · exact lookup_concat pins p k

/-- The table has the first value that was offered for a key. -/
theorem lookup_firsts (offers : List (κ × ν)) (k : κ) :
    (firsts offers).lookup k = offers.lookup k := by
  induction offers using List.reverseRecOn with
  | nil => rfl
  | append_singleton offers p ih => rw [firsts_concat, lookup_add, lookup_concat, ih]

theorem lookup_eq_none_iff {pins : List (κ × ν)} {k : κ} :
    pins.lookup k = none ↔ k ∉ pins.map Prod.fst := by
  rw [List.lookup_eq_none_iff]
  constructor
  · rintro h hmem
    obtain ⟨p, hp, rfl⟩ := List.mem_map.mp hmem
    simpa using h p hp
  · intro h p hp
    have hne : k ≠ p.1 := by
      rintro rfl
      exact h (List.mem_map_of_mem hp)
    simpa using hne

/-- It has a key once. -/
theorem nodup_firsts (offers : List (κ × ν)) : ((firsts offers).map Prod.fst).Nodup := by
  induction offers using List.reverseRecOn with
  | nil => exact List.nodup_nil
  | append_singleton offers p ih =>
      rw [firsts_concat]
      unfold add
      split
      · exact ih
      · rename_i hnone
        have hnew := lookup_eq_none_iff.mp (Option.not_isSome_iff_eq_none.mp hnone)
        rw [List.map_append, List.map_singleton]
        exact List.nodup_append.mpr ⟨ih, List.nodup_singleton _, fun a ha b hb heq => by
          rw [List.mem_singleton.mp hb] at heq
          exact hnew (heq ▸ ha)⟩

end IrcBot.Lib.FirstUse
