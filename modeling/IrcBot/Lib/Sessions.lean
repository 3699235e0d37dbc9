/-
# Sessions and their log

Sessions are numbered in the order in which they begin. Each goes through stages, by the acts of its
life, until one of them ends it; no two sessions that go on have the same key. A log holds every act
with the number of its session.

* `Run.history` — the acts of a session are a life, from its first act to the stage it is at.
* `Run.before` — what was open to a session when it acted.
* `Run.exclusive` — sessions that go on have different keys.
-/
import Mathlib.Data.List.Basic
import Mathlib.Logic.Function.Basic
import Mathlib.Tactic.Common

namespace IrcBot.Lib.Sessions

/-- What a session may do. `next` is none where the act is not allowed, and `some none` where it
ends the session. -/
structure Life (σ α κ : Type) where
  start : α → Option σ
  next : σ → α → Option (Option σ)
  key : σ → κ
  key_next : ∀ {s a t}, next s a = some (some t) → key t = key s

variable {σ α κ : Type}

/-- The sessions that go on, and how many there have been. -/
structure Desk (σ : Type) where
  live : Nat → Option σ
  count : Nat

/-- What the log says of one session. -/
def actsOf (n : Nat) (log : List (Nat × α)) : List α :=
  (log.filter fun e => e.1 == n).map Prod.snd

theorem actsOf_append (n : Nat) (log : List (Nat × α)) (m : Nat) (a : α) :
    actsOf n (log ++ [(m, a)]) = if m = n then actsOf n log ++ [a] else actsOf n log := by
  unfold actsOf
  rw [List.filter_append, List.map_append]
  by_cases h : m = n
  · simp [h]
  · simp [h]

namespace Life

variable (L : Life σ α κ)

/-- From a stage, by these acts, to a stage or to the end. -/
inductive Follows : σ → List α → Option σ → Prop
  | refl {s : σ} : Follows s [] (some s)
  | next {s t : σ} {acts : List α} {a : α} {r : Option σ} (h : Follows s acts (some t))
      (hnext : L.next t a = some r) : Follows s (acts ++ [a]) r

/-- Runs, with their log. -/
inductive Run : Desk σ → List (Nat × α) → Prop
  | empty : Run ⟨fun _ => none, 0⟩ []
  | start {d : Desk σ} {log : List (Nat × α)} (h : Run d log) {a : α} {s : σ}
      (hstart : L.start a = some s) (hkey : ∀ n t, d.live n = some t → L.key t ≠ L.key s) :
      Run ⟨Function.update d.live d.count (some s), d.count + 1⟩ (log ++ [(d.count, a)])
  | act {d : Desk σ} {log : List (Nat × α)} (h : Run d log) {n : Nat} {a : α} {s : σ} {r : Option σ}
      (hlive : d.live n = some s) (hnext : L.next s a = some r) :
      Run ⟨Function.update d.live n r, d.count⟩ (log ++ [(n, a)])

/-- What holds of a session that has begun. -/
def Lived (live : Option σ) (acts : List α) : Prop :=
  ∃ a s rest, acts = a :: rest ∧ L.start a = some s ∧ L.Follows s rest live

end Life

namespace Life.Run

variable {L : Life σ α κ} {d : Desk σ} {log : List (Nat × α)}

/-- Only sessions that have begun go on. -/
theorem lt_count (h : L.Run d log) {n : Nat} {s : σ} (hlive : d.live n = some s) : n < d.count := by
  induction h generalizing n s with
  | empty => cases hlive
  | @start d log h a s' hstart hkey ih =>
      dsimp only at hlive ⊢
      by_cases hn : n = d.count
      · omega
      · rw [Function.update_of_ne hn] at hlive
        have hlt := ih hlive
        omega
  | @act d log h m a t r hlive' hnext ih =>
      dsimp only at hlive ⊢
      by_cases hn : n = m
      · subst hn
        exact ih hlive'
      · rw [Function.update_of_ne hn] at hlive
        exact ih hlive

/-- The log says nothing of sessions that have not begun. -/
theorem actsOf_eq_nil (h : L.Run d log) {n : Nat} (hn : d.count ≤ n) : actsOf n log = [] := by
  induction h with
  | empty => rfl
  | @start d log h a s hstart hkey ih =>
      dsimp only at hn
      rw [actsOf_append, if_neg (by omega)]
      exact ih (by omega)
  | @act d log h m a s r hlive hnext ih =>
      have hlt := h.lt_count hlive
      dsimp only at hn
      rw [actsOf_append, if_neg (by omega)]
      exact ih hn

/-- **The acts of a session are a life**, from its first act to the stage it is at. -/
theorem history (h : L.Run d log) {n : Nat} (hn : n < d.count) :
    L.Lived (d.live n) (actsOf n log) := by
  induction h with
  | empty => exact absurd hn (Nat.not_lt_zero n)
  | @start d log h a s hstart hkey ih =>
      dsimp only at hn ⊢
      rw [actsOf_append]
      by_cases hlast : n = d.count
      · subst hlast
        rw [if_pos rfl, h.actsOf_eq_nil (Nat.le_refl _), Function.update_self]
        exact ⟨a, s, [], rfl, hstart, .refl⟩
      · rw [if_neg fun heq => hlast heq.symm, Function.update_of_ne hlast]
        exact ih (by omega)
  | @act d log h m a s r hlive hnext ih =>
      dsimp only at hn ⊢
      rw [actsOf_append]
      by_cases hm : n = m
      · subst hm
        rw [if_pos rfl, Function.update_self]
        obtain ⟨a₀, s₀, rest, hacts, hstart, hfollows⟩ := ih hn
        rw [hlive] at hfollows
        exact ⟨a₀, s₀, rest ++ [a], by rw [hacts, List.cons_append], hstart, hfollows.next hnext⟩
      · rw [if_neg fun heq => hm heq.symm, Function.update_of_ne hm]
        exact ih hn

/-- What came before an act: a run to which the act was open. -/
theorem before (h : L.Run d log) {pre post : List (Nat × α)} {n : Nat} {a : α}
    (hlog : log = pre ++ (n, a) :: post) :
    ∃ d', L.Run d' pre ∧ ((∃ s, n = d'.count ∧ L.start a = some s) ∨
      ∃ s r, d'.live n = some s ∧ L.next s a = some r) := by
  induction h generalizing post with
  | empty => cases pre <;> cases hlog
  | @start d log h b s hstart hkey ih =>
      rcases List.eq_nil_or_concat' post with rfl | ⟨post, e, rfl⟩
      · obtain ⟨rfl, hlast⟩ := List.append_inj' hlog rfl
        cases hlast
        exact ⟨d, h, .inl ⟨s, rfl, hstart⟩⟩
      · rw [← List.cons_append, ← List.append_assoc] at hlog
        exact ih (List.append_inj' hlog rfl).1
  | @act d log h m b s r hlive hnext ih =>
      rcases List.eq_nil_or_concat' post with rfl | ⟨post, e, rfl⟩
      · obtain ⟨rfl, hlast⟩ := List.append_inj' hlog rfl
        cases hlast
        exact ⟨d, h, .inr ⟨s, r, hlive, hnext⟩⟩
      · rw [← List.cons_append, ← List.append_assoc] at hlog
        exact ih (List.append_inj' hlog rfl).1

/-- **Sessions that go on have different keys.** -/
theorem exclusive (h : L.Run d log) {m n : Nat} {s t : σ} (hm : d.live m = some s)
    (hn : d.live n = some t) (hkey : L.key s = L.key t) : m = n := by
  induction h generalizing m n s t with
  | empty => cases hm
  | @start d log h a s' hstart hnew ih =>
      dsimp only at hm hn
      by_cases hmc : m = d.count
      · by_cases hnc : n = d.count
        · exact hmc.trans hnc.symm
        · subst hmc
          rw [Function.update_self] at hm
          rw [Function.update_of_ne hnc] at hn
          cases hm
          exact absurd hkey.symm (hnew n t hn)
      · rw [Function.update_of_ne hmc] at hm
        by_cases hnc : n = d.count
        · subst hnc
          rw [Function.update_self] at hn
          cases hn
          exact absurd hkey (hnew m s hm)
        · rw [Function.update_of_ne hnc] at hn
          exact ih hm hn hkey
  | @act d log h k a s' r hlive hnext ih =>
      -- the session that acted has the key it had
      have hsame : ∀ {j : Nat} {u : σ}, Function.update d.live k r j = some u →
          ∃ u', d.live j = some u' ∧ L.key u = L.key u' := by
        intro j u hu
        by_cases hj : j = k
        · subst hj
          rw [Function.update_self] at hu
          subst hu
          exact ⟨s', hlive, L.key_next hnext⟩
        · rw [Function.update_of_ne hj] at hu
          exact ⟨u, hu, rfl⟩
      obtain ⟨s₁, hs₁, hkey₁⟩ := hsame hm
      obtain ⟨t₁, ht₁, hkey₂⟩ := hsame hn
      exact ih hs₁ ht₁ (hkey₁.symm.trans (hkey.trans hkey₂))

end Life.Run

end IrcBot.Lib.Sessions
