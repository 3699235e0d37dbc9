/-
# A log and what its entries need

A log grows at its end. Some entries need that something was logged before them; once that
holds of a log, it holds of the log with another entry if it holds of that entry.
-/
import Mathlib.Data.List.Basic

namespace IrcBot.Lib.History

variable {ε : Type}

/-- What every entry needs of the log before it. -/
def Preceded (need : ε → List ε → Prop) (log : List ε) : Prop :=
  ∀ before e after, log = before ++ e :: after → need e before

variable {need : ε → List ε → Prop} {log : List ε}

theorem preceded_nil : Preceded need [] := by
  intro before e after h
  exact absurd h.symm (List.append_ne_nil_of_right_ne_nil before (List.cons_ne_nil e after))

/-- One more entry. -/
theorem Preceded.concat (h : Preceded need log) {e : ε} (he : need e log) :
    Preceded need (log ++ [e]) := by
  intro before x after heq
  rcases List.eq_nil_or_concat after with rfl | ⟨rest, y, rfl⟩
  · obtain ⟨rfl, hx⟩ := List.append_inj' heq rfl
    obtain rfl : e = x := List.singleton_inj.mp hx
    exact he
  · rw [List.concat_eq_append, ← List.cons_append, ← List.append_assoc] at heq
    obtain ⟨rfl, -⟩ := List.append_inj' heq rfl
    exact h before x rest rfl

end IrcBot.Lib.History
