/-
# The parameters of an IRC message

RFC 1459 separates the parameters of a message by spaces. One that begins with `:` is the
last: it takes the rest of the line, spaces included.

* `params_words` — parameters without spaces are read back, each less a leading `:`, exactly
  when none but the last begins with one.
-/
import Mathlib.Data.List.Basic
import Mathlib.Tactic.Common

namespace IrcBot.Lib.IrcMessage

abbrev space : UInt8 := 32
abbrev colon : UInt8 := 58

/-- The parameter that is being read, if there is one. -/
def flush (cur : List UInt8) : List (List UInt8) := if cur.isEmpty then [] else [cur]

/-- The parameters, with what has been read of the next one. -/
def paramsFrom : List UInt8 → List UInt8 → List (List UInt8)
  | cur, [] => flush cur
  | cur, c :: rest =>
      if c = space then flush cur ++ paramsFrom [] rest
      else if c = colon ∧ cur = [] then [rest]
      else paramsFrom (cur ++ [c]) rest

/-- The parameters of what stands behind the command. -/
def params (s : List UInt8) : List (List UInt8) := paramsFrom [] s

/-- Words, each behind a space. -/
def words (ws : List (List UInt8)) : List UInt8 := ws.flatMap (space :: ·)

/-- What a last parameter is when it begins with `:`. -/
def text (w : List UInt8) : List UInt8 := if w.head? = some colon then w.tail else w

/-- A parameter that can stand anywhere, less its `:`. -/
structure Word (w : List UInt8) : Prop where
  ne_nil : w ≠ []
  no_space : space ∉ w

variable {w : List UInt8} {ws : List (List UInt8)}

theorem paramsFrom_append (w : List UInt8) : ∀ {cur : List UInt8} (rest : List UInt8),
    cur ≠ [] → space ∉ w → paramsFrom cur (w ++ rest) = paramsFrom (cur ++ w) rest := by
  induction w with
  | nil =>
      intro cur rest _ _
      rw [List.nil_append, List.append_nil]
  | cons c w ih =>
      intro cur rest hcur hw
      have hc : c ≠ space := fun heq => hw (heq ▸ List.mem_cons_self)
      have hw' : space ∉ w := fun hmem => hw (List.mem_cons_of_mem c hmem)
      rw [List.cons_append, paramsFrom, if_neg hc, if_neg (fun h => hcur h.2),
        ih rest (by simp) hw', List.append_assoc, List.singleton_append]

@[simp] theorem params_nil : params [] = [] := rfl

@[simp] theorem params_space (s : List UInt8) : params (space :: s) = params s := rfl

@[simp] theorem params_colon (s : List UInt8) : params (colon :: s) = [s] := by
  simp [params, paramsFrom, space, colon]

/-- A word that does not begin with `:` is a parameter of its own. -/
theorem params_append {w : List UInt8} (hw : Word w) (hc : w.head? ≠ some colon)
    (rest : List UInt8) : params (w ++ rest) = paramsFrom w rest := by
  obtain ⟨hne, hspace⟩ := hw
  cases w with
  | nil => exact absurd rfl hne
  | cons c w =>
      have hcs : c ≠ space := fun heq => hspace (heq ▸ List.mem_cons_self)
      have hcc : c ≠ colon := fun heq => hc (by rw [List.head?_cons, heq])
      have hw : space ∉ w := fun hmem => hspace (List.mem_cons_of_mem c hmem)
      rw [params, List.cons_append, paramsFrom, if_neg hcs, if_neg (fun h => hcc h.1)]
      rw [paramsFrom_append w rest (by simp) hw]
      rfl

theorem params_cons {w : List UInt8} (hw : Word w) (hc : w.head? ≠ some colon)
    (rest : List UInt8) : params (w ++ space :: rest) = w :: params rest := by
  rw [params_append hw hc, paramsFrom, if_pos rfl, flush, if_neg (by simpa using hw.ne_nil)]
  rfl

theorem params_single {w : List UInt8} (hw : Word w) : params w = [text w] := by
  unfold text
  split
  · rename_i hc
    obtain ⟨c, w', rfl⟩ := List.exists_cons_of_ne_nil hw.ne_nil
    obtain rfl : c = colon := by simpa using hc
    exact params_colon w'
  · rename_i hc
    have hread := params_append hw hc []
    rw [List.append_nil] at hread
    rw [hread, paramsFrom, flush, if_neg (by simpa using hw.ne_nil)]

theorem text_of_ne {w : List UInt8} (hc : w.head? ≠ some colon) : text w = w := if_neg hc

/-- A word that does not begin with `:`, ahead of others. -/
theorem params_words_cons {w : List UInt8} (hw : Word w) (hc : w.head? ≠ some colon) :
    params (words (w :: ws)) = w :: params (words ws) := by
  cases ws with
  | nil =>
      show params (w ++ []) = _
      rw [List.append_nil, params_single hw, text_of_ne hc]
      rfl
  | cons v vs =>
      show params (w ++ space :: (v ++ words vs)) = _
      rw [params_cons hw hc]
      rfl

/-- No more parameters are read than words were written. -/
theorem length_params_words_le (hws : ∀ w ∈ ws, Word w) :
    (params (words ws)).length ≤ ws.length := by
  induction ws with
  | nil => simp [words]
  | cons w ws ih =>
      have hw := hws w List.mem_cons_self
      by_cases hc : w.head? = some colon
      · obtain ⟨c, w', rfl⟩ := List.exists_cons_of_ne_nil hw.ne_nil
        obtain rfl : c = colon := by simpa using hc
        show (params (colon :: (w' ++ words ws))).length ≤ _
        rw [params_colon]
        simp
      · rw [params_words_cons hw hc]
        exact Nat.succ_le_succ (ih fun v hv => hws v (List.mem_cons_of_mem w hv))

/-- **Words are read back exactly when none but the last begins with `:`.** -/
theorem params_words (hws : ∀ w ∈ ws, Word w) :
    params (words ws) = ws.map text ↔ ∀ w ∈ ws.dropLast, w.head? ≠ some colon := by
  induction ws with
  | nil => simp [words]
  | cons w ws ih =>
      have hw := hws w List.mem_cons_self
      cases ws with
      | nil =>
          show params (w ++ []) = _ ↔ _
          simp [params_single hw]
      | cons v vs =>
          have ih := ih fun x hx => hws x (List.mem_cons_of_mem w hx)
          by_cases hc : w.head? = some colon
          · -- the first word takes all others
            obtain ⟨c, w', rfl⟩ := List.exists_cons_of_ne_nil hw.ne_nil
            obtain rfl : c = colon := by simpa using hc
            have hread : params (words ((colon :: w') :: v :: vs)) = [w' ++ words (v :: vs)] :=
              params_colon _
            rw [hread]
            simp
          · rw [params_words_cons hw hc, List.map_cons, text_of_ne hc, List.cons.injEq, ih]
            simp [hc]

end IrcBot.Lib.IrcMessage
