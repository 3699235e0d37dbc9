/-
# Replacing a file through another

A file is replaced by writing another one, syncing it, and renaming it over the first. Every
operation may fail, a write in the middle of its bytes, and the program may be stopped between any
two. When the power is lost, so is the content of what was not synced, and a rename may be undone
with all that came after it.

* `Kept` — what such a file is for: one value, which a loss of power sets back, but never breaks.
* `step_shows` — so it is, step by step; `run_shows`, over whole runs.
* `run_now` — what is kept is what was saved last, or an attempt after it.
-/
import Mathlib.Data.List.Forall2
import Mathlib.Tactic.Common

namespace IrcBot.Lib.AtomicFile

variable {α β : Type}

/-! ### The disk -/

/-- A file, and whether its content is on the disk. -/
structure File (α : Type) where
  content : List α
  synced : Bool

/-- A directory with the file and the one it is replaced through. Of the renames, the disk knows
none for certain: `past` is what the file was before them. -/
structure Disk (α : Type) where
  main : Option (File α) := none
  temp : Option (File α) := none
  past : List (Option (File α)) := []

inductive Op (α : Type) where
  | create
  | write (chunk : List α)
  | sync
  | rename

/-- An operation: whether it succeeds, and what is on the disk after it. -/
inductive Exec : Op α → Disk α → Bool → Disk α → Prop where
  | create (d : Disk α) : Exec .create d true { d with temp := some ⟨[], false⟩ }
  | write {d : Disk α} {f : File α} (h : d.temp = some f) (chunk : List α) :
      Exec (.write chunk) d true { d with temp := some ⟨f.content ++ chunk, false⟩ }
  | sync {d : Disk α} {f : File α} (h : d.temp = some f) :
      Exec .sync d true { d with temp := some { f with synced := true } }
  | rename {d : Disk α} {f : File α} (h : d.temp = some f) :
      Exec .rename d true { main := some f, temp := none, past := d.past ++ [d.main] }
  /-- What fails may have begun. -/
  | fails (op : Op α) (d : Disk α) (temp : Option (File α)) : Exec op d false { d with temp }

/-- Operations, one after the other, as long as they succeed. -/
inductive Runs : List (Op α) → Disk α → Bool → Disk α → Prop where
  | done (d : Disk α) : Runs [] d true d
  | next {op : Op α} {ops : List (Op α)} {d d' d'' : Disk α} {ok : Bool} :
      Exec op d true d' → Runs ops d' ok d'' → Runs (op :: ops) d ok d''
  | fails {op : Op α} {ops : List (Op α)} {d d' : Disk α} :
      Exec op d false d' → Runs (op :: ops) d false d'

/-- The program is stopped on the way. -/
inductive Stops : List (Op α) → Disk α → Disk α → Prop where
  | here (ops : List (Op α)) (d : Disk α) : Stops ops d d
  | next {op : Op α} {ops : List (Op α)} {d d' d'' : Disk α} :
      Exec op d true d' → Stops ops d' d'' → Stops (op :: ops) d d''
  | fails {op : Op α} {ops : List (Op α)} {d d' : Disk α} :
      Exec op d false d' → Stops (op :: ops) d d'

/-- A file after the power was lost. -/
inductive Survives : Option (File α) → Option (File α) → Prop where
  | none : Survives none none
  | synced (content : List α) : Survives (some ⟨content, true⟩) (some ⟨content, true⟩)
  | lost (content content' : List α) : Survives (some ⟨content, false⟩) (some ⟨content', true⟩)

/-- The file is what it was before some of the renames. -/
inductive Loses : Disk α → Disk α → Prop where
  | loses {d : Disk α} {f f' : Option (File α)} (hf : f ∈ d.main :: d.past) (h : Survives f f')
      (temp : Option (File α)) : Loses d { main := f', temp, past := [] }

/-- The file with that content replaces the first. -/
def replace (chunks : List (List α)) : List (Op α) :=
  .create :: chunks.map .write ++ [.sync, .rename]

/-! ### What an attempt leaves -/

/-- The first file is as it was. -/
def Same (d d' : Disk α) : Prop := d'.main = d.main ∧ d'.past = d.past

/-- It has that content. -/
def Replaced (content : List α) (d d' : Disk α) : Prop :=
  d'.main = some ⟨content, true⟩ ∧ d'.past = d.past ++ [d.main]

theorem Same.refl (d : Disk α) : Same d d := ⟨rfl, rfl⟩

theorem Same.trans {d d' d'' : Disk α} (h : Same d d') (h' : Same d' d'') : Same d d'' :=
  ⟨h'.1.trans h.1, h'.2.trans h.2⟩

theorem Same.replaced {content : List α} {d d' d'' : Disk α} (h : Same d d')
    (h' : Replaced content d' d'') : Replaced content d d'' :=
  ⟨h'.1, by rw [h'.2, h.1, h.2]⟩

theorem Exec.same_of_fails {op : Op α} {d d' : Disk α} (h : Exec op d false d') : Same d d' := by
  cases h
  exact ⟨rfl, rfl⟩

/-- A stopped attempt is one that fails, or one that succeeds. -/
theorem Stops.runs {ops : List (Op α)} {d d' : Disk α} (h : Stops ops d d') :
    Runs ops d true d' ∨ Runs ops d false d' := by
  induction h with
  | here ops d =>
      cases ops with
      | nil => exact .inl (.done d)
      | cons op ops => exact .inr (.fails (.fails op d d.temp))
  | next hop _ ih => exact ih.imp (.next hop) (.next hop)
  | fails hop => exact .inr (.fails hop)

/-- From a write on: `content` stands in the other file. -/
theorem runs_writes {chunks : List (List α)} {d d' : Disk α} {f : File α} {ok : Bool}
    (htemp : d.temp = some f) (h : Runs (chunks.map .write ++ [.sync, .rename]) d ok d') :
    if ok then Replaced (f.content ++ chunks.flatten) d d' else Same d d' := by
  induction chunks generalizing d f with
  | nil =>
      cases h with
      | fails hop => exact hop.same_of_fails
      | next hsync hrest =>
          cases hsync with
          | sync hf =>
              obtain rfl := Option.some.inj (htemp.symm.trans hf)
              cases hrest with
              | fails hop => exact hop.same_of_fails
              | next hrename hrest =>
                  cases hrename with
                  | rename hf' =>
                      obtain rfl := Option.some.inj hf'
                      cases hrest
                      simp [Replaced]
  | cons chunk chunks ih =>
      cases h with
      | fails hop => exact hop.same_of_fails
      | next hwrite hrest =>
          cases hwrite with
          | write hf =>
              obtain rfl := Option.some.inj (htemp.symm.trans hf)
              have hthen := ih rfl hrest
              rw [List.flatten_cons, ← List.append_assoc]
              exact hthen

/-- **All or nothing.** -/
theorem runs_replace {chunks : List (List α)} {d d' : Disk α} {ok : Bool}
    (h : Runs (replace chunks) d ok d') :
    if ok then Replaced chunks.flatten d d' else Same d d' := by
  cases h with
  | fails hop => exact hop.same_of_fails
  | next hcreate hrest =>
      cases hcreate with
      | create => exact runs_writes rfl hrest

theorem runs_writes_all (chunks : List (List α)) {d : Disk α} {f : File α}
    (htemp : d.temp = some f) :
    Runs (chunks.map .write ++ [.sync, .rename]) d true
      { main := some ⟨f.content ++ chunks.flatten, true⟩, temp := none, past := d.past ++ [d.main] } := by
  induction chunks generalizing d f with
  | nil =>
      have hrest := (Exec.rename (d := { d with temp := some { f with synced := true } }) rfl)
      rw [List.flatten_nil, List.append_nil]
      exact .next (.sync htemp) (.next hrest (.done _))
  | cons chunk chunks ih =>
      rw [List.flatten_cons, ← List.append_assoc]
      exact .next (.write htemp chunk) (ih (f := ⟨f.content ++ chunk, false⟩) rfl)

/-- Nothing has to fail. -/
theorem runs_replace_all (chunks : List (List α)) (d : Disk α) : Runs (replace chunks) d true
    { main := some ⟨chunks.flatten, true⟩, temp := none, past := d.past ++ [d.main] } :=
  .next (.create d) (runs_writes_all chunks (f := ⟨[], false⟩) rfl)

/-! ### What is kept -/

/-- The value that is kept, and those that a loss of power may bring back. -/
structure Kept (β : Type) where
  now : Option β := none
  older : List (Option β) := []

inductive Label (β : Type) where
  | saved (x : β)
  | failed (x : β)
  /-- The program was stopped as it saved. -/
  | stopped (x : β)
  | lost

def Kept.put (k : Kept β) (x : β) : Kept β := ⟨some x, k.older ++ [k.now]⟩

inductive Kept.Step : Kept β → Label β → Kept β → Prop where
  | saved (k : Kept β) (x : β) : Step k (.saved x) (k.put x)
  | failed (k : Kept β) (x : β) : Step k (.failed x) k
  | stoppedBefore (k : Kept β) (x : β) : Step k (.stopped x) k
  | stoppedAfter (k : Kept β) (x : β) : Step k (.stopped x) (k.put x)
  | lost {k : Kept β} {x : Option β} (hx : x ∈ k.now :: k.older) : Step k .lost ⟨x, []⟩

/-- One step for each of the labels. -/
inductive Steps {σ : Type} (step : σ → Label β → σ → Prop) : σ → List (Label β) → σ → Prop where
  | nil (s : σ) : Steps step s [] s
  | cons {s s' s'' : σ} {label : Label β} {labels : List (Label β)} :
      step s label s' → Steps step s' labels s'' → Steps step s (label :: labels) s''

theorem Steps.append {σ : Type} {step : σ → Label β → σ → Prop} {s s'' : σ}
    {before after : List (Label β)} (h : Steps step s (before ++ after) s'') :
    ∃ s', Steps step s before s' ∧ Steps step s' after s'' := by
  induction before generalizing s with
  | nil => exact ⟨s, .nil s, h⟩
  | cons label before ih =>
      cases h with
      | cons hstep hrest =>
          obtain ⟨s', hbefore, hafter⟩ := ih hrest
          exact ⟨s', .cons hstep hbefore, hafter⟩

/-- The value was saved on the way, or was about to be. -/
def Tried (labels : List (Label β)) (x : β) : Prop := .saved x ∈ labels ∨ .stopped x ∈ labels

theorem Tried.cons {labels : List (Label β)} {x : β} (h : Tried labels x) (label : Label β) :
    Tried (label :: labels) x :=
  h.imp (List.mem_cons_of_mem label) (List.mem_cons_of_mem label)

/-- What is kept was there before, or was tried. -/
theorem Kept.run_mem {k k' : Kept β} {labels : List (Label β)} (h : Steps Kept.Step k labels k') :
    ∀ x ∈ k'.now :: k'.older, x ∈ k.now :: k.older ∨ ∃ y, x = some y ∧ Tried labels y := by
  induction h with
  | nil k => exact fun x hx => .inl hx
  | @cons k k₁ k' label labels hstep _ ih =>
      have hput {y : β} (htried : Tried (label :: labels) y) {x : Option β}
          (hx : x ∈ (k.put y).now :: (k.put y).older) :
          x ∈ k.now :: k.older ∨ ∃ y, x = some y ∧ Tried (label :: labels) y := by
        rcases List.mem_cons.mp hx with rfl | hx
        · exact .inr ⟨y, rfl, htried⟩
        · rcases List.mem_append.mp hx with hx | hx
          · exact .inl (List.mem_cons_of_mem _ hx)
          · rw [List.mem_singleton.mp hx]
            exact .inl List.mem_cons_self
      intro x hx
      rcases ih x hx with hx | ⟨y, rfl, htried⟩
      · cases hstep with
        | saved y => exact hput (.inl List.mem_cons_self) hx
        | failed y => exact .inl hx
        | stoppedBefore y => exact .inl hx
        | stoppedAfter y => exact hput (.inr List.mem_cons_self) hx
        | lost hold =>
            rw [List.mem_singleton.mp hx]
            exact .inl hold
      · exact .inr ⟨y, rfl, htried.cons label⟩

/-- Without a loss of power, only another save takes its place. -/
theorem Kept.run_now {k k' : Kept β} {labels : List (Label β)} (h : Steps Kept.Step k labels k')
    (hpower : Label.lost ∉ labels) : k'.now = k.now ∨ ∃ y, k'.now = some y ∧ Tried labels y := by
  induction h with
  | nil k => exact .inl rfl
  | cons hstep _ ih =>
      rw [List.mem_cons, not_or] at hpower
      rcases ih hpower.2 with hnow | ⟨y, hnow, htried⟩
      · rw [hnow]
        cases hstep with
        | saved y => exact .inr ⟨y, rfl, .inl List.mem_cons_self⟩
        | failed y => exact .inl rfl
        | stoppedBefore y => exact .inl rfl
        | stoppedAfter y => exact .inr ⟨y, rfl, .inr List.mem_cons_self⟩
        | lost => exact absurd rfl hpower.1
      · exact .inr ⟨y, hnow, htried.cons _⟩

section

-- what the program may write for a value
variable (W : β → List (List α) → Prop)

/-- A program that saves its values through another file. What it leaves of that one when it fails
is of no concern. -/
inductive Step : Disk α → Label β → Disk α → Prop where
  | saved {x : β} {chunks : List (List α)} {d d' : Disk α} (hw : W x chunks)
      (h : Runs (replace chunks) d true d') : Step d (.saved x) d'
  | failed {x : β} {chunks : List (List α)} {d d' : Disk α} (hw : W x chunks)
      (h : Runs (replace chunks) d false d') (temp : Option (File α)) :
      Step d (.failed x) { d' with temp }
  /-- There is nothing to write. -/
  | refused (x : β) (d : Disk α) : Step d (.failed x) d
  | stopped {x : β} {chunks : List (List α)} {d d' : Disk α} (hw : W x chunks)
      (h : Stops (replace chunks) d d') : Step d (.stopped x) d'
  | lost {d d' : Disk α} (h : Loses d d') : Step d .lost d'

/-- The file is there, with the value in it, or it is not there. -/
inductive Holds : Option (File α) → Option β → Prop where
  | none : Holds none none
  | some {x : β} {chunks : List (List α)} (hw : W x chunks) :
      Holds (some ⟨chunks.flatten, true⟩) (some x)

structure Shows (d : Disk α) (k : Kept β) : Prop where
  main : Holds W d.main k.now
  past : List.Forall₂ (Holds W) d.past k.older

variable {W}

theorem Shows.same {d d' : Disk α} {k : Kept β} (h : Shows W d k) (hsame : Same d d') :
    Shows W d' k :=
  ⟨hsame.1 ▸ h.main, hsame.2 ▸ h.past⟩

theorem Shows.put {d d' : Disk α} {k : Kept β} {x : β} {chunks : List (List α)} (h : Shows W d k)
    (hw : W x chunks) (hnew : Replaced chunks.flatten d d') : Shows W d' (k.put x) where
  main := by
    rw [hnew.1]
    exact .some hw
  past := by
    rw [hnew.2]
    exact List.rel_append h.past (.cons h.main .nil)

/-- What holds a value is synced, so it survives. -/
theorem Holds.survives {f f' : Option (File α)} {x : Option β} (h : Holds W f x)
    (hf : Survives f f') : Holds W f' x := by
  cases h with
  | none =>
      cases hf
      exact .none
  | some hw =>
      cases hf
      exact .some hw

/-- **Step by step, the file is what is kept.** -/
theorem step_shows {d d' : Disk α} {k : Kept β} {label : Label β} (h : Shows W d k)
    (hstep : Step W d label d') : ∃ k', Kept.Step k label k' ∧ Shows W d' k' := by
  cases hstep with
  | saved hw hruns => exact ⟨_, .saved k _, h.put hw (runs_replace hruns)⟩
  | failed hw hruns temp => exact ⟨k, .failed k _,
      h.same (Same.trans (runs_replace hruns) ⟨rfl, rfl⟩)⟩
  | refused x => exact ⟨k, .failed k x, h⟩
  | stopped hw hstops =>
      rcases hstops.runs with hruns | hruns
      · exact ⟨_, .stoppedAfter k _, h.put hw (runs_replace hruns)⟩
      · exact ⟨k, .stoppedBefore k _, h.same (runs_replace hruns)⟩
  | lost hlost =>
      cases hlost with
      | @loses f f' hf hsurvives temp =>
          have hall : List.Forall₂ (Holds W) (d.main :: d.past) (k.now :: k.older) := .cons h.main h.past
          obtain ⟨i, hi, rfl⟩ := List.mem_iff_getElem.mp hf
          have hlt := hall.length_eq ▸ hi
          have hx := List.getElem_mem hlt
          have hholds : Holds W (d.main :: d.past)[i] (k.now :: k.older)[i] := hall.get hi hlt
          exact ⟨⟨_, []⟩, .lost hx, hholds.survives hsurvives, .nil⟩

/-- **Over whole runs.** -/
theorem run_shows {d d' : Disk α} {k : Kept β} {labels : List (Label β)} (h : Shows W d k)
    (hrun : Steps (Step W) d labels d') : ∃ k', Steps Kept.Step k labels k' ∧ Shows W d' k' := by
  induction hrun generalizing k with
  | nil => exact ⟨k, .nil k, h⟩
  | cons hstep _ ih =>
      obtain ⟨k₁, hnext, hshows⟩ := step_shows h hstep
      obtain ⟨k₂, hsteps, hshows⟩ := ih hshows
      exact ⟨k₂, .cons hnext hsteps, hshows⟩

theorem shows_empty : Shows W ({} : Disk α) ({} : Kept β) := ⟨.none, .nil⟩

/-- **The file is whole**: it is one that was tried, if there is one. -/
theorem run_whole {d : Disk α} {labels : List (Label β)} (hrun : Steps (Step W) {} labels d) :
    ∃ x, Holds W d.main x ∧ ∀ y, x = some y → Tried labels y := by
  obtain ⟨k, hsteps, hshows⟩ := run_shows shows_empty hrun
  refine ⟨k.now, hshows.main, fun y hy => ?_⟩
  rcases Kept.run_mem hsteps k.now List.mem_cons_self with hnow | ⟨z, hz, htried⟩
  · cases (List.mem_singleton.mp hnow).symm.trans hy
  · obtain rfl := Option.some.inj (hy.symm.trans hz)
    exact htried

/-- **A save stands** until the next one, or until the power is lost. -/
theorem run_now {d : Disk α} {before after : List (Label β)} {x : β}
    (hrun : Steps (Step W) {} (before ++ .saved x :: after) d) (hpower : Label.lost ∉ after) :
    ∃ y, Holds W d.main (some y) ∧ (y = x ∨ Tried after y) := by
  obtain ⟨k, hsteps, hshows⟩ := run_shows shows_empty hrun
  obtain ⟨k₁, -, hafter⟩ := hsteps.append
  cases hafter with
  | cons hstep hrest =>
      cases hstep with
      | saved =>
          have hmain := hshows.main
          rcases Kept.run_now hrest hpower with hnow | ⟨y, hnow, htried⟩
          · rw [hnow] at hmain
            exact ⟨x, hmain, .inl rfl⟩
          · rw [hnow] at hmain
            exact ⟨y, hmain, .inr htried⟩

end

end IrcBot.Lib.AtomicFile
