/-
# Repeat offences (`chanenf.rs`)

The count of an offender is kept under the channel and the host, in one table for all channels.
Every call also forgets what it passes of the other channels, once it is older than its own
channel's ban time.

* `offence_cases` — what a call makes of the table.
* `offences_apart` — a count is what the offender's own calls make it, as long as no other channel's
  call forgets what the offender's next call would not.
* `offences_meet` — a channel with a short ban time makes another one forget.
-/
import IrcBot.Election
import IrcBot.Jobs
import IrcBot.Lib.Tracker

namespace IrcBot.Offences

open Cstr Chancfg Chanenf Election Jobs Lib.Tracker

/-! ### One call -/

/-- The host that an offence is remembered for. -/
def offenceHost (nuh : Str) : Str := (splitOnce (byte '@') nuh).elim nuh Prod.snd

def offenceKey (chan nuh : Str) : Str :=
  trunc (lowerCopy chan maxChan ++ str "|" ++ lowerCopy (offenceHost nuh) 120) (maxChan + 128)

/-- How long the channel remembers. -/
def offenceSpan (b : BotState) (chan : Str) : Int :=
  let bt := get b ((find b chan).bind fun ci => b.chans[ci]?) .banTime
  if 0 < bt then bt * 60 else 86400

theorem offence_eq (b : BotState) (chan nuh : Str) :
    offence b chan nuh =
      let r := offenceLoop (offenceKey chan nuh) b.now (offenceSpan b chan) maxOffences 0 b.offences
        none 0
      (r.1, { b with offences := r.2 }) := rfl

def offenceShape : Shape Offence Str where
  free o := o.key.isEmpty
  key o := o.key
  last o := o.when
  fresh key := { key }
  blank := {}

/-- Some of the offences that are over have been forgotten. -/
def Swept (t span : Int) (os os' : List Offence) : Prop :=
  os'.length = os.length ∧ ∀ (j : Nat) (o' : Offence), os'[j]? = some o' →
    ∃ o, os[j]? = some o ∧ (o' = o ∨ o.key ≠ [] ∧ span ≤ t - o.when ∧ o' = { o with key := [] })

section

variable {key : Str} {t span : Int} {os : List Offence}

theorem Swept.refl (t span : Int) (os : List Offence) : Swept t span os os :=
  ⟨rfl, fun _ o' h => ⟨o', h, .inl rfl⟩⟩

theorem Swept.trans {os' os'' : List Offence} (h : Swept t span os os')
    (h' : Swept t span os' os'') : Swept t span os os'' := by
  constructor
  · exact h'.1.trans h.1
  · intro j o'' hj
    obtain ⟨o', ho', hcase'⟩ := h'.2 j o'' hj
    obtain ⟨o, ho, hcase⟩ := h.2 j o' ho'
    refine ⟨o, ho, ?_⟩
    rcases hcase' with rfl | ⟨hused, hover, rfl⟩
    · exact hcase
    · rcases hcase with rfl | ⟨-, -, rfl⟩
      · exact .inr ⟨hused, hover, rfl⟩
      · exact absurd rfl hused

/-- The offence of a slot, forgotten if it is over. -/
def forget (t span : Int) (o : Offence) : Offence :=
  if !o.key.isEmpty ∧ span ≤ t - o.when then { o with key := [] } else o

theorem forget_cases (t span : Int) (o : Offence) :
    forget t span o = o ∧ (o.key ≠ [] → t - o.when < span) ∨
      o.key ≠ [] ∧ span ≤ t - o.when ∧ forget t span o = { o with key := [] } := by
  unfold forget
  split
  · rename_i h
    exact .inr ⟨by simpa using h.1, h.2, rfl⟩
  · rename_i h
    left
    constructor
    · rfl
    · intro hused
      rw [not_and, Int.not_le] at h
      exact h (by simpa using hused)

theorem swept_set {i : Nat} {o : Offence} (h : os[i]? = some o) :
    Swept t span os (os.set i (forget t span o)) := by
  constructor
  · exact List.length_set
  · intro j o' hj
    rcases getElem?_set_cases hj with ⟨rfl, rfl⟩ | ⟨-, hold⟩
    · refine ⟨o, h, ?_⟩
      rcases forget_cases t span o with ⟨heq, -⟩ | hover
      · exact .inl heq
      · exact .inr hover
    · exact ⟨o', hold, .inl rfl⟩

/-- What a call can do: raise the count of the key, or start it in a slot that is free, or in a
table without one, in any. -/
def Called (key : Str) (t span : Int) (os : List Offence) (i : Nat)
    (r : Nat × List Offence) : Prop :=
  (∃ k o os', i ≤ k ∧ os[k]? = some o ∧ o.key = key ∧ t - o.when < span ∧ Swept t span os os' ∧
    os'[k]? = some o ∧
    r = (o.count + 1, os'.set k { o with count := o.count + 1, when := t })) ∨
  ∃ s os', Swept t span os os' ∧
    (∀ j o, i ≤ j → os[j]? = some o → o.key = key → span ≤ t - o.when) ∧
    (∀ j o, i ≤ j → os'[j]? = some o → o.key ≠ key) ∧
    ((∃ o, os'[s]? = some o ∧ o.key = []) ∨ ∀ o ∈ os', o.key ≠ []) ∧
    r = (1, os'.set s ⟨key, t, 1⟩)

/-- What is still used is not over. -/
theorem forget_used {o : Offence} (h : (forget t span o).key ≠ []) :
    forget t span o = o ∧ t - o.when < span := by
  rcases forget_cases t span o with ⟨heq, hgood⟩ | ⟨-, -, heq⟩
  · rw [heq] at h
    exact ⟨heq, hgood h⟩
  · rw [heq] at h
    exact absurd rfl h

/-- What was used and is not any more is over. -/
theorem forget_free {o : Offence} (h : (forget t span o).key = []) (hused : o.key ≠ []) :
    span ≤ t - o.when := by
  rcases forget_cases t span o with ⟨heq, -⟩ | ⟨-, hover, -⟩
  · rw [heq] at h
    exact absurd h hused
  · exact hover

section Turn

variable {i : Nat} {o : Offence}

theorem get_forget (h : os[i]? = some o) :
    (os.set i (forget t span o))[i]? = some (forget t span o) := by
  simp [(List.getElem?_eq_some_iff.mp h).1]

/-- A free slot stays free. -/
theorem free_set (h : os[i]? = some o) {s : Nat} (hs : ∃ o', os[s]? = some o' ∧ o'.key = []) :
    ∃ o', (os.set i (forget t span o))[s]? = some o' ∧ o'.key = [] := by
  obtain ⟨o', ho', hempty⟩ := hs
  by_cases hsi : i = s
  · subst hsi
    obtain rfl := Option.some.inj (h.symm.trans ho')
    refine ⟨_, get_forget h, ?_⟩
    rcases forget_cases t span o with ⟨heq, -⟩ | ⟨-, -, heq⟩
    · rwa [heq]
    · rw [heq]
  · exact ⟨o', by rwa [List.getElem?_set_ne hsi], hempty⟩

/-- What the rest of the walk does, once a slot has been seen that is not of the key. -/
theorem Called.later {r : Nat × List Offence} (hkey : key ≠ []) (ho : os[i]? = some o)
    (hne : (forget t span o).key ≠ key) (hover : o.key = key → span ≤ t - o.when)
    (h : Called key t span (os.set i (forget t span o)) (i + 1) r) : Called key t span os i r := by
  have hswept : Swept t span os (os.set i (forget t span o)) := swept_set ho
  rcases h with ⟨k, o', os', hk, ho', hown, hgood, hsw, hk', heq⟩ |
    ⟨s, os', hsw, hgone, hnew, hs, heq⟩
  · left
    rw [List.getElem?_set_ne (by omega)] at ho'
    exact ⟨k, o', os', by omega, ho', hown, hgood, hswept.trans hsw, hk', heq⟩
  · right
    refine ⟨s, os', hswept.trans hsw, ?_, ?_, hs, heq⟩
    · intro j o' hj ho' hown
      by_cases hji : i = j
      · subst hji
        obtain rfl := Option.some.inj (ho.symm.trans ho')
        exact hover hown
      · refine hgone j o' (by omega) ?_ hown
        rwa [List.getElem?_set_ne hji]
    · intro j o' hj ho'
      by_cases hji : i = j
      · subst hji
        obtain ⟨o₁, ho₁, rfl | ⟨-, -, rfl⟩⟩ := hsw.2 i o' ho'
        · rw [get_forget ho] at ho₁
          rw [← Option.some.inj ho₁]
          exact hne
        · exact hkey.symm
      · exact hnew j o' (by omega) ho'

/-- One turn of the walk. -/
theorem offenceLoop_step (ho : os[i]? = some o) (left : Nat) (slot : Option Nat) (oldest : Nat) :
    offenceLoop key t span (left + 1) i os slot oldest =
      if (forget t span o).key.isEmpty then
        offenceLoop key t span left (i + 1) (os.set i (forget t span o)) (slot.or (some i)) oldest
      else if (forget t span o).key = key then
        ((forget t span o).count + 1, (os.set i (forget t span o)).set i
          { forget t span o with count := (forget t span o).count + 1, when := t })
      else
        offenceLoop key t span left (i + 1) (os.set i (forget t span o)) slot
          (if (forget t span o).when < ((os.set i (forget t span o)).getD oldest {}).when then i
            else oldest) := by
  have hget : os.getD i {} = o := by simp [List.getD_eq_getElem?_getD, ho]
  rw [offenceLoop, hget]
  rfl

end Turn

/-- The walk from slot `i`, with what it has seen of the slots before. -/
theorem offenceLoop_spec (hkey : key ≠ []) (left : Nat) : ∀ {i oldest : Nat} {os : List Offence}
    {slot : Option Nat}, i + left = os.length →
    (∀ s, slot = some s → ∃ o, os[s]? = some o ∧ o.key = []) →
    (slot = none → ∀ j o, j < i → os[j]? = some o → o.key ≠ []) →
    Called key t span os i (offenceLoop key t span left i os slot oldest) := by
  induction left with
  | zero =>
      intro i oldest os slot hlen hslot hnone
      right
      have hend {Q : Offence → Prop} (j : Nat) (o : Offence) (hj : i ≤ j) (ho : os[j]? = some o) :
          Q o := by
        have hlt := (List.getElem?_eq_some_iff.mp ho).1
        omega
      refine ⟨slot.getD oldest, os, .refl t span os, hend, hend, ?_, rfl⟩
      cases hs : slot with
      | some s => exact .inl (hslot s hs)
      | none =>
          right
          intro o ho
          obtain ⟨j, hj⟩ := List.mem_iff_getElem?.mp ho
          have hlt := (List.getElem?_eq_some_iff.mp hj).1
          exact hnone hs j o (by omega) hj
  | succ left ih =>
      intro i oldest os slot hlen hslot hnone
      obtain ⟨o, ho⟩ : ∃ o, os[i]? = some o := ⟨_, List.getElem?_eq_getElem (by omega)⟩
      have hlen' : i + 1 + left = (os.set i (forget t span o)).length := by
        rw [List.length_set]
        omega
      rw [offenceLoop_step ho]
      split
      · rename_i hempty
        rw [List.isEmpty_iff] at hempty
        refine Called.later hkey ho (by rw [hempty]; exact hkey.symm) ?_ (ih hlen' ?_ ?_)
        · exact fun hown => forget_free hempty (hown ▸ hkey)
        · intro s hs
          cases hslot' : slot with
          | some s' =>
              rw [hslot', Option.some_or] at hs
              exact free_set ho (hslot s (hslot'.trans hs))
          | none =>
              rw [hslot', Option.none_or] at hs
              obtain rfl := Option.some.inj hs
              exact ⟨_, get_forget ho, hempty⟩
        · intro hs
          cases slot with
          | some s' => cases hs
          | none => cases hs
      · rename_i hused
        rw [List.isEmpty_iff] at hused
        obtain ⟨hsame, hgood⟩ := forget_used hused
        split
        · rename_i hown
          left
          have hset : (os.set i (forget t span o))[i]? = some (forget t span o) := get_forget ho
          have hswept : Swept t span os (os.set i (forget t span o)) := swept_set ho
          rw [hsame] at hown hset hswept ⊢
          exact ⟨i, o, _, le_rfl, ho, hown, hgood, hswept, hset, rfl⟩
        · rename_i hother
          refine Called.later hkey ho hother ?_ (ih hlen' (fun s hs => free_set ho (hslot s hs)) ?_)
          · intro hown
            rw [hsame] at hother
            exact absurd hown hother
          · intro hs j o' hj ho'
            by_cases hji : i = j
            · subst hji
              rw [get_forget ho] at ho'
              rw [← Option.some.inj ho']
              exact hused
            · rw [List.getElem?_set_ne hji] at ho'
              exact hnone hs j o' (by omega) ho'

/-- A call to a table, from its first slot. -/
theorem offence_cases (hkey : key ≠ []) (hlen : os.length = maxOffences) :
    Called key t span os 0 (offenceLoop key t span maxOffences 0 os none 0) := by
  apply offenceLoop_spec hkey
  · rw [hlen, Nat.zero_add]
  · intro s hs
    cases hs
  · intro _ j o hj
    omega

/-! ### Each key of the table -/

/-- What the table remembers of a key: the count, and when it was last raised. -/
def remembered (os : List Offence) (key : Str) : Option (Nat × Int) :=
  (lookup offenceShape os key).map fun o => (o.count, o.when)

theorem lookup_iff (h : Unique offenceShape os) (hkey : key ≠ []) {o : Offence} :
    lookup offenceShape os key = some o ↔ ∃ i : Nat, os[i]? = some o ∧ o.key = key := by
  rw [lookup_eq_some h]
  constructor
  · rintro ⟨i, hi, -, hown⟩
    exact ⟨i, hi, hown⟩
  · rintro ⟨i, hi, rfl⟩
    exact ⟨i, hi, by simpa [offenceShape] using hkey, rfl⟩

/-- The count of the next offence. -/
def nextCount (m : Option (Nat × Int)) (t span : Int) : Nat :=
  m.elim 1 fun m => if t - m.2 < span then m.1 + 1 else 1

theorem Swept.unique {os' : List Offence} (hsw : Swept t span os os') (h : Unique offenceShape os) :
    Unique offenceShape os' := by
  intro i j a b ha hb hafree hbfree hab
  obtain ⟨a₀, ha₀, rfl | ⟨-, -, rfl⟩⟩ := hsw.2 i a ha
  · obtain ⟨b₀, hb₀, rfl | ⟨-, -, rfl⟩⟩ := hsw.2 j b hb
    · exact h i j a b ha₀ hb₀ hafree hbfree hab
    · cases hbfree
  · cases hafree

/-- A call, with the slot that it writes: no other slot is of its key. -/
theorem called_set {r : Nat × List Offence} (hkey : key ≠ []) (h : Unique offenceShape os)
    (hcall : Called key t span os 0 r) :
    ∃ s os' o, Swept t span os os' ∧ r.2 = os'.set s o ∧ o.key = key ∧ o.when = t ∧ o.count = r.1 ∧
      r.1 = nextCount (remembered os key) t span ∧
      (∀ (j : Nat) (o' : Offence), j ≠ s → os'[j]? = some o' → o'.key ≠ key) ∧
      ((∃ o', os'[s]? = some o' ∧ (o'.key = [] ∨ o'.key = key)) ∨ ∀ o' ∈ os', o'.key ≠ []) := by
  rcases hcall with ⟨k, o, os', -, ho, hown, hgood, hsw, hk, rfl⟩ |
    ⟨s, os', hsw, hgone, hnew, hs, rfl⟩
  · have hlookup : remembered os key = some (o.count, o.when) := by
      rw [remembered, (lookup_iff h hkey).mpr ⟨k, ho, hown⟩]
      rfl
    refine ⟨k, os', _, hsw, rfl, hown, rfl, rfl, ?_, ?_, .inl ⟨o, hk, .inr hown⟩⟩
    · rw [hlookup]
      simp [nextCount, hgood]
    · intro j o' hj ho' hown'
      apply hj
      refine hsw.unique h j k o' o ho' hk ?_ ?_ (hown'.trans hown.symm)
      · simpa [offenceShape, hown'] using hkey
      · simpa [offenceShape, hown] using hkey
  · refine ⟨s, os', _, hsw, rfl, rfl, rfl, rfl, ?_,
      fun j o' _ ho' => hnew j o' (Nat.zero_le j) ho', ?_⟩
    · cases hlookup : lookup offenceShape os key with
      | none => rw [remembered, hlookup]; rfl
      | some o =>
          obtain ⟨j, hj, hown⟩ := (lookup_iff h hkey).mp hlookup
          have hover := hgone j o (Nat.zero_le j) hj hown
          rw [remembered, hlookup]
          simp only [nextCount, Option.map_some, Option.elim_some]
          rw [if_neg (by omega)]
    · rcases hs with ⟨o', ho', hempty⟩ | hfull
      · exact .inl ⟨o', ho', .inl hempty⟩
      · exact .inr hfull

variable {r : Nat × List Offence}

theorem called_unique (hkey : key ≠ []) (h : Unique offenceShape os)
    (hcall : Called key t span os 0 r) : Unique offenceShape r.2 := by
  obtain ⟨s, os', o, hsw, heq, hown, -, -, -, hothers, -⟩ := called_set hkey h hcall
  rw [heq]
  apply (hsw.unique h).set
  intro j o' hj ho' _ _ hsame
  exact hothers j o' hj ho' (hsame.trans hown)

theorem called_length (hkey : key ≠ []) (h : Unique offenceShape os)
    (hcall : Called key t span os 0 r) : r.2.length = os.length := by
  obtain ⟨s, os', o, hsw, heq, -⟩ := called_set hkey h hcall
  rw [heq, List.length_set, hsw.1]

/-- A slot that is free before the sweep is free after it. -/
theorem Swept.free {os' : List Offence} (hsw : Swept t span os os') (hroom : ∃ o ∈ os, o.key = []) :
    ∃ o ∈ os', o.key = [] := by
  obtain ⟨o, ho, hempty⟩ := hroom
  obtain ⟨j, hj⟩ := List.mem_iff_getElem?.mp ho
  have hlt : j < os'.length := by
    rw [hsw.1]
    exact (List.getElem?_eq_some_iff.mp hj).1
  obtain ⟨o₀, ho₀, hcase⟩ := hsw.2 j _ (List.getElem?_eq_getElem hlt)
  obtain rfl := Option.some.inj (hj.symm.trans ho₀)
  refine ⟨_, List.getElem_mem hlt, ?_⟩
  rcases hcase with heq | ⟨hused, -⟩
  · rwa [heq]
  · exact absurd hempty hused

/-- **A call raises the count of its key**, or starts it. -/
theorem remembered_own (hkey : key ≠ []) (h : Unique offenceShape os)
    (hroom : ∃ o ∈ os, o.key = []) (hcall : Called key t span os 0 r) :
    r.1 = nextCount (remembered os key) t span ∧ remembered r.2 key = some (r.1, t) := by
  have hunique := called_unique hkey h hcall
  obtain ⟨s, os', o, hsw, heq, hown, hwhen, hcount, hr, -, hslot⟩ := called_set hkey h hcall
  have hlt : s < os'.length := by
    rcases hslot with ⟨o', ho', -⟩ | hfull
    · exact (List.getElem?_eq_some_iff.mp ho').1
    · obtain ⟨o', ho', hempty⟩ := hsw.free hroom
      exact absurd hempty (hfull o' ho')
  have hplace : r.2[s]? = some o := by
    rw [heq]
    simp [hlt]
  constructor
  · exact hr
  · rw [remembered, (lookup_iff hunique hkey).mpr ⟨s, hplace, hown⟩, Option.map_some, hcount, hwhen]

/-- **What a call does to another key**: nothing, or it forgets an offence that is over by its own
ban time. -/
theorem remembered_other (hkey : key ≠ []) (h : Unique offenceShape os)
    (hroom : ∃ o ∈ os, o.key = [])
    (hcall : Called key t span os 0 r) {k : Str} (hk : k ≠ []) (hne : k ≠ key) :
    remembered r.2 k = remembered os k ∨
      remembered r.2 k = none ∧ ∃ n w, remembered os k = some (n, w) ∧ span ≤ t - w := by
  have hunique := called_unique hkey h hcall
  obtain ⟨s, os', o, hsw, heq, hown, -, -, -, -, hslot⟩ := called_set hkey h hcall
  -- an entry of the other key stood in the table before
  have hback (j : Nat) (o' : Offence) (ho' : r.2[j]? = some o') (hk' : o'.key = k) :
      os[j]? = some o' ∧ os'[j]? = some o' := by
    rw [heq] at ho'
    rcases getElem?_set_cases ho' with ⟨-, rfl⟩ | ⟨-, hold⟩
    · exact absurd (hk'.symm.trans hown) hne
    · obtain ⟨o₀, ho₀, rfl | ⟨-, -, rfl⟩⟩ := hsw.2 j o' hold
      · exact ⟨ho₀, hold⟩
      · exact absurd hk'.symm hk
  cases hlookup : lookup offenceShape os k with
  | none =>
      left
      have hnone : lookup offenceShape r.2 k = none := by
        cases hr : lookup offenceShape r.2 k with
        | none => rfl
        | some o' =>
            obtain ⟨j, hj, hk'⟩ := (lookup_iff hunique hk).mp hr
            rw [(lookup_iff h hk).mpr ⟨j, (hback j o' hj hk').1, hk'⟩] at hlookup
            cases hlookup
      rw [remembered, remembered, hnone, hlookup]
  | some o₁ =>
      obtain ⟨j, hj, hk₁⟩ := (lookup_iff h hk).mp hlookup
      have hlt : j < os'.length := by
        rw [hsw.1]
        exact (List.getElem?_eq_some_iff.mp hj).1
      have hj' : os'[j]? = some os'[j] := List.getElem?_eq_getElem hlt
      obtain ⟨o₀, ho₀, hcase⟩ := hsw.2 j _ hj'
      obtain rfl := Option.some.inj (hj.symm.trans ho₀)
      rcases hcase with hsame | ⟨-, hover, hgone⟩
      · -- the entry stays, for the slot that is written was free, or the key's own
        left
        rw [hsame] at hj'
        have hjs : s ≠ j := by
          rintro rfl
          rcases hslot with ⟨o', ho', hempty | hown'⟩ | hfull
          · obtain rfl := Option.some.inj (hj'.symm.trans ho')
            exact hk (hk₁.symm.trans hempty)
          · obtain rfl := Option.some.inj (hj'.symm.trans ho')
            exact hne (hk₁.symm.trans hown')
          · obtain ⟨o', ho', hempty⟩ := hsw.free hroom
            exact hfull o' ho' hempty
        have hstay : r.2[j]? = some o₁ := by
          rw [heq, List.getElem?_set_ne hjs]
          exact hj'
        rw [remembered, remembered, hlookup, (lookup_iff hunique hk).mpr ⟨j, hstay, hk₁⟩]
      · right
        have hnone : lookup offenceShape r.2 k = none := by
          cases hr : lookup offenceShape r.2 k with
          | none => rfl
          | some o' =>
              obtain ⟨i, hi, hk'⟩ := (lookup_iff hunique hk).mp hr
              obtain ⟨hold, hnew⟩ := hback i o' hi hk'
              have hij : i = j := by
                refine h i j o' o₁ hold hj ?_ ?_ (hk'.trans hk₁.symm)
                · simpa [offenceShape, hk'] using hk
                · simpa [offenceShape, hk₁] using hk
              subst hij
              obtain rfl := Option.some.inj (hold.symm.trans hj)
              rw [hj', hgone] at hnew
              have hkeyEq := congrArg Offence.key (Option.some.inj hnew)
              exact absurd (hk₁.symm.trans hkeyEq.symm) hk
        refine ⟨by rw [remembered, hnone]; rfl, o₁.count, o₁.when, ?_, hover⟩
        rw [remembered, hlookup]
        rfl

end

/-! ### Runs -/

/-- A call of `offence`: the bot as it is then, with its clock and its settings, the channel and the
hostmask. -/
structure Call where
  bot : BotState
  chan : Str
  nuh : Str

namespace Call

def t (c : Call) : Int := c.bot.now

/-- How long the channel of the call remembers at the time of the call. -/
def span (c : Call) : Int := offenceSpan c.bot c.chan

def key (c : Call) : Str := offenceKey c.chan c.nuh

end Call

/-- The count that a call answers, and the table after it. -/
def step (os : List Offence) (c : Call) : Nat × List Offence :=
  let r := offence { c.bot with offences := os } c.chan c.nuh
  (r.1, r.2.offences)

def after (calls : List Call) : List Offence :=
  calls.foldl (fun os c => (step os c).2) (List.replicate maxOffences {})

/-- The same channel and host, up to case. -/
def sameOffender (a c : Call) : Bool :=
  eqIc a.chan c.chan && eqIc (offenceHost a.nuh) (offenceHost c.nuh)

/-- The count that the last of the calls of one offender answers: one more than the one before,
unless that is older than the channel's ban time. -/
def ownCount (calls : List Call) : Nat :=
  (calls.foldl (fun m c => some (nextCount m c.t c.span, c.t)) none).elim 0 Prod.fst

/-- Between two calls of one offender no other call finds the first one over by its own channel's
ban time, unless the second one does. -/
def Undisturbed (calls : List Call) : Prop :=
  ∀ before a mid c later, calls = before ++ a :: (mid ++ c :: later) → a.key = c.key →
    (∀ x ∈ mid, x.key ≠ c.key) → (∃ x ∈ mid, x.span ≤ x.t - a.t) → c.span ≤ c.t - a.t

theorem key_ne_nil (c : Call) : c.key ≠ [] := by
  intro hempty
  have hlen : (trunc (lowerCopy c.chan maxChan ++ str "|" ++ lowerCopy (offenceHost c.nuh) 120)
      (maxChan + 128)).length = 0 := congrArg List.length hempty
  have hchan := length_lowerCopy_le c.chan maxChan
  have hhost := length_lowerCopy_le (offenceHost c.nuh) 120
  have hshort : (lowerCopy c.chan maxChan ++ str "|" ++ lowerCopy (offenceHost c.nuh) 120).length <
      maxChan + 128 := by
    rw [List.length_append, List.length_append]
    simp only [maxChan] at hchan ⊢
    rw [show (str "|").length = 1 from rfl]
    omega
  rw [trunc_of_lt hshort, List.length_append, List.length_append,
    show (str "|").length = 1 from rfl] at hlen
  omega

theorem key_of_sameOffender {a c : Call} (h : sameOffender a c = true) : a.key = c.key := by
  unfold sameOffender at h
  rw [Bool.and_eq_true, eqIc_iff, eqIc_iff] at h
  unfold Call.key offenceKey
  rw [lowerCopy_congr h.1, lowerCopy_congr h.2]

theorem offenceSpan_offences (b : BotState) (os : List Offence) (chan : Str) :
    offenceSpan { b with offences := os } chan = offenceSpan b chan := rfl

theorem step_eq (os : List Offence) (c : Call) :
    step os c = offenceLoop c.key c.t c.span maxOffences 0 os none 0 := by
  apply Prod.ext
  · unfold step
    rw [offence_eq, offenceSpan_offences]
    rfl
  · unfold step
    rw [offence_eq, offenceSpan_offences]
    rfl

theorem after_append (calls : List Call) (c : Call) :
    after (calls ++ [c]) = (step (after calls) c).2 := by
  rw [after, List.foldl_append]
  rfl

theorem called_after (calls : List Call) :
    Unique offenceShape (after calls) ∧ (after calls).length = maxOffences ∧
      ∀ c, Called c.key c.t c.span (after calls) 0 (step (after calls) c) := by
  induction calls using List.reverseRecOn with
  | nil =>
      refine ⟨unique_blank rfl, List.length_replicate, ?_⟩
      intro c
      rw [step_eq]
      exact offence_cases (key_ne_nil c) List.length_replicate
  | append_singleton calls c ih =>
      obtain ⟨hunique, hlen, hcall⟩ := ih
      have hlen' : (after (calls ++ [c])).length = maxOffences := by
        rw [after_append, called_length (key_ne_nil c) hunique (hcall c), hlen]
      refine ⟨?_, hlen', ?_⟩
      · rw [after_append]
        exact called_unique (key_ne_nil c) hunique (hcall c)
      · intro c'
        rw [step_eq]
        exact offence_cases (key_ne_nil c') hlen'

/-- What the calls of a key alone leave of it. -/
def ownMemory (calls : List Call) (key : Str) : Option (Nat × Int) :=
  (calls.filter fun c => c.key == key).foldl (fun m c => some (nextCount m c.t c.span, c.t)) none

theorem ownMemory_own {calls : List Call} {c : Call} :
    ownMemory (calls ++ [c]) c.key =
      some (nextCount (ownMemory calls c.key) c.t c.span, c.t) := by
  simp [ownMemory, List.filter_append]

theorem ownMemory_other {calls : List Call} {c : Call} {key : Str} (h : c.key ≠ key) :
    ownMemory (calls ++ [c]) key = ownMemory calls key := by
  simp [ownMemory, List.filter_append, h]

/-- The table remembers what the key's own calls make of it, or another call has forgotten it, as
the key's next one will. -/
def Agrees (calls : List Call) (key : Str) : Prop :=
  remembered (after calls) key = ownMemory calls key ∨
    remembered (after calls) key = none ∧ ∃ n before a mid, ownMemory calls key = some (n, a.t) ∧
      calls = before ++ a :: mid ∧ a.key = key ∧ (∀ x ∈ mid, x.key ≠ key) ∧
      ∃ x ∈ mid, x.span ≤ x.t - a.t

/-- The time of the memory is that of the last call of the key. -/
theorem last_of_ownMemory {calls : List Call} {key : Str} {n : Nat} {w : Int}
    (h : ownMemory calls key = some (n, w)) :
    ∃ before a mid, calls = before ++ a :: mid ∧ a.key = key ∧ a.t = w ∧
      ∀ x ∈ mid, x.key ≠ key := by
  induction calls using List.reverseRecOn with
  | nil => cases h
  | append_singleton calls c ih =>
      by_cases hc : c.key = key
      · subst hc
        rw [ownMemory_own] at h
        obtain ⟨-, rfl⟩ := Prod.mk.inj (Option.some.inj h)
        refine ⟨calls, c, [], rfl, rfl, rfl, ?_⟩
        intro x hx
        cases hx
      · rw [ownMemory_other hc] at h
        obtain ⟨before, a, mid, rfl, hkey, ht, hmid⟩ := ih h
        refine ⟨before, a, mid ++ [c], by simp, hkey, ht, ?_⟩
        intro x hx
        rcases List.mem_append.mp hx with hx | hx
        · exact hmid x hx
        · rwa [List.mem_singleton.mp hx]

/-- A call answers what the calls of its key alone make of it. -/
theorem step_fst {calls : List Call} {c : Call} (hroom : ∃ o ∈ after calls, o.key = [])
    (hnext : ∀ before a mid, calls = before ++ a :: mid → a.key = c.key →
      (∀ x ∈ mid, x.key ≠ c.key) →
      (∃ x ∈ mid, x.span ≤ x.t - a.t) → c.span ≤ c.t - a.t)
    (h : Agrees calls c.key) :
    (step (after calls) c).1 = nextCount (ownMemory calls c.key) c.t c.span := by
  obtain ⟨hunique, -, hcall⟩ := called_after calls
  rw [(remembered_own (key_ne_nil c) hunique hroom (hcall c)).1]
  rcases h with hsame | ⟨hgone, n, before, a, mid, hown, hcalls, hkey, hmid, hover⟩
  · rw [hsame]
  · have hspan := hnext before a mid hcalls hkey hmid hover
    rw [hgone, hown]
    simp only [nextCount, Option.elim_none, Option.elim_some]
    rw [if_neg (by omega)]

theorem agrees_after {key : Str} (hkey : key ≠ []) (calls : List Call)
    (hundisturbed : Undisturbed calls)
    (hroom : ∀ before c later, calls = before ++ c :: later → ∃ o ∈ after before, o.key = []) :
    Agrees calls key := by
  induction calls using List.reverseRecOn with
  | nil => exact .inl rfl
  | append_singleton calls c ih =>
      have hroom' := hroom calls c [] rfl
      have hih := ih (by
        intro before a mid c' later hcalls
        refine hundisturbed before a mid c' (later ++ [c]) ?_
        rw [hcalls]
        simp) (by
        intro before c' later hcalls
        refine hroom before c' (later ++ [c]) ?_
        rw [hcalls]
        simp)
      obtain ⟨hunique, -, hcall⟩ := called_after calls
      by_cases hc : c.key = key
      · subst hc
        left
        have hcount := step_fst hroom' (by
          intro before a mid hcalls
          refine hundisturbed before a mid c [] ?_
          rw [hcalls]
          simp) hih
        rw [after_append, (remembered_own (key_ne_nil c) hunique hroom' (hcall c)).2, hcount,
          ownMemory_own]
      · unfold Agrees
        rw [after_append, ownMemory_other hc]
        rcases remembered_other (key_ne_nil c) hunique hroom' (hcall c) hkey (Ne.symm hc) with
          hsame | ⟨hgone, n, w, hold, hover⟩
        · rw [hsame]
          rcases hih with hagree | ⟨hnone, n, before, a, mid, hown, rfl, ha, hmid, x, hx, hxover⟩
          · exact .inl hagree
          · right
            refine ⟨hnone, n, before, a, mid ++ [c],
              hown, by simp, ha, ?_, x, List.mem_append_left [c] hx,
              hxover⟩
            intro y hy
            rcases List.mem_append.mp hy with hy | hy
            · exact hmid y hy
            · rwa [List.mem_singleton.mp hy]
        · right
          rcases hih with hagree | ⟨hnone, -⟩
          · rw [hold] at hagree
            obtain ⟨before, a, mid, rfl, ha, rfl, hmid⟩ := last_of_ownMemory hagree.symm
            refine ⟨hgone, n, before, a, mid ++ [c], hagree.symm, by simp, ha, ?_, c,
              List.mem_append_right mid (List.mem_singleton_self c), hover⟩
            intro y hy
            rcases List.mem_append.mp hy with hy | hy
            · exact hmid y hy
            · rwa [List.mem_singleton.mp hy]
          · rw [hold] at hnone
            cases hnone

/-- **A count is the offender's own**: as long as keys tell offenders apart, the table does not
fill, and no other channel forgets an offence that the offender's next call still counts. -/
theorem offences_apart {calls : List Call}
    (hkeys : ∀ a ∈ calls, ∀ c ∈ calls, a.key = c.key → sameOffender a c = true)
    (hundisturbed : Undisturbed calls)
    (hroom : ∀ before c later, calls = before ++ c :: later → ∃ o ∈ after before, o.key = [])
    {before : List Call} {c : Call} {later : List Call} (hcalls : calls = before ++ c :: later) :
    (step (after before) c).1 = ownCount (before.filter (sameOffender · c) ++ [c]) := by
  have hagree : Agrees before c.key := by
    apply agrees_after (key_ne_nil c)
    · intro before' a mid c' later' hbefore
      refine hundisturbed before' a mid c' (later' ++ c :: later) ?_
      rw [hcalls, hbefore]
      simp
    · intro before' c' later' hbefore
      refine hroom before' c' (later' ++ c :: later) ?_
      rw [hcalls, hbefore]
      simp
  have hcount := step_fst (hroom before c later hcalls) (by
    intro before' a mid hbefore
    refine hundisturbed before' a mid c later ?_
    rw [hcalls, hbefore]
    simp) hagree
  have hfilter : before.filter (sameOffender · c) = before.filter fun a => a.key == c.key := by
    apply List.filter_congr
    intro a ha
    rw [Bool.eq_iff_iff, beq_iff_eq]
    constructor
    · exact key_of_sameOffender
    · apply hkeys a ?_ c ?_
      · rw [hcalls]
        exact List.mem_append_left _ ha
      · rw [hcalls]
        exact List.mem_append_right before List.mem_cons_self
  rw [hcount, hfilter, ownCount, List.foldl_append]
  rfl

/-- When the channels remember for the same time and the clock does not go back, nobody is
disturbed. -/
theorem undisturbed_of_span {calls : List Call} {span : Int} (hspan : ∀ c ∈ calls, c.span = span)
    (hclock : calls.Pairwise fun a c => a.t ≤ c.t) : Undisturbed calls := by
  intro before a mid c later hcalls _ _ hover
  obtain ⟨x, hx, hxover⟩ := hover
  have hxmem : x ∈ calls := by
    rw [hcalls]
    simp [hx]
  have hcmem : c ∈ calls := by
    rw [hcalls]
    simp
  have hle : x.t ≤ c.t := by
    rw [hcalls, List.pairwise_append, List.pairwise_cons, List.pairwise_append] at hclock
    exact hclock.2.1.2.2.2 x hx c List.mem_cons_self
  rw [hspan x hxmem] at hxover
  rw [hspan c hcmem]
  omega

/-- A table has room on a run if it has after each front part of it. -/
theorem room_of_inits {calls : List Call}
    (h : ∀ before ∈ calls.inits, ∃ o ∈ after before, o.key = []) :
    ∀ before c later, calls = before ++ c :: later → ∃ o ∈ after before, o.key = [] := by
  intro before c later hcalls
  apply h
  rw [List.mem_inits, hcalls]
  exact List.prefix_append before (c :: later)

/-- Two offences of one host in a channel, and one in another between them. -/
theorem offences_apart_steady :
    (step (after [⟨{ now := 0 }, str "#b", str "x!y@h"⟩, ⟨{ now := 60 }, str "#a", str "x!y@h"⟩])
      ⟨{ now := 120 }, str "#b", str "x!y@h"⟩).1 = 2 := by
  have hcalls : [⟨{ now := 0 }, str "#b", str "x!y@h"⟩, ⟨{ now := 60 }, str "#a", str "x!y@h"⟩,
        ⟨{ now := 120 }, str "#b", str "x!y@h"⟩] =
      [⟨{ now := 0 }, str "#b", str "x!y@h"⟩, ⟨{ now := 60 }, str "#a", str "x!y@h"⟩] ++
        Call.mk { now := 120 } (str "#b") (str "x!y@h") :: [] := rfl
  refine (offences_apart ?_ ?_ ?_ hcalls).trans ?_
  · decide
  · refine undisturbed_of_span (?_ : ∀ c ∈ _, Call.span c = 7200) ?_
    · decide
    · decide
  · apply room_of_inits
    decide
  · decide

/-- A bot with a channel that remembers for ten minutes, and one that remembers for the built-in two
hours. -/
def twoChannels (now : Int) : BotState :=
  { now
    chans := [{ name := str "#a", cfgActive := true, cfgTs := 1,
                cfgSet := { val := fun id => if id = .banTime then some 10 else none } },
              { name := str "#b" }] }

/-- **A channel makes another one forget**: the second offence in `#b` counts as the first, because
of an offence in `#a`. -/
theorem offences_meet :
    ¬ ∀ (calls before : List Call) (c : Call) (later : List Call), calls = before ++ c :: later →
      (calls.Pairwise fun a c => a.t ≤ c.t) →
      (∀ before c later, calls = before ++ c :: later → ∃ o ∈ after before, o.key = []) →
      (step (after before) c).1 = ownCount (before.filter (sameOffender · c) ++ [c]) := by
  intro h
  have hcount := h [⟨twoChannels 0, str "#b", str "x!y@h"⟩,
    ⟨twoChannels 700, str "#a", str "v!w@g"⟩,
      ⟨twoChannels 800, str "#b", str "x!y@h"⟩]
    [⟨twoChannels 0, str "#b", str "x!y@h"⟩, ⟨twoChannels 700, str "#a", str "v!w@g"⟩]
    ⟨twoChannels 800, str "#b", str "x!y@h"⟩ [] rfl (by decide)
    (room_of_inits (by decide))
  revert hcount
  decide

end IrcBot.Offences
