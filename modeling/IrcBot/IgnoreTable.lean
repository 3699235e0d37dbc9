/-
# Who is ignored (`botflood.rs`)

Hosts and users share one table of 64 slots. An entry holds until it expires; what is new takes a
free slot, that of the oldest entry once that is over a minute old, or starts quiet mode.

* `BotFlood.ignoreAdd_cases` — what `ignore_add` can do.
* `ignore_table` — over a run, keys are unique, entries hold, and a failure is quiet mode.
* `user_ignored` — a user is ignored only for commands of their own, as long as no host reads
  `u:<uuid>`.
-/
import IrcBot.Botflood

namespace IrcBot.IgnoreTable

open Cstr Chancfg Chanflood Botflood Lib.Tracker

/-! ### What `ignore_add` can do -/

section

variable {f : BotFlood} {key : Str} {now ms : Int}

/-- The table is full of good entries of other keys, and `e` is the oldest of them. -/
structure Victim (f : BotFlood) (key : Str) (now : Int) (e : IgnoreEnt) : Prop where
  mem : e ∈ f.ignores
  full : ∀ a ∈ f.ignores, a.key ≠ [] ∧ now < a.untilMs
  others : ∀ a ∈ f.ignores, a.key ≠ key
  oldest : ∀ a ∈ f.ignores, e.sinceMs ≤ a.sinceMs

theorem isIgnored_iff {e : IgnoreEnt} :
    BotFlood.isIgnored now key e = true ↔ e.key ≠ [] ∧ now < e.untilMs ∧ e.key = key := by
  simp [BotFlood.isIgnored, and_assoc]

theorem expire_of_lt {e : IgnoreEnt} (h : now < e.untilMs) : BotFlood.expire now e = e := by
  unfold BotFlood.expire
  rw [if_neg]
  simp only [Bool.and_eq_true, decide_eq_true_eq, not_and]
  intro _
  omega

theorem expire_cases (now : Int) (e : IgnoreEnt) :
    BotFlood.expire now e = e ∧ (e.key ≠ [] → now < e.untilMs) ∨
      (BotFlood.expire now e).key = [] := by
  by_cases h : e.key ≠ [] ∧ e.untilMs ≤ now
  · right
    unfold BotFlood.expire
    rw [if_pos (by simpa using h)]
  · left
    constructor
    · unfold BotFlood.expire
      rw [if_neg (by simpa using h)]
    · intro hkey
      rw [not_and, not_le] at h
      exact h hkey

theorem length_swept : (f.swept now key).length = f.ignores.length := by
  simp only [BotFlood.swept, List.length_append, List.length_map, List.length_take,
    List.length_drop]
  omega

/-- The sweep leaves a slot as it is, or frees it. -/
theorem getElem?_swept {i : Nat} {e : IgnoreEnt} (h : (f.swept now key)[i]? = some e) :
    ∃ e₀, f.ignores[i]? = some e₀ ∧ (e = e₀ ∨ e.key = []) := by
  unfold BotFlood.swept at h
  dsimp only at h
  generalize (f.ignores.findIdx? (BotFlood.isIgnored now key)).getD f.ignores.length = n at h
  rw [List.getElem?_append, List.length_map, List.length_take] at h
  split at h
  · rw [List.getElem?_map, Option.map_eq_some_iff] at h
    obtain ⟨e₀, he₀, rfl⟩ := h
    rw [List.getElem?_take_of_lt (by omega)] at he₀
    refine ⟨e₀, he₀, ?_⟩
    rcases expire_cases now e₀ with ⟨heq, -⟩ | hfree
    · exact .inl heq
    · exact .inr hfree
  · rename_i hle
    rw [List.getElem?_drop] at h
    by_cases hn : n ≤ f.ignores.length
    · rw [show n + (i - min n f.ignores.length) = i by omega] at h
      exact ⟨e, h, .inl rfl⟩
    · rw [List.getElem?_eq_none (by omega)] at h
      cases h

/-- A good entry is not swept. -/
theorem swept_of_lt {i : Nat} {e : IgnoreEnt} (h : f.ignores[i]? = some e) (hlt : now < e.untilMs) :
    (f.swept now key)[i]? = some e := by
  have hi := (List.getElem?_eq_some_iff.mp h).1
  unfold BotFlood.swept
  dsimp only
  generalize (f.ignores.findIdx? (BotFlood.isIgnored now key)).getD f.ignores.length = n
  rw [List.getElem?_append, List.length_map, List.length_take]
  split
  · rw [List.getElem?_map, List.getElem?_take_of_lt (by omega), h, Option.map_some,
      expire_of_lt hlt]
  · rename_i hle
    rw [List.getElem?_drop, show n + (i - min n f.ignores.length) = i by omega]
    exact h

/-- A key without a good entry has no entry after the sweep, and what is left is good. -/
theorem swept_of_none (h : f.ignores.findIdx? (BotFlood.isIgnored now key) = none) {e : IgnoreEnt}
    (he : e ∈ f.swept now key) (hfree : e.key ≠ []) : e.key ≠ key ∧ now < e.untilMs := by
  have hswept : f.swept now key = f.ignores.map (BotFlood.expire now) := by
    simp [BotFlood.swept, h]
  rw [hswept] at he
  obtain ⟨e₀, he₀, rfl⟩ := List.mem_map.mp he
  rcases expire_cases now e₀ with ⟨heq, hgood⟩ | hempty
  · rw [heq] at hfree ⊢
    have hlt := hgood hfree
    constructor
    · intro hkey
      have hown : BotFlood.isIgnored now key e₀ = true := isIgnored_iff.mpr ⟨hfree, hlt, hkey⟩
      rw [List.findIdx?_eq_none_iff.mp h e₀ he₀] at hown
      cases hown
    · exact hlt
  · exact absurd hempty hfree

/-- When every slot holds a good entry, the sweep changes nothing. -/
theorem swept_of_full (h : ∀ a ∈ f.ignores, now < a.untilMs) : f.swept now key = f.ignores := by
  apply List.ext_getElem?
  intro i
  cases hi : f.ignores[i]? with
  | none =>
      rw [List.getElem?_eq_none_iff, length_swept]
      exact List.getElem?_eq_none_iff.mp hi
  | some e => exact swept_of_lt hi (h e (List.mem_of_getElem? hi))

/-- The slot that `ignore_add` writes, and why that one. -/
def Entered (f : BotFlood) (key : Str) (now : Int) (i : Nat) (e : IgnoreEnt) : Prop :=
  (e.key = key ∧ f.ignores[i]? = some e ∧ now < e.untilMs) ∨
    (∀ a ∈ f.swept now key, a.key ≠ [] → a.key ≠ key) ∧
      (e.key = [] ∨ Victim f key now e ∧ quietFillMs < now - e.sinceMs)

/-- `ignore_add` writes one slot of the swept table, or starts quiet mode and leaves the table. -/
theorem ignoreAdd_cases (f : BotFlood) (key : Str) (now ms : Int) :
    (∃ (i : Nat) (e : IgnoreEnt), (f.swept now key)[i]? = some e ∧ Entered f key now i e ∧
      f.ignoreAdd now key ms = (.ok (),
        { f with ignores := (f.swept now key).set i (BotFlood.entered now key ms e) })) ∨
    (∃ e, Victim f key now e ∧ now - e.sinceMs ≤ quietFillMs ∧
      f.ignoreAdd now key ms = (.error (!f.quietLogged),
        { f with quietUntilMs := now + ms, quietLogged := true })) ∨
    f.ignores = [] ∧ f.ignoreAdd now key ms = (.error false, f) := by
  unfold BotFlood.ignoreAdd
  dsimp only
  have hget {i : Nat} {e : IgnoreEnt} (h : (f.swept now key)[i]? = some e) :
      (f.swept now key).getD i {} = e := by
    simp [List.getD_eq_getElem?_getD, h]
  cases hown : f.ignores.findIdx? (BotFlood.isIgnored now key) with
  | some i =>
      obtain ⟨hlt, hentry, -⟩ := List.findIdx?_eq_some_iff_getElem.mp hown
      obtain ⟨-, hgood, hkey⟩ := isIgnored_iff.mp hentry
      have hi : f.ignores[i]? = some f.ignores[i] := List.getElem?_eq_getElem hlt
      have hswept : (f.swept now key)[i]? = some f.ignores[i] := swept_of_lt hi hgood
      left
      refine ⟨i, f.ignores[i], hswept, .inl ⟨hkey, hi, hgood⟩, ?_⟩
      rw [Option.some_or]
      dsimp only
      rw [hget hswept]
  | none =>
      have hnone := fun a (ha : a ∈ f.swept now key) (hfree : a.key ≠ []) =>
        (swept_of_none hown ha hfree).1
      rw [Option.none_or]
      cases hfree : (f.swept now key).findIdx? (fun e => e.key.isEmpty) with
      | some i =>
          obtain ⟨hlt, hempty, -⟩ := List.findIdx?_eq_some_iff_getElem.mp hfree
          have hi : (f.swept now key)[i]? = some (f.swept now key)[i] :=
            List.getElem?_eq_getElem hlt
          left
          refine ⟨i, _, hi, .inr ⟨hnone, .inl (by simpa using hempty)⟩, ?_⟩
          dsimp only
          rw [hget hi]
      | none =>
          -- every slot holds a good entry of another key
          have hused : ∀ a ∈ f.swept now key, a.key ≠ [] := by
            intro a ha hempty
            have hnot := List.findIdx?_eq_none_iff.mp hfree a ha
            rw [hempty] at hnot
            cases hnot
          have hmem : ∀ e ∈ f.ignores, e ∈ f.swept now key := by
            intro e hmem
            obtain ⟨i, he⟩ := List.mem_iff_getElem?.mp hmem
            have hlen : i < (f.swept now key).length := by
              rw [length_swept]
              exact (List.getElem?_eq_some_iff.mp he).1
            have hi : (f.swept now key)[i]? = some _ := List.getElem?_eq_getElem hlen
            obtain ⟨e₀, he₀, rfl | hempty⟩ := getElem?_swept hi
            · rw [he] at he₀
              rw [Option.some.inj he₀]
              exact List.mem_of_getElem? hi
            · exact absurd hempty (hused _ (List.mem_of_getElem? hi))
          have hsame : f.swept now key = f.ignores := by
            apply swept_of_full
            intro a ha
            exact (swept_of_none hown (hmem a ha) (hused a (hmem a ha))).2
          have hbest := found_oldest (p := ignoreShape) f.ignores
          rw [hsame] at hused hnone hget ⊢
          cases hbestEq : oldest ignoreShape f.ignores with
          | none =>
              right; right
              constructor
              · apply List.eq_nil_iff_forall_not_mem.mpr
                intro a ha
                have hempty := hbest.1 hbestEq a ha
                exact hused a ha (by simpa [ignoreShape] using hempty)
              · rfl
          | some o =>
              obtain ⟨e, he, -, hle⟩ := hbest.2 o hbestEq
              have hvictim : Victim f key now e := by
                constructor
                · exact List.mem_of_getElem? he
                · intro a ha
                  exact ⟨hused a ha, (swept_of_none hown (hmem a ha) (hused a ha)).2⟩
                · intro a ha
                  exact hnone a ha (hused a ha)
                · intro a ha
                  exact hle a ha (by simpa [ignoreShape] using hused a ha)
              dsimp only
              rw [hget he]
              split
              · rename_i hyoung
                right; left
                exact ⟨e, hvictim, hyoung, rfl⟩
              · rename_i hdue
                left
                rw [not_le] at hdue
                refine ⟨o, e, he, .inr ⟨?_, .inr ⟨hvictim, hdue⟩⟩, rfl⟩
                rw [hsame]
                exact hnone

/-- What stands in the table after a call stood there, or is the key's own. -/
theorem mem_ignoreAdd {e : IgnoreEnt} (he : e ∈ (f.ignoreAdd now key ms).2.ignores) :
    e ∈ f.ignores ∨ e.key = [] ∨ e.key = key ∧ e.untilMs = now + ms := by
  rcases ignoreAdd_cases f key now ms with ⟨i, e₀, hi, -, heq⟩ | ⟨-, -, -, heq⟩ | ⟨-, heq⟩
  · rw [heq] at he
    obtain ⟨j, hj⟩ := List.mem_iff_getElem?.mp he
    rcases getElem?_set_cases hj with ⟨-, rfl⟩ | ⟨-, hold⟩
    · right; right
      unfold BotFlood.entered
      dsimp only
      split
      · exact ⟨rfl, rfl⟩
      · rename_i hsame
        exact ⟨not_not.mp hsame, rfl⟩
    · obtain ⟨e₁, he₁, rfl | hempty⟩ := getElem?_swept hold
      · exact .inl (List.mem_of_getElem? he₁)
      · exact .inr (.inl hempty)
  · rw [heq] at he
    exact .inl he
  · rw [heq] at he
    exact .inl he

theorem length_ignoreAdd (f : BotFlood) (key : Str) (now ms : Int) :
    (f.ignoreAdd now key ms).2.ignores.length = f.ignores.length := by
  rcases ignoreAdd_cases f key now ms with ⟨i, e, -, -, heq⟩ | ⟨-, -, -, heq⟩ | ⟨-, heq⟩
  · rw [heq, List.length_set, length_swept]
  · rw [heq]
  · rw [heq]

theorem entered_key (now ms : Int) (key : Str) (e : IgnoreEnt) :
    (BotFlood.entered now key ms e).key = key := by
  unfold BotFlood.entered
  dsimp only
  split
  · rfl
  · rename_i hsame
    exact not_not.mp hsame

/-- **No key gets a second entry.** -/
theorem unique_ignoreAdd (h : Unique ignoreShape f.ignores) :
    Unique ignoreShape (f.ignoreAdd now key ms).2.ignores := by
  have hswept : Unique ignoreShape (f.swept now key) := by
    intro i j a b ha hb hafree hbfree hkey
    obtain ⟨a₀, ha₀, rfl | hempty⟩ := getElem?_swept ha
    · obtain ⟨b₀, hb₀, rfl | hempty⟩ := getElem?_swept hb
      · exact h i j a b ha₀ hb₀ hafree hbfree hkey
      · simp [ignoreShape, hempty] at hbfree
    · simp [ignoreShape, hempty] at hafree
  rcases ignoreAdd_cases f key now ms with ⟨i, e, hi, hentered, heq⟩ | ⟨-, -, -, heq⟩ | ⟨-, heq⟩
  · rw [heq]
    apply hswept.set
    intro j b hj hb hbfree hnew hbkey
    have hbk : b.key = key := hbkey.trans (entered_key now ms key e)
    rcases hentered with ⟨hkey, -, -⟩ | ⟨hnone, -⟩
    · apply hj
      refine hswept j i b e hb hi hbfree ?_ (hbk.trans hkey.symm)
      dsimp only [ignoreShape] at hbfree ⊢
      rwa [hkey, ← hbk]
    · apply hnone b (List.mem_of_getElem? hb) ?_ hbk
      simpa [ignoreShape] using hbfree
  · rw [heq]
    exact h
  · rw [heq]
    exact h

/-! ### How long an entry holds -/

/-- The key has an entry that holds until the time. -/
def Holds (f : BotFlood) (key : Str) (untilMs : Int) : Prop :=
  ∃ e ∈ f.ignores, e.key = key ∧ e.untilMs = untilMs

theorem Holds.find {untilMs : Int} (h : Holds f key untilMs) (hkey : key ≠ [])
    (hlt : now < untilMs) : f.ignoreFind now key = true := by
  obtain ⟨e, he, hek, heu⟩ := h
  apply List.any_eq_true.mpr
  refine ⟨e, he, isIgnored_iff.mpr ⟨?_, ?_, hek⟩⟩
  · rwa [hek]
  · rwa [heu]

/-- A call that does not fail has entered its key. -/
theorem holds_of_ok (h : (f.ignoreAdd now key ms).1 = .ok ()) :
    Holds (f.ignoreAdd now key ms).2 key (now + ms) := by
  rcases ignoreAdd_cases f key now ms with ⟨i, e, hi, -, heq⟩ | ⟨-, -, -, heq⟩ | ⟨-, heq⟩
  · rw [heq]
    refine ⟨_, List.mem_set (List.getElem?_eq_some_iff.mp hi).1 _, entered_key now ms key e, rfl⟩
  · rw [heq] at h
    cases h
  · rw [heq] at h
    cases h

/-- **A good entry stays**: another key takes its slot only as the oldest of a full table. -/
theorem Holds.ignoreAdd {k : Str} {untilMs : Int} (h : Holds f k untilMs) (hk : k ≠ [])
    (hne : key ≠ k) (hlt : now < untilMs) : Holds (f.ignoreAdd now key ms).2 k untilMs ∨
      ∃ e, Victim f key now e ∧ e.key = k ∧ quietFillMs < now - e.sinceMs := by
  obtain ⟨a, ha, hak, hau⟩ := h
  obtain ⟨j, hj⟩ := List.mem_iff_getElem?.mp ha
  have hjs : (f.swept now key)[j]? = some a := swept_of_lt hj (hau ▸ hlt)
  rcases ignoreAdd_cases f key now ms with ⟨i, e, hi, hentered, heq⟩ | ⟨-, -, -, heq⟩ | ⟨-, heq⟩
  · by_cases hij : i = j
    · subst hij
      obtain rfl := Option.some.inj (hi.symm.trans hjs)
      rcases hentered with ⟨hkey, -, -⟩ | ⟨-, hempty | ⟨hvictim, hdue⟩⟩
      · exact absurd (hkey.symm.trans hak) hne
      · exact absurd (hak.symm.trans hempty) hk
      · right
        exact ⟨e, hvictim, hak, hdue⟩
    · left
      rw [heq]
      refine ⟨a, List.mem_of_getElem? (i := j) ?_, hak, hau⟩
      rwa [List.getElem?_set_ne hij]
  · left
    rw [heq]
    exact ⟨a, ha, hak, hau⟩
  · left
    rw [heq]
    exact ⟨a, ha, hak, hau⟩

end

/-! ### Runs of the table -/

inductive IgnoreOp where
  | add (key : Str) (now ms : Int)
  | find (key : Str) (now : Int)
  | quiet (now : Int)
deriving DecidableEq

def IgnoreOp.now : IgnoreOp → Int
  | add _ now _ => now
  | find _ now => now
  | quiet now => now

def ignoreStep (f : BotFlood) : IgnoreOp → BotFlood
  | .add key now ms => (f.ignoreAdd now key ms).2
  | .find _ _ => f
  | .quiet now => (f.quietAt now).2

def ignoreRun (f : BotFlood) (ops : List IgnoreOp) : BotFlood := ops.foldl ignoreStep f

theorem unique_ignoreRun (ops : List IgnoreOp) : ∀ {f : BotFlood}, Unique ignoreShape f.ignores →
    Unique ignoreShape (ignoreRun f ops).ignores := by
  induction ops with
  | nil =>
      intro f h
      exact h
  | cons op ops ih =>
      intro f h
      apply ih
      cases op with
      | add key now ms => exact unique_ignoreAdd h
      | find key now => exact h
      | quiet now =>
          rw [ignoreStep, quietAt_ignores]
          exact h

theorem length_ignoreRun (ops : List IgnoreOp) : ∀ f : BotFlood,
    (ignoreRun f ops).ignores.length = f.ignores.length := by
  induction ops with
  | nil =>
      intro f
      rfl
  | cons op ops ih =>
      intro f
      refine (ih (ignoreStep f op)).trans ?_
      cases op with
      | add key now ms => exact length_ignoreAdd f key now ms
      | find key now => rfl
      | quiet now => rw [ignoreStep, quietAt_ignores]

/-- One of the calls evicts the key: the table is full, and the entry of the key is the oldest, and
over a minute old. -/
def Evicted (f : BotFlood) (ops : List IgnoreOp) (key : Str) : Prop :=
  ∃ before k now ms later e, ops = before ++ .add k now ms :: later ∧
    Victim (ignoreRun f before) k now e ∧ e.key = key ∧ quietFillMs < now - e.sinceMs

theorem Evicted.tail {f : BotFlood} {op : IgnoreOp} {ops : List IgnoreOp} {key : Str}
    (h : Evicted (ignoreStep f op) ops key) : Evicted f (op :: ops) key := by
  obtain ⟨before, k, now, ms, later, e, rfl, hvictim, hrest⟩ := h
  exact ⟨op :: before, k, now, ms, later, e, rfl, hvictim, hrest⟩

/-- An entry holds while the clock has not passed it, unless its key is added again or evicted. -/
theorem holds_ignoreRun {key : Str} {untilMs : Int} (hkey : key ≠ []) (ops : List IgnoreOp) :
    ∀ {f : BotFlood}, Holds f key untilMs → (∀ op ∈ ops, op.now < untilMs) →
      (∀ now ms, .add key now ms ∉ ops) →
      Holds (ignoreRun f ops) key untilMs ∨ Evicted f ops key := by
  induction ops with
  | nil =>
      intro f h _ _
      exact .inl h
  | cons op ops ih =>
      intro f h hclock hagain
      have hrest (hstep : Holds (ignoreStep f op) key untilMs) :
          Holds (ignoreRun f (op :: ops)) key untilMs ∨ Evicted f (op :: ops) key := by
        rcases ih hstep (fun o ho => hclock o (List.mem_cons_of_mem op ho))
          (fun now ms hmem => hagain now ms (List.mem_cons_of_mem op hmem)) with hholds | hevicted
        · exact .inl hholds
        · exact .inr hevicted.tail
      cases op with
      | add k now ms =>
          have hne : k ≠ key := by
            rintro rfl
            exact hagain now ms List.mem_cons_self
          have hstep : Holds (f.ignoreAdd now k ms).2 key untilMs ∨
              ∃ e, Victim f k now e ∧ e.key = key ∧ quietFillMs < now - e.sinceMs :=
            h.ignoreAdd hkey hne (hclock _ List.mem_cons_self)
          rcases hstep with hholds | ⟨e, hvictim, hek, hdue⟩
          · exact hrest hholds
          · right
            exact ⟨[], k, now, ms, ops, e, rfl, hvictim, hek, hdue⟩
      | find k now => exact hrest h
      | quiet now =>
          apply hrest
          obtain ⟨e, he, hek⟩ := h
          refine ⟨e, ?_, hek⟩
          rw [ignoreStep, quietAt_ignores]
          exact he

/-- Quiet mode lasts until its time. -/
theorem quietAt_of_lt {f : BotFlood} {now : Int} (hne : f.quietUntilMs ≠ 0)
    (hlt : now < f.quietUntilMs) : (f.quietAt now).1 = true := by
  have hon : ¬ (f.quietUntilMs ≠ 0 ∧ f.quietUntilMs ≤ now) := by
    rintro ⟨-, hle⟩
    omega
  unfold BotFlood.quietAt
  rw [if_neg hon]
  simpa using hne

/-- **The ignore table**, after any calls. Its keys are unique. A key that was added is found until
its time, unless it was added again, or evicted as the oldest entry of a full table. A call fails
when the table is full of young entries, and then it starts quiet mode; else it leaves quiet mode
alone. -/
theorem ignore_table (ops : List IgnoreOp) :
    Unique ignoreShape (ignoreRun {} ops).ignores ∧
    (ignoreRun {} ops).ignores.length = maxIgnores ∧
    (∀ key now ms later t, key ≠ [] → ((ignoreRun {} ops).ignoreAdd now key ms).1 = .ok () →
      (∀ op ∈ later, op.now ≤ t) → t < now + ms → (∀ now ms, .add key now ms ∉ later) →
      (ignoreRun ((ignoreRun {} ops).ignoreAdd now key ms).2 later).ignoreFind t key = true ∨
        Evicted ((ignoreRun {} ops).ignoreAdd now key ms).2 later key) ∧
    ∀ key now ms,
      (((ignoreRun {} ops).ignoreAdd now key ms).1 = .ok () ∧
        (¬ ∃ e, Victim (ignoreRun {} ops) key now e ∧ now - e.sinceMs ≤ quietFillMs) ∧
        ((ignoreRun {} ops).ignoreAdd now key ms).2.quietUntilMs = (ignoreRun {} ops).quietUntilMs ∧
        ((ignoreRun {} ops).ignoreAdd now key ms).2.quietLogged = (ignoreRun {} ops).quietLogged) ∨
      (∃ e, Victim (ignoreRun {} ops) key now e ∧ now - e.sinceMs ≤ quietFillMs) ∧
        (ignoreRun {} ops).ignoreAdd now key ms = (.error (!(ignoreRun {} ops).quietLogged),
          { ignoreRun {} ops with quietUntilMs := now + ms, quietLogged := true }) ∧
        ∀ t, now + ms ≠ 0 → t < now + ms →
          (((ignoreRun {} ops).ignoreAdd now key ms).2.quietAt t).1 = true := by
  have hlen : (ignoreRun {} ops).ignores.length = maxIgnores := by
    rw [length_ignoreRun]
    rfl
  refine ⟨unique_ignoreRun ops (unique_blank rfl), hlen, ?_, ?_⟩
  · intro key now ms later t hkey hok hclock hlt hagain
    rcases holds_ignoreRun hkey later (holds_of_ok hok)
      (fun op hop => lt_of_le_of_lt (hclock op hop) hlt) hagain with hholds | hevicted
    · exact .inl (hholds.find hkey hlt)
    · exact .inr hevicted
  · generalize ignoreRun {} ops = f at hlen
    intro key now ms
    rcases ignoreAdd_cases f key now ms with
      ⟨i, e, hi, hentered, heq⟩ | ⟨e, hvictim, hyoung, heq⟩ | ⟨hnil, -⟩
    · left
      rw [heq]
      refine ⟨rfl, ?_, rfl, rfl⟩
      rintro ⟨v, hv, hyoung⟩
      rw [swept_of_full fun a ha => (hv.full a ha).2] at hi
      have he := List.mem_of_getElem? hi
      rcases hentered with ⟨hkey, -, -⟩ | ⟨-, hempty | ⟨hvictim, hdue⟩⟩
      · exact hv.others e he hkey
      · exact (hv.full e he).1 hempty
      · have hle := hvictim.oldest v hv.mem
        have hle' := hv.oldest e hvictim.mem
        omega
    · right
      refine ⟨⟨e, hvictim, hyoung⟩, heq, ?_⟩
      intro t hne hlt
      rw [heq]
      exact quietAt_of_lt hne hlt
    · rw [hnil] at hlen
      cases hlen

/-- A host that was added at 0 for a minute is found at its end, whatever quiet mode does
meanwhile. -/
theorem ignore_table_minute : (ignoreRun ((ignoreRun {} []).ignoreAdd 0 (str "h") 60000).2
    [.quiet 10]).ignoreFind 59999 (str "h") = true := by
  rcases (ignore_table []).2.2.1 (str "h") 0 60000 [.quiet 10] 59999 (by decide) (by decide)
    (by decide) (by decide) (by simp) with h | ⟨before, k, now, ms, later, e, hops, -⟩
  · exact h
  · rcases List.singleton_eq_append_iff.mp hops with ⟨-, h⟩ | ⟨-, h⟩
    · cases h
    · cases h

/-! ### Users -/

/-- What reaches the flood counters: messages and CTCP of hosts, commands of users, looks at quiet
mode, and anything else that the bot does, settings included. -/
inductive FloodEvent where
  | msg (nuh : Str) (authorised : Bool) (now : Int)
  | ctcp (nuh : Str) (authorised : Bool) (now : Int)
  | cmd (uuid : Str) (now : Int)
  | quiet (now : Int)
  | elsewhere (b : BotState)

structure Flooded where
  bot : BotState := {}
  flood : BotFlood := {}

def Flooded.step (s : Flooded) : FloodEvent → Flooded
  | .msg nuh authorised now =>
      ⟨(msgAt s.bot s.flood nuh authorised now).2.1, (msgAt s.bot s.flood nuh authorised now).2.2⟩
  | .ctcp nuh authorised now =>
      ⟨(ctcpAt s.bot s.flood nuh authorised now).2.1, (ctcpAt s.bot s.flood nuh authorised now).2.2⟩
  | .cmd uuid now => { s with flood := (cmdAt s.bot s.flood uuid now).2 }
  | .quiet now => { s with flood := (s.flood.quietAt now).2 }
  | .elsewhere b => { s with bot := b }

def Flooded.run (s : Flooded) (events : List FloodEvent) : Flooded := events.foldl Flooded.step s

/-- What `cmd_at` answers. -/
def Flooded.answer (s : Flooded) (uuid : Str) (now : Int) : Bf := (cmdAt s.bot s.flood uuid now).1.1

/-- A stranger whose host reads as the ignore table's key of a user. -/
def FloodEvent.posesAs (uuid : Str) : FloodEvent → Prop
  | .msg nuh authorised _ | .ctcp nuh authorised _ =>
    authorised = false ∧ srcHost nuh = some (userKey uuid)
  | _ => False

/-- A command of the user that was over the limit, and what it set the time to. -/
def Warned (s : Flooded) (events : List FloodEvent) (uuid : Str) (untilMs : Int) : Prop :=
  ∃ before now later, events = before ++ .cmd uuid now :: later ∧
    (s.run before).answer uuid now = .ignoreNew ∧ untilMs = now + ignoreMs (s.run before).bot

theorem Warned.append {s : Flooded} {events : List FloodEvent} {uuid : Str} {untilMs : Int}
    (h : Warned s events uuid untilMs) (event : FloodEvent) :
    Warned s (events ++ [event]) uuid untilMs := by
  obtain ⟨before, now, later, rfl, hrest⟩ := h
  exact ⟨before, now, later ++ [event], by simp, hrest⟩

/-- One event makes an entry of the user only by a command of the user. -/
theorem mem_step {s : Flooded} {event : FloodEvent} {uuid : Str} {e : IgnoreEnt}
    (hposes : ¬ event.posesAs uuid) (he : e ∈ (s.step event).flood.ignores)
    (hkey : e.key = userKey uuid) :
    e ∈ s.flood.ignores ∨ ∃ now, event = .cmd uuid now ∧ s.answer uuid now = .ignoreNew ∧
      e.untilMs = now + ignoreMs s.bot := by
  have hused : e.key ≠ [] := by
    rw [hkey]
    intro h
    cases h
  -- what strangers do, whatever they send
  have hhost (nuh : Str) (authorised : Bool) (kind : FloodKind) (now : Int)
      (hposes : ¬ (authorised = false ∧ srcHost nuh = some (userKey uuid)))
      (he : e ∈ (hostFloodAt s.bot s.flood nuh authorised kind now).2.2.ignores) :
      e ∈ s.flood.ignores := by
    rcases hostFloodAt_flood s.bot s.flood nuh authorised kind now with
      hsame | ⟨host, g, hsrc, hauth, hg, heq⟩
    · rwa [hsame] at he
    · rw [heq] at he
      rcases mem_ignoreAdd he with hold | hempty | ⟨hk, -⟩
      · rwa [hg] at hold
      · exact absurd hempty hused
      · refine absurd ⟨hauth, ?_⟩ hposes
        rw [hsrc, ← hk, hkey]
  cases event with
  | msg nuh authorised now => exact .inl (hhost nuh authorised .botMsg now hposes he)
  | ctcp nuh authorised now => exact .inl (hhost nuh authorised .botCtcp now hposes he)
  | cmd user now =>
      rcases cmdAt_flood s.bot s.flood user now with hsame | ⟨hnew, g, hg, heq⟩
      · left
        rw [Flooded.step] at he
        rwa [← hsame]
      · have he' : e ∈ (cmdAt s.bot s.flood user now).2.ignores := he
        rw [heq] at he'
        rcases mem_ignoreAdd he' with hold | hempty | ⟨hk, hu⟩
        · left
          rwa [hg] at hold
        · exact absurd hempty hused
        · right
          obtain rfl : uuid = user := List.append_cancel_left (hkey.symm.trans hk)
          exact ⟨now, rfl, hnew, hu⟩
  | quiet now =>
      left
      rw [Flooded.step] at he
      rwa [quietAt_ignores] at he
  | elsewhere b => exact .inl he

/-- Every entry of a user comes from a command of the user. -/
theorem warned_of_mem {uuid : Str} (events : List FloodEvent) (b : BotState)
    (hposes : ∀ event ∈ events, ¬ event.posesAs uuid) :
    ∀ e ∈ ((⟨b, {}⟩ : Flooded).run events).flood.ignores, e.key = userKey uuid →
      Warned ⟨b, {}⟩ events uuid e.untilMs := by
  induction events using List.reverseRecOn with
  | nil =>
      intro e he hkey
      rw [List.eq_of_mem_replicate (he : e ∈ List.replicate maxIgnores {})] at hkey
      cases hkey
  | append_singleton events event ih =>
      intro e he hkey
      rw [Flooded.run, List.foldl_append] at he
      rcases mem_step (hposes event List.mem_concat_self) he hkey with
        hold | ⟨now, rfl, hnew, hu⟩
      · exact (ih (fun ev hev => hposes ev (List.mem_append_left [event] hev)) e hold hkey).append event
      · exact ⟨events, now, [], rfl, hnew, hu⟩

theorem answer_ignore {s : Flooded} {uuid : Str} {now : Int} (h : s.answer uuid now = .ignore) :
    ∃ e ∈ s.flood.ignores, e.key = userKey uuid ∧ now < e.untilMs := by
  have hfind : s.flood.ignoreFind now (userKey uuid) = true := by
    by_contra hnot
    unfold Flooded.answer cmdAt at h
    rw [if_neg hnot] at h
    split at h
    · cases h
    · split at h
      · cases h
      · split at h
        · cases h
        · cases h
        · cases h
  obtain ⟨e, he, hown⟩ := List.any_eq_true.mp hfind
  obtain ⟨-, hlt, hkey⟩ := isIgnored_iff.mp hown
  exact ⟨e, he, hkey, hlt⟩

/-- **Users are ignored for their own commands**: as long as no stranger's host reads as the key of
the user, a command is ignored only within the ignore time of one of the user's that was over the
limit. -/
theorem user_ignored {uuid : Str} {events : List FloodEvent} (b : BotState)
    (hposes : ∀ event ∈ events, ¬ event.posesAs uuid) {now : Int}
    (h : ((⟨b, {}⟩ : Flooded).run events).answer uuid now = .ignore) :
    ∃ before now' later, events = before ++ .cmd uuid now' :: later ∧
      ((⟨b, {}⟩ : Flooded).run before).answer uuid now' = .ignoreNew ∧
      now < now' + ignoreMs ((⟨b, {}⟩ : Flooded).run before).bot := by
  obtain ⟨e, he, hkey, hlt⟩ := answer_ignore h
  obtain ⟨before, now', later, hevents, hnew, hu⟩ := warned_of_mem events b hposes e he hkey
  rw [hu] at hlt
  exact ⟨before, now', later, hevents, hnew, hlt⟩

/-- A user who sends 31 commands at once is ignored, and says so before. -/
theorem user_ignored_flooding : ∃ before now' later,
    List.replicate 31 (FloodEvent.cmd (str "k") 7) = before ++ .cmd (str "k") now' :: later ∧
      ((⟨{}, {}⟩ : Flooded).run before).answer (str "k") now' = .ignoreNew ∧
      8 < now' + ignoreMs ((⟨{}, {}⟩ : Flooded).run before).bot := by
  apply user_ignored {}
  · intro event hevent
    rw [List.eq_of_mem_replicate hevent]
    exact fun h => h
  · decide +kernel

/-- **A stranger gets a user ignored**: six messages from a host that reads as the key of the
user. -/
theorem user_ignored_by_stranger :
    ¬ ∀ (b : BotState) (events : List FloodEvent) (uuid : Str) (now : Int),
      ((⟨b, {}⟩ : Flooded).run events).answer uuid now = .ignore →
      ∃ before now' later, events = before ++ .cmd uuid now' :: later ∧
        ((⟨b, {}⟩ : Flooded).run before).answer uuid now' = .ignoreNew ∧
        now < now' + ignoreMs ((⟨b, {}⟩ : Flooded).run before).bot := by
  intro h
  have hrun := h {} (List.replicate 6
    (.msg (str "x!y@u:0f8fad5b-d9cb-469f-a165-70867728950e") false 7))
    (str "0f8fad5b-d9cb-469f-a165-70867728950e") 8 (by decide)
  obtain ⟨before, now', later, hevents, -⟩ := hrun
  have hmem : FloodEvent.cmd (str "0f8fad5b-d9cb-469f-a165-70867728950e") now' ∈ List.replicate 6
      (FloodEvent.msg (str "x!y@u:0f8fad5b-d9cb-469f-a165-70867728950e") false 7) := by
    rw [hevents]
    exact List.mem_append_right before List.mem_cons_self
  cases List.eq_of_mem_replicate hmem

end IrcBot.IgnoreTable
