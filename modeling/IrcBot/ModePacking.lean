/-
# Packed MODE lines (`sendq.rs`)

`take_protection` puts consecutive changes of one channel into one line.

* `cut_takeAll` — the lane comes out in its order, as many changes at once as can go together.
* `preserves_iff` — the lines keep to the limits, and they mean the same exactly when no
  argument that begins with `:` stands ahead of another one in its line.
-/
import IrcBot.ModeLine

namespace IrcBot.Sendq

open Cstr Lib.IrcMessage

/-! ### The cut of a lane -/

/-- How many bytes the line takes, as `take_protection` counts them. -/
def estimate (first : ModeItem) (its : List ModeItem) : Nat :=
  5 + first.chan.length + 3 + first.arg.length + 1 + (its.map fun it => 2 + it.arg.length + 1).sum

/-- Changes that can go out with `first`. -/
structure Together (limit : Nat) (first : ModeItem) (its : List ModeItem) : Prop where
  count : its.length + 1 ≤ limit
  chan : ∀ it ∈ its, eqIc it.chan first.chan = true
  fits : its = [] ∨ estimate first its ≤ 400

/-- What goes out at once: a line as it stands, or changes packed. -/
inductive Group where
  | verbatim (line : Str)
  | packed (first : ModeItem) (its : List ModeItem)

def Group.line : Group → Str
  | .verbatim line => line
  | .packed first its => packedLine first.chan (first :: its)

/-- How the lines of the lane go out: in their order, as many at once as can go together. -/
inductive Cut (limit : Nat) : List Str → List Group → Prop where
  | nil : Cut limit [] []
  | verbatim {line : Str} {lines : List Str} {gs : List Group} (hread : modeItemParse line = none)
      (hrest : Cut limit lines gs) : Cut limit (line :: lines) (.verbatim line :: gs)
  | packed {line : Str} {first : ModeItem} {group : List Str} {its : List ModeItem}
      {lines : List Str} {gs : List Group} (hfirst : modeItemParse line = some first)
      (hread : group.map modeItemParse = its.map some) (htogether : Together limit first its)
      (hlongest : ∀ next ∈ lines.head?, ∀ it, modeItemParse next = some it →
        ¬ Together limit first (its ++ [it]))
      (hrest : Cut limit lines gs) : Cut limit (line :: (group ++ lines)) (.packed first its :: gs)

/-- Of `lines`, those at the front that can go out with `first` and `its` make that `all`. -/
def Gathers (limit : Nat) (first : ModeItem) (its : List ModeItem) (lines : List Str)
    (all : List ModeItem) : Prop :=
  ∃ group more rest, lines = group ++ rest ∧ group.map modeItemParse = more.map some ∧
    all = its ++ more ∧ Together limit first all ∧
    ∀ next ∈ rest.head?, ∀ it, modeItemParse next = some it → ¬ Together limit first (all ++ [it])

theorem Gathers.stop {limit : Nat} {first : ModeItem} {its : List ModeItem} {lines : List Str}
    (h : Together limit first its)
    (hnot : ∀ next ∈ lines.head?, ∀ it, modeItemParse next = some it →
      ¬ Together limit first (its ++ [it])) : Gathers limit first its lines its :=
  ⟨[], [], lines, rfl, rfl, (List.append_nil its).symm, h, hnot⟩

theorem Gathers.next {limit : Nat} {first it : ModeItem} {its all : List ModeItem} {line : Str}
    {lines : List Str} (hread : modeItemParse line = some it)
    (h : Gathers limit first (its ++ [it]) lines all) :
    Gathers limit first its (line :: lines) all := by
  obtain ⟨group, more, rest, hlines, hreads, rfl, htogether, hlongest⟩ := h
  refine ⟨line :: group, it :: more, rest, by rw [hlines, List.cons_append],
    by rw [List.map_cons, List.map_cons, hread, hreads], (List.append_cons its it more).symm,
    htogether, hlongest⟩

/-- The loop stops where no more can go together. -/
theorem gathers_packLoop {limit : Nat} {first : ModeItem} (lines : List Str) :
    ∀ its, Together limit first its → ∃ all,
      packLoop limit first.chan (estimate first its) (first :: its) lines = first :: all ∧
        Gathers limit first its lines all := by
  induction lines with
  | nil =>
      intro its htogether
      exact ⟨its, rfl, .stop htogether (by simp)⟩
  | cons line lines ih =>
      intro its htogether
      have hhead {P : Str → Prop} (h : P line) : ∀ next ∈ (line :: lines).head?, P next := by
        intro next hnext
        obtain rfl : line = next := by simpa using hnext
        exact h
      by_cases hlimit : limit ≤ (first :: its).length
      · refine ⟨its, by rw [packLoop, if_pos hlimit], .stop htogether (hhead fun it _ htoo => ?_)⟩
        have hcount := htoo.count
        rw [List.length_append, List.length_singleton] at hcount
        rw [List.length_cons] at hlimit
        omega
      · cases hread : modeItemParse line with
        | none =>
            refine ⟨its, by rw [packLoop, if_neg hlimit, hread], .stop htogether (hhead ?_)⟩
            intro it hit
            cases hread.symm.trans hit
        | some it =>
            have hestimate : estimate first (its ++ [it]) =
                estimate first its + (2 + it.arg.length + 1) := by
              simp [estimate, Nat.add_assoc]
            by_cases hgoes :
                (!eqIc it.chan first.chan || decide (400 < estimate first (its ++ [it]))) = true
            · refine ⟨its, ?_, .stop htogether (hhead fun x hx htoo => ?_)⟩
              · rw [packLoop, if_neg hlimit, hread]
                dsimp only
                rw [← hestimate, if_pos hgoes]
              · obtain rfl := Option.some.inj (hread.symm.trans hx)
                have hchan := htoo.chan it (by simp)
                have hfits := htoo.fits
                simp only [hchan, Bool.not_true, Bool.false_or, decide_eq_true_eq] at hgoes
                rcases hfits with hfits | hfits
                · simp at hfits
                · omega
            · have hnext : Together limit first (its ++ [it]) := by
                simp only [Bool.or_eq_true, decide_eq_true_eq, not_or, not_lt, Bool.not_eq_true',
                  Bool.not_eq_false] at hgoes
                refine ⟨?_, fun x hx => ?_, .inr hgoes.2⟩
                · rw [List.length_append, List.length_singleton]
                  rw [List.length_cons] at hlimit
                  omega
                · rcases List.mem_append.mp hx with hx | hx
                  · exact htogether.chan x hx
                  · rw [List.mem_singleton.mp hx]
                    exact hgoes.1
              obtain ⟨all, hloop, hgathers⟩ := ih _ hnext
              refine ⟨all, ?_, .next hread hgathers⟩
              rw [packLoop, if_neg hlimit, hread]
              dsimp only
              rw [← hestimate, if_neg hgoes, ← hloop]
              rfl

/-- What `take_protection` takes out of the lane. -/
theorem takeProtection_packed {q : SendQ} {limit : Nat} (hlimit : 1 ≤ limit) {line : Str}
    {lines : List Str} {first : ModeItem} (hq : q.q .prot = line :: lines)
    (hread : modeItemParse line = some first) :
    ∃ its group rest, lines = group ++ rest ∧ group.map modeItemParse = its.map some ∧
      Together limit first its ∧
      (∀ next ∈ rest.head?, ∀ it, modeItemParse next = some it →
        ¬ Together limit first (its ++ [it])) ∧
      takeProtection q limit = (some (packedLine first.chan (first :: its)),
        { setLane q .prot rest with total := q.total - (its.length + 1) }) := by
  have hone : Together limit first [] := ⟨hlimit, by simp, .inl rfl⟩
  obtain ⟨its, hloop, group, more, rest, rfl, hreads, hall, htogether, hlongest⟩ :=
    gathers_packLoop lines [] hone
  rw [List.nil_append] at hall
  subst hall
  have hpack : packWith limit first (group ++ rest) = first :: its := by
    rw [packWith, ← hloop]
    simp [estimate]
  have hlen : group.length = its.length := by
    simpa using congrArg List.length hreads
  refine ⟨its, group, rest, rfl, hreads, htogether, hlongest, ?_⟩
  unfold takeProtection
  rw [hq]
  dsimp only
  rw [hread]
  dsimp only
  rw [hpack, List.length_cons, List.drop_succ_cons, List.drop_left' hlen]

/-- `take_protection` until the lane is empty. -/
def takeAll (limit : Nat) : Nat → SendQ → List Str × SendQ
  | 0, q => ([], q)
  | fuel + 1, q =>
      match takeProtection q limit with
      | (none, q) => ([], q)
      | (some line, q) =>
          let (lines, q) := takeAll limit fuel q
          (line :: lines, q)

/-- The lane comes out cut. -/
theorem cut_takeAll {limit : Nat} (hlimit : 1 ≤ limit) (fuel : Nat) : ∀ q : SendQ,
    (q.q .prot).length ≤ fuel → ∃ gs, Cut limit (q.q .prot) gs ∧
      (takeAll limit fuel q).1 = gs.map Group.line ∧ (takeAll limit fuel q).2.q .prot = [] := by
  induction fuel with
  | zero =>
      intro q hfuel
      have hnil := List.length_eq_zero_iff.mp (Nat.le_zero.mp hfuel)
      exact ⟨[], by rw [hnil]; exact .nil, rfl, hnil⟩
  | succ fuel ih =>
      intro q hfuel
      cases hq : q.q .prot with
      | nil =>
          have htake : takeProtection q limit = (none, q) := by
            unfold takeProtection
            rw [hq]
          rw [takeAll, htake]
          exact ⟨[], .nil, rfl, hq⟩
      | cons line lines =>
          rw [hq, List.length_cons] at hfuel
          cases hread : modeItemParse line with
          | none =>
              have htake : takeProtection q limit = lanePop q .prot := by
                unfold takeProtection
                rw [hq]
                dsimp only
                rw [hread]
              obtain ⟨gs, hcut, houts, hempty⟩ := ih
                { setLane q .prot lines with total := q.total - 1 }
                (by simpa [setLane] using Nat.le_of_succ_le_succ hfuel)
              rw [takeAll, htake, lanePop_of_cons hq]
              refine ⟨.verbatim line :: gs, .verbatim hread (by simpa [setLane] using hcut), ?_, hempty⟩
              dsimp only
              rw [houts, List.map_cons, Group.line]
          | some first =>
              obtain ⟨its, group, rest, rfl, hreads, htogether, hlongest, htake⟩ :=
                takeProtection_packed hlimit hq hread
              rw [List.length_append] at hfuel
              obtain ⟨gs, hcut, houts, hempty⟩ := ih
                { setLane q .prot rest with total := q.total - (its.length + 1) }
                (by simp only [setLane, Function.update_self]; omega)
              rw [takeAll, htake]
              refine ⟨.packed first its :: gs,
                .packed hread hreads htogether hlongest (by simpa [setLane] using hcut), ?_, hempty⟩
              dsimp only
              rw [houts, List.map_cons, Group.line]

/-! ### One way to cut it -/

theorem estimate_append (first : ModeItem) (its more : List ModeItem) :
    estimate first its ≤ estimate first (its ++ more) := by
  simp only [estimate, List.map_append, List.sum_append]
  omega

theorem Together.of_append {limit : Nat} {first : ModeItem} {its more : List ModeItem}
    (h : Together limit first (its ++ more)) : Together limit first its := by
  obtain ⟨hcount, hchan, hfits⟩ := h
  rw [List.length_append] at hcount
  refine ⟨by omega, fun it hit => hchan it (List.mem_append_left more hit), ?_⟩
  rcases hfits with hnil | hfits
  · exact .inl (List.append_eq_nil_iff.mp hnil).1
  · exact .inr (le_trans (estimate_append first its more) hfits)

/-- No group is longer than one that cannot be made longer. -/
theorem length_le_of_longest {limit : Nat} {first : ModeItem} {group group' lines lines' : List Str}
    {its its' : List ModeItem} (hread : group.map modeItemParse = its.map some)
    (hlongest : ∀ next ∈ lines.head?, ∀ it, modeItemParse next = some it →
      ¬ Together limit first (its ++ [it]))
    (hread' : group'.map modeItemParse = its'.map some) (htogether' : Together limit first its')
    (heq : group ++ lines = group' ++ lines') : group'.length ≤ group.length := by
  rcases List.append_eq_append_iff.mp heq with ⟨more, rfl, rfl⟩ | ⟨more, rfl, -⟩
  · cases more with
    | nil => simp
    | cons next more =>
        -- the next line could go too
        rw [List.map_append, hread] at hread'
        obtain ⟨its₁, its₂, rfl, hits₁, hits₂⟩ := List.map_eq_append_iff.mp hread'.symm
        obtain rfl : its₁ = its := List.map_injective_iff.mpr (Option.some_injective _) hits₁
        obtain ⟨it, its₂, rfl, hit, -⟩ := List.map_eq_cons_iff.mp hits₂
        rw [List.append_cons] at htogether'
        exact absurd htogether'.of_append (hlongest next rfl it hit.symm)
  · simp

theorem Cut.unique {limit : Nat} {lines : List Str} {gs gs' : List Group} (h : Cut limit lines gs)
    (h' : Cut limit lines gs') : gs = gs' := by
  induction h generalizing gs' with
  | nil =>
      cases h'
      rfl
  | verbatim hread _ ih =>
      cases h' with
      | verbatim _ hrest => rw [ih hrest]
      | packed hfirst _ _ _ _ => cases hread.symm.trans hfirst
  | @packed line first group its lines gs hfirst hread htogether hlongest _ ih =>
      generalize hall : line :: (group ++ lines) = all at h'
      cases h' with
      | nil => cases hall
      | verbatim hread' _ =>
          rw [← (List.cons.inj hall).1] at hread'
          cases hfirst.symm.trans hread'
      | @packed line' first' group' its' lines' gs' hfirst' hread' htogether' hlongest' hrest' =>
          obtain ⟨rfl, heq⟩ := List.cons.inj hall
          obtain rfl := Option.some.inj (hfirst.symm.trans hfirst')
          have hle := length_le_of_longest hread hlongest hread' htogether' heq
          have hle' := length_le_of_longest hread' hlongest' hread htogether heq.symm
          obtain ⟨rfl, rfl⟩ := List.append_inj heq (Nat.le_antisymm hle' hle)
          obtain rfl : its = its' :=
            List.map_injective_iff.mpr (Option.some_injective _) (hread.symm.trans hread')
          rw [ih hrest']

theorem Cut.exists {limit : Nat} (hlimit : 1 ≤ limit) (lines : List Str) :
    ∃ gs, Cut limit lines gs := by
  obtain ⟨gs, hcut, -⟩ := cut_takeAll hlimit lines.length { q := fun _ => lines } (Nat.le_refl _)
  exact ⟨gs, hcut⟩

/-- `take_protection` takes the first group. -/
theorem takeProtection_cut {q : SendQ} {limit : Nat} (hlimit : 1 ≤ limit) {gs : List Group}
    (hcut : Cut limit (q.q .prot) gs) (hne : q.q .prot ≠ []) :
    ∃ g gs' q', gs = g :: gs' ∧ takeProtection q limit = (some g.line, q') ∧
      Cut limit (q'.q .prot) gs' ∧ q'.q .proto = q.q .proto ∧ q'.q .rest = q.q .rest := by
  obtain ⟨line, lines, hq⟩ := List.exists_cons_of_ne_nil hne
  rw [hq] at hcut
  cases hread : modeItemParse line with
  | none =>
      obtain ⟨gs', hcut'⟩ := Cut.exists hlimit lines
      obtain rfl := hcut.unique (.verbatim hread hcut')
      refine ⟨_, gs', { setLane q .prot lines with total := q.total - 1 }, rfl, ?_, ?_, rfl, rfl⟩
      · unfold takeProtection
        rw [hq]
        dsimp only
        rw [hread]
        exact lanePop_of_cons hq
      · simpa [setLane] using hcut'
  | some first =>
      obtain ⟨its, group, rest, rfl, hreads, htogether, hlongest, htake⟩ :=
        takeProtection_packed hlimit hq hread
      obtain ⟨gs', hcut'⟩ := Cut.exists hlimit rest
      obtain rfl := hcut.unique (.packed hread hreads htogether hlongest hcut')
      exact ⟨_, gs', _, rfl, htake, by simpa [setLane] using hcut', rfl, rfl⟩

/-! ### What packing promises -/

/-- A packed line names one channel, and keeps to the limits. -/
def Group.Within (limit : Nat) : Group → Prop
  | .verbatim _ => True
  | .packed first its =>
      its.length + 1 ≤ limit ∧ (∀ it ∈ its, eqIc it.chan first.chan = true) ∧
        (packedLine first.chan (first :: its)).length ≤ 402

/-- No argument that begins with `:` stands ahead of another one. -/
def Group.Aligned : Group → Prop
  | .verbatim _ => True
  | .packed first its =>
      first.chan.head? = some colon ∨ ∀ a ∈ (argsOf (first :: its)).dropLast, a.head? ≠ some colon

/-- What the lines of a group mean. -/
def Group.acts (other : Bool → UInt8 → Bool) : Group → List Act
  | .verbatim line => Sendq.acts other line
  | .packed first its => (first :: its).flatMap ModeItem.acts

/-- A group whose lines can be read. -/
def Group.Ok : Group → Prop
  | .verbatim _ => True
  | .packed first its =>
      (∀ it ∈ first :: its, it.Ok) ∧ ∀ it ∈ its, eqIc it.chan first.chan = true

theorem length_letters_args_le (items : List ModeItem) : ∀ cur : UInt8,
    (signedLetters cur items).length + (packedArgs items).length ≤
      (items.map fun it => 2 + it.arg.length + 1).sum := by
  induction items with
  | nil =>
      intro cur
      exact Nat.le_refl 0
  | cons it its ih =>
      intro cur
      have hrest := ih it.sign
      have hargs : (packedArgs (it :: its)).length ≤ it.arg.length + 1 + (packedArgs its).length := by
        cases harg : it.hasArg with
        | true => simp [packedArgs, harg]
        | false => simp [packedArgs, harg]
      have hletters : (signedLetters cur (it :: its)).length ≤
          2 + (signedLetters it.sign its).length := by
        rw [signedLetters]
        split <;> simp only [List.length_append, List.length_cons, List.length_nil] <;> omega
      rw [List.map_cons, List.sum_cons]
      omega

theorem length_packedLine_le {limit : Nat} {first : ModeItem} {its : List ModeItem}
    (hok : first.Ok) (h : Together limit first its) :
    (packedLine first.chan (first :: its)).length ≤ 402 := by
  have hlen := length_letters_args_le (first :: its) 0
  have hchan := hok.chan_lt
  have harg := hok.arg_lt
  have hmax : maxChan = 65 := rfl
  have hparts : (packedLine first.chan (first :: its)).length = 5 + first.chan.length + 1 +
      (signedLetters 0 (first :: its)).length + (packedArgs (first :: its)).length + 2 := by
    simp only [packedLine, List.length_append]
    rfl
  rw [List.map_cons, List.sum_cons] at hlen
  rcases h.fits with rfl | hfits
  · rw [List.map_nil, List.sum_nil] at hlen
    omega
  · unfold estimate at hfits
    omega

theorem ok_of_read {group : List Str} : ∀ {its : List ModeItem},
    group.map modeItemParse = its.map some → ∀ it ∈ its, it.Ok := by
  intro its hread it hit
  have hmem : some it ∈ group.map modeItemParse := by
    rw [hread]
    exact List.mem_map_of_mem hit
  obtain ⟨line, -, hline⟩ := List.mem_map.mp hmem
  exact (shape_of_modeItemParse hline).ok

theorem flatMap_acts_read (other : Bool → UInt8 → Bool) (group : List Str) :
    ∀ {its : List ModeItem}, group.map modeItemParse = its.map some →
      group.flatMap (acts other) = its.flatMap ModeItem.acts := by
  induction group with
  | nil =>
      intro its hread
      obtain rfl : its = [] := List.map_eq_nil_iff.mp hread.symm
      rfl
  | cons line group ih =>
      intro its hread
      obtain ⟨it, its, rfl, hit, hits⟩ := List.map_eq_cons_iff.mp hread.symm
      rw [List.flatMap_cons, List.flatMap_cons, ih hits.symm,
        acts_of_shape other (shape_of_modeItemParse hit.symm)]

/-- Each group of a cut keeps to the limits, and its lines mean what they meant. -/
theorem Cut.groups (other : Bool → UInt8 → Bool) {limit : Nat} {lines : List Str} {gs : List Group}
    (h : Cut limit lines gs) :
    (∀ g ∈ gs, g.Ok ∧ g.Within limit) ∧
      lines.flatMap (acts other) = gs.flatMap (Group.acts other) := by
  induction h with
  | nil => exact ⟨by simp, rfl⟩
  | verbatim hread _ ih =>
      obtain ⟨hall, hacts⟩ := ih
      refine ⟨?_, by rw [List.flatMap_cons, List.flatMap_cons, hacts]; rfl⟩
      simpa [Group.Ok, Group.Within] using hall
  | @packed line first group its lines gs hfirst hread htogether _ _ ih =>
      obtain ⟨hall, hacts⟩ := ih
      have hshape := shape_of_modeItemParse hfirst
      constructor
      · intro g hg
        rcases List.mem_cons.mp hg with rfl | hg
        · refine ⟨⟨?_, htogether.chan⟩, htogether.count, htogether.chan,
            length_packedLine_le hshape.ok htogether⟩
          simpa using ⟨hshape.ok, ok_of_read hread⟩
        · exact hall g hg
      · rw [List.flatMap_cons, List.flatMap_cons, List.flatMap_append, hacts,
          flatMap_acts_read other group hread, acts_of_shape other hshape, Group.acts,
          List.flatMap_cons, List.append_assoc]

/-- A group means the same packed exactly when it is aligned. -/
theorem Group.acts_line_iff (other : Bool → UInt8 → Bool) {g : Group} (hok : g.Ok) :
    (Sendq.acts other g.line).length = (g.acts other).length ∧
      (Sendq.acts other g.line = g.acts other ↔ g.Aligned) := by
  cases g with
  | verbatim line => exact ⟨rfl, by simp [Group.Aligned, Group.line, Group.acts]⟩
  | packed first its =>
      exact ⟨length_acts_packedLine other hok.1 hok.2, acts_packedLine_iff other hok.1 hok.2⟩

/-- Lists of equally long parts are equal part by part. -/
theorem flatMap_eq_iff {α β : Type} {f g : α → List β} (l : List α)
    (h : ∀ x ∈ l, (f x).length = (g x).length) :
    l.flatMap f = l.flatMap g ↔ ∀ x ∈ l, f x = g x := by
  induction l with
  | nil => simp
  | cons x l ih =>
      have hx := h x List.mem_cons_self
      have ih := ih fun y hy => h y (List.mem_cons_of_mem x hy)
      rw [List.flatMap_cons, List.flatMap_cons, List.forall_mem_cons, ← ih]
      exact ⟨fun heq => List.append_inj heq hx, fun ⟨hhead, htail⟩ => by rw [hhead, htail]⟩

theorem modesLimit_pos (modes : Int) : 1 ≤ modesLimit modes := by
  have hdefault : isupportModesDefault = 3 := rfl
  have hmax : isupportModesMax = 12 := rfl
  unfold modesLimit
  split <;> omega

/-- What the lane comes out as. -/
abbrev outs (q : SendQ) (modes : Int) : List Str × SendQ :=
  takeAll (modesLimit modes) (q.q .prot).length q

/-- What packing promises: the lane is emptied; its lines go out in their order, those that
are no single change as they stand, the others packed within the limits; and they mean what
they meant. -/
structure Preserves (other : Bool → UInt8 → Bool) (q : SendQ) (modes : Int) : Prop where
  empty : (outs q modes).2.q .prot = []
  cut : ∃ gs, Cut (modesLimit modes) (q.q .prot) gs ∧ (outs q modes).1 = gs.map Group.line ∧
    ∀ g ∈ gs, g.Within (modesLimit modes)
  meaning : (outs q modes).1.flatMap (acts other) = (q.q .prot).flatMap (acts other)

/-- **Packing keeps its promise exactly when no packed line has an argument that begins with
`:` ahead of another one.** -/
theorem preserves_iff (other : Bool → UInt8 → Bool) (q : SendQ) (modes : Int) :
    Preserves other q modes ↔
      ∀ gs, Cut (modesLimit modes) (q.q .prot) gs → ∀ g ∈ gs, g.Aligned := by
  obtain ⟨gs, hcut, houts, hempty⟩ := cut_takeAll (modesLimit_pos modes) _ q (Nat.le_refl _)
  obtain ⟨hgroups, hacts⟩ := hcut.groups other
  have hiff := fun g hg => Group.acts_line_iff other (hgroups g hg).1
  have hmeaning : (outs q modes).1.flatMap (acts other) = (q.q .prot).flatMap (acts other) ↔
      ∀ g ∈ gs, g.Aligned := by
    rw [houts, hacts, List.flatMap_map, flatMap_eq_iff gs fun g hg => (hiff g hg).1]
    exact forall₂_congr fun g hg => (hiff g hg).2
  constructor
  · intro h gs' hcut'
    rw [hcut'.unique hcut]
    exact hmeaning.mp h.meaning
  · intro h
    exact ⟨hempty, ⟨gs, hcut, houts, fun g hg => (hgroups g hg).2⟩, hmeaning.mpr (h gs hcut)⟩

/-- A ban with a leading `:`, and one behind it. -/
def colonLane : SendQ where
  q lane := if lane = .prot then
    [str "MODE #c +b :x!*@*" ++ crlf, str "MODE #c +b y!*@*" ++ crlf] else []
  total := 2

theorem not_preserves_colon : ¬ Preserves (fun _ _ => false) colonLane isupportModesDefault := by
  intro h
  exact absurd h.meaning (by decide)

end IrcBot.Sendq
