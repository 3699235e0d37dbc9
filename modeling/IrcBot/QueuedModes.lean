/-
# What queued MODE lines come to (`sendq.rs`)

MODE lines that wait together leave out those that are there already, and go out packed.
Whether the channel then ends up as the lines meant it is a question of what is last written
to each of its slots: who has which status, the lists, the key, the limit and the flags.

* `queuedModes_iff` — the lines that go out come to the same exactly when they write the same
  last to each slot.
* `left_firsts_iff` — the repetitions that are left out make no difference exactly when they undo
  no line between.
* `queuedModes_iff_neverUndone` — so where no `:` strikes, the queue keeps the effect of the lines
  exactly then.
-/
import IrcBot.Lib.Overwrite
import IrcBot.ModePacking

namespace IrcBot.Sendq

open Cstr Lib.IrcMessage

/-! ### The modes of the channels -/

/-- A place in the modes of a channel. -/
inductive Slot where
  /-- A status or a list, and who or what is in it, folded to lower case. -/
  | entry (letter : UInt8) (name : Str)
  /-- A flag, the key or the limit. -/
  | setting (letter : UInt8)
deriving DecidableEq

/-- The key or the limit: there is one, whatever the argument. -/
def isValue (letter : UInt8) : Bool := letter == byte 'k' || letter == byte 'l'

/-- What a change writes: the slot, and what it is set to. A letter without the argument that
it takes asks for a list, or is refused. -/
def written (other : Bool → UInt8 → Bool) : Act → Option ((Str × Slot) × Option Str)
  | .line _ => none
  | .mode chan ((adding, letter), arg) =>
      if takesArg other (adding, letter) && arg.isNone then none
      else
        let slot := if isValue letter then .setting letter else
          match arg with
          | some a => .entry letter (a.map lower)
          | none => .setting letter
        some ((chan, slot), if adding then some (if isValue letter then arg.getD [] else []) else none)

/-- What is written, in this order. -/
def writes (other : Bool → UInt8 → Bool) (as : List Act) : List ((Str × Slot) × Option Str) :=
  as.filterMap (written other)

/-- The modes of the channels after some lines. A slot that is not set holds `none`. -/
def applyLines (other : Bool → UInt8 → Bool) (lines : List Str) (s : Str × Slot → Option Str) :
    Str × Slot → Option Str :=
  Lib.Overwrite.run s (writes other (lines.flatMap (acts other)))

/-! ### What the lane keeps -/

/-- A line joins the lane, unless it is there. -/
def queueUp (lane : List Str) (line : Str) : List Str :=
  if line ∈ lane then lane else lane ++ [line]

/-- The lines that are not equal to an earlier one. -/
def firsts (lines : List Str) : List Str := lines.foldl queueUp []

def enqueueAll (w : Wire) (lines : List Str) : Wire :=
  lines.foldl (fun w line => (enqueue w line).2) w

/-- Neither the line nor one that waits is dropped for want of room. -/
structure Kept (w : Wire) (line : Str) : Prop where
  told : (enqueue w line).1 ≠ -1
  keeps : w.q.q .prot <+: (enqueue w line).2.q.q .prot

inductive AllKept : Wire → List Str → Prop where
  | nil (w : Wire) : AllKept w []
  | cons {w : Wire} {line : Str} {lines : List Str} (h : Kept w line)
      (hs : AllKept (enqueue w line).2 lines) : AllKept w (line :: lines)

/-- Nothing but protection lines waits, and the link is up. -/
structure Alone (w : Wire) : Prop where
  up : Up w
  proto : w.q.q .proto = []
  rest : w.q.q .rest = []

theorem queuedLine_of_fits {line : Str} (h : Fits line) : queuedLine line = line := by
  obtain ⟨hlen, body, rfl⟩ := h
  have hmin : min ((body ++ crlf).length - 2) sendqLineMax = body.length := by
    rw [List.length_append, show crlf.length = 2 from rfl] at *
    have hmax : sendqLineMax = 510 := rfl
    omega
  rw [queuedLine, hmin, List.take_left]

theorem isQueued_of_mem {q : SendQ} {line : Str} (h : Fits line) (hmem : line ∈ q.q .prot) :
    isQueued q .prot line = true := by
  obtain ⟨hlen, body, rfl⟩ := h
  have hmin : min ((body ++ crlf).length - 2) sendqLineMax = body.length := by
    rw [List.length_append, show crlf.length = 2 from rfl] at *
    have hmax : sendqLineMax = 510 := rfl
    omega
  unfold isQueued
  rw [hmin]
  simp only [beq_self_eq_true, Bool.true_and, List.any_eq_true]
  exact ⟨_, hmem, by simp [crlf]⟩

/-- While nothing leaves the lane, a line joins it unless it is there. -/
theorem enqueue_of_kept {w : Wire} {line : Str} (hhold : 0 < w.q.hold) (halone : Alone w)
    (hfits : ∀ x ∈ w.q.q .prot, Fits x) (hlane : laneOf line = .prot) (hline : Fits line)
    (hkept : Kept w line) :
    Alone (enqueue w line).2 ∧ (enqueue w line).2.q.q .prot = queueUp (w.q.q .prot) line ∧
      (enqueue w line).2.q.hold = w.q.hold ∧ (enqueue w line).2.modes = w.modes := by
  obtain ⟨htold, hkeeps⟩ := hkept
  obtain ⟨hup, hproto, hrest⟩ := halone
  have hlen : ¬ line.length < 2 := by
    obtain ⟨-, body, rfl⟩ := hline
    simp [crlf]
  have hqueued := queuedLine_of_fits hline
  unfold enqueue at *
  rw [if_neg hlen, hlane] at *
  dsimp only at *
  by_cases hdup : isQueued w.q .prot line = true
  · have hmem := mem_of_isQueued (fun x hx => (hfits x hx).2) hdup
    rw [hqueued] at hmem
    rw [if_pos hdup]
    exact ⟨⟨hup, hproto, hrest⟩, by rw [queueUp, if_pos hmem], rfl, rfl⟩
  · have hnew : line ∉ w.q.q .prot := fun hmem => hdup (isQueued_of_mem hline hmem)
    rw [if_neg hdup] at *
    have hmake : makeRoom w.q .prot = (true, w.q) := by
      unfold makeRoom
      by_cases hfull : w.q.total < maxSendq
      · exact if_pos hfull
      · -- a full queue refuses the line, or its lane loses another one
        have hvictim : victim w.q .prot =
            if !(w.q.q .prot).isEmpty then some .prot else none := by
          unfold victim
          rw [hrest]
          rfl
        cases hprot : w.q.q .prot with
        | nil =>
            rw [hprot] at hvictim
            unfold makeRoom at htold
            rw [if_neg hfull, hvictim] at htold
            exact absurd rfl htold
        | cons x xs =>
            rw [hprot] at hvictim hnew
            unfold makeRoom at hkeeps
            rw [if_neg hfull, hvictim, hprot] at hkeeps
            simp only [List.isEmpty_cons, Bool.not_false, if_true] at hkeeps
            rw [lanePop_of_cons hprot] at hkeeps
            have hkeeps' : x :: xs <+: xs ++ [line] := by
              rw [if_neg (by show ¬ w.q.hold = 0; omega)] at hkeeps
              simpa [setLane, hqueued] using hkeeps
            have hsame := hkeeps'.eq_of_length (by simp)
            exact absurd (by rw [hsame]; simp) hnew
    rw [hmake]
    dsimp only
    rw [if_neg (by show ¬ w.q.hold = 0; omega)]
    refine ⟨⟨⟨hup.connected, hup.sock, hup.writes⟩, ?_, ?_⟩, ?_, rfl, rfl⟩
    · exact hproto
    · exact hrest
    · rw [queueUp, if_neg hnew, hqueued]
      show Function.update w.q.q .prot (w.q.q .prot ++ [line]) .prot = w.q.q .prot ++ [line]
      rw [Function.update_self]

theorem mem_queueUp {lane : List Str} {line x : Str} (h : x ∈ queueUp lane line) :
    x ∈ lane ∨ x = line := by
  unfold queueUp at h
  split at h
  · exact .inl h
  · simpa using h

/-- **The lane ends up with the lines that are not equal to an earlier one.** -/
theorem enqueueAll_of_kept {w : Wire} {lines : List Str} (hkept : AllKept w lines)
    (hhold : 0 < w.q.hold) (halone : Alone w) (hfits : ∀ x ∈ w.q.q .prot, Fits x)
    (hlines : ∀ line ∈ lines, Fits line ∧ laneOf line = .prot) :
    Alone (enqueueAll w lines) ∧
      (enqueueAll w lines).q.q .prot = lines.foldl queueUp (w.q.q .prot) ∧
      (enqueueAll w lines).modes = w.modes := by
  induction hkept with
  | nil w => exact ⟨halone, rfl, rfl⟩
  | @cons w line lines h _ ih =>
      obtain ⟨hline, hlane⟩ := hlines line List.mem_cons_self
      obtain ⟨halone', hprot, hhold', hmodes⟩ := enqueue_of_kept hhold halone hfits hlane hline h
      have hfits' : ∀ x ∈ (enqueue w line).2.q.q .prot, Fits x := by
        intro x hx
        rw [hprot] at hx
        rcases mem_queueUp hx with hx | rfl
        · exact hfits x hx
        · exact hline
      obtain ⟨hend, hlanes, hlimit⟩ := ih (by rw [hhold']; exact hhold) halone' hfits'
        fun x hx => hlines x (List.mem_cons_of_mem line hx)
      rw [hprot] at hlanes
      exact ⟨hend, hlanes, hlimit.trans hmodes⟩

/-! ### What goes out -/

/-- From `w` to `w'` some of the groups go out, and the others wait. -/
structure Flushes (w w' : Wire) : Prop where
  alone : Alone w'
  modes : w'.modes = w.modes
  cut : ∀ gs, Cut (modesLimit w.modes) (w.q.q .prot) gs → ∃ out gs', gs = out ++ gs' ∧
    w'.raw = w.raw ++ out.map Group.line ∧ Cut (modesLimit w.modes) (w'.q.q .prot) gs'

theorem Flushes.of_eq {w w' : Wire} (h : Alone w') (hmodes : w'.modes = w.modes)
    (hraw : w'.raw = w.raw) (hq : w'.q.q .prot = w.q.q .prot) : Flushes w w' :=
  ⟨h, hmodes, fun gs hcut => ⟨[], gs, rfl, by rw [hraw]; simp, by rwa [hq]⟩⟩

theorem Flushes.trans {w w' w'' : Wire} (h : Flushes w w') (h' : Flushes w' w'') :
    Flushes w w'' := by
  refine ⟨h'.alone, h'.modes.trans h.modes, fun gs hcut => ?_⟩
  obtain ⟨out, gs', rfl, hraw, hcut'⟩ := h.cut gs hcut
  obtain ⟨out', gs'', rfl, hraw', hcut''⟩ := h'.cut gs' (by rwa [h.modes])
  refine ⟨out ++ out', gs'', (List.append_assoc _ _ _).symm, ?_, by rwa [h.modes] at hcut''⟩
  rw [hraw', hraw, List.map_append, List.append_assoc]

theorem flushes_drainLoop (fuel : Nat) : ∀ (w : Wire) (sent : Int), Alone w →
    Flushes w (drainLoop fuel w sent).2 := by
  induction fuel with
  | zero =>
      intro w sent halone
      exact .of_eq halone rfl rfl rfl
  | succ fuel ih =>
      intro w sent halone
      obtain ⟨hup, hproto, hrest⟩ := halone
      unfold drainLoop
      split
      · exact .of_eq ⟨hup, hproto, hrest⟩ rfl rfl rfl
      · rw [if_neg (by simp [hup.connected])]
        by_cases hprot : w.q.q .prot = []
        · have hnext : nextLine w = (none, w.q) := by
            unfold nextLine lanePop
            rw [hproto, hprot, hrest]
            rfl
          rw [hnext]
          exact .of_eq ⟨⟨hup.connected, hup.sock, hup.writes⟩, hproto, hrest⟩ rfl rfl rfl
        · obtain ⟨gs, hcut⟩ := Cut.exists (modesLimit_pos w.modes) (w.q.q .prot)
          obtain ⟨g, gs', q, rfl, htake, hcut', hproto', hrest'⟩ :=
            takeProtection_cut (modesLimit_pos w.modes) hcut hprot
          have hnext : nextLine w = (some g.line, q) := by
            unfold nextLine
            rw [hproto, ← htake]
            cases hp : w.q.q .prot with
            | nil => exact absurd hp hprot
            | cons line lines => rfl
          rw [hnext]
          dsimp only
          have hsend : Up { w with q := { q with creditMs := q.creditMs - q.intervalMs } } :=
            ⟨hup.connected, hup.sock, hup.writes⟩
          rw [writeRaw_of_up hsend]
          dsimp only
          have halone' : Alone { w with
              q := { q with creditMs := q.creditMs - q.intervalMs }, raw := w.raw ++ [g.line] } :=
            ⟨⟨hup.connected, hup.sock, hup.writes⟩, hproto'.trans hproto, hrest'.trans hrest⟩
          refine Flushes.trans ⟨halone', rfl, fun gs₁ hcut₁ => ?_⟩ (ih _ (sent + 1) halone')
          obtain rfl := hcut₁.unique hcut
          exact ⟨[g], gs', rfl, rfl, hcut'⟩

theorem flushes_drain {w : Wire} (h : Alone w) : Flushes w (drain w).2 := by
  obtain ⟨hup, hproto, hrest⟩ := id h
  unfold drain
  split
  · exact .of_eq h rfl rfl rfl
  · have halone : Alone { w with q := refill w.q w.nowMs } :=
      ⟨⟨hup.connected, hup.sock, hup.writes⟩, hproto, hrest⟩
    exact Flushes.trans (.of_eq halone rfl rfl rfl) (flushes_drainLoop _ _ 0 halone)

/-- What empties the queue. -/
def Emptying (_ : Wire) (op : Op) : Prop :=
  op = .drain ∨ op = .release ∨ op = .hold ∨ op = .nextMs ∨ ∃ ms, op = .clock ms

theorem flushes_run {w : Wire} {op : Op} (h : Alone w) (hok : Emptying w op) :
    Flushes w (op.run w).2 := by
  obtain ⟨hup, hproto, hrest⟩ := id h
  have hup' {q : SendQ} {ms : Int} : Up { w with q, nowMs := ms } :=
    ⟨hup.connected, hup.sock, hup.writes⟩
  rcases hok with rfl | rfl | rfl | rfl | ⟨ms, rfl⟩
  · exact flushes_drain h
  · show Flushes w (release w)
    unfold release
    split
    · exact .of_eq h rfl rfl rfl
    · dsimp only
      have hheld : Alone { w with q := { w.q with hold := w.q.hold - 1 } } := ⟨hup', hproto, hrest⟩
      split
      · exact Flushes.trans (.of_eq hheld rfl rfl rfl) (flushes_drain hheld)
      · exact .of_eq hheld rfl rfl rfl
  · exact .of_eq ⟨hup', hproto, hrest⟩ rfl rfl rfl
  · have hnext : (nextMs w.q w.nowMs).2.q = w.q.q := by
      unfold nextMs
      split
      · rfl
      · dsimp only
        split <;> rfl
    exact .of_eq ⟨hup', by rw [← hproto, ← hnext]; rfl, by rw [← hrest, ← hnext]; rfl⟩ rfl rfl
      (congrFun hnext .prot)
  · exact .of_eq ⟨hup', hproto, hrest⟩ rfl rfl rfl

/-- The lines that a run wrote. -/
def wrote (ds : List Done) : List Str := ds.flatMap (·.wrote)

theorem flushes_of_run {w w' : Wire} {ds : List Done} (h : Run Emptying w w' ds)
    (halone : Alone w) : Flushes w w' ∧ w'.raw = w.raw ++ wrote ds := by
  induction h with
  | start => exact ⟨.of_eq halone rfl rfl rfl, (List.append_nil _).symm⟩
  | @step w' ds _ op hok ih =>
      obtain ⟨hflushes, hraw⟩ := ih
      have hnext := flushes_run hflushes.alone hok
      obtain ⟨gs, hcut⟩ := Cut.exists (modesLimit_pos w'.modes) (w'.q.q .prot)
      obtain ⟨out, gs', -, hwrote, -⟩ := hnext.cut gs hcut
      refine ⟨hflushes.trans hnext, ?_⟩
      rw [hwrote, List.drop_left, wrote, List.flatMap_append, List.flatMap_singleton,
        ← List.append_assoc, ← wrote, ← hraw]

/-- Once the lane is empty, all of it went out. -/
theorem wrote_of_run {w w' : Wire} {ds : List Done} (h : Run Emptying w w' ds) (halone : Alone w)
    (hdone : w'.q.q .prot = []) {gs : List Group}
    (hcut : Cut (modesLimit w.modes) (w.q.q .prot) gs) : wrote ds = gs.map Group.line := by
  obtain ⟨hflushes, hraw⟩ := flushes_of_run h halone
  obtain ⟨out, gs', rfl, hwrote, hrest⟩ := hflushes.cut gs hcut
  rw [hdone] at hrest
  cases hrest
  rw [List.append_nil]
  exact List.append_cancel_left (hraw.symm.trans hwrote)

/-! ### What it comes to -/

/-- What the server reads in the line of a group: an argument that begins with `:` takes the
rest of the line. -/
def Group.told (other : Bool → UInt8 → Bool) : Group → List Act
  | .verbatim line => Sendq.acts other line
  | .packed first its =>
      if first.chan.head? = some colon then []
      else (Lib.ArgWalk.assign (takesArg other) (changes (first :: its))
        (params (words (argsOf (first :: its))))).map (.mode (first.chan.map lower))

/-- The last change of each slot among the lines that go out, as they are read, writes what the
last one among all lines writes. -/
def Settled (other : Bool → UInt8 → Bool) (limit : Nat) (lines : List Str) : Prop :=
  ∀ gs, Cut limit (firsts lines) gs → ∀ k,
    Lib.Overwrite.lastWrite k (writes other (gs.flatMap (Group.told other))) =
      Lib.Overwrite.lastWrite k (writes other (lines.flatMap (acts other)))

theorem Group.acts_line (other : Bool → UInt8 → Bool) {g : Group} (hok : g.Ok) :
    Sendq.acts other g.line = g.told other := by
  cases g with
  | verbatim line => rfl
  | packed first its => exact acts_packedLine other hok.1

/-- **Queued modes come to the same exactly when the last change of each slot does.** -/
theorem queuedModes_iff (other : Bool → UInt8 → Bool) {w₀ w : Wire} {lines : List Str}
    {ds : List Done} (hup : Up w₀) (hempty : w₀.q.q = fun _ => []) (hhold : 0 < w₀.q.hold)
    (hlines : ∀ line ∈ lines, Fits line ∧ laneOf line = .prot) (hkept : AllKept w₀ lines)
    (hrun : Run Emptying (enqueueAll w₀ lines) w ds) (hdone : w.q.q .prot = []) :
    (∀ s, applyLines other (wrote ds) s = applyLines other lines s) ↔
      Settled other (modesLimit w₀.modes) lines := by
  have halone : Alone w₀ := ⟨hup, by rw [hempty], by rw [hempty]⟩
  obtain ⟨halone', hprot, hmodes⟩ :=
    enqueueAll_of_kept hkept hhold halone (by rw [hempty]; simp) hlines
  have hfirsts : (enqueueAll w₀ lines).q.q .prot = firsts lines := by
    rw [hprot, hempty]
    rfl
  obtain ⟨gs, hcut⟩ := Cut.exists (modesLimit_pos w₀.modes) (firsts lines)
  have hwrote := wrote_of_run hrun halone' hdone (by rw [hfirsts, hmodes]; exact hcut)
  have htold : (gs.map Group.line).flatMap (acts other) = gs.flatMap (Group.told other) := by
    rw [List.flatMap_map]
    exact List.flatMap_congr fun g hg => Group.acts_line other ((hcut.groups other).1 g hg).1
  unfold applyLines
  rw [hwrote, htold, Lib.Overwrite.run_eq_iff]
  constructor
  · intro h gs' hcut'
    rw [hcut'.unique hcut]
    exact h
  · intro h
    exact h gs hcut

/-- Where no `:` strikes, it is a question of the lines that are left out. -/
theorem settled_iff_of_aligned (other : Bool → UInt8 → Bool) {limit : Nat} (hlimit : 1 ≤ limit)
    {lines : List Str} (haligned : ∀ gs, Cut limit (firsts lines) gs → ∀ g ∈ gs, g.Aligned) :
    Settled other limit lines ↔
      ∀ k, Lib.Overwrite.lastWrite k (writes other ((firsts lines).flatMap (acts other))) =
        Lib.Overwrite.lastWrite k (writes other (lines.flatMap (acts other))) := by
  obtain ⟨gs, hcut⟩ := Cut.exists hlimit (firsts lines)
  obtain ⟨hgroups, hacts⟩ := hcut.groups other
  have htold : gs.flatMap (Group.told other) = (firsts lines).flatMap (acts other) := by
    rw [hacts]
    refine List.flatMap_congr fun g hg => ?_
    have hok := (hgroups g hg).1
    rw [← Group.acts_line other hok]
    exact (Group.acts_line_iff other hok).2.mpr (haligned gs hcut g hg)
  constructor
  · intro h
    rw [← htold]
    exact h gs hcut
  · intro h gs' hcut'
    rw [hcut'.unique hcut, htold]
    exact h

/-! ### Lines that are repeated -/

/-- What a line sets a slot to, if it changes it. -/
def leaves (other : Bool → UInt8 → Bool) (line : Str) (k : Str × Slot) : Option (Option Str) :=
  Lib.Overwrite.lastWrite k (writes other (acts other line))

/-- Where the lines that change a slot behind a new one all repeat earlier ones, they leave it as
the new one does. -/
def NeverUndone (other : Bool → UInt8 → Bool) (lines : List Str) : Prop :=
  ∀ front y between x back, lines = front ++ y :: (between ++ x :: back) → y ∉ front → ∀ k u v,
    leaves other y k = some u → leaves other x k = some v →
      (∀ z ∈ between ++ x :: back, leaves other z k ≠ none → z ∈ front ++ [y]) →
        (∀ z ∈ back, leaves other z k = none) → v = u

/-- No line is repeated with a change of one of its slots to something else in between. -/
def UndisturbedRepeats (other : Bool → UInt8 → Bool) (lines : List Str) : Prop :=
  ∀ front x between back, lines = front ++ x :: (between ++ x :: back) → ∀ y ∈ between, ∀ k u v,
    leaves other y k = some u → leaves other x k = some v → v = u

theorem UndisturbedRepeats.neverUndone {other : Bool → UInt8 → Bool} {lines : List Str}
    (h : UndisturbedRepeats other lines) : NeverUndone other lines := by
  intro front y between x back hlines hnew k u v hy hx hrepeats hlast
  have hchanges : leaves other x k ≠ none := by rw [hx]; exact Option.some_ne_none v
  rcases List.mem_append.mp (hrepeats x (by simp) hchanges) with hfront | hsame
  · -- the new line stands between `x` and its repetition
    obtain ⟨ahead, behind, rfl⟩ := List.append_of_mem hfront
    refine h ahead x (behind ++ y :: between) back ?_ y (by simp) k u v hy hx
    rw [hlines]
    simp
  · obtain rfl := List.mem_singleton.mp hsame
    exact Option.some.inj (hx.symm.trans hy)

section

variable {other : Bool → UInt8 → Bool} {k : Str × Slot}

/-- What some lines leave in a slot. -/
def left (other : Bool → UInt8 → Bool) (lines : List Str) (k : Str × Slot) : Option (Option Str) :=
  Lib.Overwrite.lastWrite k (writes other (lines.flatMap (acts other)))

theorem left_nil : left other [] k = none := rfl

theorem left_append (xs ys : List Str) :
    left other (xs ++ ys) k = (left other ys k).or (left other xs k) := by
  unfold left writes
  rw [List.flatMap_append, List.filterMap_append, Lib.Overwrite.lastWrite_append]

theorem left_cons (x : Str) (xs : List Str) :
    left other (x :: xs) k = (left other xs k).or (leaves other x k) := by
  rw [← List.singleton_append, left_append]
  unfold left leaves
  rw [List.flatMap_singleton]

theorem left_eq_none {xs : List Str} (h : ∀ x ∈ xs, leaves other x k = none) :
    left other xs k = none := by
  induction xs with
  | nil => exact left_nil
  | cons x xs ih =>
      rw [left_cons, h x List.mem_cons_self, Option.or_none]
      exact ih fun y hy => h y (List.mem_cons_of_mem x hy)

/-- Either no line changes the slot, or there is a last one that does. -/
theorem exists_last (lines : List Str) : (∀ x ∈ lines, leaves other x k = none) ∨
    ∃ front x v back, lines = front ++ x :: back ∧ leaves other x k = some v ∧
      ∀ z ∈ back, leaves other z k = none := by
  induction lines with
  | nil => exact .inl fun x hx => absurd hx List.not_mem_nil
  | cons y ys ih =>
      rcases ih with hnone | ⟨front, x, v, back, rfl, hx, hback⟩
      · cases hy : leaves other y k with
        | none => exact .inl (List.forall_mem_cons.mpr ⟨hy, hnone⟩)
        | some v => exact .inr ⟨[], y, v, ys, rfl, hy, hnone⟩
      · exact .inr ⟨y :: front, x, v, back, rfl, hx, hback⟩

/-- Either no line changes the slot, or there is a last one among those that are new. -/
theorem exists_lastNew (lines : List Str) : (∀ x ∈ lines, leaves other x k = none) ∨
    ∃ front y u back, lines = front ++ y :: back ∧ y ∉ front ∧ leaves other y k = some u ∧
      ∀ z ∈ back, leaves other z k ≠ none → z ∈ front ++ [y] := by
  induction lines using List.reverseRecOn with
  | nil => exact .inl fun x hx => absurd hx List.not_mem_nil
  | append_singleton xs z ih =>
      rcases ih with hnone | ⟨front, y, u, back, rfl, hnew, hy, hback⟩
      · cases hz : leaves other z k with
        | none =>
            refine .inl fun x hx => ?_
            rcases List.mem_append.mp hx with hx | hx
            · exact hnone x hx
            · rw [List.mem_singleton.mp hx, hz]
        | some u =>
            have hnew : z ∉ xs := by
              intro hmem
              rw [hnone z hmem] at hz
              cases hz
            exact .inr ⟨xs, z, u, [], rfl, hnew, hz, fun x hx => absurd hx List.not_mem_nil⟩
      · by_cases hmem : z ∈ front ++ y :: back
        · refine .inr ⟨front, y, u, back ++ [z], by simp, hnew, hy, fun x hx hchanges => ?_⟩
          rcases List.mem_append.mp hx with hx | hx
          · exact hback x hx hchanges
          · obtain rfl := List.mem_singleton.mp hx
            rw [← List.singleton_append, ← List.append_assoc] at hmem
            exact (List.mem_append.mp hmem).elim id fun hx => hback x hx hchanges
        · cases hz : leaves other z k with
          | none =>
              refine .inr ⟨front, y, u, back ++ [z], by simp, hnew, hy, fun x hx hchanges => ?_⟩
              rcases List.mem_append.mp hx with hx | hx
              · exact hback x hx hchanges
              · exact absurd (List.mem_singleton.mp hx ▸ hz) hchanges
          | some u' =>
              exact .inr ⟨front ++ y :: back, z, u', [], rfl, hmem, hz,
                fun x hx => absurd hx List.not_mem_nil⟩

theorem mem_queueUp_iff {lane : List Str} {line x : Str} :
    x ∈ queueUp lane line ↔ x ∈ lane ∨ x = line := by
  refine ⟨mem_queueUp, fun h => ?_⟩
  unfold queueUp
  split
  · exact h.elim id fun hx => hx ▸ ‹line ∈ lane›
  · exact List.mem_append.mpr (h.imp_right List.mem_singleton.mpr)

/-- What joins the lane comes behind what is there, and was not there. -/
theorem foldl_queueUp (lines : List Str) : ∀ lane : List Str, ∃ joined,
    lines.foldl queueUp lane = lane ++ joined ∧ ∀ y, y ∈ joined ↔ y ∈ lines ∧ y ∉ lane := by
  induction lines with
  | nil => exact fun lane => ⟨[], (List.append_nil lane).symm, by simp⟩
  | cons x xs ih =>
      intro lane
      obtain ⟨joined, hjoined, hmem⟩ := ih (queueUp lane x)
      rw [List.foldl_cons, hjoined]
      by_cases hx : x ∈ lane
      · rw [queueUp, if_pos hx] at hmem ⊢
        refine ⟨joined, rfl, fun y => (hmem y).trans ⟨fun h => ⟨List.mem_cons_of_mem x h.1, h.2⟩, ?_⟩⟩
        rintro ⟨hy, hnew⟩
        exact ⟨(List.mem_cons.mp hy).resolve_left fun hyx => hnew (hyx ▸ hx), hnew⟩
      · have hjoins : queueUp lane x = lane ++ [x] := if_neg hx
        refine ⟨x :: joined, by rw [hjoins, List.append_assoc, List.singleton_append], fun y => ?_⟩
        rw [List.mem_cons, hmem, mem_queueUp_iff, List.mem_cons]
        by_cases hyx : y = x
        · simp [hyx, hx]
        · simp [hyx]

/-- The last new line to change a slot is the last one of the lane to do so. -/
theorem left_firsts_of_lastNew {front : List Str} {y : Str} {back : List Str} {u : Option Str}
    (hnew : y ∉ front) (hy : leaves other y k = some u)
    (hback : ∀ z ∈ back, leaves other z k ≠ none → z ∈ front ++ [y]) :
    left other (firsts (front ++ y :: back)) k = some u := by
  obtain ⟨ahead, hahead, hmem⟩ := foldl_queueUp front []
  obtain ⟨behind, hbehind, hjoined⟩ := foldl_queueUp back (ahead ++ [y])
  rw [List.nil_append] at hahead
  have hjoins : queueUp ahead y = ahead ++ [y] := if_neg fun h => hnew ((hmem y).mp h).1
  have hsilent : ∀ z ∈ behind, leaves other z k = none := by
    intro z hz
    obtain ⟨hzback, hznew⟩ := (hjoined z).mp hz
    by_contra hchanges
    rcases List.mem_append.mp (hback z hzback hchanges) with hfront | hsame
    · exact hznew (List.mem_append.mpr (.inl ((hmem z).mpr ⟨hfront, List.not_mem_nil⟩)))
    · exact hznew (List.mem_append.mpr (.inr hsame))
  rw [firsts, List.foldl_append, hahead, List.foldl_cons, hjoins, hbehind, List.append_assoc,
    List.singleton_append, left_append, left_cons, left_eq_none hsilent, hy]
  rfl

/-- The lines that are left out make no difference exactly when no slot is undone by them. -/
theorem left_firsts_iff (lines : List Str) :
    (∀ k, left other (firsts lines) k = left other lines k) ↔ NeverUndone other lines := by
  constructor
  · intro h front y between x back hlines hnew k u v hy hx hrepeats hlast
    have hkept := h k
    rw [hlines, left_firsts_of_lastNew hnew hy hrepeats, left_append, left_cons, left_append,
      left_cons, left_eq_none hlast, hx] at hkept
    exact (Option.some.inj hkept).symm
  · intro h k
    rcases @exists_lastNew other k lines with
      hnone | ⟨front, y, u, back, rfl, hnew, hy, hrepeats⟩
    · obtain ⟨joined, hjoined, hmem⟩ := foldl_queueUp lines []
      rw [List.nil_append] at hjoined
      rw [left_eq_none hnone, firsts, hjoined]
      exact left_eq_none fun y hy => hnone y ((hmem y).mp hy).1
    · rw [left_firsts_of_lastNew hnew hy hrepeats, left_append, left_cons, hy]
      rcases @exists_last other k back with
        hsilent | ⟨between, x, v, rest, rfl, hx, hrest⟩
      · rw [left_eq_none hsilent]
        rfl
      · rw [left_append, left_cons, left_eq_none hrest, hx,
          h front y between x rest rfl hnew k u v hy hx hrepeats hrest]
        rfl

end

/-- **Queued modes come to the same, where no `:` strikes in a packed line, exactly when no slot
is undone by lines that are left out.** -/
theorem queuedModes_iff_neverUndone (other : Bool → UInt8 → Bool) {w₀ w : Wire} {lines : List Str}
    {ds : List Done} (hup : Up w₀) (hempty : w₀.q.q = fun _ => []) (hhold : 0 < w₀.q.hold)
    (hlines : ∀ line ∈ lines, Fits line ∧ laneOf line = .prot) (hkept : AllKept w₀ lines)
    (haligned : ∀ gs, Cut (modesLimit w₀.modes) (firsts lines) gs → ∀ g ∈ gs, g.Aligned)
    (hrun : Run Emptying (enqueueAll w₀ lines) w ds) (hdone : w.q.q .prot = []) :
    (∀ s, applyLines other (wrote ds) s = applyLines other lines s) ↔ NeverUndone other lines := by
  rw [queuedModes_iff other hup hempty hhold hlines hkept hrun hdone,
    settled_iff_of_aligned other (modesLimit_pos w₀.modes) haligned]
  exact left_firsts_iff lines

/-- Where no argument begins with `:`, none strikes. -/
theorem Cut.aligned_of_plain {limit : Nat} {lines : List Str} {gs : List Group}
    (h : Cut limit lines gs)
    (hplain : ∀ line ∈ lines, ∀ it ∈ modeItemParse line, it.arg.head? ≠ some colon) :
    ∀ g ∈ gs, g.Aligned := by
  induction h with
  | nil => exact fun g hg => absurd hg List.not_mem_nil
  | verbatim _ _ ih =>
      exact List.forall_mem_cons.mpr ⟨trivial, ih fun x hx => hplain x (List.mem_cons_of_mem _ hx)⟩
  | @packed line first group its lines gs hfirst hread _ _ _ ih =>
      obtain ⟨hline, hrest⟩ := List.forall_mem_cons.mp hplain
      obtain ⟨hgroup, hlines⟩ := List.forall_mem_append.mp hrest
      have hits : ∀ it ∈ its, it.arg.head? ≠ some colon := by
        intro it hit
        have hmem : some it ∈ group.map modeItemParse := by
          rw [hread]
          exact List.mem_map_of_mem hit
        obtain ⟨x, hx, hparsed⟩ := List.mem_map.mp hmem
        exact hgroup x hx it hparsed
      refine List.forall_mem_cons.mpr ⟨.inr fun a ha => ?_, ih hlines⟩
      obtain ⟨it, hit, rfl⟩ := List.mem_map.mp (List.mem_of_mem_dropLast ha)
      rcases List.mem_cons.mp (List.mem_filter.mp hit).1 with rfl | hit
      · exact hline it hfirst
      · exact hits it hit

def held : Wire := { q := { hold := 1 } }

/-- The queue is released. -/
def releasing (w : Wire) : List Done :=
  [⟨.release, (Op.release.run w).1, w.nowMs, (Op.release.run w).2.raw.drop w.raw.length⟩]

theorem run_releasing (w : Wire) : Run Emptying w (Op.release.run w).2 (releasing w) :=
  .step .start .release (.inr (.inl rfl))

/-- A status that is given twice, with another one taken in between. -/
def repeats : List Str :=
  [str "MODE #c +o a" ++ crlf, str "MODE #c -v b" ++ crlf, str "MODE #c +o a" ++ crlf]

theorem undisturbed_repeats : UndisturbedRepeats (fun _ _ => false) repeats := by
  intro front x between back hlines y hy k u v hleaves hleaves'
  have hlen := congrArg List.length hlines
  simp only [repeats, List.length_cons, List.length_append, List.length_nil] at hlen
  have hpos := List.length_pos_of_mem hy
  obtain rfl : front = [] := List.length_eq_zero_iff.mp (by omega)
  obtain rfl : back = [] := List.length_eq_zero_iff.mp (by omega)
  obtain ⟨z, rfl⟩ := List.length_eq_one_iff.mp (show between.length = 1 by omega)
  obtain rfl := List.mem_singleton.mp hy
  obtain ⟨rfl, rfl⟩ : str "MODE #c +o a" ++ crlf = x ∧ str "MODE #c -v b" ++ crlf = y := by
    simp only [repeats, List.nil_append, List.cons_append, List.cons.injEq] at hlines
    exact ⟨hlines.1, hlines.2.1⟩
  have hgiven : writes (fun _ _ => false) (acts (fun _ _ => false) (str "MODE #c +o a" ++ crlf)) =
      [((str "#c", .entry (byte 'o') (str "a")), some [])] := by decide +kernel
  have htaken : writes (fun _ _ => false) (acts (fun _ _ => false) (str "MODE #c -v b" ++ crlf)) =
      [((str "#c", .entry (byte 'v') (str "b")), none)] := by decide +kernel
  simp only [leaves, hgiven, htaken, Lib.Overwrite.lastWrite, Option.none_or] at hleaves hleaves'
  split at hleaves
  · subst k
    rw [if_neg (by decide)] at hleaves'
    cases hleaves'
  · cases hleaves

theorem queuedModes_repeats : AllKept held repeats ∧
    ∀ s, applyLines (fun _ _ => false) (wrote (releasing (enqueueAll held repeats))) s =
      applyLines (fun _ _ => false) repeats s := by
  have hlines : ∀ line ∈ repeats, Fits line ∧ laneOf line = .prot := by
    intro line hline
    refine ⟨⟨?_, line.take (line.length - 2), ?_⟩, ?_⟩
    · revert line
      decide
    · revert line
      decide
    · revert line
      decide
  have hkept : AllKept held repeats :=
    .cons ⟨by decide +kernel, by decide +kernel⟩ (.cons ⟨by decide +kernel, by decide +kernel⟩
      (.cons ⟨by decide +kernel, by decide +kernel⟩ (.nil _)))
  have hplain : ∀ line ∈ firsts repeats, ∀ it ∈ modeItemParse line, it.arg.head? ≠ some colon := by
    decide +kernel
  refine ⟨hkept, ?_⟩
  exact (queuedModes_iff_neverUndone (fun _ _ => false) ⟨rfl, rfl, rfl⟩ rfl (by decide) hlines
    hkept (fun _ hcut => hcut.aligned_of_plain hplain) (run_releasing (enqueueAll held repeats))
    (by decide +kernel)).mpr undisturbed_repeats.neverUndone

/-- A status that is given, taken and given again, while the queue is held. -/
def toggles : List Str :=
  [str "MODE #c +o a" ++ crlf, str "MODE #c -o a" ++ crlf, str "MODE #c +o a" ++ crlf]

theorem not_same_toggles : AllKept held toggles ∧
    ¬ ∀ s, applyLines (fun _ _ => false) (wrote (releasing (enqueueAll held toggles))) s =
      applyLines (fun _ _ => false) toggles s := by
  have hkept : AllKept held toggles :=
    .cons ⟨by decide +kernel, by decide +kernel⟩ (.cons ⟨by decide +kernel, by decide +kernel⟩
      (.cons ⟨by decide +kernel, by decide +kernel⟩ (.nil _)))
  refine ⟨hkept, fun h => ?_⟩
  have hslot := congrFun (h fun _ => none) (str "#c", .entry (byte 'o') (str "a"))
  exact absurd hslot (by decide +kernel)

end IrcBot.Sendq
