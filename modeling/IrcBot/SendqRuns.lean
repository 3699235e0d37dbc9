/-
# Runs of the send queue (`sendq.rs`)

Lines come in, wait and go out, in any order and at any time, while the link stays up.

* `Run.queue_sound` — the counter counts, the lines fit, and what happens to them is what the
  policy allows: a protocol line never gives way, a protection line only to an empty lane of
  other lines, and a line is reported as lost exactly when there is no room for it.
* `Run.paced` — in any window of time, at most a burst and one line for each interval is
  written.
-/
import IrcBot.Lib.Lanes
import IrcBot.Sendq

namespace IrcBot.Sendq

open Cstr Lib.Lanes

/-! ### The policy -/

/-- How many lines wait. -/
def size (q : Lane → List Str) : Nat := (q .proto).length + (q .prot).length + (q .rest).length

/-- The policy of the queue when it is full. -/
def policy : Policy Lane Str where
  room q := size q < maxSendq
  evicts q lane := size q = maxSendq ∧ lane ≠ .proto ∧ (lane = .prot → q .rest = [])
  refuses q lane := size q = maxSendq ∧ q .rest = [] ∧ (lane ≠ .rest → q .prot = [])

theorem size_update (q : Lane → List Str) (lane : Lane) (lines : List Str) :
    size (Function.update q lane lines) + (q lane).length = size q + lines.length := by
  cases lane <;> simp [size, Function.update] <;> omega

/-! ### The link stays up -/

structure Up (w : Wire) : Prop where
  connected : w.connected = true
  sock : w.sock = true
  writes : w.writesLeft = none

theorem writeRaw_of_up {w : Wire} (h : Up w) (line : Str) :
    writeRaw w line = (true, { w with raw := w.raw ++ [line] }) := by
  obtain ⟨hconn, hsock, hwrites⟩ := h
  obtain ⟨q, connected, sock, modes, nowMs, writesLeft, raw⟩ := w
  dsimp only at hconn hsock hwrites
  subst hconn hsock hwrites
  rfl

/-! ### What leaves the lanes -/

/-- The counter counts, and there are not too many. -/
structure Counted (q : SendQ) : Prop where
  total : q.total = size q.q
  le : size q.q ≤ maxSendq

/-- Some lines are taken out of the lanes. -/
structure Takes (q q' : SendQ) (es : List (Event Lane Str)) : Prop where
  steps : Steps policy q.q es q'.q
  taken : ∀ e ∈ es, ∃ lane line, e = .taken lane line
  counted : Counted q → Counted q'
  hold : q'.hold = q.hold

theorem Takes.refl (q : SendQ) : Takes q q [] := ⟨.refl _, by simp, id, rfl⟩

theorem Takes.trans {q q' q'' : SendQ} {es es' : List (Event Lane Str)} (h : Takes q q' es)
    (h' : Takes q' q'' es') : Takes q q'' (es ++ es') := by
  refine ⟨h.steps.trans h'.steps, fun e he => ?_, h'.counted ∘ h.counted, h'.hold.trans h.hold⟩
  exact (List.mem_append.mp he).elim (h.taken e) (h'.taken e)

/-- Only the lanes and the counter count. -/
theorem Takes.of_eq {q q₁ q' q₁' : SendQ} {es : List (Event Lane Str)} (h : Takes q q' es)
    (hq : q₁.q = q.q) (ht : q₁.total = q.total) (hh : q₁.hold = q.hold) (hq' : q₁'.q = q'.q)
    (ht' : q₁'.total = q'.total) (hh' : q₁'.hold = q'.hold) : Takes q₁ q₁' es := by
  obtain ⟨hsteps, htaken, hcounted, hhold⟩ := h
  refine ⟨hq ▸ hq' ▸ hsteps, htaken, fun ⟨htotal, hle⟩ => ?_, by rw [hh', hh, hhold]⟩
  obtain ⟨htotal', hle'⟩ := hcounted ⟨by rw [← ht, ← hq, htotal], hq ▸ hle⟩
  exact ⟨by rw [ht', hq', htotal'], hq' ▸ hle'⟩

/-- The first `n` lines of a lane leave it. -/
theorem takes_drop (q : SendQ) (lane : Lane) {n : Nat} (hn : n ≤ (q.q lane).length) :
    Takes q { setLane q lane ((q.q lane).drop n) with total := q.total - n }
      (((q.q lane).take n).map (.taken lane)) := by
  refine ⟨steps_take policy lane n q.q, ?_, fun ⟨htotal, hle⟩ => ?_, rfl⟩
  · intro e he
    obtain ⟨line, -, rfl⟩ := List.mem_map.mp he
    exact ⟨lane, line, rfl⟩
  · have hsize := size_update q.q lane ((q.q lane).drop n)
    rw [List.length_drop] at hsize
    constructor
    · show q.total - n = size (Function.update q.q lane ((q.q lane).drop n))
      omega
    · show size (Function.update q.q lane ((q.q lane).drop n)) ≤ maxSendq
      omega

theorem lanePop_of_cons {q : SendQ} {lane : Lane} {line : Str} {lines : List Str}
    (hq : q.q lane = line :: lines) :
    lanePop q lane = (some line, { setLane q lane lines with total := q.total - 1 }) := by
  unfold lanePop
  rw [hq]

theorem takes_lanePop (q : SendQ) (lane : Lane) : ∃ es, Takes q (lanePop q lane).2 es := by
  cases hq : q.q lane with
  | nil =>
      refine ⟨[], ?_⟩
      unfold lanePop
      rw [hq]
      exact .refl q
  | cons line lines =>
      have htake := takes_drop q lane (n := 1) (by simp [hq])
      rw [lanePop_of_cons hq]
      rw [hq, List.drop_one, List.tail_cons] at htake
      exact ⟨_, htake⟩

theorem length_packLoop (limit : Nat) (chan : Str) (lines : List Str) :
    ∀ (est : Nat) (items : List ModeItem), ∃ n ≤ lines.length,
      (packLoop limit chan est items lines).length = items.length + n := by
  induction lines with
  | nil =>
      intro est items
      exact ⟨0, Nat.le_refl 0, rfl⟩
  | cons line lines ih =>
      intro est items
      unfold packLoop
      split
      · exact ⟨0, Nat.zero_le _, rfl⟩
      · split
        · exact ⟨0, Nat.zero_le _, rfl⟩
        · rename_i it _
          dsimp only
          split
          · exact ⟨0, Nat.zero_le _, rfl⟩
          · obtain ⟨n, hn, hlen⟩ := ih (est + (2 + it.arg.length + 1)) (items ++ [it])
            refine ⟨n + 1, Nat.succ_le_succ hn, ?_⟩
            rw [hlen, List.length_append, List.length_singleton]
            omega

theorem length_packWith (limit : Nat) (first : ModeItem) (lines : List Str) :
    ∃ n ≤ lines.length, (packWith limit first lines).length = n + 1 := by
  obtain ⟨n, hn, hlen⟩ := length_packLoop limit first.chan lines
    (5 + first.chan.length + 3 + first.arg.length + 1) [first]
  exact ⟨n, hn, by rw [packWith, hlen, List.length_singleton, Nat.add_comm]⟩

theorem takes_takeProtection (q : SendQ) (limit : Nat) :
    ∃ es, Takes q (takeProtection q limit).2 es := by
  unfold takeProtection
  split
  · exact ⟨[], .refl q⟩
  · rename_i line lines hq
    split
    · exact takes_lanePop q .prot
    · rename_i first _
      obtain ⟨n, hn, hlen⟩ := length_packWith limit first lines
      dsimp only
      rw [hlen, ← hq]
      exact ⟨_, takes_drop q .prot (by rw [hq]; exact Nat.succ_le_succ hn)⟩

theorem takes_nextLine (w : Wire) : ∃ es, Takes w.q (nextLine w).2 es := by
  unfold nextLine
  split
  · exact takes_lanePop w.q .proto
  · split
    · exact takes_takeProtection w.q (modesLimit w.modes)
    · exact takes_lanePop w.q .rest

/-- From `w` to `w'` lines leave the queue, and nothing else happens to it. -/
structure Drains (w w' : Wire) (es : List (Event Lane Str)) : Prop where
  takes : Takes w.q w'.q es
  up : Up w'

theorem takes_refill (q : SendQ) (nowMs : Int) : Takes q (refill q nowMs) [] :=
  (Takes.refl q).of_eq rfl rfl rfl rfl rfl rfl

theorem drains_drainLoop (fuel : Nat) : ∀ (w : Wire) (sent : Int), Up w →
    ∃ es, Drains w (drainLoop fuel w sent).2 es := by
  induction fuel with
  | zero =>
      intro w sent hup
      exact ⟨[], .refl w.q, hup⟩
  | succ fuel ih =>
      intro w sent hup
      unfold drainLoop
      split
      · exact ⟨[], .refl w.q, hup⟩
      · rw [if_neg (by simp [hup.connected])]
        obtain ⟨es, htakes⟩ := takes_nextLine w
        split
        · rename_i q hnext
          rw [hnext] at htakes
          exact ⟨es, htakes, ⟨hup.connected, hup.sock, hup.writes⟩⟩
        · rename_i line q hnext
          rw [hnext] at htakes
          have hpaid : Up { w with q := { q with creditMs := q.creditMs - q.intervalMs } } :=
            ⟨hup.connected, hup.sock, hup.writes⟩
          rw [writeRaw_of_up hpaid]
          dsimp only
          have hup' : Up { w with
              q := { q with creditMs := q.creditMs - q.intervalMs }, raw := w.raw ++ [line] } :=
            ⟨hup.connected, hup.sock, hup.writes⟩
          obtain ⟨es', htakes', hup''⟩ := ih _ (sent + 1) hup'
          have hpaying : Takes w.q { q with creditMs := q.creditMs - q.intervalMs } es :=
            htakes.of_eq rfl rfl rfl rfl rfl rfl
          exact ⟨es ++ es', hpaying.trans htakes', hup''⟩

theorem drains_drain {w : Wire} (hup : Up w) : ∃ es, Drains w (drain w).2 es := by
  unfold drain
  split
  · exact ⟨[], .refl w.q, hup⟩
  · obtain ⟨es, htakes, hup'⟩ := drains_drainLoop w.q.total
      { w with q := refill w.q w.nowMs } 0 ⟨hup.connected, hup.sock, hup.writes⟩
    exact ⟨es, (takes_refill w.q w.nowMs).trans htakes, hup'⟩

/-! ### What comes into the lanes -/

/-- What `make_room` did to the lanes. -/
theorem steps_makeRoom {q q' : SendQ} {lane : Lane} (hcount : Counted q)
    (h : makeRoom q lane = (true, q')) :
    ∃ es, Steps policy q.q es q'.q ∧ (∀ e ∈ es, ∃ l line, e = .evicted l line) ∧
      Counted q' ∧ q'.total < maxSendq ∧ q'.hold = q.hold := by
  obtain ⟨htotal, hle⟩ := hcount
  unfold makeRoom at h
  split at h
  · rename_i hroom
    obtain ⟨-, rfl⟩ := Prod.mk.inj h
    exact ⟨[], .refl _, by simp, ⟨htotal, hle⟩, hroom, rfl⟩
  · rename_i hfull
    have hsize : size q.q = maxSendq := by omega
    split at h
    · cases h
    · rename_i v hv
      obtain ⟨-, rfl⟩ := Prod.mk.inj h
      have hevicts : policy.evicts q.q v ∧ q.q v ≠ [] := by
        unfold victim at hv
        split at hv
        · rename_i hrest
          obtain rfl := Option.some.inj hv
          exact ⟨⟨hsize, by decide, by simp⟩, by simpa using hrest⟩
        · rename_i hrest
          split at hv
          · rename_i hprot
            obtain rfl := Option.some.inj hv
            rw [Bool.and_eq_true] at hprot
            exact ⟨⟨hsize, by decide, fun _ => by simpa using hrest⟩, by simpa using hprot.2⟩
          · cases hv
      obtain ⟨hevicts, hne⟩ := hevicts
      obtain ⟨line, lines, hq⟩ := List.exists_cons_of_ne_nil hne
      have hdrop := size_update q.q v lines
      rw [hq, List.length_cons] at hdrop
      rw [lanePop_of_cons hq]
      refine ⟨[.evicted v line], (Step.evicted hevicts hq).one, ?_, ⟨?_, ?_⟩, ?_, rfl⟩
      · simp
      · show q.total - 1 = size (Function.update q.q v lines)
        omega
      · show size (Function.update q.q v lines) ≤ maxSendq
        omega
      · show q.total - 1 < maxSendq
        omega

theorem refuses_of_makeRoom {q q' : SendQ} {lane : Lane} (hcount : Counted q)
    (h : makeRoom q lane = (false, q')) : policy.refuses q.q lane ∧ q' = q := by
  obtain ⟨htotal, hle⟩ := hcount
  unfold makeRoom at h
  split at h
  · cases h
  · rename_i hfull
    split at h
    · rename_i hv
      obtain ⟨-, rfl⟩ := Prod.mk.inj h
      refine ⟨⟨by omega, ?_⟩, rfl⟩
      unfold victim at hv
      split at hv
      · cases hv
      · rename_i hrest
        split at hv
        · cases hv
        · rename_i hprot
          refine ⟨by simpa using hrest, fun hlane => ?_⟩
          simpa [hlane] using hprot
    · cases h

/-- A line that the lane holds already. -/
theorem mem_of_isQueued {q : SendQ} {lane : Lane} {line : Str}
    (hfit : ∀ x ∈ q.q lane, ∃ body, x = body ++ crlf) (h : isQueued q lane line = true) :
    queuedLine line ∈ q.q lane := by
  unfold isQueued at h
  simp only [Bool.and_eq_true, List.any_eq_true, beq_iff_eq] at h
  obtain ⟨-, x, hx, hlen, htake⟩ := h
  obtain ⟨body, rfl⟩ := hfit x hx
  have hbody : body.length = min (line.length - 2) sendqLineMax := by
    simpa [crlf] using hlen
  rw [← hbody, List.take_left] at htake
  rw [queuedLine, ← hbody, ← htake]
  exact hx

/-- A line as it waits. -/
def Fits (line : Str) : Prop := line.length ≤ 512 ∧ ∃ body, line = body ++ crlf

theorem fits_queuedLine (line : Str) : Fits (queuedLine line) := by
  refine ⟨?_, _, rfl⟩
  simp only [queuedLine, crlf, List.length_append, List.length_take, List.length_cons,
    List.length_nil, sendqLineMax]
  omega

/-- What becomes of a line that is handed to the queue: what is reported, and what happens. -/
inductive Told (line : Str) : Int → List (Event Lane Str) → Prop where
  | duplicate {r : Int} (hr : 0 ≤ r) : Told line r [.duplicate (laneOf line) (queuedLine line)]
  | refused : Told line (-1) [.refused (laneOf line) (queuedLine line)]
  | queued {r : Int} {evicted taken : List (Event Lane Str)} (hr : 0 ≤ r)
      (hevicted : ∀ e ∈ evicted, ∃ lane x, e = .evicted lane x)
      (htaken : ∀ e ∈ taken, ∃ lane x, e = .taken lane x) :
      Told line r (evicted ++ .queued (laneOf line) (queuedLine line) :: taken)

/-- A line that `irc_printf` can hand over: it has its end, and its length is bounded. -/
def Finished (line : Str) : Prop := 2 ≤ line.length ∧ line.length < maxBuffer

theorem toI32_length_nonneg {line : Str} (h : Finished line) : 0 ≤ toI32 line.length := by
  obtain ⟨-, hlt⟩ := h
  have hmax : maxBuffer = 16384 := rfl
  unfold toI32
  omega

/-- What an operation does to the queue. -/
structure Does (w w' : Wire) (es : List (Event Lane Str)) : Prop where
  steps : Steps policy w.q.q es w'.q.q
  counted : Counted w'.q
  up : Up w'

theorem Drains.does {w w' : Wire} {es : List (Event Lane Str)} (h : Drains w w' es)
    (hcount : Counted w.q) : Does w w' es := ⟨h.takes.steps, h.takes.counted hcount, h.up⟩

theorem does_enqueue {w : Wire} {line : Str} (hup : Up w) (hcount : Counted w.q)
    (hfit : ∀ lane, ∀ x ∈ w.q.q lane, Fits x) (hline : Finished line) :
    ∃ es, Does w (enqueue w line).2 es ∧ Told line (enqueue w line).1 es := by
  have hr := toI32_length_nonneg hline
  unfold enqueue
  rw [if_neg (Nat.not_lt.mpr hline.1)]
  dsimp only
  split
  · rename_i hdup
    have hmem := mem_of_isQueued (fun x hx => (hfit _ x hx).2) hdup
    exact ⟨_, ⟨(Step.duplicate hmem).one, hcount, hup⟩, .duplicate hr⟩
  · split
    · rename_i q' hmake
      obtain ⟨hrefuses, rfl⟩ := refuses_of_makeRoom hcount hmake
      exact ⟨_, ⟨(Step.refused hrefuses).one, ⟨hcount.total, hcount.le⟩,
        ⟨hup.connected, hup.sock, hup.writes⟩⟩, .refused⟩
    · rename_i q' hmake
      obtain ⟨es, hsteps, hevicted, hcount', hlt, -⟩ := steps_makeRoom hcount hmake
      have hroom : policy.room q'.q := by
        show size q'.q < maxSendq
        rw [← hcount'.total]
        exact hlt
      have hsize := size_update q'.q (laneOf line) (q'.q (laneOf line) ++ [queuedLine line])
      rw [List.length_append, List.length_singleton] at hsize
      have hqueued := hsteps.trans (@Step.queued _ _ _ policy _ (laneOf line) (queuedLine line) hroom).one
      have hput : Counted { setLane q' (laneOf line) (q'.q (laneOf line) ++ [queuedLine line]) with
          total := q'.total + 1 } := by
        obtain ⟨htotal, hle⟩ := hcount'
        constructor
        · show q'.total + 1 = size (Function.update _ _ _)
          omega
        · show size (Function.update _ _ _) ≤ maxSendq
          omega
      split
      · obtain ⟨taken, hdrain⟩ := drains_drain (w := { w with
          q := { setLane q' (laneOf line) (q'.q (laneOf line) ++ [queuedLine line]) with
            total := q'.total + 1 } }) ⟨hup.connected, hup.sock, hup.writes⟩
        refine ⟨es ++ .queued (laneOf line) (queuedLine line) :: taken,
          ⟨?_, hdrain.takes.counted hput, hdrain.up⟩, .queued hr hevicted hdrain.takes.taken⟩
        rw [← List.singleton_append, ← List.append_assoc]
        exact hqueued.trans hdrain.takes.steps
      · exact ⟨es ++ [.queued (laneOf line) (queuedLine line)],
          ⟨hqueued, hput, ⟨hup.connected, hup.sock, hup.writes⟩⟩, .queued hr hevicted (by simp)⟩

/-! ### Runs -/

/-- What can happen while the link is up. -/
inductive Op where
  | enqueue (line : Str)
  | take
  | drain
  | hold
  | release
  | nextMs
  /-- The clock is read. -/
  | clock (ms : Int)
  /-- 005 sets the limit of changes in a line. -/
  | isupport (modes : Int)

def Op.run (w : Wire) : Op → Int × Wire
  | .enqueue line => Sendq.enqueue w line
  | .take => (0, { w with q := (takeProtection w.q (modesLimit w.modes)).2 })
  | .drain => Sendq.drain w
  | .hold => (0, Sendq.hold w)
  | .release => (0, Sendq.release w)
  | .nextMs => ((Sendq.nextMs w.q w.nowMs).1, { w with q := (Sendq.nextMs w.q w.nowMs).2 })
  | .clock ms => (0, { w with nowMs := ms })
  | .isupport modes => (0, { w with modes })

/-- An operation of a run: what it returned, when it ran, and what it wrote. -/
structure Done where
  op : Op
  result : Int
  time : Int
  wrote : List Str

/-- Runs from `w₀` of operations that `ok` lets happen. -/
inductive Run (ok : Wire → Op → Prop) (w₀ : Wire) : Wire → List Done → Prop where
  | start : Run ok w₀ w₀ []
  | step {w : Wire} {ds : List Done} (h : Run ok w₀ w ds) (op : Op) (hok : ok w op) :
      Run ok w₀ (op.run w).2
        (ds ++ [⟨op, (op.run w).1, w.nowMs, (op.run w).2.raw.drop w.raw.length⟩])

/-- The run of a list of operations, after what is done already. -/
def play (w : Wire) (ds : List Done) : List Op → Wire × List Done
  | [] => (w, ds)
  | op :: ops =>
      play (op.run w).2
        (ds ++ [⟨op, (op.run w).1, w.nowMs, (op.run w).2.raw.drop w.raw.length⟩]) ops

/-- `ok` lets the operations happen, each in the state it finds. -/
def Allowed (ok : Wire → Op → Prop) (w : Wire) : List Op → Prop
  | [] => True
  | op :: ops => ok w op ∧ Allowed ok (op.run w).2 ops

instance decidableAllowed (ok : Wire → Op → Prop) [∀ w op, Decidable (ok w op)] (w : Wire) :
    (ops : List Op) → Decidable (Allowed ok w ops)
  | [] => .isTrue trivial
  | op :: ops =>
      have := decidableAllowed ok (op.run w).2 ops
      inferInstanceAs (Decidable (_ ∧ _))

theorem Run.play {ok : Wire → Op → Prop} {w₀ w : Wire} {ds : List Done} {ops : List Op}
    (h : Run ok w₀ w ds) (hops : Allowed ok w ops) :
    Run ok w₀ (Sendq.play w ds ops).1 (Sendq.play w ds ops).2 := by
  induction ops generalizing w ds with
  | nil => exact h
  | cons op ops ih => exact ih (.step h op hops.1) hops.2

theorem allowed_of_forall {ok : Wire → Op → Prop} {ops : List Op} (hops : ∀ op ∈ ops, ∀ w, ok w op)
    (w : Wire) : Allowed ok w ops := by
  induction ops generalizing w with
  | nil => trivial
  | cons op ops ih =>
      exact ⟨hops op List.mem_cons_self w,
        ih (fun op hop => hops op (List.mem_cons_of_mem _ hop)) _⟩

/-- What an operation reports of what happens. -/
def Done.Tells (d : Done) (es : List (Event Lane Str)) : Prop :=
  match d.op with
  | .enqueue line => Told line d.result es
  | _ => ∀ e ∈ es, ∃ lane x, e = .taken lane x

/-- The lines that come are finished. -/
def FinishedLines (_ : Wire) (op : Op) : Prop := ∀ line, op = .enqueue line → Finished line

/-- What is true of the queue after a run from `q₀` with the history `es`. -/
structure Sound (q₀ : Lane → List Str) (w : Wire) (es : List (Event Lane Str)) : Prop where
  total : w.q.total = size w.q.q
  le : size w.q.q ≤ maxSendq
  fits : ∀ lane, ∀ line ∈ w.q.q lane, Fits line
  steps : Steps policy q₀ es w.q.q
  fifo : ∀ lane, q₀ lane ++ arrived es lane = left es lane ++ w.q.q lane
  proto : ∀ line, .evicted .proto line ∉ es
  /-- When a protection line gives way or is refused, no other line waits. -/
  prot : ∀ es₁ e es₂ line, es = es₁ ++ e :: es₂ → e = .evicted .prot line ∨
    e = .refused .prot line →
    ∃ q, Steps policy q₀ es₁ q ∧ q .rest = []

theorem does_run {w : Wire} (op : Op) (hup : Up w) (hcount : Counted w.q)
    (hfit : ∀ lane, ∀ x ∈ w.q.q lane, Fits x) (hok : FinishedLines w op) :
    ∃ es, Does w (op.run w).2 es ∧
      (⟨op, (op.run w).1, w.nowMs, (op.run w).2.raw.drop w.raw.length⟩ : Done).Tells es := by
  have hup' : Up w := hup
  obtain ⟨hconn, hsock, hwrites⟩ := hup'
  cases op with
  | enqueue line => exact does_enqueue hup hcount hfit (hok line rfl)
  | take =>
      obtain ⟨es, htakes⟩ := takes_takeProtection w.q (modesLimit w.modes)
      exact ⟨es, ⟨htakes.steps, htakes.counted hcount, ⟨hconn, hsock, hwrites⟩⟩, htakes.taken⟩
  | drain =>
      obtain ⟨es, hdrain⟩ := drains_drain hup
      exact ⟨es, hdrain.does hcount, hdrain.takes.taken⟩
  | hold => exact ⟨[], ⟨.refl _, ⟨hcount.total, hcount.le⟩, ⟨hconn, hsock, hwrites⟩⟩, by simp [Done.Tells]⟩
  | release =>
      show ∃ es, Does w (release w) es ∧ _
      unfold release
      split
      · exact ⟨[], ⟨.refl _, hcount, hup⟩, by simp [Done.Tells]⟩
      · dsimp only
        split
        · obtain ⟨es, hdrain⟩ := drains_drain (w := { w with
            q := { w.q with hold := w.q.hold - 1 } }) ⟨hconn, hsock, hwrites⟩
          exact ⟨es, ⟨hdrain.takes.steps, hdrain.takes.counted ⟨hcount.total, hcount.le⟩, hdrain.up⟩,
            hdrain.takes.taken⟩
        · exact ⟨[], ⟨.refl _, ⟨hcount.total, hcount.le⟩, ⟨hconn, hsock, hwrites⟩⟩,
            by simp [Done.Tells]⟩
  | nextMs =>
      have hnext : (nextMs w.q w.nowMs).2.q = w.q.q ∧ (nextMs w.q w.nowMs).2.total = w.q.total := by
        unfold nextMs
        split
        · exact ⟨rfl, rfl⟩
        · dsimp only
          split <;> exact ⟨rfl, rfl⟩
      refine ⟨[], ⟨?_, ⟨?_, ?_⟩, ⟨hconn, hsock, hwrites⟩⟩, by simp [Done.Tells]⟩
      · show Steps policy w.q.q [] (nextMs w.q w.nowMs).2.q
        rw [hnext.1]
        exact .refl _
      · show (nextMs w.q w.nowMs).2.total = size (nextMs w.q w.nowMs).2.q
        rw [hnext.1, hnext.2, hcount.total]
      · show size (nextMs w.q w.nowMs).2.q ≤ maxSendq
        rw [hnext.1]
        exact hcount.le
  | clock ms => exact ⟨[], ⟨.refl _, hcount, ⟨hconn, hsock, hwrites⟩⟩, by simp [Done.Tells]⟩
  | isupport modes => exact ⟨[], ⟨.refl _, hcount, ⟨hconn, hsock, hwrites⟩⟩, by simp [Done.Tells]⟩

/-- The lines that are queued fit. -/
theorem fits_of_tells {d : Done} {es : List (Event Lane Str)} (h : d.Tells es) :
    ∀ lane x, .queued lane x ∈ es → Fits x := by
  intro lane x hx
  unfold Done.Tells at h
  split at h
  · rename_i line _
    generalize d.result = r at h
    cases h with
    | duplicate _ => simp at hx
    | refused => simp at hx
    | queued _ hevicted htaken =>
        rcases List.mem_append.mp hx with hx | hx
        · obtain ⟨_, _, heq⟩ := hevicted _ hx
          cases heq
        · rcases List.mem_cons.mp hx with heq | hx
          · cases heq
            exact fits_queuedLine line
          · obtain ⟨_, _, heq⟩ := htaken _ hx
            cases heq
  · obtain ⟨_, _, heq⟩ := h _ hx
    cases heq

theorem sound_of_steps {q₀ : Lane → List Str} {w : Wire} {es : List (Event Lane Str)}
    (hcount : Counted w.q) (hfit : ∀ lane, ∀ x ∈ w.q.q lane, Fits x)
    (hsteps : Steps policy q₀ es w.q.q) : Sound q₀ w es := by
  refine ⟨hcount.total, hcount.le, hfit, hsteps, hsteps.fifo, fun line hline => ?_, ?_⟩
  · obtain ⟨es₁, es₂, rfl⟩ := List.append_of_mem hline
    obtain ⟨q₁, q₂, -, hstep, -⟩ := hsteps.split es₁
    cases hstep with
    | evicted hevicts _ => exact hevicts.2.1 rfl
  · rintro es₁ e es₂ line rfl he
    obtain ⟨q₁, q₂, hs₁, hstep, -⟩ := hsteps.split es₁
    refine ⟨q₁, hs₁, ?_⟩
    rcases he with rfl | rfl
    · cases hstep with
      | evicted hevicts _ => exact hevicts.2.2 rfl
    · cases hstep with
      | refused hrefuses => exact hrefuses.2.1

/-- **The queue keeps its invariants, and its policy, in every run.** -/
theorem Run.queue_sound {w₀ w : Wire} {ds : List Done} (h : Run FinishedLines w₀ w ds) (hup : Up w₀)
    (hempty : w₀.q.q = fun _ => []) (htotal : w₀.q.total = 0) :
    ∃ ess : List (List (Event Lane Str)),
      List.Forall₂ Done.Tells ds ess ∧ Sound w₀.q.q w ess.flatten := by
  suffices hall : Up w ∧ ∃ ess : List (List (Event Lane Str)),
      List.Forall₂ Done.Tells ds ess ∧ Sound w₀.q.q w ess.flatten from hall.2
  induction h with
  | start =>
      have hsize : size w₀.q.q = 0 := by
        rw [hempty]
        rfl
      have hcount : Counted w₀.q := ⟨htotal.trans hsize.symm, by rw [hsize]; exact Nat.zero_le _⟩
      have hfit : ∀ lane, ∀ x ∈ w₀.q.q lane, Fits x := by simp [hempty]
      exact ⟨hup, [], .nil, sound_of_steps hcount hfit (.refl _)⟩
  | @step w ds _ op hok ih =>
      obtain ⟨hup, ess, htells, hsound⟩ := ih
      obtain ⟨es, hdoes, htell⟩ := does_run op hup ⟨hsound.total, hsound.le⟩ hsound.fits hok
      have hfit := hdoes.steps.forall_mem (fits_of_tells htell) hsound.fits
      refine ⟨hdoes.up, ess ++ [es], List.rel_append htells (.cons htell .nil), ?_⟩
      rw [List.flatten_append, List.flatten_singleton]
      exact sound_of_steps hdoes.counted hfit (hsound.steps.trans hdoes.steps)

/-- A queue without credit, which is filled: a `KICK` takes the place of the `JOIN`, and a `PONG`
that of the `KICK`; another `JOIN` and another `PONG` are lost. Time brings credit for some of the
others. -/
def broke : Wire := { q := { creditMs := 0 } }
def crowd : List Op :=
  List.replicate 255 (.enqueue (str "PONG :a" ++ crlf)) ++
    [.enqueue (str "JOIN #c" ++ crlf), .enqueue (str "KICK #c mallory :no" ++ crlf),
      .enqueue (str "JOIN #d" ++ crlf), .enqueue (str "PONG :b" ++ crlf), .enqueue (str "PONG :c" ++ crlf),
      .clock 450, .drain, .hold, .enqueue (str "JOIN #e" ++ crlf), .clock 900, .drain, .release, .drain]

example : ((play broke [] crowd).2.drop 255).map (·.result) =
    [9, 21, -1, 9, -1, 0, 4, 0, 9, 0, 5, 0, 0] := by
  decide +kernel

theorem sound_crowd : ∃ ess : List (List (Event Lane Str)),
    List.Forall₂ Done.Tells (play broke [] crowd).2 ess ∧
      Sound (fun _ => []) (play broke [] crowd).1 ess.flatten := by
  refine Run.queue_sound (.play .start
    (@allowed_of_forall FinishedLines crowd (fun op hop w line heq => ?_) broke))
      ⟨rfl, rfl, rfl⟩ rfl rfl
  subst heq
  have hfinished : ∀ op ∈ crowd, ∀ line, op = .enqueue line → Finished line := by
    simp only [crowd, List.mem_append, List.mem_replicate, List.mem_cons,
      List.not_mem_nil, or_false]
    rintro op (⟨-, rfl⟩ | rfl | rfl | rfl | rfl | rfl | rfl | rfl | rfl | rfl | rfl | rfl | rfl | rfl) line heq
    all_goals cases heq
    all_goals exact ⟨by decide, by decide⟩
  exact hfinished _ hop line rfl

/-! ### Pacing -/

/-- The queue's credit, as a token bucket. -/
def bucket (q : SendQ) : Lib.TokenBucket.Bucket := ⟨q.burst, q.intervalMs, q.creditMs, q.lastMs⟩

/-- When lines were written. -/
def times (ds : List Done) : List Int := ds.flatMap fun d => List.replicate d.wrote.length d.time

/-- The clock does not run back. -/
def Onward (w : Wire) (op : Op) : Prop := ∀ ms, op = .clock ms → w.nowMs ≤ ms

instance decidableOnward (w : Wire) : (op : Op) → Decidable (Onward w op)
  | .clock ms => decidable_of_iff (w.nowMs ≤ ms) ⟨fun h _ heq => Op.clock.inj heq ▸ h,
    fun h => h ms rfl⟩
  | .enqueue _ | .take | .drain | .hold | .release | .nextMs | .isupport _ => .isTrue nofun

/-- From `w` to `w'`, each line that is written is paid for. -/
structure Pays (w w' : Wire) (lines : List Str) : Prop where
  up : Up w'
  raw : w'.raw = w.raw ++ lines
  last : w'.q.lastMs ≤ w'.nowMs
  paid : ∀ b₀ ts, Lib.TokenBucket.Run b₀ (bucket w.q) ts →
    Lib.TokenBucket.Run b₀ (bucket w'.q) (ts ++ List.replicate lines.length w.nowMs)

/-- Nothing is written. -/
theorem Pays.of_bucket {w w' : Wire} (hup : Up w') (hraw : w'.raw = w.raw)
    (hlast : w'.q.lastMs ≤ w'.nowMs) (hq : bucket w'.q = bucket w.q) : Pays w w' [] := by
  refine ⟨hup, by rw [hraw, List.append_nil], hlast, fun b₀ ts h => ?_⟩
  rw [hq, List.length_nil, List.replicate_zero, List.append_nil]
  exact h

theorem bucket_refill (q : SendQ) {nowMs : Int} (h : q.lastMs ≤ nowMs) :
    bucket (refill q nowMs) = (bucket q).refill nowMs := by
  unfold bucket refill Lib.TokenBucket.Bucket.refill Lib.TokenBucket.Bucket.cap
  dsimp only
  rw [min_comm, max_eq_right (sub_nonneg.mpr h)]
  split
  · rfl
  · have hsame : nowMs - q.lastMs = 0 := by omega
    rw [hsame, add_zero]

theorem bucket_lanePop (q : SendQ) (lane : Lane) : bucket (lanePop q lane).2 = bucket q := by
  unfold lanePop
  split <;> rfl

theorem bucket_takeProtection (q : SendQ) (limit : Nat) :
    bucket (takeProtection q limit).2 = bucket q := by
  unfold takeProtection
  split
  · rfl
  · split
    · exact bucket_lanePop q .prot
    · rfl

theorem bucket_nextLine (w : Wire) : bucket (nextLine w).2 = bucket w.q := by
  unfold nextLine
  split
  · exact bucket_lanePop w.q .proto
  · split
    · exact bucket_takeProtection w.q _
    · exact bucket_lanePop w.q .rest

theorem pays_drainLoop (fuel : Nat) : ∀ (w : Wire) (sent : Int), Up w → w.q.lastMs = w.nowMs →
    ∃ lines, Pays w (drainLoop fuel w sent).2 lines := by
  induction fuel with
  | zero =>
      intro w sent hup hlast
      exact ⟨[], .of_bucket hup rfl (le_of_eq hlast) rfl⟩
  | succ fuel ih =>
      intro w sent hup hlast
      have hbucket := bucket_nextLine w
      have hlast' : (nextLine w).2.lastMs = w.nowMs :=
        (congrArg Lib.TokenBucket.Bucket.last hbucket).trans hlast
      unfold drainLoop
      split
      · exact ⟨[], .of_bucket hup rfl (le_of_eq hlast) rfl⟩
      · rename_i hpaid
        rw [if_neg (by simp [hup.connected])]
        split
        · rename_i q hnext
          rw [hnext] at hbucket hlast'
          exact ⟨[], .of_bucket ⟨hup.connected, hup.sock, hup.writes⟩ rfl (le_of_eq hlast') hbucket⟩
        · rename_i line q hnext
          rw [hnext] at hbucket hlast'
          have hsend : Up { w with q := { q with creditMs := q.creditMs - q.intervalMs } } :=
            ⟨hup.connected, hup.sock, hup.writes⟩
          rw [writeRaw_of_up hsend]
          dsimp only
          have hup' : Up { w with
              q := { q with creditMs := q.creditMs - q.intervalMs }, raw := w.raw ++ [line] } :=
            ⟨hup.connected, hup.sock, hup.writes⟩
          obtain ⟨lines, hpays⟩ := ih _ (sent + 1) hup' hlast'
          refine ⟨line :: lines, hpays.up, ?_, hpays.last, fun b₀ ts hrun => ?_⟩
          · rw [hpays.raw, List.append_assoc, List.singleton_append]
          · rw [← hbucket] at hrun
            have hcost : (bucket q).interval ≤ (bucket q).credit := by
              simp only [Bool.or_eq_true, decide_eq_true_eq, not_or, not_lt] at hpaid
              have hpaid' : (bucket w.q).interval ≤ (bucket w.q).credit := hpaid.2
              rwa [← hbucket] at hpaid'
            have hnow : (bucket q).last = w.nowMs := hlast'
            have htake := hrun.take hcost
            rw [hnow] at htake
            have htaken := hpays.paid b₀ (ts ++ [w.nowMs]) htake
            rwa [List.append_assoc, List.singleton_append, ← List.replicate_succ] at htaken

theorem pays_drain {w : Wire} (hup : Up w) (hlast : w.q.lastMs ≤ w.nowMs) :
    ∃ lines, Pays w (drain w).2 lines := by
  unfold drain
  split
  · exact ⟨[], .of_bucket hup rfl hlast rfl⟩
  · obtain ⟨lines, hpays⟩ := pays_drainLoop w.q.total
      { w with q := refill w.q w.nowMs } 0 ⟨hup.connected, hup.sock, hup.writes⟩ rfl
    refine ⟨lines, hpays.up, hpays.raw, hpays.last, fun b₀ ts hrun => ?_⟩
    have hrefill := hrun.refill w.nowMs hlast
    rw [← bucket_refill w.q hlast] at hrefill
    exact hpays.paid b₀ ts hrefill

theorem bucket_makeRoom {q q' : SendQ} {lane : Lane} {r : Bool} (h : makeRoom q lane = (r, q')) :
    bucket q' = bucket q := by
  unfold makeRoom at h
  split at h
  · obtain ⟨-, rfl⟩ := Prod.mk.inj h
    rfl
  · split at h
    · obtain ⟨-, rfl⟩ := Prod.mk.inj h
      rfl
    · obtain ⟨-, rfl⟩ := Prod.mk.inj h
      exact bucket_lanePop q _

theorem pays_enqueue {w : Wire} (line : Str) (hup : Up w) (hlast : w.q.lastMs ≤ w.nowMs) :
    ∃ lines, Pays w (enqueue w line).2 lines := by
  obtain ⟨hconn, hsock, hwrites⟩ := id hup
  have hsame {q : SendQ} (hq : bucket q = bucket w.q) : q.lastMs ≤ w.nowMs :=
    (congrArg Lib.TokenBucket.Bucket.last hq).trans_le hlast
  unfold enqueue
  split
  · exact ⟨[], .of_bucket hup rfl hlast rfl⟩
  · dsimp only
    split
    · exact ⟨[], .of_bucket hup rfl hlast rfl⟩
    · split
      · rename_i q' hmake
        have hq := bucket_makeRoom hmake
        exact ⟨[], .of_bucket ⟨hconn, hsock, hwrites⟩ rfl (hsame hq) hq⟩
      · rename_i q' hmake
        have hq := bucket_makeRoom hmake
        split
        · obtain ⟨lines, hpays⟩ := pays_drain (w := { w with
            q := { setLane q' (laneOf line) (q'.q (laneOf line) ++ [queuedLine line]) with
              total := q'.total + 1 } }) ⟨hconn, hsock, hwrites⟩ (hsame hq)
          refine ⟨lines, hpays.up, hpays.raw, hpays.last, fun b₀ ts hrun => hpays.paid b₀ ts ?_⟩
          rw [← hq] at hrun
          exact hrun
        · exact ⟨[], .of_bucket ⟨hconn, hsock, hwrites⟩ rfl (hsame hq) hq⟩

theorem pays_run {w : Wire} (op : Op) (hup : Up w) (hlast : w.q.lastMs ≤ w.nowMs)
    (hok : Onward w op) : ∃ lines, Pays w (op.run w).2 lines := by
  obtain ⟨hconn, hsock, hwrites⟩ := id hup
  cases op with
  | enqueue line => exact pays_enqueue line hup hlast
  | take =>
      have hq := bucket_takeProtection w.q (modesLimit w.modes)
      exact ⟨[], .of_bucket ⟨hconn, hsock, hwrites⟩ rfl
        ((congrArg Lib.TokenBucket.Bucket.last hq).trans_le hlast) hq⟩
  | drain => exact pays_drain hup hlast
  | hold => exact ⟨[], .of_bucket ⟨hconn, hsock, hwrites⟩ rfl hlast rfl⟩
  | release =>
      show ∃ lines, Pays w (release w) lines
      unfold release
      split
      · exact ⟨[], .of_bucket hup rfl hlast rfl⟩
      · dsimp only
        split
        · obtain ⟨lines, hpays⟩ := pays_drain (w := { w with
            q := { w.q with hold := w.q.hold - 1 } }) ⟨hconn, hsock, hwrites⟩ hlast
          exact ⟨lines, hpays.up, hpays.raw, hpays.last, hpays.paid⟩
        · exact ⟨[], .of_bucket ⟨hconn, hsock, hwrites⟩ rfl hlast rfl⟩
  | nextMs =>
      show ∃ lines, Pays w { w with q := (nextMs w.q w.nowMs).2 } lines
      have hrefill : bucket (nextMs w.q w.nowMs).2 = bucket w.q ∨
          bucket (nextMs w.q w.nowMs).2 = (bucket w.q).refill w.nowMs := by
        unfold nextMs
        split
        · exact .inl rfl
        · dsimp only
          rw [← bucket_refill w.q hlast]
          split <;> exact .inr rfl
      rcases hrefill with hq | hq
      · exact ⟨[], .of_bucket ⟨hconn, hsock, hwrites⟩ rfl
          ((congrArg Lib.TokenBucket.Bucket.last hq).trans_le hlast) hq⟩
      · refine ⟨[], ⟨hconn, hsock, hwrites⟩, by simp,
          le_of_eq (congrArg Lib.TokenBucket.Bucket.last hq), fun b₀ ts hrun => ?_⟩
        rw [hq, List.length_nil, List.replicate_zero, List.append_nil]
        exact hrun.refill w.nowMs hlast
  | clock ms => exact ⟨[], .of_bucket ⟨hconn, hsock, hwrites⟩ rfl (le_trans hlast (hok ms rfl)) rfl⟩
  | isupport modes => exact ⟨[], .of_bucket ⟨hconn, hsock, hwrites⟩ rfl hlast rfl⟩

/-- A run writes as a token bucket pays. -/
theorem Run.paid {w₀ w : Wire} {ds : List Done} (h : Run Onward w₀ w ds) (hup : Up w₀)
    (hlast : w₀.q.lastMs ≤ w₀.nowMs) :
    Up w ∧ w.q.lastMs ≤ w.nowMs ∧ Lib.TokenBucket.Run (bucket w₀.q) (bucket w.q) (times ds) := by
  induction h with
  | start => exact ⟨hup, hlast, .start⟩
  | @step w ds _ op hok ih =>
      obtain ⟨hup, hlast, hrun⟩ := ih
      obtain ⟨lines, hpays⟩ := pays_run op hup hlast hok
      refine ⟨hpays.up, hpays.last, ?_⟩
      have htimes : times (ds ++ [⟨op, (op.run w).1, w.nowMs, (op.run w).2.raw.drop w.raw.length⟩]) =
          times ds ++ List.replicate lines.length w.nowMs := by
        simp only [times, List.flatMap_append, List.flatMap_singleton]
        rw [hpays.raw, List.drop_left]
      rw [htimes]
      exact hpays.paid _ _ hrun

/-- **In any window of time, at most a burst and one line for each interval is written, and
the credit keeps its bounds.** -/
theorem Run.paced {w₀ w : Wire} {ds : List Done} (h : Run Onward w₀ w ds) (hup : Up w₀)
    (hlast : w₀.q.lastMs ≤ w₀.nowMs) (hinterval : 0 < w₀.q.intervalMs)
    (hcredit : 0 ≤ w₀.q.creditMs ∧ w₀.q.creditMs ≤ w₀.q.burst * w₀.q.intervalMs) :
    (0 ≤ w.q.creditMs ∧ w.q.creditMs ≤ w₀.q.burst * w₀.q.intervalMs) ∧
      ∀ t₁ t₂, t₁ ≤ t₂ → (Lib.TokenBucket.inWindow t₁ t₂ (times ds) : Int) ≤
        w₀.q.burst + (t₂ - t₁) / w₀.q.intervalMs := by
  obtain ⟨-, -, hrun⟩ := h.paid hup hlast
  have hok : (bucket w₀.q).Ok := ⟨le_of_lt hinterval, hcredit.1, hcredit.2⟩
  obtain ⟨hburst, hint⟩ := hrun.limits
  have hbounds := hrun.credit hok
  have hcap : (bucket w.q).cap = w₀.q.burst * w₀.q.intervalMs := by
    rw [Lib.TokenBucket.Bucket.cap, hburst, hint]
    rfl
  refine ⟨⟨hbounds.credit_nonneg, hcap ▸ hbounds.credit_le⟩, fun t₁ t₂ ht => ?_⟩
  have hcost := hrun.cost_le hok ht
  rw [hcap, hint] at hcost
  have hsplit : w₀.q.burst + (t₂ - t₁) / w₀.q.intervalMs =
      (w₀.q.burst * w₀.q.intervalMs + (t₂ - t₁)) / w₀.q.intervalMs := by
    rw [add_comm (w₀.q.burst * _), Int.add_mul_ediv_right _ _ hinterval.ne', add_comm]
  rw [hsplit]
  refine (Int.le_ediv_iff_mul_le hinterval).mpr ?_
  rw [mul_comm]
  exact hcost

/-- More than a burst at once, and more later, while the queue is held and again. -/
def busy : List Op :=
  List.replicate 12 (.enqueue (str "JOIN #c" ++ crlf)) ++
    [.drain, .clock 150, .drain, .hold, .enqueue (str "KICK #c mallory :no" ++ crlf), .take, .clock 420, .drain,
      .release, .enqueue (str "PONG :a" ++ crlf), .clock 1000, .drain]

example : times (play {} [] busy).2 = List.replicate 10 0 ++ [150, 420, 420] := by decide +kernel

theorem paced_busy :
    (0 ≤ (play {} [] busy).1.q.creditMs ∧ (play {} [] busy).1.q.creditMs ≤ 1000) ∧
      ∀ t₁ t₂ : Int, t₁ ≤ t₂ →
        (Lib.TokenBucket.inWindow t₁ t₂ (times (play {} [] busy).2) : Int) ≤ 10 + (t₂ - t₁) / 100 := by
  have hrun : Run Onward {} (play {} [] busy).1 (play {} [] busy).2 := .play .start (by decide +kernel)
  have hpaced := Run.paced hrun ⟨rfl, rfl, rfl⟩ (by decide) (by decide) (by decide)
  exact ⟨hpaced.1, fun t₁ t₂ ht => hpaced.2 t₁ t₂ ht⟩

end IrcBot.Sendq
