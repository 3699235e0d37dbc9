/-
# The queue of pending work (`chanenf.rs`)

What a backup may have to do in the holder's place waits in one of 32 slots. Every tick deals anew
who is to do it: `jobs_tick` forgets a job, leaves it waiting, or does it.

A run numbers what it hands to `job_submit`. The number of a job is its ticket, and what is done
is put on record with the ticket and the state that it is done in.

* `tickStep_inv`, `submit_inv`, `step_inv` — what one slot of a tick, a submission and any other
  event keep.
* `pendingJobs_run` — over every run no two jobs that wait are the same, no job is done twice, and
  each is done in its time.
-/
import IrcBot.ModeEvents

namespace IrcBot.PendingJobs

open Cstr Chancfg Chanenf Jobs ModeEvents

/-! ### The tick -/

def jobStepMs : Int := 1500
def jobMaxAgeMs : Int := 30000
def enfSweepSecs : Int := 5

/-- How long a backup leaves a job to those before it. The limit job comes from each bot's own
sweep, so the holder has one whole sweep first. -/
def waitMs (act : JobAct) (rank : Int) : Int :=
  rank * jobStepMs + if act = .limit then enfSweepSecs * 1000 else 0

/-- What becomes of a job that waits. -/
inductive Verdict where
  | wait
  | forget
  | exec (ci : Nat)
deriving DecidableEq, Repr

/-- A slot is free again. -/
def freeSlot (b : BotState) (i : Nat) : BotState :=
  { b with jobs := b.jobs.modify i fun j => { j with used := false } }

section Tick

variable (sha256 : Str → Str)

/-- The checks of `jobs_tick` for one job, at time `t`. -/
def jobVerdict (b : BotState) (t : Int) (j : PendingJob) : Verdict :=
  match inChan b j.chan with
  | none => .forget
  | some ci =>
      let rank := dealRank sha256 b ci (actJob j.act)
      if jobMaxAgeMs < t - j.createdMs then .forget
      else if rank < 0 then .forget
      else if t - j.createdMs < waitMs j.act rank then .wait
      -- queued under +bitch, which may be gone by now
      else if j.reason = str "bitch" ∧ get b b.chans[ci]? .bitch = 0 then .forget
      else .exec ci

/-- One slot of `jobs_tick`, and the channel where its job is done. -/
def tickSlot (t : Int) (b : BotState) (i : Nat) : BotState × Option Nat :=
  let j := b.jobs.getD i {}
  if !j.used then (b, none)
  else
    match jobVerdict sha256 b t j with
    | .wait => (b, none)
    | .forget => (freeSlot b i, none)
    | .exec ci => (jobExec (freeSlot b i) ci j.act j.target j.reason, some ci)

/-- `jobs_tick`. -/
def jobsTick (b : BotState) : BotState :=
  (List.range maxPendingJobs).foldl (fun b' i => (tickSlot sha256 b.monoMs b' i).1) b

end Tick

/-! ### Runs -/

/-- What was handed to `job_submit`, and when. -/
structure Asked where
  act : JobAct
  chan : Str
  target : Str
  time : Int
deriving DecidableEq, Repr

/-- What was done: the ticket, the state that it was done in and the channel there. -/
structure Done where
  ticket : Nat
  bot : BotState
  ci : Nat
  act : JobAct
  target : Str

/-- The bot, with what it was asked for and what it did, both oldest first. -/
structure World where
  bot : BotState
  asked : List Asked := []
  /-- The ticket of the job in a slot that is used. -/
  ticketOf : Nat → Nat := fun _ => 0
  done : List Done := []

/-- What happens. Whatever is neither a submission, a cancellation nor a tick leaves the queue
alone; it may change everything else, the rosters, the bot's own standing and the clock
included. -/
inductive Event where
  | submit (ci : Nat) (act : JobAct) (target reason : Str)
  | drop (ci : Nat) (act : JobAct)
  | tick
  | elsewhere (bot : BotState)

/-- What every caller of `job_submit` has seen to: the bot is in the channel, and the target is a
nick or a mask, so it fits into a slot. -/
def Admitted (b : BotState) (ci : Nat) (target : Str) : Prop :=
  (b.chans.getD ci {}).status = .inside ∧ target.length < maxMaskLen

instance (b : BotState) (ci : Nat) (target : Str) : Decidable (Admitted b ci target) :=
  inferInstanceAs (Decidable (_ ∧ _))

theorem admitted_of_validNick {b : BotState} {chan nick : Str} {ci : Nat}
    (hin : inChan b chan = some ci) (hnick : Enforce.validNick b nick = true) :
    Admitted b ci nick := by
  refine ⟨by simpa using (Option.filter_eq_some_iff.mp hin).2, ?_⟩
  simp only [Enforce.validNick, Bool.and_eq_true, decide_eq_true_eq] at hnick
  have hlen : nick.length ≤ maxMemberNick - 1 := hnick.1.2.trans (Nat.min_le_right _ _)
  exact hlen.trans_lt (by decide)

section Runs

variable (sha256 : Str → Str)

/-- `request_kick` and `request_deop` hand in what is admitted, or nothing. -/
theorem requestMember_cases (b : BotState) (act : JobAct) (chan nick reason : Str) :
    (requestMember sha256 b act chan nick reason).2 = b ∨
      ∃ ci, Admitted b ci nick ∧
        (requestMember sha256 b act chan nick reason).2 =
          (jobSubmit sha256 b ci act nick reason).2 := by
  unfold requestMember
  split
  · rename_i ci hin
    split
    · rename_i hnick
      exact .inr ⟨ci, admitted_of_validNick hin hnick, rfl⟩
    · exact .inl rfl
  · exact .inl rfl

/-- So does `request_ban`, for the host and then for the nick. -/
theorem requestBan_cases (b : BotState) (chan nuh reason : Str) (kickToo : Bool) :
    (requestBan sha256 b chan nuh reason kickToo).2 = b ∨
      ∃ ci nick, Admitted b ci nuh ∧ Admitted b ci nick ∧
        (requestBan sha256 b chan nuh reason kickToo).2 =
          if kickToo then
            (jobSubmit sha256 (jobSubmit sha256 b ci .banNuh nuh reason).2 ci .kick nick reason).2
          else (jobSubmit sha256 b ci .banNuh nuh reason).2 := by
  unfold requestBan
  split
  · exact .inl rfl
  · rename_i ci hin
    split
    · exact .inl rfl
    · rename_i hlen
      split
      · exact .inl rfl
      · rename_i nick hnick
        have hvalid := (Option.filter_eq_some_iff.mp hnick).2
        have hnickOk := admitted_of_validNick hin hvalid
        exact .inr ⟨ci, nick, ⟨hnickOk.1, Nat.not_le.mp hlen⟩, hnickOk, by cases kickToo <;> rfl⟩

/-- `job_submit`, on record. It does the work itself when its rank is 0; a slot that it takes gets
the new ticket. -/
def submit (w : World) (ci : Nat) (act : JobAct) (target reason : Str) : World where
  bot := (jobSubmit sha256 w.bot ci act target reason).2
  asked := w.asked ++ [⟨act, (w.bot.chans.getD ci {}).name, target, w.bot.monoMs⟩]
  ticketOf := fun i => if (w.bot.jobs.getD i {}).used then w.ticketOf i else w.asked.length
  done :=
    if dealRank sha256 w.bot ci (actJob act) = 0 then
      w.done ++ [⟨w.asked.length, w.bot, ci, act, target⟩]
    else w.done

/-- One slot of a tick, on record. -/
def tickStep (t : Int) (w : World) (i : Nat) : World :=
  let j := w.bot.jobs.getD i {}
  let slot := tickSlot sha256 t w.bot i
  { w with
    bot := slot.1
    done := w.done ++ slot.2.toList.map fun ci => ⟨w.ticketOf i, w.bot, ci, j.act, j.target⟩ }

def tick (w : World) : World :=
  (List.range maxPendingJobs).foldl (tickStep sha256 w.bot.monoMs) w

def step (w : World) : Event → World
  | .submit ci act target reason =>
      if Admitted w.bot ci target then submit sha256 w ci act target reason else w
  | .drop ci act => { w with bot := jobsDrop w.bot ci act }
  | .tick => tick sha256 w
  | .elsewhere bot => { w with bot := { bot with jobs := w.bot.jobs } }

def run (w : World) (es : List Event) : World := es.foldl (step sha256) w

/-- A tick on record is `jobs_tick`. -/
theorem bot_tick (w : World) : (tick sha256 w).bot = jobsTick sha256 w.bot := by
  unfold tick jobsTick
  generalize w.bot.monoMs = t
  induction List.range maxPendingJobs generalizing w with
  | nil => rfl
  | cons i is ih => exact ih (tickStep sha256 t w i)

end Runs

/-- A bot that has nothing queued yet. -/
def start (bot : BotState) : World where
  bot := { bot with jobs := List.replicate maxPendingJobs {} }

/-! ### What a run keeps -/

/-- A job waits in a slot. -/
def Pending (b : BotState) (i : Nat) (j : PendingJob) : Prop := b.jobs[i]? = some j ∧ j.used = true

/-- The same work, up to case. -/
def Same (j k : PendingJob) : Prop :=
  j.act = k.act ∧ eqIc j.chan k.chan = true ∧ eqIc j.target k.target = true

/-- What a job was asked as. -/
def askedOf (j : PendingJob) : Asked := ⟨j.act, j.chan, j.target, j.createdMs⟩

section Keeps

variable (sha256 : Str → Str)

/-- What was done is what was asked for, and was done where and when it should be. -/
structure Due (a : Asked) (d : Done) : Prop where
  act : d.act = a.act
  target : d.target = a.target
  chan : eqIc (d.bot.chans.getD d.ci {}).name a.chan = true
  inside : (d.bot.chans.getD d.ci {}).status = .inside
  rank : 0 ≤ dealRank sha256 d.bot d.ci (actJob d.act)
  notBefore : dealRank sha256 d.bot d.ci (actJob d.act) * jobStepMs ≤ d.bot.monoMs - a.time
  notAfter : d.bot.monoMs - a.time ≤ jobMaxAgeMs

structure Inv (w : World) : Prop where
  length : w.bot.jobs.length = maxPendingJobs
  unique : ∀ i k j l, Pending w.bot i j → Pending w.bot k l → Same j l → i = k
  tickets : ∀ i k j l, Pending w.bot i j → Pending w.bot k l → w.ticketOf i = w.ticketOf k → i = k
  asked : ∀ i j, Pending w.bot i j → w.asked[w.ticketOf i]? = some (askedOf j)
  undone : ∀ i j, Pending w.bot i j → ∀ d ∈ w.done, d.ticket ≠ w.ticketOf i
  once : (w.done.map Done.ticket).Nodup
  due : ∀ d ∈ w.done, ∃ a, w.asked[d.ticket]? = some a ∧ Due sha256 a d

variable {sha256} {w w' : World}

/-- The jobs that wait are those that did, or fewer. -/
theorem Inv.of_pending (h : Inv sha256 w) (hlength : w'.bot.jobs.length = w.bot.jobs.length)
    (hpending : ∀ i j, Pending w'.bot i j → Pending w.bot i j ∧ w'.ticketOf i = w.ticketOf i)
    (hasked : w.asked <+: w'.asked) (hdone : w'.done = w.done) : Inv sha256 w' := by
  have hkept {n : Nat} {a : Asked} (ha : w.asked[n]? = some a) : w'.asked[n]? = some a := by
    obtain ⟨more, heq⟩ := hasked
    rw [← heq, List.getElem?_append_left (List.getElem?_eq_some_iff.mp ha).1, ha]
  refine
    { length := hlength.trans h.length
      unique := fun i k j l hj hl => h.unique i k j l (hpending i j hj).1 (hpending k l hl).1
      tickets := fun i k j l hj hl heq => ?_
      asked := fun i j hj => ?_
      undone := fun i j hj => ?_
      once := hdone ▸ h.once
      due := fun d hd => ?_ }
  · rw [(hpending i j hj).2, (hpending k l hl).2] at heq
    exact h.tickets i k j l (hpending i j hj).1 (hpending k l hl).1 heq
  · rw [(hpending i j hj).2]
    exact hkept (h.asked i j (hpending i j hj).1)
  · rw [hdone, (hpending i j hj).2]
    exact h.undone i j (hpending i j hj).1
  · obtain ⟨a, ha, hdue⟩ := h.due d (hdone ▸ hd)
    exact ⟨a, hkept ha, hdue⟩

/-- One more job is done, none that waits. -/
theorem Inv.record (h : Inv sha256 w) {d : Done}
    (hpending : ∀ i j, Pending w.bot i j → d.ticket ≠ w.ticketOf i)
    (hnew : ∀ e ∈ w.done, e.ticket ≠ d.ticket)
    (hdue : ∃ a, w.asked[d.ticket]? = some a ∧ Due sha256 a d) :
    Inv sha256 { w with done := w.done ++ [d] } where
  length := h.length
  unique := h.unique
  tickets := h.tickets
  asked := h.asked
  undone := fun i j hj e he => by
    rcases List.mem_append.mp he with he | he
    · exact h.undone i j hj e he
    · rw [List.mem_singleton.mp he]
      exact hpending i j hj
  once := by
    rw [List.map_append, List.map_singleton]
    refine List.nodup_append.mpr ⟨h.once, List.nodup_singleton _, fun n hn m hm heq => ?_⟩
    obtain ⟨e, he, rfl⟩ := List.mem_map.mp hn
    exact hnew e he (heq.trans (List.mem_singleton.mp hm))
  due := fun e he => by
    rcases List.mem_append.mp he with he | he
    · exact h.due e he
    · rw [List.mem_singleton.mp he]
      exact hdue

/-- Tickets are numbers of what was asked. -/
theorem Inv.ticket_lt (h : Inv sha256 w) {d : Done} (hd : d ∈ w.done) :
    d.ticket < w.asked.length := by
  obtain ⟨a, ha, -⟩ := h.due d hd
  exact (List.getElem?_eq_some_iff.mp ha).1

theorem Inv.ticketOf_lt (h : Inv sha256 w) {i : Nat} {j : PendingJob} (hj : Pending w.bot i j) :
    w.ticketOf i < w.asked.length := (List.getElem?_eq_some_iff.mp (h.asked i j hj)).1

/-! ### Slots -/

theorem pending_freeSlot {b : BotState} {i k : Nat} {l : PendingJob}
    (h : Pending (freeSlot b i) k l) : Pending b k l ∧ k ≠ i := by
  obtain ⟨hget, hused⟩ := h
  rw [freeSlot, List.getElem?_modify] at hget
  obtain ⟨j, hj, rfl⟩ := Option.map_eq_some_iff.mp hget
  by_cases hik : i = k
  · rw [if_pos hik] at hused
    cases hused
  · rw [if_neg hik] at hused ⊢
    exact ⟨⟨hj, hused⟩, Ne.symm hik⟩

theorem pending_jobsDrop {b : BotState} {ci : Nat} {act : JobAct} {k : Nat} {l : PendingJob}
    (h : Pending (jobsDrop b ci act) k l) : Pending b k l := by
  obtain ⟨hget, hused⟩ := h
  rw [jobsDrop, List.getElem?_map] at hget
  obtain ⟨j, hj, rfl⟩ := Option.map_eq_some_iff.mp hget
  by_cases hdropped : (j.used && j.act == act && eqIc j.chan (b.chans.getD ci {}).name) = true
  · rw [if_pos hdropped] at hused
    cases hused
  · rw [if_neg hdropped] at hused ⊢
    exact ⟨hj, hused⟩

/-- Work leaves the queue alone. -/
theorem jobs_jobExec (b : BotState) (ci : Nat) (act : JobAct) (target reason : Str) :
    (jobExec b ci act target reason).jobs = b.jobs :=
  jobs_of_coreJobs (coreJobs_jobExec b ci act target reason)

theorem monoMs_jobExec (b : BotState) (ci : Nat) (act : JobAct) (target reason : Str) :
    (jobExec b ci act target reason).monoMs = b.monoMs := by
  have hcore : (core (jobExec b ci act target reason)).monoMs = (core b).monoMs := by
    rw [core_jobExec]
  exact hcore

/-! ### One slot of a tick -/

theorem pending_getD {b : BotState} {i : Nat} (h : (b.jobs.getD i {}).used = true) :
    Pending b i (b.jobs.getD i {}) := by
  rw [List.getD_eq_getElem?_getD] at h ⊢
  cases hj : b.jobs[i]? with
  | none =>
      rw [hj] at h
      cases h
  | some j =>
      rw [hj] at h
      exact ⟨hj, h⟩

/-- A job that is done is due. -/
theorem due_of_exec {b : BotState} {j : PendingJob} {ci : Nat}
    (h : jobVerdict sha256 b b.monoMs j = .exec ci) (n : Nat) :
    Due sha256 (askedOf j) ⟨n, b, ci, j.act, j.target⟩ := by
  unfold jobVerdict at h
  split at h
  · cases h
  · rename_i ci' hin
    dsimp only at h
    split at h
    · cases h
    · rename_i hage
      split at h
      · cases h
      · rename_i hrank
        split at h
        · cases h
        · rename_i hwait
          split at h
          · cases h
          · cases h
            obtain ⟨hfind, hinside⟩ := Option.filter_eq_some_iff.mp hin
            obtain ⟨c, hc, hname⟩ := find_eq_some hfind
            have hchan : b.chans.getD ci {} = c := by
              rw [List.getD_eq_getElem?_getD, hc]
              rfl
            have hstep : dealRank sha256 b ci (actJob j.act) * jobStepMs ≤
                waitMs j.act (dealRank sha256 b ci (actJob j.act)) := by
              have hsweep : (0 : Int) ≤ if j.act = .limit then enfSweepSecs * 1000 else 0 := by
                split <;> decide
              unfold waitMs
              omega
            exact
              { act := rfl, target := rfl
                chan := by rw [hchan]; exact hname
                inside := by simpa using hinside
                rank := not_lt.mp hrank
                notBefore := hstep.trans (not_lt.mp hwait)
                notAfter := not_lt.mp hage }

theorem tickStep_inv (h : Inv sha256 w) (i : Nat) :
    Inv sha256 (tickStep sha256 w.bot.monoMs w i) ∧
      (tickStep sha256 w.bot.monoMs w i).bot.monoMs = w.bot.monoMs := by
  have hfreed : ∀ k l, Pending (freeSlot w.bot i) k l →
      Pending w.bot k l ∧ w.ticketOf k =
        w.ticketOf k := fun k l hl => ⟨(pending_freeSlot hl).1, rfl⟩
  have hlength : (freeSlot w.bot i).jobs.length = w.bot.jobs.length := List.length_modify ..
  unfold tickStep tickSlot
  dsimp only
  split
  · exact ⟨h.of_pending rfl (fun k l hl => ⟨hl, rfl⟩) (List.prefix_refl _) (List.append_nil _), rfl⟩
  · rename_i hused
    have hpending := pending_getD (b := w.bot) (i := i) (by simpa using hused)
    split
    · exact ⟨h.of_pending rfl (fun k l hl => ⟨hl, rfl⟩) (List.prefix_refl _) (List.append_nil _), rfl⟩
    · exact ⟨h.of_pending hlength hfreed (List.prefix_refl _) (List.append_nil _), rfl⟩
    · rename_i ci hexec
      refine ⟨?_, monoMs_jobExec ..⟩
      -- the slot is free again, and its ticket is used up
      have hjobs := jobs_jobExec (freeSlot w.bot i) ci (w.bot.jobs.getD i {}).act
        (w.bot.jobs.getD i {}).target (w.bot.jobs.getD i {}).reason
      generalize jobExec (freeSlot w.bot i) ci (w.bot.jobs.getD i {}).act
        (w.bot.jobs.getD i {}).target (w.bot.jobs.getD i {}).reason = b' at hjobs
      have hold : ∀ k l, Pending b' k l → Pending w.bot k l ∧ k ≠ i := by
        intro k l hl
        refine pending_freeSlot (i := i) ?_
        rw [Pending, ← hjobs]
        exact hl
      have hfree : Inv sha256 { w with bot := b' } :=
        h.of_pending (by rw [hjobs, hlength]) (fun k l hl => ⟨(hold k l hl).1, rfl⟩)
          (List.prefix_refl _) rfl
      refine hfree.record (fun k l hl heq => ?_) (h.undone i _ hpending) ?_
      · exact (hold k l hl).2 (h.tickets k i l _ (hold k l hl).1 hpending heq.symm)
      · exact ⟨_, h.asked i _ hpending, due_of_exec hexec _⟩

theorem tick_inv (h : Inv sha256 w) : Inv sha256 (tick sha256 w) := by
  unfold tick
  generalize ht : w.bot.monoMs = t
  induction List.range maxPendingJobs generalizing w with
  | nil => exact h
  | cons i is ih =>
      obtain ⟨hinv, hclock⟩ := tickStep_inv h i
      rw [ht] at hinv hclock
      exact ih hinv hclock

/-! ### A submission -/

/-- The job as it waits. -/
def queued (b : BotState) (ci : Nat) (act : JobAct) (target reason : Str) : PendingJob where
  used := true
  act := act
  chan := (b.chans.getD ci {}).name
  target := trunc target maxMaskLen
  reason := trunc reason (banReasonMax + 1)
  createdMs := b.monoMs

/-- What `job_submit` comes to: the work is done, or nothing happens, or it takes a free slot. -/
theorem jobSubmit_cases (b : BotState) (ci : Nat) (act : JobAct) (target reason : Str) :
    (dealRank sha256 b ci (actJob act) = 0 ∧
      (jobSubmit sha256 b ci act target reason).2 = jobExec b ci act target reason) ∨
    (dealRank sha256 b ci (actJob act) ≠ 0 ∧
      ((jobSubmit sha256 b ci act target reason).2 = b ∨
        ∃ i, i < b.jobs.length ∧ (b.jobs.getD i {}).used = false ∧
          (∀ k l, Pending b k l → ¬ (l.act = act ∧ eqIc l.chan (b.chans.getD ci {}).name = true ∧
            eqIc l.target target = true)) ∧
          (jobSubmit sha256 b ci act target reason).2 =
            { b with jobs := b.jobs.set i (queued b ci act target reason) })) := by
  unfold jobSubmit
  dsimp only
  split
  · rename_i hneg
    exact .inr ⟨by omega, .inl rfl⟩
  · split
    · rename_i hzero
      exact .inl ⟨hzero, rfl⟩
    · rename_i hrank
      refine .inr ⟨hrank, ?_⟩
      split
      · exact .inl rfl
      · rename_i hnew
        split
        · exact .inl rfl
        · rename_i i hfree
          obtain ⟨hlt, hunused, -⟩ := List.findIdx?_eq_some_iff_getElem.mp hfree
          refine .inr ⟨i, hlt, ?_, fun k l hl hsame => hnew ?_, rfl⟩
          · rw [List.getD_eq_getElem?_getD, List.getElem?_eq_getElem hlt]
            simpa using hunused
          · refine List.any_eq_true.mpr ⟨l, List.mem_of_getElem? hl.1, ?_⟩
            simp only [hl.2, hsame.1, hsame.2.1, hsame.2.2, beq_self_eq_true, Bool.and_self]

/-- A slot that is taken has the new job, and all others wait as they did. -/
theorem pending_set {b : BotState} {i k : Nat} {j l : PendingJob}
    (h : Pending { b with jobs := b.jobs.set i j } k l) :
    (k = i ∧ l = j) ∨ (k ≠ i ∧ Pending b k l) := by
  obtain ⟨hget, hused⟩ := h
  by_cases hik : k = i
  · subst hik
    dsimp only at hget
    rw [List.getElem?_set_self'] at hget
    obtain ⟨-, -, rfl⟩ := Option.map_eq_some_iff.mp hget
    exact .inl ⟨rfl, rfl⟩
  · rw [List.getElem?_set_ne (Ne.symm hik)] at hget
    exact .inr ⟨hik, hget, hused⟩

theorem Same.symm {j l : PendingJob} (h : Same j l) : Same l j := by
  obtain ⟨hact, hchan, htarget⟩ := h
  exact ⟨hact.symm, eqIc_iff.mpr (eqIc_iff.mp hchan).symm, eqIc_iff.mpr (eqIc_iff.mp htarget).symm⟩

section Submit

variable {ci : Nat} {act : JobAct} {target reason : Str}

/-- A job that waited keeps its ticket. -/
theorem ticketOf_submit {k : Nat} {l : PendingJob} (hl : Pending w.bot k l) :
    (submit sha256 w ci act target reason).ticketOf k = w.ticketOf k := by
  refine if_pos ?_
  rw [List.getD_eq_getElem?_getD, hl.1]
  exact hl.2

theorem asked_submit : w.asked <+: (submit sha256 w ci act target reason).asked :=
  List.prefix_append _ _

/-- The holder does the work at once, so the new ticket is used up as it is given. -/
theorem submit_done (h : Inv sha256 w) (hadmitted : Admitted w.bot ci target)
    (hrank : dealRank sha256 w.bot ci (actJob act) = 0)
    (hbot : (submit sha256 w ci act target reason).bot = jobExec w.bot ci act target reason) :
    Inv sha256 (submit sha256 w ci act target reason) := by
  have hjobs : (submit sha256 w ci act target reason).bot.jobs = w.bot.jobs := by
    rw [hbot]
    exact jobs_jobExec w.bot ci act target reason
  have hold {k : Nat} {l : PendingJob} (hl : Pending (submit sha256 w ci act target reason).bot k l) :
      Pending w.bot k l := by
    rw [Pending, ← hjobs]
    exact hl
  have hticket {k : Nat} {l : PendingJob} (hl : Pending w.bot k l) :
      (submit sha256 w ci act target reason).ticketOf k = w.ticketOf k := ticketOf_submit hl
  have hasked : w.asked <+: (submit sha256 w ci act target reason).asked := asked_submit
  have hkept : Inv sha256 { submit sha256 w ci act target reason with done := w.done } :=
    h.of_pending (congrArg List.length hjobs) (fun k l hl => ⟨hold hl, hticket (hold hl)⟩) hasked rfl
  have hdone : submit sha256 w ci act target reason =
      { submit sha256 w ci act target reason with
        done := w.done ++ [⟨w.asked.length, w.bot, ci, act, target⟩] } := by
    unfold submit
    rw [if_pos hrank]
  rw [hdone]
  refine hkept.record (fun k l hl => ?_) (fun e he => Nat.ne_of_lt (h.ticket_lt he))
    ⟨_, List.getElem?_concat_length, ?_⟩
  · have hlt := h.ticketOf_lt (hold hl)
    rw [← hticket (hold hl)] at hlt
    exact (Nat.ne_of_lt hlt).symm
  · exact
      { act := rfl, target := rfl, chan := eqIc_refl _, inside := hadmitted.1
        rank := hrank.ge
        notBefore := by simp [hrank]
        notAfter := by simp [jobMaxAgeMs] }

/-- A backup takes a free slot for work that waits in none. -/
theorem submit_queued (h : Inv sha256 w) (hadmitted : Admitted w.bot ci target)
    (hrank : dealRank sha256 w.bot ci (actJob act) ≠ 0) {i : Nat}
    (hfree : (w.bot.jobs.getD i {}).used = false)
    (hnew : ∀ k l, Pending w.bot k l → ¬ (l.act = act ∧
      eqIc l.chan (w.bot.chans.getD ci {}).name = true ∧ eqIc l.target target = true))
    (hbot : (submit sha256 w ci act target reason).bot =
      { w.bot with jobs := w.bot.jobs.set i (queued w.bot ci act target reason) }) :
    Inv sha256 (submit sha256 w ci act target reason) := by
  have hpending {k : Nat} {l : PendingJob} (hl : Pending (submit sha256 w ci act target reason).bot k l) :
      (k = i ∧ l = queued w.bot ci act target reason) ∨ (k ≠ i ∧ Pending w.bot k l) := by
    rw [hbot] at hl
    exact pending_set hl
  -- the target fits into the slot, so the job is what was asked for
  have htarget : (queued w.bot ci act target reason).target = target := trunc_of_lt hadmitted.2
  have hnewest : (submit sha256 w ci act target reason).ticketOf i = w.asked.length :=
    if_neg (by rw [hfree]; exact Bool.false_ne_true)
  have hticket {k : Nat} {l : PendingJob} (hl : Pending w.bot k l) :
      (submit sha256 w ci act target reason).ticketOf k = w.ticketOf k := ticketOf_submit hl
  have hdone : (submit sha256 w ci act target reason).done = w.done := if_neg hrank
  have hother {k : Nat} {l : PendingJob} (hl : Pending w.bot k l) :
      ¬ Same l (queued w.bot ci act target reason) := by
    rintro ⟨hact, hchan, hsame⟩
    rw [htarget] at hsame
    exact hnew k l hl ⟨hact, hchan, hsame⟩
  have hkept {n : Nat} {a : Asked} (ha : w.asked[n]? = some a) :
      (submit sha256 w ci act target reason).asked[n]? = some a := by
    rw [← ha]
    exact List.getElem?_append_left (List.getElem?_eq_some_iff.mp ha).1
  refine
    { length := ?length, unique := ?unique, tickets := ?tickets, asked := ?asked, undone := ?undone
      once := hdone ▸ h.once, due := ?due }
  case length =>
    rw [hbot]
    exact (List.length_set ..).trans h.length
  case unique =>
    intro k m j l hj hl hsame
    rcases hpending hj with ⟨rfl, rfl⟩ | ⟨-, hj⟩
    · rcases hpending hl with ⟨rfl, -⟩ | ⟨-, hl⟩
      · rfl
      · exact absurd hsame.symm (hother hl)
    · rcases hpending hl with ⟨rfl, rfl⟩ | ⟨-, hl⟩
      · exact absurd hsame (hother hj)
      · exact h.unique k m j l hj hl hsame
  case tickets =>
    intro k m j l hj hl heq
    rcases hpending hj with ⟨rfl, -⟩ | ⟨-, hj⟩
    · rcases hpending hl with ⟨rfl, -⟩ | ⟨-, hl⟩
      · rfl
      · rw [hnewest, hticket hl] at heq
        exact absurd heq.symm (Nat.ne_of_lt (h.ticketOf_lt hl))
    · rcases hpending hl with ⟨rfl, -⟩ | ⟨-, hl⟩
      · rw [hnewest, hticket hj] at heq
        exact absurd heq (Nat.ne_of_lt (h.ticketOf_lt hj))
      · rw [hticket hj, hticket hl] at heq
        exact h.tickets k m j l hj hl heq
  case asked =>
    intro k j hj
    rcases hpending hj with ⟨rfl, rfl⟩ | ⟨-, hj⟩
    · rw [hnewest, askedOf, htarget]
      exact List.getElem?_concat_length
    · rw [hticket hj]
      exact hkept (h.asked k j hj)
  case undone =>
    intro k j hj
    rw [hdone]
    rcases hpending hj with ⟨rfl, -⟩ | ⟨-, hj⟩
    · rw [hnewest]
      exact fun d hd => Nat.ne_of_lt (h.ticket_lt hd)
    · rw [hticket hj]
      exact h.undone k j hj
  case due =>
    intro d hd
    rw [hdone] at hd
    obtain ⟨a, ha, hdue⟩ := h.due d hd
    exact ⟨a, hkept ha, hdue⟩

theorem submit_inv (h : Inv sha256 w) (hadmitted : Admitted w.bot ci target) :
    Inv sha256 (submit sha256 w ci act target reason) := by
  rcases @jobSubmit_cases sha256 w.bot ci act target reason with
    ⟨hrank, hbot⟩ | ⟨hrank, hbot | ⟨i, hlt, hfree, hnew, hbot⟩⟩
  · exact submit_done h hadmitted hrank hbot
  · have hsame : (submit sha256 w ci act target reason).bot = w.bot := hbot
    refine h.of_pending (by rw [hsame]) (fun k l hl => ?_) asked_submit (if_neg hrank)
    rw [hsame] at hl
    exact ⟨hl, ticketOf_submit hl⟩
  · exact submit_queued h hadmitted hrank hfree hnew hbot

end Submit

/-! ### Every run -/

theorem step_inv (h : Inv sha256 w) (e : Event) : Inv sha256 (step sha256 w e) := by
  cases e with
  | submit ci act target reason =>
      rw [step]
      split
      · rename_i hadmitted
        exact submit_inv h hadmitted
      · exact h
  | drop ci act =>
      exact h.of_pending (List.length_map ..) (fun k l hl => ⟨pending_jobsDrop hl, rfl⟩)
        (List.prefix_refl _) rfl
  | tick => exact tick_inv h
  | elsewhere bot => exact h.of_pending rfl (fun k l hl => ⟨hl, rfl⟩) (List.prefix_refl _) rfl

theorem run_inv (h : Inv sha256 w) (es : List Event) : Inv sha256 (run sha256 w es) := by
  induction es generalizing w with
  | nil => exact h
  | cons e es ih => exact ih (step_inv h e)

theorem start_inv (bot : BotState) : Inv sha256 (start bot) := by
  have hnone (i : Nat) (j : PendingJob) : ¬ Pending (start bot).bot i j := by
    rintro ⟨hget, hused⟩
    have hfree : (List.replicate maxPendingJobs ({} : PendingJob))[i]? = some j := hget
    rw [List.eq_of_mem_replicate (List.mem_of_getElem? hfree)] at hused
    cases hused
  exact
    { length := List.length_replicate
      unique := fun i k j l hj => absurd hj (hnone i j)
      tickets := fun i k j l hj => absurd hj (hnone i j)
      asked := fun i j hj => absurd hj (hnone i j)
      undone := fun i j hj => absurd hj (hnone i j)
      once := List.nodup_nil
      due := fun d hd => absurd hd List.not_mem_nil }

end Keeps

/-- **The pending work.** After any run of submissions, cancellations, ticks and whatever else
happens in between, no two jobs that wait are the same up to case, and at most 32 wait. No job was
done twice; each was asked for, and was done while the bot was in the channel and took part, no
sooner than its rank asks for and no later than 30 seconds after. -/
theorem pendingJobs_run (sha256 : Str → Str) (bot : BotState) (es : List Event) :
    (∀ i k j l, Pending (run sha256 (start bot) es).bot i j →
      Pending (run sha256 (start bot) es).bot k l → Same j l → i = k) ∧
    ((run sha256 (start bot) es).bot.jobs.filter (·.used)).length ≤ 32 ∧
    ((run sha256 (start bot) es).done.map Done.ticket).Nodup ∧
    ∀ d ∈ (run sha256 (start bot) es).done,
      ∃ a, (run sha256 (start bot) es).asked[d.ticket]? = some a ∧ Due sha256 a d := by
  have hinv : Inv sha256 (run sha256 (start bot) es) := run_inv (start_inv bot) es
  exact ⟨hinv.unique, (List.length_filter_le _ _).trans hinv.length.le, hinv.once, hinv.due⟩

end IrcBot.PendingJobs
