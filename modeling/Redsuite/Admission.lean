import Redsuite.Runner
import Mathlib.Data.List.Range

/-!
# What the driver admits and what it counts

The driver keeps two books.
-/

namespace Redsuite.Runner

open List Option

/-! ### Logs -/

theorem called_append (log rest : List Note) : called (log ++ rest) = called log ++ called rest :=
  filterMap_append

/-- No request is called for after `done` was seen. -/
def Quiet (log : List Note) : Prop :=
  ∀ before after, log = before ++ .observed true :: after → called after = []

theorem Quiet.of_notMem {log : List Note} (h : Note.observed true ∉ log) : Quiet log := by
  rintro before after rfl
  exact absurd (mem_append_right before mem_cons_self) h

theorem Quiet.observe {log : List Note} (h : Quiet log) (done : Bool) :
    Quiet (log ++ [.observed done]) := by
  intro before after heq
  rcases eq_nil_or_concat after with rfl | ⟨front, last, rfl⟩
  · rfl
  · -- the last line is the new one, what stands before it is as it was
    rw [concat_eq_append, ← cons_append, ← append_assoc] at heq
    obtain ⟨hlog, hla⟩ := append_inj' heq rfl
    rw [concat_eq_append, called_append, h before front hlog, ← hla]
    rfl

/-! ### Books -/

/-- What was recorded of the settled jobs. -/
structure Tallied (workload : Workload) (tally : RawRunOutcome) : Prop where
  scheduling : tally.scheduling.count = tally.delivered + tally.failed
  unsynced : workload.sync = false → tally.delivery.count = tally.delivered
  synced : workload.sync = true → ∃ stats, tally.sync = some stats ∧ stats.count = tally.delivered

theorem Tallied.record {workload : Workload} {tally : RawRunOutcome} (h : Tallied workload tally)
    (admitted : ℕ) (report : Report) :
    Tallied workload (tally.record (Job.run admitted workload.sync report)) := by
  refine ⟨?_, fun hsync => ?_, fun hsync => ?_⟩
  · rw [RunOutcome.record_scheduling, RunOutcome.record_total, h.scheduling]
  · rw [RunOutcome.record_delivery, RunOutcome.record_delivered, h.unsynced hsync, hsync,
      Job.run_unsynced]
  · obtain ⟨stats, hstats, hct⟩ := h.synced hsync
    obtain ⟨next, hnx, hmore⟩ :=
      RunOutcome.record_sync_some hstats (Job.run admitted workload.sync report)
    refine ⟨next, hnx, ?_⟩
    rw [hmore, RunOutcome.record_delivered, hct, hsync, Job.run_synced]

/-- What holds at every await of the requests, the tally and the log. -/
structure Books (workload : Workload) (admitted inFlight : ℕ) (tally : RawRunOutcome)
    (log : List Note) : Prop where
  room : inFlight ≤ workload.concurrency
  /-- the ids called for are those up to `admitted`, in their order -/
  calls : called log = List.range' 1 admitted
  budget : ∀ total deadline, workload.completion = .iterations total deadline → admitted ≤ total
  /-- nothing is called for after `done` was seen -/
  quiet : Quiet log
  tallied : Tallied workload tally
  total : tally.delivered + tally.failed + inFlight = admitted

/-- A budget without another bound is used up. -/
def Spent (workload : Workload) (admitted : ℕ) : Prop :=
  ∀ total, workload.completion = .iterations total none → admitted = total

/-- The outcome accounts for every admitted job. -/
structure Accounted (workload : Workload) (admitted : ℕ) (outcome : RawRunOutcome) : Prop where
  total : outcome.delivered + outcome.failed = admitted
  scheduling : outcome.scheduling.count = admitted
  unsynced : workload.sync = false → outcome.delivery.count = outcome.delivered
  synced : workload.sync = true →
    ∃ stats, outcome.sync = some stats ∧ stats.count = outcome.delivered
  spent : Spent workload admitted
  offered : outcome.offered = workload.pacing

/-- What holds at this point of the loop. -/
def AtPoint (workload : Workload) (driver : Driver) : Point → Prop
  | .head | .selecting => Note.observed true ∉ driver.log
  | .ticked => Note.observed true ∉ driver.log ∧ driver.jobs.length < workload.concurrency
  | .draining _ => driver.stalled = false → Spent workload driver.admitted
  | .returned (.ok outcome) => Accounted workload driver.admitted outcome
  | .returned (.error _) => True

/-- What holds of a run at every await. -/
structure Inv (workload : Workload) (driver : Driver) : Prop where
  books : Books workload driver.admitted driver.jobs.length driver.tally driver.log
  atPoint : AtPoint workload driver driver.point

/-! ### Steps -/

variable {w : Workload} {driver : Driver} {admitted inFlight : ℕ} {tally : RawRunOutcome}
  {log : List Note}

variable {reading : Reading} {next : Driver}

theorem Completion.not_done {self : Completion} {total : ℕ} {deadline : Option ℕ}
    (h : self.done admitted reading = false) (hself : self = .iterations total deadline) :
    admitted < total := by
  subst hself
  obtain ⟨htot, -⟩ := Bool.or_eq_false_iff.mp h
  exact Nat.lt_of_not_le (of_decide_eq_false htot)

theorem Completion.done_total {self : Completion} {total : ℕ}
    (h : self.done admitted reading = true) (hself : self = .iterations total none) :
    total ≤ admitted := by
  subst hself
  rw [done, Bool.or_false, decide_eq_true_eq] at h
  exact h

theorem Books.spent (h : Books w admitted inFlight tally log)
    (hd : w.completion.done admitted reading = true) : Spent w admitted :=
  fun total htot =>
    Nat.le_antisymm (h.budget total none htot) (Completion.done_total hd htot)

theorem Books.observe (h : Books w admitted inFlight tally log) (done : Bool) :
    Books w admitted inFlight tally (log ++ [.observed done]) := by
  refine ⟨h.room, ?_, h.budget, h.quiet.observe done, h.tallied, h.total⟩
  exact (called_append log _).trans ((append_nil _).trans h.calls)

theorem Books.accounted (h : Books w admitted 0 tally log)
    (hspent : Spent w admitted) (rps : ObservationsStats) (wall admissionWall : ℕ) :
    Accounted w admitted
      { tally with offered := w.pacing, rps, wall, admissionWall } :=
  ⟨h.total, h.tallied.scheduling.trans h.total, h.tallied.unsynced, h.tallied.synced, hspent, rfl⟩

theorem Books.complete (h : Books w admitted (inFlight + 1) tally log)
    (admittedAt : ℕ) (report : Report) :
    Books w admitted inFlight
      (tally.record (Job.run admittedAt w.sync report)) log := by
  have hrec := tally.record_total (Job.run admittedAt w.sync report)
  have htot := h.total
  have hroom := h.room
  refine ⟨by omega, h.calls, h.budget, h.quiet, h.tallied.record admittedAt report, by omega⟩

theorem length_eraseIdx_flight {i : ℕ} {flight : Flight}
    (h : driver.jobs[i]? = some flight) :
    driver.jobs.length = (driver.jobs.eraseIdx i).length + 1 :=
  (length_eraseIdx_add_one (lt_of_getElem? h)).symm

theorem notMem_append {note : Note} (h : Note.observed true ∉ log)
    (hnote : note ≠ .observed true) : Note.observed true ∉ log ++ [note] := by
  intro hm
  rcases mem_concat.mp hm with hold | hnew
  · exact h hold
  · exact hnote hnew.symm

theorem Inv.settle (h : Inv w driver) {deadline : ℕ}
    (hpoint : driver.point = .draining deadline) (now : ℕ) :
    Inv w (driver.settle w now) := by
  have hspent := h.atPoint
  rw [hpoint] at hspent
  rw [Driver.settle]
  split
  · exact h
  · rename_i hjobs
    have hbk := h.books
    refine ⟨hbk, ?_⟩
    rw [hjobs] at hbk
    cases hstalled : driver.stalled with
    | true => exact trivial
    | false => exact hbk.accounted (hspent hstalled) _ _ _

theorem Inv.drain (driver : Driver)
    (h : Books w driver.admitted driver.jobs.length driver.tally driver.log)
    (hspent : driver.stalled = false → Spent w driver.admitted) (now : ℕ) :
    Inv w (driver.drain w now) :=
  have hdraining : Inv w { driver with
      admissionWall := now - driver.started
      rps := driver.stats.finish now
      point := .draining (now + networkTimeout) } := ⟨h, hspent⟩
  hdraining.settle rfl now

theorem Inv.admitOne (driver : Driver)
    (h : Books w driver.admitted driver.jobs.length driver.tally driver.log)
    (hopen : Note.observed true ∉ driver.log) (hroom : driver.jobs.length < w.concurrency)
    (hbudget : ∀ total deadline, w.completion = .iterations total deadline →
      driver.admitted < total)
    (now : ℕ) : Inv w (driver.admitOne now) := by
  have hopen' : Note.observed true ∉ (driver.admitOne now).log := notMem_append hopen nofun
  have hlen : (driver.admitOne now).jobs.length = driver.jobs.length + 1 := length_append
  refine ⟨⟨?_, ?_, hbudget, .of_notMem hopen', h.tallied, ?_⟩, hopen'⟩
  · rw [hlen]
    exact hroom
  · have hnew : called [Note.called (driver.admitted + 1)] = [1 + driver.admitted] := by
      rw [Nat.add_comm 1]
      rfl
    change called (driver.log ++ [Note.called (driver.admitted + 1)]) = _
    rw [called_append, h.calls, hnew]
    exact range'_1_concat.symm
  · rw [hlen]
    exact congrArg (· + 1) h.total

theorem Inv.check (h : Inv w driver)
    (hst : driver.step w (.check reading) = some next) : Inv w next := by
  have hat := h.atPoint
  cases hd : w.completion.done driver.admitted reading with
  | true =>
    -- at both checks the admission ends
    have hdrain : Inv w ((driver.observe true).drain w reading.now) :=
      .drain (driver.observe true) (h.books.observe true) (fun _ => h.books.spent hd) _
    simp only [Driver.step, hd] at hst
    split at hst
    · exact (some.inj hst) ▸ hdrain
    · exact (some.inj hst) ▸ hdrain
    · cases hst
  | false =>
    have hbk := h.books.observe false
    simp only [Driver.step, hd] at hst
    split at hst
    · rename_i hpoint
      rw [hpoint] at hat
      rw [← some.inj hst]
      exact ⟨hbk, notMem_append hat nofun⟩
    · rename_i hpoint
      rw [hpoint] at hat
      rw [← some.inj hst]
      exact .admitOne (driver.observe false) hbk (notMem_append hat.1 nofun) hat.2
        (fun _ _ htot => Completion.not_done hd htot) reading.now
    · cases hst

theorem Inv.completed (h : Inv w driver) {i : ℕ} {report : Report} {now : ℕ}
    (hst : driver.step w (.completed i report now) = some next) :
    Inv w next := by
  have hat := h.atPoint
  have hbk := h.books
  rw [Driver.step] at hst
  split at hst
  · rename_i flight hpoint hflight
    rw [hpoint] at hat
    rw [length_eraseIdx_flight hflight] at hbk
    rw [← some.inj hst]
    refine ⟨hbk.complete flight.admittedAt report, ?_⟩
    change AtPoint w _ driver.point
    rw [hpoint]
    exact hat
  · rename_i deadline flight hpoint hflight
    rw [hpoint] at hat
    rw [length_eraseIdx_flight hflight] at hbk
    rw [← some.inj hst]
    have hinv : Inv w (driver.complete w i flight report) := by
      refine ⟨hbk.complete flight.admittedAt report, ?_⟩
      change AtPoint w _ driver.point
      rw [hpoint]
      exact hat
    exact hinv.settle hpoint now
  · cases hst

theorem Inv.step (h : Inv w driver) {ev : Event}
    (hst : driver.step w ev = some next) : Inv w next := by
  have hat := h.atPoint
  cases ev with
  | check reading => exact h.check hst
  | completed i report now => exact h.completed hst
  | stopped reading =>
    rw [Driver.step] at hst
    split at hst
    · split at hst
      · rename_i hstp
        rw [← some.inj hst]
        refine .drain driver h.books (fun _ total htot => ?_) reading.now
        -- a budget without another bound is never stopped
        rw [htot] at hstp
        cases hstp
      · cases hst
    · cases hst
  | interval now =>
    rw [Driver.step] at hst
    split at hst
    · rw [← some.inj hst]
      split
      · exact .drain { driver with stalled := true } h.books (fun hstalled => nomatch hstalled) now
      · exact h
    · cases hst
  | tick =>
    rw [Driver.step] at hst
    split at hst
    · rename_i hpoint
      rw [hpoint] at hat
      split at hst
      · rename_i hroom
        rw [← some.inj hst]
        exact ⟨h.books, hat, hroom⟩
      · cases hst
    · cases hst
  | expired now =>
    rw [Driver.step] at hst
    split at hst
    · split at hst
      · rw [← some.inj hst]
        exact ⟨h.books, trivial⟩
      · cases hst
    · cases hst

@[simp]
theorem Driver.settle_admitted (driver : Driver) (w : Workload) (now : ℕ) :
    (driver.settle w now).admitted = driver.admitted := by
  rw [Driver.settle]
  split <;> rfl

@[simp]
theorem Driver.drain_admitted (driver : Driver) (w : Workload) (now : ℕ) :
    (driver.drain w now).admitted = driver.admitted := by
  rw [Driver.drain, Driver.settle_admitted]

theorem Driver.step_admitted {ev : Event} (hst : driver.step w ev = some next) :
    driver.admitted ≤ next.admitted := by
  rw [Driver.step.eq_def] at hst
  -- Only `admitOne` changes the counter; the rest is the same driver elsewhere.
  split at hst
  · split at hst
    · rw [← some.inj hst]
      split <;> simp [Driver.observe]
    · rw [← some.inj hst]
      split <;> simp [Driver.observe, Driver.admitOne]
    · cases hst
  · split at hst
    · split at hst
      · rw [← some.inj hst, Driver.drain_admitted]
      · cases hst
    · cases hst
  · split at hst
    · rw [← some.inj hst]
      exact Nat.le_refl _
    · rw [← some.inj hst, Driver.settle_admitted]
      exact Nat.le_refl _
    · cases hst
  · split at hst
    · rw [← some.inj hst]
      split <;> simp
    · cases hst
  all_goals
    split at hst
    · split at hst
      · rw [← some.inj hst]
      · cases hst
    · cases hst

theorem Inv.start (w : Workload) (entropy : ℕ → Rng) (now : ℕ) :
    Inv w (.start w entropy now) := by
  refine ⟨⟨Nat.zero_le _, rfl, fun _ _ _ => Nat.zero_le _, .of_notMem nofun, ⟨rfl, fun _ => rfl, ?_⟩,
    rfl⟩, ?_⟩
  · intro hsync
    refine ⟨.new (entropy 2), ?_, rfl⟩
    rw [Driver.start, if_pos hsync]
  · change AtPoint w _ (Driver.entry w)
    rw [Driver.entry]
    split
    · exact trivial
    · split
      · exact trivial
      · exact not_mem_nil

/-- The driver is one that a run passes through. -/
abbrev Driver.After (workload : Workload) (entropy : ℕ → Rng) (now : ℕ) (driver : Driver) : Prop :=
  Machine.Reachable (Driver.step workload) (.start workload entropy now) driver

theorem Driver.After.inv {entropy : ℕ → Rng} {now : ℕ} (h : driver.After w entropy now) :
    Inv w driver :=
  h.induction (.start w entropy now) fun _ _ _ hs hst => hs.step hst

/-- **What is admitted is bounded, numbered and accounted for.** In whatever order requests
complete, the pacer and the interval tick and the stop signal or the deadline arrive, never more
than `concurrency` requests are in flight, the request function is called with the ids from one
on in their order, within the budget, and no more once `done` was seen; and an outcome that is
returned accounts for every request admitted. -/
theorem admissions_accounted (workload : Workload) (entropy : ℕ → Rng) (now : ℕ) (driver : Driver)
    (h : driver.After workload entropy now) :
    driver.jobs.length ≤ workload.concurrency ∧
    called driver.log = List.range' 1 driver.admitted ∧
    (∀ total deadline, workload.completion = .iterations total deadline →
      driver.admitted ≤ total) ∧
    (∀ before after, driver.log = before ++ .observed true :: after → called after = []) ∧
    ∀ outcome, driver.point = .returned (.ok outcome) →
      Accounted workload driver.admitted outcome := by
  have hinv := h.inv
  refine ⟨hinv.books.room, hinv.books.calls, hinv.books.budget, hinv.books.quiet, ?_⟩
  intro outcome hpoint
  have hat := hinv.atPoint
  rw [hpoint] at hat
  exact hat

def sampleWorkload : Workload := ⟨.iterations 2 none, .unlimited, 1, true, "client"⟩

def sampleReport : Report := ⟨1000, .ok (), 2000, .ok (), 9000, .ok (), 12000⟩

/-- The second request fails to sync, and does so only when admission is over. -/
def sampleEvents : List Event :=
  let reading : Reading := ⟨0, false, false⟩
  [.check reading, .tick, .check reading, .check reading, .tick, .completed 0 sampleReport 20000,
    .interval 30000, .tick, .check reading, .check reading,
    .completed 0 { sampleReport with sync := .error "timed out" } 50000]

def sampleDriver : Driver :=
  Machine.goOn (Driver.step sampleWorkload) (.start sampleWorkload (fun _ => ⟨id, 0⟩) 0) sampleEvents

theorem admissions_accounted_sample :
    called sampleDriver.log = [1, 2] ∧
    ∃ outcome, sampleDriver.point = .returned (.ok outcome) ∧
      outcome.firstError = some "sync: timed out" ∧ Accounted sampleWorkload 2 outcome := by
  have hafter : sampleDriver.After sampleWorkload (fun _ => ⟨id, 0⟩) 0 :=
    Machine.reachable_goOn _ sampleEvents
  obtain ⟨-, hcalls, -, -, hreturned⟩ :=
    admissions_accounted sampleWorkload (fun _ => ⟨id, 0⟩) 0 sampleDriver hafter
  exact ⟨hcalls, _, rfl, by decide, hreturned _ rfl⟩

end Redsuite.Runner
