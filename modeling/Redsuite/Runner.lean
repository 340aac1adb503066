import Redsuite.Machine
import Redsuite.Rate

/-!
# The workload driver

A model of `execute_inner` in `core/src/runner/mod.rs`.
-/

namespace Redsuite.Runner

def networkTimeout : ℕ := 60 * oneSec

/-! ### Jobs -/

/-- `(now - since).as_micros() as u32`. -/
def micros (since now : ℕ) : ℕ := (now - since) / 1000 % 2 ^ 32

/-- What a job reports, with its times. -/
structure Report where
  polled : ℕ
  request : Except String Unit
  started : ℕ
  deliver : Except String Unit
  delivered : ℕ
  sync : Except String Unit
  synced : ℕ

/-- What is recorded of a job. -/
structure Job where
  /-- microseconds from admission to the first poll -/
  scheduling : ℕ
  delivery : Option ℕ
  /-- microseconds from the start of the delivery to the end of the sync -/
  sync : Option ℕ
  outcome : Except String Unit

namespace Job

def run (admitted : ℕ) (sync : Bool) (report : Report) : Job :=
  let job : Job := ⟨micros admitted report.polled, none, none, .ok ()⟩
  match report.request with
  | .error error => { job with outcome := .error error }
  | .ok () =>
    match report.deliver with
    | .error error => { job with outcome := .error error }
    | .ok () =>
      let job := { job with delivery := some (micros report.started report.delivered) }
      if sync then
        match report.sync with
        | .error error => { job with outcome := .error s!"sync: {error}" }
        | .ok () => { job with sync := some (micros report.started report.synced) }
      else job

def ok (self : Job) : Bool :=
  match self.outcome with
  | .ok () => true
  | .error _ => false

theorem run_unsynced (admitted : ℕ) (report : Report) :
    (run admitted false report).delivery.isSome = (run admitted false report).ok := by
  rw [run]
  split
  · rfl
  · split <;> rfl

theorem run_synced (admitted : ℕ) (report : Report) :
    (run admitted true report).sync.isSome = (run admitted true report).ok := by
  rw [run]
  rw [if_pos rfl]
  split
  · rfl
  · split
    · rfl
    · split <;> rfl

end Job

/-! ### Outcomes -/

/-- What a run comes to; `σ` is what stands for the statistics. -/
structure RunOutcome (σ : Type) where
  delivered : ℕ
  failed : ℕ
  firstError : Option String
  delivery : σ
  scheduling : σ
  origin : String
  sync : Option σ
  offered : Pacing
  rps : ObservationsStats
  wall : ℕ
  admissionWall : ℕ

/-- An outcome whose statistics are still open. -/
abbrev RawRunOutcome := RunOutcome StreamingStats

namespace RunOutcome

def default (entropy : ℕ → Rng) : RawRunOutcome :=
  ⟨0, 0, none, .new (entropy 0), .new (entropy 1), "", none, .unlimited, .default, 0, 0⟩

def record (self : RawRunOutcome) (job : Job) : RawRunOutcome :=
  { self with
    scheduling := self.scheduling.push job.scheduling
    delivery :=
      match job.delivery with
      | some micros => self.delivery.push micros
      | none => self.delivery
    sync :=
      match self.sync, job.sync with
      | some stats, some micros => some (stats.push micros)
      | stats, _ => stats
    delivered :=
      match job.outcome with
      | .ok () => self.delivered + 1
      | .error _ => self.delivered
    failed :=
      match job.outcome with
      | .ok () => self.failed
      | .error _ => self.failed + 1
    firstError :=
      match job.outcome with
      | .ok () => self.firstError
      | .error error => some (self.firstError.getD error) }

def merge (self other : RawRunOutcome) : RawRunOutcome where
  delivered := self.delivered + other.delivered
  failed := self.failed + other.failed
  firstError := self.firstError.or other.firstError
  delivery := self.delivery.merge other.delivery
  scheduling := self.scheduling.merge other.scheduling
  origin := if self.origin = "" then other.origin else self.origin
  sync :=
    match self.sync, other.sync with
    | some own, some other => some (own.merge other)
    | own, other => own.or other
  offered := self.offered.combine other.offered
  rps := self.rps.addRates other.rps
  wall := max self.wall other.wall
  admissionWall := max self.admissionWall other.admissionWall

section

variable (self : RawRunOutcome)

include self

def finalize : RunOutcome ObservationsStats where
  delivered := self.delivered
  failed := self.failed
  firstError := self.firstError
  delivery := self.delivery.finalize false
  scheduling := self.scheduling.finalize false
  origin := self.origin
  sync := self.sync.map (·.finalize false)
  offered := self.offered
  rps := self.rps
  wall := self.wall
  admissionWall := self.admissionWall

/-! ### What a record adds -/

@[simp]
theorem record_scheduling (job : Job) :
    (self.record job).scheduling.count = self.scheduling.count + 1 :=
  self.scheduling.count_push job.scheduling

theorem record_delivered (job : Job) :
    (self.record job).delivered = self.delivered + job.ok.toNat := by
  rw [record, Job.ok]
  cases job.outcome <;> rfl

theorem record_total (job : Job) :
    (self.record job).delivered + (self.record job).failed = self.delivered + self.failed + 1 := by
  rw [record]
  cases job.outcome with
  | ok => exact Nat.add_right_comm _ _ _
  | error => exact (Nat.add_assoc _ _ _).symm

theorem record_delivery (job : Job) :
    (self.record job).delivery.count = self.delivery.count + job.delivery.isSome.toNat := by
  rw [record]
  cases job.delivery with
  | none => rfl
  | some micros => exact self.delivery.count_push micros

end

theorem record_sync_some {self : RawRunOutcome} {stats : StreamingStats}
    (h : self.sync = some stats) (job : Job) :
    ∃ next, (self.record job).sync = some next ∧
      next.count = stats.count + job.sync.isSome.toNat := by
  rw [record, h]
  cases job.sync with
  | none => exact ⟨stats, rfl, rfl⟩
  | some micros => exact ⟨stats.push micros, rfl, stats.count_push micros⟩

end RunOutcome

/-! ### When admission ends -/

/-- What the loop reads at its head. -/
structure Reading where
  now : ℕ
  stop : Bool
  closed : Bool

/-- When admission is complete. The stop channel itself is in the readings. -/
inductive Completion : Type where
  /-- after so many requests, or at the deadline or the stop signal if there are any -/
  | iterations (total : ℕ) (deadline : Option ℕ)
  | untilStopped (deadline : Option ℕ)

namespace Completion

def done (self : Completion) (admitted : ℕ) (reading : Reading) : Bool :=
  match self with
  | .iterations total deadline =>
    decide (total ≤ admitted) ||
      match deadline with
      | some deadline => decide (deadline ≤ reading.now) || reading.stop || reading.closed
      | none => false
  | .untilStopped deadline =>
    (match deadline with
      | some deadline => decide (deadline ≤ reading.now)
      | none => false) || reading.stop || reading.closed

/-- `Completion::stopped` is ready. -/
def stopped (self : Completion) (reading : Reading) : Bool :=
  match self with
  | .iterations _ none => false
  | .iterations _ (some deadline) =>
    reading.stop || reading.closed || decide (deadline ≤ reading.now)
  | .untilStopped deadline =>
    reading.stop || reading.closed ||
      match deadline with
      | some deadline => decide (deadline ≤ reading.now)
      | none => false

end Completion

/-! ### The driver -/

/-- What `execute_inner` is called with; the request function shows in the log. -/
structure Workload where
  completion : Completion
  pacing : Pacing
  concurrency : ℕ
  sync : Bool
  /-- `D::ORIGIN` -/
  origin : String

/-- A job that runs. -/
structure Flight where
  id : ℕ
  admittedAt : ℕ

/-- Where `execute_raw` is. -/
inductive Point : Type where
  | head
  /-- at the `select!` of the inner loop -/
  | selecting
  | ticked
  | draining (deadline : ℕ)
  | returned (result : Except String RawRunOutcome)

/-- A line of the driver's log, which is not in the source. -/
inductive Note : Type where
  /-- `done` said so -/
  | observed (done : Bool)
  | called (id : ℕ)

def called (log : List Note) : List ℕ :=
  log.filterMap fun
    | .called id => some id
    | .observed _ => none

/-- The locals of `execute_inner`. -/
structure Driver where
  admitted : ℕ
  jobs : List Flight
  tally : RawRunOutcome
  stats : AdmissionStats
  started : ℕ
  /-- the last completion, or the admission after which there was something to wait for -/
  lastCompletion : ℕ
  stalled : Bool
  admissionWall : ℕ
  rps : ObservationsStats
  point : Point
  /-- what it did; not in the source -/
  log : List Note

/-- What can happen next. -/
inductive Event : Type where
  | check (reading : Reading)
  /-- `stopped` is ready -/
  | stopped (reading : Reading)
  | completed (index : ℕ) (report : Report) (now : ℕ)
  | interval (now : ℕ)
  | tick
  | expired (now : ℕ)

namespace Driver

/-- The driver goes on to its admission loop unless it refuses its arguments. -/
def entry (workload : Workload) : Point :=
  if workload.concurrency = 0 then
    .returned (.error "an admission budget needs a concurrency above zero")
  else
    match workload.pacing.interval with
    | .error error => .returned (.error error)
    | .ok _ => .head

def start (workload : Workload) (entropy : ℕ → Rng) (now : ℕ) : Driver where
  admitted := 0
  jobs := []
  tally := { RunOutcome.default entropy with
    sync := if workload.sync then some (.new (entropy 2)) else none
    origin := workload.origin }
  stats := .new now (entropy 3)
  started := now
  lastCompletion := now
  stalled := false
  admissionWall := 0
  rps := .default
  point := entry workload
  log := []

/-- The end of `execute_inner`, if nothing is in flight. -/
def settle (self : Driver) (workload : Workload) (now : ℕ) : Driver :=
  match self.jobs with
  | _ :: _ => self
  | [] =>
    { self with
      point := .returned <|
        if self.stalled then
          .error "workload stopped completing requests while work was outstanding"
        else
          .ok { self.tally with
            offered := workload.pacing
            rps := self.rps
            wall := now - self.started
            admissionWall := self.admissionWall } }

def drain (self : Driver) (workload : Workload) (now : ℕ) : Driver :=
  { self with
    admissionWall := now - self.started
    rps := self.stats.finish now
    point := .draining (now + networkTimeout) }.settle workload now

def admitOne (self : Driver) (now : ℕ) : Driver :=
  { self with
    stats := self.stats.record now
    admitted := self.admitted + 1
    lastCompletion := if self.jobs.isEmpty then now else self.lastCompletion
    jobs := self.jobs ++ [⟨self.admitted + 1, now⟩]
    point := .head
    log := self.log ++ [.called (self.admitted + 1)] }

def observe (self : Driver) (done : Bool) : Driver :=
  { self with log := self.log ++ [.observed done] }

def complete (self : Driver) (workload : Workload) (index : ℕ) (flight : Flight)
    (report : Report) : Driver :=
  { self with
    jobs := self.jobs.eraseIdx index
    tally := self.tally.record (Job.run flight.admittedAt workload.sync report) }

/-- `execute_inner` from one await to the next. -/
def step (workload : Workload) (self : Driver) : Event → Option Driver
  | .check reading =>
    let done := workload.completion.done self.admitted reading
    match self.point with
    | .head =>
      some <| if done then (self.observe done).drain workload reading.now
        else { self.observe done with point := .selecting }
    | .ticked =>
      some <| if done then (self.observe done).drain workload reading.now
        else (self.observe done).admitOne reading.now
    | _ => none
  | .stopped reading =>
    match self.point with
    | .selecting =>
      if workload.completion.stopped reading then some (self.drain workload reading.now) else none
    | _ => none
  | .completed index report now =>
    match self.point, self.jobs[index]? with
    | .selecting, some flight =>
      some { self.complete workload index flight report with lastCompletion := now }
    | .draining _, some flight =>
      some ((self.complete workload index flight report).settle workload now)
    | _, _ => none
  | .interval now =>
    match self.point with
    | .selecting =>
      some <|
        if self.jobs ≠ [] ∧ now - self.lastCompletion ≥ networkTimeout then
          { self with stalled := true }.drain workload now
        else self
    | _ => none
  | .tick =>
    match self.point with
    | .selecting =>
      if self.jobs.length < workload.concurrency then some { self with point := .ticked } else none
    | _ => none
  | .expired now =>
    match self.point with
    | .draining deadline =>
      if deadline ≤ now then
        some { self with
          point := .returned (.error "admitted workload did not drain within 60s") }
      else none
    | _ => none

end Driver

end Redsuite.Runner
