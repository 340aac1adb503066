import Redsuite.Machine
import Redsuite.Scenario
import Mathlib.Data.List.Sort

/-!
# The suite

A model of `cli/src/suite/mod.rs`.
-/

namespace Redsuite.Cli

/-! ### Lanes -/

/-- The scenarios of a group, or those with an ER of their own. -/
structure Lane where
  /-- the label of the group, or `fresh` -/
  label : String
  group : Option ErGroup
  entries : List ScenarioEntry

def ScenarioEntry.laneLabel (self : ScenarioEntry) : String :=
  match self.er.group with
  | some group => group.label
  | none => "fresh"

def addToLanes (entry : ScenarioEntry) : List Lane → List Lane
  | [] => [⟨entry.laneLabel, entry.er.group, [entry]⟩]
  | lane :: lanes =>
    if lane.label = entry.laneLabel then
      { lane with entries := lane.entries ++ [entry] } :: lanes
    else
      lane :: addToLanes entry lanes

def sortEntries (entries : List ScenarioEntry) : List ScenarioEntry :=
  entries.insertionSort fun left right => left.order ≤ right.order

def lanes (entries : List ScenarioEntry) : List Lane :=
  (sortEntries entries).foldl (fun lanes entry => addToLanes entry lanes) []

/-- What a suite is run with. -/
structure Suite where
  family : Family
  entries : List ScenarioEntry
  config : ExecutionConfig
  serial : Bool
  /-- how many scenarios with an ER of their own run at once -/
  freshConcurrency : NonZeroUsize
  /-- how many scenarios share an ER at once -/
  sharedConcurrency : NonZeroUsize
  cleanup : Bool

/-- The lanes in the order in which `Suite::execute` runs them. -/
def Suite.laneOrder (self : Suite) : List Lane :=
  if self.serial then lanes self.entries
  else (lanes self.entries).insertionSort fun left right => left.group.isNone ≤ right.group.isNone

/-! ### A lane at work -/

/-- Where a lane is. -/
inductive Stage : Type where
  | waiting
  | booting
  | shared
  /-- the exclusive ones are, or all of them if there is only one pass -/
  | last
  | teardown
  | done
  deriving DecidableEq

/-- A line of the log of what runs scenarios, which is not in the source. -/
inductive Note (α : Type) : Type where
  | started (entry : α)
  | recorded (entry : α) (passed : Bool)
  | stopSeen

/-- The locals of `Lane::run` and of the `run_entries` it is in. -/
structure LaneRun where
  lane : Lane
  stage : Stage
  er : Option (Except String Unit)
  limit : NonZeroUsize
  pending : List ScenarioEntry
  running : List ScenarioEntry
  later : List ScenarioEntry
  failed : Bool
  records : List RunRecord
  /-- how the teardown came out; not in the source -/
  torn : Option (Except String Unit)
  /-- what it did; not in the source -/
  log : List (Note ScenarioEntry)

def Lane.run (lane : Lane) : LaneRun :=
  ⟨lane, .waiting, none, .MIN, lane.entries, [], [], false, [], none, []⟩

/-- A lane at work, with the progress counter that all lanes share. -/
structure Work extends LaneRun where
  finished : ℕ

def bootResult (base result : Except String Unit) : Except String Unit :=
  match base with
  | .error error => .error error
  | .ok () => result

/-- The entries that a pass starts, where so many run already, and those that it leaves. -/
def startLoop (limit : ℕ) : ℕ → List ScenarioEntry → List ScenarioEntry × List ScenarioEntry
  | _, [] => ([], [])
  | running, entry :: pending =>
    if running < limit then
      let (started, rest) := startLoop limit (running + 1) pending
      (entry :: started, rest)
    else ([], entry :: pending)

namespace Work

/-- The `while` loop of `run_entries`. -/
def fill (stopped : Bool) (self : Work) : Work :=
  if self.failed then self
  else if stopped then { self with log := self.log ++ [.stopSeen] }
  else
    let started := startLoop self.limit.get self.running.length self.pending
    { self with
      pending := started.2
      running := self.running ++ started.1
      log := self.log ++ started.1.map .started }

/-- `Suite::not_run` of some entries. -/
def skip (suite : Suite) (entries : List ScenarioEntry) (reason : String) (self : Work) : Work :=
  { self with
    records := self.records ++ entries.map (RunRecord.notRun · suite.family reason)
    finished := self.finished + entries.length }

/-- The end of `run_entries`, where nothing is running. -/
def conclude (suite : Suite) (stopped : Bool) (self : Work) : Work :=
  let reason := if stopped then "run interrupted" else "earlier scenario in this ER group failed"
  { self.skip suite self.pending reason with
    pending := []
    log := if stopped then self.log ++ [.stopSeen] else self.log }

/-- The end of the passes: an ER that was booted is torn down. -/
def close (self : Work) : Work :=
  { self with
    stage :=
      match self.er with
      | some (.ok ()) => .teardown
      | _ => .done }

def exclusivePass (self : Work) : Work :=
  { self with stage := .last, limit := .MIN, pending := self.later, later := [], failed := false }

section

variable (suite : Suite)

/-- A lane goes on after its last pass, if nothing is running. -/
def endLast (stopped : Bool) (self : Work) : Work :=
  match self.running with
  | _ :: _ => self
  | [] => (self.conclude suite stopped).close

/-- A lane goes on after its first pass, if nothing is running. -/
def endShared (stopped : Bool) (self : Work) : Work :=
  match self.running with
  | _ :: _ => self
  | [] =>
    let self := self.conclude suite stopped
    if self.records.all RunRecord.passed then
      (self.exclusivePass.fill stopped).endLast suite stopped
    else
      { self.skip suite self.later "earlier scenario in this ER group failed" with
        later := [] }.close

/-- A lane goes on from one await of its passes to the next. -/
def proceed (stopped : Bool) (self : Work) : Work :=
  let self := self.fill stopped
  match self.stage with
  | .shared => self.endShared suite stopped
  | _ => self.endLast suite stopped

/-- `Lane::run` up to its first await. -/
def start (stopped : Bool) (self : Work) : Work :=
  match self.lane.group with
  | some _ => { self with stage := .booting }
  | none =>
    { self with
      stage := .last
      limit := if suite.serial then .MIN else suite.freshConcurrency }.proceed suite stopped

/-- `GroupEr::boot` came out; it needs the base. -/
def booted (base : Except String Unit) (stopped : Bool) (result : Except String Unit) (self : Work)
    : Work :=
  let self := { self with er := some (bootResult base result) }
  if suite.serial then { self with stage := .last, limit := .MIN }.proceed suite stopped
  else
    { self with
      stage := .shared
      limit := suite.sharedConcurrency
      pending := self.pending.filter (·.er.isShared)
      later := self.pending.filter (!·.er.isShared) }.proceed suite stopped

def record (index : ℕ) (entry : ScenarioEntry) (attempt : Attempt) (self : Work) : Work :=
  let record := entry.run suite.family suite.config self.er attempt
  { self with
    running := self.running.eraseIdx index
    failed := self.failed || (self.er.isSome && !record.passed)
    finished := self.finished + 1
    records := self.records ++ [record]
    log := self.log ++ [.recorded entry record.passed] }

end

/-- `GroupEr::finish` came out. -/
def tornDown (result : Except String Unit) (self : Work) : Work :=
  { self with
    stage := .done
    torn := some result
    records := self.records ++
      match result with
      | .ok () => []
      | .error error =>
        [.failed ("group/" ++ self.lane.label ++ "/cleanup") .cleanup
          ("group teardown failed: " ++ error) none] }

end Work

/-- What happens to a lane. -/
inductive LaneEvent : Type where
  | booted (result : Except String Unit)
  | completed (index : ℕ) (attempt : Attempt)
  | tornDown (result : Except String Unit)

/-- `Lane::run` from one await to the next. -/
def Work.step (suite : Suite) (base : Except String Unit) (stopped : Bool) (self : Work) :
    LaneEvent → Option Work
  | .booted result =>
    match self.stage with
    | .booting => some (self.booted suite base stopped result)
    | _ => none
  | .completed index attempt =>
    match self.running[index]? with
    | some entry => some ((self.record suite index entry attempt).proceed suite stopped)
    | none => none
  | .tornDown result =>
    match self.stage with
    | .teardown => some (self.tornDown result)
    | _ => none

/-! ### The suite at work -/

/-- Where a run is. -/
inductive RunStage : Type where
  | starting
  /-- it is being prepared; the preparations that are left, the current one first -/
  | preparing (todo : List ℕ)
  | executing
  | returned (result : Except String Unit)

/-- A run of a suite. -/
structure SuiteRun where
  stage : RunStage
  stop : Bool
  base : Except String Unit
  prepared : List ℕ
  lanes : List LaneRun
  finished : ℕ
  /-- how the cleanup came out; not in the source -/
  down : Option (Except String Unit)

/-- What can happen next. -/
inductive Event : Type where
  | interrupted
  | started (result : Except String Unit)
  | prepared (result : Except String Unit)
  | lane (index : ℕ) (event : LaneEvent)
  /-- the lanes are done: how a cleanup, and writing the report, come out -/
  | finish (down persisted : Except String Unit)

/-- The lanes that may begin do: all of them, or the first that is not done. -/
def wake (suite : Suite) (stopped : Bool) : ℕ → List LaneRun → List LaneRun × ℕ
  | finished, [] => ([], finished)
  | finished, lane :: lanes =>
    let work : Work := ⟨lane, finished⟩
    let work := if lane.stage = .waiting then work.start suite stopped else work
    if suite.serial && work.stage ≠ .done then (work.toLaneRun :: lanes, work.finished)
    else
      let (rest, finished) := wake suite stopped work.finished lanes
      (work.toLaneRun :: rest, finished)

def SuiteRun.records (self : SuiteRun) : List RunRecord := self.lanes.flatMap (·.records)

namespace Suite

/-- `Suite::finish`, with the result of a cleanup. -/
def finish (self : Suite) (records : List RunRecord) (down : Except String Unit) :
    Except String Unit :=
  let cleanup := if self.cleanup && !self.config.environment then down else .ok ()
  let notRun := (records.filter (·.phase = .notRun)).length
  let failed := (records.filter fun record => record.phase ≠ .notRun && !record.passed).length
  if failed = 0 ∧ notRun = 0 then cleanup
  else
    .error (toString failed ++ " failed, " ++ toString notRun ++ " not run (" ++
      toString self.entries.length ++ " scenarios selected)")

def execute (self : Suite) (run : SuiteRun) : SuiteRun :=
  let (lanes, finished) := wake self run.stop run.finished (self.laneOrder.map Lane.run)
  { run with stage := .executing, lanes, finished }

/-- `prepare` goes on to the next preparation that is not done, or the lanes begin. -/
def prepareNext (self : Suite) (run : SuiteRun) (todo : List ℕ) : SuiteRun :=
  match todo.dropWhile (· ∈ run.prepared) with
  | [] => self.execute run
  | todo => { run with stage := .preparing todo }

/-- `Suite::run` at its first await. -/
def start (stop : Bool) : SuiteRun := ⟨.starting, stop, .ok (), [], [], 0, none⟩

/-- `Suite::run` from one await to the next. -/
def step (self : Suite) (run : SuiteRun) : Event → Option SuiteRun
  | .interrupted => some { run with stop := true }
  | .started result =>
    match run.stage, result with
    | .starting, .ok () => some (self.prepareNext run (self.entries.filterMap (·.prepare)))
    | .starting, .error error => some (self.execute { run with base := .error error })
    | _, _ => none
  | .prepared result =>
    match run.stage, result with
    | .preparing (key :: todo), .ok () =>
      some (self.prepareNext { run with prepared := run.prepared ++ [key] } todo)
    | .preparing (_ :: _), .error error => some (self.execute { run with base := .error error })
    | _, _ => none
  | .lane index event =>
    match run.stage, run.lanes[index]? with
    | .executing, some lane =>
      match (⟨lane, run.finished⟩ : Work).step self run.base run.stop event with
      | some work =>
        let (lanes, finished) :=
          wake self run.stop work.finished (run.lanes.set index work.toLaneRun)
        some { run with lanes, finished }
      | none => none
    | _, _ => none
  | .finish down persisted =>
    match run.stage with
    | .executing =>
      if run.lanes.all (·.stage = .done) then
        let outcome := self.finish run.records down
        let outcome :=
          match outcome with
          | .ok () => if self.family = .redline then persisted else .ok ()
          | .error error => .error error
        some { run with
          stage := .returned outcome
          down := if self.cleanup && !self.config.environment then some down else none }
      else none
    | _ => none

end Suite

end Redsuite.Cli
