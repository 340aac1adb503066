import Redsuite.AccountUpdates
import Redsuite.Admission

/-!
# Websocket fanout

A model of `WebsocketFanout::run` of `redline/src/scenarios/aperture/websocket_fanout.rs`.
-/

namespace Redsuite

namespace Fanout

open Events (CloseReason)
open Runner (Driver RawRunOutcome RunOutcome Workload)
open Ws

variable {π : Type}

/-- `Program::copy_three`: the accounts it writes to. -/
def copyThree (pool : List π) (value : ℕ) : List π :=
  let first := (value + 2 ^ 64 - 1) % 2 ^ 64 * 3 % 2 ^ 64 % pool.length
  pool[(first + 1) % pool.length]?.toList ++ pool[(first + 2) % pool.length]?.toList

/-- What a run is made with. -/
structure Setup (π : Type) where
  keys : List π
  connections : ℕ
  rate : ℕ

/-! ### Readers -/

/-- A reader, and the writes it counted since its outcome was last taken, not in the source. -/
structure Reader (π : Type) where
  /-- the `AccountUpdates` -/
  feed : Feed (AccountState π)
  counted : Multiset (ℕ × π)

/-- What `take_outcome` took of a reader. -/
structure Taken (π : Type) where
  outcome : UpdateOutcome
  counted : Multiset (ℕ × π)

namespace Reader

def connect (rng : Rng) : Reader π := ⟨⟨AccountState.default rng, none⟩, 0⟩

def takeOutcome (self : Reader π) (rng : Rng) : Taken π × Reader π :=
  let (outcome, state) := self.feed.state.takeOutcome rng
  (⟨outcome, self.counted⟩, ⟨{ self.feed with state }, 0⟩)

def close (self : Reader π) (reason : CloseReason) : Reader π :=
  { self with feed := (accountObserver π).close self.feed reason }

/-- What `await_settled` waits for. -/
def settled (self : Reader π) : Bool := self.feed.state.pending.entries.isEmpty

variable [DecidableEq π]

/-- `track`, for each target. -/
def track (self : Reader π) (id : ℕ) (targets : List π) : Reader π :=
  { self with
    feed.state := targets.foldl (fun state target => state.track id target) self.feed.state }

/-- An update arrives; nothing if `observe` panics. -/
def observe (self : Reader π) (account : π) (id : ℕ) (clock : SendClock) (now : ℕ) :
    Option (Reader π) :=
  match self.feed.state.observe account id clock now with
  | some state =>
    some ⟨{ self.feed with state }, self.counted + (self.feed.state.writes \ state.writes).val⟩
  | none => none

end Reader

/-! ### The run -/

/-- How a run ends. -/
inductive Ending : Type where
  | completed
  | range
  /-- `execute` fails -/
  | execute (error : String)
  | awaiting
  | verifying

/-- Where a run is. -/
inductive Phase : Type where
  | head
  /-- `execute` runs, up to this deadline -/
  | running (deadline : ℕ) (driver : Driver)
  | reading (outcome : RunOutcome ObservationsStats) (reader : ℕ) (p95 : ℤ)
  | verifying (outcome : RunOutcome ObservationsStats) (p95 : ℤ)
  | ended (ending : Ending)

/-- What happened between two calls of `execute`. -/
structure Window (π : Type) where
  ids : List ℕ
  failed : ℕ
  taken : List (Taken π)

/-- The locals of `run`, and the record. -/
structure WebsocketFanout (π : Type) where
  remaining : ℕ
  stop : Bool
  cursor : ℕ
  received : ℕ
  superseded : ℕ
  peak : ℕ
  worstP95 : ℤ
  clock : SendClock
  readers : List (Reader π)
  phase : Phase
  /-- the windows that another one has followed; not in the source -/
  past : List (Window π)
  /-- the last window; not in the source -/
  window : Option (Window π)

/-- What can happen next. -/
inductive FanoutEvent (π : Type) : Type where
  /-- the loop goes on: the time of the deadline's computation, and of the start of `execute` -/
  | enter (now started : ℕ) (entropy : ℕ → Rng)
  | range
  | run (event : Runner.Event)
  | stamp (id time : ℕ)
  | notify (reader : ℕ) (account : π) (id now : ℕ)
  | close (reader : ℕ) (reason : CloseReason)
  /-- the run is at its next reader, and wakes up before or after the time of the wait -/
  | take (timedOut : Bool) (rng : Rng)
  | verified (success : Bool)
  | stop

def workload (rate deadline : ℕ) : Workload :=
  ⟨.iterations 1024 (some deadline), .perSecond rate, 64, false,
    "client, immediately before sendTransaction"⟩

namespace WebsocketFanout

def start (setup : Setup π) (duration : ℕ) (entropy : ℕ → Rng) : WebsocketFanout π where
  remaining := duration
  stop := false
  cursor := 0
  received := 0
  superseded := 0
  peak := 0
  worstP95 := 0
  clock := SendClock.new 1 1024
  readers := (List.range setup.connections).map fun index => Reader.connect (entropy index)
  phase := .head
  past := []
  window := none

section

variable (self : WebsocketFanout π)

def windows : List (Window π) := self.past ++ self.window.toList

def ids : List ℕ := self.windows.flatMap Window.ids

def note (change : Window π → Window π) : WebsocketFanout π :=
  { self with window := self.window.map change }

def proceed (deadline : ℕ) (driver : Driver) : WebsocketFanout π :=
  match driver.point with
  | .returned (.error error) => { self with phase := .ended (.execute error) }
  | .returned (.ok outcome) =>
    { self.note fun window => { window with failed := outcome.failed } with
      phase := if outcome.delivered = 0 then .ended .completed
        else .reading outcome.finalize 0 0 }
  | _ => { self with phase := .running deadline driver }

def enter (setup : Setup π) (now started : ℕ) (entropy : ℕ → Rng) : WebsocketFanout π :=
  let deadline := now + self.remaining
  { self with
    clock := self.clock.reset (self.cursor + 1)
    past := self.windows
    window := some ⟨[], 0, []⟩ }.proceed deadline
      (Driver.start (workload setup.rate deadline) entropy started)

def take (outcome : RunOutcome ObservationsStats) (index : ℕ) (p95 : ℤ) (reader : Reader π)
    (rng : Rng) : WebsocketFanout π :=
  let (taken, reader) := reader.takeOutcome rng
  { self.note fun window => { window with taken := window.taken ++ [taken] } with
    readers := self.readers.set index reader
    received := self.received + taken.outcome.observed
    superseded := self.superseded + taken.outcome.superseded
    peak := max self.peak taken.outcome.lag.max
    phase := .reading outcome (index + 1) (max p95 taken.outcome.lag.quantile95) }

/-- The run is at its next reader: `await_settled`, unless a request failed. -/
def read (outcome : RunOutcome ObservationsStats) (index : ℕ) (p95 : ℤ) (timedOut : Bool)
    (rng : Rng) : Option (WebsocketFanout π) :=
  match self.readers[index]? with
  | none => some { self with phase := .verifying outcome p95 }
  | some reader =>
    if outcome.failed = 0 then
      if reader.feed.error.isSome then some { self with phase := .ended .awaiting }
      else if reader.settled then some (self.take outcome index p95 reader rng)
      else if timedOut then some { self with phase := .ended .awaiting }
      else none
    else some (self.take outcome index p95 reader rng)

def leave (outcome : RunOutcome ObservationsStats) (p95 : ℤ) : WebsocketFanout π :=
  { self with
    remaining := self.remaining - outcome.admissionWall
    cursor := self.cursor + outcome.delivered
    worstP95 := max self.worstP95 p95
    phase := .head }

end

variable [DecidableEq π]

/-- The request function: the readers track the two targets of the write. -/
def request (self : WebsocketFanout π) (setup : Setup π) (iteration : ℕ) : WebsocketFanout π :=
  let id := self.cursor + iteration
  { self.note fun window => { window with ids := window.ids ++ [id] } with
    readers := self.readers.map fun reader => reader.track id (copyThree setup.keys id) }

def requests (self : WebsocketFanout π) (setup : Setup π) (iterations : List ℕ) :
    WebsocketFanout π :=
  iterations.foldl (fun self iteration => self.request setup iteration) self

/-- The calls of the request function that a step of the driver makes. -/
def calls (before after : Driver) : List ℕ :=
  (Runner.called after.log).drop (Runner.called before.log).length

def step (setup : Setup π) (self : WebsocketFanout π) : FanoutEvent π → Option (WebsocketFanout π)
  | .enter now started entropy =>
    match self.phase with
    | .head =>
      if self.remaining = 0 ∨ self.stop = true then some { self with phase := .ended .completed }
      else some (self.enter setup now started entropy)
    | _ => none
  | .range =>
    match self.phase with
    | .head => some { self with phase := .ended .range }
    | _ => none
  | .run event =>
    match self.phase with
    | .running deadline driver =>
      match driver.step (workload setup.rate deadline) event with
      | some next => some ((self.requests setup (calls driver next)).proceed deadline next)
      | none => none
    | _ => none
  | .stamp id time =>
    match self.phase with
    | .running _ _ => (self.clock.stamp id time).map fun clock => { self with clock }
    | _ => none
  | .notify index account id now =>
    match self.readers[index]? with
    | some reader =>
      if reader.feed.error.isSome then none
      else
        match reader.observe account id self.clock now with
        | some reader => some { self with readers := self.readers.set index reader }
        | none => none
    | none => none
  | .close index reason =>
    match self.readers[index]? with
    | some reader => some { self with readers := self.readers.set index (reader.close reason) }
    | none => none
  | .take timedOut rng =>
    match self.phase with
    | .reading outcome index p95 => self.read outcome index p95 timedOut rng
    | _ => none
  | .verified success =>
    match self.phase with
    | .verifying outcome p95 =>
      some (if success then self.leave outcome p95 else { self with phase := .ended .verifying })
    | _ => none
  | .stop => some { self with stop := true }

/-- A state of some run. -/
def Reachable (setup : Setup π) (self : WebsocketFanout π) : Prop :=
  ∃ duration entropy, Machine.Reachable (step setup) (start setup duration entropy) self

end WebsocketFanout

end Fanout

end Redsuite
