import Redsuite.EventsRouting
import Redsuite.Account

/-!
# Taking events out of a connection

`Subscription::next`, `try_next` and `next_from` take events out of the buffers of a connection.
-/

namespace Redsuite

open List Option

namespace Events

variable {ν τ : Type} {task : Task}

/-! ### One look at the buffers -/

/-- Why a wait for events fails. -/
inductive Failure : Type where
  /-- `no subscriptions to observe` -/
  | noSubscriptions
  /-- `ws stream: ...` -/
  | stream (reason : CloseReason)
  /-- `malformed subscription payloads: ...` -/
  | malformed (count : ℕ)
  | undecodable
  /-- `timed out waiting for notifications (...)` -/
  | timedOut
  deriving DecidableEq

/-- An event, and the subscription it is of. -/
structure Update (τ : Type) where
  /-- the place of the subscription among those of the call -/
  index : ℕ
  /-- the key of that subscription; not in the source -/
  key : ℕ
  event : τ

/-- What a look at the buffers answers. -/
abbrev Answer (τ : Type) : Type := Except Failure (Option (Update τ))

namespace Connection

/-- `EventBuffer::pop`, for a subscription of the connection. An event of another type is gone too.
-/
def take (decode : Topic → ν → Option τ) (self : Connection ν) (task : Task) :
    Except Failure (Option τ) × Connection ν :=
  if self.router.state.malformed = 0 then
    match self.router.state.pop task.key with
    | none => (.ok none, self)
    | some (event, state) =>
      (match decode task.topic event with
        | some value => .ok (some value)
        | none => .error .undecodable,
        { self with router.state := state, log := self.log ++ [.taken task.key event] })
  else (.error (.malformed self.router.state.malformed), self)

/-- The loop of `next_from` over the subscriptions. -/
def takeFirst (decode : Topic → ν → Option τ) (self : Connection ν) (index : ℕ) :
    List Task → Answer τ × Connection ν
  | [] => (.ok none, self)
  | task :: rest =>
    match self.take decode task with
    | (.error failure, after) => (.error failure, after)
    | (.ok (some event), after) => (.ok (some ⟨index, task.key, event⟩), after)
    | (.ok none, after) => after.takeFirst decode (index + 1) rest

/-- What `Connection::wait` does before it goes to sleep: `check_error`, then the buffers. -/
def observe (decode : Topic → ν → Option τ) (self : Connection ν) (tasks : List Task) :
    Answer τ × Connection ν :=
  match self.router.error with
  | some reason => (.error (.stream reason), self)
  | none => self.takeFirst decode 0 tasks

/-- What `observe` does, case by case. -/
inductive Observed (decode : Topic → ν → Option τ) (self : Connection ν) (index : ℕ)
    (tasks : List Task) : Answer τ × Connection ν → Prop where
  | closed (reason : CloseReason) : Observed decode self index tasks (.error (.stream reason), self)
  | malformed (h : self.router.state.malformed ≠ 0) :
      Observed decode self index tasks (.error (.malformed self.router.state.malformed), self)
  | empty (hopen : self.router.error = none) (hread : self.router.state.malformed = 0 ∨ tasks = [])
      (h : ∀ task ∈ tasks, self.router.state.pop task.key = none) :
      Observed decode self index tasks (.ok none, self)
  | returned {place : ℕ} {task : Task} {event : ν} {value : τ} {state : EventBuffer ν}
      (hread : self.router.state.malformed = 0) (htask : tasks[place]? = some task)
      (hpop : self.router.state.pop task.key = some (event, state))
      (hdecode : decode task.topic event = some value) :
      Observed decode self index tasks (.ok (some ⟨index + place, task.key, value⟩),
        { self with router.state := state, log := self.log ++ [.taken task.key event] })
  | lost {task : Task} {event : ν} {state : EventBuffer ν}
      (hread : self.router.state.malformed = 0) (htask : task ∈ tasks)
      (hpop : self.router.state.pop task.key = some (event, state))
      (hdecode : decode task.topic event = none) :
      Observed decode self index tasks (.error .undecodable,
        { self with router.state := state, log := self.log ++ [.taken task.key event] })

theorem Observed.later {decode : Topic → ν → Option τ} {self : Connection ν} {i : ℕ}
    {rest : List Task} {r : Answer τ × Connection ν}
    (hrd : self.router.state.malformed = 0) (hpop : self.router.state.pop task.key = none)
    (h : Observed decode self (i + 1) rest r) :
    Observed decode self i (task :: rest) r := by
  cases h with
  | closed reason => exact .closed reason
  | malformed hmal => exact absurd hrd hmal
  | empty hopen _ hr =>
    refine .empty hopen (Or.inl hrd) ?_
    intro other hm
    rcases mem_cons.mp hm with rfl | hm
    · exact hpop
    · exact hr other hm
  | @returned p other event v s _ ht hpop' hdec =>
    have hpl : i + 1 + p = i + (p + 1) := by omega
    rw [hpl]
    exact .returned hrd (by rwa [getElem?_cons_succ]) hpop' hdec
  | lost _ ht hpop' hdec =>
    exact .lost hrd (mem_cons_of_mem _ ht) hpop' hdec

theorem takeFirst_spec (decode : Topic → ν → Option τ) {self : Connection ν}
    (hopen : self.router.error = none) (i : ℕ) (tasks : List Task) :
    Observed decode self i tasks (self.takeFirst decode i tasks) := by
  induction tasks generalizing i with
  | nil => exact .empty hopen (Or.inr rfl) fun task hm => absurd hm not_mem_nil
  | cons task rest ih =>
    by_cases hrd : self.router.state.malformed = 0
    · cases hpop : self.router.state.pop task.key with
      | none =>
        simp only [takeFirst, take, if_pos hrd, hpop]
        exact (ih (i + 1)).later hrd hpop
      | some e =>
        obtain ⟨event, s⟩ := e
        cases hdec : decode task.topic event with
        | none =>
          simp only [takeFirst, take, if_pos hrd, hpop, hdec]
          exact .lost hrd mem_cons_self hpop hdec
        | some v =>
          simp only [takeFirst, take, if_pos hrd, hpop, hdec]
          have hpl : (task :: rest)[0]? = some task := rfl
          exact .returned hrd hpl hpop hdec
    · simp only [takeFirst, take, if_neg hrd]
      exact .malformed hrd

theorem observe_spec (decode : Topic → ν → Option τ) (self : Connection ν) (tasks : List Task) :
    Observed decode self 0 tasks (self.observe decode tasks) := by
  rw [observe]
  split
  · exact .closed _
  · exact takeFirst_spec decode ‹_› 0 tasks

/-! ### What the connection does meanwhile -/

/-- The payload that an event routes to a key, if it can be read. -/
def arrivals (codec : Codec ν) (self : Connection ν) : Event → List (ℕ × ν)
  | .frame envelope =>
    match parse envelope with
    | .ok (some (.notification _ params)) =>
      match self.router.subscriptions.lookup params.subscription, codec.event params.result with
      | some key, some event => [(key.1, event)]
      | _, _ => []
    | _ => []
  | _ => []

/-- The event ends in a broadcast of `changed`: at the end of `Router::dispatch`, unless the
notification is for nobody, and in `Router::close`. -/
def notifies (self : Connection ν) : Event → Bool
  | .frame envelope =>
    match parse envelope with
    | .ok (some (.notification _ params)) =>
      (self.router.subscriptions.lookup params.subscription).isSome
    | .ok none => false
    | _ => true
  | .ended _ => true
  | .stop => true
  | _ => false

/-- What an event that takes nothing out of the buffers does to them. -/
structure Follows (codec : Codec ν) (before : Connection ν) (event : Event)
    (after : Connection ν) : Prop where
  taken : ∀ number, Events.taken number after.log = Events.taken number before.log
  last : before.router.state.lastKey ≤ after.router.state.lastKey
  buffers : ∀ number events, after.router.state.byKey.lookup number = some events →
    (∃ old, before.router.state.byKey.lookup number = some old ∧
      events = old ++ about number (before.arrivals codec event)) ∨
    before.router.state.lastKey < number ∧ events = []
  stays : ∀ (index : ℕ) (task : Task), before.tasks[index]? = some task →
    ∃ moved : Task, after.tasks[index]? = some moved ∧ moved.name = task.name
  /-- a `Subscription` stays until it is dropped -/
  held : ∀ index task, before.tasks[index]? = some task → task.phase = .held →
    event ≠ .drop index → after.tasks[index]? = some task
  names : ∀ task ∈ after.tasks, (∃ old ∈ before.tasks, old.name = task.name) ∨
    before.router.state.lastKey < task.key
  quiet : before.notifies event = false → after.router.error = before.router.error ∧
    after.router.state.malformed = before.router.state.malformed

section Follows

variable {codec : Codec ν} {self after : Connection ν} {ev : Event}

theorem Follows.moved {index : ℕ} {phase : Phase}
    (ht : self.tasks[index]? = some task) (hspare : task.phase = .held → ev = .drop index)
    (harrivals : self.arrivals codec ev = [])
    (hts : after.tasks = self.tasks.set index { task with phase })
    (hlog : after.log = self.log) (hla : after.router.state.lastKey = self.router.state.lastKey)
    (hbufs : ∀ n evs, after.router.state.byKey.lookup n = some evs →
      self.router.state.byKey.lookup n = some evs)
    (herr : after.router.error = self.router.error)
    (hmal : after.router.state.malformed = self.router.state.malformed) :
    Follows codec self ev after where
  taken _ := by rw [hlog]
  last := Nat.le_of_eq hla.symm
  buffers n evs hevs := by
    refine Or.inl ⟨evs, hbufs n evs hevs, ?_⟩
    rw [harrivals]
    exact (append_nil _).symm
  stays i other ho := by
    by_cases hi : index = i
    · subst hi
      cases ht.symm.trans ho
      refine ⟨{ task with phase }, ?_, rfl⟩
      rw [hts, getElem?_set_of ht _]
    · refine ⟨other, ?_, rfl⟩
      rw [hts, getElem?_set_ne hi, ho]
  held i other ho hheld hne := by
    rw [hts, getElem?_set_ne, ho]
    rintro rfl
    cases ht.symm.trans ho
    exact hne (hspare hheld)
  names other hm := by
    rw [hts] at hm
    rcases mem_or_eq_of_mem_set hm with hold | rfl
    · exact Or.inl ⟨other, hold, rfl⟩
    · exact Or.inl ⟨task, mem_of_getElem? ht, rfl⟩
  quiet _ := ⟨herr, hmal⟩

theorem Follows.calm {i : ℕ} {cur phase : Phase} (ht : self.tasks[i]? = some task)
    (hcurrent : task.phase = cur) (hne : cur ≠ .held) (harrivals : self.arrivals codec ev = [])
    (hts : after.tasks = self.tasks.set i { task with phase }) (hlog : after.log = self.log)
    (hs : after.router.state = self.router.state) (herr : after.router.error = self.router.error) :
    Follows codec self ev after := by
  refine .moved ht ?_ harrivals hts hlog (by rw [hs]) ?_ herr (by rw [hs])
  · intro hheld
    exact absurd (hcurrent.symm.trans hheld) hne
  · intro n evs hevs
    rwa [hs] at hevs

theorem Follows.giveUp {i : ℕ} (ht : self.tasks[i]? = some task)
    (hspare : task.phase = .held → ev = .drop i) (harrivals : self.arrivals codec ev = []) :
    Follows codec self ev (self.giveUp i task) := by
  rw [Connection.giveUp]
  split
  · refine .moved ht hspare harrivals rfl rfl rfl ?_ rfl rfl
    exact fun n evs hevs => (Table.of_lookup_erase hevs).2
  · exact .moved ht hspare harrivals rfl rfl rfl (fun _ _ => id) rfl rfl

theorem Follows.same (hn : self.arrivals codec ev = []) (hts : after.tasks = self.tasks)
    (htk : ∀ n, Events.taken n after.log = Events.taken n self.log)
    (hla : after.router.state.lastKey = self.router.state.lastKey)
    (hbufs : after.router.state.byKey = self.router.state.byKey)
    (hq : self.notifies ev = false → after.router.error = self.router.error ∧
      after.router.state.malformed = self.router.state.malformed) :
    Follows codec self ev after where
  taken := htk
  last := Nat.le_of_eq hla.symm
  buffers n evs hevs := by
    rw [hbufs] at hevs
    rw [hn]
    exact Or.inl ⟨evs, hevs, (append_nil _).symm⟩
  stays index task ht := ⟨task, by rw [hts, ht], rfl⟩
  held index task ht _ _ := by rw [hts, ht]
  names task hm := Or.inl ⟨task, hts ▸ hm, rfl⟩
  quiet := hq

theorem taken_noted (codec : Codec ν) (router : Router ν) (frame : Frame) (n : ℕ)
    (log : List (Entry ν)) :
    Events.taken n (log ++ noted codec router frame) = Events.taken n log := by
  have hn : Events.taken n (noted codec router frame) = [] := by
    refine taken_none ?_
    intro ev hm
    cases frame with
    | malformed => cases hm
    | notification method params =>
      cases mem_singleton.mp hm
    | reply id r =>
      rcases reply_parts codec router id r with ⟨hntd, -⟩ | ⟨key, subscription, -, hntd, -⟩
      · rw [hntd] at hm
        cases hm
      · rw [hntd] at hm
        cases mem_singleton.mp hm
  rw [Events.taken, filterMap_append]
  exact (congrArg (Events.taken n log ++ ·) hn).trans (append_nil _)

theorem Follows.notified (self : Connection ν) {env : Option Envelope} {method : String}
    {params : Notification} (hpa : parse env = .ok (some (.notification method params))) :
    Follows codec self (.frame env)
      { self with
        router := self.router.dispatchNotification codec params
        log := self.log ++ [.notified params.subscription params.result] } := by
  obtain ⟨hla, -, hbufs⟩ := notification_parts codec self.router params
  refine ⟨fun n => taken_noted codec self.router (.notification method params) n _,
    Nat.le_of_eq hla.symm, ?_, fun _ task ht => ⟨task, ht, rfl⟩,
    fun _ _ ht _ _ => ht, fun task hm => Or.inl ⟨task, hm, rfl⟩, ?_⟩
  · intro n evs hevs
    refine Or.inl ?_
    rw [hbufs] at hevs
    simp only [arrivals, hpa]
    cases hrt : self.router.subscriptions.lookup params.subscription with
    | none =>
      rw [hrt] at hevs
      exact ⟨evs, hevs, (append_nil _).symm⟩
    | some key =>
      simp only [hrt, observe_lookup] at hevs
      by_cases hnum : n = key.1
      · subst hnum
        rw [if_pos rfl, map_eq_some_iff] at hevs
        obtain ⟨old, hold, rfl⟩ := hevs
        refine ⟨old, hold, ?_⟩
        cases codec.event params.result with
        | none => rfl
        | some ev => simp only [about_self, toList_some]
      · rw [if_neg hnum] at hevs
        refine ⟨evs, hevs, ?_⟩
        cases codec.event params.result with
        | none => exact (append_nil _).symm
        | some ev =>
          simp only [about_other ev (Ne.symm hnum)]
          exact (append_nil _).symm
  · -- a notification for nobody changes nothing
    intro hq
    simp only [notifies, hpa, isSome_eq_false_iff, isNone_iff_eq_none] at hq
    simp only [Router.dispatchNotification_none hq, and_self]

theorem Follows.read (codec : Codec ν) (self : Connection ν) (env : Option Envelope) :
    Follows codec self (.frame env) (self.read codec env) := by
  cases hpa : parse env with
  | error reason =>
    have hn : self.arrivals codec (.frame env) = [] := by simp only [arrivals, hpa]
    simp only [Connection.read, hpa]
    exact .same hn rfl (fun _ => rfl) rfl rfl (by simp [notifies, hpa])
  | ok frame =>
    cases frame with
    | none =>
      have hn : self.arrivals codec (.frame env) = [] := by simp only [arrivals, hpa]
      simp only [Connection.read, hpa]
      exact .same hn rfl (fun _ => rfl) rfl rfl fun _ => ⟨rfl, rfl⟩
    | some frame =>
      cases frame with
      | malformed =>
        have hn : self.arrivals codec (.frame env) = [] := by simp only [arrivals, hpa]
        simp only [Connection.read, hpa]
        exact .same hn rfl (fun n => taken_noted codec _ .malformed n _) rfl rfl
          (by simp [notifies, hpa])
      | notification method params =>
        simp only [Connection.read, hpa]
        exact .notified self hpa
      | reply id r =>
        have hn : self.arrivals codec (.frame env) = [] := by simp only [arrivals, hpa]
        have hs : (self.router.dispatchReply codec.id id r).1.state = self.router.state := by
          rcases reply_parts codec self.router id r with ⟨-, -, hs⟩ | ⟨_, _, -, -, hrep⟩
          · exact hs
          · rw [hrep]
            rfl
        have htk : ∀ n, Events.taken n
            (self.log ++ noted codec self.router (.reply id r)) = Events.taken n self.log :=
          fun n => taken_noted codec self.router (.reply id r) n self.log
        simp only [Connection.read, hpa]
        split <;> exact .same hn rfl htk (congrArg EventBuffer.lastKey hs)
          (congrArg EventBuffer.byKey hs) (by simp [notifies, hpa])

theorem step_follows (h : self.step codec ev = some after) (hpop : ∀ i, ev ≠ .pop i) :
    Follows codec self ev after := by
  cases step_change h with
  | subscribed typed topic params =>
    have hold : ∀ (i : ℕ) (task : Task), self.tasks[i]? = some task →
        (self.subscribe typed topic params).tasks[i]? = some task :=
      fun i task ht => getElem?_append_of ht _
    refine ⟨fun _ => rfl, Nat.le_succ _, ?_, fun i task ht => ⟨task, hold i task ht, rfl⟩,
      fun i task ht _ _ => hold i task ht, ?_, fun _ => ⟨rfl, rfl⟩⟩
    · intro n evs hevs
      obtain ⟨rfl, rfl⟩ | ⟨-, hevs⟩ := Table.of_lookup_insert hevs
      · exact Or.inr ⟨Nat.lt_succ_self _, rfl⟩
      · exact Or.inl ⟨evs, hevs, (append_nil _).symm⟩
    · intro task hm
      rcases mem_concat.mp hm with hm | rfl
      · exact Or.inl ⟨task, hm, rfl⟩
      · exact Or.inr (Nat.lt_succ_self _)
  | locked ht hp | unlocked ht hp | sent ht hp | unsent ht hp
  | acknowledged ht hp
  | abandoned ht hp => exact .calm ht hp (by rintro ⟨⟩) rfl rfl rfl rfl rfl
  | gaveUp ht hp hev =>
    refine .giveUp ht (fun hheld => ?_) ?_
    · exact hev.resolve_right fun ho => ho.1 hheld
    · rcases hev with rfl | ⟨-, rfl | rfl⟩ <;> rfl
  | released route ht hp =>
    cases route with
    | none | some sub => exact .calm ht hp (by rintro ⟨⟩) rfl rfl rfl rfl rfl
  | popped => exact absurd rfl (hpop _)
  | read env => exact .read codec self env
  | closed reason hev =>
    rcases hev with rfl | rfl <;>
      exact .same rfl rfl (fun _ => rfl) rfl rfl (by simp [notifies])

end Follows

end Connection

/-! ### The calls -/

/-- Where a call of `next` or `next_from` is. -/
inductive CallPhase (τ : Type) : Type where
  | begun
  /-- it sleeps until the next broadcast -/
  | parked
  | woken
  | ended (answer : Answer τ)
  | dropped

def CallPhase.live : CallPhase τ → Bool
  | .begun | .parked | .woken => true
  | _ => false

theorem CallPhase.live_of_awake {phase : CallPhase τ} (h : phase = .begun ∨ phase = .woken) :
    phase.live = true := by
  rcases h with rfl | rfl
  · rfl
  · rfl

/-- A call of `next`, `try_next` or `next_from`. -/
structure Call (τ : Type) where
  subscriptions : List ℕ
  phase : CallPhase τ

def Call.wake (self : Call τ) : Call τ :=
  match self.phase with
  | .parked => { self with phase := .woken }
  | _ => self

/-- The connection, with all calls that wait for its events. -/
structure Consumers (ν τ : Type) where
  connection : Connection ν
  calls : List (Call τ)
  /-- the readable payloads routed, with their keys; not in the source -/
  routed : List (ℕ × ν)
  /-- the events returned, with the keys they were asked for; not in the source -/
  returned : List (ℕ × τ)

/-- What can happen next. -/
inductive Action : Type where
  | connection (event : Event)
  /-- `Subscription::try_next` -/
  | tryNext (task : ℕ)
  /-- `Subscription::next` is called -/
  | next (task : ℕ)
  /-- `Subscription::next_from` is called -/
  | nextFrom (tasks : List ℕ)
  | poll (call : ℕ) (expired : Bool)
  | cancel (call : ℕ)

def Action.begins : Action → Option (List ℕ)
  | .next task => some [task]
  | .nextFrom tasks => some tasks
  | _ => none

def handed : Answer τ → List (ℕ × τ)
  | .ok (some update) => [(update.key, update.event)]
  | _ => []

namespace Consumers

def free (self : Consumers ν τ) (task : ℕ) : Bool :=
  self.calls.all fun call => !(call.phase.live && call.subscriptions.contains task)

/-- The caller has this `Subscription`, and may borrow it. -/
def available (self : Consumers ν τ) (task : ℕ) : Bool :=
  (self.connection.tasks[task]?.any fun task => task.phase = .held) && self.free task

/-- A `Subscription` in use is not dropped; events are taken by calls only. -/
def permits (self : Consumers ν τ) : Event → Bool
  | .drop task => self.free task
  | .pop _ => false
  | _ => true

def look (decode : Topic → ν → Option τ) (self : Consumers ν τ) (subscriptions : List ℕ) :
    Answer τ × Consumers ν τ :=
  let (answer, connection) :=
    self.connection.observe decode (subscriptions.filterMap fun task => self.connection.tasks[task]?)
  (answer, { self with connection, returned := self.returned ++ handed answer })

def move (self : Consumers ν τ) (index : ℕ) (call : Call τ) (phase : CallPhase τ) :
    Consumers ν τ :=
  { self with calls := self.calls.set index { call with phase } }

/-- The future of `next` and `next_from` is polled while awake: `on_change` registers for the
broadcast, then observes. -/
def pollAwake (decode : Topic → ν → Option τ) (self : Consumers ν τ) (index : ℕ) (call : Call τ)
    (expired : Bool) : Consumers ν τ :=
  if call.subscriptions = [] then self.move index call (.ended (.error .noSubscriptions))
  else
    let (answer, self) := self.look decode call.subscriptions
    match answer with
    | .ok none =>
      self.move index call (if expired then .ended (.error .timedOut) else .parked)
    | answer => self.move index call (.ended answer)

/-- **One step**; `none` where it cannot happen. `time::timeout` polls the wait before the clock. -/
def step (codec : Codec ν) (decode : Topic → ν → Option τ) (self : Consumers ν τ) :
    Action → Option (Consumers ν τ)
  | .connection event => do
    guard (self.permits event)
    let connection ← self.connection.step codec event
    some { self with
      connection
      calls := if self.connection.notifies event then self.calls.map Call.wake else self.calls
      routed := self.routed ++ self.connection.arrivals codec event }
  | .tryNext task => do
    guard (self.available task)
    let (answer, self) := self.look decode [task]
    some { self with calls := self.calls ++ [⟨[task], .ended answer⟩] }
  | .next task => do
    guard (self.available task)
    some { self with calls := self.calls ++ [⟨[task], .begun⟩] }
  | .nextFrom tasks => do
    guard (tasks.Nodup ∧ tasks.all self.available)
    some { self with calls := self.calls ++ [⟨tasks, .begun⟩] }
  | .poll index expired => do
    let call ← self.calls[index]?
    match call.phase with
    | .begun | .woken => some (self.pollAwake decode index call expired)
    | .parked =>
      if expired then some (self.move index call (.ended (.error .timedOut))) else some self
    | _ => none
  | .cancel index => do
    let call ← self.calls[index]?
    guard call.phase.live
    some (self.move index call .dropped)

def init : Consumers ν τ := ⟨.init, [], [], []⟩

/-- A state of some run. -/
def Reachable (codec : Codec ν) (decode : Topic → ν → Option τ) (self : Consumers ν τ) : Prop :=
  Machine.Reachable (step codec decode) init self

end Consumers

end Events

end Redsuite
