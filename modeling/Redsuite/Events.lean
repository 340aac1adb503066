import Redsuite.Router

/-!
# Subscriptions on an event connection

A model of the client side of a WebSocket subscription connection.
-/

namespace Redsuite

namespace Events

/-! ### Frames -/

/-- `Topic`: the subscription methods. -/
inductive Topic : Type where
  | account
  | failure
  | logs
  | program
  | signature
  | slot
  deriving DecidableEq

/-- A key, with its topic. -/
abbrev Key : Type := ℕ × Topic

/-- The JSON library, for the results that are read: a subscription id and any value. -/
structure Codec (ν : Type) where
  id : String → Option ℕ
  event : String → Option ν

/-! ### The buffers -/

/-- `EventBuffer`. -/
structure EventBuffer (ν : Type) where
  lastKey : ℕ
  byKey : Table ℕ (List ν)
  malformed : ℕ

variable {ν : Type}

namespace EventBuffer

def register (self : EventBuffer ν) : ℕ × EventBuffer ν :=
  (self.lastKey + 1,
    { self with lastKey := self.lastKey + 1, byKey := self.byKey.insert (self.lastKey + 1) [] })

/-- `EventBuffer::observe`; the flag says whether the subscription is over. -/
def observe (codec : Codec ν) (self : EventBuffer ν) (key : Key) (payload : String) :
    EventBuffer ν × Bool :=
  let self := match codec.event payload with
    | some event =>
      match self.byKey.lookup key.1 with
      | some events => { self with byKey := self.byKey.insert key.1 (events ++ [event]) }
      | none => self
    | none => { self with malformed := self.malformed + 1 }
  (self, key.2 = .signature)

/-- `EventBuffer::pop`, where it returns an event. -/
def pop (self : EventBuffer ν) (key : ℕ) : Option (ν × EventBuffer ν) :=
  if self.malformed = 0 then
    match self.byKey.lookup key with
    | some (event :: rest) => some (event, { self with byKey := self.byKey.insert key rest })
    | _ => none
  else none

end EventBuffer

/-! ### The router -/

instance : Subscription.SubscriptionState (EventBuffer ν) where
  onMalformed self := { self with malformed := self.malformed + 1 }

/-- The router of an event connection. -/
abbrev Router (ν : Type) : Type := Subscription.Router Key (EventBuffer ν)

/-- An event connection: its callback is `observe`, which never panics. -/
def kind (codec : Codec ν) : Subscription.Kind Id Key (EventBuffer ν) Unit where
  id := codec.id
  onNotification _ state key payload := state.observe codec key payload

namespace Router

/-- `Router::dispatch` for an event connection. -/
def dispatch (codec : Codec ν) (self : Router ν) (frame : Frame) :
    Router ν × Option CloseReason :=
  Id.run (Subscription.Router.dispatch (kind codec) () self frame)

/-- What it does to a notification. -/
def dispatchNotification (codec : Codec ν) (self : Router ν) (params : Notification) : Router ν :=
  Id.run (Subscription.Router.dispatchNotification (kind codec) () self params)

theorem dispatch_reply (codec : Codec ν) (self : Router ν) (id : ℕ)
    (result : Except ServerError String) :
    self.dispatch codec (.reply id result) = self.dispatchReply codec.id id result := rfl

theorem dispatch_notification (codec : Codec ν) (self : Router ν) (method : String)
    (params : Notification) : self.dispatch codec (.notification method params) =
      (self.dispatchNotification codec params, none) := rfl

variable {codec : Codec ν} {self : Router ν} {params : Notification}

theorem dispatchNotification_none (h : self.subscriptions.lookup params.subscription = none) :
    self.dispatchNotification codec params = self := by
  simp only [dispatchNotification, Subscription.Router.dispatchNotification, h]
  rfl

theorem dispatchNotification_some {key : Key}
    (h : self.subscriptions.lookup params.subscription = some key) :
    self.dispatchNotification codec params =
      { self with
        state := (self.state.observe codec key params.result).1
        subscriptions := if key.2 = Topic.signature then
          self.subscriptions.erase params.subscription else self.subscriptions }.notify := by
  have hfinished : (self.state.observe codec key params.result).2 = true ↔
      key.2 = .signature := decide_eq_true_iff
  simp only [← hfinished, dispatchNotification, Subscription.Router.dispatchNotification, h]
  rfl

end Router

/-! ### The connection -/

/-- Where a subscription is. -/
inductive Phase : Type where
  /-- `subscribe` waits for the sink -/
  | locking
  /-- `subscribe` sends -/
  | sending
  /-- `typed` waits for the acknowledgment -/
  | acking
  /-- the caller has its `Subscription` -/
  | held
  /-- opened by a call that returns the bare key, or given up in such a call -/
  | kept
  /-- the `Subscription` was dropped; the cleanup waits for the acknowledgment -/
  | leaving
  /-- the cleanup took the route away and waits for the sink -/
  | unlocking (id subscription : ℕ)
  | unsending (id subscription : ℕ)
  | done
  deriving DecidableEq

/-- A subscription, from its call to its cleanup. -/
structure Task where
  key : ℕ
  topic : Topic
  params : String
  /-- a call of `typed`, which makes a `Subscription` -/
  typed : Bool
  request : ℕ
  phase : Phase
  deriving DecidableEq

def Task.name (self : Task) : Key := (self.key, self.topic)

/-- What a request asks for. -/
inductive Ask : Type where
  | subscribe (topic : Topic) (params : String)
  | unsubscribe (topic : Topic) (subscription : ℕ)
  deriving DecidableEq

/-- A request. -/
structure Message where
  id : ℕ
  ask : Ask
  deriving DecidableEq

/-- What the log holds of a connection. -/
inductive Entry (ν : Type) : Type where
  | acked (key : Key) (subscription : ℕ)
  | notified (subscription : ℕ) (payload : String)
  | taken (key : ℕ) (event : ν)

def noted (codec : Codec ν) (router : Router ν) : Frame → List (Entry ν)
  | .reply id (.ok text) =>
    match router.requests.lookup id, codec.id text with
    | some (.subscribe key), some subscription => [.acked key subscription]
    | _, _ => []
  | .notification _ params => [.notified params.subscription params.result]
  | _ => []

/-- A connection with its subscriptions. -/
structure Connection (ν : Type) where
  router : Router ν
  nextId : ℕ
  lastSent : ℕ
  /-- all subscriptions so far, in the order of their keys -/
  tasks : List Task
  /-- all requests that were given to the sink; not in the source -/
  sent : List Message
  /-- what happened so far; not in the source -/
  log : List (Entry ν)

/-- What can happen next. -/
inductive Event : Type where
  /-- `typed`, or a call that returns the bare key, up to its first await -/
  | subscribe (typed : Bool) (topic : Topic) (params : String)
  | locked (task : ℕ)
  | sent (task : ℕ) (ok : Bool)
  /-- `await_ack` returns in `typed` -/
  | acknowledged (task : ℕ)
  /-- `await_ack` returns in the cleanup, which finds this route -/
  | released (task : ℕ) (route : Option ℕ)
  /-- `await_ack` fails, in `typed` or in the cleanup -/
  | failed (task : ℕ)
  /-- the `Subscription` is dropped, or the call that opens it is cancelled -/
  | drop (task : ℕ)
  | pop (task : ℕ)
  | frame (envelope : Option Envelope)
  | ended (reason : CloseReason)
  /-- `EventSubscriptions::finalize` -/
  | stop

namespace Connection

def init : Connection ν := ⟨.new ⟨0, ∅, 0⟩, 1, 0, [], [], []⟩

section

variable (self : Connection ν)

def move (index : ℕ) (task : Task) (phase : Phase) : Connection ν :=
  { self with tasks := self.tasks.set index { task with phase } }

def sinkFree : Bool :=
  self.tasks.all fun task =>
    match task.phase with
    | .sending => false
    | .unsending _ _ => false
    | _ => true

/-- `typed` up to its first await: a key, a `Subscription` and `subscribe`. -/
def subscribe (typed : Bool) (topic : Topic) (params : String) : Connection ν :=
  let (key, state) := self.router.state.register
  { self with
    router := { self.router with state }.register self.nextId (key, topic)
    nextId := self.nextId + 1
    tasks := self.tasks ++ [⟨key, topic, params, typed, self.nextId, .locking⟩] }

/-- `Subscription::drop`: the buffer goes, and the cleanup is spawned. -/
def dropSubscription (index : ℕ) (task : Task) : Connection ν :=
  { self with router.state.byKey := self.router.state.byKey.erase task.key }.move index task
    .leaving

/-- A call that opens a subscription ends early. -/
def giveUp (index : ℕ) (task : Task) : Connection ν :=
  if task.typed then self.dropSubscription index task else self.move index task .kept

def send (id : ℕ) (ask : Ask) : Connection ν :=
  { self with sent := self.sent ++ [⟨id, ask⟩] }

/-- `unsubscribe` after the acknowledgment, up to the lock. -/
def release (index : ℕ) (task : Task) : Option ℕ → Connection ν
  | none => self.move index task .done
  | some subscription =>
    { self with
      router.subscriptions := self.router.subscriptions.erase subscription
      nextId := self.nextId + 1 }.move index task (.unlocking self.nextId subscription)

/-- What the search for a route may find. -/
def Finds (task : Task) : Option ℕ → Prop
  | none => self.router.subscriptions.any (· = task.name) = false
  | some subscription => self.router.subscriptions.lookup subscription = some task.name

end

instance (self : Connection ν) (task : Task) (route : Option ℕ) :
    Decidable (self.Finds task route) :=
  match route with
  | none => inferInstanceAs (Decidable (_ = false))
  | some subscription =>
    inferInstanceAs (Decidable (self.router.subscriptions.lookup subscription = some task.name))

/-- `unsubscribe` where `await_ack` failed. -/
def abandon (self : Connection ν) (index : ℕ) (task : Task) : Connection ν :=
  { self with
    router.requests := self.router.requests.retain
      (· ≠ Subscription.Request.subscribe task.name) }.move index task .done

def close (self : Connection ν) (reason : CloseReason) : Connection ν :=
  { self with router := self.router.close reason }

def read (codec : Codec ν) (self : Connection ν) (envelope : Option Envelope) : Connection ν :=
  match parse envelope with
  | .error reason => self.close reason
  | .ok none => self
  | .ok (some frame) =>
    let (router, reason) := self.router.dispatch codec frame
    let self := { self with router, log := self.log ++ noted codec self.router frame }
    match reason with
    | none => self
    | some reason => self.close reason

/-- **One step**; `none` where it cannot happen. `await_ack` fails when the connection has ended or
the time is up. `time::timeout` polls the wait before the clock, and every acknowledgment wakes the
wait: so the time is up only while the request is pending. -/
def step (codec : Codec ν) (self : Connection ν) : Event → Option (Connection ν)
  | .subscribe typed topic params => some (self.subscribe typed topic params)
  | .locked index => do
    let task ← self.tasks[index]?
    guard self.sinkFree
    match task.phase with
    | .locking =>
      some ((self.move index task .sending).send task.request (.subscribe task.topic task.params))
    | .unlocking id subscription =>
      some ({ self with router.requests := self.router.requests.insert id .unsubscribe }.move index
        task (.unsending id subscription) |>.send id (.unsubscribe task.topic subscription))
    | _ => none
  | .sent index ok => do
    let task ← self.tasks[index]?
    match task.phase with
    | .sending =>
      if ok then
        some ({ self with lastSent := task.request }.move index task
          (if task.typed then .acking else .kept))
      else some (self.giveUp index task)
    | .unsending id _ =>
      some ({ self with lastSent := if ok then id else self.lastSent }.move index task .done)
    | _ => none
  | .acknowledged index => do
    let task ← self.tasks[index]?
    guard (self.router.error.isNone && !self.router.pending task.name)
    match task.phase with
    | .acking => some (self.move index task .held)
    | _ => none
  | .released index route => do
    let task ← self.tasks[index]?
    guard (self.router.error.isNone && !self.router.pending task.name)
    guard (self.Finds task route)
    match task.phase with
    | .leaving => some (self.release index task route)
    | _ => none
  | .failed index => do
    let task ← self.tasks[index]?
    guard (self.router.error.isSome || self.router.pending task.name)
    match task.phase with
    | .acking => some (self.giveUp index task)
    | .leaving => some (self.abandon index task)
    | _ => none
  | .drop index => do
    let task ← self.tasks[index]?
    match task.phase with
    | .locking | .sending | .acking | .held => some (self.giveUp index task)
    | _ => none
  | .pop index => do
    let task ← self.tasks[index]?
    match task.phase with
    | .held =>
      (self.router.state.pop task.key).map fun entry =>
        { self with router.state := entry.2, log := self.log ++ [.taken task.key entry.1] }
    | _ => none
  | .frame envelope => do
    guard self.router.error.isNone
    some (self.read codec envelope)
  | .ended reason => do
    guard self.router.error.isNone
    some (self.close reason)
  | .stop => some (self.close .streamEnded)

/-- Any number of steps. -/
inductive Run (codec : Codec ν) (self : Connection ν) : Connection ν → Prop where
  | refl : Run codec self self
  | step {before after : Connection ν} {event : Event} (h : Run codec self before)
      (hstep : before.step codec event = some after) : Run codec self after

/-- A state of some run. -/
def Reachable (codec : Codec ν) (self : Connection ν) : Prop := Run codec init self

end Connection

end Events

end Redsuite
