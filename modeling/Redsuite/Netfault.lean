import Redsuite.Channel
import Redsuite.Operation

/-!
# The fault scope of the proxy

A model of `core/src/netfault/mod.rs`.
-/

namespace Redsuite

/-! ## References

A reference is an index into the list that holds what it points to. The lists only grow. -/

/-- A `Rc<RefCell<State>>`. -/
abbrev ScopeId : Type := ℕ

/-- A `watch` channel. -/
abbrev WatchId : Type := ℕ

/-- The `oneshot` channel a decision about one held operation travels on. -/
abbrev DecisionId : Type := ℕ

/-- The `oneshot` channel a trap delivers its held operation on. -/
abbrev TrapId : Type := ℕ

/-- A `Rc<Hits>`. -/
abbrev HitsId : Type := ℕ

/-- A call of `reset` that has begun. -/
abbrev ResetId : Type := ℕ

/-! ## The values of the module -/

/-- An operation stopped by a trap, in the hands of the scenario. -/
structure Held where
  operation : Operation
  sequence : ℕ
  decide : DecisionId

/-- A trap as the scope sees it; `deliver` is gone once it fired. -/
structure Interception where
  selector : Selector
  deliver : Option TrapId

/-- What a rule does to an operation. -/
inductive Effect : Type where
  | observe
  | reject (message : String)
  | stall (resume : WatchId)
  deriving DecidableEq

/-- `matches!(effect, Effect::Observe)`. -/
def Effect.isObserve : Effect → Bool
  | .observe => true
  | _ => false

/-- An installed rule. Its `hits` are shared with its handle, and identify it. -/
structure Rule where
  selector : Selector
  effect : Effect
  hits : HitsId
  deriving DecidableEq

/-- How often a rule matched. -/
structure Hits where
  count : ℕ
  changed : Notify

/-- `State`: the traps and rules of a scope. -/
structure State where
  traps : List Interception
  rules : List Rule
  /-- traps taken away before they fired, and not reported yet -/
  unfired : List String
  observed : List ℕ
  /-- live `Holding` tokens -/
  holding : ℕ
  sequence : ℕ
  /-- bumped by every `restore` -/
  reset : WatchId
  /-- wakes `reset` -/
  drained : Notify

/-- The receiving end of a `watch` channel. -/
structure Receiver where
  watch : WatchId
  seen : ℕ
  deriving DecidableEq

/-- The token that keeps `reset` waiting. -/
structure Holding where
  scope : ScopeId
  deriving DecidableEq

/-- What the gate says to an operation. -/
inductive Gate : Type where
  | decided (decision : Decision)
  | held (decision : DecisionId) (reset : Receiver) (holding : Holding)
  | stalled (resume : Receiver) (holding : Holding)
  deriving DecidableEq

def Gate.holding : Gate → Option Holding
  | .decided _ => none
  | .held _ _ holding => some holding
  | .stalled _ holding => some holding

/-- A trap as its scenario has it. -/
structure Trap where
  receive : TrapId
  selector : Selector
  state : ScopeId
  deriving DecidableEq

/-- The scenario's end of a rule. Its reference to the scope is weak. -/
structure RuleHandle where
  state : ScopeId
  hits : HitsId

/-! ## The recorded history -/

/-- What became of an operation at the gate. -/
inductive Verdict : Type where
  | released
  | rejected (rule : HitsId)
  | stalled (rule : HitsId)
  /-- a trap fired on it; `delivered` says whether the trap's receiver was still there -/
  | held (trap : TrapId) (sequence : ℕ) (delivered : Bool)
  deriving DecidableEq

/-- What happened to a scope, for its history. -/
inductive Event : Type where
  | requested (scope : ScopeId) (trap : TrapId) (selector : Selector)
  | installed (scope : ScopeId) (rule : Rule)
  | removed (scope : ScopeId) (rule : HitsId)
  | gated (scope : ScopeId) (operation : Operation) (verdict : Verdict) (answer : Gate)
  /-- all rules and traps were taken away -/
  | restored (scope : ScopeId)
  /-- a call of `reset` began -/
  | resetStarted (reset : ResetId) (scope : ScopeId)
  /-- a call of `reset` returned `Ok` -/
  | resetOk (reset : ResetId) (scope : ScopeId)
  /-- a call of `reset` returned the error that names these traps -/
  | resetErr (reset : ResetId) (scope : ScopeId) (names : List String)
  deriving DecidableEq

/-! ## Shared memory -/

/-- A `RefCell<State>`. -/
structure Scope where
  /-- a `borrow_mut` is in force -/
  borrowed : Bool
  state : State

/-- The heap of the proxy. -/
structure World where
  /-- `Runtime.active`: a weak reference -/
  active : Option ScopeId
  scopes : List Scope
  strong : List ℕ
  /-- `watch` channels -/
  watches : List Watch
  decisions : List (Oneshot Decision)
  deliveries : List (Oneshot Held)
  hits : List Hits
  /-- calls of `reset` in progress, with their scope -/
  resets : List (Option ScopeId)
  history : List Event

def World.init : World := ⟨none, [], [], [], [], [], [], [], []⟩

/-- Where the code would panic. -/
inductive Panic : Type where
  /-- `borrow_mut` on a borrowed cell -/
  | alreadyBorrowed
  /-- `holding -= 1` at zero -/
  | underflow
  /-- `unwrap` on `None`, or a reference to nothing -/
  | unwrapNone
  /-- `unreachable!` -/
  | unreachable

/-- Code that changes the heap, or panics. -/
abbrev M : Type → Type := StateT World (Except Panic)

/-! ## Cells and references -/

/-- `RefCell::borrow_mut`. -/
def borrowMut (scope : ScopeId) : M State := fun w =>
  match w.scopes[scope]? with
  | none => .error .unwrapNone
  | some cell =>
    if cell.borrowed then .error .alreadyBorrowed
    else .ok (cell.state, { w with scopes := w.scopes.set scope { cell with borrowed := true } })

def endBorrow (scope : ScopeId) (state : State) : M Unit :=
  modify fun w => { w with scopes := w.scopes.set scope ⟨false, state⟩ }

/-- `Rc::clone`. -/
def cloneRc (scope : ScopeId) : M Unit :=
  modify fun w => { w with strong := w.strong.modify scope (· + 1) }

/-- A strong reference is dropped. With the last one the state goes too; by then the scope was
restored, so its rules and traps are gone and nobody holds its channels. -/
def dropRc (scope : ScopeId) : M Unit :=
  modify fun w => { w with strong := w.strong.modify scope (· - 1) }

def World.alive (w : World) (scope : ScopeId) : Bool := w.strong[scope]?.getD 0 ≠ 0

/-- `Weak::upgrade`; the new reference is counted. -/
def upgrade (weak : Option ScopeId) : M (Option ScopeId) := do
  match weak with
  | none => return none
  | some scope =>
    if (← get).alive scope then
      cloneRc scope
      return some scope
    else
      return none

def note (event : Event) : M Unit :=
  modify fun w => { w with history := event :: w.history }

/-! ## Channels -/

/-- `watch::channel`. -/
def newWatch : M WatchId :=
  modifyGet fun w => (w.watches.length, { w with watches := w.watches ++ [Watch.new] })

/-- `watch::Sender::send_replace`. -/
def sendReplace (watch : WatchId) : M Unit :=
  modify fun w => { w with watches := w.watches.modify watch Watch.sendReplace }

/-- A `watch::Sender` is dropped. -/
def dropWatch (watch : WatchId) : M Unit :=
  modify fun w => { w with watches := w.watches.modify watch Watch.dropSender }

def World.version (w : World) (watch : WatchId) : ℕ := (w.watches[watch]?.map Watch.version).getD 0

/-- `watch::Sender::subscribe`. -/
def subscribe (watch : WatchId) : M Receiver := do
  return ⟨watch, (← get).version watch⟩

/-- `oneshot::channel` for a decision. -/
def newDecision : M DecisionId :=
  modifyGet fun w => (w.decisions.length, { w with decisions := w.decisions ++ [Oneshot.new] })

/-- `oneshot::channel` for a held operation. -/
def newDelivery : M TrapId :=
  modifyGet fun w => (w.deliveries.length, { w with deliveries := w.deliveries ++ [Oneshot.new] })

def newHits : M HitsId :=
  modifyGet fun w => (w.hits.length, { w with hits := w.hits ++ [⟨0, Notify.new⟩] })

def Hits.record (self : Hits) : Hits := ⟨self.count + 1, self.changed.notifyWaiters⟩

def recordHit (hits : HitsId) : M Unit :=
  modify fun w => { w with hits := w.hits.modify hits Hits.record }

/-- Send a decision; a receiver that is gone makes no difference. -/
def sendDecision (channel : DecisionId) (decision : Decision) : M Unit :=
  modify fun w => { w with decisions := w.decisions.modify channel fun c => (c.send decision).1 }

def Held.drop (self : Held) : M Unit :=
  modify fun w => { w with decisions := w.decisions.modify self.decide Oneshot.dropSender }

def Held.release (self : Held) : M Unit := sendDecision self.decide .release

def Held.discard (self : Held) : M Unit := sendDecision self.decide .discard

def Held.reject (self : Held) (message : String) : M Unit :=
  sendDecision self.decide (.reject message)

/-- `oneshot::Sender<Held>::send`: the operation comes back when the trap is gone. -/
def sendHeld (channel : TrapId) (held : Held) : M (Option Held) :=
  modifyGet fun w =>
    ((w.deliveries[channel]?.map fun c => (c.send held).2).getD (some held),
      { w with deliveries := w.deliveries.modify channel fun c => (c.send held).1 })

/-- A `oneshot::Sender<Held>` is dropped. -/
def dropDelivery (channel : TrapId) : M Unit :=
  modify fun w => { w with deliveries := w.deliveries.modify channel Oneshot.dropSender }

/-! ## The gate -/

/-- `Holding(scope.clone())`. -/
def Holding.new (scope : ScopeId) : M Holding := do
  cloneRc scope
  return ⟨scope⟩

/-- `Drop for Holding`, then the drop of its reference. -/
def Holding.drop (self : Holding) : M Unit := do
  let state ← borrowMut self.scope
  if state.holding = 0 then
    throw .underflow
  endBorrow self.scope
    { state with holding := state.holding - 1, drained := state.drained.notifyWaiters }
  dropRc self.scope

/-- The observers' loop of `gate`. -/
def observeHits (rules : List Rule) (operation : Operation) : M Unit :=
  rules.forM fun rule =>
    if rule.effect.isObserve && rule.selector.matches operation then recordHit rule.hits
    else pure ()

/-- The rule that decides an operation: the first that is no observer and matches. -/
def decidingRule (rules : List Rule) (operation : Operation) : Option Rule :=
  rules.find? fun rule => !rule.effect.isObserve && rule.selector.matches operation

/-- The position of the trap an operation falls into: the first armed one that matches. -/
def armedTrap (traps : List Interception) (operation : Operation) : Option ℕ :=
  traps.findIdx? fun trap => trap.deliver.isSome && trap.selector.matches operation

/-- `deliver.take()` on the trap at `index`. -/
def takeDeliver (traps : List Interception) (index : ℕ) : Option TrapId × List Interception :=
  ((traps[index]?.bind Interception.deliver),
    traps.modify index fun trap => { trap with deliver := none })

/-- `gate` returns: the borrow ends, then the upgraded reference is dropped. -/
def leaveGate (scope : ScopeId) (state : State) (operation : Operation) (verdict : Verdict)
    (gate : Gate) : M Gate := do
  endBorrow scope state
  dropRc scope
  note (.gated scope operation verdict gate)
  return gate

/-- The branch of `gate` taken when a rule decides. -/
def gateRule (scope : ScopeId) (state : State) (operation : Operation) (rule : Rule) :
    M Gate := do
  recordHit rule.hits
  match rule.effect with
  | .observe => throw .unreachable
  | .reject message =>
    leaveGate scope state operation (.rejected rule.hits) (.decided (.reject message))
  | .stall resume =>
    let resume ← subscribe resume
    let holding ← Holding.new scope
    leaveGate scope { state with holding := state.holding + 1 } operation (.stalled rule.hits)
      (.stalled resume holding)

/-- The branch of `gate` taken when no rule decides. -/
def gateTrap (scope : ScopeId) (state : State) (operation : Operation) : M Gate := do
  match armedTrap state.traps operation with
  | none => leaveGate scope state operation .released (.decided .release)
  | some index =>
    let decide ← newDecision
    let held : Held := ⟨operation, state.sequence + 1, decide⟩
    match takeDeliver state.traps index with
    | (none, _) => throw .unwrapNone
    | (some trap, traps) =>
      let returned ← sendHeld trap held
      -- `let _ = ...send(held)`: an operation that comes back is dropped here
      match returned with
      | none => pure ()
      | some held => held.drop
      let reset ← subscribe state.reset
      let holding ← Holding.new scope
      leaveGate scope
        { state with traps, sequence := state.sequence + 1, holding := state.holding + 1 }
        operation (.held trap (state.sequence + 1) returned.isNone)
        (.held decide reset holding)

def gate (operation : Operation) : M Gate := do
  match ← upgrade (← get).active with
  | none => return .decided .release
  | some scope =>
    let state ← borrowMut scope
    let state :=
      { state with observed := state.observed.modify operation.stage.index (· + 1) }
    observeHits state.rules operation
    -- persistent faults take precedence over one-shot interceptions
    match decidingRule state.rules operation with
    | some rule => gateRule scope state operation rule
    | none => gateTrap scope state operation

/-- One poll of `Gate::resolve`. The select is biased: a decision that was sent wins over
a reset. -/
def World.resolve (w : World) : Gate → Poll Decision
  | .decided decision => .ready decision
  | .held decision reset _ =>
    match (w.decisions[decision]?.getD Oneshot.new).poll with
    | .ready sent => .ready (sent.getD .release)
    | .pending =>
      match (w.watches[reset.watch]?.getD Watch.new).changed reset.seen with
      | .ready () => .ready .release
      | .pending => .pending
  | .stalled resume _ =>
    match (w.watches[resume.watch]?.getD Watch.new).changed resume.seen with
    | .ready () => .ready .release
    | .pending => .pending

/-! ## The scope's owner -/

/-- `Proxy::scope`; `none` is the error of a proxy that has an active scope. -/
def openScope : M (Option ScopeId) := do
  match ← upgrade (← get).active with
  | some scope =>
    dropRc scope
    return none
  | none =>
    let reset ← newWatch
    let scope := (← get).scopes.length
    modify fun w =>
      { w with
        active := some scope
        scopes := w.scopes ++ [⟨false, ⟨[], [], [], [0, 0, 0], 0, 0, reset, Notify.new⟩⟩]
        strong := w.strong ++ [1] }
    return some scope

/-- `Faults::intercept`. -/
def intercept (scope : ScopeId) (selector : Selector) : M Trap := do
  let deliver ← newDelivery
  let state ← borrowMut scope
  endBorrow scope { state with traps := state.traps ++ [⟨selector, some deliver⟩] }
  cloneRc scope
  note (.requested scope deliver selector)
  return ⟨deliver, selector, scope⟩

/-- `Faults::rule`. -/
def rule (scope : ScopeId) (selector : Selector) (effect : Effect) : M RuleHandle := do
  let state ← borrowMut scope
  let hits ← newHits
  endBorrow scope { state with rules := state.rules ++ [⟨selector, effect, hits⟩] }
  note (.installed scope ⟨selector, effect, hits⟩)
  return ⟨scope, hits⟩

/-- `Faults::observe`. -/
def observe (scope : ScopeId) (selector : Selector) : M RuleHandle := rule scope selector .observe

/-- `Faults::reject`. -/
def reject (scope : ScopeId) (selector : Selector) (message : String) : M RuleHandle :=
  rule scope selector (.reject message)

/-- `Faults::stall`. -/
def stall (scope : ScopeId) (selector : Selector) : M RuleHandle := do
  let resume ← newWatch
  rule scope selector (.stall resume)

/-- A rule is dropped; a stall rule takes its sender along. -/
def Rule.drop (self : Rule) : M Unit :=
  match self.effect with
  | .stall resume => dropWatch resume
  | _ => pure ()

/-- A trap is dropped from the scope; an armed one takes its sender along. -/
def Interception.drop (self : Interception) : M Unit :=
  match self.deliver with
  | some trap => dropDelivery trap
  | none => pure ()

def RuleHandle.remove (self : RuleHandle) : M Unit := do
  match ← upgrade (some self.state) with
  | none => return ()
  | some scope =>
    let state ← borrowMut scope
    -- `retain` drops what it does not keep while the cell is borrowed
    (state.rules.filter fun rule => rule.hits = self.hits).forM Rule.drop
    endBorrow scope
      { state with rules := state.rules.filter fun rule => !decide (rule.hits = self.hits) }
    dropRc scope
    note (.removed scope self.hits)

/-- The scenario drops its end of a trap, or its wait times out; an operation delivered and not
taken goes with it. -/
def Trap.drop (self : Trap) : M Unit := do
  let left ← modifyGet fun w =>
    (w.deliveries[self.receive]?.bind Oneshot.value,
      { w with deliveries := w.deliveries.modify self.receive Oneshot.dropReceiver })
  match left with
  | none => pure ()
  | some held => held.drop
  dropRc self.state

/-- One poll of `Trap::wait`: the operation moves to the scenario, or the trap was taken away
unfired. Either way the scenario's end is used up. -/
def Trap.wait (self : Trap) : M (Poll (Option Held)) := do
  match ((← get).deliveries[self.receive]?.getD Oneshot.new).poll with
  | .pending => return .pending
  | .ready held =>
    modify fun w => { w with deliveries := w.deliveries.modify self.receive Oneshot.dropReceiver }
    dropRc self.state
    return .ready held

section Reset

/-! ## Restoring and resetting

`quote` is the `Debug` of a string; it only shows in the names `unfired` collects. -/

variable (quote : String → String)

/-- The texts `restore` adds to `unfired`: the traps that are still armed. -/
def unfiredNames (traps : List Interception) : List String :=
  (traps.filter fun trap => trap.deliver.isSome).map fun trap => trap.selector.debug quote

/-- `State::restore`, on the borrowed state. -/
def State.restore (self : State) : M State := do
  self.rules.forM Rule.drop
  sendReplace self.reset
  self.traps.forM Interception.drop
  return { self with
    rules := []
    traps := []
    unfired := self.unfired ++ unfiredNames quote self.traps }

/-- `Faults::restore`. -/
def restore (scope : ScopeId) : M Unit := do
  let state ← borrowMut scope
  let state ← state.restore quote
  endBorrow scope state
  note (.restored scope)

/-- `Faults::reset` up to its first wait. -/
def startReset (scope : ScopeId) : M ResetId := do
  restore quote scope
  let reset ← modifyGet fun w => (w.resets.length, { w with resets := w.resets ++ [some scope] })
  note (.resetStarted reset scope)
  return reset

/-- The scope a call of `reset` works on, while it is in progress. -/
def World.resetScope (w : World) (reset : ResetId) : Option ScopeId := w.resets[reset]?.join

def endReset (reset : ResetId) : M Unit :=
  modify fun w => { w with resets := w.resets.set reset none }

/-- What `reset` returns. -/
inductive ResetOutcome : Type where
  /-- `Ok(())` -/
  | ok
  /-- the error that names traps that never fired -/
  | unfired (names : List String)
  deriving DecidableEq

def ResetOutcome.message : ResetOutcome → Option String
  | .ok => none
  | .unfired names =>
    some ("requested interceptions never occurred: " ++ "; ".intercalate names)

/-- `Faults::reset` is polled: it observes the count and, at zero, finishes without another
wait. -/
def pollReset (reset : ResetId) : M (Poll ResetOutcome) := do
  match (← get).resetScope reset with
  | none => return .pending
  | some scope =>
    let state ← borrowMut scope
    if state.holding ≠ 0 then
      endBorrow scope state
      return .pending
    else
      endBorrow scope { state with unfired := [] }
      endReset reset
      if state.unfired.isEmpty then
        note (.resetOk reset scope)
        return .ready .ok
      else
        note (.resetErr reset scope state.unfired)
        return .ready (.unfired state.unfired)

/-- A call of `reset` is cancelled, or its wait times out: nothing is taken. -/
def abandonReset (reset : ResetId) : M Unit := endReset reset

/-- `Drop for Faults`, then the drop of its reference. -/
def dropFaults (scope : ScopeId) : M Unit := do
  restore quote scope
  modify fun w => { w with active := none }
  dropRc scope

end Reset

end Redsuite
