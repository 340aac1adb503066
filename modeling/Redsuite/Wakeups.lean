import Redsuite.EventWaits
import Redsuite.FaultWaits
import Redsuite.SignatureConfirmations
import Redsuite.Subscriptions

/-!
# No wakeup is lost

All waits that go through `on_change`.
-/

namespace Redsuite

open OnChange (Announced NoLostWakeup)

namespace Ws

open Events (SignatureResult)
open Subscription (Connection Kind SubscriptionState)

variable {π ε : Type}

/-! ### Account updates -/

/-- What `AccountUpdates` does to its state, apart from the callback. -/
inductive AccountTouch (π : Type) : Type where
  /-- `track` -/
  | track (id : ℕ) (account : π)
  /-- `await_id`, after `check_error` -/
  | awaitId (id : ℕ)
  /-- an `await_id` is over -/
  | leave (channel : ℕ)
  /-- `take_outcome` -/
  | takeOutcome (rng : Rng)

section Accounts

variable [DecidableEq π]

def AccountState.touch (self : AccountState π) : AccountTouch π → AccountState π
  | .track id account => self.track id account
  | .awaitId id => ((accountObserver π).awaitId ⟨self, none⟩ id).1.state
  | .leave channel => ((accountObserver π).leave ⟨self, none⟩ channel).state
  | .takeOutcome rng => (self.takeOutcome rng).2

instance : SubscriptionState (AccountState π) where
  onClose self := { self with waiters := self.waiters.clear }

/-- The connection of `AccountUpdates`: the payload is read, and its id is observed at some time, by
some clock. -/
def accountKind (readId extract : String → Option ℕ) :
    Kind Option π (AccountState π) (SendClock × ℕ) where
  id := readId
  onNotification input state account payload :=
    match extract payload with
    | some id => (state.observe account id input.1 input.2).map fun state => (state, false)
    | none => some (state, false)

theorem AccountState.touch_awaitId (self : AccountState π) (id : ℕ) :
    (self.touch (.awaitId id)).pending = self.pending ∧
      (self.touch (.awaitId id)).observed = self.observed := by
  rw [touch]
  obtain ⟨r, -, haw⟩ | ⟨-, -, haw⟩ :=
    (accountObserver π).awaitId_cases ⟨self, none⟩ id
  · rw [haw]
    exact ⟨rfl, rfl⟩
  · rw [haw]
    exact ⟨rfl, rfl⟩

def AccountState.settled (self : AccountState π) : Bool := self.pending.entries.isEmpty

def awaitSettled (readId extract : String → Option ℕ) :
    Subject (Connection π (AccountState π)) (Subscription.Event π (SendClock × ℕ) (AccountTouch π))
      Events.CloseReason Unit :=
  Connection.waitFor (accountKind readId extract) AccountState.touch AccountState.settled

def awaitObserved (readId extract : String → Option ℕ) (count : ℕ) :
    Subject (Connection π (AccountState π)) (Subscription.Event π (SendClock × ℕ) (AccountTouch π))
      Events.CloseReason Unit :=
  Connection.waitFor (accountKind readId extract) AccountState.touch
    fun state => state.observed ≥ count

theorem AccountState.settled_touch (s : AccountState π) (op : AccountTouch π)
    (h : s.settled = false) : (s.touch op).settled = false := by
  cases op with
  | track id acc => rfl
  | awaitId id =>
    rw [settled, (s.touch_awaitId id).1]
    exact h
  | leave ch => exact h
  | takeOutcome rng => exact h

theorem AccountState.observed_touch (count : ℕ) (s : AccountState π) (op : AccountTouch π)
    (h : decide (s.observed ≥ count) = false) :
    decide ((s.touch op).observed ≥ count) = false := by
  cases op with
  | track id acc => exact h
  | awaitId id =>
    rw [(s.touch_awaitId id).2]
    exact h
  | leave ch => exact h
  | takeOutcome rng =>
    have hlt := of_decide_eq_false h
    refine decide_eq_false ?_
    change ¬0 ≥ count
    omega

end Accounts

/-! ### Signature confirmations -/

/-- What `SignatureConfirmations` does to its state, apart from the callback. -/
inductive SignatureTouch : Type where
  /-- `subscribe` makes an id pending -/
  | insert (id : ℕ)
  /-- `await_id`, after `check_error` -/
  | awaitId (id : ℕ)
  /-- an `await_id` is over -/
  | leave (channel : ℕ)
  /-- `finalize`, after the stream was stopped -/
  | finalize (rng : Rng)

def SignatureState.touch (self : SignatureState) : SignatureTouch → SignatureState
  | .insert id => self.insert id
  | .awaitId id => (signatureObserver.awaitId ⟨self, none⟩ id).1.state
  | .leave channel => (signatureObserver.leave ⟨self, none⟩ channel).state
  | .finalize rng => (self.finalize rng).2

instance : SubscriptionState SignatureState where
  onClose self := { self with waiters := self.waiters.clear }

/-- The connection of `SignatureConfirmations`. -/
def signatureKind [ToString ε] (readId : String → Option ℕ)
    (decode : String → Option (SignatureResult ε)) :
    Kind Option ℕ SignatureState (SendClock × ℕ) where
  id := readId
  onNotification input state id payload := some (state.observe id (decode payload) input.1 input.2)

def awaitAll [ToString ε] (readId : String → Option ℕ)
    (decode : String → Option (SignatureResult ε)) :
    Subject (Connection ℕ SignatureState) (Subscription.Event ℕ (SendClock × ℕ) SignatureTouch)
      Events.CloseReason Unit :=
  Connection.waitFor (signatureKind readId decode) SignatureState.touch
    fun state => state.pending = ∅

theorem SignatureState.pending_touch (s : SignatureState) (op : SignatureTouch)
    (h : decide (s.pending = ∅) = false) : decide ((s.touch op).pending = ∅) = false := by
  cases op with
  | insert id => exact decide_eq_false (Finset.insert_ne_empty id s.pending)
  | awaitId id =>
    rw [touch]
    obtain ⟨r, -, haw⟩ | ⟨-, -, haw⟩ :=
      signatureObserver.awaitId_cases ⟨s, none⟩ id
    · rw [haw]
      exact h
    · rw [haw]
      exact h
  | leave ch => exact h
  | finalize rng => exact h

end Ws

/-! ### All of them -/

/-- The waits of the fault scope, in any world that the module can leave behind. -/
structure FaultWaitsReturn : Prop where
  /-- `Faults::reset` -/
  reset : ∀ quote scope, NoLostWakeup (awaitDrained quote scope)
    fun w => w.Valid ∧ (w.state? scope).isSome = true
  /-- `RuleHandle::wait_hit` -/
  waitHit : ∀ quote hits, NoLostWakeup (waitHit quote hits)
    fun w => w.Valid ∧ (w.hits[hits]?).isSome = true

/-- No wait of the event stack loses its wakeup. -/
structure EventWaitsReturn (ν τ : Type) : Prop where
  /-- `await_ack`, by `typed` or by the cleanup of a subscription -/
  awaitAck : ∀ (codec : Events.Codec ν) index key,
    NoLostWakeup (Events.Connection.awaitAck codec index key)
      fun shared => Events.Connection.Waits codec index key shared.2
  /-- `await_subscribed` -/
  awaitSubscribed : ∀ (codec : Events.Codec ν) count,
    NoLostWakeup (Events.Connection.awaitSubscribed codec count)
      fun shared => Events.Connection.Reachable codec shared.2
  /-- `await_events` -/
  awaitEvents : ∀ (codec : Events.Codec ν) key count,
    NoLostWakeup (Events.Connection.awaitEvents codec key count) fun _ => True
  /-- `await_event` -/
  awaitEvent : ∀ (codec : Events.Codec ν) (decode : ν → Option τ) test key,
    NoLostWakeup (Events.Connection.awaitEvent codec decode test key) fun _ => True
  /-- `next` and `next_from` -/
  nextFrom : ∀ (codec : Events.Codec ν) (decode : Events.Topic → ν → Option τ) tasks,
    NoLostWakeup (Events.Connection.nextFrom codec decode tasks) fun _ => True

/-- The waits of a connection whatever its state is, if its owner never unsubscribes. -/
structure ConnectionWaitsReturn (κ σ ι ω : Type) [DecidableEq κ]
    [Subscription.SubscriptionState σ] : Prop where
  /-- `await_ack` -/
  awaitAck : ∀ (kind : Subscription.Kind Option κ σ ι) (touch : σ → ω → σ) key,
    NoLostWakeup (Subscription.Connection.awaitAck kind touch key)
      Subscription.Connection.Numbered
  /-- `await_subscribed` -/
  awaitSubscribed : ∀ (kind : Subscription.Kind Option κ σ ι) (touch : σ → ω → σ) count,
    NoLostWakeup (Subscription.Connection.awaitSubscribed kind touch count) fun _ => True

/-- No wait of the settlement stack loses its wakeup. -/
structure SettlementWaitsReturn (π ε : Type) [DecidableEq π] [ToString ε] : Prop where
  /-- `AccountUpdates::await_settled` -/
  awaitSettled : ∀ readId extract, NoLostWakeup (Ws.awaitSettled (π := π) readId extract)
    fun _ => True
  /-- `AccountUpdates::await_observed` -/
  awaitObserved : ∀ readId extract count,
    NoLostWakeup (Ws.awaitObserved (π := π) readId extract count) fun _ => True
  /-- `SignatureConfirmations::await_all` -/
  awaitAll : ∀ readId (decode : String → Option (Events.SignatureResult ε)),
    NoLostWakeup (Ws.awaitAll readId decode) fun _ => True

/-- **No wakeup is lost.** A wait whose state is changed without a notification only where that
gives it nothing to see always returns what it observes, however its steps, the changes and the
notifications come in between each other; and all waits are such waits. -/
theorem waits_return {π ν τ ε κ σ ι ω : Type} [DecidableEq π] [DecidableEq κ] [ToString ε]
    [Subscription.SubscriptionState σ] :
    (∀ {β γ φ α : Type} (subject : Subject β γ φ α) (kind : β → Prop),
      Announced subject kind → NoLostWakeup subject kind) ∧
    FaultWaitsReturn ∧ EventWaitsReturn ν τ ∧ ConnectionWaitsReturn κ σ ι ω ∧
      SettlementWaitsReturn π ε := by
  refine ⟨fun subject kind h => h.noLostWakeup, ⟨?_, ?_⟩, ⟨?_, ?_, ?_, ?_, ?_⟩, ⟨?_, ?_⟩,
    ⟨?_, ?_, ?_⟩⟩
  · intro quote scope
    exact (awaitDrained_announced quote scope).noLostWakeup
  · intro quote hits
    exact (waitHit_announced quote hits).noLostWakeup
  · intro codec index key
    exact (Events.Connection.awaitAck_announced codec index key).noLostWakeup
  · intro codec count
    exact (Events.Connection.awaitSubscribed_announced codec count).noLostWakeup
  · intro codec key count
    exact (Events.Connection.awaitEvents_announced codec key count).noLostWakeup
  · intro codec decode test key
    exact (Events.Connection.awaitEvent_announced codec decode test key).noLostWakeup
  · intro codec decode tasks
    exact (Events.Connection.nextFrom_announced codec decode tasks).noLostWakeup
  · intro kind touch key
    exact (Subscription.Connection.awaitAck_announced kind touch key).noLostWakeup
  · intro kind touch count
    exact (Subscription.Connection.awaitSubscribed_announced kind touch count).noLostWakeup
  · intro readId extract
    exact (Subscription.Connection.waitFor_announced _ Ws.AccountState.settled_touch).noLostWakeup
  · intro readId extract count
    exact (Subscription.Connection.waitFor_announced _
      (Ws.AccountState.observed_touch count)).noLostWakeup
  · intro readId decode
    exact (Subscription.Connection.waitFor_announced _ Ws.SignatureState.pending_touch).noLostWakeup

def hitWorld : World := finalWorld id [.openScope, .observe 0 Selector.default]

def hitState : OnChange.State World Empty Unit :=
  Machine.goOn (OnChange.State.step (waitHit id 0)) ⟨hitWorld, Notify.new, false, .looping⟩
    [.enable, .observe, .change (.gate ⟨.http, .request, "getSlot", [], []⟩), .notify]

def hitEvents : List (OnChange.Event Call) := [.poll true, .enable, .observe]

theorem hitWorld_valid : hitWorld.Valid := by
  have hrun : (runCalls id [.openScope, .observe 0 Selector.default]).run World.init =
      .ok ((), hitWorld) := run_finalWorld rfl
  exact (runCalls_changes World.valid_init hrun).valid World.valid_init

theorem hitState_stays : OnChange.Stays (waitHit id 0) hitState hitEvents := by
  intro n middle hrun hwts
  rcases n with _ | _ | _ | n
  · cases hrun
    rfl
  · cases hrun
    rfl
  · cases hrun
    rfl
  · -- the call is over
    rw [List.take_of_length_le (Nat.le_add_left 3 n)] at hrun
    cases hrun
    cases hwts

/-- A call that sleeps is woken by the hit, and returns although its time is up. -/
theorem waits_return_hit :
    hitState.phase.waits = true ∧
      ∃ result, (Machine.goOn (OnChange.State.step (waitHit id 0)) hitState hitEvents).phase =
        .returned result := by
  have hreturns := (@waits_return ℕ ℕ ℕ ℕ ℕ ℕ ℕ ℕ _ _ _ ⟨id, id⟩).2.1.waitHit id 0
    ⟨hitWorld, Notify.new, false, .looping⟩ hitState rfl ⟨hitWorld_valid, rfl⟩
    (Machine.reachable_goOn _ _) rfl rfl hitEvents
    (Machine.goOn (OnChange.State.step (waitHit id 0)) hitState hitEvents) rfl hitState_stays
  obtain ⟨result, hphase, -⟩ := hreturns.2 (Nat.le_refl 3)
  exact ⟨rfl, result, hphase⟩

end Redsuite
