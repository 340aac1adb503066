import Redsuite.Channel
import Redsuite.Table

/-!
# Frames and the router

Frames as `core/src/transport/socket.rs` reads them, and the `Router` of
`core/src/transport/subscription.rs`.
-/

namespace Redsuite

namespace Events

/-! ### Frames -/

/-- The error object of a reply. -/
structure ServerError where
  /-- the JSON-RPC error code -/
  code : ℤ
  /-- the text that comes with it -/
  message : String
  deriving DecidableEq

/-- The code of `ErrorCode::InvalidParams`. -/
def invalidParams : ℤ := -32602

/-- `CloseReason`: why a connection has ended. -/
inductive CloseReason : Type where
  /-- a close frame of the server -/
  | serverClose
  /-- the stream is over, or the connection was stopped -/
  | streamEnded
  /-- the socket failed -/
  | transport (message : String)
  /-- a request was answered with an error, or the server sent one without an id -/
  | serverError (error : ServerError)
  /-- an acknowledgment without a subscription id -/
  | invalidReply
  deriving DecidableEq

/-- The parameters of a notification; the result is left unparsed. -/
structure Notification where
  /-- the server's id of the subscription -/
  subscription : ℕ
  /-- the payload -/
  result : String

/-- `Envelope`: what a text of the server can hold. -/
structure Envelope where
  /-- `method` -/
  method : Option String
  /-- `id` -/
  id : Option ℕ
  /-- `result`, unparsed -/
  result : Option String
  /-- `error` -/
  error : Option ServerError
  /-- `params` -/
  params : Option Notification

/-- `Frame`: what a text of the server is read as. -/
inductive Frame : Type where
  /-- the answer to a request -/
  | reply (id : ℕ) (result : Except ServerError String)
  /-- news of a subscription -/
  | notification (method : String) (params : Notification)
  /-- a text that is no envelope -/
  | malformed

/-- `parse`; the argument is `none` where the text is no envelope. -/
def parse : Option Envelope → Except CloseReason (Option Frame)
  | none => .ok (some .malformed)
  | some envelope =>
    match envelope.error with
    | some error =>
      match envelope.id with
      | some id => .ok (some (.reply id (.error error)))
      | none => .error (.serverError error)
    | none =>
      match envelope.method, envelope.params, envelope.id, envelope.result with
      | some method, some params, _, _ => .ok (some (.notification method params))
      | none, _, some id, some result => .ok (some (.reply id (.ok result)))
      | _, _, _, _ => .ok none

end Events

namespace Subscription

open Events (CloseReason ServerError Envelope Frame Notification invalidParams parse)

/-! ### The router -/

/-- `SubscriptionState`, with the defaults of the trait. Nobody implements `on_subscribed`. -/
class SubscriptionState (σ : Type) where
  /-- `on_malformed` -/
  onMalformed : σ → σ := id
  /-- `on_close` -/
  onClose : σ → σ := id

/-- What a connection brings to its router. The callback may panic where `m` is `Option`, and not
where it is `Id`. -/
structure Kind (m : Type → Type) (κ σ ι : Type) where
  /-- the JSON library, for the id in an acknowledgment -/
  id : String → Option ℕ
  /-- the callback given to `Connection::connect`, with what else it reads; the flag says whether
  the subscription is over -/
  onNotification : ι → σ → κ → String → m (σ × Bool)

/-- `Request`: what a reply is awaited for. -/
inductive Request (κ : Type) : Type where
  /-- a subscription for this key -/
  | subscribe (key : κ)
  /-- the end of one -/
  | unsubscribe
  deriving DecidableEq

/-- `Router`: who waits for which reply, and which subscription belongs to whom. -/
structure Router (κ σ : Type) where
  /-- what the notifications go to -/
  state : σ
  /-- the requests that were not answered -/
  requests : Table ℕ (Request κ)
  /-- the keys by the server's ids -/
  subscriptions : Table ℕ κ
  /-- how many subscriptions were acknowledged -/
  subscribed : ℕ
  /-- the request that was answered last -/
  lastReply : Option ℕ
  /-- why the connection has ended -/
  error : Option CloseReason
  /-- what the waits of the connection sleep on -/
  changed : Notify

variable {m : Type → Type} {κ σ ι : Type}

namespace Router

/-- A router without requests and subscriptions. -/
def new (state : σ) : Router κ σ := ⟨state, ∅, ∅, 0, none, none, Notify.new⟩

/-- `Router::register`. -/
def register (self : Router κ σ) (request : ℕ) (key : κ) : Router κ σ :=
  { self with requests := self.requests.insert request (.subscribe key) }

/-- `notify_waiters` on `changed`. -/
def notify (self : Router κ σ) : Router κ σ :=
  { self with changed := self.changed.notifyWaiters }

/-- A request is answered. -/
def answered (self : Router κ σ) (id : ℕ) : Router κ σ :=
  { self with lastReply := some id, requests := self.requests.erase id }

/-- A subscription is acknowledged. -/
def acknowledge (self : Router κ σ) (id subscription : ℕ) (key : κ) : Router κ σ :=
  { self.answered id with
    subscriptions := self.subscriptions.insert subscription key
    subscribed := self.subscribed + 1 }.notify

/-- The arm of `dispatch` for a reply. An error returns before the broadcast. -/
def dispatchReply (readId : String → Option ℕ) (self : Router κ σ) (id : ℕ)
    (result : Except ServerError String) : Router κ σ × Option CloseReason :=
  match self.requests.lookup id, result with
  | some (.subscribe key), .ok result =>
    match readId result with
    | some subscription => (self.acknowledge id subscription key, none)
    | none => (self.answered id, some .invalidReply)
  | some .unsubscribe, .error error =>
    if error.code = invalidParams ∧ error.message = "Invalid subscription id." then
      ((self.answered id).notify, none)
    else (self.answered id, some (.serverError error))
  | _, .error error => (self.answered id, some (.serverError error))
  | _, .ok _ => ((self.answered id).notify, none)

/-- The arm of `dispatch` for a notification. One for nobody returns before the broadcast. -/
def dispatchNotification [Monad m] (kind : Kind m κ σ ι) (input : ι) (self : Router κ σ)
    (params : Notification) : m (Router κ σ) :=
  match self.subscriptions.lookup params.subscription with
  | none => pure self
  | some key => do
    let (state, isOver) ← kind.onNotification input self.state key params.result
    let subscriptions :=
      if isOver then self.subscriptions.erase params.subscription else self.subscriptions
    pure { self with state, subscriptions }.notify

/-- `Router::dispatch`, with the error it returns. -/
def dispatch [Monad m] [SubscriptionState σ] (kind : Kind m κ σ ι) (input : ι)
    (self : Router κ σ) : Frame → m (Router κ σ × Option CloseReason)
  | .reply id result => pure (self.dispatchReply kind.id id result)
  | .notification _ params => do
    let after ← self.dispatchNotification kind input params
    pure (after, none)
  | .malformed =>
    pure ({ self with state := SubscriptionState.onMalformed self.state }.notify, none)

/-- `Router::close`. -/
def close [SubscriptionState σ] (self : Router κ σ) (reason : CloseReason) : Router κ σ :=
  { self with error := some reason, state := SubscriptionState.onClose self.state }.notify

/-- A subscribe for this key was not answered: what `await_ack` waits for to end. -/
def pending [DecidableEq κ] (self : Router κ σ) (key : κ) : Bool :=
  self.requests.any fun request => request = .subscribe key

theorem pending_iff [DecidableEq κ] {self : Router κ σ} {key : κ} : self.pending key = true ↔
    ∃ id, self.requests.lookup id = some (.subscribe key) := by
  rw [pending, Table.any_iff]
  constructor
  · rintro ⟨id, request, hlk, htest⟩
    obtain rfl : request = .subscribe key := by simpa using htest
    exact ⟨id, hlk⟩
  · rintro ⟨id, hlk⟩
    exact ⟨id, _, hlk, by simp⟩

theorem pending_eq_false [DecidableEq κ] {self : Router κ σ} {key : κ} :
    self.pending key = false ↔ ∀ id, self.requests.lookup id ≠ some (.subscribe key) := by
  rw [← Bool.not_eq_true, pending_iff]
  exact not_exists

/-- **What a reply can do**, with what the code has checked before. -/
inductive Replied (readId : String → Option ℕ) (self : Router κ σ) (id : ℕ)
    (result : Except ServerError String) : Router κ σ × Option CloseReason → Prop where
  | acknowledged {key : κ} {text : String} {subscription : ℕ}
      (hrequest : self.requests.lookup id = some (.subscribe key)) (hresult : result = .ok text)
      (hid : readId text = some subscription) :
      Replied readId self id result (self.acknowledge id subscription key, none)
  /-- the connection ends -/
  | refused (reason : CloseReason)
      (hunread : ∀ text key, result = .ok text →
        self.requests.lookup id = some (.subscribe key) → readId text = none) :
      Replied readId self id result (self.answered id, some reason)
  /-- nobody subscribed with this request -/
  | settled (hother : ∀ key, self.requests.lookup id ≠ some (.subscribe key)) :
      Replied readId self id result ((self.answered id).notify, none)

theorem dispatchReply_replied (readId : String → Option ℕ) (self : Router κ σ) (id : ℕ)
    (result : Except ServerError String) :
    Replied readId self id result (self.dispatchReply readId id result) := by
  cases result with
  | ok text =>
    rcases hreq : self.requests.lookup id with _ | key | _
    · simp only [dispatchReply, hreq]
      exact .settled (by simp [hreq])
    · cases hid : readId text with
      | some subscription =>
        simp only [dispatchReply, hreq, hid]
        exact .acknowledged hreq rfl hid
      | none =>
        simp only [dispatchReply, hreq, hid]
        exact .refused _ (by rintro _ _ ⟨⟩ -; exact hid)
    · simp only [dispatchReply, hreq]
      exact .settled (by simp [hreq])
  | error error =>
    rcases hreq : self.requests.lookup id with _ | key | _
    · simp only [dispatchReply, hreq]
      exact .refused _ (by rintro _ _ ⟨⟩)
    · simp only [dispatchReply, hreq]
      exact .refused _ (by rintro _ _ ⟨⟩)
    · simp only [dispatchReply, hreq]
      split
      · exact .settled (by simp [hreq])
      · exact .refused _ (by rintro _ _ ⟨⟩)

end Router

end Subscription

end Redsuite
