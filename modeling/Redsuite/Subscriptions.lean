import Redsuite.OnChange
import Redsuite.Router

/-!
# Subscription connections

`Connection` of `core/src/transport/subscription.rs` for any state, as far as its waits depend on it.
-/

namespace Redsuite

namespace Subscription

open Events (CloseReason Envelope Notification parse)
open OnChange (Announced)

variable {κ σ ι ω α : Type}

/-! ### The reader -/

namespace Router

variable {kind : Kind Option κ σ ι} {input : ι} {self after : Router κ σ}

/-- What the reader does to the requests: it takes out those that are answered. -/
def Answers (before after : Router κ σ) : Prop :=
  ∀ id request, after.requests.lookup id = some request →
    before.requests.lookup id = some request

theorem Answers.of_eq (h : after.requests = self.requests) : Answers self after := by
  intro id req hlk
  rwa [h] at hlk

/-- One turn of the reader's loop; the error of a dispatch ends the loop, and the router is closed
before the reader awaits anything. -/
def read [SubscriptionState σ] (kind : Kind Option κ σ ι) (input : ι) (self : Router κ σ)
    (envelope : Option Envelope) : Option (Router κ σ) :=
  match parse envelope with
  | .error reason => some (self.close reason)
  | .ok none => some self
  | .ok (some frame) => do
    match ← self.dispatch kind input frame with
    | (after, some reason) => some (after.close reason)
    | (after, none) => some after

theorem of_dispatchNotification {params : Notification}
    (h : self.dispatchNotification kind input params = some after) :
    after = self ∨ after.changed = self.changed.notifyWaiters ∧ Answers self after := by
  rw [dispatchNotification] at h
  split at h
  · cases h
    exact .inl rfl
  · obtain ⟨outcome, -, h⟩ := Option.bind_eq_some_iff.mp h
    cases h
    exact .inr ⟨rfl, .of_eq rfl⟩

/-- **What a turn of the reader's loop can do**: nothing at all, or something that it announces. -/
theorem read_spec [SubscriptionState σ] {env : Option Envelope}
    (h : self.read kind input env = some after) :
    after = self ∨ after.changed = self.changed.notifyWaiters ∧ Answers self after := by
  rw [read] at h
  split at h
  · cases h
    exact .inr ⟨rfl, .of_eq rfl⟩
  · cases h
    exact .inl rfl
  · rename_i frame _
    obtain ⟨⟨middle, reason⟩, hdispatch, h⟩ := Option.bind_eq_some_iff.mp h
    cases frame with
    | reply id r =>
      have hanss : Answers self (self.answered id) :=
        fun _ _ hlk => (Table.of_lookup_erase hlk).2
      have hreplied := self.dispatchReply_replied kind.id id r
      rw [dispatch] at hdispatch
      rw [Option.some.inj hdispatch] at hreplied
      cases hreplied with
      | acknowledged | refused | settled =>
        cases h
        exact .inr ⟨rfl, hanss⟩
    | notification method params =>
      obtain ⟨routed, hrouted, hpair⟩ := Option.bind_eq_some_iff.mp hdispatch
      cases hpair
      cases h
      exact of_dispatchNotification hrouted
    | malformed =>
      cases hdispatch
      cases h
      exact .inr ⟨rfl, .of_eq rfl⟩

end Router

/-! ### The connection -/

/-- `Connection`, as far as its waits depend on it. -/
structure Connection (κ σ : Type) where
  router : Router κ σ
  nextId : ℕ

/-- What can happen next. -/
inductive Event (κ ι ω : Type) : Type where
  /-- `Connection::subscribe` up to its first await; the rest does not touch the router -/
  | subscribe (key : κ)
  /-- the owner does something to the state, through `state_mut` -/
  | touch (op : ω)
  /-- a text of the server, with what else the callback reads -/
  | frame (input : ι) (envelope : Option Envelope)
  | ended (reason : CloseReason)
  /-- `Connection::stop` -/
  | stop

namespace Connection

def connect (state : σ) : Connection κ σ := ⟨.new state, 1⟩

/-- `Connection::subscribe` up to its first await. -/
def subscribe (self : Connection κ σ) (key : κ) : Connection κ σ :=
  ⟨self.router.register self.nextId key, self.nextId + 1⟩

/-- **One step**; nothing where it cannot happen. The reader reads until the connection has ended,
and the owner never panics. -/
def step [SubscriptionState σ] (kind : Kind Option κ σ ι) (touch : σ → ω → σ)
    (self : Connection κ σ) :
    Event κ ι ω → Option (Connection κ σ)
  | .subscribe key => some (self.subscribe key)
  | .touch op => some { self with router.state := touch self.router.state op }
  | .frame input envelope =>
    match self.router.error with
    | some _ => none
    | none => (self.router.read kind input envelope).map fun router => { self with router }
  | .ended reason =>
    match self.router.error with
    | some _ => none
    | none => some { self with router := self.router.close reason }
  | .stop => some { self with router := self.router.close .streamEnded }

variable {kind : Kind Option κ σ ι} {touch : σ → ω → σ} {self after : Connection κ σ}

/-- What one step does, case by case. -/
inductive Change (touch : σ → ω → σ) (self : Connection κ σ) : Connection κ σ → Prop where
  | subscribed (key : κ) : Change touch self (self.subscribe key)
  | touched (op : ω) : Change touch self { self with router.state := touch self.router.state op }
  | ignored : Change touch self self
  | announced {router : Router κ σ} (hchanged : router.changed = self.router.changed.notifyWaiters)
      (hanswers : Router.Answers self.router router) : Change touch self { self with router }

theorem step_change [SubscriptionState σ] {ev : Event κ ι ω}
    (h : self.step kind touch ev = some after) :
    Change touch self after := by
  cases ev with
  | subscribe key =>
    cases h
    exact .subscribed key
  | touch op =>
    cases h
    exact .touched op
  | frame input env =>
    simp only [step] at h
    split at h
    · cases h
    · obtain ⟨router, hrd, rfl⟩ := Option.map_eq_some_iff.mp h
      rcases Router.read_spec hrd with rfl | ⟨hchd, hanss⟩
      · exact .ignored
      · exact .announced hchd hanss
  | ended reason =>
    simp only [step] at h
    split at h
    · cases h
    · cases h
      exact .announced rfl (.of_eq rfl)
  | stop =>
    cases h
    exact .announced rfl (.of_eq rfl)

/-- The ids in use are below the next one. -/
def Numbered (connection : Connection κ σ) : Prop :=
  ∀ id request, connection.router.requests.lookup id = some request → id < connection.nextId

theorem Numbered.change (h : Numbered self) (hch : Change touch self after) :
    Numbered after := by
  cases hch with
  | subscribed key =>
    intro id req hlk
    obtain ⟨rfl, -⟩ | ⟨-, hlk⟩ := Table.of_lookup_insert hlk
    · exact Nat.lt_succ_self _
    · exact Nat.lt_succ_of_lt (h id req hlk)
  | touched op => exact h
  | ignored => exact h
  | announced hchd hanss =>
    intro id req hlk
    exact h id req (hanss id req hlk)

/-! ### The waits -/

variable [SubscriptionState σ]

/-- `Connection::wait`: `check_error`, and then whatever is looked for. -/
def wait (kind : Kind Option κ σ ι) (touch : σ → ω → σ) (look : Router κ σ → Option α) :
    Subject (Connection κ σ) (Event κ ι ω) CloseReason α where
  change := step kind touch
  announces self event :=
    match self.step kind touch event with
    | some after => after.router.changed ≠ self.router.changed
    | none => false
  observe self :=
    (match self.router.error with
      | some reason => .error reason
      | none => .ok (look self.router), self)

theorem result_eq_none {look : Router κ σ → Option α} :
    (wait kind touch look).result self = none ↔
      self.router.error = none ∧ look self.router = none := by
  rw [Subject.result]
  cases herr : self.router.error with
  | some reason => simp [wait, herr, answered]
  | none =>
    cases hlook : look self.router with
    | some v | none => simp [wait, herr, hlook, answered]

/-- **A wait of a connection** is told of everything but subscriptions and what the owner does: it
must not wait for these. -/
theorem wait_announced {look : Router κ σ → Option α} {valid : Connection κ σ → Prop}
    (hvalid : ∀ {self after}, valid self → Change touch self after → valid after)
    (hsubscribe : ∀ {self} key, valid self → look self.router = none →
      look (self.subscribe key).router = none)
    (htouch : ∀ {self : Connection κ σ} op, valid self → look self.router = none →
      look { self.router with state := touch self.router.state op } = none) :
    Announced (wait kind touch look) valid where
  changes hself hst := hvalid hself (step_change hst)
  looks hself := hself
  quiet := by
    intro self after ev hself hst hq hn
    obtain ⟨herr, hlook⟩ := result_eq_none.mp hn
    have hchd : after.router.changed = self.router.changed := by
      change self.step kind touch ev = some after at hst
      simpa [wait, hst] using hq
    cases step_change hst with
    | subscribed key => exact result_eq_none.mpr ⟨herr, hsubscribe key hself hlook⟩
    | touched op => exact result_eq_none.mpr ⟨herr, htouch op hself hlook⟩
    | ignored => exact hn
    | announced hnotified hanss =>
      rw [hnotified] at hchd
      exact absurd (congrArg Notify.count hchd) (Nat.succ_ne_self _)
  vain _ hn := hn

/-- `await_ack`: no subscribe for the key is outstanding. -/
def awaitAck [DecidableEq κ] (kind : Kind Option κ σ ι) (touch : σ → ω → σ) (key : κ) :
    Subject (Connection κ σ) (Event κ ι ω) CloseReason Unit :=
  wait kind touch fun router =>
    if router.pending key then none else some ()

def awaitSubscribed (kind : Kind Option κ σ ι) (touch : σ → ω → σ) (count : ℕ) :
    Subject (Connection κ σ) (Event κ ι ω) CloseReason Unit :=
  wait kind touch fun router => if router.subscribed ≥ count then some () else none

def waitFor (kind : Kind Option κ σ ι) (touch : σ → ω → σ) (done : σ → Bool) :
    Subject (Connection κ σ) (Event κ ι ω) CloseReason Unit :=
  wait kind touch fun router => if done router.state then some () else none

theorem awaitAck_announced [DecidableEq κ] (kind : Kind Option κ σ ι) (touch : σ → ω → σ)
    (key : κ) :
    Announced (awaitAck kind touch key) Numbered := by
  refine wait_announced (fun hself hch => hself.change hch) ?_ ?_
  · intro self other hself hlook
    split at hlook
    · rename_i hpd
      obtain ⟨id, hlk⟩ := Router.pending_iff.mp hpd
      have hlt := hself id _ hlk
      refine if_pos (Router.pending_iff.mpr ⟨id, ?_⟩)
      change (self.router.requests.insert self.nextId _).lookup id = _
      rw [Table.lookup_insert_iff, if_neg (Nat.ne_of_lt hlt), hlk]
    · cases hlook
  · intro self op _ hlook
    exact hlook

theorem awaitSubscribed_announced (kind : Kind Option κ σ ι) (touch : σ → ω → σ) (count : ℕ) :
    Announced (awaitSubscribed kind touch count) fun _ => True :=
  wait_announced (fun _ _ => trivial) (fun _ _ hlook => hlook) (fun _ _ hlook => hlook)

theorem waitFor_announced (kind : Kind Option κ σ ι) {touch : σ → ω → σ} {done : σ → Bool}
    (h : ∀ s op, done s = false → done (touch s op) = false) :
    Announced (waitFor kind touch done) fun _ => True := by
  refine wait_announced (fun _ _ => trivial) (fun _ _ hlook => hlook) ?_
  intro self op _ hlook
  split at hlook
  · cases hlook
  · rename_i hd
    refine if_neg ?_
    rw [h _ op (Bool.eq_false_iff.mpr hd)]
    exact Bool.false_ne_true

end Connection

end Subscription

end Redsuite
