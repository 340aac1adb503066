import Redsuite.Lists
import Mathlib.Data.List.Basic

/-!
# Channels of a single-threaded executor

What an asynchronous program on one thread is built from, as values.
-/

namespace Redsuite

universe u

/-- `Poll`. -/
inductive Poll (α : Type u) : Type u where
  /-- the future is done and yields its value -/
  | ready : α → Poll α
  | pending : Poll α
  deriving DecidableEq

/-! ## One value, once -/

/-- `oneshot::channel`. -/
structure Oneshot (α : Type u) : Type u where
  value : Option α
  sender : Bool
  receiver : Bool

namespace Oneshot

variable {α : Type u}

def new : Oneshot α := ⟨none, true, true⟩

/-- Send uses the sending half up. The value comes back when nobody can receive it. -/
def send (c : Oneshot α) (a : α) : Oneshot α × Option α :=
  if c.sender && c.receiver then
    ({ c with value := some a, sender := false }, none)
  else
    ({ c with sender := false }, some a)

def dropSender (c : Oneshot α) : Oneshot α := { c with sender := false }

/-- The receiving half is dropped; a value it had not taken goes with it. -/
def dropReceiver (c : Oneshot α) : Oneshot α := { c with value := none, receiver := false }

/-- Poll the receiving half: the value, or the news that no value will come. -/
def poll (c : Oneshot α) : Poll (Option α) :=
  match c.value with
  | some a => .ready (some a)
  | none => if c.sender then .pending else .ready none

/-- A value sits in the channel only after its sending half is used up. -/
def Settled (c : Oneshot α) : Prop := c.value.isSome → c.sender = false

theorem settled_new : (new : Oneshot α).Settled := by
  intro h
  cases h

variable {c : Oneshot α}

theorem Settled.send (_ : c.Settled) (a : α) : (c.send a).1.Settled := by
  unfold Oneshot.send
  split
  · exact fun _ => rfl
  · exact fun _ => rfl

theorem Settled.dropSender (_ : c.Settled) : c.dropSender.Settled :=
  fun _ => rfl

/-- A value that was sent stays the one its receiver finds: a second send comes back. -/
theorem Settled.send_value (h : c.Settled) {a b : α} (hc : c.value = some b) :
    (c.send a).1.value = some b := by
  have hs : c.sender = false := h (by rw [hc]; rfl)
  simp [Oneshot.send, hs, hc]

theorem Settled.poll_dropSender (h : c.Settled) :
    c.dropSender.poll = if c.sender then .ready none else c.poll := by
  obtain ⟨v, sender, rx⟩ := c
  cases v with
  | none => cases sender <;> rfl
  | some a =>
    have hs : sender = false := h rfl
    rw [hs]
    rfl

theorem poll_send (hrcv : c.receiver = true) (a : α) :
    (c.send a).1.poll = if c.sender then .ready (some a) else c.poll := by
  obtain ⟨v, sender, rx⟩ := c
  cases hrcv
  cases sender <;> cases v <;> rfl

theorem Settled.poll_eq_pending (h : c.Settled) : c.poll = .pending ↔ c.sender = true := by
  obtain ⟨v, sender, rx⟩ := c
  cases v with
  | none => cases sender <;> simp [poll]
  | some a =>
    have hs : sender = false := h rfl
    simp [poll, hs]

end Oneshot

/-! ## A versioned broadcast -/

/-- The sending side of a broadcast: how often it was sent to and whether a sender is
left. -/
structure Watch where
  version : ℕ
  sender : Bool

namespace Watch

def new : Watch := ⟨0, true⟩

def sendReplace (c : Watch) : Watch := { c with version := c.version + 1 }

def dropSender (c : Watch) : Watch := { c with sender := false }

/-- Poll `changed` on a receiver that has seen version `seen`: ready when the version moved on or no
sender is left to move it. -/
def changed (c : Watch) (seen : ℕ) : Poll Unit :=
  if c.version ≠ seen ∨ c.sender = false then .ready () else .pending

theorem changed_of_lt {c : Watch} {seen : ℕ} (h : seen < c.version) :
    c.changed seen = .ready () := by
  rw [changed, if_pos (Or.inl (Nat.ne_of_gt h))]

theorem changed_of_dropped {c : Watch} (seen : ℕ) (h : c.sender = false) :
    c.changed seen = .ready () := by
  rw [changed, if_pos (Or.inr h)]

end Watch

/-! ## Waking whoever waits -/

/-- A broadcast without memory: tasks waiting when the count moves are woken. -/
structure Notify where
  /-- how often the waiting tasks were woken -/
  count : ℕ
  deriving DecidableEq

namespace Notify

def new : Notify := ⟨0⟩

def notifyWaiters (n : Notify) : Notify := ⟨n.count + 1⟩

/-- Poll a future that was enabled when the count was `seen`: a broadcast since then has made it
ready, whether the task slept or not. -/
def notified (n : Notify) (seen : ℕ) : Poll Unit :=
  if n.count ≠ seen then .ready () else .pending

theorem notified_of_lt {n : Notify} {seen : ℕ} (h : seen < n.count) :
    n.notified seen = .ready () := by
  rw [notified, if_pos (Nat.ne_of_gt h)]

end Notify

end Redsuite
