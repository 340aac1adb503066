import Redsuite.Events
import Redsuite.Machine
import Mathlib.Data.List.Induction
import Mathlib.Data.Option.Basic

/-!
# Cleaning up after a subscription

Dropping a `Subscription` removes its buffer and spawns a cleanup, which waits for the
acknowledgment, takes the route away and unsubscribes.
-/

namespace Redsuite

open List Table

namespace Events

variable {ν : Type} {codec : Codec ν}

namespace Connection

/-! ### What a step can do -/

/-- **What one step does**, with what the code has checked before. -/
inductive Change (codec : Codec ν) (self : Connection ν) : Event → Connection ν → Prop where
  | subscribed (typed : Bool) (topic : Topic) (params : String) :
      Change codec self (.subscribe typed topic params) (self.subscribe typed topic params)
  /-- a subscribe request is given to the sink -/
  | locked {index : ℕ} {task : Task} (htask : self.tasks[index]? = some task)
      (hphase : task.phase = .locking) (hfree : self.sinkFree = true) :
      Change codec self (.locked index)
        ((self.move index task .sending).send task.request (.subscribe task.topic task.params))
  /-- an unsubscribe request is given to the sink -/
  | unlocked {index : ℕ} {task : Task} {id subscription : ℕ}
      (htask : self.tasks[index]? = some task) (hphase : task.phase = .unlocking id subscription)
      (hfree : self.sinkFree = true) :
      Change codec self (.locked index)
        ({ self with router.requests := self.router.requests.insert id .unsubscribe }.move index
          task (.unsending id subscription) |>.send id (.unsubscribe task.topic subscription))
  | sent {index : ℕ} {task : Task} (htask : self.tasks[index]? = some task)
      (hphase : task.phase = .sending) :
      Change codec self (.sent index true) ({ self with lastSent := task.request }.move index task
        (if task.typed then .acking else .kept))
  /-- an unsubscribe request was sent, or could not be sent -/
  | unsent {index : ℕ} {task : Task} {id subscription : ℕ}
      (htask : self.tasks[index]? = some task) (hphase : task.phase = .unsending id subscription)
      (ok : Bool) (lastSent : ℕ) :
      Change codec self (.sent index ok) ({ self with lastSent }.move index task .done)
  /-- a subscription is dropped, or its opening call ends early -/
  | gaveUp {event : Event} {index : ℕ} {task : Task} (htask : self.tasks[index]? = some task)
      (hphase : task.phase = .locking ∨ task.phase = .sending ∨ task.phase = .acking ∨
        task.phase = .held)
      (hevent : event = .drop index ∨
        task.phase ≠ .held ∧ (event = .sent index false ∨ event = .failed index)) :
      Change codec self event (self.giveUp index task)
  /-- the opening call sees the acknowledgment -/
  | acknowledged {index : ℕ} {task : Task} (htask : self.tasks[index]? = some task)
      (hphase : task.phase = .acking) (hopen : self.router.error = none)
      (hpending : self.router.pending task.name = false) :
      Change codec self (.acknowledged index) (self.move index task .held)
  | released {index : ℕ} {task : Task} (route : Option ℕ) (htask : self.tasks[index]? = some task)
      (hphase : task.phase = .leaving) (hopen : self.router.error = none)
      (hpending : self.router.pending task.name = false) (hfinds : self.Finds task route) :
      Change codec self (.released index route) (self.release index task route)
  | abandoned {index : ℕ} {task : Task} (htask : self.tasks[index]? = some task)
      (hphase : task.phase = .leaving)
      (hfail : self.router.error.isSome = true ∨ self.router.pending task.name = true) :
      Change codec self (.failed index) (self.abandon index task)
  | popped {index : ℕ} {task : Task} {event : ν} {state : EventBuffer ν}
      (htask : self.tasks[index]? = some task) (hphase : task.phase = .held)
      (hpop : self.router.state.pop task.key = some (event, state)) :
      Change codec self (.pop index)
        { self with router.state := state, log := self.log ++ [.taken task.key event] }
  | read (envelope : Option Envelope) (hopen : self.router.error = none) :
      Change codec self (.frame envelope) (self.read codec envelope)
  | closed {event : Event} (reason : CloseReason)
      (hevent : event = .ended reason ∨ event = .stop) :
      Change codec self event (self.close reason)

variable {self after : Connection ν} {ev : Event}

theorem step_change (h : self.step codec ev = some after) : Change codec self ev after := by
  cases ev with
  | subscribe typed topic params =>
    cases h
    exact .subscribed typed topic params
  | locked index =>
    obtain ⟨task, ht, h⟩ := Option.bind_eq_some_iff.mp h
    obtain ⟨hfree, h⟩ := of_guard h
    split at h
    · rename_i hp
      cases h
      exact .locked ht hp hfree
    · rename_i hp
      cases h
      exact .unlocked ht hp hfree
    · cases h
  | sent index ok =>
    obtain ⟨task, ht, h⟩ := Option.bind_eq_some_iff.mp h
    split at h
    · rename_i hp
      cases ok with
      | true =>
        cases h
        exact .sent ht hp
      | false =>
        cases h
        exact .gaveUp ht (.inr (.inl hp)) (.inr ⟨by simp [hp], .inl rfl⟩)
    · rename_i hp
      cases h
      exact .unsent ht hp ok _
    · cases h
  | acknowledged index =>
    obtain ⟨task, ht, h⟩ := Option.bind_eq_some_iff.mp h
    obtain ⟨hgd, h⟩ := of_guard h
    obtain ⟨hopen, hpd⟩ : self.router.error = none ∧
      self.router.pending task.name = false := by simpa using hgd
    split at h
    · rename_i hp
      cases h
      exact .acknowledged ht hp hopen hpd
    · cases h
  | released index route =>
    obtain ⟨task, ht, h⟩ := Option.bind_eq_some_iff.mp h
    obtain ⟨hgd, h⟩ := of_guard h
    obtain ⟨hopen, hpd⟩ : self.router.error = none ∧
      self.router.pending task.name = false := by simpa using hgd
    obtain ⟨hfinds, h⟩ := of_guard h
    split at h
    · rename_i hp
      cases h
      exact .released route ht hp hopen hpd hfinds
    · cases h
  | failed index =>
    obtain ⟨task, ht, h⟩ := Option.bind_eq_some_iff.mp h
    obtain ⟨hgd, h⟩ := of_guard h
    split at h
    · rename_i hp
      cases h
      exact .gaveUp ht (.inr (.inr (.inl hp))) (.inr ⟨by simp [hp], .inr rfl⟩)
    · rename_i hp
      cases h
      exact .abandoned ht hp (by simpa using hgd)
    · cases h
  | drop index =>
    obtain ⟨task, ht, h⟩ := Option.bind_eq_some_iff.mp h
    have hp : task.phase = .locking ∨ task.phase = .sending ∨ task.phase = .acking ∨
        task.phase = .held := by
      cases hp : task.phase <;> simp_all
    have haf : some (self.giveUp index task) = some after := by
      rcases hp with hp | hp | hp | hp <;> simpa only [hp] using h
    cases haf
    exact .gaveUp ht hp (.inl rfl)
  | pop index =>
    obtain ⟨task, ht, h⟩ := Option.bind_eq_some_iff.mp h
    split at h
    · rename_i hp
      obtain ⟨⟨ev, s⟩, hpop, rfl⟩ := Option.map_eq_some_iff.mp h
      exact .popped ht hp hpop
    · cases h
  | frame env =>
    obtain ⟨hgd, h⟩ := of_guard h
    cases h
    exact .read env (by simpa using hgd)
  | ended reason =>
    obtain ⟨-, h⟩ := of_guard h
    cases h
    exact .closed reason (.inl rfl)
  | stop =>
    cases h
    exact .closed .streamEnded (.inr rfl)

end Connection

/-! ### What it does to the router -/

theorem EventBuffer.pop_some {s after : EventBuffer ν} {key : ℕ} {ev : ν}
    (h : s.pop key = some (ev, after)) : ∃ rest,
      s.byKey.lookup key = some (ev :: rest) ∧
      after = { s with byKey := s.byKey.insert key rest } := by
  simp only [EventBuffer.pop] at h
  split at h
  · split at h
    · rename_i taken rest hbuf
      cases h
      exact ⟨rest, hbuf, rfl⟩
    · cases h
  · cases h

namespace Router

variable {self after : Router ν} {key : Key}

/-- **Nothing of a subscription is left**: no request, no route and no buffer. -/
structure Gone (router : Router ν) (key : Key) : Prop where
  request : ∀ id, router.requests.lookup id ≠ some (.subscribe key)
  route : ∀ id, router.subscriptions.lookup id ≠ some key
  buffer : router.state.byKey.lookup key.1 = none

/-- The router holds no more than before. -/
structure Less (before after : Router ν) : Prop where
  requests : ∀ id key, after.requests.lookup id = some (.subscribe key) →
    before.requests.lookup id = some (.subscribe key) := by exact fun _ _ h => h
  routes : ∀ id key, after.subscriptions.lookup id = some key →
    before.subscriptions.lookup id = some key := by exact fun _ _ h => h
  buffers : ∀ number, before.state.byKey.lookup number = none →
    after.state.byKey.lookup number = none := by exact fun _ h => h
  last : after.state.lastKey = before.state.lastKey := by rfl
  error : after.error = none → before.error = none := by exact fun h => h

theorem Less.refl : Less self self := { }

/-- A key is made, and a request for it registered. -/
def opening (self : Router ν) (request : ℕ) (topic : Topic) : Router ν :=
  { self with state := self.state.register.2 }.register request (self.state.register.1, topic)

theorem Less.trans {last : Router ν} (h : Less self after) (h' : Less after last) :
    Less self last :=
  ⟨fun id key hr => h.requests id key (h'.requests id key hr),
    fun id key hr => h.routes id key (h'.routes id key hr),
    fun n hb => h'.buffers n (h.buffers n hb), h'.last.trans h.last,
    fun he => h.error (h'.error he)⟩

/-- **What can come of a step**: something new comes only from a call that opens a subscription, and
from an acknowledgment of an outstanding request. -/
inductive Outcome (before : Router ν) : Router ν → Prop where
  | less {after : Router ν} (h : Less before after) : Outcome before after
  | acknowledged {id subscription : ℕ} {key : Key}
      (hrequest : before.requests.lookup id = some (.subscribe key)) :
      Outcome before (before.acknowledge id subscription key)
  | opened (request : ℕ) (topic : Topic) : Outcome before (before.opening request topic)

theorem less_reply (id : ℕ) :
    Less self (self.answered id) where
  requests _ _ h := (of_lookup_erase h).2

theorem observe_buffers (codec : Codec ν) (s : EventBuffer ν) (key : Key) (pl : String)
    {n : ℕ} (h : s.byKey.lookup n = none) :
    (s.observe codec key pl).1.byKey.lookup n = none := by
  simp only [EventBuffer.observe]
  split
  · split
    · rename_i evs hevs
      rw [lookup_insert_iff, if_neg, h]
      rintro rfl
      cases h.symm.trans hevs
    · exact h
  · exact h

theorem observe_last (codec : Codec ν) (s : EventBuffer ν) (key : Key) (pl : String) :
    (s.observe codec key pl).1.lastKey = s.lastKey := by
  simp only [EventBuffer.observe]
  split
  · split <;> rfl
  · rfl

theorem less_notification (codec : Codec ν) (params : Notification) :
    Less self (self.dispatchNotification codec params) := by
  cases hrt : self.subscriptions.lookup params.subscription with
  | none =>
    rw [dispatchNotification_none hrt]
    exact .refl
  | some key =>
    rw [dispatchNotification_some hrt]
    refine { routes id owner h := ?_,
             buffers _ := observe_buffers codec _ _ _, last := observe_last codec _ _ _ }
    change (if _ then _ else _ : Table ℕ Key).lookup id = some owner at h
    split at h
    · exact (of_lookup_erase h).2
    · exact h

/-- **A frame** adds nothing, unless it acknowledges a request. -/
theorem dispatch_outcome (codec : Codec ν) (frame : Frame) :
    Less self (self.dispatch codec frame).1 ∨ ∃ id subscription key,
      self.requests.lookup id = some (.subscribe key) ∧
      self.dispatch codec frame = (self.acknowledge id subscription key, none) := by
  cases frame with
  | reply id r =>
    rw [dispatch_reply]
    have hreplied := self.dispatchReply_replied codec.id id r
    generalize self.dispatchReply codec.id id r = outcome at hreplied ⊢
    cases hreplied with
    | acknowledged hreq hr hid => exact Or.inr ⟨id, _, _, hreq, rfl⟩
    | refused => exact Or.inl (less_reply id)
    | settled => exact Or.inl { requests := (less_reply id).requests }
  | notification method params => exact Or.inl (less_notification codec params)
  | malformed => exact Or.inl { }

theorem less_close (reason : CloseReason) : Less self (self.close reason) where
  error h := by cases h

theorem Outcome.request (h : Outcome self after) (hk : key.1 ≤ self.state.lastKey)
    (hn : ∀ id, self.requests.lookup id ≠ some (.subscribe key)) (id : ℕ) :
    after.requests.lookup id ≠ some (.subscribe key) := by
  intro hid
  cases h with
  | less hless => exact hn id (hless.requests id key hid)
  | @acknowledged answered sub other hreq =>
    exact hn id ((less_reply answered).requests id key hid)
  | opened req topic =>
    obtain ⟨-, heq⟩ | ⟨-, hid⟩ := of_lookup_insert hid
    · cases heq
      exact Nat.not_succ_le_self _ hk
    · exact hn id hid

theorem Outcome.route (h : Outcome self after)
    (hreq : ∀ id, self.requests.lookup id ≠ some (.subscribe key))
    (hn : ∀ id, self.subscriptions.lookup id ≠ some key) (id : ℕ) :
    after.subscriptions.lookup id ≠ some key := by
  intro hid
  cases h with
  | less hless => exact hn id (hless.routes id key hid)
  | @acknowledged answered sub other hanswered =>
    obtain ⟨-, rfl⟩ | ⟨-, hid⟩ := of_lookup_insert hid
    · exact hreq answered hanswered
    · exact hn id hid
  | opened req topic => exact hn id hid

theorem Outcome.buffer (h : Outcome self after) {n : ℕ} (hle : n ≤ self.state.lastKey)
    (hn : self.state.byKey.lookup n = none) : after.state.byKey.lookup n = none := by
  cases h with
  | less hless => exact hless.buffers n hn
  | acknowledged hreq => exact hn
  | opened req topic =>
    change (self.state.byKey.insert (self.state.lastKey + 1) []).lookup n = none
    rw [lookup_insert_iff, if_neg (by omega), hn]

theorem Gone.outcome (h : self.Gone key) (hk : key.1 ≤ self.state.lastKey)
    (hout : Outcome self after) : after.Gone key :=
  ⟨hout.request hk h.request, hout.route h.request h.route,
    hout.buffer hk h.buffer⟩

theorem Outcome.last_le (h : Outcome self after) : self.state.lastKey ≤ after.state.lastKey := by
  cases h with
  | less hless => exact Nat.le_of_eq hless.last.symm
  | acknowledged hreq => exact Nat.le_refl _
  | opened req topic => exact Nat.le_succ _

theorem Outcome.error (h : Outcome self after)
    (herr : after.error = none) : self.error = none := by
  cases h with
  | less hless => exact hless.error herr
  | acknowledged hreq => exact herr
  | opened req topic => exact herr

end Router

namespace Connection

variable {self after : Connection ν} {ev : Event}

theorem read_outcome (codec : Codec ν) (env : Option Envelope) :
    Router.Outcome self.router (self.read codec env).router := by
  rw [read]
  split
  · exact .less (Router.less_close _)
  · exact .less .refl
  · rename_i frame _
    rcases self.router.dispatch_outcome codec frame with
      hless | ⟨id, subscription, key, hreq, heq⟩
    · dsimp only
      split
      · exact .less hless
      · exact .less (hless.trans (Router.less_close _))
    · rw [heq]
      exact .acknowledged hreq

theorem giveUp_less (index : ℕ) (task : Task) :
    Router.Less self.router (self.giveUp index task).router := by
  rw [giveUp]
  split
  · refine { buffers number h := ?_ }
    change (self.router.state.byKey.erase task.key).lookup number = none
    rw [lookup_erase_iff, h, ite_self]
  · exact .refl

theorem release_less (index : ℕ) (task : Task) (route : Option ℕ) :
    Router.Less self.router (self.release index task route).router := by
  cases route with
  | none => exact .refl
  | some sub => exact { routes _ _ h := (of_lookup_erase h).2 }

theorem abandon_less (index : ℕ) (task : Task) :
    Router.Less self.router (self.abandon index task).router where
  requests _ _ h := ((lookup_retain _).mp h).1

theorem unlock_less (id : ℕ) : Router.Less self.router
    { self.router with requests := self.router.requests.insert id .unsubscribe } := by
  refine { requests other key h := ?_ }
  obtain ⟨-, heq⟩ | ⟨-, h⟩ := of_lookup_insert h
  · cases heq
  · exact h

theorem pop_less {key : ℕ} {ev : ν} {state : EventBuffer ν}
    (hpop : self.router.state.pop key = some (ev, state)) :
    Router.Less self.router { self.router with state } := by
  obtain ⟨rest, hbuf, rfl⟩ := EventBuffer.pop_some hpop
  refine { buffers number h := ?_ }
  rw [lookup_insert_iff, if_neg, h]
  rintro rfl
  cases h.symm.trans hbuf

theorem Change.outcome (h : Change codec self ev after) :
    Router.Outcome self.router after.router := by
  cases h with
  | subscribed typed topic params => exact .opened self.nextId topic
  | unlocked ht hp hfree => exact .less (unlock_less _)
  | gaveUp ht hp => exact .less (giveUp_less _ _)
  | released route ht hp hopen hpd hfinds => exact .less (release_less _ _ route)
  | abandoned ht hp hfail => exact .less (abandon_less _ _)
  | popped ht hp hpop => exact .less (pop_less hpop)
  | read env hopen => exact read_outcome codec env
  | closed reason => exact .less (Router.less_close reason)
  | _ => exact .less .refl

/-! ### The invariant -/

/-- The key is that of a task with this request. -/
def Named (tasks : List Task) (key : Key) (id : ℕ) : Prop :=
  ∃ task ∈ tasks, task.name = key ∧ task.request = id

/-- What is left of a subscription, by where its code stands. -/
def Clean (router : Router ν) (task : Task) : Prop :=
  match task.phase with
  | .leaving => router.state.byKey.lookup task.key = none
  | .unlocking _ _ | .unsending _ _ | .done => router.error = none → router.Gone task.name
  | _ => True

/-- What holds between the tasks and the router. -/
structure Inv (connection : Connection ν) : Prop where
  keys : ∀ index task, connection.tasks[index]? = some task → task.key = index + 1
  last : connection.router.state.lastKey = connection.tasks.length
  requests : ∀ id key, connection.router.requests.lookup id = some (.subscribe key) →
    Named connection.tasks key id
  /-- a route belongs to a task whose request was answered -/
  routes : ∀ id key, connection.router.subscriptions.lookup id = some key →
    (∃ request, Named connection.tasks key request) ∧
      ∀ request, connection.router.requests.lookup request ≠ some (.subscribe key)
  unique : ∀ id other key, connection.router.subscriptions.lookup id = some key →
    connection.router.subscriptions.lookup other = some key → id = other
  clean : ∀ task ∈ connection.tasks, Clean connection.router task

theorem inv_init : Inv (init : Connection ν) where
  keys := fun _ _ h => nomatch h
  last := rfl
  requests := fun _ _ h => nomatch h
  routes := fun _ _ h => nomatch h
  unique := fun _ _ _ h => nomatch h
  clean := fun _ h => nomatch h

variable {task : Task} {key : Key} {id index : ℕ} {phase : Phase}

theorem Inv.key_le (h : Inv self) (hm : task ∈ self.tasks) :
    task.key ≤ self.router.state.lastKey := by
  obtain ⟨index, hi⟩ := List.mem_iff_getElem?.mp hm
  obtain ⟨hlt, -⟩ := List.getElem?_eq_some_iff.mp hi
  rw [h.keys index task hi, h.last]
  exact hlt

theorem Inv.named_le (h : Inv self) (hn : Named self.tasks key id) :
    key.1 ≤ self.router.state.lastKey := by
  obtain ⟨task, hm, rfl, -⟩ := hn
  exact h.key_le hm

theorem Inv.task_eq (h : Inv self) {other : Task} (hm : task ∈ self.tasks)
    (ho : other ∈ self.tasks) (hk : task.key = other.key) : task = other := by
  obtain ⟨i, hi⟩ := List.mem_iff_getElem?.mp hm
  obtain ⟨j, hj⟩ := List.mem_iff_getElem?.mp ho
  have hij : i = j := by
    have h₁ := h.keys i task hi
    have h₂ := h.keys j other hj
    omega
  subst hij
  exact Option.some.inj (hi.symm.trans hj)

theorem Inv.named_eq (h : Inv self) {other : ℕ} (hn : Named self.tasks key id)
    (ho : Named self.tasks key other) : id = other := by
  obtain ⟨task, hm, rfl, rfl⟩ := hn
  obtain ⟨task', hm', hnm, rfl⟩ := ho
  rw [h.task_eq hm hm' (congrArg Prod.fst hnm).symm]

theorem Clean.outcome {router after : Router ν} (h : Clean router task)
    (hk : task.key ≤ router.state.lastKey) (hout : Router.Outcome router after) :
    Clean after task := by
  rw [Clean] at h ⊢
  split at h
  · exact hout.buffer hk h
  · exact fun herr => (h (hout.error herr)).outcome hk hout
  · exact fun herr => (h (hout.error herr)).outcome hk hout
  · exact fun herr => (h (hout.error herr)).outcome hk hout
  · trivial

section

variable (h : Inv self)

include h

theorem Inv.frame (hless : Router.Less self.router after.router)
    (hlen : after.tasks.length = self.tasks.length)
    (hkeys : ∀ (i : ℕ) other, after.tasks[i]? = some other →
      ∃ old, self.tasks[i]? = some old ∧ other.key = old.key)
    (hnmd : ∀ {key id}, Named self.tasks key id → Named after.tasks key id)
    (hcl : ∀ task ∈ after.tasks, Clean after.router task) : Inv after where
  keys := by
    intro i other hi
    obtain ⟨old, hold, hk⟩ := hkeys i other hi
    exact hk.trans (h.keys i old hold)
  last := by rw [hless.last, h.last, hlen]
  requests := fun id key hid => hnmd (h.requests id key (hless.requests id key hid))
  routes := by
    intro id key hid
    obtain ⟨⟨req, hnm⟩, hn⟩ := h.routes id key (hless.routes id key hid)
    exact ⟨⟨req, hnmd hnm⟩,
      fun other ho => hn other (hless.requests other key ho)⟩
  unique := fun id other key hid ho =>
    h.unique id other key (hless.routes id key hid) (hless.routes other key ho)
  clean := hcl

theorem Inv.moved (ht : self.tasks[index]? = some task)
    (hless : Router.Less self.router after.router)
    (hts : after.tasks = self.tasks.set index { task with phase })
    (hcl : Clean after.router { task with phase }) : Inv after := by
  refine h.frame hless (by rw [hts, length_set]) ?_
    (fun hnmd => hts ▸ exists_mem_set ht id hnmd) ?_
  · intro i other hi
    rw [hts] at hi
    rcases of_getElem?_set hi with ⟨rfl, rfl⟩ | ⟨-, hi⟩
    · exact ⟨task, ht, rfl⟩
    · exact ⟨other, hi, rfl⟩
  · intro other hm
    rw [hts] at hm
    rcases mem_or_eq_of_mem_set hm with hold | rfl
    · exact (h.clean other hold).outcome (h.key_le hold) (.less hless)
    · exact hcl

theorem Inv.less (hless : Router.Less self.router after.router) (hts : after.tasks = self.tasks) :
    Inv after := by
  refine h.frame hless (by rw [hts]) (fun i other hi => ⟨other, hts ▸ hi, rfl⟩)
    (fun hnmd => hts ▸ hnmd) fun task hm => ?_
  rw [hts] at hm
  exact (h.clean task hm).outcome (h.key_le hm) (.less hless)

theorem Inv.leaving (ht : self.tasks[index]? = some task) (hp : task.phase = .leaving) :
    self.router.state.byKey.lookup task.key = none := by
  have hcl := h.clean task (mem_of_getElem? ht)
  rwa [Clean, hp] at hcl

/-- **An acknowledgment** gives a task its only route. -/
theorem Inv.acknowledge {sub : ℕ} (hreq : self.router.requests.lookup id = some (.subscribe key))
    (log : List (Entry ν)) : Inv { self with router := self.router.acknowledge id sub key, log }
    where
  keys := h.keys
  last := h.last
  requests := fun other key ho =>
    h.requests other key ((Router.less_reply id).requests other key ho)
  routes := by
    intro route owner hrt
    obtain ⟨-, rfl⟩ | ⟨-, hrt⟩ := of_lookup_insert hrt
    · refine ⟨⟨id, h.requests id _ hreq⟩, fun other ho => ?_⟩
      -- the only request of this key was just answered
      obtain ⟨hne, ho⟩ := of_lookup_erase ho
      exact hne (h.named_eq (h.requests other _ ho) (h.requests id _ hreq))
    · obtain ⟨hnmd, hn⟩ := h.routes route owner hrt
      exact ⟨hnmd, fun other ho =>
        hn other ((Router.less_reply id).requests other owner ho)⟩
  unique := by
    intro route other owner hrt ho
    obtain ⟨rfl, rfl⟩ | ⟨-, hold⟩ := of_lookup_insert hrt
    · obtain ⟨rfl, -⟩ | ⟨-, ho⟩ := of_lookup_insert ho
      · rfl
      · exact absurd hreq ((h.routes other _ ho).2 id)
    · obtain ⟨-, rfl⟩ | ⟨-, ho⟩ := of_lookup_insert ho
      · exact absurd hreq ((h.routes route _ hold).2 id)
      · exact h.unique route other owner hold ho
  clean := fun task hm =>
    (h.clean task hm).outcome (h.key_le hm) (.acknowledged hreq)

theorem Inv.subscribe (typed : Bool) (topic : Topic) (params : String) :
    Inv (self.subscribe typed topic params) where
  keys := by
    intro index task ht
    rcases of_getElem?_concat ht with ⟨rfl, rfl⟩ | ⟨-, hold⟩
    · exact congrArg (· + 1) h.last
    · exact h.keys index task hold
  last := by
    change self.router.state.lastKey + 1 = (self.tasks ++ [_]).length
    rw [h.last, length_append, length_singleton]
  requests := by
    intro id key hid
    obtain ⟨rfl, heq⟩ | ⟨-, hid⟩ := of_lookup_insert hid
    · cases heq
      exact ⟨_, mem_concat_self, rfl, rfl⟩
    · obtain ⟨task, hm, hnmd⟩ := h.requests id key hid
      exact ⟨task, mem_append_left _ hm, hnmd⟩
  routes := by
    intro id key hid
    obtain ⟨⟨req, hnmd⟩, hn⟩ := h.routes id key hid
    have hle := h.named_le hnmd
    obtain ⟨task, hm, hboth⟩ := hnmd
    refine ⟨⟨req, task, mem_append_left _ hm, hboth⟩, fun other ho => ?_⟩
    obtain ⟨-, heq⟩ | ⟨-, ho⟩ := of_lookup_insert ho
    · cases heq
      exact Nat.not_succ_le_self _ hle
    · exact hn other ho
  unique := h.unique
  clean := by
    intro task hm
    rcases mem_concat.mp hm with hold | rfl
    · exact (h.clean task hold).outcome (h.key_le hold) (.opened self.nextId topic)
    · trivial

theorem Inv.release (route : Option ℕ) (ht : self.tasks[index]? = some task)
    (hp : task.phase = .leaving) (hpd : self.router.pending task.name = false)
    (hfinds : self.Finds task route) : Inv (self.release index task route) := by
  have hbuf := h.leaving ht hp
  have hreq := Subscription.Router.pending_eq_false.mp hpd
  cases route with
  | none =>
    refine h.moved ht (release_less index task none) rfl fun _ => ⟨hreq, ?_, hbuf⟩
    intro id hid
    have hany : self.router.subscriptions.any (· = task.name) = true :=
      (Table.any_iff _).mpr ⟨id, task.name, hid, by simp⟩
    cases hany.symm.trans hfinds
  | some sub =>
    refine h.moved ht (release_less index task (some sub)) rfl
      fun _ => ⟨hreq, ?_, hbuf⟩
    intro id hid
    obtain ⟨hne, hid⟩ := of_lookup_erase hid
    exact hne (h.unique id sub task.name hid hfinds)

/-- A task whose cleanup waited in vain has nothing left: its request was pending, so it had no
route. -/
theorem Inv.abandon (ht : self.tasks[index]? = some task) (hp : task.phase = .leaving)
    (hfail : self.router.error.isSome = true ∨ self.router.pending task.name = true) :
    Inv (self.abandon index task) := by
  refine h.moved ht (abandon_less index task) rfl fun herr => ?_
  refine ⟨fun id hid => ?_, fun id hid => ?_, h.leaving ht hp⟩
  · have hkpt := ((lookup_retain _).mp hid).2
    exact of_decide_eq_true hkpt rfl
  · rcases hfail with hcld | hpd
    · rw [show self.router.error = none from herr] at hcld
      cases hcld
    · obtain ⟨req, hreq⟩ := Subscription.Router.pending_iff.mp hpd
      exact (h.routes id task.name hid).2 req hreq

theorem Inv.giveUp (ht : self.tasks[index]? = some task) : Inv (self.giveUp index task) := by
  have hless : Router.Less self.router (self.giveUp index task).router := giveUp_less index task
  rw [Connection.giveUp] at hless ⊢
  split
  · rename_i htyped
    rw [if_pos htyped] at hless
    exact h.moved ht hless rfl (AList.lookup_erase task.key self.router.state.byKey)
  · rename_i htyped
    rw [if_neg htyped] at hless
    exact h.moved ht hless rfl trivial

theorem Inv.read (codec : Codec ν) (env : Option Envelope) : Inv (self.read codec env) := by
  rw [Connection.read]
  split
  · exact h.less (Router.less_close _) rfl
  · exact h
  · rename_i frame _
    rcases self.router.dispatch_outcome codec frame with
      hless | ⟨id, subscription, key, hreq, heq⟩
    · dsimp only
      split
      · exact h.less hless rfl
      · exact h.less (hless.trans (Router.less_close _)) rfl
    · rw [heq]
      exact h.acknowledge hreq _

theorem Inv.change (hch : Change codec self ev after) : Inv after := by
  have hout := hch.outcome
  cases hch with
  | subscribed typed topic params => exact h.subscribe typed topic params
  | locked ht hp hfree
  | acknowledged ht hp hopen hpd => exact h.moved ht .refl rfl trivial
  | @unlocked index task id sub ht hp =>
    have hcl := h.clean task (mem_of_getElem? ht)
    have hle := h.key_le (mem_of_getElem? ht)
    rw [Clean, hp] at hcl
    refine h.moved ht (unlock_less id) rfl fun herr => ?_
    exact (hcl herr).outcome hle hout
  | @sent index task ht =>
    refine h.moved ht .refl rfl ?_
    cases task.typed <;> trivial
  | @unsent index task id sub ht hp =>
    have hcl := h.clean task (mem_of_getElem? ht)
    rw [Clean, hp] at hcl
    exact h.moved ht .refl rfl hcl
  | gaveUp ht hp => exact h.giveUp ht
  | released route ht hp hopen hpd hfinds =>
    exact h.release route ht hp hpd hfinds
  | abandoned ht hp hfail => exact h.abandon ht hp hfail
  | popped ht hp hpop => exact h.less (pop_less hpop) rfl
  | read env hopen => exact h.read codec env
  | closed reason => exact h.less (Router.less_close reason) rfl

end

/-! ### Request ids -/

def waiting (task : Task) : Option ℕ :=
  match task.phase with
  | .locking => some task.request
  | .unlocking id _ => some id
  | _ => none

/-- The ids in use: of the requests on the wire, and of those that wait. -/
def ids (self : Connection ν) : List ℕ := self.sent.map Message.id ++ self.tasks.filterMap waiting

/-- Every id is used once. -/
structure Numbered (connection : Connection ν) : Prop where
  nodup : connection.ids.Nodup
  below : ∀ id ∈ connection.ids, id < connection.nextId

theorem numbered_init : Numbered (init : Connection ν) := ⟨nodup_nil, fun _ h => by cases h⟩

theorem Numbered.turn (h : Numbered self) (gone fresh : List ℕ)
    (hpm : gone ++ after.ids ~ fresh ++ self.ids) (hnd : fresh.Nodup)
    (hfr : ∀ id ∈ fresh, self.nextId ≤ id ∧ id < after.nextId)
    (hnx : self.nextId ≤ after.nextId) : Numbered after := by
  have hall : (fresh ++ self.ids).Nodup := by
    refine nodup_append.mpr ⟨hnd, h.nodup, ?_⟩
    rintro id hnew other hold rfl
    exact Nat.not_lt.mpr (hfr id hnew).1 (h.below id hold)
  refine ⟨(hpm.nodup_iff.mpr hall).sublist (sublist_append_right _ _), fun id hid => ?_⟩
  rcases mem_append.mp (hpm.subset (mem_append_right _ hid)) with hnew | hold
  · exact (hfr id hnew).2
  · exact Nat.lt_of_lt_of_le (h.below id hold) hnx

theorem ids_set (after : Connection ν) {msgs : List Message}
    (ht : self.tasks[index]? = some task)
    (hts : after.tasks = self.tasks.set index { task with phase })
    (hsent : after.sent = self.sent ++ msgs) :
    (waiting task).toList ++ after.ids ~
      (waiting { task with phase }).toList ++ msgs.map Message.id ++ self.ids := by
  have hpm := filterMap_set_perm waiting ht { task with phase }
  rw [perm_iff_count] at hpm ⊢
  intro id
  have hct := hpm id
  simp only [ids, hts, hsent, map_append, count_append] at hct ⊢
  omega

theorem Numbered.idle (h : Numbered self) (ht : self.tasks[index]? = some task)
    (hts : after.tasks = self.tasks.set index { task with phase })
    (hidle : waiting { task with phase } = none) (hsent : after.sent = self.sent)
    (hnx : after.nextId = self.nextId) : Numbered after := by
  have hpm := ids_set after ht hts (hsent.trans (append_nil _).symm)
  rw [hidle] at hpm
  exact h.turn _ [] hpm nodup_nil (fun _ hm => by cases hm) (Nat.le_of_eq hnx.symm)

theorem Numbered.send (h : Numbered self) (ht : self.tasks[index]? = some task)
    (hwait : waiting task = some id) (ask : Ask)
    (hts : after.tasks = self.tasks.set index { task with phase })
    (hidle : waiting { task with phase } = none) (hsent : after.sent = self.sent ++ [⟨id, ask⟩])
    (hnx : after.nextId = self.nextId) : Numbered after := by
  have hpm := ids_set after ht hts hsent
  rw [hwait, hidle] at hpm
  exact h.turn [] [] ((perm_cons id).mp hpm) nodup_nil (fun _ hm => by cases hm)
    (Nat.le_of_eq hnx.symm)

theorem Numbered.fresh (h : Numbered self) (hpm : after.ids ~ self.nextId :: self.ids)
    (hnx : after.nextId = self.nextId + 1) : Numbered after := by
  refine h.turn [] [self.nextId] hpm (nodup_singleton _) (fun id hid => ?_)
    (hnx ▸ Nat.le_succ _)
  rw [mem_singleton.mp hid, hnx]
  exact ⟨Nat.le_refl _, Nat.lt_succ_self _⟩

theorem Numbered.same (h : Numbered self) (hts : after.tasks = self.tasks)
    (hsent : after.sent = self.sent) (hnx : after.nextId = self.nextId) : Numbered after := by
  obtain ⟨hnd, hbelow⟩ := h
  rw [ids, ← hts, ← hsent] at hnd hbelow
  exact ⟨hnd, hnx ▸ hbelow⟩

theorem read_frame (codec : Codec ν) (self : Connection ν) (env : Option Envelope) :
    (self.read codec env).tasks = self.tasks ∧
      (self.read codec env).sent = self.sent ∧
      (self.read codec env).nextId = self.nextId := by
  rw [read]
  split
  · exact ⟨rfl, rfl, rfl⟩
  · exact ⟨rfl, rfl, rfl⟩
  · dsimp only
    split <;> exact ⟨rfl, rfl, rfl⟩

/-- **Every step keeps the ids apart.** -/
theorem Numbered.change (h : Numbered self) (hch : Change codec self ev after) :
    Numbered after := by
  cases hch with
  | subscribed typed topic params =>
    refine h.fresh ?_ rfl
    rw [ids, Connection.subscribe, filterMap_append, ← append_assoc]
    exact perm_append_comm
  | locked ht hp hfree | unlocked ht hp hfree =>
    exact h.send ht (by rw [waiting, hp]) _ rfl rfl rfl rfl
  | sent ht hp =>
    rename_i index task
    refine h.idle ht rfl ?_ rfl rfl
    cases task.typed <;> rfl
  | gaveUp ht hp =>
    rw [Connection.giveUp]
    split
    · exact h.idle ht rfl rfl rfl rfl
    · exact h.idle ht rfl rfl rfl rfl
  | released route ht hp hopen hpd hfinds =>
    cases route with
    | none => exact h.idle ht rfl rfl rfl rfl
    | some sub =>
      refine h.fresh ?_ rfl
      have hpm := ids_set (self.release _ _ (some sub)) ht rfl (append_nil _).symm
      rwa [waiting, hp] at hpm
  | popped ht hp hpop | closed reason => exact h.same rfl rfl rfl
  | read env hopen =>
    obtain ⟨hts, hsent, hnx⟩ := read_frame codec self env
    exact h.same hts hsent hnx
  | unsent ht | acknowledged ht | abandoned ht => exact h.idle ht rfl rfl rfl rfl

/-! ### Runs -/

theorem Run.inv (h : Run codec self after) (hinv : Inv self) : Inv after := by
  induction h with
  | refl => exact hinv
  | step _ hst ih => exact ih.change (step_change hst)

theorem Run.numbered (h : Run codec self after) (hnum : Numbered self) : Numbered after := by
  induction h with
  | refl => exact hnum
  | step _ hst ih => exact ih.change (step_change hst)

theorem Run.gone (h : Run codec self after) (hk : key.1 ≤ self.router.state.lastKey)
    (hgone : self.router.Gone key) :
    after.router.Gone key ∧ key.1 ≤ after.router.state.lastKey := by
  induction h with
  | refl => exact ⟨hgone, hk⟩
  | step _ hst ih =>
    have hout := (step_change hst).outcome
    exact ⟨ih.1.outcome ih.2 hout, Nat.le_trans ih.2 hout.last_le⟩

/-- **Nothing is left of a subscription whose cleanup has finished**, and nothing of it comes
back, whatever frames arrive later. The requests of a connection have ids of their own at any
time. -/
theorem cleanup_leaves_nothing (h : Reachable codec self) :
    (self.sent.map Message.id).Nodup ∧
    ∀ {index : ℕ} {task : Task}, self.router.error = none → self.tasks[index]? = some task →
      task.phase = .done → ∀ {after}, Run codec self after → after.router.Gone task.name := by
  have hinv := Run.inv h inv_init
  refine ⟨(Run.numbered h numbered_init).nodup.sublist (sublist_append_left _ _), ?_⟩
  intro index task hopen htask hdone after hlater
  have hmem := mem_of_getElem? htask
  have hgone : self.router.Gone task.name := by
    have hclean := hinv.clean task hmem
    rw [Clean, hdone] at hclean
    exact hclean hopen
  exact (hlater.gone (hinv.key_le hmem) hgone).1

/-- A connection after more events; those that cannot happen are skipped. -/
def goOn (codec : Codec ν) (self : Connection ν) (events : List Event) : Connection ν :=
  events.foldl (fun self event => (self.step codec event).getD self) self

theorem run_goOn (codec : Codec ν) (self : Connection ν) (evs : List Event) :
    Run codec self (self.goOn codec evs) := by
  induction evs using List.reverseRecOn with
  | nil => exact .refl
  | append_singleton evs ev ih =>
    simp only [goOn, foldl_append, foldl_cons] at ih ⊢
    cases hst : Connection.step codec _ ev with
    | none => exact ih
    | some after => exact .step ih hst

def sampleCodec : Codec String := ⟨fun text => if text = "7" then some 7 else none, some⟩

def sampleReply (id : ℕ) (result : String) : Event :=
  .frame (some ⟨none, some id, some result, none, none⟩)

/-- A subscription is given up before its acknowledgment: that comes late, and the cleanup takes its
route away. -/
def lateEvents : List Event :=
  [.subscribe true .slot "[]", .locked 0, .sent 0 true, .drop 0, sampleReply 1 "7",
    .released 0 (some 7), .locked 0, .sent 0 true]

theorem cleanup_leaves_nothing_late :
    ((init.goOn sampleCodec lateEvents).sent.map Message.id).Nodup ∧
      (init.goOn sampleCodec lateEvents).sent.map Message.id = [1, 2] ∧
      ((init.goOn sampleCodec lateEvents).goOn sampleCodec
        [sampleReply 1 "7"]).router.Gone (1, .slot) := by
  obtain ⟨hnodup, hgone⟩ := cleanup_leaves_nothing (run_goOn sampleCodec init lateEvents)
  have htask : (init.goOn sampleCodec lateEvents).tasks[0]? =
      some ⟨1, .slot, "[]", true, 1, .done⟩ := by decide +kernel
  exact ⟨hnodup, by decide +kernel,
    hgone (by decide +kernel) htask rfl (run_goOn sampleCodec _ [sampleReply 1 "7"])⟩

/-- **A subscription is in the tables once.** Whatever the frames and tasks did, a key has one
request that waits for its reply or one route, not both: a search through the hash maps has no
choice. -/
theorem tables_unambiguous (h : Reachable codec self) (key : Key) :
    (∀ id other, self.router.requests.lookup id = some (.subscribe key) →
      self.router.requests.lookup other = some (.subscribe key) → id = other) ∧
    ∀ id, self.router.subscriptions.lookup id = some key →
      (∀ other, self.router.subscriptions.lookup other = some key → id = other) ∧
      ∀ request, self.router.requests.lookup request ≠ some (.subscribe key) := by
  have hinv := Run.inv h inv_init
  refine ⟨fun id other hid hother => ?_, fun id hid => ⟨fun other => ?_, ?_⟩⟩
  · exact hinv.named_eq (hinv.requests id key hid) (hinv.requests other key hother)
  · exact hinv.unique id other key hid
  · exact (hinv.routes id key hid).2

theorem tables_unambiguous_answered : (init.goOn sampleCodec
    (lateEvents.take 5)).router.requests.lookup 1 ≠ some (.subscribe (1, .slot)) :=
  ((tables_unambiguous (run_goOn sampleCodec init _) _).2 7 (by decide +kernel)).2 1

end Connection

end Events

end Redsuite
