import Redsuite.EventsCleanup

/-!
# Routing notifications to subscriptions

The router keeps one key for each of the server's ids.
-/

namespace Redsuite

open List Option

namespace Events

variable {ν : Type} {codec : Codec ν}

/-! ### What a subscription can expect -/

/-- What the log says of a subscription. -/
structure Expectation where
  /-- the id that its acknowledgment named -/
  id : Option ℕ
  /-- what the notifications of that id carried -/
  payloads : List String
  deriving DecidableEq

/-- One more entry of the log, for whoever counts all notifications. -/
def Expectation.hear (key : Key) (self : Expectation) : Entry ν → Expectation
  | .acked other subscription =>
    if other = key then { self with id := some subscription } else self
  | .notified subscription payload =>
    if self.id = some subscription then { self with payloads := self.payloads ++ [payload] } else self
  | .taken _ _ => self

/-- **What a subscription can expect**: all notifications of its id, from the acknowledgment on. -/
def heard (key : Key) (log : List (Entry ν)) : Expectation :=
  log.foldl (Expectation.hear key) ⟨none, []⟩

/-- The payloads of these notifications. -/
def notifications (key : Key) (log : List (Entry ν)) : List String := (heard key log).payloads

/-- One more entry of the log, for the router: the route of a signature subscription ends with its
first notification. -/
def Expectation.next (key : Key) (self : Expectation) : Entry ν → Expectation
  | .acked other subscription =>
    if other = key then { self with id := some subscription } else self
  | .notified subscription payload =>
    if self.id = some subscription then
      ⟨if key.2 = .signature then none else self.id, self.payloads ++ [payload]⟩
    else self
  | .taken _ _ => self

/-- What the router can have routed to a subscription. -/
def routed (key : Key) (log : List (Entry ν)) : Expectation :=
  log.foldl (Expectation.next key) ⟨none, []⟩

/-- What was taken out of the buffer of a key. -/
def taken (key : ℕ) (log : List (Entry ν)) : List ν :=
  log.filterMap fun entry =>
    match entry with
    | .taken other event => if other = key then some event else none
    | _ => none

/-- The key that an entry names, if it names one. -/
def Entry.number : Entry ν → ℕ
  | .acked key _ => key.1
  | .notified _ _ => 0
  | .taken number _ => number

/-- The ids that acknowledgments have named. -/
def ackedIds (log : List (Entry ν)) : List ℕ :=
  log.filterMap fun entry =>
    match entry with
    | .acked _ subscription => some subscription
    | _ => none

/-- The subscription was not dropped. -/
def Phase.live : Phase → Bool
  | .locking | .sending | .acking | .held | .kept => true
  | _ => false

section Log

variable {key : Key} {log : List (Entry ν)}

theorem routed_concat (key : Key) (log : List (Entry ν)) (e : Entry ν) :
    routed key (log ++ [e]) = (routed key log).next key e := by
  rw [routed, foldl_append]
  rfl

theorem taken_concat (n : ℕ) (log : List (Entry ν)) (e : Entry ν) :
    taken n (log ++ [e]) = taken n log ++ taken n [e] :=
  filterMap_append

variable {subscription : ℕ}

theorem heard_concat (key : Key) (log : List (Entry ν)) (e : Entry ν) :
    heard key (log ++ [e]) = (heard key log).hear key e := by
  rw [heard, foldl_append]
  rfl

theorem notifications_append (key : Key) (log es : List (Entry ν)) :
    notifications key log ⊆ notifications key (log ++ es) := by
  induction es using List.reverseRecOn with
  | nil =>
    rw [append_nil]
    exact Subset.refl _
  | append_singleton es e ih =>
    refine List.Subset.trans ih ?_
    rw [← append_assoc, notifications, notifications, heard_concat]
    generalize heard key (log ++ es) = all
    cases e with
    | acked other sub =>
      simp only [Expectation.hear]
      split <;> exact Subset.refl _
    | notified sub pl =>
      simp only [Expectation.hear]
      split
      · exact subset_append_left _ _
      · exact Subset.refl _
    | taken n event => exact Subset.refl _

theorem acked_of_heard (h : (heard key log).id = some subscription) :
    .acked key subscription ∈ log := by
  induction log using List.reverseRecOn with
  | nil => cases h
  | append_singleton log e ih =>
    rw [heard_concat] at h
    cases e with
    | acked other new =>
      simp only [Expectation.hear] at h
      split at h
      · rename_i heq
        cases h
        rw [heq]
        exact mem_concat_self
      · exact mem_append_left _ (ih h)
    | notified other pl =>
      simp only [Expectation.hear] at h
      split at h <;> exact mem_append_left _ (ih h)
    | taken n event => exact mem_append_left _ (ih h)

/-- **What is routed is what can be expected**, up to the first notification of a signature
subscription. From then on something can be missing. -/
theorem routed_heard (key : Key) (log : List (Entry ν)) :
    routed key log = heard key log ∧ (key.2 = .signature → notifications key log = []) ∨
    key.2 = .signature ∧ ∃ first rest rest', notifications key log = first :: rest ∧
      (routed key log).payloads = first :: rest' ∧ rest' ⊆ rest ∧
      ∀ subscription, (routed key log).id = some subscription →
        (heard key log).id = some subscription := by
  induction log using List.reverseRecOn with
  | nil => exact .inl ⟨rfl, fun _ => rfl⟩
  | append_singleton log e ih =>
    simp only [notifications, routed_concat, heard_concat] at ih ⊢
    generalize heard key log = all at ih
    generalize routed key log = next at ih
    rcases ih with ⟨rfl, hn⟩ | ⟨hsig, first, rest, rest', hall, hnext, hsub, hid⟩
    · cases e with
      | acked other sub =>
        refine .inl ⟨rfl, fun hsig => ?_⟩
        simp only [Expectation.hear]
        split <;> exact hn hsig
      | notified sub pl =>
        simp only [Expectation.hear, Expectation.next]
        split
        · by_cases hsig : key.2 = .signature
          · exact .inr ⟨hsig, pl, [], [], by simp [hn hsig], by simp [hn hsig], by simp,
              by simp [hsig]⟩
          · exact .inl ⟨by simp [hsig], fun h => absurd h hsig⟩
        · exact .inl ⟨rfl, hn⟩
      | taken n event => exact .inl ⟨rfl, hn⟩
    · refine .inr ⟨hsig, first, ?_⟩
      cases e with
      | acked other sub =>
        simp only [Expectation.hear, Expectation.next]
        split
        · exact ⟨rest, rest', hall, hnext, hsub, fun _ => id⟩
        · exact ⟨rest, rest', hall, hnext, hsub, hid⟩
      | notified sub pl =>
        simp only [Expectation.hear, Expectation.next, hsig, if_true]
        by_cases hnx : next.id = some sub
        · rw [if_pos hnx, if_pos (hid sub hnx)]
          exact ⟨rest ++ [pl], rest' ++ [pl], by simp [hall], by simp [hnext],
            append_subset.mpr ⟨List.Subset.trans hsub (subset_append_left _ _),
              subset_append_right _ _⟩, by simp⟩
        · rw [if_neg hnx]
          split
          · exact ⟨rest ++ [pl], rest', by simp [hall], hnext,
              List.Subset.trans hsub (subset_append_left _ _), hid⟩
          · exact ⟨rest, rest', hall, hnext, hsub, hid⟩
      | taken n event => exact ⟨rest, rest', hall, hnext, hsub, hid⟩

theorem routed_head (key : Key) (log : List (Entry ν)) :
    (notifications key log).head? = (routed key log).payloads.head? := by
  rcases routed_heard key log with ⟨heq, -⟩ | ⟨-, first, rest, rest', hall, hnext, -⟩
  · rw [heq]
    rfl
  · rw [hall, hnext]
    rfl

theorem routed_of_one (h : key.2 = .signature → (notifications key log).length ≤ 1) :
    (routed key log).payloads = notifications key log := by
  rcases routed_heard key log with ⟨heq, -⟩ | ⟨hsig, first, rest, rest', hall, hnext, hsub, -⟩
  · rw [heq]
    rfl
  · have hone := h hsig
    rw [hall, length_cons] at hone
    obtain rfl : rest = [] := eq_nil_of_length_eq_zero (by omega)
    rw [hnext, hall, subset_nil.mp hsub]

theorem routed_none (h : ∀ subscription, .acked key subscription ∉ log) :
    routed key log = ⟨none, []⟩ := by
  induction log using List.reverseRecOn with
  | nil => rfl
  | append_singleton log e ih =>
    rw [routed_concat, ih fun subscription hm => h subscription (mem_append_left _ hm)]
    cases e with
    | acked other new =>
      refine if_neg ?_
      rintro rfl
      exact h new (mem_concat_self)
    | notified other pl => rfl
    | taken n event => rfl

theorem taken_none {n : ℕ} (h : ∀ event, .taken n event ∉ log) :
    taken n log = [] := by
  refine filterMap_eq_nil_iff.mpr fun e hm => ?_
  cases e with
  | taken other event =>
    refine if_neg ?_
    rintro rfl
    exact h event hm
  | acked other subscription => rfl
  | notified subscription pl => rfl

theorem mem_ackedIds : subscription ∈ ackedIds log ↔ ∃ key, .acked key subscription ∈ log := by
  rw [ackedIds, mem_filterMap]
  constructor
  · rintro ⟨e, hm, heq⟩
    cases e with
    | acked key other =>
      cases heq
      exact ⟨key, hm⟩
    | notified other pl => cases heq
    | taken n event => cases heq
  · rintro ⟨key, hm⟩
    exact ⟨_, hm, rfl⟩

theorem ackedIds_nodup {es : List (Entry ν)} (h : (ackedIds (log ++ es)).Nodup) :
    (ackedIds log).Nodup := by
  rw [ackedIds, filterMap_append] at h
  exact h.sublist (sublist_append_left _ _)

theorem acked_unique (h : (ackedIds log).Nodup) {other : Key} (hk : .acked key subscription ∈ log)
    (hother : .acked other subscription ∈ log) : key = other := by
  induction log with
  | nil => cases hk
  | cons e log ih =>
    have hr : (ackedIds log).Nodup :=
      h.sublist ((sublist_cons_self e log).filterMap _)
    have hnew : ∀ {owner rival : Key}, e = .acked owner subscription →
        .acked rival subscription ∉ log := by
      rintro owner rival rfl hm
      exact (nodup_cons.mp h).1 (mem_ackedIds.mpr ⟨rival, hm⟩)
    rcases mem_cons.mp hk with hk | hk <;> rcases mem_cons.mp hother with ho | ho
    · cases hk.trans ho.symm
      rfl
    · exact absurd ho (hnew hk.symm)
    · exact absurd hk (hnew ho.symm)
    · exact ih hr hk ho

end Log

namespace Connection

variable {self after : Connection ν} {ev : Event} {router : Router ν}

/-! ### Whatever the ids are -/

theorem noted_reply {id : ℕ} {r : Except ServerError String}
    (h : ∀ text key, r = .ok text → router.requests.lookup id = some (.subscribe key) →
      codec.id text = none) : noted codec router (.reply id r) = [] := by
  cases r with
  | error => rfl
  | ok text =>
    rcases hreq : router.requests.lookup id with _ | key | _
    · simp only [noted, hreq]
    · simp only [noted, hreq, h text key rfl hreq]
    · simp only [noted, hreq]

/-- **A reply** is an acknowledgment, or nothing is noted and no route changes. -/
theorem reply_parts (codec : Codec ν) (router : Router ν) (id : ℕ)
    (r : Except ServerError String) :
    (noted codec router (.reply id r) = [] ∧
      (router.dispatchReply codec.id id r).1.subscriptions = router.subscriptions ∧
      (router.dispatchReply codec.id id r).1.state = router.state) ∨
    ∃ key subscription, router.requests.lookup id = some (.subscribe key) ∧
      noted codec router (.reply id r) = [.acked key subscription] ∧
      router.dispatchReply codec.id id r = (router.acknowledge id subscription key, none) := by
  have hreplied := router.dispatchReply_replied codec.id id r
  generalize router.dispatchReply codec.id id r = outcome at hreplied ⊢
  cases hreplied with
  | @acknowledged key text subscription hreq hr hid =>
    exact .inr ⟨key, subscription, hreq, by simp only [hr, noted, hreq, hid], rfl⟩
  | refused reason hunread => exact .inl ⟨noted_reply hunread, rfl, rfl⟩
  | settled hother =>
    exact .inl ⟨noted_reply fun _ key _ hreq => absurd hreq (hother key), rfl, rfl⟩

/-- What the log says of the routes, whatever ids the server gives. -/
structure Traced (connection : Connection ν) : Prop where
  /-- a route leads to a key that was acknowledged with its id -/
  routes : ∀ subscription key, connection.router.subscriptions.lookup subscription = some key →
    (heard key connection.log).id = some subscription
  /-- the log names no key that was not given out -/
  known : ∀ entry ∈ connection.log, entry.number ≤ connection.router.state.lastKey

section

variable (h : Traced self)

include h

theorem Traced.route {subscription : ℕ} {key : Key}
    (hrt : self.router.subscriptions.lookup subscription = some key) :
    .acked key subscription ∈ self.log :=
  acked_of_heard (h.routes subscription key hrt)

theorem Traced.logged {e : Entry ν}
    (hrts : ∀ subscription key, router.subscriptions.lookup subscription = some key →
      (heard key (self.log ++ [e])).id = some subscription)
    (hla : router.state.lastKey = self.router.state.lastKey)
    (he : e.number ≤ self.router.state.lastKey) :
    Traced { self with router, log := self.log ++ [e] } := by
  refine ⟨hrts, fun other ho => ?_⟩
  refine Nat.le_trans ?_ (Nat.le_of_eq hla.symm)
  rcases mem_concat.mp ho with hold | rfl
  · exact h.known other hold
  · exact he

/-- **An acknowledgment** gives a key its route, and another route of the key there is not. -/
theorem Traced.acknowledge (hinv : Inv self) {id subscription : ℕ} {key : Key}
    (hreq : self.router.requests.lookup id = some (.subscribe key)) :
    Traced { self with
      router := self.router.acknowledge id subscription key
      log := self.log ++ [.acked key subscription] } := by
  refine h.logged (fun other owner ho => ?_) rfl (hinv.named_le (hinv.requests id key hreq))
  rw [heard_concat, Expectation.hear]
  obtain ⟨rfl, rfl⟩ | ⟨-, ho⟩ := Table.of_lookup_insert ho
  · rw [if_pos rfl]
  · rw [if_neg, h.routes other owner ho]
    rintro rfl
    exact (hinv.routes other _ ho).2 id hreq

theorem Traced.notify (codec : Codec ν) (params : Notification) :
    Traced { self with
      router := self.router.dispatchNotification codec params
      log := self.log ++ [.notified params.subscription params.result] } := by
  have hless := self.router.less_notification codec params
  refine h.logged (fun other owner ho => ?_) hless.last (Nat.zero_le _)
  rw [heard_concat, Expectation.hear, apply_ite Expectation.id, ite_self]
  exact h.routes other owner (hless.routes other owner ho)

theorem Traced.same (hlog : after.log = self.log)
    (hrts : ∀ subscription key, after.router.subscriptions.lookup subscription = some key →
      self.router.subscriptions.lookup subscription = some key)
    (hla : after.router.state.lastKey = self.router.state.lastKey) : Traced after := by
  refine ⟨fun subscription key hrt => ?_, ?_⟩
  · rw [hlog]
    exact h.routes subscription key (hrts subscription key hrt)
  · rw [hlog, hla]
    exact h.known

theorem Traced.read (hinv : Inv self) (codec : Codec ν) (env : Option Envelope) :
    Traced (self.read codec env) := by
  rcases hpa : parse env with reason | _ | ⟨id, r⟩ | ⟨method, params⟩ | _
  · simp only [Connection.read, hpa]
    exact h.same rfl (fun _ _ => id) rfl
  · simp only [Connection.read, hpa]
    exact h
  · simp only [Connection.read, hpa]
    rcases reply_parts codec self.router id r with
      ⟨hntd, hrts, hs⟩ | ⟨key, subscription, hreq, hntd, hrep⟩
    · simp only [hntd, append_nil]
      split <;> exact h.same rfl (fun sub _ => (congrArg (AList.lookup sub) hrts).symm.trans)
        (congrArg EventBuffer.lastKey hs)
    · simp only [hntd, Router.dispatch_reply, hrep]
      exact h.acknowledge hinv hreq
  · simp only [Connection.read, hpa, Router.dispatch_notification]
    exact h.notify codec params
  · simp only [Connection.read, hpa]
    exact h.same (append_nil _) (fun _ _ => id) rfl

theorem Traced.change (hinv : Inv self) (hch : Change codec self ev after) : Traced after := by
  cases hch with
  | subscribed => exact ⟨h.routes, fun e hm => Nat.le_succ_of_le (h.known e hm)⟩
  | popped ht hp hpop =>
    refine h.logged (fun other owner ho => ?_) (pop_less hpop).last
      (hinv.key_le (mem_of_getElem? ht))
    rw [heard_concat]
    exact h.routes other owner ho
  | read env => exact h.read hinv codec env
  | gaveUp =>
    rw [Connection.giveUp]
    split <;> exact h.same rfl (fun _ _ => id) rfl
  | released route =>
    cases route with
    | none => exact h.same rfl (fun _ _ => id) rfl
    | some sub => exact h.same rfl (fun _ _ ho => (Table.of_lookup_erase ho).2) rfl
  | _ => exact h.same rfl (fun _ _ => id) rfl

end

theorem Run.traced (h : Run codec init self) : Traced self := by
  induction h with
  | refl => exact ⟨(fun _ _ h => by cases h), fun _ h => by cases h⟩
  | step hrun hst ih => exact ih.change (hrun.inv inv_init) (step_change hst)

/-! ### Ids of their own -/

/-- A subscription gets what it can expect. -/
structure Receives (codec : Codec ν) (connection : Connection ν) (task : Task) : Prop where
  /-- every notification is in its buffer or was taken, in order -/
  events : ∃ events, connection.router.state.byKey.lookup task.key = some events ∧
    taken task.key connection.log ++ events =
      (heard task.name connection.log).payloads.filterMap codec.event
  /-- its id leads to it, until a signature subscription has its notification -/
  route : ∀ subscription, (heard task.name connection.log).id = some subscription →
    (task.topic = .signature → (heard task.name connection.log).payloads = []) →
    connection.router.subscriptions.lookup subscription = some task.name
  /-- nobody unsubscribed its id -/
  unharmed : ∀ subscription, (heard task.name connection.log).id = some subscription →
    ∀ message ∈ connection.sent, ∀ topic, message.ask ≠ .unsubscribe topic subscription

/-- Somebody wants this subscription to end: a request says so, or a cleanup is about to send
one. -/
def Quits (connection : Connection ν) (subscription : ℕ) : Prop :=
  (∃ message ∈ connection.sent, ∃ topic, message.ask = .unsubscribe topic subscription) ∨
    ∃ task ∈ connection.tasks, ∃ id, task.phase = .unlocking id subscription

/-- A subscription of this key was not dropped. -/
def Live (connection : Connection ν) (key : Key) : Prop :=
  ∃ task ∈ connection.tasks, task.phase.live = true ∧ task.name = key

/-- A subscription of this key was dropped. -/
def Left (connection : Connection ν) (key : Key) : Prop :=
  ∃ task ∈ connection.tasks, task.phase.live = false ∧ task.name = key

/-- The route and the buffer of a key are as the log says. -/
structure Served (codec : Codec ν) (connection : Connection ν) (key : Key) : Prop where
  expects : ∀ subscription, (routed key connection.log).id = some subscription ↔
    connection.router.subscriptions.lookup subscription = some key
  events : ∃ events, connection.router.state.byKey.lookup key.1 = some events ∧
    taken key.1 connection.log ++ events =
      (routed key connection.log).payloads.filterMap codec.event

/-- What holds on a connection whose acknowledgments all name different ids. -/
structure Routed (codec : Codec ν) (connection : Connection ν) : Prop where
  served : ∀ key, connection.Live key → Served codec connection key
  quits : ∀ subscription, Quits connection subscription →
    ∃ key, connection.Left key ∧ .acked key subscription ∈ connection.log

theorem Routed.events (h : Routed codec self) (task : Task) (hm : task ∈ self.tasks)
    (hl : task.phase.live = true) :
    ∃ evs, self.router.state.byKey.lookup task.key = some evs ∧
      taken task.key self.log ++ evs =
        (routed task.name self.log).payloads.filterMap codec.event :=
  (h.served task.name ⟨task, hm, hl, rfl⟩).events

theorem routed_init (codec : Codec ν) : Routed codec init where
  served := by
    rintro key ⟨task, hm, -⟩
    cases hm
  quits := by
    rintro subscription (⟨msg, hm, -⟩ | ⟨task, hm, -⟩) <;> cases hm

variable {index subscription id : ℕ} {task : Task} {phase : Phase} {key : Key}

theorem live_set (ht : self.tasks[index]? = some task)
    (hback : phase.live = true → task.phase.live = true)
    (hts : after.tasks = self.tasks.set index { task with phase }) (h : after.Live key) :
    self.Live key := by
  obtain ⟨other, hm, hl, hnm⟩ := h
  rw [hts] at hm
  rcases mem_or_eq_of_mem_set hm with hold | rfl
  · exact ⟨other, hold, hl, hnm⟩
  · exact ⟨task, mem_of_getElem? ht, hback hl, hnm⟩

theorem left_set (ht : self.tasks[index]? = some task)
    (hback : phase.live = true → task.phase.live = true)
    (hts : after.tasks = self.tasks.set index { task with phase }) (h : self.Left key) :
    after.Left key := by
  rw [Left, hts]
  refine exists_mem_set ht (fun ⟨hleft, hnm⟩ => ⟨?_, hnm⟩) h
  refine Bool.eq_false_iff.mpr fun hl => ?_
  cases hleft.symm.trans (hback hl)

theorem Routed.frame (h : Routed codec self)
    (hrts : after.router.subscriptions = self.router.subscriptions)
    (hbufs : after.router.state.byKey = self.router.state.byKey) (hlog : after.log = self.log)
    (hl : ∀ key, after.Live key → self.Live key) (hleft : ∀ key, self.Left key → after.Left key)
    (hquits : ∀ subscription, Quits after subscription → Quits self subscription) :
    Routed codec after where
  served := by
    intro key hk
    obtain ⟨hexp, hevs⟩ := h.served key (hl key hk)
    refine ⟨?_, ?_⟩
    · rwa [hrts, hlog]
    · rwa [hbufs, hlog]
  quits := by
    intro subscription hquit
    obtain ⟨key, hk, hacked⟩ := h.quits subscription (hquits subscription hquit)
    exact ⟨key, hleft key hk, hlog ▸ hacked⟩

theorem Routed.moved (h : Routed codec self) (ht : self.tasks[index]? = some task)
    (hback : phase.live = true → task.phase.live = true)
    (hts : after.tasks = self.tasks.set index { task with phase })
    (hrts : after.router.subscriptions = self.router.subscriptions)
    (hs : after.router.state = self.router.state) (hlog : after.log = self.log)
    (hquits : ∀ subscription, Quits after subscription → Quits self subscription) :
    Routed codec after :=
  h.frame hrts (congrArg EventBuffer.byKey hs) hlog
    (fun _ => live_set ht hback hts) (fun _ => left_set ht hback hts) hquits

theorem quits_moved {msgs : List Message}
    (hts : after.tasks = self.tasks.set index { task with phase })
    (hp : ∀ id, phase ≠ .unlocking id subscription) (hsent : after.sent = self.sent ++ msgs)
    (hnew : ∀ msg ∈ msgs, ∀ topic, msg.ask = .unsubscribe topic subscription →
      Quits self subscription)
    (h : Quits after subscription) : Quits self subscription := by
  rcases h with ⟨msg, hm, topic, hask⟩ | ⟨other, hm, id, ho⟩
  · rw [hsent] at hm
    rcases mem_append.mp hm with hold | hadded
    · exact Or.inl ⟨msg, hold, topic, hask⟩
    · exact hnew msg hadded topic hask
  · rw [hts] at hm
    rcases mem_or_eq_of_mem_set hm with hold | rfl
    · exact Or.inr ⟨other, hold, id, ho⟩
    · exact absurd ho (hp id)

section

variable (h : Routed codec self)

include h

theorem Routed.moves (phase : Phase) (ht : self.tasks[index]? = some task)
    (hback : phase.live = true → task.phase.live = true)
    (hp : ∀ id subscription, phase ≠ .unlocking id subscription)
    (hts : after.tasks = self.tasks.set index { task with phase }) (hsent : after.sent = self.sent)
    (hrts : after.router.subscriptions = self.router.subscriptions)
    (hs : after.router.state = self.router.state) (hlog : after.log = self.log) :
    Routed codec after :=
  h.moved ht hback hts hrts hs hlog
    fun subscription => quits_moved hts (fun id => hp id subscription)
      (hsent.trans (append_nil _).symm) fun _ hm => by cases hm

theorem Routed.same (hts : after.tasks = self.tasks) (hsent : after.sent = self.sent)
    (hlog : after.log = self.log) (hrts : after.router.subscriptions = self.router.subscriptions)
    (hbufs : after.router.state.byKey = self.router.state.byKey) : Routed codec after := by
  refine h.frame hrts hbufs hlog (fun key hk => ?_) (fun key hk => ?_)
    fun subscription hquit => ?_
  · rwa [Live, hts] at hk
  · rwa [Left, hts]
  · rwa [Quits, hts, hsent] at hquit

theorem Routed.logged {e : Entry ν} (hsv : ∀ key, self.Live key →
      Served codec { self with router, log := self.log ++ [e] } key) :
    Routed codec { self with router, log := self.log ++ [e] } where
  served := hsv
  quits := by
    intro subscription hquit
    obtain ⟨key, hk, hacked⟩ := h.quits subscription hquit
    exact ⟨key, hk, mem_append_left _ hacked⟩

/-! ### The steps -/

/-- **A new subscription** expects nothing yet. -/
theorem Routed.subscribe (hinv : Inv self) (htr : Traced self) (typed : Bool) (topic : Topic)
    (params : String) : Routed codec (self.subscribe typed topic params) := by
  have hn : ∀ e ∈ self.log, e.number ≠ self.router.state.lastKey + 1 := by
    intro e hm heq
    have hle := htr.known e hm
    omega
  have hacked : ∀ id, .acked (self.router.state.lastKey + 1, topic) id ∉ self.log :=
    fun id hm => hn _ hm rfl
  refine ⟨?_, ?_⟩
  · rintro key ⟨task, hm, hl, rfl⟩
    rcases mem_concat.mp hm with hold | rfl
    · obtain ⟨hexp, events, hbuf, hevs⟩ := h.served _ ⟨task, hold, hl, rfl⟩
      refine ⟨hexp, events, ?_, hevs⟩
      change (self.router.state.byKey.insert (self.router.state.lastKey + 1) []).lookup task.key = _
      rw [Table.lookup_insert_iff, if_neg, ← hbuf]
      · rfl
      · have hle := hinv.key_le hold
        omega
    · change Served codec _ (self.router.state.lastKey + 1, topic)
      refine ⟨fun subscription => ?_, [], AList.lookup_insert _, ?_⟩
      · change (routed _ self.log).id = _ ↔ self.router.subscriptions.lookup subscription = _
        rw [routed_none hacked]
        refine ⟨fun hid => (nomatch hid), fun hrt => ?_⟩
        exact absurd (htr.route hrt) (hacked subscription)
      · change taken _ self.log ++ [] = (routed _ self.log).payloads.filterMap codec.event
        rw [taken_none fun ev hm => hn _ hm rfl, routed_none hacked]
        rfl
  · intro subscription hquit
    have hold : Quits self subscription := by
      rcases hquit with hsent | ⟨task, hm, id, hp⟩
      · exact Or.inl hsent
      · rcases mem_concat.mp hm with hold | rfl
        · exact Or.inr ⟨task, hold, id, hp⟩
        · cases hp
    obtain ⟨key, ⟨old, hm, hleft⟩, hin⟩ := h.quits subscription hold
    exact ⟨key, ⟨old, mem_append_left _ hm, hleft⟩, hin⟩

/-- **A dropped subscription** takes only its own buffer along. -/
theorem Routed.dropSubscription (hinv : Inv self) (ht : self.tasks[index]? = some task) :
    Routed codec (self.dropSubscription index task) := by
  have hback : Phase.live .leaving = true → task.phase.live = true := fun hl => nomatch hl
  have hmv : Routed codec (self.move index task .leaving) :=
    h.moves .leaving ht hback (fun _ _ hp => nomatch hp) rfl rfl rfl rfl rfl
  refine ⟨?_, hmv.quits⟩
  rintro key ⟨other, hm, hl, rfl⟩
  obtain ⟨hexp, events, hbuf, hevs⟩ := hmv.served _ ⟨other, hm, hl, rfl⟩
  refine ⟨hexp, events, ?_, hevs⟩
  change (self.router.state.byKey.erase task.key).lookup other.key = _
  rw [Table.lookup_erase_iff, if_neg]
  · exact hbuf
  · intro hk
    -- the dropped one is the only task with its key
    rcases mem_or_eq_of_mem_set hm with hold | rfl
    · obtain rfl := hinv.task_eq hold (mem_of_getElem? ht) hk
      obtain ⟨i, hi⟩ := mem_iff_getElem?.mp hm
      rcases of_getElem?_set hi with ⟨-, heq⟩ | ⟨hne, hi⟩
      · rw [heq] at hl
        cases hl
      · have h₁ := hinv.keys i other hi
        have h₂ := hinv.keys index other ht
        omega
    · cases hl

/-- **A cleanup that found its route** ends its own subscription. -/
theorem Routed.release (hinv : Inv self) (htr : Traced self) (ht : self.tasks[index]? = some task)
    (hp : task.phase = .leaving)
    (hfinds : self.router.subscriptions.lookup subscription = some task.name) :
    Routed codec (self.release index task (some subscription)) := by
  have hback : Phase.live (.unlocking self.nextId subscription) = true → task.phase.live = true :=
    fun hl => nomatch hl
  have hts : (self.release index task (some subscription)).tasks =
    self.tasks.set index { task with phase := .unlocking self.nextId subscription } := rfl
  have hlk : ∀ other key, (self.router.subscriptions.erase subscription).lookup other =
      some key → self.router.subscriptions.lookup other = some key :=
    fun other key ho => (Table.of_lookup_erase ho).2
  have hleft : task.phase.live = false := by
    rw [hp]
    rfl
  refine ⟨?_, ?_⟩
  · intro key hk
    obtain ⟨other, hold, hl, rfl⟩ := live_set ht hback hts hk
    obtain ⟨hexp, hevs⟩ := h.served _ ⟨other, hold, hl, rfl⟩
    refine ⟨fun id => (hexp id).trans ⟨fun hrt => ?_, hlk id other.name⟩, hevs⟩
    change (self.router.subscriptions.erase subscription).lookup id = _
    rw [Table.lookup_erase_iff, if_neg]
    · exact hrt
    · rintro rfl
      have hnm : other.name = task.name := some.inj (hrt.symm.trans hfinds)
      obtain rfl := hinv.task_eq hold (mem_of_getElem? ht) (congrArg Prod.fst hnm)
      cases hleft.symm.trans hl
  · intro id hquit
    by_cases heq : id = subscription
    · subst heq
      exact ⟨task.name, left_set ht hback hts ⟨task, mem_of_getElem? ht, hleft, rfl⟩,
        htr.route hfinds⟩
    · have hold : Quits self id := by
        refine quits_moved hts (fun other ho => ?_) (append_nil _).symm
          (fun _ hm => by cases hm) hquit
        cases ho
        exact heq rfl
      obtain ⟨key, hk, hacked⟩ := h.quits id hold
      exact ⟨key, left_set ht hback hts hk, hacked⟩

theorem Routed.pop {ev : ν} {s : EventBuffer ν}
    (hpop : self.router.state.pop task.key = some (ev, s)) :
    Routed codec { self with router.state := s, log := self.log ++ [.taken task.key ev] } :=
    by
  obtain ⟨rest, hbuf, rfl⟩ := EventBuffer.pop_some hpop
  refine h.logged fun key hl => ?_
  have hexpd : routed key (self.log ++ [.taken task.key ev]) = routed key self.log :=
    routed_concat key self.log _
  obtain ⟨hexp, events, hevs, hall⟩ := h.served key hl
  refine ⟨?_, ?_⟩
  · rw [hexpd]
    exact hexp
  · rw [hexpd, taken_concat, ← hall]
    by_cases hk : key.1 = task.key
    · refine ⟨rest, ?_, ?_⟩
      · rw [hk]
        exact AList.lookup_insert _
      · obtain rfl : ev :: rest = events := some.inj (hbuf.symm.trans (hk ▸ hevs))
        rw [hk]
        simp [taken]
    · refine ⟨events, ?_, ?_⟩
      · rw [Table.lookup_insert_iff, if_neg hk, hevs]
      · have hn : taken key.1 [Entry.taken task.key ev] = [] := by
          simp [taken, Ne.symm hk]
        rw [hn, append_nil]

theorem Routed.acknowledge (hinv : Inv self) (htr : Traced self)
    (hreq : self.router.requests.lookup id = some (.subscribe key))
    (hown : ∀ other, .acked other subscription ∉ self.log) :
    Routed codec { self with
      router := self.router.acknowledge id subscription key
      log := self.log ++ [.acked key subscription] } := by
  have hnoroute : ∀ other, self.router.subscriptions.lookup other ≠ some key :=
    fun other ho => (hinv.routes other key ho).2 id hreq
  refine h.logged fun owner hl => ?_
  obtain ⟨hexp, events, hbuf, hevs⟩ := h.served owner hl
  refine ⟨fun other => ?_, events, hbuf, ?_⟩
  · change (routed owner (self.log ++ [.acked key subscription])).id = _ ↔
      (self.router.subscriptions.insert subscription key).lookup other = _
    rw [Table.lookup_insert_iff, routed_concat, Expectation.next]
    by_cases hk : key = owner
    · rw [if_pos hk, hk]
      constructor
      · rintro heq
        cases heq
        exact if_pos rfl
      · intro ho
        split at ho
        · rename_i heq
          rw [heq]
        · exact absurd (hk ▸ ho) (hnoroute other)
    · rw [if_neg hk]
      refine (hexp other).trans ?_
      by_cases heq : other = subscription
      · subst heq
        rw [if_pos rfl]
        constructor
        · exact fun hrt => absurd (htr.route hrt) (hown owner)
        · exact fun hsome => absurd (some.inj hsome) hk
      · rw [if_neg heq]
  · rw [taken_concat, routed_concat]
    have hpayloads : ((routed owner self.log).next owner
        (.acked key subscription : Entry ν)).payloads = (routed owner self.log).payloads := by
      rw [Expectation.next]
      split <;> rfl
    rw [hpayloads, ← hevs]
    exact congrArg (· ++ events) (append_nil _)

end

theorem observe_lookup (codec : Codec ν) (s : EventBuffer ν) (key : Key) (pl : String)
    (n : ℕ) : (s.observe codec key pl).1.byKey.lookup n =
      if n = key.1 then
        (s.byKey.lookup key.1).map (· ++ (codec.event pl).toList)
      else s.byKey.lookup n := by
  by_cases hnum : n = key.1
  · subst hnum
    cases hev : codec.event pl with
    | none =>
      simp only [EventBuffer.observe, hev, toList_none, append_nil]
      exact map_id'.symm
    | some ev =>
      cases hbuf : s.byKey.lookup key.1 with
      | none =>
        simp only [EventBuffer.observe, hev, hbuf]
        rfl
      | some evs =>
        simp only [EventBuffer.observe, hev, hbuf]
        exact AList.lookup_insert _
  · rw [if_neg hnum]
    simp only [EventBuffer.observe]
    split
    · split
      · exact AList.lookup_insert_ne hnum
      · rfl
    · rfl

theorem notification_parts (codec : Codec ν) (router : Router ν) (params : Notification) :
    (router.dispatchNotification codec params).state.lastKey = router.state.lastKey ∧
      (∀ id, (router.dispatchNotification codec params).subscriptions.lookup id =
        match router.subscriptions.lookup params.subscription with
        | none => router.subscriptions.lookup id
        | some key =>
          if key.2 = .signature ∧ id = params.subscription then none
          else router.subscriptions.lookup id) ∧
      ∀ n, (router.dispatchNotification codec params).state.byKey.lookup n =
        match router.subscriptions.lookup params.subscription with
        | none => router.state.byKey.lookup n
        | some key => (router.state.observe codec key params.result).1.byKey.lookup n := by
  cases hrt : router.subscriptions.lookup params.subscription with
  | none =>
    rw [Router.dispatchNotification_none hrt]
    exact ⟨rfl, fun _ => rfl, fun _ => rfl⟩
  | some key =>
    rw [Router.dispatchNotification_some hrt]
    refine ⟨Router.observe_last codec _ _ _, fun id => ?_, fun _ => rfl⟩
    change (if _ then _ else _ : Table ℕ Key).lookup id = _
    by_cases hsig : key.2 = .signature
    · rw [if_pos hsig, Table.lookup_erase_iff]
      simp [hsig]
    · simp [hsig]

theorem Routed.notify (h : Routed codec self) (hinv : Inv self) (params : Notification) :
    Routed codec { self with
      router := self.router.dispatchNotification codec params
      log := self.log ++ [.notified params.subscription params.result] } := by
  obtain ⟨-, hrts, hbufs⟩ := notification_parts codec self.router params
  refine h.logged fun owner hl => ?_
  obtain ⟨hexp, events, hbuf, hevs⟩ := h.served owner hl
  refine ⟨fun id => ?_, ?_⟩
  · rw [routed_concat, Expectation.next, hrts]
    by_cases hmine : (routed owner self.log).id = some params.subscription
    · have hrt := (hexp params.subscription).mp hmine
      rw [if_pos hmine, hrt]
      dsimp only
      by_cases hsig : owner.2 = .signature
      · rw [if_pos hsig]
        refine ⟨fun hn => (nomatch hn), fun hid => ?_⟩
        split at hid
        · cases hid
        · rename_i hne
          exact absurd ⟨hsig, hinv.unique id params.subscription owner hid hrt⟩ hne
      · rw [if_neg hsig, if_neg fun hboth => hsig hboth.1]
        exact hexp id
    · rw [if_neg hmine]
      refine (hexp id).trans ?_
      cases hrt : self.router.subscriptions.lookup params.subscription with
      | none => exact Iff.rfl
      | some key =>
        dsimp only
        refine ⟨fun hid => ?_, fun hid => ?_⟩
        · rw [if_neg, hid]
          rintro ⟨-, rfl⟩
          exact hmine ((hexp params.subscription).mpr hid)
        · split at hid
          · cases hid
          · exact hid
  · have htk : taken owner.1
        (self.log ++ [.notified params.subscription params.result]) = taken owner.1 self.log :=
      (taken_concat owner.1 self.log _).trans (append_nil _)
    rw [htk, routed_concat, Expectation.next, hbufs]
    by_cases hmine : (routed owner self.log).id = some params.subscription
    · -- the notification is pushed, if its payload can be read
      rw [if_pos hmine, (hexp _).mp hmine]
      refine ⟨events ++ (codec.event params.result).toList, ?_, ?_⟩
      · dsimp only
        rw [observe_lookup, if_pos rfl]
        exact congrArg _ hbuf
      · have hone : [params.result].filterMap codec.event = (codec.event params.result).toList := by
          cases hev : codec.event params.result <;> simp [hev]
        rw [filterMap_append, ← hevs, append_assoc, hone]
    · rw [if_neg hmine]
      refine ⟨events, ?_, hevs⟩
      split
      · exact hbuf
      · rename_i key hrt
        rw [observe_lookup, if_neg, hbuf]
        intro hk
        obtain ⟨task, hm, -, rfl⟩ := hl
        obtain ⟨⟨req, other, ho, rfl, -⟩, -⟩ := hinv.routes params.subscription key hrt
        obtain rfl := hinv.task_eq hm ho hk
        exact hmine ((hexp _).mpr hrt)

theorem Routed.read (h : Routed codec self) (hinv : Inv self) (htr : Traced self)
    (env : Option Envelope)
    (hown : ∀ key subscription, (self.read codec env).log = self.log ++ [.acked key subscription]
      → ∀ other, .acked other subscription ∉ self.log) :
    Routed codec (self.read codec env) := by
  cases hpa : parse env with
  | error reason =>
    simp only [Connection.read, hpa]
    exact h.same rfl rfl rfl rfl rfl
  | ok frame =>
    cases frame with
    | none =>
      simp only [Connection.read, hpa]
      exact h
    | some frame =>
      simp only [Connection.read, hpa] at hown ⊢
      cases frame with
      | malformed =>
        exact h.same rfl rfl (append_nil _) rfl rfl
      | notification method params => exact h.notify hinv params
      | reply id r =>
        rcases reply_parts codec self.router id r with
          ⟨hntd, hrts, hs⟩ | ⟨key, subscription, hreq, hntd, hrep⟩
        · simp only [hntd, append_nil]
          split <;> exact h.same rfl rfl rfl hrts (congrArg EventBuffer.byKey hs)
        · simp only [hntd, Router.dispatch_reply, hrep] at hown ⊢
          exact h.acknowledge hinv htr hreq (hown key subscription rfl)

theorem Routed.giveUp (h : Routed codec self) (hinv : Inv self)
    (ht : self.tasks[index]? = some task) (hl : task.phase.live = true) :
    Routed codec (self.giveUp index task) := by
  rw [Connection.giveUp]
  split
  · exact h.dropSubscription hinv ht
  · exact h.moves .kept ht (fun _ => hl) (fun _ _ hp => by cases hp) rfl rfl rfl rfl rfl

/-- **Every step keeps routes and expectations together**, if all acknowledgments have different
ids. -/
theorem Routed.change (h : Routed codec self) (hinv : Inv self) (htr : Traced self)
    (hch : Change codec self ev after) (hown : (ackedIds after.log).Nodup) :
    Routed codec after := by
  cases hch with
  | subscribed typed topic params => exact h.subscribe hinv htr typed topic params
  | locked ht hp hfree =>
    refine h.moved ht (fun _ => by rw [hp]; rfl) rfl rfl rfl rfl fun _ =>
      quits_moved rfl (fun _ hnew => by cases hnew) rfl fun msg hm topic hask => ?_
    cases mem_singleton.mp hm
    cases hask
  | unlocked ht hp hfree =>
    refine h.moved ht (fun hl => by cases hl) rfl rfl rfl rfl fun _ =>
      quits_moved rfl (fun _ hnew => by cases hnew) rfl fun msg hm topic hask => ?_
    -- the task was waiting to send this request
    cases mem_singleton.mp hm
    cases hask
    exact Or.inr ⟨_, mem_of_getElem? ht, _, hp⟩
  | sent ht hp =>
    refine h.moves _ ht (fun _ => by rw [hp]; rfl) (fun _ _ hnew => ?_) rfl rfl rfl rfl rfl
    split at hnew <;> cases hnew
  | unsent ht hp lastSent | abandoned ht hp hfail =>
    exact h.moves .done ht (fun hl => nomatch hl) (fun _ _ hnew => nomatch hnew) rfl rfl rfl
      rfl rfl
  | gaveUp ht hp =>
    refine h.giveUp hinv ht ?_
    rcases hp with hp | hp | hp | hp <;> rw [hp] <;> rfl
  | acknowledged ht hp hopen hpd =>
    exact h.moves .held ht (fun _ => by rw [hp]; rfl) (fun _ _ hnew => nomatch hnew) rfl rfl
      rfl rfl rfl
  | released route ht hp hopen hpd hfinds =>
    cases route with
    | none =>
      exact h.moves .done ht (fun hl => nomatch hl) (fun _ _ hnew => nomatch hnew) rfl rfl
        rfl rfl rfl
    | some subscription => exact h.release hinv htr ht hp hfinds
  | popped ht hp hpop => exact h.pop hpop
  | read env hopen =>
    refine h.read hinv htr env fun key subscription hlog other ho => ?_
    rw [hlog, ackedIds, filterMap_append] at hown
    have hm := mem_ackedIds.mpr ⟨other, ho⟩
    exact (nodup_append.mp hown).2.2 subscription hm subscription
      (mem_singleton_self _) rfl
  | closed reason => exact h.same rfl rfl rfl rfl rfl

theorem Change.log (h : Change codec self ev after) : ∃ es, after.log = self.log ++ es := by
  cases h with
  | popped ht hp hpop => exact ⟨_, rfl⟩
  | gaveUp ht hp =>
    refine ⟨[], ?_⟩
    rw [Connection.giveUp]
    split <;> exact (append_nil _).symm
  | released route ht hp hopen hpd hfinds =>
    refine ⟨[], ?_⟩
    cases route <;> exact (append_nil _).symm
  | read env hopen =>
    rw [Connection.read]
    split
    · exact ⟨[], (append_nil _).symm⟩
    · exact ⟨[], (append_nil _).symm⟩
    · dsimp only
      split <;> exact ⟨_, rfl⟩
  | _ => exact ⟨[], (append_nil _).symm⟩

theorem Run.routed (h : Run codec init self) (hown : (ackedIds self.log).Nodup) :
    Routed codec self := by
  induction h with
  | refl => exact routed_init codec
  | step hrun hst ih =>
    rename_i before last ev
    have hch := step_change hst
    obtain ⟨es, hlog⟩ := hch.log
    exact (ih (ackedIds_nodup (hlog ▸ hown))).change (hrun.inv inv_init) hrun.traced hch hown

/-- **No notification is lost**, on a connection whose acknowledgments all name different ids, and
where no signature subscription is notified twice. -/
theorem receives_of_own_ids (h : Reachable codec self) (hown : (ackedIds self.log).Nodup)
    {task : Task} (hmem : task ∈ self.tasks) (hlive : task.phase.live = true)
    (hone : task.topic = .signature → (heard task.name self.log).payloads.length ≤ 1) :
    Receives codec self task := by
  have hinv := Run.inv h inv_init
  have hrouted := Run.routed h hown
  obtain ⟨hexpects, events, hbuffer, hevents⟩ := hrouted.served _ ⟨task, hmem, hlive, rfl⟩
  refine ⟨⟨events, hbuffer, ?_⟩, fun id hid hfirst => ?_, ?_⟩
  · rw [routed_of_one hone] at hevents
    exact hevents
  · rcases routed_heard task.name self.log with ⟨heq, -⟩ | ⟨hsig, first, rest, -, hall, -⟩
    · exact (hexpects id).mp (by rw [heq, hid])
    · cases hall.symm.trans (hfirst hsig)
  · intro id hid message hmessage topic hask
    -- whoever unsubscribed this id was acknowledged with it, so it was the task itself
    obtain ⟨key, ⟨old, hold, hleft, rfl⟩, hacked⟩ :=
      hrouted.quits id (Or.inl ⟨message, hmessage, topic, hask⟩)
    have hname := acked_unique hown hacked (acked_of_heard hid)
    obtain rfl := hinv.task_eq hold hmem (congrArg Prod.fst hname)
    cases hleft.symm.trans hlive

def twoIds : Codec String :=
  ⟨fun text => if text = "7" then some 7 else if text = "8" then some 8 else none, some⟩

def sampleNotification (subscription : ℕ) (payload : String) : Event :=
  .frame (some ⟨some "slotNotification", none, none, none, some ⟨subscription, payload⟩⟩)

/-- Two subscriptions with the same parameters, answered with these ids, and a notification for the
first. -/
def twoSubscriptions (first second : String) : List Event :=
  [.subscribe true .slot "[]", .locked 0, .sent 0 true,
    .subscribe true .slot "[]", .locked 1, .sent 1 true,
    sampleReply 1 first, .acknowledged 0, sampleReply 2 second, .acknowledged 1,
    sampleNotification 7 "slot"]

theorem receives_of_own_ids_two :
    Receives twoIds (init.goOn twoIds (twoSubscriptions "7" "8"))
        ⟨1, .slot, "[]", true, 1, .held⟩ ∧
      (heard (1, .slot) (init.goOn twoIds (twoSubscriptions "7" "8")).log).payloads = ["slot"] :=
  ⟨receives_of_own_ids (run_goOn twoIds init _) (by decide +kernel) (by decide +kernel)
    (by decide +kernel) (fun h => by cases h), by decide +kernel⟩

/-- **A shared id loses notifications.** Both subscriptions were acknowledged with the id 7 and
are held. The one notification of that id does not reach the first of them; and when the second
is dropped, the server is told to end the subscription of both. -/
theorem shared_id_loses :
    let self := init.goOn twoIds (twoSubscriptions "7" "7")
    let later := self.goOn twoIds [.drop 1, .released 1 (some 7), .locked 1]
    self.tasks = [⟨1, .slot, "[]", true, 1, .held⟩, ⟨2, .slot, "[]", true, 2, .held⟩] ∧
      heard (1, .slot) self.log = ⟨some 7, ["slot"]⟩ ∧
      taken 1 self.log = [] ∧ self.router.state.byKey.lookup 1 = some [] ∧
      self.router.state.byKey.lookup 2 = some ["slot"] ∧
      later.tasks[0]? = some ⟨1, .slot, "[]", true, 1, .held⟩ ∧
      ⟨3, .unsubscribe .slot 7⟩ ∈ later.sent := by
  decide +kernel

end Connection

end Events

end Redsuite
