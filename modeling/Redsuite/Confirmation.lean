import Redsuite.EventOrder

/-!
# Waiting for a signature

A model of `Api::try_confirm` and `Api::try_send_and_confirm` of `core/src/api/wait.rs`.
-/

namespace Redsuite

open List

namespace Events

variable {ν τ ε : Type}

/-- `RpcSignatureResult`. -/
inductive SignatureResult (ε : Type) : Type where
  /-- the transaction was executed, or failed with this error -/
  | processed (err : Option ε)
  | received
  deriving DecidableEq

/-- Why a transaction did not succeed. -/
inductive TxFailure (ε : Type) : Type where
  | rejected (message : String)
  | executed (err : ε)
  deriving DecidableEq

/-- How a transaction came out. -/
abbrev TxOutcome (ε : Type) : Type := Except (TxFailure ε) Unit

/-- The outcome of a processed notification: `result.err.map_or(Ok(()), ...)`. -/
def outcomeOf (err : Option ε) : TxOutcome ε :=
  match err with
  | none => .ok ()
  | some err => .error (.executed err)

/-- Why a confirmation fails. -/
inductive ConfirmFailure : Type where
  | subscription
  | request
  | wait (failure : Failure)
  /-- `ConfirmTimeout` -/
  | timeout
  deriving DecidableEq

/-- The two functions of the call. -/
inductive Mode : Type where
  /-- `try_confirm` -/
  | confirm
  /-- `try_send_and_confirm` -/
  | send

/-- What the server replies to its request. -/
inductive Reply (ε : Type) : Type where
  | failed
  /-- `get_signature_status`: the error of the transaction, and whether it is confirmed -/
  | status (found : Option (Option ε × Bool))
  /-- `try_send_transaction` -/
  | sent (rejection : Option String)

/-- Where the call is. -/
inductive ConfirmPhase (ε : Type) : Type where
  | opening
  | asking
  /-- `signature_outcome` waits in this call of `next` -/
  | waiting (call : ℕ)
  | returned (result : Except ConfirmFailure (TxOutcome ε))
  deriving DecidableEq

def ConfirmPhase.call : ConfirmPhase ε → Option ℕ
  | .waiting call => some call
  | _ => none

def ConfirmPhase.busy : ConfirmPhase ε → Bool
  | .returned _ => false
  | _ => true

/-- The action leaves this subscription alone, and the call of `next` its owner waits in. -/
def Action.spares (task : ℕ) (own : Option ℕ) : Action → Bool
  | .connection (.drop other) => other ≠ task
  | .connection _ => true
  | .tryNext other => other ≠ task
  | .next other => other ≠ task
  | .nextFrom others => !others.contains task
  | .poll call _ => own ≠ some call
  | .cancel call => own ≠ some call

def Consumers.answer (self : Consumers ν τ) (call : ℕ) : Option (Answer τ) :=
  match self.calls[call]? with
  | some ⟨_, .ended answer⟩ => some answer
  | _ => none

/-- A call of `try_confirm` or `try_send_and_confirm`, on a connection with other users. -/
structure Confirmation (ν τ ε : Type) where
  consumers : Consumers ν τ
  mode : Mode
  task : ℕ
  phase : ConfirmPhase ε

/-- What can happen next to the call. -/
inductive ConfirmEvent (ε : Type) : Type where
  /-- something that the server does, others, or the code that opens the subscription -/
  | others (action : Action)
  | opened
  | answered (reply : Reply ε)
  /-- `signature_outcome` is polled, before or after the time of `next` and that of the call -/
  | poll (expired late : Bool)
  | late

/-- How the parts of a connection are read: values, and their types. -/
structure Reading (ν τ ε : Type) where
  codec : Codec ν
  decode : Topic → ν → Option τ
  result : τ → SignatureResult ε

namespace Confirmation

variable (reading : Reading ν τ ε)

section

variable (self : Confirmation ν τ ε)

def finish (result : Except ConfirmFailure (TxOutcome ε)) : Confirmation ν τ ε :=
  { self with phase := .returned result }

/-- `signature_outcome` calls `next`. -/
def await : Option (Confirmation ν τ ε) := do
  let consumers ← self.consumers.step reading.codec reading.decode (.next self.task)
  some { self with consumers, phase := .waiting self.consumers.calls.length }

/-- The subscription is open. `try_confirm` looks whether a notification is there already. -/
def begin : Option (Confirmation ν τ ε) :=
  match self.mode with
  | .send => some { self with phase := .asking }
  | .confirm => do
    let consumers ← self.consumers.step reading.codec reading.decode (.tryNext self.task)
    let asking : Confirmation ν τ ε := { self with consumers, phase := .asking }
    match consumers.answer self.consumers.calls.length with
    | some (.error failure) => some (asking.finish (.error (.wait failure)))
    | some (.ok (some update)) =>
      match reading.result update.event with
      | .processed err => some (asking.finish (.ok (outcomeOf err)))
      | .received => some asking
    | _ => some asking

/-- The answer of the node, which may already decide. -/
def hear (reply : Reply ε) : Option (Confirmation ν τ ε) :=
  match self.mode, reply with
  | _, .failed => some (self.finish (.error .request))
  | .confirm, .status (some (some err, _)) => some (self.finish (.ok (.error (.executed err))))
  | .confirm, .status (some (none, true)) => some (self.finish (.ok (.ok ())))
  | .confirm, .status _ => self.await reading
  | .send, .sent (some message) => some (self.finish (.ok (.error (.rejected message))))
  | .send, .sent none => self.await reading
  | _, _ => none

/-- A poll of `signature_outcome`. After a received notification the loop goes round at once; that
this is a poll of its own here only lets more happen in between. -/
def pollOutcome (call : ℕ) (expired late : Bool) : Option (Confirmation ν τ ε) := do
  let consumers ← self.consumers.step reading.codec reading.decode (.poll call expired)
  let self : Confirmation ν τ ε := { self with consumers }
  match consumers.answer call with
  | some (.error failure) => some (self.finish (.error (.wait failure)))
  | some (.ok (some update)) =>
    match reading.result update.event with
    | .processed err => some (self.finish (.ok (outcomeOf err)))
    | .received => self.await reading
  | _ =>
    if late then do
      let consumers ← consumers.step reading.codec reading.decode (.cancel call)
      some ({ self with consumers }.finish (.error .timeout))
    else some self

/-- **One step**; `none` where it cannot happen. The subscription is the call's own. Both timeouts
poll what they wait for before the clock. -/
def step : ConfirmEvent ε → Option (Confirmation ν τ ε)
  | .others action => do
    guard (self.phase.busy = true → action.spares self.task self.phase.call = true)
    let consumers ← self.consumers.step reading.codec reading.decode action
    some { self with consumers }
  | .opened =>
    match self.phase, self.consumers.connection.tasks[self.task]? with
    | .opening, some task =>
      match task.phase with
      | .held => self.begin reading
      | .locking | .sending | .acking => none
      | _ => some (self.finish (.error .subscription))
    | _, _ => none
  | .answered reply =>
    match self.phase with
    | .asking => self.hear reading reply
    | _ => none
  | .poll expired late =>
    match self.phase with
    | .waiting call => self.pollOutcome reading call expired late
    | _ => none
  | .late =>
    match self.phase with
    | .opening | .asking => some (self.finish (.error .timeout))
    | _ => none

end

/-- A call begins: a signature subscription is opened on a connection that is in use. -/
def start (consumers : Consumers ν τ) (mode : Mode) (params : String) : Confirmation ν τ ε :=
  ⟨{ consumers with connection := consumers.connection.subscribe true .signature params }, mode,
    consumers.connection.tasks.length, .opening⟩

/-- A state of some run. -/
def Reachable (self : Confirmation ν τ ε) : Prop :=
  ∃ consumers mode params, Consumers.Reachable reading.codec reading.decode consumers ∧
    Machine.Reachable (step reading) (start consumers mode params) self

end Confirmation

/-! ### What others do to a subscription they do not have -/

namespace Consumers

variable {codec : Codec ν} {decode : Topic → ν → Option τ} {self after : Consumers ν τ}
  {i : ℕ} {own : Option ℕ}

/-- Nobody else waits for this subscription. -/
def Owned (consumers : Consumers ν τ) (index : ℕ) (own : Option ℕ) : Prop :=
  ∀ place call, consumers.calls[place]? = some call → call.phase.live = true →
    index ∈ call.subscriptions → own = some place

/-- Others have left the subscription as it is. -/
structure Spared (before after : Consumers ν τ) (index : ℕ) (own : Option ℕ) : Prop where
  /-- the task keeps its name, and a `Subscription` stays one -/
  task : ∀ task : Task, before.connection.tasks[index]? = some task →
    ∃ moved : Task, after.connection.tasks[index]? = some moved ∧ moved.name = task.name ∧
      (task.phase = .held → moved.phase = .held) ∧
      taken task.key after.connection.log = taken task.key before.connection.log
  owned : Owned after index own

theorem wake_subscriptions (call : Call τ) : call.wake.subscriptions = call.subscriptions := by
  unfold Call.wake
  split <;> rfl

theorem wake_live (call : Call τ) : call.wake.phase.live = call.phase.live := by
  unfold Call.wake
  split
  · rename_i hp
    rw [hp]
    rfl
  · rfl

variable {call : Call τ} {p : ℕ} {ev : Event} {conn : Connection ν} {routed : List (ℕ × ν)}

theorem Owned.called (h : Owned self i own)
    (hc : call.phase.live = true → i ∉ call.subscriptions) {found : Call τ}
    (hf : (self.calls ++ [call])[p]? = some found) (hl : found.phase.live = true)
    (hm : i ∈ found.subscriptions) : own = some p := by
  obtain ⟨-, rfl⟩ | ⟨-, hold⟩ := of_getElem?_concat hf
  · exact absurd hm (hc hl)
  · exact h p found hold hl hm

theorem look_spares {decode : Topic → ν → Option τ} (hinv : Connection.Inv self.connection)
    {subs : List ℕ} (hspr : i ∉ subs) {task : Task}
    (ht : self.connection.tasks[i]? = some task) :
    (self.look decode subs).2.connection.tasks[i]? = some task ∧
      taken task.key (self.look decode subs).2.connection.log =
        taken task.key self.connection.log := by
  have hts : (self.look decode subs).2.connection.tasks = self.connection.tasks :=
    observe_tasks self.connection _
  refine ⟨hts ▸ ht, ?_⟩
  have ho : ∀ other ∈ subs.filterMap fun task => self.connection.tasks[task]?,
      other.key ≠ task.key := by
    intro other hm hk
    obtain ⟨p, hpl, hf⟩ := mem_filterMap.mp hm
    have h₁ := hinv.keys p other hf
    have h₂ := hinv.keys i task ht
    obtain rfl : p = i := by omega
    exact hspr hpl
  simp only [look]
  have hspec := self.connection.observe_spec decode
    (subs.filterMap fun task => self.connection.tasks[task]?)
  generalize self.connection.observe decode _ = observed at hspec ⊢
  cases hspec with
  | closed | malformed | empty => rfl
  | returned _ hpl =>
    rw [taken_popped, if_neg (ho _ (mem_of_getElem? hpl)), append_nil]
  | lost _ hm => rw [taken_popped, if_neg (ho _ hm), append_nil]

theorem Owned.moved (h : Owned self i own) {phase : CallPhase τ}
    (hc : self.calls[p]? = some call) (hl : phase.live = true → call.phase.live = true)
    {other : ℕ} {found : Call τ}
    (hf : (self.calls.set p { call with phase })[other]? = some found)
    (hfoundLive : found.phase.live = true) (hm : i ∈ found.subscriptions) :
    own = some other := by
  obtain ⟨rfl, rfl⟩ | ⟨-, hold⟩ := of_getElem?_set hf
  · exact h other call hc (hl hfoundLive) hm
  · exact h other found hold hfoundLive hm

theorem Spared.moved (h : Owned self i own) {phase : CallPhase τ}
    (hc : self.calls[p]? = some call) (hl : phase.live = true → call.phase.live = true)
    (ht : ∀ task : Task, self.connection.tasks[i]? = some task →
      after.connection.tasks[i]? = some task ∧
        taken task.key after.connection.log = taken task.key self.connection.log)
    (hcls : after.calls = self.calls.set p { call with phase }) :
    Spared self after i own := by
  refine ⟨?_, ?_⟩
  · intro task hf
    obtain ⟨hsty, htk⟩ := ht task hf
    exact ⟨task, hsty, rfl, id, htk⟩
  · intro other found hf
    rw [hcls] at hf
    exact h.moved hc hl hf

theorem Spared.called (h : Owned self i own)
    (hc : call.phase.live = true → i ∉ call.subscriptions)
    (ht : ∀ task : Task, self.connection.tasks[i]? = some task →
      after.connection.tasks[i]? = some task ∧
        taken task.key after.connection.log = taken task.key self.connection.log)
    (hcls : after.calls = self.calls ++ [call]) : Spared self after i own := by
  refine ⟨?_, ?_⟩
  · intro task hf
    obtain ⟨hsty, htk⟩ := ht task hf
    exact ⟨task, hsty, rfl, id, htk⟩
  · intro other found hf
    rw [hcls] at hf
    exact h.called hc hf

theorem Spared.connected (h : Owned self i own)
    (hfollows : Connection.Follows codec self.connection ev conn)
    (hdrop : ev ≠ .drop i) (hconn : after.connection = conn)
    (hcls : after.calls = self.calls ∨ after.calls = self.calls.map Call.wake) :
    Spared self after i own := by
  refine ⟨?_, ?_⟩
  · intro task ht
    obtain ⟨moved, hmv, hnm⟩ := hfollows.stays i task ht
    rw [hconn]
    refine ⟨moved, hmv, hnm, fun hheld => ?_, hfollows.taken task.key⟩
    obtain rfl := Option.some.inj
      (hmv.symm.trans (hfollows.held i task ht hheld hdrop))
    exact hheld
  · intro p call hc hl hm
    rcases hcls with hcls | hcls
    · rw [hcls] at hc
      exact h p call hc hl hm
    · rw [hcls, getElem?_map, Option.map_eq_some_iff] at hc
      obtain ⟨old, hold, rfl⟩ := hc
      rw [wake_live] at hl
      rw [wake_subscriptions] at hm
      exact h p old hold hl hm

def settled (answer : Answer τ) (expired : Bool) : CallPhase τ :=
  match answer with
  | .ok none => if expired then .ended (.error .timedOut) else .parked
  | answer => .ended answer

theorem pollAwake_cases (decode : Topic → ν → Option τ) (self : Consumers ν τ) (p : ℕ)
    (call : Call τ) (expired : Bool) :
    (call.subscriptions = [] ∧ self.pollAwake decode p call expired =
      self.move p call (.ended (.error .noSubscriptions))) ∨
    (call.subscriptions ≠ [] ∧ self.pollAwake decode p call expired =
      (self.look decode call.subscriptions).2.move p call
        (settled (self.look decode call.subscriptions).1 expired)) := by
  unfold pollAwake
  split
  · rename_i hnil
    exact Or.inl ⟨hnil, rfl⟩
  · rename_i hne
    refine Or.inr ⟨hne, ?_⟩
    rcases self.look decode call.subscriptions with ⟨failure | _ | update, after⟩ <;> rfl

/-- **Others leave a subscription alone** that is not theirs. -/
theorem step_spares {a : Action} (hsd : Sound codec decode self)
    (howned : Owned self i own) (hspr : a.spares i own = true)
    (hch : Change codec decode self a after) : Spared self after i own := by
  have hinv := hsd.delivered.reached.inv Connection.inv_init
  cases hch with
  | @connected ev conn hpmt hst =>
    have hpop : ∀ p, ev ≠ .pop p := by
      rintro p rfl
      cases hpmt
    have hdrop : ev ≠ .drop i := by
      rintro rfl
      simp [Action.spares] at hspr
    refine .connected howned (Connection.step_follows hst hpop) hdrop rfl ?_
    split
    · exact Or.inr rfl
    · exact Or.inl rfl
  | @tried task hav =>
    have hne : i ∉ [task] := by
      rw [mem_singleton]
      rintro rfl
      simp [Action.spares] at hspr
    exact .called howned (by rintro ⟨⟩) (fun found => look_spares hinv hne) rfl
  | called hbgs hav =>
    rename_i tasks
    have hne : i ∉ tasks := by
      intro hm
      cases a with
      | next task =>
        cases hbgs
        rw [mem_singleton.mp hm] at hspr
        simp [Action.spares] at hspr
      | nextFrom others =>
        cases hbgs
        simp [Action.spares, hm] at hspr
      | _ => cases hbgs
    exact .called howned (fun _ => hne) (fun task ht => ⟨ht, rfl⟩) rfl
  | @polled p call expired hc hp =>
    have hown : own ≠ some p := of_decide_eq_true hspr
    have hl := CallPhase.live_of_awake hp
    rcases self.pollAwake_cases decode p call expired with ⟨-, heq⟩ | ⟨-, heq⟩
    · rw [heq]
      exact .moved howned hc (fun _ => hl) (fun task ht => ⟨ht, rfl⟩) rfl
    · rw [heq]
      have hne : i ∉ call.subscriptions :=
        fun hm => hown (howned p call hc hl hm)
      exact .moved howned hc (fun _ => hl) (fun task => look_spares hinv hne) rfl
  | overslept hc hp | cancelled hc =>
    exact .moved howned hc (by rintro ⟨⟩) (fun task ht => ⟨ht, rfl⟩) rfl
  | slept => exact ⟨fun task ht => ⟨task, ht, rfl, id, rfl⟩, howned⟩

/-! ### The first notification is the last -/

/-- No notification will reach this key: no route leads there, and none is asked for. -/
structure Silent (router : Router ν) (key : Key) : Prop where
  request : ∀ id, router.requests.lookup id ≠ some (.subscribe key)
  route : ∀ id, router.subscriptions.lookup id ≠ some key

theorem Silent.outcome {before after : Router ν} {key : Key} (h : Silent before key)
    (hk : key.1 ≤ before.state.lastKey) (hout : Router.Outcome before after) :
    Silent after key :=
  ⟨hout.request hk h.request, hout.route h.request h.route⟩

theorem mem_arrivals {e : ℕ × ν} (h : e ∈ conn.arrivals codec ev) :
    ∃ env method params key,
      ev = .frame env ∧ parse env = .ok (some (.notification method params)) ∧
      conn.router.subscriptions.lookup params.subscription = some key ∧
      conn.arrivals codec ev = [e] ∧ e.1 = key.1 ∧ codec.event params.result = some e.2 := by
  unfold Connection.arrivals at h ⊢
  split at h
  · rename_i env
    split at h
    · rename_i method params hpa
      split at h
      · rename_i key pl hrt hrd
        obtain rfl := mem_singleton.mp h
        exact ⟨env, method, params, key, rfl, hpa, hrt, rfl, rfl, hrd⟩
      · cases h
    · cases h
  · cases h

/-- A signature subscription gets one notification, and then no more. -/
def OneShot (connection : Connection ν) (routed : List (ℕ × ν)) : Prop :=
  ∀ task ∈ connection.tasks, task.topic = .signature → about task.key routed ≠ [] →
    (about task.key routed).length = 1 ∧ Silent connection.router task.name

theorem OneShot.connected {after : Connection ν} {returned : List (ℕ × τ)} (h : OneShot conn routed)
    (hdel : Delivered codec decode conn routed returned) (hst : conn.step codec ev = some after)
    (hpop : ∀ i, ev ≠ .pop i) : OneShot after (routed ++ conn.arrivals codec ev) := by
  have hinv := hdel.reached.inv Connection.inv_init
  have hfollows := Connection.step_follows hst hpop
  have hout := (Connection.step_change hst).outcome
  intro task hm htop hsome
  rcases hfollows.names task hm with ⟨old, hold, hnm⟩ | hnum
  · obtain ⟨hk, htop'⟩ := Prod.mk.inj hnm
    rw [← hk, about_append] at hsome ⊢
    rw [← hnm]
    by_cases hb : about old.key routed = []
    · -- the first one, which ends its route
      rw [hb] at hsome ⊢
      obtain ⟨item, hitem⟩ := exists_mem_of_ne_nil _ hsome
      obtain ⟨env, method, params, key, rfl, hpa, hrt, hone, he, -⟩ :=
        mem_arrivals (mem_about.mp hitem)
      obtain ⟨⟨req, owner, howner, rfl, -⟩, hanswered⟩ := hinv.routes _ key hrt
      obtain rfl := hinv.task_eq hold howner he
      refine ⟨by rw [hone, about_self]; rfl, ?_⟩
      obtain ⟨-, hst⟩ := of_guard hst
      cases hst
      simp only [Connection.read, hpa, Router.dispatch_notification]
      obtain ⟨-, hrts, -⟩ := Connection.notification_parts codec conn.router params
      refine ⟨?_, ?_⟩
      · intro id hid
        refine hanswered id ?_
        rwa [Router.dispatchNotification_some hrt] at hid
      · intro id hid
        rw [hrts, hrt] at hid
        dsimp only at hid
        split at hid
        · cases hid
        · rename_i hne
          exact hne ⟨htop'.trans htop, hinv.unique id _ _ hid hrt⟩
    · obtain ⟨hlen, hsil⟩ := h old hold (htop'.trans htop) hb
      have hn : about old.key (conn.arrivals codec ev) = [] := by
        refine eq_nil_iff_forall_not_mem.mpr ?_
        intro item hitem
        obtain ⟨env, method, params, key, -, -, hrt, -, he, -⟩ :=
          mem_arrivals (mem_about.mp hitem)
        obtain ⟨⟨req, owner, howner, rfl, -⟩, -⟩ := hinv.routes _ key hrt
        obtain rfl := hinv.task_eq hold howner he
        exact hsil.route _ hrt
      rw [hn, append_nil]
      exact ⟨hlen, hsil.outcome (hinv.key_le hold) hout⟩
  · -- a new one has got nothing
    refine absurd ?_ hsome
    exact about_fresh (hdel.routed_le ev) hnum

/-- What was routed to a subscription was sent for it: with the id it was acknowledged with. -/
def Sent (codec : Codec ν) (connection : Connection ν) (routed : List (ℕ × ν)) : Prop :=
  ∀ entry ∈ routed, ∃ key payload, key.1 = entry.1 ∧
    (∃ request, Connection.Named connection.tasks key request) ∧
    payload ∈ notifications key connection.log ∧ codec.event payload = some entry.2

theorem Sent.connected {after : Connection ν} (h : Sent codec conn routed)
    (hrch : conn.Reachable codec) (hst : conn.step codec ev = some after) (hpop : ∀ i, ev ≠ .pop i)
    : Sent codec after (routed ++ conn.arrivals codec ev) := by
  have hnamed : ∀ key request, Connection.Named conn.tasks key request →
      ∃ request, Connection.Named after.tasks key request := by
    rintro key request ⟨task, hm, rfl, rfl⟩
    obtain ⟨i, hi⟩ := mem_iff_getElem?.mp hm
    obtain ⟨moved, hmoved, hnm⟩ := (Connection.step_follows hst hpop).stays i task hi
    exact ⟨moved.request, moved, mem_of_getElem? hmoved, hnm, rfl⟩
  intro entry hm
  rcases mem_append.mp hm with hold | hnew
  · obtain ⟨key, pl, hk, ⟨req, hn⟩, hpl, hev⟩ := h entry hold
    obtain ⟨es, hlog⟩ := (Connection.step_change hst).log
    exact ⟨key, pl, hk, hnamed key req hn, hlog ▸ notifications_append _ _ _ hpl, hev⟩
  · obtain ⟨env, method, params, key, rfl, hpa, hrt, -, he, hev⟩ := mem_arrivals hnew
    have hid := (Connection.Run.traced hrch).routes params.subscription key hrt
    obtain ⟨⟨req, hn⟩, -⟩ := (hrch.inv Connection.inv_init).routes _ key hrt
    refine ⟨key, params.result, he.symm, hnamed key req hn, ?_, hev⟩
    obtain ⟨-, hst⟩ := of_guard hst
    cases hst
    simp only [Connection.read, hpa, Router.dispatch_notification]
    change _ ∈ notifications key (conn.log ++ [.notified params.subscription params.result])
    rw [notifications, heard_concat, Expectation.hear, if_pos hid]
    exact mem_concat_self

theorem Sent.looked (h : Sent codec conn routed) (tasks : List Task) :
    Sent codec (conn.observe decode tasks).2 routed := by
  have hspec := conn.observe_spec decode tasks
  generalize conn.observe decode tasks = observed at hspec ⊢
  cases hspec with
  | closed | malformed | empty => exact h
  | returned | lost =>
    intro entry hm
    obtain ⟨key, pl, hk, hn, hpl, hev⟩ := h entry hm
    exact ⟨key, pl, hk, hn, notifications_append _ _ _ hpl, hev⟩

/-- What holds of the calls on a connection in every run. -/
structure Fit (codec : Codec ν) (decode : Topic → ν → Option τ) (consumers : Consumers ν τ) :
    Prop where
  sound : Sound codec decode consumers
  oneShot : OneShot consumers.connection consumers.routed
  sent : Sent codec consumers.connection consumers.routed

theorem OneShot.looked (h : OneShot conn routed) (tasks : List Task) :
    OneShot (conn.observe decode tasks).2 routed := by
  obtain ⟨s, log, heq⟩ := observe_keeps decode conn tasks
  rw [heq]
  intro task hm htop hsome
  obtain ⟨hlen, hsil⟩ := h task hm htop hsome
  exact ⟨hlen, hsil.request, hsil.route⟩

theorem Fit.change {a : Action} (h : Fit codec decode self)
    (hch : Change codec decode self a after) : Fit codec decode after := by
  have hdel := h.sound.delivered
  suffices hboth : OneShot after.connection after.routed ∧
      Sent codec after.connection after.routed from ⟨h.sound.change hch, hboth.1, hboth.2⟩
  cases hch with
  | @connected ev conn hpmt hst =>
    have hpop : ∀ i, ev ≠ .pop i := by
      rintro i rfl
      cases hpmt
    exact ⟨h.oneShot.connected hdel hst hpop, h.sent.connected hdel.reached hst hpop⟩
  | tried => exact ⟨h.oneShot.looked _, h.sent.looked _⟩
  | @polled p call expired hc hp =>
    rcases self.pollAwake_cases decode p call expired with ⟨-, heq⟩ | ⟨-, heq⟩
    · rw [heq]
      exact ⟨h.oneShot, h.sent⟩
    · rw [heq]
      exact ⟨h.oneShot.looked _, h.sent.looked _⟩
  | _ => exact ⟨h.oneShot, h.sent⟩

theorem Reachable.fit (h : Reachable codec decode self) : Fit codec decode self := by
  refine Machine.Reachable.induction h ⟨⟨delivered_init, attended_init⟩, ?_, ?_⟩ ?_
  · intro task hm
    cases hm
  · intro entry hm
    cases hm
  · exact fun _ _ _ hfit hst => hfit.change (step_change hst)

end Consumers

end Events

end Redsuite
