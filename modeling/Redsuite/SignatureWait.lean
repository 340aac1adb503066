import Redsuite.Ownership

/-!
# The outcome of a signature

Whether `try_confirm` and `try_send_and_confirm` get the outcome they wait for is decided by the
first notification of their subscription.
-/

namespace Redsuite

open List Option

namespace Events

variable {ν τ ε : Type} {reply : Reply ε}

/-! ### The subscription of a call -/

def Reading.tells (self : Reading ν τ ε) (event : ν) : Option (SignatureResult ε) :=
  (self.decode .signature event).map self.result

def ConfirmPhase.opened : ConfirmPhase ε → ℕ
  | .opening => 0
  | _ => 1

/-- The answer of the node does not decide: the status is not known or not confirmed, and the
transaction was sent. -/
def Reply.silent (mode : Mode) (reply : Reply ε) : Bool :=
  match mode, reply with
  | .confirm, .status none => true
  | .confirm, .status (some (none, false)) => true
  | .send, .sent none => true
  | _, _ => false

/-- A call has this signature subscription for itself, waits in the given `next`, and took no
processed notification. -/
structure Own (reading : Reading ν τ ε) (consumers : Consumers ν τ) (index : ℕ)
    (own : Option ℕ) (held : ℕ) : Prop extends
    Owns reading.codec reading.decode .signature consumers [index] own held where
  unseen : ∀ event ∈ consumers.heard index, ∀ err, reading.tells event ≠ some (.processed err)

namespace Own

variable {reading : Reading ν τ ε} {consumers after : Consumers ν τ} {i : ℕ}
  {own own' : Option ℕ} {held held' : ℕ}

theorem same (h : Own reading consumers i own held)
    (howns : Owns reading.codec reading.decode .signature after [i] own' held')
    (hhd : after.heard i = consumers.heard i) : Own reading after i own' held' :=
  ⟨howns, hhd ▸ h.unseen⟩

theorem received (h : Own reading consumers i own held)
    (howns : Owns reading.codec reading.decode .signature after [i] own' held') {event : ν}
    {v : τ} (hdec : reading.decode .signature event = some v)
    (hres : reading.result v = .received)
    (hhd : after.heard i = consumers.heard i ++ [event]) :
    Own reading after i own' held' := by
  refine ⟨howns, fun other hm err hproc => ?_⟩
  rw [hhd] at hm
  rcases mem_concat.mp hm with hm | rfl
  · exact h.unseen other hm err hproc
  · rw [Reading.tells, hdec, map_some, hres] at hproc
    cases hproc

theorem spared {a : Action} (h : Own reading consumers i own held)
    (hspr : a.spares i own = true)
    (hch : Consumers.Change reading.codec reading.decode consumers a after) :
    Own reading after i own held := by
  obtain ⟨howns, hhd⟩ := h.toOwns.spared (Action.sparesCall_of_spares hspr)
    (fun other hm => by rw [mem_singleton.mp hm]; exact hspr) hch
  exact h.same howns (hhd i (mem_singleton_self i))

end Own

/-! ### The steps of a call -/

namespace Confirmation

variable {reading : Reading ν τ ε} {self after : Confirmation ν τ ε}

/-- What holds between the call and the connection. -/
structure Inv (reading : Reading ν τ ε) (confirmation : Confirmation ν τ ε) : Prop where
  fit : Consumers.Fit reading.codec reading.decode confirmation.consumers
  own : confirmation.phase.busy = true → Own reading confirmation.consumers confirmation.task
    confirmation.phase.call confirmation.phase.opened

theorem inv_start {consumers : Consumers ν τ}
    (h : Consumers.Reachable reading.codec reading.decode consumers) (mode : Mode)
    (params : String) : Inv reading (start consumers mode params) := by
  have hst : consumers.step reading.codec reading.decode
      (.connection (.subscribe true .signature params)) =
      some (start consumers mode params : Confirmation ν τ ε).consumers := by
    simp [Consumers.step, Consumers.permits, Connection.step, Connection.notifies,
      Connection.arrivals, start]
  obtain ⟨howns, hnew, -⟩ := (Owns.start h.fit .signature).subscribed hst (Nat.zero_le _)
  refine ⟨howns.fit, fun _ => ⟨howns, fun event hm => ?_⟩⟩
  have hn : event ∈ Consumers.heard (start consumers mode params : Confirmation ν τ ε).consumers
    consumers.connection.tasks.length := hm
  rw [hnew] at hn
  cases hn

theorem inv_over (hfit : after.consumers.Fit reading.codec reading.decode)
    (hover : after.phase.busy = false) : Inv reading after :=
  ⟨hfit, fun hbusy => by cases hover.symm.trans hbusy⟩

/-- What the call itself keeps: its subscription, and the connection but for what it takes. -/
structure Same (before after : Confirmation ν τ ε) : Prop where
  mode : after.mode = before.mode
  task : after.task = before.task
  still : Still before.consumers after.consumers

/-- What one step does, case by case. -/
inductive Stepped (reading : Reading ν τ ε) (self : Confirmation ν τ ε) (event : ConfirmEvent ε)
    (after : Confirmation ν τ ε) : Prop where
  | others (action : Action) (hevent : event = .others action)
      (hstep : self.consumers.step reading.codec reading.decode action = some after.consumers)
      (hmode : after.mode = self.mode) (htask : after.task = self.task)
      (hphase : after.phase = self.phase)
  | fails (failure : ConfirmFailure) (hsame : Same self after)
      (hphase : after.phase = .returned (.error failure))
  | asks (hsame : Same self after) (hopening : self.phase = .opening)
      (hphase : after.phase = .asking)
  | decides (err : Option ε) (final : Bool) (hsame : Same self after)
      (hasking : self.phase = .asking) (hevent : event = .answered (.status (some (err, final))))
      (hphase : after.phase = .returned (.ok (outcomeOf err)))
  | rejects (message : String) (hsame : Same self after) (hasking : self.phase = .asking)
      (hmode : self.mode = .send) (hphase : after.phase = .returned (.ok (.error (.rejected message))))
  | silent (reply : Reply ε) (call : ℕ) (hsame : Same self after) (hasking : self.phase = .asking)
      (hevent : event = .answered reply) (hsilent : reply.silent self.mode = true)
      (hphase : after.phase = .waiting call)
  | waits (before call : ℕ) (hsame : Same self after) (hwaiting : self.phase = .waiting before)
      (hphase : after.phase = .waiting call)
  | takes (err : Option ε) (event : ν) (task : Task) (hsame : Same self after)
      (hphase : after.phase = .returned (.ok (outcomeOf err)))
      (htells : reading.tells event = some (.processed err))
      (hmem : event ∈ after.consumers.heard self.task)
      (htask : after.consumers.connection.tasks[self.task]? = some task)
      (htopic : task.topic = .signature) (hheld : task.phase = .held)

variable {event : ConfirmEvent ε}

theorem Stepped.taken {pl : ν} {v : τ} {err : Option ε} (hsm : Same self after)
    (hp : after.phase = .returned (.ok (outcomeOf err)))
    (howns : Owns reading.codec reading.decode .signature after.consumers [self.task] none 1)
    (hdec : reading.decode .signature pl = some v)
    (hres : reading.result v = .processed err)
    (hhd : after.consumers.heard self.task = self.consumers.heard self.task ++ [pl]) :
    Stepped reading self event after := by
  obtain ⟨task, ht, htop, hheld⟩ := howns.task 0 self.task rfl
  refine .takes err pl task hsm hp ?_ ?_ ht htop (hheld Nat.zero_lt_one)
  · rw [Reading.tells, hdec, map_some, hres]
  · rw [hhd]
    exact mem_append_right _ (mem_singleton_self pl)

theorem Stepped.same (h : Stepped reading self event after) :
    after.mode = self.mode ∧ after.task = self.task := by
  cases h with
  | others _ _ _ hmode ht => exact ⟨hmode, ht⟩
  | fails _ hsm | asks hsm | decides _ _ hsm | rejects _ hsm | silent _ _ hsm
  | waits _ _ hsm | takes _ _ _ hsm => exact ⟨hsm.mode, hsm.task⟩

theorem Stepped.still (h : Stepped reading self event after)
    (hev : ∀ a, event ≠ .others a) : Still self.consumers after.consumers := by
  cases h with
  | others a hos => exact absurd hos (hev a)
  | fails _ hsm | asks hsm | decides _ _ hsm | rejects _ hsm | silent _ _ hsm
  | waits _ _ hsm | takes _ _ _ hsm => exact hsm.still

theorem await_own (self : Confirmation ν τ ε) {consumers : Consumers ν τ}
    (h : Own reading consumers self.task none 1) :
    ∃ after, { self with consumers }.await reading = some after ∧ Inv reading after ∧
      after.phase = .waiting consumers.calls.length ∧ after.mode = self.mode ∧
      after.task = self.task ∧ after.consumers.connection = consumers.connection ∧
      Still consumers after.consumers := by
  have hav := h.available (Nat.le_refl 1) self.task (mem_singleton_self _)
  have hst : consumers.step reading.codec reading.decode (.next self.task) =
      some { consumers with calls := consumers.calls ++ [⟨[self.task], .begun⟩] } := by
    simp [Consumers.step, hav]
  have howns := h.called (.next self.task) rfl (Nat.le_refl 1)
  refine ⟨{ self with
    consumers := { consumers with calls := consumers.calls ++ [⟨[self.task], .begun⟩] }
    phase := .waiting consumers.calls.length }, ?_, ⟨howns.fit, fun _ => h.same howns rfl⟩, rfl, rfl,
    rfl, rfl, ⟨rfl, rfl, .refl⟩⟩
  simp only [Confirmation.await, hst, bind_eq_bind, bind_some]

section

variable (h : Inv reading self)

include h

theorem Inv.pollOutcome {call : ℕ} (hp : self.phase = .waiting call) {expired late : Bool}
    (hpoll : self.pollOutcome reading call expired late = some after) :
    Inv reading after ∧ Stepped reading self (.poll expired late) after := by
  have hown := h.own (by rw [hp]; rfl)
  rw [hp] at hown
  obtain ⟨consumers, hst, hpoll⟩ := bind_eq_some_iff.mp hpoll
  have hstl := Consumers.step_still hst fun _ hne => by cases hne
  cases hown.polled hst with
  | waits hans hwts hhd =>
    simp only [hans] at hpoll
    split at hpoll
    · obtain ⟨last, hla, hpoll⟩ := bind_eq_some_iff.mp hpoll
      cases hpoll
      have hlat := Consumers.step_still hla fun _ hne => by cases hne
      exact ⟨inv_over (hwts.fit.change (Consumers.step_change hla)) rfl,
        .fails .timeout ⟨rfl, rfl, hstl.trans hlat⟩ rfl⟩
    · cases hpoll
      refine ⟨⟨hwts.fit, fun _ => ?_⟩, .waits call call ⟨rfl, rfl, hstl⟩ hp hp⟩
      rw [hp]
      exact hown.same hwts (hhd _)
  | failed failure hans hfit =>
    simp only [hans] at hpoll
    cases hpoll
    exact ⟨inv_over hfit rfl, .fails _ ⟨rfl, rfl, hstl⟩ rfl⟩
  | found update event i hans hi hdec hhd hos hfree =>
    obtain rfl : i = self.task := mem_singleton.mp (mem_of_getElem? hi)
    simp only [hans] at hpoll
    split at hpoll
    · rename_i err hres
      cases hpoll
      exact ⟨inv_over hfree.fit rfl, .taken ⟨rfl, rfl, hstl⟩ rfl hfree hdec hres hhd⟩
    · rename_i hres
      obtain ⟨last, hla, hinv, hw, hmode, ht, -, hlat⟩ :=
        self.await_own (hown.received hfree hdec hres hhd)
      rw [hla] at hpoll
      cases hpoll
      exact ⟨hinv, .waits call _ ⟨hmode, ht, hstl.trans hlat⟩ hp hw⟩

theorem Inv.opened (hp : self.phase = .opening) {task : Task}
    (ht : self.consumers.connection.tasks[self.task]? = some task) (hheld : task.phase = .held) :
    Own reading self.consumers self.task none 1 := by
  have hown := h.own (by rw [hp]; rfl)
  rw [hp] at hown
  exact hown.same (hown.toOwns.opened rfl ht hheld) rfl

theorem Inv.begin (hp : self.phase = .opening) {task : Task}
    (ht : self.consumers.connection.tasks[self.task]? = some task) (hheld : task.phase = .held)
    (hbgn : self.begin reading = some after) :
    Inv reading after ∧ Stepped reading self .opened after := by
  have hown := h.opened hp ht hheld
  unfold Confirmation.begin at hbgn
  split at hbgn
  · cases hbgn
    exact ⟨⟨hown.fit, fun _ => hown⟩, .asks ⟨rfl, rfl, .refl _⟩ hp rfl⟩
  · obtain ⟨consumers, hst, hans, hlkd, howns⟩ := hown.tryNext Nat.zero_lt_one
    have hstl := Consumers.step_still hst fun _ hne => by cases hne
    simp only [hst, hans, bind_eq_bind, bind_some] at hbgn
    generalize (self.consumers.look reading.decode [self.task]).1 = answer at hbgn hlkd
    cases hlkd with
    | failed failure =>
      cases hbgn
      exact ⟨inv_over howns.fit rfl, .fails _ ⟨rfl, rfl, hstl⟩ rfl⟩
    | nothing hhd =>
      cases hbgn
      exact ⟨⟨howns.fit, fun _ => hown.same howns (hhd _)⟩, .asks ⟨rfl, rfl, hstl⟩ hp rfl⟩
    | found event i hi hdec hhd hos =>
      obtain rfl : i = self.task := mem_singleton.mp (mem_of_getElem? hi)
      dsimp only at hbgn
      split at hbgn
      · rename_i err hres
        cases hbgn
        exact ⟨inv_over howns.fit rfl, .taken ⟨rfl, rfl, hstl⟩ rfl howns hdec hres hhd⟩
      · rename_i hres
        cases hbgn
        exact ⟨⟨howns.fit, fun _ => hown.received howns hdec hres hhd⟩,
          .asks ⟨rfl, rfl, hstl⟩ hp rfl⟩

theorem Inv.hear (hp : self.phase = .asking) (hhear : self.hear reading reply = some after) :
    Inv reading after ∧ Stepped reading self (.answered reply) after := by
  have hown := h.own (by rw [hp]; rfl)
  rw [hp] at hown
  have hsm : ∀ r, Same self (self.finish r) := fun r => ⟨rfl, rfl, .refl _⟩
  obtain ⟨last, hla, hinv, hw, hmode, ht, -, hstl⟩ := self.await_own hown
  have haw : self.await reading = some last := hla
  have hsil : reply.silent self.mode = true → self.await reading = some after →
      Inv reading after ∧ Stepped reading self (.answered reply) after := by
    intro hrep haf
    cases haw.symm.trans haf
    exact ⟨hinv, .silent reply _ ⟨hmode, ht, hstl⟩ hp rfl hrep hw⟩
  unfold Confirmation.hear at hhear
  split at hhear
  · cases hhear
    exact ⟨inv_over h.fit rfl, .fails _ (hsm _) rfl⟩
  · rename_i err final hmode
    cases hhear
    exact ⟨inv_over h.fit rfl, .decides (some err) final (hsm _) hp rfl rfl⟩
  · cases hhear
    exact ⟨inv_over h.fit rfl, .decides none true (hsm _) hp rfl rfl⟩
  · rename_i report hfl hfinal hmode
    refine hsil ?_ hhear
    rw [hmode]
    rcases report with _ | ⟨_ | err, _ | _⟩
    · rfl
    · rfl
    · exact absurd rfl hfinal
    · exact absurd rfl (hfl err _)
    · exact absurd rfl (hfl err _)
  · rename_i msg hmode
    cases hhear
    exact ⟨inv_over h.fit rfl, .rejects msg (hsm _) hp hmode rfl⟩
  · rename_i hmode
    refine hsil ?_ hhear
    rw [hmode]
    rfl
  · cases hhear

theorem Inv.step (hst : self.step reading event = some after) :
    Inv reading after ∧ Stepped reading self event after := by
  cases event with
  | others a =>
    obtain ⟨hspr, hst⟩ := of_guard hst
    obtain ⟨consumers, hcons, hst⟩ := bind_eq_some_iff.mp hst
    cases hst
    have hch := Consumers.step_change hcons
    exact ⟨⟨h.fit.change hch, fun hbusy => (h.own hbusy).spared (hspr hbusy) hch⟩,
      .others a rfl hcons rfl rfl rfl⟩
  | opened =>
    simp only [Confirmation.step] at hst
    split at hst
    · rename_i task hp ht
      split at hst
      · rename_i hheld
        exact h.begin hp ht hheld hst
      · cases hst
      · cases hst
      · cases hst
      · cases hst
        exact ⟨inv_over h.fit rfl, .fails _ ⟨rfl, rfl, .refl _⟩ rfl⟩
    · cases hst
  | answered reply =>
    simp only [Confirmation.step] at hst
    split at hst
    · rename_i hp
      exact h.hear hp hst
    · cases hst
  | poll expired late =>
    simp only [Confirmation.step] at hst
    split at hst
    · rename_i call hp
      exact h.pollOutcome hp hst
    · cases hst
  | late =>
    simp only [Confirmation.step] at hst
    split at hst <;> cases hst
    · exact ⟨inv_over h.fit rfl, .fails _ ⟨rfl, rfl, .refl _⟩ rfl⟩
    · exact ⟨inv_over h.fit rfl, .fails _ ⟨rfl, rfl, .refl _⟩ rfl⟩

end

theorem Reachable.inv (h : Reachable reading self) : Inv reading self := by
  obtain ⟨consumers, mode, params, hcons, hrch⟩ := h
  exact Machine.Reachable.induction hrch (inv_start hcons mode params)
    fun _ _ _ hinv hst => (hinv.step hst).1

/-! ### What the server sends -/

end Confirmation

def Reading.reads (self : Reading ν τ ε) (payload : String) : Option (SignatureResult ε) :=
  (self.codec.event payload).bind self.tells

namespace Confirmation

variable {reading : Reading ν τ ε} {self after : Confirmation ν τ ε}

variable {task : Task} {consumers : Consumers ν τ} {i : ℕ} {event : ν} {err : Option ε}

theorem Inv.front (h : Inv reading self) (hown : (ackedIds self.consumers.connection.log).Nodup)
    (ht : self.consumers.connection.tasks[self.task]? = some task)
    (hl : task.phase.live = true) {first : SignatureResult ε}
    {rest : List (Option (SignatureResult ε))}
    (hfst : (notifications task.name self.consumers.connection.log).map reading.reads =
      some first :: rest) :
    ∃ event waiting events, reading.tells event = some first ∧
      self.consumers.connection.router.state.byKey.lookup task.key = some events ∧
      taken task.key self.consumers.connection.log ++ events = event :: waiting := by
  have hrch := h.fit.sound.delivered.reached
  obtain ⟨events, hbuf, hevs⟩ :=
    (Connection.Run.routed hrch hown).events task (mem_of_getElem? ht) hl
  have hhead := routed_head task.name self.consumers.connection.log
  cases hall : notifications task.name self.consumers.connection.log with
  | nil =>
    rw [hall] at hfst
    cases hfst
  | cons pl others =>
    rw [hall] at hfst hhead
    obtain ⟨hrds, -⟩ := List.cons.inj hfst
    obtain ⟨event, hev, htl⟩ := bind_eq_some_iff.mp hrds
    cases hpayloads : (routed task.name self.consumers.connection.log).payloads with
    | nil =>
      rw [hpayloads] at hhead
      cases hhead
    | cons pl' later =>
      rw [hpayloads] at hhead hevs
      cases hhead
      rw [filterMap_cons_some hev] at hevs
      exact ⟨event, _, events, htl, hbuf, hevs⟩

theorem look_front {v : τ} {rest : List ν} (hopen : consumers.connection.router.error = none)
    (hrd : consumers.connection.router.state.malformed = 0)
    (ht : consumers.connection.tasks[i]? = some task) (htop : task.topic = .signature)
    (hbuf : consumers.connection.router.state.byKey.lookup task.key = some (event :: rest))
    (hdec : reading.decode .signature event = some v) :
    (consumers.look reading.decode [i]).1 = .ok (some ⟨0, task.key, v⟩) := by
  have hpop : consumers.connection.router.state.pop task.key = some (event,
      { consumers.connection.router.state with
        byKey := consumers.connection.router.state.byKey.insert task.key rest }) := by
    simp only [EventBuffer.pop, if_pos hrd, hbuf]
  have hts : ([i].filterMap fun task => consumers.connection.tasks[task]?) = [task] := by
    rw [filterMap_cons_some ht, filterMap_nil]
  simp only [Consumers.look, hts, Connection.observe, hopen, Connection.takeFirst,
    Connection.take, if_pos hrd, hpop, htop, hdec]

theorem poll_front {p held : ℕ} {rest : List ν} {update : Update τ}
    (h : Own reading consumers i (some p) held)
    (ht : consumers.connection.tasks[i]? = some task)
    (hbuf : consumers.connection.router.state.byKey.lookup task.key = some (event :: rest))
    (hlook : (consumers.look reading.decode [i]).1 = .ok (some update)) (expired : Bool) :
    ∃ after, consumers.step reading.codec reading.decode (.poll p expired) = some after ∧
      after.answer p = some (.ok (some update)) := by
  obtain ⟨call, hc, hl, hsubs⟩ := h.call p rfl
  have hawk : (consumers.pollAwake reading.decode p call expired).answer p =
      some (.ok (some update)) := by
    rcases consumers.pollAwake_cases reading.decode p call expired with ⟨hnil, -⟩ | ⟨-, heq⟩
    · rw [hsubs] at hnil
      cases hnil
    · have hc' : (consumers.look reading.decode [i]).2.calls[p]? = some call := hc
      rw [heq, hsubs, Consumers.answer_move _ hc', hlook]
      rfl
  cases hp : call.phase with
  | begun | woken => exact ⟨_, by simp [Consumers.step, hc, hp], hawk⟩
  | parked =>
    -- nobody sleeps beside a filled buffer
    have hidle := h.fit.sound.attended.asleep call (mem_of_getElem? hc) hp
    have hm : i ∈ call.subscriptions := by
      rw [hsubs]
      exact mem_singleton_self i
    cases hidle.empty i hm task ht _ hbuf
  | ended ans | dropped =>
    rw [hp] at hl
    cases hl

/-- What is left of a call, if the node does not decide. -/
def rest (self : Confirmation ν τ ε) (reply : Reply ε) (expired late : Bool) :
    List (ConfirmEvent ε) :=
  match self.phase, self.mode with
  | .opening, .confirm => [.opened]
  | .opening, .send => [.opened, .answered reply, .poll expired late]
  | .asking, _ => [.answered reply, .poll expired late]
  | .waiting _, _ => [.poll expired late]
  | .returned _, _ => []

/-- A subscription whose first event is a processed notification that nobody took. -/
structure Fronted (reading : Reading ν τ ε) (connection : Connection ν) (index : ℕ)
    (err : Option ε) :
    Prop where
  opened : connection.router.error = none
  read : connection.router.state.malformed = 0
  front : ∃ (task : Task) (event : ν) (value : τ) (rest : List ν),
    connection.tasks[index]? = some task ∧ task.topic = .signature ∧ task.phase = .held ∧
    connection.router.state.byKey.lookup task.key = some (event :: rest) ∧
    reading.decode .signature event = some value ∧ reading.result value = .processed err

theorem poll_fronted (h : Inv reading self)
    (hfront : Fronted reading self.consumers.connection self.task err) {call : ℕ}
    (hp : self.phase = .waiting call) (expired late : Bool) :
    ∃ last, self.step reading (.poll expired late) = some last ∧
      last.phase = .returned (.ok (outcomeOf err)) := by
  have hown := h.own (by rw [hp]; rfl)
  rw [hp] at hown
  obtain ⟨task, event, value, rest, ht, htop, -, hbuf, hdec, hres⟩ := hfront.front
  obtain ⟨consumers, hst, hans⟩ := poll_front hown ht hbuf
    (look_front hfront.opened hfront.read ht htop hbuf hdec) expired
  refine ⟨({ self with consumers } : Confirmation ν τ ε).finish (.ok (outcomeOf err)), ?_, rfl⟩
  simp only [Confirmation.step, hp, Confirmation.pollOutcome, hst, bind_eq_bind,
    bind_some, hans, hres]

theorem hear_fronted (h : Inv reading self)
    (hfront : Fronted reading self.consumers.connection self.task err)
    (hp : self.phase = .asking) (hrep : reply.silent self.mode = true) :
    ∃ next call, self.step reading (.answered reply) = some next ∧ Inv reading next ∧
      next.phase = .waiting call ∧ Fronted reading next.consumers.connection next.task err := by
  have hown := h.own (by rw [hp]; rfl)
  rw [hp] at hown
  obtain ⟨next, hnx, hinv, hw, -, ht, hsm, -⟩ := self.await_own hown
  refine ⟨next, _, ?_, hinv, hw, ?_⟩
  · have haw : self.await reading = some next := hnx
    simp only [Confirmation.step, hp, Confirmation.hear]
    unfold Reply.silent at hrep
    split at hrep
    · rename_i hmode
      simp only [hmode, haw]
    · rename_i hmode
      simp only [hmode, haw]
    · rename_i hmode
      simp only [hmode, haw]
    · cases hrep
  · rw [hsm, ht]
    exact hfront

theorem run_fronted (h : Inv reading self)
    (hfront : Fronted reading self.consumers.connection self.task err)
    (hbusy : self.phase.busy = true) (hrep : reply.silent self.mode = true) (expired late : Bool) :
    ∃ last, Machine.run (step reading) self (self.rest reply expired late) = some last ∧ last.phase
    = .returned (.ok (outcomeOf err)) := by
  have hasking : ∀ {s : Confirmation ν τ ε}, Inv reading s →
      Fronted reading s.consumers.connection s.task err → s.phase = .asking →
      reply.silent s.mode = true →
      ∃ last, Machine.run (step reading) s [.answered reply, .poll expired late] = some last ∧
        last.phase = .returned (.ok (outcomeOf err)) := by
    intro s hs hstateFront hp hsil
    obtain ⟨next, call, hst, hnx, hw, hnextFront⟩ :=
      hear_fronted hs hstateFront hp hsil
    obtain ⟨last, hpoll, hla⟩ := poll_fronted hnx hnextFront hw expired late
    exact ⟨last, by simp only [Machine.run, hst, hpoll], hla⟩
  cases hp : self.phase with
  | returned r =>
    rw [hp] at hbusy
    cases hbusy
  | waiting call =>
    obtain ⟨last, hpoll, hla⟩ := poll_fronted h hfront hp expired late
    refine ⟨last, ?_, hla⟩
    simp only [rest, hp, Machine.run, hpoll]
  | asking =>
    simp only [rest, hp]
    exact hasking h hfront hp hrep
  | opening =>
    obtain ⟨task, event, value, waiting, ht, htop, hheld, hbuf, hdec, hres⟩ :=
      hfront.front
    have hop : self.step reading .opened = self.begin reading := by
      simp only [Confirmation.step, hp, ht, hheld]
    cases hmode : self.mode with
    | send =>
      have hbgn : self.begin reading = some { self with phase := .asking } := by
        simp only [Confirmation.begin, hmode]
      obtain ⟨last, hrun, hla⟩ :=
        hasking (h.begin hp ht hheld hbgn).1 hfront rfl hrep
      refine ⟨last, ?_, hla⟩
      simp only [rest, hp, hmode]
      rw [Machine.run, hop, hbgn]
      exact hrun
    | confirm =>
      -- the notification is there already
      obtain ⟨consumers, hst, hans, -⟩ :=
        (h.opened hp ht hheld).tryNext Nat.zero_lt_one
      rw [look_front hfront.opened hfront.read ht htop hbuf hdec] at hans
      refine ⟨({ self with consumers, phase := .asking } : Confirmation ν τ ε).finish
        (.ok (outcomeOf err)), ?_, rfl⟩
      simp only [rest, hp, hmode, Machine.run, hop, Confirmation.begin, hst,
        bind_eq_bind, bind_some, hans, hres]

/-- A processed notification that came first stands first in the buffer as long as the call goes on:
it would have returned with it. -/
theorem Inv.fronted (h : Inv reading self) (hown : (ackedIds self.consumers.connection.log).Nodup)
    (ht : self.consumers.connection.tasks[self.task]? = some task) (hheld : task.phase = .held)
    (hbusy : self.phase.busy = true) (hopen : self.consumers.connection.router.error = none)
    (hrd : self.consumers.connection.router.state.malformed = 0)
    {rest : List (Option (SignatureResult ε))}
    (hfst : (notifications task.name self.consumers.connection.log).map reading.reads =
      some (.processed err) :: rest) : Fronted reading self.consumers.connection self.task err := by
  have hl : task.phase.live = true := by
    rw [hheld]
    rfl
  obtain ⟨found, hf, htop, -⟩ := (h.own hbusy).task 0 self.task rfl
  cases ht.symm.trans hf
  have hunseen := (h.own hbusy).unseen
  rw [← h.fit.heard_eq ht] at hunseen
  obtain ⟨event, waiting, events, htl, hbuf, hall⟩ := h.front hown ht hl hfst
  have hn : taken task.key self.consumers.connection.log = [] := by
    cases htk : taken task.key self.consumers.connection.log with
    | nil => rfl
    | cons first later =>
      rw [htk] at hall
      obtain ⟨rfl, -⟩ := List.cons.inj hall
      rw [htk] at hunseen
      exact absurd htl (hunseen first mem_cons_self err)
  rw [hn, nil_append] at hall
  rw [hall] at hbuf
  obtain ⟨value, hdec, hres⟩ := map_eq_some_iff.mp htl
  exact ⟨hopen, hrd, task, event, value, waiting, ht, htop, hheld, hbuf, hdec, hres⟩

/-! ### After a received notification -/

theorem routed_grows {codec : Codec ν} {decode : Topic → ν → Option τ} {last : Consumers ν τ}
    {a : Action} (h : consumers.step codec decode a = some last) :
    ∃ more, last.routed = consumers.routed ++ more := by
  cases a with
  | connection event =>
    cases Consumers.step_change h with
    | connected => exact ⟨_, rfl⟩
    | called hbgs => cases hbgs
  | _ =>
    refine ⟨[], ?_⟩
    rw [(Consumers.step_still h fun _ hne => by cases hne).routed, append_nil]

theorem about_grows (h : Inv reading after) (hbusy : after.phase.busy = true)
    {routed more : List (ℕ × ν)} (hone : about (after.task + 1) routed = [event])
    (hrtd : after.consumers.routed = routed ++ more) :
    about (after.task + 1) after.consumers.routed = [event] := by
  obtain ⟨task, ht, htop, -⟩ := (h.own hbusy).task 0 after.task rfl
  have hnum := (h.fit.sound.delivered.reached.inv Connection.inv_init).keys _ task ht
  have hall : about task.key after.consumers.routed = event :: about task.key more := by
    rw [hrtd, about_append, hnum, hone]
    rfl
  have hsome : about task.key after.consumers.routed ≠ [] := by
    rw [hall]
    exact cons_ne_nil _ _
  obtain ⟨hlen, -⟩ := h.fit.oneShot task (mem_of_getElem? ht) htop hsome
  rw [hall, length_cons, Nat.succ_inj, length_eq_zero_iff] at hlen
  rw [← hnum, hall, hlen]

/-- A call waits in vain, or has failed: the one event its subscription gets is a received one. -/
def Vain (reading : Reading ν τ ε) (index : ℕ) (event : ν)
    (confirmation : Confirmation ν τ ε) : Prop :=
  (∃ failure, confirmation.phase = .returned (.error failure)) ∨
    (∃ call, confirmation.phase = .waiting call) ∧ Inv reading confirmation ∧
      confirmation.task = index ∧ about (index + 1) confirmation.consumers.routed = [event]

theorem Vain.step (htl : reading.tells event = some .received)
    (h : Vain reading i event self) {next : ConfirmEvent ε}
    (hst : self.step reading next = some after) : Vain reading i event after := by
  rcases h with ⟨failure, hp⟩ | ⟨⟨call, hp⟩, hinv, rfl, hone⟩
  · refine Or.inl ⟨failure, ?_⟩
    cases next with
    | others a =>
      obtain ⟨-, hst⟩ := of_guard hst
      obtain ⟨consumers, -, hst⟩ := bind_eq_some_iff.mp hst
      cases hst
      exact hp
    | _ =>
      simp only [Confirmation.step, hp] at hst
      cases hst
  · obtain ⟨haf, hstepped⟩ := hinv.step hst
    cases hstepped with
    | others a _ hcons _ ht hsm =>
      rw [hp] at hsm
      obtain ⟨more, hmore⟩ := routed_grows hcons
      rw [← ht] at hone ⊢
      exact Or.inr ⟨⟨call, hsm⟩, haf, rfl,
        about_grows haf (by rw [hsm]; rfl) hone hmore⟩
    | fails failure _ hfl => exact Or.inl ⟨failure, hfl⟩
    | waits _ call hsm _ hwts =>
      refine Or.inr ⟨⟨call, hwts⟩, haf, hsm.task, ?_⟩
      rw [hsm.still.routed]
      exact hone
    | takes err found task hsm _ hproc hm =>
      -- it took the one event there is
      have hrtd := (haf.fit.sound.delivered.ordered (self.task + 1)).subset hm
      rw [hsm.still.routed, hone, mem_singleton] at hrtd
      rw [hrtd, htl] at hproc
      cases hproc
    | asks _ hopg => cases hp.symm.trans hopg
    | decides _ _ _ hasking | rejects _ _ hasking | silent _ _ _ hasking =>
      cases hp.symm.trans hasking

/-! ### The first notification decides -/

/-- **The first notification decides.** Let every subscription of the connection have an id of its
own, and let the server have sent `n` received notifications for the subscription of a call, and then
a processed one. If `n` is zero, a call that is not over runs on to the outcome of the processed
notification, as long as the connection is there, everything could be read and the node does not
decide otherwise. If `n` is not zero, a call that waits in `signature_outcome` never returns an
outcome. -/
theorem first_notification_decides (h : Reachable reading self)
    (hown : (ackedIds self.consumers.connection.log).Nodup) {task : Task}
    (htask : self.consumers.connection.tasks[self.task]? = some task) (hheld : task.phase = .held)
    (hbusy : self.phase.busy = true) {n : ℕ} {err : Option ε}
    (hsent : (notifications task.name self.consumers.connection.log).map reading.reads =
      List.replicate n (some .received) ++ [some (.processed err)]) :
    (n = 0 → self.consumers.connection.router.error = none →
      self.consumers.connection.router.state.malformed = 0 →
      ∀ reply : Reply ε, reply.silent self.mode = true → ∀ expired late,
        ∃ last, Machine.run (step reading) self (self.rest reply expired late) = some last ∧
          last.phase = .returned (.ok (outcomeOf err))) ∧
    (n ≠ 0 → ∀ call, self.phase = .waiting call → ∀ later,
      Machine.Reachable (step reading) self later → ∀ outcome,
        later.phase ≠ .returned (.ok outcome)) := by
  have hinv := h.inv
  refine ⟨?_, ?_⟩
  · rintro rfl hopen hread reply hreply expired late
    exact run_fronted hinv (hinv.fronted hown htask hheld hbusy hopen hread hsent) hbusy hreply
      expired late
  · intro hn call hphase later hlater outcome hreturned
    obtain ⟨m, rfl⟩ := Nat.exists_eq_succ_of_ne_zero hn
    have hlive : task.phase.live = true := by
      rw [hheld]
      rfl
    obtain ⟨found, hfound, htopic, -⟩ := (hinv.own hbusy).task 0 self.task rfl
    cases htask.symm.trans hfound
    obtain ⟨event, waiting, events, htells, hbuffer, hall⟩ := hinv.front hown htask hlive hsent
    have hdelivered := hinv.fit.sound.delivered
    have hkey := (hdelivered.reached.inv Connection.inv_init).keys _ task htask
    have hone : about (self.task + 1) self.consumers.routed = [event] := by
      have hrouted := hdelivered.buffered task.key events hbuffer
      rw [hall] at hrouted
      obtain ⟨hlength, -⟩ := hinv.fit.oneShot task (mem_of_getElem? htask) htopic
        (by rw [← hrouted]; exact cons_ne_nil _ _)
      rw [← hrouted, length_cons, Nat.succ_inj, length_eq_zero_iff] at hlength
      rw [← hkey, ← hrouted, hlength]
    have hvain : Vain reading self.task event later :=
      Machine.Reachable.induction hlater (Or.inr ⟨⟨call, hphase⟩, hinv, rfl, hone⟩)
        fun _ _ _ hvain hstep => hvain.step htells hstep
    rcases hvain with ⟨failure, hfailed⟩ | ⟨⟨call, hwaiting⟩, -⟩
    · rw [hfailed] at hreturned
      cases hreturned
    · rw [hwaiting] at hreturned
      cases hreturned

def sampleReading : Reading String String String where
  codec := Connection.twoIds
  decode _ event := some event
  result event :=
    if event = "received" then .received
    else if event = "ok" then .processed none
    else .processed (some event)

def sentTransaction : List (ConfirmEvent String) :=
  [.others (.connection (.locked 0)), .others (.connection (.sent 0 true)),
    .others (.connection (Connection.sampleReply 1 "7")), .others (.connection (.acknowledged 0)),
    .opened, .answered (.sent none)]

def sentAndThen (events : List (ConfirmEvent String)) : Confirmation String String String :=
  Machine.goOn (step sampleReading) (start .init .send "[signature]") (sentTransaction ++ events)

def signatureNotification (payload : String) : ConfirmEvent String :=
  .others (.connection (Connection.sampleNotification 7 payload))

/-- The transaction has failed, and the call was not polled since. -/
def failedFirst : Confirmation String String String :=
  sentAndThen [signatureNotification "failed"]

theorem first_notification_decides_failed :
    failedFirst.phase = .waiting 0 ∧
      ∃ last, Machine.run (step sampleReading) failedFirst [.poll true true] = some last ∧
        last.phase = .returned (.ok (.error (.executed "failed"))) := by
  have hreached : Reachable sampleReading failedFirst :=
    ⟨.init, .send, "[signature]", .refl _, Machine.reachable_goOn _ _⟩
  have hphase : failedFirst.phase = .waiting 0 := by decide +kernel
  have htask : failedFirst.consumers.connection.tasks[failedFirst.task]? =
      some ⟨1, .signature, "[signature]", true, 1, .held⟩ := by decide +kernel
  have hsent : (notifications (1, .signature) failedFirst.consumers.connection.log).map
      sampleReading.reads = List.replicate 0 (some .received) ++
        [some (.processed (some "failed"))] := by
    decide +kernel
  obtain ⟨hfirst, -⟩ := first_notification_decides hreached (by decide +kernel) htask rfl
    (by rw [hphase]; rfl) hsent
  obtain ⟨last, hrun, hlast⟩ := hfirst rfl (by decide +kernel) (by decide +kernel) (.sent none)
    (by decide +kernel) true true
  refine ⟨hphase, last, ?_, hlast⟩
  simpa only [rest, hphase] using hrun

/-- **A processed notification after a received one is lost.** Both were delivered on the
acknowledged subscription, the connection is fine, and the call runs into its timeout. -/
theorem received_loses_outcome :
    let events := [signatureNotification "received", .poll false false,
      signatureNotification "failed", .poll false false]
    let self := sentAndThen events
    (notifications (1, .signature) self.consumers.connection.log).map sampleReading.reads =
        [some .received, some (.processed (some "failed"))] ∧
      self.phase = .waiting 1 ∧ self.consumers.connection.router.error = none ∧
      self.consumers.connection.router.state.malformed = 0 ∧
      (sentAndThen (events ++ [.poll false true])).phase = .returned (.error .timeout) := by
  decide +kernel

end Confirmation

end Events

end Redsuite
