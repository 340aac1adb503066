import Redsuite.EventsAck
import Redsuite.SignatureWait

/-!
# Confirming a transaction

`Api::try_confirm` learns of the outcome of a transaction from a notification that is there when the
subscription is, from the status that the node reports, or from a later notification.
-/

namespace Redsuite

open List

namespace Events

variable {ν τ ε : Type} {err : Option ε}

/-! ### The log -/

/-- The subscription was acknowledged. -/
def acknowledges (key : Key) (log : List (Entry ν)) : Bool :=
  log.any fun entry =>
    match entry with
    | .acked other _ => other = key
    | _ => false

section

variable {before after : List (Entry ν)}

theorem Quiet.notifications (h : Quiet before after) (key : Key) :
    notifications key after = notifications key before := by
  induction h with
  | refl => rfl
  | taken _ _ _ ih =>
    rw [← ih, Events.notifications, heard_concat]
    rfl

theorem Quiet.acknowledges (h : Quiet before after) (key : Key) :
    acknowledges key after = acknowledges key before := by
  induction h with
  | refl => rfl
  | taken _ _ _ ih =>
    rw [← ih, Events.acknowledges, any_append]
    exact Bool.or_false _

end

theorem acknowledges_iff {key : Key} {log : List (Entry ν)} :
    acknowledges key log = true ↔ ∃ sub, .acked key sub ∈ log := by
  rw [acknowledges, any_eq_true]
  constructor
  · rintro ⟨e, hm, hk⟩
    cases e with
    | acked other sub =>
      obtain rfl : other = key := of_decide_eq_true hk
      exact ⟨sub, hm⟩
    | notified sub pl => cases hk
    | taken n ev => cases hk
  · rintro ⟨sub, hm⟩
    exact ⟨_, hm, decide_eq_true rfl⟩

/-! ### The node -/

/-- A node, as far as it has to do with one transaction and one subscription. -/
structure Node (ε : Type) where
  executed : Option (Option ε)
  confirmed : Bool
  acknowledged : Bool
  notified : Bool
  /-- what the node answers to the question for the status, once it has looked -/
  status : Option (Option (Option ε × Bool))

/-- `try_confirm`, its connection and the node. -/
structure Served (ν τ ε : Type) where
  confirmation : Confirmation ν τ ε
  node : Node ε

/-- What the server does, and what the call does. -/
inductive ServedEvent (ε : Type) : Type where
  | execute (err : Option ε)
  /-- it is confirmed; a subscription that was acknowledged is notified -/
  | confirm
  | acknowledge
  | inform
  | look (report : Option (Option ε × Bool))
  /-- the client does something, or reads a frame, or others do -/
  | client (event : ConfirmEvent ε)

/-- A step of the call itself, or of the node that answers it. -/
def ServedEvent.own (expired late : Bool) : ServedEvent ε → Bool
  | .look _ => true
  | .client .opened => true
  | .client (.answered (.status _)) => true
  | .client (.poll expires ends) => expires = expired && ends = late
  | _ => false

/-- What the node may report: a confirmed transaction as such, and otherwise the truth or
nothing. -/
def Node.MayReport (node : Node ε) (report : Option (Option ε × Bool)) : Prop :=
  if node.confirmed then report = node.executed.map (·, true)
  else report = none ∨ report = node.executed.map (·, false)

theorem Node.MayReport.executed {node : Node ε} {final : Bool}
    (h : node.MayReport (some (err, final))) : node.executed = some err := by
  rw [MayReport] at h
  have hf : ∀ flag, some (err, final) = node.executed.map (·, flag) →
      node.executed = some err := by
    intro flag hmap
    obtain ⟨found, hf, hsm⟩ := Option.map_eq_some_iff.mp hmap.symm
    cases hsm
    exact hf
  split at h
  · exact hf true h
  · rcases h with hn | hsome
    · cases hn
    · exact hf false hsome

theorem Node.MayReport.confirmed {node : Node ε} {report : Option (Option ε × Bool)}
    (h : node.MayReport report) (hconf : node.confirmed = true)
    (herr : node.executed = some err) : report = some (err, true) := by
  rw [MayReport, if_pos hconf, herr] at h
  exact h

/-- The answer to the question for the status is the one that the node has found. -/
def Node.Answers (node : Node ε) : ConfirmEvent ε → Prop
  | .answered (.status report) => node.status = some report
  | _ => True

/-- What the node sends, by the log of the client: the acknowledgment, and a processed notification
with the outcome when it has notified, once. -/
structure Node.Sends (node : Node ε) (reading : Reading ν τ ε) (key : Key)
    (before after : List (Entry ν)) : Prop where
  acked : acknowledges key after = true → node.acknowledged = true
  told : notifications key after = notifications key before ∨
    notifications key before = [] ∧ node.notified = true ∧ node.executed.isSome = true ∧
      (notifications key after).map reading.reads = [node.executed.map .processed]

section

variable [DecidableEq ε]

instance (node : Node ε) (report : Option (Option ε × Bool)) :
    Decidable (node.MayReport report) := by
  unfold Node.MayReport
  infer_instance

instance (node : Node ε) (event : ConfirmEvent ε) : Decidable (node.Answers event) := by
  unfold Node.Answers
  split <;> infer_instance

instance (node : Node ε) (reading : Reading ν τ ε) (key : Key) (before after : List (Entry ν)) :
    Decidable (node.Sends reading key before after) :=
  decidable_of_iff ((acknowledges key after = true → node.acknowledged = true) ∧
    (notifications key after = notifications key before ∨
      notifications key before = [] ∧ node.notified = true ∧ node.executed.isSome = true ∧
        (notifications key after).map reading.reads = [node.executed.map .processed]))
    ⟨fun h => ⟨h.1, h.2⟩, fun h => ⟨h.acked, h.told⟩⟩

end

namespace Served

def key (self : Served ν τ ε) : Key := (self.confirmation.task + 1, .signature)

def log (self : Served ν τ ε) : List (Entry ν) := self.confirmation.consumers.connection.log

def step [DecidableEq ε] (reading : Reading ν τ ε) (self : Served ν τ ε) :
    ServedEvent ε → Option (Served ν τ ε)
  | .execute err => do
    guard (self.node.executed = none)
    some { self with node.executed := some err }
  | .confirm => do
    guard (self.node.executed.isSome && !self.node.confirmed)
    some { self with
      node.confirmed := true
      node.notified := self.node.notified || self.node.acknowledged }
  | .acknowledge => some { self with node.acknowledged := true }
  | .inform => do
    guard (self.node.confirmed && self.node.acknowledged)
    some { self with node.notified := true }
  | .look report => do
    guard (self.confirmation.phase = .asking ∧ self.node.status = none ∧ self.node.MayReport report)
    some { self with node.status := some report }
  | .client event => do
    guard (self.node.Answers event)
    let confirmation ← self.confirmation.step reading event
    guard (self.node.Sends reading self.key self.log confirmation.consumers.connection.log)
    some { self with confirmation }

/-- A call begins, on a connection in use; the transaction may have been executed and confirmed
before. -/
def start (consumers : Consumers ν τ) (params : String) (executed : Option (Option ε))
    (confirmed : Bool) : Served ν τ ε :=
  ⟨Confirmation.start consumers .confirm params, ⟨executed, confirmed, false, false, none⟩⟩

/-- A state of some run. -/
def Reachable [DecidableEq ε] (reading : Reading ν τ ε) (self : Served ν τ ε) : Prop :=
  ∃ consumers params executed confirmed,
    Consumers.Reachable reading.codec reading.decode consumers ∧
    (confirmed = true → executed.isSome = true) ∧
    Machine.Reachable (step reading) (start consumers params executed confirmed) self

/-! ### What holds between the call and the node -/

/-- What holds between the call and the server. -/
structure Honest (reading : Reading ν τ ε) (served : Served ν τ ε) : Prop where
  inv : Confirmation.Inv reading served.confirmation
  mode : served.confirmation.mode = .confirm
  acked : acknowledges served.key served.log = true → served.node.acknowledged = true
  told : notifications served.key served.log = [] ∨ ∃ err, served.node.executed = some err ∧
    (notifications served.key served.log).map reading.reads = [some (.processed err)]
  executed : served.node.confirmed = true → served.node.executed.isSome = true
  report : ∀ err final, served.node.status = some (some (err, final)) →
    served.node.executed = some err
  opening : served.confirmation.phase = .opening → served.node.status = none
  /-- once the status was no help, a confirmation is notified -/
  late : ((∃ call, served.confirmation.phase = .waiting call) ∨
      ∃ report, served.node.status = some report ∧
        Reply.silent .confirm (.status report) = true) →
    served.node.acknowledged = true ∧
      (served.node.confirmed = true → served.node.notified = true)
  outcome : ∀ outcome, served.confirmation.phase = .returned (.ok outcome) →
    ∃ err, served.node.executed = some err ∧ outcome = outcomeOf err

section

variable {reading : Reading ν τ ε} {self after : Served ν τ ε}

theorem Honest.key_eq (h : Honest reading self) {task : Task}
    (ht : self.confirmation.consumers.connection.tasks[self.confirmation.task]? = some task)
    (hbusy : self.confirmation.phase.busy = true) : task.name = self.key := by
  obtain ⟨found, hf, htop, -⟩ := (h.inv.own hbusy).task 0 self.confirmation.task rfl
  cases ht.symm.trans hf
  have hrch := h.inv.fit.sound.delivered.reached
  rw [key, Task.name, htop, (hrch.inv Connection.inv_init).keys _ task ht]

theorem Honest.asking (h : Honest reading self) (hp : self.confirmation.phase = .asking) :
    self.node.acknowledged = true := by
  have hbusy : self.confirmation.phase.busy = true := by rw [hp]; rfl
  obtain ⟨task, ht, -, hheld⟩ := (h.inv.own hbusy).task 0 self.confirmation.task rfl
  have hrch := h.inv.fit.sound.delivered.reached
  have hacked := hrch.acked (mem_of_getElem? ht)
    (hheld (by rw [hp]; exact Nat.zero_lt_one))
  refine h.acked ?_
  rw [← h.key_eq ht hbusy]
  exact acknowledges_iff.mpr hacked

/-- What the call has taken is what the node has sent, whatever ids others were given. -/
theorem told_taken (self : Served ν τ ε) (hinv : Confirmation.Inv reading self.confirmation)
    (htold : notifications self.key self.log = [] ∨ ∃ err, self.node.executed = some err ∧
      (notifications self.key self.log).map reading.reads = [some (.processed err)])
    {task : Task} (ht : self.confirmation.consumers.connection.tasks[self.confirmation.task]? =
      some task) (htop : task.topic = .signature) {ev : ν}
    (hm : ev ∈ taken task.key self.log)
    (htl : reading.tells ev = some (.processed err)) : self.node.executed = some err := by
  have hconn := hinv.fit.sound.delivered.reached.inv Connection.inv_init
  have hnm : task.name = self.key := by rw [key, Task.name, htop, hconn.keys _ task ht]
  have hrouted := mem_about.mp ((hinv.fit.sound.delivered.ordered task.key).subset hm)
  obtain ⟨key, pl, hk, ⟨req, owner, ho, rfl, -⟩, hpl, hrd⟩ := hinv.fit.sent _ hrouted
  obtain rfl := hconn.task_eq ho (mem_of_getElem? ht) hk
  rw [hnm] at hpl
  change pl ∈ notifications self.key self.log at hpl
  rcases htold with hn | ⟨found, hexecuted, hrds⟩
  · exact absurd hpl (hn ▸ not_mem_nil)
  · have hsm := mem_map_of_mem (f := reading.reads) hpl
    rw [hrds, mem_singleton, Reading.reads, hrd, Option.bind_some, htl] at hsm
    cases hsm
    exact hexecuted

theorem honest_start {cs : Consumers ν τ}
    (h : Consumers.Reachable reading.codec reading.decode cs) (params : String)
    {executed : Option (Option ε)} {confirmed : Bool}
    (hconf : confirmed = true → executed.isSome = true) :
    Honest reading (start cs params executed confirmed) := by
  have hinv : Confirmation.Inv reading (.start cs .confirm params) :=
    Confirmation.inv_start h .confirm params
  -- nobody was acknowledged with a key that is just given out
  have hfr : ∀ sub,
      .acked (cs.connection.tasks.length + 1, .signature) sub ∉
        cs.connection.log := by
    intro sub hm
    have hrch := h.fit.sound.delivered.reached
    have hle := (Connection.Run.traced hrch).known _ hm
    rw [(hrch.inv Connection.inv_init).last] at hle
    exact Nat.not_succ_le_self _ hle
  refine ⟨hinv, rfl, ?_, .inl ?_, hconf, ?_, fun _ => rfl, ?_, ?_⟩
  · intro hacked
    obtain ⟨sub, hm⟩ := acknowledges_iff.mp hacked
    exact absurd hm (hfr sub)
  · have hhead := routed_head (cs.connection.tasks.length + 1, .signature)
      cs.connection.log
    rw [routed_none hfr] at hhead
    exact head?_eq_none_iff.mp hhead
  · rintro err final ⟨⟩
  · rintro (⟨call, ⟨⟩⟩ | ⟨report, ⟨⟩, -⟩)
  · rintro out ⟨⟩

theorem Honest.client (h : Honest reading self) {ev : ConfirmEvent ε}
    {next : Confirmation ν τ ε} (hanss : self.node.Answers ev)
    (hst : self.confirmation.step reading ev = some next)
    (hsn : self.node.Sends reading self.key self.log next.consumers.connection.log) :
    Honest reading { self with confirmation := next } := by
  obtain ⟨hinv, hstepped⟩ := h.inv.step hst
  obtain ⟨hmode, ht⟩ := hstepped.same
  have hk : Served.key { self with confirmation := next } = self.key := by
    rw [key, key, ht]
  have htold : notifications self.key next.consumers.connection.log = [] ∨
      ∃ err, self.node.executed = some err ∧
        (notifications self.key next.consumers.connection.log).map reading.reads =
          [some (.processed err)] := by
    rcases hsn.told with hsm | ⟨-, -, hexecuted, hrds⟩
    · rw [hsm]
      exact h.told
    · obtain ⟨err, herr⟩ := Option.isSome_iff_exists.mp hexecuted
      rw [herr] at hrds
      exact .inr ⟨err, herr, hrds⟩
  refine ⟨hinv, hmode.trans h.mode, ?_, ?_, h.executed, h.report, ?_, ?_, ?_⟩
  · rw [hk]
    exact hsn.acked
  · rw [hk]
    exact htold
  · intro hp
    cases hstepped with
    | others _ _ _ _ _ hsm => exact h.opening (hsm.symm.trans hp)
    | fails _ _ ho | asks _ _ ho | decides _ _ _ _ _ ho | rejects _ _ _ _ ho
    | silent _ _ _ _ _ _ ho | waits _ _ _ _ ho | takes _ _ _ _ ho =>
      cases ho.symm.trans hp
  · rintro (⟨call, hp⟩ | hsil)
    · cases hstepped with
      | others _ _ _ _ _ hsm => exact h.late (.inl ⟨call, hsm.symm.trans hp⟩)
      | silent reply _ _ _ hev hsil =>
        rw [hev] at hanss
        rw [h.mode] at hsil
        cases reply with
        | status report => exact h.late (.inr ⟨report, hanss, hsil⟩)
        | failed => cases hsil
        | sent rejection => cases hsil
      | waits before _ _ hw => exact h.late (.inl ⟨before, hw⟩)
      | fails _ _ ho | asks _ _ ho | decides _ _ _ _ _ ho | rejects _ _ _ _ ho
      | takes _ _ _ _ ho => cases ho.symm.trans hp
    · exact h.late (.inr hsil)
  · intro out hret
    cases hstepped with
    | others _ _ _ _ _ hsm => exact h.outcome out (hsm.symm.trans hret)
    | decides err final _ _ hev hp =>
      rw [hev] at hanss
      cases hp.symm.trans hret
      exact ⟨err, h.report err final hanss, rfl⟩
    | takes err ev task _ hp htl hm hf htop hheld =>
      cases hp.symm.trans hret
      rw [← ht] at hf hm
      refine ⟨err, ?_, rfl⟩
      refine told_taken { self with confirmation := next } hinv ?_ hf htop
        ((hinv.fit.heard_eq hf).symm ▸ hm) htl
      rw [hk]
      exact htold
    | rejects _ _ _ hsend => cases h.mode.symm.trans hsend
    | fails _ _ ho | asks _ _ ho | silent _ _ _ _ _ _ ho | waits _ _ _ _ ho =>
      cases ho.symm.trans hret

theorem Honest.step [DecidableEq ε] (h : Honest reading self) {ev : ServedEvent ε}
    (hst : self.step reading ev = some after) : Honest reading after := by
  cases ev with
  | execute err =>
    obtain ⟨hn, hst⟩ := of_guard hst
    cases hst
    have hunknown : ∀ found, self.node.executed ≠ some found := by
      rw [hn]
      rintro _ ⟨⟩
    refine ⟨h.inv, h.mode, h.acked, ?_, fun _ => rfl, ?_, h.opening, h.late, ?_⟩
    · rcases h.told with hem | ⟨found, hf, -⟩
      · exact .inl hem
      · exact absurd hf (hunknown found)
    · intro found final hstatus
      exact absurd (h.report found final hstatus) (hunknown found)
    · intro out hret
      obtain ⟨found, hf, -⟩ := h.outcome out hret
      exact absurd hf (hunknown found)
  | confirm =>
    obtain ⟨hgd, hst⟩ := of_guard hst
    cases hst
    rw [Bool.and_eq_true] at hgd
    refine ⟨h.inv, h.mode, h.acked, h.told, fun _ => hgd.1, h.report, h.opening, ?_,
      h.outcome⟩
    intro hlate
    obtain ⟨hack, -⟩ := h.late hlate
    exact ⟨hack, fun _ => by rw [hack, Bool.or_true]⟩
  | acknowledge =>
    cases hst
    exact ⟨h.inv, h.mode, fun _ => rfl, h.told, h.executed, h.report, h.opening,
      fun hlate => ⟨rfl, (h.late hlate).2⟩, h.outcome⟩
  | inform =>
    obtain ⟨-, hst⟩ := of_guard hst
    cases hst
    exact ⟨h.inv, h.mode, h.acked, h.told, h.executed, h.report, h.opening,
      fun hlate => ⟨(h.late hlate).1, fun _ => rfl⟩, h.outcome⟩
  | look report =>
    obtain ⟨⟨hasking, -, hreport⟩, hst⟩ := of_guard hst
    cases hst
    refine ⟨h.inv, h.mode, h.acked, h.told, h.executed, ?_, ?_, ?_, h.outcome⟩
    · rintro err final ⟨⟩
      exact hreport.executed
    · intro hopg
      cases hasking.symm.trans hopg
    · rintro (⟨call, hw⟩ | ⟨found, ⟨⟩, hsil⟩)
      · cases hasking.symm.trans hw
      · refine ⟨h.asking hasking, fun hconf => ?_⟩
        obtain ⟨err, herr⟩ := Option.isSome_iff_exists.mp (h.executed hconf)
        rw [hreport.confirmed hconf herr] at hsil
        cases err <;> cases hsil
  | client ev =>
    obtain ⟨hanss, hst⟩ := of_guard hst
    obtain ⟨next, hnx, hst⟩ := Option.bind_eq_some_iff.mp hst
    obtain ⟨hsn, hst⟩ := of_guard hst
    cases hst
    exact h.client hanss hnx hsn

theorem Reachable.honest [DecidableEq ε] (h : Reachable reading self) : Honest reading self := by
  obtain ⟨cs, params, executed, confirmed, hcons, hconf, hrch⟩ := h
  exact Machine.Reachable.induction hrch (honest_start hcons params hconf)
    fun _ _ _ hhonest hst => hhonest.step hst

/-! ### The call returns -/

end

/-- What is left of the call leads to the outcome. -/
def Ends [DecidableEq ε] (reading : Reading ν τ ε) (expired late : Bool) (err : Option ε)
    (served : Served ν τ ε) : Prop :=
  ∃ events last, (∀ event ∈ events, ServedEvent.own expired late event = true) ∧
    Machine.run (step reading) served events = some last ∧
      last.confirmation.phase = .returned (.ok (outcomeOf err))

section

variable [DecidableEq ε] {reading : Reading ν τ ε} {self after : Served ν τ ε}
  {expired late : Bool} {err : Option ε}

theorem Ends.head {ev : ServedEvent ε} (howns : ev.own expired late = true)
    (hst : self.step reading ev = some after) (h : Ends reading expired late err after) :
    Ends reading expired late err self := by
  obtain ⟨evs, last, hevs, hrun, hp⟩ := h
  refine ⟨ev :: evs, last, forall_mem_cons.mpr ⟨howns, hevs⟩, ?_, hp⟩
  rw [Machine.run, hst]
  exact hrun

theorem Ends.now (h : self.confirmation.phase = .returned (.ok (outcomeOf err))) :
    Ends reading expired late err self :=
  ⟨[], self, forall_mem_nil _, rfl, h⟩

section

variable (h : Honest reading self)

include h

theorem Honest.client_step {ev : ConfirmEvent ε} {next : Confirmation ν τ ε}
    (hanss : self.node.Answers ev) (hev : ∀ a, ev ≠ .others a)
    (hst : self.confirmation.step reading ev = some next) :
    self.step reading (.client ev) = some { self with confirmation := next } := by
  have hq := ((h.inv.step hst).2.still hev).quiet
  have hsn : self.node.Sends reading self.key self.log next.consumers.connection.log := by
    refine ⟨?_, .inl (hq.notifications self.key)⟩
    rw [hq.acknowledges]
    exact h.acked
  simp only [Served.step, guard, if_pos hanss, hst, if_pos hsn, Option.pure_def,
    Option.bind_eq_bind, Option.bind_some]

theorem Honest.ends_decided (hp : self.confirmation.phase = .asking) {final : Bool}
    (hstatus : self.node.status = some (some (err, final)))
    (hfinal : err.isSome = true ∨ final = true) : Ends reading expired late err self := by
  have hst : self.confirmation.step reading (.answered (.status (some (err, final)))) =
      some (self.confirmation.finish (.ok (outcomeOf err))) := by
    simp only [Confirmation.step, hp, Confirmation.hear, h.mode]
    cases err with
    | some err => rfl
    | none =>
      rcases hfinal with hsome | rfl
      · cases hsome
      · rfl
  have hanss : self.node.Answers (.answered (.status (some (err, final)))) := hstatus
  exact .head rfl (h.client_step hanss (by rintro _ ⟨⟩) hst) (.now rfl)

theorem Honest.ends_asking (hp : self.confirmation.phase = .asking)
    (hstatus : self.node.status = none) (herr : self.node.executed = some err)
    (hconf : self.node.confirmed = true) : Ends reading expired late err self := by
  have hreport : self.node.MayReport (some (err, true)) := by
    rw [Node.MayReport, if_pos hconf, herr]
    rfl
  have hst : self.step reading (.look (some (err, true))) =
      some { self with node.status := some (some (err, true)) } := by
    simp only [Served.step, guard, if_pos (And.intro hp (And.intro hstatus hreport)),
      Option.pure_def, Option.bind_eq_bind, Option.bind_some]
  exact .head rfl hst ((h.step hst).ends_decided hp rfl (.inr rfl))

theorem Honest.ends_fronted (hbusy : self.confirmation.phase.busy = true)
    (hstatus : self.confirmation.phase = .asking →
      ∃ report, self.node.status = some report ∧ Reply.silent .confirm (.status report) = true)
    (hfront : Confirmation.Fronted reading self.confirmation.consumers.connection
      self.confirmation.task err) : Ends reading expired late err self := by
  have hpoll : ∀ served : Served ν τ ε, Honest reading served → ∀ call,
      served.confirmation.phase = .waiting call →
      Confirmation.Fronted reading served.confirmation.consumers.connection
        served.confirmation.task err → Ends reading expired late err served := by
    intro served hsv call hw hserves
    obtain ⟨last, hst, hp⟩ :=
      Confirmation.poll_fronted hsv.inv hserves hw expired late
    have howns : (.client (.poll expired late) : ServedEvent ε).own expired late = true := by
      simp only [ServedEvent.own, decide_true, Bool.and_self]
    exact .head howns (hsv.client_step trivial (by rintro _ ⟨⟩) hst) (.now hp)
  cases hp : self.confirmation.phase with
  | returned r =>
    rw [hp] at hbusy
    cases hbusy
  | waiting call => exact hpoll self h call hp hfront
  | asking =>
    obtain ⟨report, hreport, hsil⟩ := hstatus hp
    rw [← h.mode] at hsil
    obtain ⟨next, call, hst, -, hw, hnx⟩ :=
      Confirmation.hear_fronted h.inv hfront hp hsil
    have hanss : self.node.Answers (.answered (.status report)) := hreport
    have hcli := h.client_step hanss (by rintro _ ⟨⟩) hst
    exact .head rfl hcli (hpoll _ (h.step hcli) call hw hnx)
  | opening =>
    obtain ⟨last, hrun, hla⟩ := Confirmation.run_fronted h.inv hfront hbusy
      (show Reply.silent self.confirmation.mode (.status none) = true by rw [h.mode]; rfl)
      expired late
    rw [Confirmation.rest, hp, h.mode] at hrun
    obtain ⟨next, hst, hend⟩ := Machine.run_cons hrun
    cases hend
    have hanss : self.node.Answers .opened := trivial
    exact .head rfl (h.client_step hanss (by rintro _ ⟨⟩) hst) (.now hla)

theorem Honest.ends_opening (hp : self.confirmation.phase = .opening)
    (hown : (ackedIds self.log).Nodup) {task : Task}
    (ht : self.confirmation.consumers.connection.tasks[self.confirmation.task]? = some task)
    (hheld : task.phase = .held)
    (hopen : self.confirmation.consumers.connection.router.error = none)
    (hrd : self.confirmation.consumers.connection.router.state.malformed = 0)
    (hn : notifications self.key self.log = []) (herr : self.node.executed = some err)
    (hconf : self.node.confirmed = true) : Ends reading expired late err self := by
  have hrch := h.inv.fit.sound.delivered.reached
  have hnm := h.key_eq ht (by rw [hp]; rfl)
  -- the buffer is empty
  obtain ⟨evs, hbuf, hevs⟩ := (Connection.Run.routed hrch hown).events task
    (mem_of_getElem? ht) (by rw [hheld]; rfl)
  have hexpd : (routed task.name self.log).payloads = [] := by
    have hhead := routed_head task.name self.log
    rw [hnm, hn] at hhead
    rw [hnm]
    exact head?_eq_none_iff.mp hhead.symm
  rw [show (routed task.name self.confirmation.consumers.connection.log).payloads = [] from
    hexpd, filterMap_nil] at hevs
  obtain ⟨-, rfl⟩ := append_eq_nil_iff.mp hevs
  have hpop : self.confirmation.consumers.connection.router.state.pop task.key = none := by
    simp only [EventBuffer.pop, if_pos hrd, hbuf]
  have hts : ([self.confirmation.task].filterMap fun task =>
      self.confirmation.consumers.connection.tasks[task]?) = [task] := by
    rw [filterMap_cons_some ht, filterMap_nil]
  have hlook : (self.confirmation.consumers.look reading.decode [self.confirmation.task]).1 =
      .ok none := by
    simp only [Consumers.look, hts, Connection.observe, hopen, Connection.takeFirst,
      Connection.take, if_pos hrd, hpop]
  -- so that the call asks for the status
  obtain ⟨consumers, hcons, hans, -⟩ :=
    (h.inv.opened hp ht hheld).tryNext Nat.zero_lt_one
  rw [hlook] at hans
  have hst : self.confirmation.step reading .opened =
      some { self.confirmation with consumers, phase := .asking } := by
    simp only [Confirmation.step, hp, ht, hheld, Confirmation.begin, h.mode, hcons,
      Option.bind_eq_bind, Option.bind_some, hans]
  have hanss : self.node.Answers .opened := trivial
  have hcli := h.client_step hanss (by rintro _ ⟨⟩) hst
  exact .head rfl hcli ((h.step hcli).ends_asking rfl (h.opening hp) herr hconf)

end

/-- **`try_confirm` returns the outcome.** Whenever the transaction is executed and confirmed, and
whatever ids the server gives: what the call returns is its outcome. And once it is confirmed, the
call holds its subscription, and what the node has sent has arrived on a connection that goes on and
whose acknowledgments all name different ids, the rest of the call leads to the outcome. -/
theorem confirm_returns_outcome (h : Reachable reading self) :
    (∀ outcome, self.confirmation.phase = .returned (.ok outcome) →
      ∃ err, self.node.executed = some err ∧ outcome = outcomeOf err) ∧
    ∀ task err, (ackedIds self.log).Nodup → self.confirmation.phase.busy = true →
      self.confirmation.consumers.connection.tasks[self.confirmation.task]? = some task →
      task.phase = .held → self.confirmation.consumers.connection.router.error = none →
      self.confirmation.consumers.connection.router.state.malformed = 0 →
      self.node.executed = some err → self.node.confirmed = true →
      (self.node.notified = true → notifications self.key self.log ≠ []) →
      ∀ expired late, ∃ events last,
        (∀ event ∈ events, ServedEvent.own expired late event = true) ∧
        Machine.run (step reading) self events = some last ∧
        last.confirmation.phase = .returned (.ok (outcomeOf err)) := by
  have hhonest := h.honest
  refine ⟨hhonest.outcome, ?_⟩
  intro task err hown hbusy htask hheld hopen hread herr hconfirmed harrived expired late
  -- a status that was no help is followed by a notification
  have hfront : notifications self.key self.log ≠ [] →
      Confirmation.Fronted reading self.confirmation.consumers.connection self.confirmation.task
        err := by
    intro hsome
    rcases hhonest.told with hnone | ⟨found, hfound, hreads⟩
    · exact absurd hnone hsome
    · cases herr.symm.trans hfound
      rw [← hhonest.key_eq htask hbusy] at hreads
      exact hhonest.inv.fronted hown htask hheld hbusy hopen hread hreads
  cases hphase : self.confirmation.phase with
  | returned result =>
    rw [hphase] at hbusy
    cases hbusy
  | waiting call =>
    obtain ⟨-, hnotified⟩ := hhonest.late (.inl ⟨call, hphase⟩)
    refine hhonest.ends_fronted hbusy (fun hasking => ?_) (hfront (harrived (hnotified hconfirmed)))
    cases hphase.symm.trans hasking
  | asking =>
    cases hstatus : self.node.status with
    | none => exact hhonest.ends_asking hphase hstatus herr hconfirmed
    | some report =>
      by_cases hsilent : Reply.silent .confirm (.status report) = true
      · obtain ⟨-, hnotified⟩ := hhonest.late (.inr ⟨report, hstatus, hsilent⟩)
        exact hhonest.ends_fronted hbusy (fun _ => ⟨report, hstatus, hsilent⟩)
          (hfront (harrived (hnotified hconfirmed)))
      · match report with
        | none => exact absurd rfl hsilent
        | some (found, final) =>
          cases herr.symm.trans (hhonest.report found final hstatus)
          refine hhonest.ends_decided hphase hstatus ?_
          match err, final with
          | some _, _ => exact .inl rfl
          | none, true => exact .inr rfl
          | none, false => exact absurd rfl hsilent
  | opening =>
    by_cases hnone : notifications self.key self.log = []
    · exact hhonest.ends_opening hphase hown htask hheld hopen hread hnone herr hconfirmed
    · refine hhonest.ends_fronted hbusy (fun hasking => ?_) (hfront hnone)
      cases hphase.symm.trans hasking

/-- A call whose subscription is acknowledged and whom the status told nothing, and what happens
then. -/
def waitingAndThen (events : List (ServedEvent String)) : Served String String String :=
  Machine.goOn (step Confirmation.sampleReading) (start .init "[signature]" none false)
    ([.client (.others (.connection (.locked 0))), .client (.others (.connection (.sent 0 true))),
      .acknowledge, .client (.others (.connection (Connection.sampleReply 1 "7"))),
      .client (.others (.connection (.acknowledged 0))), .client .opened, .look none,
      .client (.answered (.status none))] ++ events)

/-- The transaction fails, and the subscription is notified. -/
def failure : List (ServedEvent String) :=
  [.execute (some "failed"), .confirm, .client (Confirmation.signatureNotification "failed")]

def failedLate : Served String String String := waitingAndThen failure

theorem confirm_returns_outcome_late : failedLate.confirmation.phase = .waiting 1 ∧
    Ends Confirmation.sampleReading true true (some "failed") failedLate := by
  have hreached : Reachable Confirmation.sampleReading failedLate :=
    ⟨.init, "[signature]", none, false, .refl _, by rintro ⟨⟩, Machine.reachable_goOn _ _⟩
  have hphase : failedLate.confirmation.phase = .waiting 1 := by decide +kernel
  have htask : failedLate.confirmation.consumers.connection.tasks[failedLate.confirmation.task]? =
      some ⟨1, .signature, "[signature]", true, 1, .held⟩ := by decide +kernel
  refine ⟨hphase, ?_⟩
  exact (confirm_returns_outcome hreached).2 _ _ (by decide +kernel) (by rw [hphase]; rfl) htask rfl
    (by decide +kernel) (by decide +kernel) (by decide +kernel) (by decide +kernel)
    (by decide +kernel) true true

/-- The same, but before that somebody else opens the same subscription, and the server acknowledges
it with the same id. -/
def failedShared (events : List (ServedEvent String)) : Served String String String :=
  waitingAndThen ([.client (.others (.connection (.subscribe true .signature "[signature]"))),
    .client (.others (.connection (.locked 1))), .client (.others (.connection (.sent 1 true))),
    .client (.others (.connection (Connection.sampleReply 2 "7")))] ++ failure ++ events)

/-- **A call that shares its id runs into its timeout.** The transaction is confirmed after the
acknowledgment, and the one notification of it has arrived on a connection that goes on; but the
route of the id leads to the other subscription by then. -/
theorem shared_id_times_out :
    let self := failedShared []
    self.confirmation.phase = .waiting 1 ∧ self.node.executed = some (some "failed") ∧
      self.node.confirmed = true ∧ self.node.notified = true ∧
      notifications self.key self.log = ["failed"] ∧
      self.confirmation.consumers.connection.router.error = none ∧
      self.confirmation.consumers.connection.router.state.malformed = 0 ∧
      (failedShared [.client (.poll false true)]).confirmation.phase =
        .returned (.error .timeout) := by
  decide +kernel

end

end Served

end Events

end Redsuite
