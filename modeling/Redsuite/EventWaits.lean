import Redsuite.EventOrder
import Redsuite.EventsAck
import Redsuite.OnChange

/-!
# The waits of an event connection

Everything that waits on an event connection does so by `Connection::wait`.
-/

namespace Redsuite

open List Option

namespace Events

open OnChange (Announced)

variable {ν τ κ α : Type}

def Event.ends (index : ℕ) : Event → Bool
  | .acknowledged other | .released other _ | .failed other | .drop other => other = index
  | _ => false

namespace Connection

/-! ### The closures -/

/-- `Connection::wait`: `check_error`, and then a closure that may keep something to itself. The
events that end the call, if `Connection.step` knows of it, do not come in between. -/
def wait (codec : Codec ν) (own : Event → Bool)
    (look : κ → Connection ν → Except Failure (Option α) × κ × Connection ν) :
    Subject (κ × Connection ν) Event Failure α where
  change shared event :=
    if own event then none else (shared.2.step codec event).map fun after => (shared.1, after)
  announces shared event := shared.2.notifies event
  observe shared :=
    match shared.2.router.error with
    | some reason => (.error (.stream reason), shared)
    | none => look shared.1 shared.2

def peek (read : Router ν → Except Failure (Option α)) (_ : Unit) (self : Connection ν) :
    Except Failure (Option α) × Unit × Connection ν := (read self.router, (), self)

/-- `await_ack`, for the subscription of a task. -/
def awaitAck (codec : Codec ν) (index : ℕ) (key : Key) :
    Subject (Unit × Connection ν) Event Failure Unit :=
  wait codec (Event.ends index) <| peek fun router =>
    .ok (if router.pending key then none else some ())

def awaitSubscribed (codec : Codec ν) (count : ℕ) :
    Subject (Unit × Connection ν) Event Failure Unit :=
  wait codec (fun _ => false) <| peek fun router =>
    .ok (if router.subscribed ≥ count then some () else none)

def awaitEvents (codec : Codec ν) (key count : ℕ) :
    Subject (Unit × Connection ν) Event Failure Unit :=
  wait codec (fun _ => false) <| peek fun router =>
    if router.state.malformed = 0 then
      .ok (if ((router.state.byKey.lookup key).map List.length).getD 0 ≥ count then some ()
        else none)
    else .error (.malformed router.state.malformed)

/-- The loop of `await_event` over the events that it has not seen yet. -/
def seek (decode : ν → Option τ) (test : τ → Bool) : List ν → Except Failure (Option τ)
  | [] => .ok none
  | event :: events =>
    match decode event with
    | none => .error .undecodable
    | some value => if test value then .ok (some value) else seek decode test events

/-- The closure of `await_event`, which keeps a cursor. -/
def seekFrom (decode : ν → Option τ) (test : τ → Bool) (key cursor : ℕ) (self : Connection ν) :
    Except Failure (Option τ) × ℕ × Connection ν :=
  match self.router.state.byKey.lookup key with
  | none => (.ok none, cursor, self)
  | some events =>
    match seek decode test (events.drop cursor) with
    | .ok none => (.ok none, events.length, self)
    | .ok (some value) => (.ok (some value), cursor, self)
    | .error failure => (.error failure, cursor, self)

def awaitEvent (codec : Codec ν) (decode : ν → Option τ) (test : τ → Bool) (key : ℕ) :
    Subject (ℕ × Connection ν) Event Failure τ :=
  wait codec (fun _ => false) (seekFrom decode test key)

/-- `next_from`, and `next` for a single subscription. -/
def nextFrom (codec : Codec ν) (decode : Topic → ν → Option τ) (tasks : List Task) :
    Subject (Unit × Connection ν) Event Failure (Update τ) :=
  wait codec (fun _ => false) fun _ self =>
    ((self.takeFirst decode 0 tasks).1, (), (self.takeFirst decode 0 tasks).2)

variable {codec : Codec ν} {self after : Connection ν} {ev : Event}

/-! ### What happens without a broadcast -/

/-- What a step without a broadcast does to the buffers. -/
structure Unannounced (before after : Connection ν) : Prop where
  error : after.router.error = before.router.error
  malformed : after.router.state.malformed = before.router.state.malformed
  buffers : ∀ key events, after.router.state.byKey.lookup key = some events →
    events = [] ∨ ∃ old, before.router.state.byKey.lookup key = some old ∧ events <:+ old

theorem step_unannounced (h : self.step codec ev = some after)
    (hq : self.notifies ev = false) : Unannounced self after := by
  by_cases hpop : ∃ i, ev = .pop i
  · obtain ⟨i, rfl⟩ := hpop
    cases step_change h with
    | @popped _ task taken s ht hp htk =>
      obtain ⟨rest, hbuf, rfl⟩ := EventBuffer.pop_some htk
      refine ⟨rfl, rfl, fun key evs hevs => ?_⟩
      obtain ⟨rfl, rfl⟩ | ⟨-, hevs⟩ := Table.of_lookup_insert hevs
      · exact .inr ⟨taken :: evs, hbuf, suffix_cons taken evs⟩
      · exact .inr ⟨evs, hevs, suffix_refl evs⟩
    | gaveUp _ _ hev => rcases hev with hev | ⟨-, hev | hev⟩ <;> cases hev
    | closed _ hev => rcases hev with hev | hev <;> cases hev
  · have hfollows := step_follows h fun i hev => hpop ⟨i, hev⟩
    obtain ⟨herr, hmal⟩ := hfollows.quiet hq
    refine ⟨herr, hmal, fun key evs hevs => ?_⟩
    rcases hfollows.buffers key evs hevs with ⟨old, hold, rfl⟩ | ⟨-, hem⟩
    · rw [Consumers.arrivals_quiet hq]
      exact .inr ⟨old, hold, [], append_nil old⟩
    · exact .inl hem

/-- What a step without a broadcast does to the requests: none is answered, and only the cleanup
whose wait has failed takes one away, its own. -/
structure Unanswered (before : Connection ν) (event : Event) (after : Connection ν) : Prop where
  subscribed : after.router.subscribed = before.router.subscribed
  requests : ∀ id key, before.router.requests.lookup id = some (.subscribe key) →
    after.router.requests.lookup id = some (.subscribe key) ∨
      ∃ index task, event = .failed index ∧ before.tasks[index]? = some task ∧ task.name = key

theorem Unanswered.same (hsubscribed : after.router.subscribed = self.router.subscribed)
    (hreqs : after.router.requests = self.router.requests) : Unanswered self ev after where
  subscribed := hsubscribed
  requests _ _ hlk := .inl (hreqs ▸ hlk)

theorem Unanswered.giveUp (i : ℕ) (task : Task) :
    Unanswered self ev (self.giveUp i task) := by
  rw [Connection.giveUp]
  split
  · exact .same rfl rfl
  · exact .same rfl rfl

theorem Unanswered.insert (hsubscribed : after.router.subscribed = self.router.subscribed)
    {id : ℕ} {req : Subscription.Request Key}
    (hreqs : after.router.requests = self.router.requests.insert id req)
    (hfr : ∀ key, self.router.requests.lookup id ≠ some (.subscribe key)) :
    Unanswered self ev after where
  subscribed := hsubscribed
  requests other key hlk := by
    refine .inl ?_
    rw [hreqs, Table.lookup_insert_iff, if_neg, hlk]
    rintro rfl
    exact hfr key hlk

theorem fresh_of_named (hinv : Inv self) {id : ℕ} (h : ∀ task ∈ self.tasks, task.request ≠ id)
    (key : Key) : self.router.requests.lookup id ≠ some (.subscribe key) := by
  intro hlk
  obtain ⟨task, hm, -, hreq⟩ := hinv.requests id key hlk
  exact h task hm hreq

theorem step_unanswered (hrun : Reachable codec self) (h : self.step codec ev = some after)
    (hq : self.notifies ev = false) : Unanswered self ev after := by
  have hinv := Run.inv hrun inv_init
  have hasking := Run.asking hrun
  cases step_change h with
  | subscribed typed topic params =>
    refine .insert rfl rfl (fresh_of_named hinv fun task hm => ?_)
    exact Nat.ne_of_lt (hasking.numbered task hm)
  | @unlocked i task id sub ht hp =>
    have haws := hasking.awaits task (mem_of_getElem? ht)
    rw [Awaits, hp] at haws
    exact .insert rfl rfl (fresh_of_named hinv haws.2)
  | @gaveUp _ i task => exact .giveUp i task
  | released route =>
    cases route with
    | none | some sub => exact .same rfl rfl
  | @abandoned i task ht =>
    refine ⟨rfl, fun id key hlk => ?_⟩
    by_cases hk : task.name = key
    · exact .inr ⟨i, task, rfl, ht, hk⟩
    · refine .inl ((Table.lookup_retain _).mpr ⟨hlk, decide_eq_true fun hsm => ?_⟩)
      exact hk (Subscription.Request.subscribe.inj hsm).symm
  | read env =>
    rw [Connection.read]
    split
    · rename_i reason hpa
      simp [notifies, hpa] at hq
    · exact .same rfl rfl
    · rename_i frame hpa
      cases frame with
      | reply id r => simp [notifies, hpa] at hq
      | malformed => simp [notifies, hpa] at hq
      | notification method params =>
        have hrt : self.router.subscriptions.lookup params.subscription = none := by
          simpa [notifies, hpa] using hq
        have hrouter : self.router.dispatchNotification codec params = self.router := by
          exact Router.dispatchNotification_none hrt
        refine .same ?_ ?_
        · exact congrArg Subscription.Router.subscribed hrouter
        · exact congrArg Subscription.Router.requests hrouter
  | closed reason hev => rcases hev with rfl | rfl <;> cases hq
  | _ => exact .same rfl rfl

/-! ### Every wait is told -/

theorem result_eq_none {own : Event → Bool}
    {look : κ → Connection ν → Except Failure (Option α) × κ × Connection ν} {closure : κ} :
    (wait codec own look).result (closure, self) = none ↔
      self.router.error = none ∧ answered (look closure self).1 = none := by
  rw [Subject.result]
  cases herr : self.router.error with
  | some reason => simp [wait, herr, answered]
  | none => simp [wait, herr]

/-- **A wait of the connection** needs this of its closure: it sees nothing new in what is not
announced, and where it sees nothing it changes nothing and sees nothing again. -/
theorem wait_announced {own : Event → Bool}
    {look : κ → Connection ν → Except Failure (Option α) × κ × Connection ν}
    {valid : Connection ν → Prop}
    (hvalid : ∀ {self after ev}, valid self → own ev = false →
      self.step codec ev = some after → valid after)
    (hlooks : ∀ {self} closure, valid self → valid (look closure self).2.2)
    (hq : ∀ {self after ev} closure, valid self → own ev = false →
      self.step codec ev = some after → self.notifies ev = false →
      answered (look closure self).1 = none → answered (look closure after).1 = none)
    (hvain : ∀ {self} closure, answered (look closure self).1 = none →
      (look closure self).2.2 = self ∧ answered (look (look closure self).2.1 self).1 = none) :
    Announced (wait codec own look) fun shared => valid shared.2 where
  changes := by
    rintro ⟨closure, self⟩ after ev hself hch
    simp only [wait] at hch
    split at hch
    · cases hch
    · rename_i hown
      obtain ⟨next, hst, rfl⟩ := map_eq_some_iff.mp hch
      exact hvalid hself (Bool.eq_false_iff.mpr hown) hst
  looks := by
    rintro ⟨closure, self⟩ hself
    simp only [wait]
    split
    · exact hself
    · exact hlooks closure hself
  quiet := by
    rintro ⟨closure, self⟩ after ev hself hch hannounces hn
    obtain ⟨herr, hlook⟩ := result_eq_none.mp hn
    simp only [wait] at hch
    split at hch
    · cases hch
    · rename_i hown
      obtain ⟨next, hst, rfl⟩ := map_eq_some_iff.mp hch
      refine result_eq_none.mpr ⟨?_, ?_⟩
      · exact (step_unannounced hst hannounces).error.trans herr
      · exact hq closure hself (Bool.eq_false_iff.mpr hown) hst hannounces hlook
  vain := by
    rintro ⟨closure, self⟩ - hn
    obtain ⟨herr, hlook⟩ := result_eq_none.mp hn
    obtain ⟨hsm, hagain⟩ := hvain closure hlook
    have hobv : ((wait codec own look).observe (closure, self)).2 =
        ((look closure self).2.1, self) := by
      simp only [wait, herr]
      exact Prod.ext rfl hsm
    rw [hobv]
    exact result_eq_none.mpr ⟨herr, hagain⟩

/-- The subscription of a task, in a connection that goes its way. -/
def Waits (codec : Codec ν) (index : ℕ) (key : Key) (connection : Connection ν) : Prop :=
  Reachable codec connection ∧ ∃ task, connection.tasks[index]? = some task ∧ task.name = key

theorem Waits.step {i : ℕ} {key : Key} (h : Waits codec i key self)
    (hst : self.step codec ev = some after) : Waits codec i key after := by
  obtain ⟨hrun, task, ht, hnm⟩ := h
  refine ⟨.step hrun hst, ?_⟩
  by_cases hpop : ∃ i, ev = .pop i
  · obtain ⟨other, rfl⟩ := hpop
    obtain ⟨popper, -, hst⟩ := bind_eq_some_iff.mp hst
    split at hst
    · obtain ⟨e, -, rfl⟩ := map_eq_some_iff.mp hst
      exact ⟨task, ht, hnm⟩
    · cases hst
  · have hfollows := step_follows hst fun other hev => hpop ⟨other, hev⟩
    obtain ⟨moved, hmv, hmovedName⟩ := hfollows.stays i task ht
    exact ⟨moved, hmv, hmovedName.trans hnm⟩

/-- **`await_ack`** is told of the end of its request: who takes a request away without a broadcast
is the cleanup of that subscription, so the wait itself. -/
theorem awaitAck_announced (codec : Codec ν) (i : ℕ) (key : Key) :
    Announced (awaitAck codec i key) fun shared => Waits codec i key shared.2 := by
  refine wait_announced (fun hself _ hst => hself.step hst) (fun _ hself => hself) ?_
    (fun _ hlook => ⟨rfl, hlook⟩)
  intro self after ev closure hself hown hst hq hlook
  obtain ⟨hrun, task, ht, hnm⟩ := hself
  have hpd : self.router.pending key = true := by
    cases hpd : self.router.pending key with
    | true => rfl
    | false => simp [peek, hpd, answered] at hlook
  obtain ⟨id, hlk⟩ := Subscription.Router.pending_iff.mp hpd
  have haf : after.router.pending key = true := by
    refine Subscription.Router.pending_iff.mpr ⟨id, ?_⟩
    rcases (step_unanswered hrun hst hq).requests id key hlk with
      hsty | ⟨other, failing, rfl, hfailing, hk⟩
    · exact hsty
    · -- keys are places in the list of tasks, so it is this one
      have hinv := Run.inv hrun inv_init
      have hpl := hinv.keys i task ht
      have ho := hinv.keys other failing hfailing
      have hsm : failing.key = task.key := congrArg Prod.fst (hk.trans hnm.symm)
      have hi : other = i := by omega
      simp [Event.ends, hi] at hown
  simp [peek, haf, answered]

theorem awaitSubscribed_announced (codec : Codec ν) (count : ℕ) :
    Announced (awaitSubscribed codec count) fun shared => Reachable codec shared.2 := by
  refine wait_announced (fun hself _ hst => .step hself hst) (fun _ hself => hself) ?_
    (fun _ hlook => ⟨rfl, hlook⟩)
  intro self after ev closure hself _ hst hq hlook
  simpa [peek, (step_unanswered hself hst hq).subscribed] using hlook

theorem Unannounced.length_le (h : Unannounced self after) (key : ℕ) :
    ((after.router.state.byKey.lookup key).map List.length).getD 0 ≤
      ((self.router.state.byKey.lookup key).map List.length).getD 0 := by
  cases hevs : after.router.state.byKey.lookup key with
  | none => exact Nat.zero_le _
  | some evs =>
    rcases h.buffers key evs hevs with rfl | ⟨old, hold, hsuf⟩
    · exact Nat.zero_le _
    · rw [hold]
      exact hsuf.length_le

theorem awaitEvents_announced (codec : Codec ν) (key count : ℕ) :
    Announced (awaitEvents codec key count) fun _ => True := by
  refine wait_announced (fun _ _ _ => trivial) (fun _ _ => trivial) ?_
    (fun _ hlook => ⟨rfl, hlook⟩)
  intro self after ev closure _ _ hst hq hlook
  have hunann := step_unannounced hst hq
  have hle := hunann.length_le key
  simp only [peek, hunann.malformed] at hlook ⊢
  split at hlook
  · rename_i hrd
    rw [if_pos hrd]
    split at hlook
    · cases hlook
    · rw [if_neg (by omega)]
      rfl
  · cases hlook

theorem suffix_drop {evs old : List ν} (h : evs <:+ old) (n : ℕ) :
    evs.drop n <:+ old.drop n := by
  obtain ⟨before, rfl⟩ := h
  rw [drop_append]
  exact (drop_suffix_drop_left _ (by omega)).trans (suffix_append _ _)

theorem seek_suffix {decode : ν → Option τ} {test : τ → Bool} {evs old : List ν}
    (h : evs <:+ old) (hn : answered (seek decode test old) = none) :
    answered (seek decode test evs) = none := by
  induction old with
  | nil =>
    rw [suffix_nil.mp h]
    rfl
  | cons ev old ih =>
    rcases suffix_cons_iff.mp h with rfl | hsuf
    · exact hn
    · refine ih hsuf ?_
      rw [seek] at hn
      split at hn
      · cases hn
      · split at hn
        · cases hn
        · exact hn

theorem seekFrom_eq_none {decode : ν → Option τ} {test : τ → Bool} {key cursor : ℕ} :
    answered (seekFrom decode test key cursor self).1 = none ↔
      ∀ evs, self.router.state.byKey.lookup key = some evs →
        answered (seek decode test (evs.drop cursor)) = none := by
  rw [seekFrom]
  cases hevs : self.router.state.byKey.lookup key with
  | none =>
    refine ⟨fun _ evs h => ?_, fun _ => rfl⟩
    cases h
  | some evs =>
    simp only [some.injEq]
    split
    · rename_i hseek
      simp [hseek]
    · rename_i v hseek
      simp [hseek]
    · rename_i failure hseek
      simp [hseek]

theorem awaitEvent_announced (codec : Codec ν) (decode : ν → Option τ) (test : τ → Bool)
    (key : ℕ) : Announced (awaitEvent codec decode test key) fun _ => True := by
  refine wait_announced (fun _ _ _ => trivial) (fun _ _ => trivial) ?_ ?_
  · intro self after ev cursor _ _ hst hq hlook
    have hnth := seekFrom_eq_none.mp hlook
    refine seekFrom_eq_none.mpr fun evs hevs => ?_
    rcases (step_unannounced hst hq).buffers key evs hevs with
      rfl | ⟨old, hold, hsuf⟩
    · rw [drop_nil]
      rfl
    · exact seek_suffix (suffix_drop hsuf cursor) (hnth old hold)
  · intro self cursor hlook
    have hnth := seekFrom_eq_none.mp hlook
    refine ⟨?_, seekFrom_eq_none.mpr fun evs hevs => ?_⟩
    · rw [seekFrom]
      split
      · rfl
      · split <;> rfl
    · -- the cursor is at the end of the buffer now
      have hend := hnth evs hevs
      rw [seekFrom, hevs]
      cases hseek : seek decode test (evs.drop cursor) with
      | error failure =>
        rw [hseek] at hend
        cases hend
      | ok found =>
        cases found with
        | some v =>
          rw [hseek] at hend
          cases hend
        | none =>
          simp only [hseek, drop_length]
          rfl

theorem takeFirst_eq_none {decode : Topic → ν → Option τ} {tasks : List Task} {i : ℕ} :
    answered (self.takeFirst decode i tasks).1 = none ↔
      (self.router.state.malformed = 0 ∨ tasks = []) ∧
        ∀ task ∈ tasks, self.router.state.pop task.key = none := by
  induction tasks generalizing i with
  | nil => simp [takeFirst, answered]
  | cons task rest ih =>
    by_cases hrd : self.router.state.malformed = 0
    · cases hpop : self.router.state.pop task.key with
      | none => simp [takeFirst, take, hrd, hpop, ih]
      | some e =>
        cases hdec : decode task.topic e.1 <;>
          simp [takeFirst, take, hrd, hpop, hdec, answered]
    · simp [takeFirst, take, hrd, answered]

theorem takeFirst_vain {decode : Topic → ν → Option τ} {tasks : List Task} {i : ℕ}
    (h : answered (self.takeFirst decode i tasks).1 = none) :
    (self.takeFirst decode i tasks).2 = self := by
  induction tasks generalizing i with
  | nil => rfl
  | cons task rest ih =>
    obtain ⟨hrd, hpop⟩ := takeFirst_eq_none.mp h
    simp only [takeFirst, take, if_pos (hrd.resolve_right (cons_ne_nil _ _)),
      hpop task mem_cons_self] at h ⊢
    exact ih h

theorem Unannounced.pop_eq_none (h : Unannounced self after) {key : ℕ}
    (hrd : self.router.state.malformed = 0) (hn : self.router.state.pop key = none) :
    after.router.state.pop key = none := by
  cases hpop : after.router.state.pop key with
  | none => rfl
  | some e =>
    obtain ⟨ev, s⟩ := e
    obtain ⟨rest, hbuf, -⟩ := EventBuffer.pop_some hpop
    rcases h.buffers key _ hbuf with hem | ⟨old, hold, hsuf⟩
    · cases hem
    · rw [Consumers.pop_of_filled hrd hn hold] at hsuf
      cases suffix_nil.mp hsuf

theorem nextFrom_announced (codec : Codec ν) (decode : Topic → ν → Option τ) (tasks : List Task) :
    Announced (nextFrom codec decode tasks) fun _ => True := by
  refine wait_announced (fun _ _ _ => trivial) (fun _ _ => trivial) ?_
    (fun _ hlook => ⟨takeFirst_vain hlook, hlook⟩)
  intro self after ev closure _ _ hst hq hlook
  have hunann := step_unannounced hst hq
  obtain ⟨hrd, hpop⟩ := takeFirst_eq_none.mp hlook
  refine takeFirst_eq_none.mpr ⟨?_, fun task hm => ?_⟩
  · rw [hunann.malformed]
    exact hrd
  · rcases hrd with hrd | rfl
    · exact hunann.pop_eq_none hrd (hpop task hm)
    · cases hm

end Connection

end Events

end Redsuite
