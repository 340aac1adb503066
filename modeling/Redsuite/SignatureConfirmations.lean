import Redsuite.AccountUpdates
import Redsuite.Confirmation

/-!
# Signature confirmations

A model of `SignatureConfirmations` of `core/src/transport/ws.rs`.
-/

namespace Redsuite

open List

namespace Ws

open Events (CloseReason SignatureResult)

/-! ### The state -/

/-- `SignatureState`. -/
structure SignatureState where
  pending : Finset ℕ
  waiters : Waiters ℕ
  latency : StreamingStats
  confirmed : ℕ
  failed : ℕ
  firstFailure : Option String

/-- What `finalize` returns. -/
structure SignatureOutcome where
  latency : ObservationsStats
  confirmed : ℕ
  failed : ℕ
  firstFailure : Option String
  unconfirmed : ℕ

variable {ε : Type} [ToString ε]

/-- The message for an id whose transaction failed. -/
def failureText (id : ℕ) (err : ε) : String := s!"id {id}: {err}"

namespace SignatureState

def default (rng : Rng) : SignatureState := ⟨∅, Waiters.new, StreamingStats.new rng, 0, 0, none⟩

/-- The part of `observe` that counts a decision. -/
def count (self : SignatureState) (id : ℕ) (clock : SendClock) (now : ℕ) :
    Option ε → SignatureState
  | none =>
    { self with
      latency := match clock.elapsedMicros id now with
        | some latency => self.latency.push latency
        | none => self.latency
      confirmed := self.confirmed + 1 }
  | some err =>
    { self with
      failed := self.failed + 1
      firstFailure := some (self.firstFailure.getD (failureText id err)) }

/-- `observe`; the payload is nothing if it cannot be read, and the flag says whether the
subscription is over. -/
def observe (self : SignatureState) (id : ℕ) (payload : Option (SignatureResult ε))
    (clock : SendClock) (now : ℕ) : SignatureState × Bool :=
  match payload with
  | some (.processed err) =>
    if id ∈ self.pending then
      let self := { self with pending := self.pending.erase id }.count id clock now err
      ({ self with waiters := self.waiters.wake id }, true)
    else (self, true)
  | _ => (self, false)

def insert (self : SignatureState) (id : ℕ) : SignatureState :=
  { self with pending := Insert.insert id self.pending }

/-- The rest of `finalize`, when the stream is stopped. -/
def finalize (self : SignatureState) (rng : Rng) : SignatureOutcome × SignatureState :=
  (⟨self.latency.finalize false, self.confirmed, self.failed, self.firstFailure,
      self.pending.card⟩,
    { self with latency := StreamingStats.new rng, firstFailure := none })

end SignatureState

/-! ### The calls -/

/-- `SignatureConfirmations`, as `await_id` sees it. -/
def signatureObserver : Observer SignatureState where
  pending state id := id ∈ state.pending
  waiters := SignatureState.waiters
  setWaiters state waiters := { state with waiters }
  timedOut := "signature confirmation timed out"
  streamFailed := "ws stream failed while awaiting signature"

/-- What happened to an id. -/
inductive Record (ε : Type) : Type where
  /-- a call of `subscribe` made this id pending -/
  | added (id : ℕ)
  | decided (id : ℕ) (err : Option ε)
  deriving DecidableEq

namespace Record

def isAdded : Record ε → Bool
  | .added _ => true
  | .decided .. => false

def adds (id : ℕ) : Record ε → Bool
  | .added other => other = id
  | .decided .. => false

def decides (id : ℕ) : Record ε → Bool
  | .added _ => false
  | .decided other _ => other = id

def confirms : Record ε → Bool
  | .decided _ none => true
  | _ => false

def fails : Record ε → Bool
  | .decided _ (some _) => true
  | _ => false

def failure : Record ε → Option String
  | .decided id (some err) => some (failureText id err)
  | _ => none

end Record

/-- What a notification changes. -/
structure Decided (before after : SignatureState) (id : ℕ) (err : Option ε) : Prop where
  pending : after.pending = before.pending.erase id
  waiters : after.waiters = before.waiters.wakeAll [id]
  confirmed : after.confirmed =
    before.confirmed + if Record.confirms (.decided id err) then 1 else 0
  failed : after.failed = before.failed + if Record.fails (.decided id err) then 1 else 0
  firstFailure : after.firstFailure =
    before.firstFailure.or (Record.failure (.decided id err))

theorem SignatureState.observe_decides {self : SignatureState} {id : ℕ} (h : id ∈ self.pending)
    (err : Option ε) (clock : SendClock) (now : ℕ) :
    Decided self (self.observe id (some (.processed err)) clock now).1 id err := by
  rw [observe, if_pos h]
  cases err with
  | none => exact ⟨rfl, rfl, rfl, rfl, Option.or_none.symm⟩
  | some err =>
    refine ⟨rfl, rfl, rfl, rfl, ?_⟩
    cases hfst : self.firstFailure with
    | none => simp [count, Record.failure]
    | some msg => simp [count]

theorem SignatureState.observe_idle {self : SignatureState} {id : ℕ}
    {pl : Option (SignatureResult ε)}
    (h : ∀ err, pl = some (.processed err) → id ∉ self.pending) (clock : SendClock)
    (now : ℕ) : (self.observe id pl clock now).1 = self := by
  cases pl with
  | none => rfl
  | some r =>
    cases r with
    | received => rfl
    | processed err => rw [observe, if_neg (h err rfl)]

/-- `SignatureConfirmations`, and what is recorded of it; the record is not in the source. -/
structure SignatureConfirmations (ε : Type) where
  feed : Feed SignatureState
  log : List (Record ε)

/-- A change of the state by a caller or the reader. -/
inductive SignatureAct (ε : Type) : Type where
  /-- `subscribe` makes an id pending; the rest of it does not touch the state -/
  | subscribe (id : ℕ)
  | notify (id : ℕ) (payload : Option (SignatureResult ε)) (clock : SendClock) (now : ℕ)

/-- An operation on the whole component. -/
inductive SignatureOp (ε : Type) : Type where
  | act (act : SignatureAct ε)
  /-- `await_id` is called -/
  | awaitId (id : ℕ)
  /-- the `await_id` that waits for this channel runs into its timeout -/
  | timeOut (channel : ℕ)
  | close (reason : CloseReason)

namespace SignatureConfirmations

def connect (rng : Rng) : SignatureConfirmations ε := ⟨⟨SignatureState.default rng, none⟩, []⟩

section

variable (self : SignatureConfirmations ε)

/-- `subscribe`, as far as it touches the state. -/
def subscribe (id : ℕ) : SignatureConfirmations ε :=
  match self.feed.error with
  | some _ => self
  | none =>
    { feed := { self.feed with state := self.feed.state.insert id }
      log := if id ∈ self.feed.state.pending then self.log else self.log ++ [.added id] }

def notify (id : ℕ) (payload : Option (SignatureResult ε)) (clock : SendClock) (now : ℕ) :
    SignatureConfirmations ε where
  feed := { self.feed with state := (self.feed.state.observe id payload clock now).1 }
  log := match payload with
    | some (.processed err) =>
      if id ∈ self.feed.state.pending then self.log ++ [.decided id err] else self.log
    | _ => self.log

def step : SignatureOp ε → SignatureConfirmations ε
  | .act (.subscribe id) => self.subscribe id
  | .act (.notify id payload clock now) => self.notify id payload clock now
  | .awaitId id => { self with feed := (signatureObserver.awaitId self.feed id).1 }
  | .timeOut channel => { self with feed := signatureObserver.leave self.feed channel }
  | .close reason => { self with feed := signatureObserver.close self.feed reason }

def steps (ops : List (SignatureOp ε)) : SignatureConfirmations ε := ops.foldl step self

/-- `finalize`: the stream is stopped, and the outcome is read off the state. -/
def finalize (rng : Rng) : SignatureOutcome × SignatureConfirmations ε :=
  let feed := signatureObserver.close self.feed .streamEnded
  let (outcome, state) := feed.state.finalize rng
  (outcome, { self with feed := { feed with state } })

end

/-- What holds at every await. -/
structure Sound (confirmations : SignatureConfirmations ε) : Prop where
  confirmed : confirmations.feed.state.confirmed = confirmations.log.countP Record.confirms
  failed : confirmations.feed.state.failed = confirmations.log.countP Record.fails
  added : confirmations.log.countP Record.isAdded =
    confirmations.feed.state.confirmed + confirmations.feed.state.failed +
      confirmations.feed.state.pending.card
  each : ∀ id, confirmations.log.countP (Record.adds id) =
    confirmations.log.countP (Record.decides id) +
      if id ∈ confirmations.feed.state.pending then 1 else 0
  failure : confirmations.feed.state.firstFailure =
    confirmations.log.findSome? Record.failure
  waiting : ∀ id, confirmations.feed.state.waiters.senders.lookup id ≠ none →
    id ∈ confirmations.feed.state.pending

variable {self : SignatureConfirmations ε}

theorem sound_connect (rng : Rng) : (connect rng : SignatureConfirmations ε).Sound where
  confirmed := rfl
  failed := rfl
  added := rfl
  each _ := rfl
  failure := rfl
  waiting _ h := absurd rfl h

section

variable (h : self.Sound)

include h

theorem Sound.subscribe (id : ℕ) : (self.subscribe id).Sound := by
  rw [SignatureConfirmations.subscribe]
  split
  · exact h
  · by_cases hm : id ∈ self.feed.state.pending
    · simp only [if_pos hm, SignatureState.insert, Finset.insert_eq_of_mem hm]
      exact ⟨h.confirmed, h.failed, h.added, h.each, h.failure, h.waiting⟩
    · rw [if_neg hm]
      refine ⟨?_, ?_, ?_, fun other => ?_, ?_, fun other ho => ?_⟩
      · simpa [Record.confirms, SignatureState.insert] using h.confirmed
      · simpa [Record.fails, SignatureState.insert] using h.failed
      · have hadded := h.added
        simp only [SignatureState.insert, countP_append, countP_singleton,
          Record.isAdded, if_true, Finset.card_insert_of_notMem hm]
        omega
      · have heach := h.each other
        simp only [SignatureState.insert, countP_append, countP_singleton, Record.adds,
          Record.decides, Finset.mem_insert]
        grind
      · simpa [Record.failure, SignatureState.insert] using h.failure
      · exact Finset.mem_insert_of_mem (h.waiting other ho)

theorem Sound.decide {id : ℕ} (hm : id ∈ self.feed.state.pending) (err : Option ε)
    (clock : SendClock) (now : ℕ) : (self.notify id (some (.processed err)) clock now).Sound := by
  have hdcd := SignatureState.observe_decides hm err clock now
  simp only [SignatureConfirmations.notify, if_pos hm]
  refine ⟨?_, ?_, ?_, fun other => ?_, ?_, fun other ho => ?_⟩
  · rw [hdcd.confirmed, h.confirmed, countP_append, countP_singleton]
  · rw [hdcd.failed, h.failed, countP_append, countP_singleton]
  · have hadded := h.added
    have hcard := Finset.card_erase_add_one hm
    have hone : (if Record.confirms (.decided id err) = true then 1 else 0) +
        (if Record.fails (.decided id err) = true then 1 else 0) = 1 := by
      cases err <;> rfl
    rw [hdcd.confirmed, hdcd.failed, hdcd.pending, countP_append,
      countP_singleton, Record.isAdded, if_neg Bool.false_ne_true]
    omega
  · have heach := h.each other
    rw [hdcd.pending, countP_append, countP_append, countP_singleton,
      countP_singleton, Record.adds, Record.decides]
    grind
  · rw [hdcd.firstFailure, h.failure, findSome?_append, findSome?_singleton]
  · rw [hdcd.waiters, Waiters.lookup_wakeAll] at ho
    simp only [mem_singleton] at ho
    have hne : other ≠ id := by
      rintro rfl
      exact ho (if_pos rfl)
    rw [if_neg hne] at ho
    rw [hdcd.pending]
    exact Finset.mem_erase.mpr ⟨hne, h.waiting other ho⟩

theorem Sound.notify (id : ℕ) (pl : Option (SignatureResult ε)) (clock : SendClock) (now : ℕ) :
    (self.notify id pl clock now).Sound := by
  cases pl with
  | none => exact h
  | some r =>
    cases r with
    | received => exact h
    | processed err =>
      by_cases hm : id ∈ self.feed.state.pending
      · exact h.decide hm err clock now
      · rw [SignatureConfirmations.notify, SignatureState.observe_idle fun _ _ => hm]
        simp only [if_neg hm]
        exact h

theorem Sound.awaitId (id : ℕ) : (self.step (.awaitId id)).Sound := by
  rw [step]
  obtain ⟨r, -, haw⟩ | ⟨-, hpd, haw⟩ := signatureObserver.awaitId_cases self.feed id
  · rw [haw]
    exact h
  · rw [haw]
    refine ⟨h.confirmed, h.failed, h.added, h.each, h.failure, fun other ho => ?_⟩
    by_cases hid : other = id
    · rw [hid]
      exact of_decide_eq_true hpd
    · refine h.waiting other ?_
      rwa [signatureObserver, Waiters.lookup_park, if_neg hid] at ho

/-- **Whatever happens keeps the invariant.** -/
theorem Sound.step (op : SignatureOp ε) : (self.step op).Sound := by
  cases op with
  | act act =>
    cases act with
    | subscribe id => exact h.subscribe id
    | notify id pl clock now => exact h.notify id pl clock now
  | awaitId id => exact h.awaitId id
  | timeOut ch => exact ⟨h.confirmed, h.failed, h.added, h.each, h.failure, h.waiting⟩
  | close reason =>
    exact ⟨h.confirmed, h.failed, h.added, h.each, h.failure, fun id hid => absurd rfl hid⟩

theorem Sound.steps (ops : List (SignatureOp ε)) : (self.steps ops).Sound := by
  induction ops generalizing self with
  | nil => exact h
  | cons op ops ih => exact ih (h.step op)

end

theorem notify_firstFailure (id : ℕ) (pl : Option (SignatureResult ε)) (clock : SendClock)
    (now : ℕ) {msg : String} (h : self.feed.state.firstFailure = some msg) :
    (self.notify id pl clock now).feed.state.firstFailure = some msg := by
  change (self.feed.state.observe id pl clock now).1.firstFailure = some msg
  by_cases hidle : ∀ err, pl = some (.processed err) → id ∉ self.feed.state.pending
  · rw [SignatureState.observe_idle hidle]
    exact h
  · push Not at hidle
    obtain ⟨err, rfl, hm⟩ := hidle
    rw [(SignatureState.observe_decides hm err clock now).firstFailure, h, Option.some_or]

theorem step_firstFailure (op : SignatureOp ε) {msg : String}
    (h : self.feed.state.firstFailure = some msg) :
    (self.step op).feed.state.firstFailure = some msg := by
  cases op with
  | act act =>
    cases act with
    | subscribe id =>
      rw [step, subscribe]
      split <;> exact h
    | notify id pl clock now => exact notify_firstFailure id pl clock now h
  | timeOut ch => exact h
  | close reason => exact h
  | awaitId id =>
    rw [step]
    obtain ⟨r, -, haw⟩ | ⟨-, -, haw⟩ := signatureObserver.awaitId_cases self.feed id
    · rw [haw]
      exact h
    · rw [haw]
      exact h

theorem steps_firstFailure (ops : List (SignatureOp ε)) {msg : String}
    (h : self.feed.state.firstFailure = some msg) :
    (self.steps ops).feed.state.firstFailure = some msg := by
  induction ops generalizing self with
  | nil => exact h
  | cons op ops ih => exact ih (step_firstFailure op h)

/-- **Every subscription is accounted for.** After any operations: the calls of `subscribe` that
made an id pending are as many as the ids confirmed, failed and pending; for each id, all of its
additions but the last are decided once, and the last one too unless it is pending; the first
failure is that of the first decision that was one, and stays so whatever follows; whoever waits,
waits for a pending id; and `finalize` reports these numbers. -/
theorem subscriptions_accounted (rng : Rng) (ops : List (SignatureOp ε)) :
    let final := (connect rng).steps ops
    let state := final.feed.state
    final.log.countP Record.isAdded = state.confirmed + state.failed + state.pending.card ∧
    state.confirmed = final.log.countP Record.confirms ∧
    state.failed = final.log.countP Record.fails ∧
    (∀ id, final.log.countP (Record.adds id) =
      final.log.countP (Record.decides id) + if id ∈ state.pending then 1 else 0) ∧
    state.firstFailure = final.log.findSome? Record.failure ∧
    (∀ more message, state.firstFailure = some message →
      ((connect rng).steps (ops ++ more)).feed.state.firstFailure = some message) ∧
    (∀ id ∈ state.waiters.senders, id ∈ state.pending) ∧
    ∀ next, (final.finalize next).1 = ⟨state.latency.finalize false, state.confirmed, state.failed,
      state.firstFailure, state.pending.card⟩ := by
  have hsound := (sound_connect rng).steps ops
  refine ⟨hsound.added, hsound.confirmed, hsound.failed, hsound.each, hsound.failure,
    fun more message hfirst => ?_, fun id hid => hsound.waiting id ?_, fun next => rfl⟩
  · rw [steps, foldl_append]
    exact steps_firstFailure more hfirst
  · exact Option.isSome_iff_ne_none.mp (AList.lookup_isSome.mpr hid)

end SignatureConfirmations

/-! ### Waiting calls -/

/-- `SignatureConfirmations`, as the machine of many calls sees it. -/
def signatureService (ε : Type) [ToString ε] : Service SignatureState (SignatureAct ε) where
  toObserver := signatureObserver
  act state
    | .subscribe id => some (state.insert id)
    | .notify id payload clock now => some (state.observe id payload clock now).1
  streaming _ := true

theorem settles_signature (before after : SignatureState) (id : ℕ) :
    (signatureService ε).settles before after id = true ↔
      id ∈ before.pending ∧ id ∉ after.pending := by
  simp [Service.settles, signatureService, signatureObserver]

theorem signatureService_lawful : (signatureService ε).Lawful fun _ => True where
  waiters_set state waiters := rfl
  sound_set _ _ _ := trivial
  quiet _ _ _ _ _ hq _ := by cases hq
  act state act next _ hact := by
    refine ⟨trivial, ?_⟩
    simp only [settles_signature]
    cases act with
    | subscribe id =>
      cases hact
      refine ⟨[], rfl, fun other => ?_⟩
      simp only [not_mem_nil, false_iff, not_and, not_not]
      exact fun hm => Finset.mem_insert_of_mem hm
    | notify id pl clock now =>
      cases hact
      by_cases hidle : ∀ err, pl = some (.processed err) → id ∉ state.pending
      · rw [SignatureState.observe_idle hidle]
        exact ⟨[], rfl, fun other => by simp⟩
      · push Not at hidle
        obtain ⟨err, rfl, hm⟩ := hidle
        have hdcd := SignatureState.observe_decides hm err clock now
        refine ⟨[id], hdcd.waiters, fun other => ?_⟩
        rw [hdcd.pending, mem_singleton]
        grind

/-- **Who waits alone is served.** In every reachable state of any number of calls of `await_id`, on
account updates and on signature confirmations, a call that no other one crowded out: it fails with
the error of the stream only if the stream ended while it waited; and once its id is settled it
returns without an error, whenever it is polled. -/
theorem uncrowded_calls_return {π : Type} [DecidableEq π] :
    (∀ rng state, (accountService π).Reachable (AccountState.default rng) state →
      ∀ (index : ℕ) (call : Call), state.calls[index]? = some call → call.crowded = false →
        (accountService π).Promised state index call) ∧
    (∀ rng state, (signatureService ε).Reachable (SignatureState.default rng) state →
      ∀ (index : ℕ) (call : Call), state.calls[index]? = some call → call.crowded = false →
        (signatureService ε).Promised state index call) := by
  constructor
  · intro rng state hreach index call hcall hcrowded
    have hindexed : (AccountState.default rng : AccountState π).Indexed :=
      (AccountUpdates.sound_connect rng).indexed
    exact (hreach.inv accountService_lawful hindexed Waiters.wf_new).promised hcall hcrowded
  · intro rng state hreach index call hcall hcrowded
    exact (hreach.inv signatureService_lawful trivial Waiters.wf_new).promised hcall hcrowded

def quietRng : Rng := ⟨fun _ => 0, 0⟩

def servedRun : Awaiting (AccountState ℕ) :=
  Machine.goOn (accountService ℕ).step (Service.start (AccountState.default quietRng))
    [.act (.track 1 0), .act (.track 2 0), .awaitId 1, .awaitId 2,
      .act (.observe 0 1 (SendClock.new 1 2) 0)]

def confirmedRun : Awaiting SignatureState :=
  Machine.goOn (signatureService String).step (Service.start (SignatureState.default quietRng))
    [.act (.subscribe 1), .act (.subscribe 2), .awaitId 1, .awaitId 2,
      .act (.notify 1 (some (.processed (some "out of funds"))) (SendClock.new 1 2) 0)]

def servedCalls : List Call :=
  [⟨1, .waiting 0, true, false, false⟩, ⟨2, .waiting 1, false, false, false⟩]

theorem uncrowded_calls_return_served :
    (servedRun.calls = servedCalls ∧
      (accountService ℕ).Promised servedRun 0 ⟨1, .waiting 0, true, false, false⟩) ∧
    confirmedRun.calls = servedCalls ∧
      (signatureService String).Promised confirmedRun 0 ⟨1, .waiting 0, true, false, false⟩ := by
  have hserved : servedRun.calls = servedCalls := by decide +kernel
  have hconfirmed : confirmedRun.calls = servedCalls := by decide +kernel
  have hreturn := @uncrowded_calls_return String _ ℕ _
  refine ⟨⟨hserved, ?_⟩, hconfirmed, ?_⟩
  · refine hreturn.1 quietRng servedRun (Machine.reachable_goOn _ _) 0 _ ?_ rfl
    rfl
  · refine hreturn.2 quietRng confirmedRun (Machine.reachable_goOn _ _) 0 _ ?_ rfl
    rfl

/-- Two calls wait for the same id, which is then settled: the first one fails as if the stream had
ended, and the stream goes on. -/
theorem crowded_call_fails :
    (Machine.run (accountService ℕ).step (Service.start (AccountState.default quietRng))
      [.act (.track 1 0), .awaitId 1, .awaitId 1, .act (.observe 0 1 (SendClock.new 1 1) 0),
        .poll 0 false, .poll 1 false]).map (fun state => (state.calls, state.feed.error)) =
      some ([⟨1, .returned (.error .streamFailed), true, false, true⟩,
        ⟨1, .returned (.ok ()), true, false, false⟩], none) ∧
    (Machine.run (signatureService String).step (Service.start (SignatureState.default quietRng))
      [.act (.subscribe 1), .awaitId 1, .awaitId 1,
        .act (.notify 1 (some (.processed none)) (SendClock.new 1 1) 0), .poll 0 false,
        .poll 1 false]).map (fun state => (state.calls, state.feed.error)) =
      some ([⟨1, .returned (.error .streamFailed), true, false, true⟩,
        ⟨1, .returned (.ok ()), true, false, false⟩], none) := by
  decide +kernel

end Ws

end Redsuite
