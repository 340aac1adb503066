import Redsuite.Runner
import Redsuite.Sequential
import Redsuite.SignatureConfirmations

/-!
# Confirmation-gated load

A model of `BoundedLoad` of `redline/src/scenarios/scheduler/scheduler_contention/background.rs`.
-/

namespace Redsuite

open List

namespace Load

open Events (CloseReason SignatureResult)
open Runner (RawRunOutcome RunOutcome)
open Ws

def sendOrigin : String := "client, immediately before sendTransaction"

/-- Where a lane is in its loop. -/
inductive Lane : Type where
  | ready
  /-- `deliver` prepares the transaction with this id -/
  | preparing (id : ℕ)
  | subscribing (id : ℕ)
  | submitting (id : ℕ)
  | awaiting (id channel : ℕ)
  | ended
  deriving DecidableEq

def Lane.worker : Lane → Sequential.Worker
  | .ready => .idle
  | .preparing id => .busy (id - 1)
  | .subscribing id => .busy (id - 1)
  | .submitting id => .busy (id - 1)
  | .awaiting id _ => .busy (id - 1)
  | .ended => .done

/-- `BoundedLoad`, with its lanes. The attempts are not in the source: for each id its lane, and how
the lane counted it. -/
structure BoundedLoad (ε : Type) where
  sigs : SignatureConfirmations ε
  tally : RawRunOutcome
  nextId : ℕ
  stop : Bool
  lanes : List Lane
  attempts : List Sequential.Item

/-- What can happen next. -/
inductive LoadEvent (ε : Type) : Type where
  | loop (lane : ℕ)
  /-- `prepare` returns -/
  | prepared (lane : ℕ) (result : Except String Unit)
  /-- the request of `subscribe` is sent and acknowledged, or fails -/
  | subscribed (lane : ℕ) (result : Except String Unit)
  /-- `submit_prepared` returns, after this time -/
  | submitted (lane : ℕ) (result : Except String Unit) (micros : ℕ)
  /-- a waiting lane is polled, before or after the time of the wait is up -/
  | poll (lane : ℕ) (expired : Bool)
  | notify (id : ℕ) (payload : Option (SignatureResult ε)) (now : ℕ)
  | close (reason : CloseReason)
  | stop

variable {ε : Type}

namespace BoundedLoad

def start (lanes : ℕ) (rng : Rng) (entropy : ℕ → Rng) : BoundedLoad ε where
  sigs := SignatureConfirmations.connect rng
  tally := RunOutcome.default entropy
  nextId := 0
  stop := false
  lanes := List.replicate lanes .ready
  attempts := []

/-- `self.sigs` is a `SignatureConfirmations` with this clock, which has no room for a stamp. -/
def clock : SendClock := SendClock.new 1 0

section

variable (self : BoundedLoad ε)

def connect (feed : Feed SignatureState) : BoundedLoad ε :=
  { self with sigs := { self.sigs with feed } }

/-- A lane goes on to another point of `deliver`. -/
def move (lane : ℕ) (point : Lane) : BoundedLoad ε :=
  { self with lanes := self.lanes.set lane point }

def count (lane id : ℕ) (success : Bool) : List Sequential.Item :=
  self.attempts.set (id - 1) ⟨lane, some success⟩

/-- `deliver` has returned. -/
def finish (lane id : ℕ) : Except String Unit → BoundedLoad ε
  | .ok () =>
    { self with
      tally := { self.tally with delivered := self.tally.delivered + 1 }
      lanes := self.lanes.set lane .ready
      attempts := self.count lane id true }
  | .error error =>
    { self with
      tally := { self.tally with
        failed := self.tally.failed + 1
        firstError := some (self.tally.firstError.getD error) }
      lanes := self.lanes.set lane .ended
      attempts := self.count lane id false }

/-- A lane at the head of its loop: it ends, or `deliver` takes the next id. -/
def loop (lane : ℕ) : BoundedLoad ε :=
  if self.stop then self.move lane .ended
  else
    { self.move lane (.preparing (self.nextId + 1)) with
      nextId := self.nextId + 1
      attempts := self.attempts ++ [⟨lane, none⟩] }

end

/-- `deliver` has its transaction: `subscribe` checks the connection and makes the id pending. -/
def prepared (describe : Failure → String) (self : BoundedLoad ε) (lane id : ℕ) :
    Except String Unit → BoundedLoad ε
  | .error error => self.finish lane id (.error error)
  | .ok () =>
    match self.sigs.feed.error with
    | some reason => self.finish lane id (.error (describe (.ended reason)))
    | none => { self.move lane (.subscribing id) with sigs := self.sigs.subscribe id }

/-- `deliver` has subscribed. -/
def subscribed (self : BoundedLoad ε) (lane id : ℕ) : Except String Unit → BoundedLoad ε
  | .error error => self.finish lane id (.error error)
  | .ok () => self.move lane (.submitting id)

/-- `deliver` has submitted: the time is noted, and `await_id` is called. -/
def submitted (describe : Failure → String) (self : BoundedLoad ε) (lane id micros : ℕ) :
    Except String Unit → BoundedLoad ε
  | .error error => self.finish lane id (.error error)
  | .ok () =>
    let self := { self with
      tally := { self.tally with delivery := self.tally.delivery.push micros } }
    match signatureObserver.awaitId self.sigs.feed id with
    | (feed, .returned result) => (self.connect feed).finish lane id (result.mapError describe)
    | (feed, .parked channel) => (self.connect feed).move lane (.awaiting id channel)

def awaited (describe : Failure → String) (self : BoundedLoad ε) (lane id channel : ℕ)
    (result : Except Failure Unit) : BoundedLoad ε :=
  (self.connect (signatureObserver.leave self.sigs.feed channel)).finish lane id
    (result.mapError describe)

/-- One step; nothing if it cannot be taken. An error is written down by `describe`. -/
def step [ToString ε] (describe : Failure → String) (self : BoundedLoad ε) :
    LoadEvent ε → Option (BoundedLoad ε)
  | .loop lane =>
    match self.lanes[lane]? with
    | some .ready => some (self.loop lane)
    | _ => none
  | .prepared lane result =>
    match self.lanes[lane]? with
    | some (.preparing id) => some (self.prepared describe lane id result)
    | _ => none
  | .subscribed lane result =>
    match self.lanes[lane]? with
    | some (.subscribing id) => some (self.subscribed lane id result)
    | _ => none
  | .submitted lane result micros =>
    match self.lanes[lane]? with
    | some (.submitting id) => some (self.submitted describe lane id micros result)
    | _ => none
  | .poll lane expired =>
    match self.lanes[lane]? with
    | some (.awaiting id channel) =>
      match signatureObserver.wait self.sigs.feed channel expired with
      | .ready result => some (self.awaited describe lane id channel result)
      | .pending => none
    | _ => none
  | .notify id payload now =>
    match self.sigs.feed.error with
    | none => some { self with sigs := self.sigs.notify id payload clock now }
    | some _ => none
  | .close reason => some (self.connect (signatureObserver.close self.sigs.feed reason))
  | .stop => some { self with stop := true }

def finished (self : BoundedLoad ε) : Bool := self.lanes.all (· = .ended)

def outcome (self : BoundedLoad ε) (rng : Rng) (wall : ℕ) : RawRunOutcome :=
  let (confirmations, _) := self.sigs.finalize rng
  { self.tally with
    failed := self.tally.failed + confirmations.failed
    firstError := self.tally.firstError.or confirmations.firstFailure
    origin := sendOrigin
    wall }

/-- A state of some run. -/
def Reachable [ToString ε] (describe : Failure → String) (lanes : ℕ) (self : BoundedLoad ε) :
    Prop :=
  ∃ rng entropy, Machine.Reachable (step describe) (start lanes rng entropy) self

/-! ### What the lanes count -/

def book (self : BoundedLoad ε) : Sequential.Book where
  workers := self.lanes.map Lane.worker
  items := self.attempts
  succeeded := self.tally.delivered
  failed := self.tally.failed

variable {self next : BoundedLoad ε} {lane id : ℕ} {point : Lane}

/-- A step is one of the moves of the workers, or nothing to them. -/
structure Advances (before after : BoundedLoad ε) : Prop where
  book : after.book = before.book ∨ Sequential.Move before.book after.book
  numbered : after.nextId = after.attempts.length

theorem Advances.after {before middle after : BoundedLoad ε} (h : Advances middle after)
    (hbook : middle.book = before.book) : Advances before after := by
  obtain ⟨hmove, hnum⟩ := h
  rw [hbook] at hmove
  exact ⟨hmove, hnum⟩

theorem worker_of_lane (h : self.lanes[lane]? = some point) :
    self.book.workers[lane]? = some point.worker := by
  rw [book, getElem?_map, h]
  rfl

theorem finish_advances (h : self.book.workers[lane]? = some (.busy (id - 1)))
    (hnum : self.nextId = self.attempts.length) (r : Except String Unit) :
    Advances self (self.finish lane id r) := by
  cases r with
  | ok v =>
    refine ⟨.inr ?_, ?_⟩
    · simp only [book, finish, List.map_set]
      exact .succeed h
    · rw [finish, count, length_set]
      exact hnum
  | error error =>
    refine ⟨.inr ?_, ?_⟩
    · simp only [book, finish, List.map_set]
      exact .fail h
    · rw [finish, count, length_set]
      exact hnum

theorem move_advances (h : self.book.workers[lane]? = some point.worker)
    (hnum : self.nextId = self.attempts.length) : Advances self (self.move lane point) := by
  refine ⟨.inl ?_, hnum⟩
  obtain ⟨hlt, hget⟩ := List.getElem?_eq_some_iff.mp h
  have hwks : (self.lanes.set lane point).map Lane.worker = self.book.workers := by
    rw [List.map_set, ← hget]
    exact List.set_getElem_self hlt
  rw [book, move, hwks]
  rfl

theorem loop_advances (h : self.lanes[lane]? = some .ready)
    (hnum : self.nextId = self.attempts.length) : Advances self (self.loop lane) := by
  have hwk := worker_of_lane h
  rw [loop]
  split
  · refine ⟨.inr ?_, hnum⟩
    simp only [book, move, List.map_set]
    exact .quit hwk
  · refine ⟨.inr ?_, ?_⟩
    · simp only [book, move, List.map_set, hnum]
      exact .take hwk
    · simp only [length_append, length_singleton, hnum]

theorem prepared_advances (describe : Failure → String)
    (h : self.lanes[lane]? = some (.preparing id))
    (hnum : self.nextId = self.attempts.length) (r : Except String Unit) :
    Advances self (self.prepared describe lane id r) := by
  have hwk := worker_of_lane h
  cases r with
  | error error => exact finish_advances hwk hnum (.error error)
  | ok v =>
    rw [prepared]
    split
    · exact finish_advances hwk hnum _
    · have hmove : Advances self (self.move lane (.subscribing id)) :=
        move_advances hwk hnum
      exact ⟨hmove.book, hmove.numbered⟩

theorem subscribed_advances (h : self.lanes[lane]? = some (.subscribing id))
    (hnum : self.nextId = self.attempts.length) (r : Except String Unit) :
    Advances self (self.subscribed lane id r) := by
  have hwk := worker_of_lane h
  cases r with
  | error error => exact finish_advances hwk hnum (.error error)
  | ok v => exact move_advances hwk hnum

theorem submitted_advances (describe : Failure → String)
    (h : self.lanes[lane]? = some (.submitting id))
    (hnum : self.nextId = self.attempts.length) (micros : ℕ) (r : Except String Unit) :
    Advances self (self.submitted describe lane id micros r) := by
  have hwk := worker_of_lane h
  cases r with
  | error error => exact finish_advances hwk hnum (.error error)
  | ok v =>
    rw [submitted]
    split
    · refine (finish_advances ?_ ?_ _).after rfl
      · exact hwk
      · exact hnum
    · refine (move_advances ?_ ?_).after rfl
      · exact hwk
      · exact hnum

theorem finish_sigs (r : Except String Unit) :
    (self.finish lane id r).sigs = self.sigs := by
  cases r <;> rfl

variable [ToString ε] {describe : Failure → String}

/-- **To the lanes, a step is one of their moves or nothing**, and the confirmations stay accounted
for. -/
theorem step_advances {ev : LoadEvent ε}
    (h : self.step describe ev = some next) (hnum : self.nextId = self.attempts.length)
    (hsd : self.sigs.Sound) : Advances self next ∧ next.sigs.Sound := by
  cases ev with
  | loop lane =>
    rw [step] at h
    split at h
    · rename_i hln
      cases h
      refine ⟨loop_advances hln hnum, ?_⟩
      rw [loop]
      split <;> exact hsd
    · cases h
  | prepared lane r =>
    rw [step] at h
    split at h
    · rename_i hln
      cases h
      refine ⟨prepared_advances describe hln hnum r, ?_⟩
      cases r with
      | error error => exact hsd
      | ok v =>
        rw [prepared]
        split
        · exact hsd
        · exact hsd.subscribe _
    · cases h
  | subscribed lane r =>
    rw [step] at h
    split at h
    · rename_i hln
      cases h
      refine ⟨subscribed_advances hln hnum r, ?_⟩
      cases r <;> exact hsd
    · cases h
  | submitted lane r micros =>
    rw [step] at h
    split at h
    · rename_i id hln
      cases h
      refine ⟨submitted_advances describe hln hnum micros r, ?_⟩
      cases r with
      | error error => exact hsd
      | ok v =>
        have haw := hsd.awaitId id
        rw [SignatureConfirmations.step] at haw
        rw [submitted]
        split
        · rename_i feed r hsr
          rw [hsr] at haw
          rw [finish_sigs]
          exact haw
        · rename_i feed ch hsr
          rw [hsr] at haw
          exact haw
    · cases h
  | poll lane expired =>
    rw [step] at h
    split at h
    · rename_i id ch hln
      split at h
      · cases h
        refine ⟨(finish_advances ?_ ?_ _).after rfl, ?_⟩
        · exact worker_of_lane hln
        · exact hnum
        · rw [awaited, finish_sigs]
          exact hsd.step (.timeOut ch)
      · cases h
    · cases h
  | notify id pl now =>
    rw [step] at h
    split at h
    · cases h
      exact ⟨⟨.inl rfl, hnum⟩, hsd.notify id pl clock now⟩
    · cases h
  | close reason =>
    cases h
    exact ⟨⟨.inl rfl, hnum⟩, hsd.step (.close reason)⟩
  | stop =>
    cases h
    exact ⟨⟨.inl rfl, hnum⟩, hsd⟩

/-! ### Every attempt is counted once -/

/-- What holds at every await. -/
structure Inv (load : BoundedLoad ε) : Prop where
  book : Sequential.Inv load.book
  numbered : load.nextId = load.attempts.length
  sigs : load.sigs.Sound

theorem inv_start (lanes : ℕ) (rng : Rng) (entropy : ℕ → Rng) :
    (start lanes rng entropy : BoundedLoad ε).Inv where
  book := by
    refine Sequential.inv_start rfl ?_ rfl rfl
    intro w hwk
    simp only [book, start, map_replicate] at hwk
    exact eq_of_mem_replicate hwk
  numbered := rfl
  sigs := SignatureConfirmations.sound_connect rng

theorem Inv.step {ev : LoadEvent ε} (h : self.Inv)
    (hst : self.step describe ev = some next) : next.Inv := by
  obtain ⟨⟨hbook, hnum⟩, hsigs⟩ := step_advances hst h.numbered h.sigs
  refine ⟨?_, hnum, hsigs⟩
  obtain hsm | hmove := hbook
  · rw [hsm]
    exact h.book
  · exact h.book.move hmove

theorem Reachable.inv {lanes : ℕ} (h : Reachable describe lanes self) : self.Inv := by
  obtain ⟨rng, entropy, hreach⟩ := h
  exact hreach.induction (inv_start lanes rng entropy) fun _ _ _ hinv hst => hinv.step hst

omit [ToString ε] in
theorem done_of_finished (h : self.finished = true) :
    ∀ w ∈ self.book.workers, w = .done := by
  intro w hwk
  obtain ⟨point, hpoint, rfl⟩ := mem_map.mp hwk
  rw [of_decide_eq_true (all_eq_true.mp h point hpoint)]
  rfl

theorem outcome_failed (h : self.Inv) (rng : Rng) (wall : ℕ) :
    (self.outcome rng wall).failed = self.book.failed + self.sigs.log.countP Record.fails := by
  rw [← h.sigs.failed]
  rfl

/-- **What the outcome adds up to.** The lanes count each attempt once, and the observer once more
those executed with an error. -/
theorem outcome_total (h : self.Inv) (hfin : self.finished = true) (rng : Rng) (wall : ℕ) :
    (self.outcome rng wall).delivered + (self.outcome rng wall).failed =
      self.nextId + self.sigs.log.countP Record.fails := by
  have hcounted : self.book.succeeded + self.book.failed = self.attempts.length :=
    (h.book.counted (done_of_finished hfin)).2
  have hdel : (self.outcome rng wall).delivered = self.book.succeeded := rfl
  rw [outcome_failed h, hdel, h.numbered, ← hcounted, Nat.add_assoc]

/-- **Without an error on the chain every attempt is counted once.** For any number of lanes and
however the requests and the stream turn out: when all lanes have ended, and no transaction was
executed with an error, the outcome of `run` counts as many transactions as were attempted. Each of
them was counted by its lane, as delivered or as failed, the outcome has just these counts, and a
lane whose transaction was counted as failed has attempted nothing after it. -/
theorem attempts_counted_once {describe : Failure → String} {lanes : ℕ}
    (h : Reachable describe lanes self) (hfinished : self.finished = true)
    (hclean : ∀ id err, .decided id (some err) ∉ self.sigs.log) (rng : Rng) (wall : ℕ) :
    self.attempts.length = self.nextId ∧
    (self.outcome rng wall).delivered + (self.outcome rng wall).failed = self.nextId ∧
    (∀ attempt ∈ self.attempts, attempt.settled ≠ none) ∧
    (self.outcome rng wall).delivered = self.attempts.countP (Sequential.Item.is true) ∧
    (self.outcome rng wall).failed = self.attempts.countP (Sequential.Item.is false) ∧
    ∀ (early late : ℕ) (first second : Sequential.Item), early < late →
      self.attempts[early]? = some first → self.attempts[late]? = some second →
      first.worker = second.worker → first.settled = some true := by
  have hinv := h.inv
  have hnone : self.sigs.log.countP Record.fails = 0 := by
    rw [countP_eq_zero]
    rintro (_ | ⟨id, _ | err⟩) hmem hfails
    · cases hfails
    · cases hfails
    · exact hclean id err hmem
  have htotal := outcome_total hinv hfinished rng wall
  have hfailed := outcome_failed hinv rng wall
  rw [hnone] at htotal hfailed
  exact ⟨hinv.numbered.symm, htotal, (hinv.book.counted (done_of_finished hfinished)).1,
    hinv.book.succeeded, hfailed.trans hinv.book.failed, hinv.book.last⟩

/-- Two lanes: the transaction of the first is rejected when sent, that of the second confirmed;
then the flag is set. -/
def rejectedRun : BoundedLoad String :=
  Machine.goOn (step fun _ => "failed") (start 2 quietRng fun _ => quietRng)
    [.loop 0, .loop 1, .prepared 0 (.ok ()), .prepared 1 (.ok ()), .subscribed 0 (.ok ()),
      .subscribed 1 (.ok ()), .submitted 0 (.error "rejected") 0, .submitted 1 (.ok ()) 7,
      .notify 2 (some (.processed none)) 9, .poll 1 false, .stop, .loop 1]

theorem attempts_counted_once_rejected :
    rejectedRun.attempts = [⟨0, some false⟩, ⟨1, some true⟩] ∧
      (rejectedRun.outcome quietRng 0).delivered + (rejectedRun.outcome quietRng 0).failed = 2 := by
  have hreach : Reachable (fun _ => "failed") 2 rejectedRun :=
    ⟨quietRng, fun _ => quietRng, Machine.reachable_goOn _ _⟩
  have hlog : rejectedRun.sigs.log = [.added 1, .added 2, .decided 2 none] := by decide +kernel
  have hcounted := attempts_counted_once hreach (by decide +kernel)
    (by rw [hlog]; simp) quietRng 0
  exact ⟨by decide +kernel, hcounted.2.1.trans (by decide +kernel)⟩

/-- One lane, whose first transaction is executed with an error. It is counted as delivered and as
failed, and the lane goes on to the next one. -/
theorem failed_transaction_counted_twice :
    let load := Machine.goOn (step fun _ => "failed")
      (start 1 quietRng fun _ => quietRng : BoundedLoad String)
      [.loop 0, .prepared 0 (.ok ()), .subscribed 0 (.ok ()), .submitted 0 (.ok ()) 7,
        .notify 1 (some (.processed (some "custom program error"))) 9, .poll 0 false, .loop 0,
        .prepared 0 (.ok ()), .subscribed 0 (.ok ()), .submitted 0 (.ok ()) 7,
        .notify 2 (some (.processed none)) 9, .poll 0 false, .stop, .loop 0]
    load.finished = true ∧ load.nextId = 2 ∧
      load.attempts = [⟨0, some true⟩, ⟨0, some true⟩] ∧
      .decided 1 (some "custom program error") ∈ load.sigs.log ∧
      (load.outcome quietRng 0).delivered = 2 ∧ (load.outcome quietRng 0).failed = 1 := by
  decide +kernel

end BoundedLoad

end Load

end Redsuite
