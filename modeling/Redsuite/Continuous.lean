import Redsuite.SuiteIsolation
import Redsuite.SuiteBase

/-!
# Continuous rounds

A model of `settle` and `run_round` of `cli/src/suite/continuous.rs`.
-/

namespace Redsuite.Cli

open List Note

/-- A scenario of a family. -/
abbrev Case : Type := Family × ScenarioEntry

/-- Where a round is. -/
inductive RoundStage : Type where
  /-- in `settle` before the next case -/
  | opening
  /-- in `settle` after an exclusive one -/
  | alone
  /-- in the last `settle` -/
  | closing
  | returned
  deriving DecidableEq

/-- A round over all cases. -/
structure Round where
  stage : RoundStage
  stop : Bool
  cases : List Case
  running : List Case
  failed : List String
  /-- what it did; not in the source -/
  log : List (Note Case)

/-- What can happen next. -/
inductive RoundEvent : Type where
  | interrupted
  | completed (index : ℕ) (attempt : Attempt)

/-- How many cases may be left running when one is started. -/
def keep (limit : ℕ) (entry : ScenarioEntry) : ℕ := if entry.er.isExclusive then 0 else limit - 1

namespace Round

/-- The last `settle`, which waits for all that is running. -/
def close (self : Round) : Round :=
  { self with
    cases := []
    stage :=
      match self.running with
      | [] => .returned
      | _ :: _ => .closing }

def noteStop (self : Round) : Round := { self with log := self.log ++ [.stopSeen] }

def push (self : Round) (first : Case) : Round :=
  { self with running := self.running ++ [first], log := self.log ++ [.started first] }

/-- The `for` loop up to its next await, or up to the last `settle`. -/
def proceed (limit : ℕ) : List Case → Round → Round
  | [], self => self.close
  | first :: cases, self =>
    if keep limit first.2 < self.running.length then
      { self with stage := .opening, cases := first :: cases }
    else if self.failed ≠ [] then self.close
    else if self.stop then self.noteStop.close
    else if first.2.er.isExclusive then { self.push first with stage := .alone, cases }
    else proceed limit cases (self.push first)

def record (config : ExecutionConfig) (index : ℕ) (first : Case) (attempt : Attempt)
    (self : Round) : Round :=
  let record := first.2.run first.1 config (some (.ok ())) attempt
  { self with
    running := self.running.eraseIdx index
    failed := if record.passed then self.failed else self.failed ++ [record.name]
    log := self.log ++ [.recorded first record.passed] }

/-- `run_round` goes on with a `settle` that took in a record. -/
def resume (limit : ℕ) (self : Round) : Round :=
  match self.stage, self.running with
  | .opening, _ => self.proceed limit self.cases
  | .alone, [] => self.proceed limit self.cases
  | .alone, _ :: _ => self
  | .closing, _ | .returned, _ => self.close

/-- `run_round` from one await to the next. -/
def step (config : ExecutionConfig) (limit : ℕ) (self : Round) : RoundEvent → Option Round
  | .interrupted => some { self with stop := true }
  | .completed index attempt =>
    match self.running[index]? with
    | some first => some ((self.record config index first attempt).resume limit)
    | none => none

/-- `run_round` at its first await. -/
def start (limit : ℕ) (cases : List Case) (stop : Bool) : Round :=
  proceed limit cases ⟨.opening, stop, cases, [], [], []⟩

end Round

/-! ### What the log says -/

namespace Note

variable {α : Type}

def start? : Note α → Option α
  | .started entry => some entry
  | .recorded _ _ | .stopSeen => none

def record? : Note α → Option α
  | .recorded entry _ => some entry
  | .started _ | .stopSeen => none

def failure? : Note α → Option α
  | .recorded entry false => some entry
  | .recorded _ true | .started _ | .stopSeen => none

end Note

def Case.name (first : Case) : String := first.2.name first.1

/-! ### Rounds -/

/-- What holds of a round in every stage. -/
structure Round.Kept (limit : ℕ) (round : Round) : Prop where
  limited : round.running.length ≤ limit
  failed : round.failed = (round.log.filterMap failure?).map Case.name
  started : (round.log.filterMap start?).Perm (round.log.filterMap record? ++ round.running)
  seen : .stopSeen ∈ round.log → round.stop = true
  /-- nothing is started after a failure or an interruption that was seen -/
  quiet : Note.Quiet round.log

/-- What holds of a round at every await. -/
structure Round.Inv (limit : ℕ) (round : Round) : Prop extends round.Kept limit where
  shared : round.stage ≠ .alone → ∀ first ∈ round.running, first.2.er.isExclusive = false
  single : round.stage = .alone → round.running.length = 1
  waiting : round.running = [] ↔ round.stage = .returned

section Round

variable {limit : ℕ} {round next : Round} {config : ExecutionConfig} {first : Case}

theorem Round.close_inv (h : round.Kept limit)
    (hshr : ∀ first ∈ round.running, first.2.er.isExclusive = false) :
    round.close.Inv limit := by
  refine ⟨⟨h.limited, h.failed, h.started, h.seen, h.quiet⟩, fun _ => hshr, fun halone => ?_, ?_⟩
  · rw [close] at halone
    split at halone <;> cases halone
  · change round.running = [] ↔ (match round.running with
      | [] => RoundStage.returned
      | _ :: _ => .closing) = .returned
    cases round.running <;> simp

theorem Round.Kept.not_halts (h : round.Kept limit) (hfl : round.failed = [])
    (hstop : round.stop = false) : ∀ note ∈ round.log, note.halts = false := by
  intro note hnote
  by_contra hhalts
  rcases halts_iff.mp (Bool.not_eq_false _ ▸ hhalts) with rfl | ⟨first, rfl⟩
  · cases hstop.symm.trans (h.seen hnote)
  · have hfst : first ∈ round.log.filterMap failure? :=
      mem_filterMap.mpr ⟨_, hnote, rfl⟩
    rw [map_eq_nil_iff.mp (h.failed.symm.trans hfl)] at hfst
    cases hfst

theorem Round.Kept.push (h : round.Kept limit) (hroom : round.running.length < limit)
    (hfl : round.failed = []) (hstop : round.stop = false) : (round.push first).Kept limit := by
  refine ⟨?_, ?_, ?_, fun hseen => ?_, ?_⟩
  · change (round.running ++ [first]).length ≤ limit
    rw [length_append]
    exact hroom
  · change round.failed = ((round.log ++ [Note.started first]).filterMap failure?).map Case.name
    rw [List.filterMap_append, h.failed]
    exact congrArg _ (append_nil _).symm
  · change ((round.log ++ [Note.started first]).filterMap start?).Perm
      ((round.log ++ [Note.started first]).filterMap record? ++ (round.running ++ [first]))
    rw [List.filterMap_append, List.filterMap_append, ← append_assoc]
    change (round.log.filterMap start? ++ [first]).Perm
      (round.log.filterMap record? ++ [] ++ round.running ++ [first])
    rw [append_nil]
    exact h.started.append_right [first]
  · rcases mem_concat.mp hseen with hold | hnew
    · exact h.seen hold
    · cases hnew
  · refine h.quiet.append_of_not_halts (h.not_halts hfl hstop) fun note hnote => ?_
    rw [mem_singleton.mp hnote]
    rfl

theorem Round.Kept.stopSeen (h : round.Kept limit) (hstop : round.stop = true) :
    round.noteStop.Kept limit := by
  refine ⟨h.limited, ?_, ?_, fun _ => hstop, h.quiet.append_of_not_starts fun note hnote => ?_⟩
  · change round.failed = ((round.log ++ [Note.stopSeen]).filterMap failure?).map Case.name
    rw [List.filterMap_append, h.failed]
    exact congrArg _ (append_nil _).symm
  · change ((round.log ++ [Note.stopSeen]).filterMap start?).Perm
      ((round.log ++ [Note.stopSeen]).filterMap record? ++ round.running)
    rw [List.filterMap_append, List.filterMap_append]
    change (round.log.filterMap start? ++ []).Perm
      (round.log.filterMap record? ++ [] ++ round.running)
    rw [append_nil, append_nil]
    exact h.started
  · rw [mem_singleton.mp hnote]
    rfl

theorem Round.proceed_inv (hlimit : 0 < limit) (cases : List Case) (h : round.Kept limit)
    (hshr : ∀ first ∈ round.running, first.2.er.isExclusive = false) :
    (round.proceed limit cases).Inv limit := by
  induction cases generalizing round with
  | nil => exact close_inv h hshr
  | cons first cases ih =>
    rw [proceed]
    split
    · rename_i hfull
      refine ⟨⟨h.limited, h.failed, h.started, h.seen, h.quiet⟩, fun _ => hshr, nofun,
        fun hnil => ?_, nofun⟩
      rw [show round.running = [] from hnil] at hfull
      cases hfull
    · rename_i hroom
      split
      · exact close_inv h hshr
      · rename_i hfl
        split
        · rename_i hstop
          exact close_inv (h.stopSeen hstop) hshr
        · rename_i hstop
          have hkeep : keep limit first.2 < limit := by
            rw [keep]
            split <;> omega
          have hpush : (round.push first).Kept limit :=
            h.push (Nat.lt_of_le_of_lt (Nat.not_lt.mp hroom) hkeep) (not_not.mp hfl)
              (Bool.eq_false_iff.mpr hstop)
          split
          · -- an exclusive case: nothing else is running
            rename_i hexc
            rw [keep, if_pos hexc] at hroom
            have hnil : round.running = [] := List.length_eq_zero_iff.mp (by omega)
            refine ⟨⟨hpush.limited, hpush.failed, hpush.started, hpush.seen, hpush.quiet⟩,
              fun hne => absurd rfl hne, fun _ => ?_, fun hem => ?_, nofun⟩
            · change (round.running ++ [first]).length = 1
              rw [hnil]
              rfl
            · exact absurd hem (append_ne_nil_of_right_ne_nil _ (cons_ne_nil _ _))
          · rename_i ho
            refine ih hpush fun other hm => ?_
            rcases mem_concat.mp hm with hold | rfl
            · exact hshr other hold
            · exact Bool.eq_false_iff.mpr ho

theorem Round.Kept.record (h : round.Kept limit) {i : ℕ} (hfst : round.running[i]? = some first)
    (a : Attempt) : (round.record config i first a).Kept limit := by
  have hnm : (first.2.run first.1 config (some (.ok ())) a).name = Case.name first :=
    (first.2.run_of first.1 config _ a).name
  rw [Round.record]
  generalize first.2.run first.1 config (some (.ok ())) a = record at hnm
  refine ⟨?_, ?_, ?_, fun hseen => ?_, h.quiet.append_of_not_starts fun note hnote => ?_⟩
  · exact Nat.le_trans (eraseIdx_sublist round.running i).length_le h.limited
  · rw [List.filterMap_append, map_append, ← h.failed]
    cases record.passed with
    | true => exact (append_nil _).symm
    | false => exact congrArg (round.failed ++ [·]) hnm
  · rw [List.filterMap_append, List.filterMap_append]
    obtain ⟨hbd, hget⟩ := List.getElem?_eq_some_iff.mp hfst
    have hpm : (first :: round.running.eraseIdx i).Perm round.running :=
      hget ▸ List.getElem_cons_eraseIdx_perm hbd
    change (round.log.filterMap start? ++ []).Perm
      (round.log.filterMap record? ++ [first] ++ round.running.eraseIdx i)
    rw [append_nil, append_assoc]
    exact h.started.trans (.append_left _ hpm.symm)
  · rcases mem_concat.mp hseen with hold | hnew
    · exact h.seen hold
    · cases hnew
  · rw [mem_singleton.mp hnote]
    rfl

theorem Round.Inv.resume (hlimit : 0 < limit) (h : round.Inv limit) {i : ℕ}
    (hfst : round.running[i]? = some first) (a : Attempt) :
    ((round.record config i first a).resume limit).Inv limit := by
  have hkpt : (round.record config i first a).Kept limit := h.toKept.record hfst a
  -- after an exclusive case nothing is left running
  have halone : round.stage = .alone → round.running.eraseIdx i = [] := by
    intro hsg
    obtain ⟨hbd, -⟩ := List.getElem?_eq_some_iff.mp hfst
    have hlen := List.length_eraseIdx_of_lt hbd
    rw [h.single hsg] at hlen
    exact List.length_eq_zero_iff.mp hlen
  have hshr : ∀ other ∈ (round.record config i first a).running,
      other.2.er.isExclusive = false := by
    intro other ho
    by_cases hsg : round.stage = .alone
    · have hnil : other ∈ round.running.eraseIdx i := ho
      rw [halone hsg] at hnil
      cases hnil
    · exact h.shared hsg other (mem_of_mem_eraseIdx ho)
  rw [Round.resume.eq_def]
  split
  · exact proceed_inv hlimit _ hkpt hshr
  · exact proceed_inv hlimit _ hkpt hshr
  · rename_i hsg hcons
    cases hcons.symm.trans (halone hsg)
  · exact close_inv hkpt hshr
  · exact close_inv hkpt hshr

theorem Round.Inv.step (hlimit : 0 < limit) (h : round.Inv limit) {ev : RoundEvent}
    (hst : round.step config limit ev = some next) : next.Inv limit := by
  cases ev with
  | interrupted =>
    rw [← Option.some.inj hst]
    exact ⟨⟨h.limited, h.failed, h.started, fun _ => rfl, h.quiet⟩, h.shared, h.single, h.waiting⟩
  | completed i a =>
    rw [Round.step] at hst
    split at hst
    · rename_i first hfst
      rw [← Option.some.inj hst]
      exact h.resume hlimit hfst a
    · cases hst

theorem Round.Inv.alone (h : round.Inv limit) (hfst : first ∈ round.running)
    (hexc : first.2.er.isExclusive = true) : round.running = [first] := by
  by_cases hsg : round.stage = .alone
  · obtain ⟨only, honly⟩ := length_eq_one_iff.mp (h.single hsg)
    rw [honly] at hfst ⊢
    rw [mem_singleton.mp hfst]
  · exact nomatch (h.shared hsg first hfst).symm.trans hexc

/-! ### A round comes to an end -/

/-- How much is left of a round. -/
def Round.left (round : Round) : ℕ := round.cases.length + round.running.length

theorem Round.close_left (round : Round) : round.close.left = round.running.length :=
  Nat.zero_add _

theorem Round.proceed_left (limit : ℕ) (cases : List Case) (round : Round) :
    (round.proceed limit cases).left ≤ cases.length + round.running.length := by
  induction cases generalizing round with
  | nil => exact Nat.le_of_eq (round.close_left.trans (Nat.zero_add _).symm)
  | cons first cases ih =>
    have hclose : round.running.length ≤ (first :: cases).length + round.running.length :=
      Nat.le_add_left _ _
    have hpush : (round.push first).running.length = round.running.length + 1 :=
      length_append
    rw [proceed]
    split
    · exact Nat.le_refl _
    · split
      · exact round.close_left ▸ hclose
      · split
        · exact round.noteStop.close_left ▸ hclose
        · split
          · change cases.length + (round.push first).running.length ≤ _
            rw [length_cons]
            omega
          · have := ih (round.push first)
            rw [length_cons]
            omega

theorem Round.resume_left (limit : ℕ) (round : Round) : (round.resume limit).left ≤ round.left := by
  rw [resume.eq_def]
  split
  · exact round.proceed_left limit round.cases
  · exact round.proceed_left limit round.cases
  · exact Nat.le_refl _
  · exact round.close_left ▸ Nat.le_add_left _ _
  · exact round.close_left ▸ Nat.le_add_left _ _

/-- A round that has not returned waits for a scenario that can end, and is then one record nearer
to its own end. -/
theorem Round.Inv.exists_step (h : round.Inv limit) (hsg : round.stage ≠ .returned)
    (a : Attempt) :
    ∃ next, round.step config limit (.completed 0 a) = some next ∧ next.left < round.left := by
  cases hrn : round.running with
  | nil => exact absurd (h.waiting.mp hrn) hsg
  | cons first running =>
    refine ⟨(round.record config 0 first a).resume limit, ?_, ?_⟩
    · rw [Round.step, hrn]
      rfl
    · refine Nat.lt_of_le_of_lt (Round.resume_left limit _) ?_
      change round.cases.length + (round.running.eraseIdx 0).length < round.left
      rw [Round.left, hrn]
      exact Nat.lt_succ_self _

theorem Round.inv_of_reachable (hlimit : 0 < limit) {cases : List Case} {stop : Bool}
    (h : Machine.Reachable (Round.step config limit) (Round.start limit cases stop) round) :
    round.Inv limit := by
  refine h.induction (proceed_inv hlimit cases ?_ (forall_mem_nil _)) fun _ _ _ hinv hst =>
    hinv.step hlimit hst
  exact ⟨Nat.zero_le _, rfl, .nil, nofun, .nil⟩

end Round

/-- **Scenarios of one ER are kept apart**, in the lane of a group and in a continuous round. An
exclusive one is alone with the ER, there are never more at once than the configured limit, and
none is started after a record that did not pass or after the stop flag was seen. A round comes to
its end, and returns the names of the scenarios it ran that did not pass. -/
theorem scenarios_isolated :
    (∀ (suite : Suite) (run : SuiteRun), run.After suite →
      ∀ lane ∈ run.lanes, lane.lane.group ≠ none →
      (∀ entry ∈ lane.running, entry.er.isExclusive = true → lane.running = [entry]) ∧
      lane.running.length ≤ lane.lane.bound suite ∧ Note.Quiet lane.log) ∧
    (∀ (config : ExecutionConfig) (limit : ℕ) (cases : List Case) (stop : Bool) (round : Round),
      0 < limit → Machine.Reachable (Round.step config limit) (Round.start limit cases stop) round →
      (∀ first ∈ round.running, first.2.er.isExclusive = true → round.running = [first]) ∧
      round.running.length ≤ limit ∧ Note.Quiet round.log ∧
      (round.stage = .returned →
        (round.log.filterMap start?).Perm (round.log.filterMap record?) ∧
        round.failed = (round.log.filterMap failure?).map Case.name) ∧
      (round.stage ≠ .returned → ∀ attempt, ∃ next,
        round.step config limit (.completed 0 attempt) = some next ∧ next.left < round.left)) := by
  refine ⟨fun suite run h lane hlane hgroup => ?_, fun config limit cases stop round hlimit h => ?_⟩
  · have hisolated := (Rule.isolated suite).holds h (h.begun_of_mem hlane) lane hlane
    exact ⟨fun entry => hisolated.alone hgroup, hisolated.length_le, hisolated.quiet hgroup⟩
  · have hinv := Round.inv_of_reachable hlimit h
    refine ⟨fun first => hinv.alone, hinv.limited, hinv.quiet, fun hreturned => ⟨?_, hinv.failed⟩,
      hinv.exists_step⟩
    have hstarted := hinv.started
    rw [hinv.waiting.mpr hreturned, append_nil] at hstarted
    exact hstarted

def sampleCases : List Case :=
  [(.redshift, ⟨"clone", .shared ⟨1, "default"⟩, 0, none, false⟩),
    (.redhat, ⟨"eviction", .exclusive ⟨1, "default"⟩, 0, none, false⟩),
    (.redline, ⟨"transfer", .shared ⟨1, "default"⟩, 0, none, false⟩)]

def sampleRound : Round :=
  Machine.goOn (Round.step ⟨false, true⟩ 2) (Round.start 2 sampleCases false)
    [.completed 0 passing, .completed 0 { passing with body := .panic "index out of bounds" }]

theorem scenarios_isolated_sample :
    sampleRound.stage = .returned ∧ sampleRound.failed = ["redhat/eviction"] ∧
    Note.Quiet sampleRound.log ∧
    (∀ lane ∈ preparedRun.lanes, lane.lane.group ≠ none → Note.Quiet lane.log) := by
  obtain ⟨-, -, hquiet, hreturned, -⟩ := scenarios_isolated.2 ⟨false, true⟩ 2 sampleCases false
    sampleRound (by decide) (Machine.reachable_goOn _ _)
  refine ⟨rfl, (hreturned rfl).2.trans (by decide), hquiet, fun lane hlane hgroup => ?_⟩
  exact (scenarios_isolated.1 preparedSuite preparedRun ⟨false, Machine.reachable_goOn _ _⟩ lane
    hlane hgroup).2.2

end Redsuite.Cli
