import Mathlib.Data.Nat.Notation

/-!
# Scenarios and their records

A model of the part of `core/src/catalog.rs` and `core/src/scenario.rs` that the suite schedules.
-/

namespace Redsuite.Cli

/-! ### Entries -/

/-- `NonZeroUsize`. -/
structure NonZeroUsize where
  get : ℕ
  pos : 0 < get

def NonZeroUsize.MIN : NonZeroUsize := ⟨1, Nat.one_pos⟩

/-- `Family`. -/
inductive Family : Type where
  | redline
  | redshift
  | redhat
  deriving DecidableEq

/-- `Family::prefix`. -/
def Family.namePrefix : Family → String
  | .redline => "redline"
  | .redshift => "redshift"
  | .redhat => "redhat"

/-- `ErGroup`. -/
structure ErGroup where
  key : ℕ
  label : String
  deriving DecidableEq

/-- `Er`: the ER a scenario asks for. -/
inductive Er : Type where
  | shared (group : ErGroup)
  | exclusive (group : ErGroup)
  | fresh
  deriving DecidableEq

namespace Er

def group : Er → Option ErGroup
  | .shared group | .exclusive group => some group
  | .fresh => none

/-- `matches!(er, Er::Shared(_))`. -/
def isShared : Er → Bool
  | .shared _ => true
  | _ => false

/-- `matches!(er, Er::Exclusive(_))`. -/
def isExclusive : Er → Bool
  | .exclusive _ => true
  | _ => false

end Er

/-- `ScenarioEntry`. -/
structure ScenarioEntry where
  shortName : String
  er : Er
  order : ℕ
  prepare : Option ℕ
  /-- `V::REPORTS` -/
  reports : Bool
  deriving DecidableEq

def ScenarioEntry.name (self : ScenarioEntry) (family : Family) : String :=
  family.namePrefix ++ "/" ++ self.shortName

/-- The part of `ExecutionConfig` that is looked at here, besides the stop flag. -/
structure ExecutionConfig where
  environment : Bool
  continuous : Bool

/-! ### Records -/

/-- Where a scenario failed. -/
inductive Phase : Type where
  | preflight
  | topology
  | setup
  | scenario
  | panic
  | persist
  | notRun
  /-- it is no scenario, but the teardown of a group -/
  | cleanup
  deriving DecidableEq

/-- `RunRecord`. -/
structure RunRecord where
  name : String
  outcome : Except String Unit
  phase : Phase
  report : Option Bool
  /-- the entry it is the record of; not in the source -/
  entry : Option ScenarioEntry
  /-- the body of the scenario was entered; not in the source -/
  ran : Bool

namespace RunRecord

def passed (self : RunRecord) : Bool :=
  (match self.outcome with
    | .ok () => true
    | .error _ => false) && self.report.getD true

def failed (name : String) (phase : Phase) (reason : String) (entry : Option ScenarioEntry) :
    RunRecord :=
  ⟨name, .error reason, phase, none, entry, false⟩

def notRun (entry : ScenarioEntry) (family : Family) (reason : String) : RunRecord :=
  failed (entry.name family) .notRun reason (some entry)

def conclude (self : RunRecord) (reports : Bool) (persisted : Except String Unit) : RunRecord :=
  match reports, persisted, self.outcome with
  | true, .error error, .ok () => { self with phase := .persist, outcome := .error error }
  | _, _, _ => self

end RunRecord

/-! ### Runs -/

/-- How the body of a scenario ends. -/
inductive Body : Type where
  | verdict (report : Option Bool) (outcome : Except String Unit)
  | error (inScenario : Bool) (message : String)
  | panic (message : String)

/-- How a run of a scenario goes. -/
structure Attempt where
  /-- of `preflight` -/
  preflight : Except String Unit
  /-- of `base_only` -/
  base : Except String Unit
  body : Body
  persist : Except String Unit

namespace ScenarioEntry

def state (self : ScenarioEntry) (er : Option (Except String Unit)) : Except String Unit :=
  match self.er with
  | .fresh => .ok ()
  | _ => er.getD (.error "shared scenario requires an ER group")

/-- `RunRecord::run`. -/
def execute (self : ScenarioEntry) (config : ExecutionConfig) (er : Option (Except String Unit))
    (attempt : Attempt) (record : RunRecord) : RunRecord :=
  let record := { record with report := if self.reports then some true else none }
  match (if config.environment then .ok () else attempt.preflight) with
  | .error error => { record with outcome := .error error }
  | .ok () =>
    let record := { record with phase := .topology }
    match attempt.base with
    | .error error => { record with outcome := .error error }
    | .ok () =>
      match self.state er with
      | .error error => { record with outcome := .error error }
      | .ok () =>
        let record := { record with ran := true }
        match attempt.body with
        | .verdict report outcome =>
          { record with phase := .scenario, report := report.or record.report, outcome }
        | .error inScenario message =>
          { record with
            phase := if inScenario then .scenario else .setup
            outcome := .error message }
        | .panic message => { record with phase := .panic, outcome := .error message }

/-- `ScenarioEntry::run`, up to its end. -/
def run (self : ScenarioEntry) (family : Family) (config : ExecutionConfig)
    (er : Option (Except String Unit)) (attempt : Attempt) : RunRecord :=
  let record : RunRecord := ⟨self.name family, .ok (), .preflight, none, some self, false⟩
  (self.execute config er attempt record).conclude (self.reports && !config.continuous)
    attempt.persist

end ScenarioEntry

/-! ### What a record says -/

section Records

variable {r : RunRecord}

theorem RunRecord.passed_iff :
    r.passed = true ↔ r.outcome = .ok () ∧ r.report.getD true = true := by
  rw [passed]
  cases r.outcome <;> simp

theorem RunRecord.conclude_spec (reports : Bool) (persisted : Except String Unit) :
    (r.conclude reports persisted).name = r.name ∧
    (r.conclude reports persisted).entry = r.entry ∧
    (r.conclude reports persisted).ran = r.ran ∧
    (r.phase ≠ .notRun → (r.conclude reports persisted).phase ≠ .notRun) ∧
    ((r.conclude reports persisted).outcome = .ok () → r.outcome = .ok ()) := by
  rw [conclude.eq_def]
  split
  · exact ⟨rfl, rfl, rfl, nofun, nofun⟩
  · exact ⟨rfl, rfl, rfl, id, id⟩

theorem ScenarioEntry.execute_spec (e : ScenarioEntry) (config : ExecutionConfig)
    (er : Option (Except String Unit)) (a : Attempt) (hrec : r.phase = .preflight)
    (hran : r.ran = false) :
    (e.execute config er a r).name = r.name ∧
    (e.execute config er a r).entry = r.entry ∧
    (e.execute config er a r).phase ≠ .notRun ∧
    ((e.execute config er a r).outcome = .ok () →
      (e.execute config er a r).ran = true) ∧
    ((e.execute config er a r).ran = true → e.state er = .ok ()) := by
  simp only [execute]
  split
  · refine ⟨rfl, rfl, ?_, nofun, fun h => nomatch hran.symm.trans h⟩
    rw [hrec]
    exact nofun
  · split
    · exact ⟨rfl, rfl, nofun, nofun, fun h => nomatch hran.symm.trans h⟩
    · split
      · exact ⟨rfl, rfl, nofun, nofun, fun h => nomatch hran.symm.trans h⟩
      · rename_i hs
        split
        · exact ⟨rfl, rfl, nofun, fun _ => rfl, fun _ => hs⟩
        · rename_i inScenario msg _
          refine ⟨rfl, rfl, ?_, nofun, fun _ => hs⟩
          cases inScenario <;> exact nofun
        · exact ⟨rfl, rfl, nofun, nofun, fun _ => hs⟩

/-- The record of a run is one of the entry and never says that it was not run; if it passed, the
body was entered; if so, there was an ER for it. -/
structure RunRecord.Of (record : RunRecord) (entry : ScenarioEntry) (family : Family)
    (er : Option (Except String Unit)) : Prop where
  name : record.name = entry.name family
  about : record.entry = some entry
  phase : record.phase ≠ .notRun
  ran : record.passed = true → record.ran = true
  state : record.ran = true → entry.state er = .ok ()

theorem ScenarioEntry.run_of (e : ScenarioEntry) (family : Family) (config : ExecutionConfig)
    (er : Option (Except String Unit)) (a : Attempt) :
    (e.run family config er a).Of e family er := by
  rw [run]
  generalize hfst : RunRecord.mk (e.name family) (.ok ()) .preflight none (some e) false
    = first
  obtain ⟨hnm, he, hp, hran, hs⟩ :=
    e.execute_spec config er a (show first.phase = .preflight by rw [← hfst])
      (by rw [← hfst])
  obtain ⟨hnm', he', hran', hp', hok⟩ :=
    (e.execute config er a first).conclude_spec (e.reports && !config.continuous)
      a.persist
  refine ⟨?_, ?_, hp' hp, fun h => ?_, fun h => hs (hran' ▸ h)⟩
  · rw [hnm', hnm, ← hfst]
  · rw [he', he, ← hfst]
  · rw [hran']
    exact hran (hok (RunRecord.passed_iff.mp h).1)

end Records

end Redsuite.Cli
