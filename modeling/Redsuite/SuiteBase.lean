import Redsuite.SuiteRecords
import Mathlib.Data.List.TakeWhile

/-!
# Scenarios and the base

Before its lanes begin, a suite starts the base and runs the preparations that its entries ask for.
-/

namespace Redsuite.Cli

open List

/-! ### Preparations -/

/-- Some entry asks for this preparation. -/
def Suite.Asks (suite : Suite) (key : ℕ) : Prop := ∃ entry ∈ suite.entries, entry.prepare = some key

def SuiteRun.Preparing (suite : Suite) (run : SuiteRun) : Prop :=
  match run.stage with
  | .starting => run.lanes = []
  | .preparing todo => run.lanes = [] ∧ ∀ key, suite.Asks key → key ∈ run.prepared ∨ key ∈ todo
  | .executing | .returned _ => run.base = .ok () → ∀ key, suite.Asks key → key ∈ run.prepared

section Preparing

variable {suite : Suite} {run next : SuiteRun}

theorem SuiteRun.Preparing.prepareNext (suite : Suite) {run : SuiteRun} {todo : List ℕ}
    (hlanes : run.lanes = []) (h : ∀ key, suite.Asks key → key ∈ run.prepared ∨ key ∈ todo) :
    (suite.prepareNext run todo).Preparing suite := by
  -- what is passed over is prepared already
  have hskip : ∀ key, suite.Asks key → key ∈ run.prepared ∨
      key ∈ todo.dropWhile (· ∈ run.prepared) := by
    intro key hk
    rcases h key hk with hprp | htodo
    · exact .inl hprp
    · rw [← takeWhile_append_dropWhile (p := (· ∈ run.prepared)) (l := todo)] at htodo
      rcases mem_append.mp htodo with htake | hdrop
      · exact .inl (of_decide_eq_true
          (mem_takeWhile_imp (p := fun other => decide (other ∈ run.prepared)) htake))
      · exact .inr hdrop
  rw [Suite.prepareNext]
  split
  · rename_i hnil
    intro _ key hk
    rcases hskip key hk with hprp | hm
    · exact hprp
    · rw [hnil] at hm
      cases hm
  · exact ⟨hlanes, hskip⟩

theorem SuiteRun.Preparing.step (h : run.Preparing suite) {ev : Event}
    (hst : suite.step run ev = some next) : next.Preparing suite := by
  cases Suite.step_change hst with
  | interrupted => exact h
  | started hsg =>
    rw [SuiteRun.Preparing, hsg] at h
    refine .prepareNext suite h fun key hk => .inr ?_
    obtain ⟨entry, he, hprepare⟩ := hk
    exact mem_filterMap.mpr ⟨entry, he, hprepare⟩
  | prepared hsg =>
    rw [SuiteRun.Preparing, hsg] at h
    refine .prepareNext suite h.1 fun other ho => ?_
    rcases h.2 other ho with hprp | htodo
    · exact .inl (mem_append_left _ hprp)
    · rcases mem_cons.mp htodo with rfl | hr
      · exact .inl (mem_append_right _ mem_cons_self)
      · exact .inr hr
  | failed => exact fun hbase => by cases hbase
  | advanced hsg =>
    rw [SuiteRun.Preparing, hsg] at h ⊢
    exact h
  | finished down hsg =>
    rw [SuiteRun.Preparing, hsg] at h
    exact h

theorem SuiteRun.After.preparing (h : run.After suite) : run.Preparing suite := by
  obtain ⟨stop, hreach⟩ := h
  exact hreach.induction rfl fun _ _ _ hs hst => hs.step hst

end Preparing

/-! ### Scenarios that are run -/

/-- A scenario of a lane is run: it is running and has an ER, or its record says that its body was
entered. -/
def LaneRun.Runs (lane : LaneRun) (entry : ScenarioEntry) : Prop :=
  (entry ∈ lane.running ∧ entry.state lane.er = .ok ()) ∨
  ∃ record ∈ lane.records, record.entry = some entry ∧ record.ran = true

/-- Some lane runs the entry. -/
def SuiteRun.Runs (run : SuiteRun) (entry : ScenarioEntry) : Prop :=
  ∃ lane ∈ run.lanes, lane.Runs entry

section Runs

variable {suite : Suite} {run : SuiteRun} {entry : ScenarioEntry} {lane : LaneRun} {family : Family}
  {base : Except String Unit}

theorem ScenarioEntry.er_of_state {er : Option (Except String Unit)} (hshr : entry.er ≠ .fresh)
    (h : entry.state er = .ok ()) : er = some (.ok ()) := by
  rw [ScenarioEntry.state] at h
  split at h
  · rename_i hfr
    exact absurd hfr hshr
  · cases er with
    | none => cases h
    | some r => exact congrArg some h

theorem LaneRun.Kept.base_of_runs (h : lane.Kept family base) (hshr : entry.er ≠ .fresh)
    (hruns : lane.Runs entry) : base = .ok () := by
  refine h.based (ScenarioEntry.er_of_state hshr ?_)
  rcases hruns with ⟨-, hs⟩ | ⟨r, hrec, habout, hran⟩
  · exact hs
  · exact (h.good r hrec entry habout).2.2 hran

theorem LaneRun.Kept.mem_of_runs (h : lane.Kept family base) (hruns : lane.Runs entry) :
    entry ∈ lane.lane.entries := by
  have hes := h.entries entry
  refine count_pos_iff.mp ?_
  rcases hruns with ⟨hrn, -⟩ | ⟨r, hrec, habout, -⟩
  · have := count_pos_iff.mpr hrn
    omega
  · have hm : entry ∈ about lane.records := mem_filterMap.mpr ⟨r, hrec, habout⟩
    have := count_pos_iff.mpr hm
    omega

theorem SuiteRun.After.begun_of_mem (h : run.After suite) (hln : lane ∈ run.lanes) :
    run.stage.begun = true := by
  have hprep := h.preparing
  rw [SuiteRun.Preparing] at hprep
  cases hsg : run.stage with
  | starting =>
    rw [hsg] at hprep
    exact nomatch hprep ▸ hln
  | preparing todo =>
    rw [hsg] at hprep
    exact nomatch hprep.1 ▸ hln
  | executing => rfl
  | returned r => rfl

theorem SuiteRun.After.prepared (h : run.After suite) (hbg : run.stage.begun = true)
    (hbase : run.base = .ok ()) {key : ℕ} (hk : suite.Asks key) : key ∈ run.prepared := by
  have hprep := h.preparing
  rw [SuiteRun.Preparing] at hprep
  cases hsg : run.stage with
  | starting | preparing todo => exact nomatch hsg ▸ hbg
  | executing | returned r =>
    rw [hsg] at hprep
    exact hprep hbase key hk

theorem SuiteRun.After.mem_of_runs (h : run.After suite) (hruns : run.Runs entry) :
    entry ∈ suite.entries := by
  obtain ⟨lane, hln, hlaneRuns⟩ := hruns
  have hbg := h.begun_of_mem hln
  have hm := ((Rule.kept suite).holds h hbg lane hln).mem_of_runs hlaneRuns
  refine (perm_laneOrder suite).mem_iff.mp (mem_flatMap.mpr ⟨lane.lane, ?_, hm⟩)
  rw [← ((Rule.counted suite).holds h hbg).1]
  exact mem_map_of_mem hln

end Runs

/-- **Where only scenarios that share an ER ask for preparations, and there are some that share
one, preparations come first.** A scenario that is run has its preparation done, and the suite
returns without an error only if the base started and all preparations succeeded. -/
theorem prepared_before_run (suite : Suite)
    (hfresh : ∀ entry ∈ suite.entries, entry.er = .fresh → entry.prepare = none)
    (hshared : ∃ entry ∈ suite.entries, entry.er ≠ .fresh) (run : SuiteRun)
    (h : run.After suite) :
    (∀ entry key, run.Runs entry → entry.prepare = some key → key ∈ run.prepared) ∧
    (run.stage = .returned (.ok ()) → run.base = .ok ()) := by
  refine ⟨fun entry key hruns hkey => ?_, fun hreturned => ?_⟩
  · have hmem := h.mem_of_runs hruns
    have hnot : entry.er ≠ .fresh := fun her => nomatch (hfresh entry hmem her).symm.trans hkey
    obtain ⟨lane, hlane, hlaneRuns⟩ := hruns
    have hbegun := h.begun_of_mem hlane
    have hbase := ((Rule.kept suite).holds h hbegun lane hlane).base_of_runs hnot hlaneRuns
    exact h.prepared hbegun hbase ⟨entry, hmem, hkey⟩
  · have hbegun : run.stage.begun = true := by
      rw [hreturned]
      rfl
    obtain ⟨hdone, hok⟩ := h.closed (.ok ()) hreturned
    obtain ⟨down, hfinish, -⟩ := hok rfl
    -- the record of a scenario that shares an ER passed, so it was run
    obtain ⟨entry, hentry, hnot⟩ := hshared
    have hmem := (h.records_perm hbegun hdone).1.mem_iff.mpr hentry
    obtain ⟨record, hrecord, habout⟩ := mem_filterMap.mp hmem
    obtain ⟨lane, hlane, hlaneRecord⟩ := mem_flatMap.mp hrecord
    have hkept := (Rule.kept suite).holds h hbegun lane hlane
    have hran := (hkept.good record hlaneRecord entry habout).2.1
      ((Suite.finish_ok hfinish).1 record hrecord)
    exact hkept.base_of_runs hnot (.inr ⟨record, hlaneRecord, habout, hran⟩)

def preparedSuite : Suite :=
  ⟨.redshift, [⟨"overlay", .exclusive ⟨2, "committor"⟩, 1, some 7, false⟩], ⟨false, false⟩, false,
    sampleSuite.freshConcurrency, sampleSuite.sharedConcurrency, false⟩

def preparedRun : SuiteRun :=
  Machine.goOn preparedSuite.step (Suite.start false)
    [.started (.ok ()), .prepared (.ok ()), .lane 0 (.booted (.ok ())),
      .lane 0 (.completed 0 passing), .lane 0 (.tornDown (.ok ())), .finish (.ok ()) (.ok ())]

theorem prepared_before_run_sample :
    preparedRun.stage = .returned (.ok ()) ∧ preparedRun.base = .ok () ∧
    7 ∈ preparedRun.prepared := by
  obtain ⟨hprepared, hbase⟩ := prepared_before_run preparedSuite (by decide) (by decide) preparedRun
    ⟨false, Machine.reachable_goOn _ _⟩
  refine ⟨rfl, hbase rfl, hprepared _ 7 ⟨_, mem_cons_self, .inr ⟨_, mem_cons_self, rfl, ?_⟩⟩ rfl⟩
  rfl

def unpreparedEntry : ScenarioEntry := ⟨"post_delegation_risk_gate", .fresh, 0, some 7, false⟩

def unpreparedSuite : Suite :=
  ⟨.redshift, [unpreparedEntry], ⟨false, false⟩, false, sampleSuite.freshConcurrency,
    sampleSuite.sharedConcurrency, false⟩

def unpreparedRun : SuiteRun :=
  Machine.goOn unpreparedSuite.step (Suite.start false)
    [.started (.ok ()), .prepared (.error "airdrop refused"), .lane 0 (.completed 0 passing),
      .finish (.ok ()) (.ok ())]

/-- It is run without its preparation, and the suite returns without an error. -/
theorem runs_unprepared :
    unpreparedRun.After unpreparedSuite ∧ unpreparedRun.base = .error "airdrop refused" ∧
    unpreparedRun.prepared = [] ∧ unpreparedRun.Runs unpreparedEntry ∧
    unpreparedRun.stage = .returned (.ok ()) :=
  ⟨⟨false, Machine.reachable_goOn _ _⟩, rfl, rfl,
    ⟨_, mem_cons_self, .inr ⟨_, mem_cons_self, rfl, rfl⟩⟩, rfl⟩

end Redsuite.Cli
