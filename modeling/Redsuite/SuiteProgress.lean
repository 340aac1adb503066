import Redsuite.SuiteMoves

/-!
# A suite comes to an end

While not all lanes of a suite are done, one of them waits for its ER to boot, for a scenario or
for a teardown; and whatever it waits for leaves less to do.
-/

namespace Redsuite.Cli

open List Option

/-! ### What is left to do -/

def Stage.distance : Stage → ℕ
  | .waiting => 4
  | .booting => 3
  | .shared | .last => 2
  | .teardown => 1
  | .done => 0

/-- How much is left of a lane. -/
def LaneRun.left (lane : LaneRun) : ℕ :=
  lane.stage.distance + lane.running.length + lane.pending.length + lane.later.length
variable {ev : LaneEvent}


section Left

variable {suite : Suite} {base : Except String Unit} {stopped : Bool} {work next : Work}

theorem Work.fill_left (stopped : Bool) (work : Work) : (work.fill stopped).left = work.left := by
  rw [fill]
  split
  · rfl
  · split
    · rfl
    · have hlen := congrArg List.length
        (startLoop_append work.limit.get work.running.length work.pending)
      rw [length_append] at hlen
      simp only [LaneRun.left, length_append]
      omega

theorem Work.record_left {i : ℕ} {e : ScenarioEntry}
    (he : work.running[i]? = some e) (a : Attempt) :
    (work.record suite i e a).left < work.left := by
  have hlen := length_eraseIdx_add_one (lt_of_getElem? he)
  change work.stage.distance + (work.running.eraseIdx i).length + work.pending.length
    + work.later.length < work.stage.distance + work.running.length + work.pending.length
    + work.later.length
  omega

theorem Work.close_left (hac : work.stage.active = true) : work.close.left ≤ work.left := by
  have hdistance : work.close.stage.distance ≤ work.stage.distance := by
    rw [close]
    rcases Stage.active_iff.mp hac with h | h
    · rw [h]
      dsimp only
      split <;> decide
    · rw [h]
      dsimp only
      split <;> decide
  exact Nat.add_le_add_right (Nat.add_le_add_right (Nat.add_le_add_right hdistance _) _) _

theorem Work.twoPasses_left (hsg : work.stage = .booting) (er : Option (Except String Unit))
    (limit : NonZeroUsize) :
    LaneRun.left { work with
      er, limit
      stage := .shared
      pending := work.pending.filter (·.er.isShared)
      later := work.pending.filter (!·.er.isShared) } < work.left := by
  have hlen := (filter_append_perm (·.er.isShared) work.pending).length_eq
  rw [length_append] at hlen
  simp only [LaneRun.left, hsg, Stage.distance]
  omega

theorem Work.onePass_left (hsg : work.stage = .booting) (er : Option (Except String Unit)) :
    LaneRun.left { work with er, stage := .last, limit := .MIN } < work.left := by
  simp only [LaneRun.left, hsg, Stage.distance]
  omega

theorem Move.left_le (hmove : Move suite base stopped work next) : next.left ≤ work.left := by
  cases hmove with
  | boot hsg | fresh hsg =>
    simp only [LaneRun.left, hsg, Stage.distance]
    omega
  | onePass r hsg => exact Nat.le_of_lt (Work.onePass_left hsg _)
  | twoPasses r hsg => exact Nat.le_of_lt (Work.twoPasses_left hsg _ _)
  | fill => exact Nat.le_of_eq (work.fill_left stopped)
  | record a _ he => exact Nat.le_of_lt (Work.record_left he a)
  | conclude =>
    change work.stage.distance + work.running.length + 0 + work.later.length ≤ _
    rw [LaneRun.left]
    omega
  | exclusivePass hsg =>
    change 2 + work.running.length + work.later.length + 0 ≤ _
    rw [LaneRun.left, hsg, Stage.distance]
    omega
  | skipLater =>
    change work.stage.distance + work.running.length + work.pending.length + 0 ≤ _
    rw [LaneRun.left]
    omega
  | close hsg => exact Work.close_left (Stage.active_iff.mpr (hsg.symm.imp And.left id))
  | tornDown r hsg =>
    change 0 + work.running.length + work.pending.length + work.later.length ≤ _
    rw [LaneRun.left]
    omega

theorem Moves.left_le (hmvs : Moves suite base stopped work next) : next.left ≤ work.left := by
  induction hmvs with
  | refl => exact Nat.le_refl _
  | tail _ hmove ih => exact Nat.le_trans hmove.left_le ih

theorem Work.proceed_left (hac : work.stage.active = true) :
    (work.proceed suite stopped).left ≤ work.left :=
  Moves.left_le (show Moves suite (.ok ()) stopped work _ from .proceed hac)

theorem Work.step_left (hrn : work.Active)
    (hst : work.step suite base stopped ev = some next) : next.left < work.left := by
  cases Work.step_change hst with
  | booted r hsg =>
    rw [Work.booted]
    split
    · exact Nat.lt_of_le_of_lt (Work.proceed_left rfl) (Work.onePass_left hsg _)
    · exact Nat.lt_of_le_of_lt (Work.proceed_left rfl) (Work.twoPasses_left hsg _ _)
  | completed a he =>
    exact Nat.lt_of_le_of_lt (Work.proceed_left (hrn.of_running he))
      (Work.record_left he a)
  | tornDown r hsg =>
    rw [LaneRun.left, LaneRun.left, hsg]
    change 0 + work.running.length + work.pending.length + work.later.length < 1 + _ + _ + _
    omega

end Left

/-- How much is left of a run. -/
def SuiteRun.left (run : SuiteRun) : ℕ := (run.lanes.map LaneRun.left).sum

theorem Advances.left_le {suite : Suite} {base : Except String Unit} {stopped : Bool}
    {s next : List LaneRun × ℕ} (h : Advances suite base stopped s next) :
    (next.1.map LaneRun.left).sum ≤ (s.1.map LaneRun.left).sum := by
  induction h with
  | refl => exact Nat.le_refl _
  | tail _ hadv ih =>
    refine Nat.le_trans ?_ ih
    obtain @⟨lanes, finished, index, lane, work, hln, hmove⟩ := hadv
    have hsum := sum_map_set LaneRun.left work.toLaneRun hln
    have hle : work.left ≤ lane.left := hmove.left_le
    dsimp only
    omega

/-! ### Something to wait for -/

/-- An active lane runs something. -/
def LaneRun.Poised (lane : LaneRun) : Prop := lane.stage.active = true → lane.running ≠ []

section Poised

variable {suite : Suite} {base : Except String Unit} {stopped : Bool}

theorem Work.close_poised (work : Work) : work.close.Poised := by
  intro hac
  rw [close] at hac
  split at hac <;> cases hac

theorem Work.endLast_poised (suite : Suite) (stopped : Bool) (work : Work) :
    (work.endLast suite stopped).Poised := by
  rw [endLast]
  split
  · rename_i hrn
    exact fun _ => hrn ▸ cons_ne_nil _ _
  · exact close_poised _

theorem Work.proceed_poised (suite : Suite) (stopped : Bool) (work : Work) :
    (work.proceed suite stopped).Poised := by
  simp only [proceed]
  split
  · rw [endShared]
    split
    · rename_i hrn
      exact fun _ => hrn ▸ cons_ne_nil _ _
    · dsimp only
      split
      · exact endLast_poised _ _ _
      · exact close_poised _
  · exact endLast_poised _ _ _

theorem Work.start_poised (suite : Suite) (stopped : Bool) (work : Work) :
    (work.start suite stopped).Poised := by
  rw [start]
  split
  · exact fun hac => by cases hac
  · exact proceed_poised _ _ _

theorem Work.endLast_stage (suite : Suite) (stopped : Bool) {work : Work}
    (h : work.stage ≠ .waiting) : (work.endLast suite stopped).stage ≠ .waiting := by
  rw [endLast]
  split
  · exact h
  · rw [close]
    split <;> exact fun h => by cases h

theorem Work.start_stage (suite : Suite) (stopped : Bool) (work : Work) :
    (work.start suite stopped).stage ≠ .waiting := by
  rw [start]
  split
  · exact fun h => by cases h
  · have hsg : (Work.fill stopped { work with
        stage := .last
        limit := if suite.serial then .MIN else suite.freshConcurrency }).stage = .last :=
      fill_stage stopped _
    simp only [proceed, hsg]
    refine endLast_stage suite stopped fun hw => ?_
    cases hsg.symm.trans hw

theorem Work.step_poised {work next : Work}
    (hst : work.step suite base stopped ev = some next) : next.Poised := by
  cases Work.step_change hst with
  | booted r =>
    rw [Work.booted]
    split <;> exact proceed_poised _ _ _
  | completed => exact proceed_poised _ _ _
  | tornDown => exact fun hac => by cases hac

/-- Every lane that may begin has begun. -/
def Awake (serial : Bool) : List LaneRun → Prop
  | [] => True
  | lane :: lanes =>
    lane.stage ≠ .waiting ∧ (serial = false ∨ lane.stage = .done → Awake serial lanes)

theorem wake_awake (suite : Suite) (stopped : Bool) (finished : ℕ) (lanes : List LaneRun) :
    Awake suite.serial (wake suite stopped finished lanes).1 := by
  induction lanes generalizing finished with
  | nil => exact trivial
  | cons lane lanes ih =>
    rw [wake]
    generalize hwork : (if lane.stage = .waiting then Work.start suite stopped ⟨lane, finished⟩
      else (⟨lane, finished⟩ : Work)) = work
    have hsg : work.stage ≠ .waiting := by
      rw [← hwork]
      split
      · exact Work.start_stage suite stopped _
      · assumption
    split
    · rename_i hbusy
      obtain ⟨hserial, hd⟩ := Bool.and_eq_true_iff.mp hbusy
      refine ⟨hsg, fun hnx => ?_⟩
      rcases hnx with hnot | hover
      · cases hserial.symm.trans hnot
      · exact absurd hover (of_decide_eq_true hd)
    · exact ⟨hsg, fun _ => ih work.finished⟩

theorem wake_poised (suite : Suite) (stopped : Bool) (finished : ℕ) (lanes : List LaneRun)
    (h : ∀ lane ∈ lanes, lane.Poised) :
    ∀ lane ∈ (wake suite stopped finished lanes).1, lane.Poised := by
  induction lanes generalizing finished with
  | nil => exact h
  | cons lane lanes ih =>
    obtain ⟨hln, hlanes⟩ := forall_mem_cons.mp h
    rw [wake]
    generalize hwork : (if lane.stage = .waiting then Work.start suite stopped ⟨lane, finished⟩
      else (⟨lane, finished⟩ : Work)) = work
    have hpoised : work.Poised := by
      rw [← hwork]
      split
      · exact Work.start_poised suite stopped _
      · exact hln
    split
    · exact forall_mem_cons.mpr ⟨hpoised, hlanes⟩
    · exact forall_mem_cons.mpr ⟨hpoised, ih work.finished hlanes⟩

theorem Awake.exists_begun {serial : Bool} {lanes : List LaneRun} (h : Awake serial lanes)
    (hd : lanes.all (·.stage = .done) = false) :
    ∃ (i : ℕ) (lane : LaneRun), lanes[i]? = some lane ∧ lane.stage ≠ .waiting ∧
      lane.stage ≠ .done := by
  induction lanes with
  | nil => cases hd
  | cons lane lanes ih =>
    by_cases hln : lane.stage = .done
    · rw [all_cons, decide_eq_true hln] at hd
      obtain ⟨i, found, hf, hsg⟩ := ih (h.2 (.inr hln)) hd
      exact ⟨i + 1, found, hf, hsg⟩
    · exact ⟨0, lane, rfl, h.1, hln⟩

theorem LaneRun.Poised.exists_step {lane : LaneRun} (h : lane.Poised)
    (hw : lane.stage ≠ .waiting) (hd : lane.stage ≠ .done) (suite : Suite)
    (base : Except String Unit) (stopped : Bool) (finished : ℕ) :
    ∃ ev next, (⟨lane, finished⟩ : Work).step suite base stopped ev = some next := by
  have hpass (hac : lane.stage.active = true) :
      ∃ ev next, (⟨lane, finished⟩ : Work).step suite base stopped ev = some next := by
    obtain ⟨e, rest, hrn⟩ := exists_cons_of_ne_nil (h hac)
    refine ⟨.completed 0 ⟨.ok (), .ok (), .panic "", .ok ()⟩, ?_⟩
    simp only [Work.step, hrn]
    exact ⟨_, rfl⟩
  cases hsg : lane.stage with
  | waiting => exact absurd hsg hw
  | booting =>
    refine ⟨.booted (.ok ()), ?_⟩
    simp only [Work.step, hsg]
    exact ⟨_, rfl⟩
  | shared | last => exact hpass (congrArg Stage.active hsg)
  | teardown =>
    refine ⟨.tornDown (.ok ()), ?_⟩
    simp only [Work.step, hsg]
    exact ⟨_, rfl⟩
  | done => exact absurd hsg hd

end Poised

/-! ### Suites -/

def SuiteRun.Ready (suite : Suite) (run : SuiteRun) : Prop :=
  match run.stage with
  | .executing => Awake suite.serial run.lanes ∧ ∀ lane ∈ run.lanes, lane.Poised
  | _ => True

section Ready

variable {suite : Suite} {run next : SuiteRun}

theorem SuiteRun.Ready.execute (suite : Suite) (run : SuiteRun) :
    (suite.execute run).Ready suite := by
  refine ⟨wake_awake _ _ _ _, wake_poised _ _ _ _ fun lane hln => ?_⟩
  obtain ⟨first, -, rfl⟩ := mem_map.mp hln
  exact fun hac => nomatch hac

theorem SuiteRun.Ready.prepareNext (suite : Suite) (run : SuiteRun) (todo : List ℕ) :
    (suite.prepareNext run todo).Ready suite := by
  rw [Suite.prepareNext]
  split
  · exact .execute suite run
  · exact trivial

theorem SuiteRun.Ready.step (h : run.Ready suite) {ev : Event}
    (hst : suite.step run ev = some next) : next.Ready suite := by
  cases Suite.step_change hst with
  | interrupted => exact h
  | started | prepared => exact .prepareNext _ _ _
  | failed => exact .execute _ _
  | advanced hsg hln hwork =>
    rw [SuiteRun.Ready, hsg] at h ⊢
    refine ⟨wake_awake _ _ _ _, wake_poised _ _ _ _ fun other ho => ?_⟩
    rcases mem_or_eq_of_mem_set ho with hold | rfl
    · exact h.2 other hold
    · exact Work.step_poised hwork
  | finished => exact trivial

theorem SuiteRun.After.ready (h : run.After suite) : run.Ready suite := by
  obtain ⟨stop, hreach⟩ := h
  exact hreach.induction trivial fun _ _ _ hs hst => hs.step hst

/-- **A suite at work waits for something** as long as not all its lanes are done. -/
theorem SuiteRun.After.exists_step (h : run.After suite) (hsg : run.stage = .executing)
    (hd : run.lanes.all (·.stage = .done) = false) :
    ∃ i event next, suite.step run (.lane i event) = some next := by
  have hready := h.ready
  rw [SuiteRun.Ready, hsg] at hready
  obtain ⟨i, lane, hln, hw, hnot⟩ := hready.1.exists_begun hd
  obtain ⟨event, work, hwork⟩ := (hready.2 lane (mem_of_getElem? hln)).exists_step hw
    hnot suite run.base run.stop run.finished
  refine ⟨i, event, ?_⟩
  simp only [Suite.step, hsg, hln, hwork]
  exact ⟨_, rfl⟩

theorem SuiteRun.After.left_lt (h : run.After suite) {i : ℕ}
    (hst : suite.step run (.lane i ev) = some next) : next.left < run.left := by
  rw [Suite.step] at hst
  split at hst
  · rename_i lane hsg hln
    have hac := (Rule.active suite).holds h (by rw [hsg]; rfl) lane
      (mem_of_getElem? hln)
    split at hst
    · rename_i work hwork
      have hless : work.left < lane.left := Work.step_left hac hwork
      have hsum := sum_map_set LaneRun.left work.toLaneRun hln
      have hwake : Advances suite run.base run.stop
          (run.lanes.set i work.toLaneRun, work.finished)
          (wake suite run.stop work.finished (run.lanes.set i work.toLaneRun)) :=
        .wake _ _ _
      have hle := hwake.left_le
      dsimp only at hle
      rw [← some.inj hst]
      change ((wake suite run.stop work.finished _).1.map LaneRun.left).sum
        < (run.lanes.map LaneRun.left).sum
      omega
    · cases hst
  · cases hst

end Ready

end Redsuite.Cli
