import Redsuite.Suite
import Mathlib.Algebra.GroupWithZero.Nat

/-!
# What a suite at work can do

Between two awaits a lane may do several things.
-/

namespace Redsuite.Cli

open List Option

def Stage.active : Stage → Bool
  | .shared | .last => true
  | _ => false

/-- What a lane does by itself. -/
inductive Move (suite : Suite) (base : Except String Unit) (stopped : Bool) : Work → Work → Prop
  | boot {work : Work} (hstage : work.stage = .waiting) (hgroup : work.lane.group ≠ none) :
    Move suite base stopped work { work with stage := .booting }
  | fresh {work : Work} (hstage : work.stage = .waiting) (hgroup : work.lane.group = none) :
    Move suite base stopped work
      { work with
        stage := .last
        limit := if suite.serial then .MIN else suite.freshConcurrency }
  | onePass {work : Work} (result : Except String Unit) (hstage : work.stage = .booting)
      (hserial : suite.serial = true) :
    Move suite base stopped work
      { work with er := some (bootResult base result), stage := .last, limit := .MIN }
  | twoPasses {work : Work} (result : Except String Unit) (hstage : work.stage = .booting)
      (hserial : suite.serial = false) :
    Move suite base stopped work
      { work with
        er := some (bootResult base result)
        stage := .shared
        limit := suite.sharedConcurrency
        pending := work.pending.filter (·.er.isShared)
        later := work.pending.filter (!·.er.isShared) }
  | fill {work : Work} (hstage : work.stage.active = true) :
    Move suite base stopped work (work.fill stopped)
  | record {work : Work} {index : ℕ} {entry : ScenarioEntry} (attempt : Attempt)
      (hstage : work.stage.active = true) (hentry : work.running[index]? = some entry) :
    Move suite base stopped work (work.record suite index entry attempt)
  | conclude {work : Work} (hstage : work.stage.active = true) (hrunning : work.running = []) :
    Move suite base stopped work (work.conclude suite stopped)
  | exclusivePass {work : Work} (hstage : work.stage = .shared) (hrunning : work.running = [])
      (hpending : work.pending = []) (hpassed : work.records.all RunRecord.passed = true) :
    Move suite base stopped work work.exclusivePass
  | skipLater {work : Work} (hstage : work.stage = .shared) (hrunning : work.running = [])
      (hpending : work.pending = []) (hpassed : work.records.all RunRecord.passed = false) :
    Move suite base stopped work
      { work.skip suite work.later "earlier scenario in this ER group failed" with later := [] }
  | close {work : Work} (hstage : work.stage = .last ∨ work.stage = .shared ∧ work.later = [])
      (hrunning : work.running = []) (hpending : work.pending = []) :
    Move suite base stopped work work.close
  | tornDown {work : Work} (result : Except String Unit) (hstage : work.stage = .teardown) :
    Move suite base stopped work (work.tornDown result)

/-- Any number of moves. -/
abbrev Moves (suite : Suite) (base : Except String Unit) (stopped : Bool) : Work → Work → Prop :=
  Relation.ReflTransGen (Move suite base stopped)

theorem startLoop_append (limit running : ℕ) (pending : List ScenarioEntry) :
    (startLoop limit running pending).1 ++ (startLoop limit running pending).2 = pending := by
  induction pending generalizing running with
  | nil => rfl
  | cons e pending ih =>
    rw [startLoop]
    split
    · exact congrArg (e :: ·) (ih (running + 1))
    · rfl

section Moves

variable {suite : Suite} {base : Except String Unit} {stopped : Bool} {work next : Work}

theorem Work.fill_stage (stopped : Bool) (work : Work) :
    (work.fill stopped).stage = work.stage := by
  rw [fill]
  split
  · rfl
  · split <;> rfl

theorem Stage.active_iff {stage : Stage} :
    stage.active = true ↔ stage = .shared ∨ stage = .last := by
  cases stage <;> decide

theorem Stage.active_cases {stage : Stage} (h : stage.active = true) :
    ¬(stage = .waiting ∨ stage = .booting) ∧ ¬(stage = .teardown ∨ stage = .done) := by
  rcases Stage.active_iff.mp h with rfl | rfl <;> exact ⟨nofun, nofun⟩

theorem Work.close_stage (work : Work) :
    (work.close.stage = .teardown ∧ work.er = some (.ok ())) ∨
    (work.close.stage = .done ∧ work.er ≠ some (.ok ())) := by
  rw [close]
  split
  · rename_i her
    exact .inl ⟨rfl, her⟩
  · rename_i her
    exact .inr ⟨rfl, her⟩

theorem Moves.endLast (hsg : work.stage = .last) :
    Moves suite base stopped work (work.endLast suite stopped) := by
  have hac := Stage.active_iff.mpr (.inr hsg)
  rw [Work.endLast]
  split
  · exact .refl
  · rename_i hrn
    exact .tail (.single (.conclude hac hrn)) (.close (.inl hsg) hrn rfl)

theorem Moves.endShared (hsg : work.stage = .shared) :
    Moves suite base stopped work (work.endShared suite stopped) := by
  have hac := Stage.active_iff.mpr (.inl hsg)
  rw [Work.endShared]
  split
  · exact .refl
  · rename_i hrn
    have hconclude : Moves suite base stopped work (work.conclude suite stopped) :=
      .single (.conclude hac hrn)
    dsimp only
    split
    · rename_i hps
      have hpass := hconclude.tail (.exclusivePass hsg hrn rfl hps)
      refine (hpass.tail (.fill rfl)).trans (Moves.endLast ?_)
      exact Work.fill_stage stopped _
    · rename_i hps
      have hskip :=
        hconclude.tail (.skipLater hsg hrn rfl (Bool.eq_false_iff.mpr hps))
      exact hskip.tail (.close (.inr ⟨hsg, rfl⟩) hrn rfl)

theorem Moves.proceed (hac : work.stage.active = true) :
    Moves suite base stopped work (work.proceed suite stopped) := by
  have hfill : Moves suite base stopped work (work.fill stopped) := .single (.fill hac)
  have hsg := Work.fill_stage stopped work
  simp only [Work.proceed]
  split
  · rename_i hshr
    exact hfill.trans (Moves.endShared hshr)
  · rename_i ho
    refine hfill.trans (Moves.endLast ?_)
    rcases Stage.active_iff.mp hac with hshr | hla
    · exact absurd (hsg.trans hshr) ho
    · exact hsg.trans hla

theorem Moves.start (hsg : work.stage = .waiting) :
    Moves suite base stopped work (work.start suite stopped) := by
  rw [Work.start]
  split
  · rename_i hgr
    exact .single (.boot hsg (by rw [hgr]; exact nofun))
  · rename_i hgr
    exact (Relation.ReflTransGen.single (.fresh hsg hgr)).trans (Moves.proceed rfl)

theorem Moves.booted (hsg : work.stage = .booting) (r : Except String Unit) :
    Moves suite base stopped work (work.booted suite base stopped r) := by
  simp only [Work.booted]
  split
  · rename_i hserial
    exact (Relation.ReflTransGen.single (.onePass r hsg hserial)).trans (Moves.proceed rfl)
  · rename_i hserial
    exact (Relation.ReflTransGen.single
      (.twoPasses r hsg (Bool.eq_false_iff.mpr hserial))).trans (Moves.proceed rfl)

/-- What an event does to a lane. -/
inductive Work.Change (suite : Suite) (base : Except String Unit) (stopped : Bool) (work : Work) :
    Work → Prop
  | booted (result : Except String Unit) (hstage : work.stage = .booting) :
    Change suite base stopped work (work.booted suite base stopped result)
  | completed {index : ℕ} {entry : ScenarioEntry} (attempt : Attempt)
      (hentry : work.running[index]? = some entry) :
    Change suite base stopped work ((work.record suite index entry attempt).proceed suite stopped)
  | tornDown (result : Except String Unit) (hstage : work.stage = .teardown) :
    Change suite base stopped work (work.tornDown result)

theorem Work.step_change {ev : LaneEvent}
    (h : work.step suite base stopped ev = some next) :
    work.Change suite base stopped next := by
  rw [Work.step.eq_def] at h
  cases ev <;> dsimp only at h <;> split at h <;> cases h
  · exact .booted _ ‹_›
  · exact .completed _ ‹_›
  · exact .tornDown _ ‹_›

/-- Only an active lane runs something. -/
def LaneRun.Active (lane : LaneRun) : Prop := lane.running ≠ [] → lane.stage.active = true

theorem LaneRun.Active.of_running {lane : LaneRun} (h : lane.Active) {i : ℕ}
    {e : ScenarioEntry} (he : lane.running[i]? = some e) :
    lane.stage.active = true := h (ne_nil_of_mem (mem_of_getElem? he))

theorem Work.step_moves (hrn : work.Active) {ev : LaneEvent}
    (hst : work.step suite base stopped ev = some next) :
    Moves suite base stopped work next := by
  cases Work.step_change hst with
  | booted r hsg => exact .booted hsg r
  | completed a he =>
    have hac := hrn.of_running he
    exact (Relation.ReflTransGen.single (.record a hac he)).trans (Moves.proceed hac)
  | tornDown r hsg => exact .single (.tornDown r hsg)

end Moves

/-! ### Lanes of a suite -/

/-- One of the lanes of a suite makes a move; the counter goes with it. -/
inductive Advance (suite : Suite) (base : Except String Unit) (stopped : Bool) :
    List LaneRun × ℕ → List LaneRun × ℕ → Prop
  | lane {lanes : List LaneRun} {finished : ℕ} {index : ℕ} {lane : LaneRun} {work : Work}
      (hlane : lanes[index]? = some lane) (hmove : Move suite base stopped ⟨lane, finished⟩ work) :
    Advance suite base stopped (lanes, finished) (lanes.set index work.toLaneRun, work.finished)

/-- Any number of advances. -/
abbrev Advances (suite : Suite) (base : Except String Unit) (stopped : Bool) :
    List LaneRun × ℕ → List LaneRun × ℕ → Prop :=
  Relation.ReflTransGen (Advance suite base stopped)

section Advances

variable {suite : Suite} {base : Except String Unit} {stopped : Bool}

theorem Advances.of_moves {lanes : List LaneRun} {finished i : ℕ} {lane : LaneRun}
    {work : Work} (hln : lanes[i]? = some lane)
    (hmvs : Moves suite base stopped ⟨lane, finished⟩ work) :
    Advances suite base stopped (lanes, finished)
      (lanes.set i work.toLaneRun, work.finished) := by
  obtain ⟨hbd, hget⟩ := List.getElem?_eq_some_iff.mp hln
  induction hmvs with
  | refl =>
    subst hget
    rw [set_getElem_self]
  | @tail middle work _ hmove ih =>
    have hset : (lanes.set i middle.toLaneRun)[i]? = some middle.toLaneRun :=
      getElem?_set_self hbd
    have hadv : Advance suite base stopped _ _ := .lane hset hmove
    rw [set_set] at hadv
    exact ih.tail hadv

theorem Advances.cons {lanes next : List LaneRun} {finished counted : ℕ} (lane : LaneRun)
    (h : Advances suite base stopped (lanes, finished) (next, counted)) :
    Advances suite base stopped (lane :: lanes, finished) (lane :: next, counted) := by
  have hlift : ∀ s, Advances suite base stopped (lanes, finished) s →
      Advances suite base stopped (lane :: lanes, finished) (lane :: s.1, s.2) := by
    intro s hs
    induction hs with
    | refl => exact .refl
    | tail _ hadv ih =>
      obtain ⟨hln, hmove⟩ := hadv
      exact ih.tail (Advance.lane (getElem?_cons_succ.trans hln) hmove)
  exact hlift _ h

theorem Advances.wake (base : Except String Unit) (finished : ℕ) (lanes : List LaneRun) :
    Advances suite base stopped (lanes, finished) (wake suite stopped finished lanes) := by
  induction lanes generalizing finished with
  | nil => exact .refl
  | cons lane lanes ih =>
    rw [Cli.wake]
    dsimp only
    generalize hwork : (if lane.stage = .waiting then Work.start suite stopped ⟨lane, finished⟩
      else (⟨lane, finished⟩ : Work)) = work
    have hmvs : Moves suite base stopped ⟨lane, finished⟩ work := by
      rw [← hwork]
      split
      · rename_i hsg
        exact .start hsg
      · exact .refl
    have hfst : Advances suite base stopped (lane :: lanes, finished)
        (work.toLaneRun :: lanes, work.finished) := .of_moves (getElem?_cons_zero) hmvs
    split
    · exact hfst
    · exact hfst.trans ((ih work.finished).cons work.toLaneRun)

end Advances

theorem sum_map_set {α : Type} (f : α → ℕ) {values : List α} {i : ℕ} {old : α} (v : α)
    (h : values[i]? = some old) :
    ((values.set i v).map f).sum + f old = (values.map f).sum + f v := by
  induction values generalizing i with
  | nil => cases h
  | cons first values ih =>
    match i with
    | 0 =>
      cases h
      rw [set_cons_zero, map_cons, map_cons, sum_cons, sum_cons]
      omega
    | i + 1 =>
      have := ih h
      rw [set_cons_succ, map_cons, map_cons, sum_cons, sum_cons]
      omega

/-! ### Invariants of a suite -/

def RunStage.begun : RunStage → Bool
  | .starting | .preparing _ => false
  | .executing | .returned _ => true

/-- What holds of the lanes and the counter when the lanes begin, and is kept by their moves and by
an interruption. -/
structure Rule (suite : Suite) (P : Except String Unit → Bool → List LaneRun × ℕ → Prop) :
    Prop where
  start : ∀ base stop, P base stop (suite.laneOrder.map Lane.run, 0)
  advance : ∀ base stop state next, P base stop state → Advance suite base stop state next →
    P base stop next
  interrupt : ∀ base stop state, P base stop state → P base true state

variable {suite : Suite}

theorem LaneRun.Active.move {base : Except String Unit} {stopped : Bool} {work next : Work}
    (h : work.Active) (hmove : Move suite base stopped work next) : next.Active := by
  -- a lane that is in no pass has nothing running
  have hidle {stage : Stage} (hsg : work.stage = stage) (hac : stage.active = false)
      (hrn : work.running ≠ []) : False := by
    have := h hrn
    rw [hsg, hac] at this
    cases this
  cases hmove with
  | boot hsg | tornDown r hsg => exact fun hrn => (hidle hsg rfl hrn).elim
  | fill hsg => exact fun _ => (congrArg Stage.active (Work.fill_stage stopped work)).trans hsg
  | record a hsg | conclude hsg => exact fun _ => hsg
  | skipLater hsg => exact fun _ => congrArg Stage.active hsg
  | close hsg hrn => exact fun hne => absurd hrn hne
  | _ => exact fun _ => rfl

theorem Rule.of_lanes {P : Except String Unit → Bool → LaneRun → Prop}
    (hsr : ∀ base stop, ∀ lane ∈ suite.laneOrder, P base stop lane.run)
    (hmove : ∀ base stop (work next : Work), P base stop work.toLaneRun →
      Move suite base stop work next → P base stop next.toLaneRun)
    (hstop : ∀ base stop lane, P base stop lane → P base true lane) :
    Rule suite fun base stop s => ∀ lane ∈ s.1, P base stop lane := by
  refine ⟨fun base stop lane hln => ?_, ?_, fun base stop s h lane hln =>
    hstop base stop lane (h lane hln)⟩
  · obtain ⟨first, hfst, rfl⟩ := mem_map.mp hln
    exact hsr base stop first hfst
  · rintro base stop _ _ h ⟨hln, hmv⟩ lane hm
    rcases mem_or_eq_of_mem_set hm with hold | rfl
    · exact h lane hold
    · exact hmove base stop _ _ (h _ (mem_of_getElem? hln)) hmv

theorem Rule.and {P Q : Except String Unit → Bool → List LaneRun × ℕ → Prop} (hP : Rule suite P)
    (hQ : Rule suite Q) : Rule suite fun base stop s => P base stop s ∧ Q base stop s :=
  ⟨fun base stop => ⟨hP.start base stop, hQ.start base stop⟩,
    fun base stop s next h hadv =>
      ⟨hP.advance base stop s next h.1 hadv, hQ.advance base stop s next h.2 hadv⟩,
    fun base stop s h => ⟨hP.interrupt base stop s h.1, hQ.interrupt base stop s h.2⟩⟩

theorem Rule.active (suite : Suite) : Rule suite fun _ _ s => ∀ lane ∈ s.1, lane.Active :=
  .of_lanes (fun _ _ _ _ hrn => absurd rfl hrn) (fun _ _ _ _ h hmove => h.move hmove)
    fun _ _ _ h => h

theorem Rule.advances {P : Except String Unit → Bool → List LaneRun × ℕ → Prop} (hP : Rule suite P)
    {base : Except String Unit} {stop : Bool} {s next : List LaneRun × ℕ}
    (h : P base stop s) (hadvances : Advances suite base stop s next) :
    P base stop next := by
  induction hadvances with
  | refl => exact h
  | tail _ hadv ih => exact hP.advance _ _ _ _ ih hadv

/-- What an event does to a run. -/
inductive Suite.Change (suite : Suite) (run : SuiteRun) : SuiteRun → Prop where
  | interrupted : Change suite run { run with stop := true }
  | started (hstage : run.stage = .starting) :
      Change suite run (suite.prepareNext run (suite.entries.filterMap (·.prepare)))
  | prepared {key : ℕ} {todo : List ℕ} (hstage : run.stage = .preparing (key :: todo)) :
      Change suite run (suite.prepareNext { run with prepared := run.prepared ++ [key] } todo)
  | failed (error : String) (hstage : run.stage.begun = false) :
      Change suite run (suite.execute { run with base := .error error })
  | advanced {index : ℕ} {event : LaneEvent} {lane : LaneRun} {work : Work}
      (hstage : run.stage = .executing) (hlane : run.lanes[index]? = some lane)
      (hwork : (⟨lane, run.finished⟩ : Work).step suite run.base run.stop event = some work) :
      Change suite run { run with
        lanes := (wake suite run.stop work.finished (run.lanes.set index work.toLaneRun)).1
        finished := (wake suite run.stop work.finished (run.lanes.set index work.toLaneRun)).2 }
  | finished {outcome : Except String Unit} (down : Except String Unit)
      (hstage : run.stage = .executing) (hdone : run.lanes.all (·.stage = .done) = true)
      (hok : outcome = .ok () → suite.finish run.records down = .ok ()) :
      Change suite run { run with
        stage := .returned outcome
        down := if suite.cleanup && !suite.config.environment then some down else none }

theorem Suite.step_change {run next : SuiteRun} {ev : Event}
    (h : suite.step run ev = some next) : suite.Change run next := by
  rw [Suite.step.eq_def] at h
  cases ev with
  | interrupted =>
    cases h
    exact .interrupted
  | started r =>
    dsimp only at h
    split at h <;> rename_i hsg <;> cases h
    · exact .started hsg
    · exact .failed _ (by rw [hsg]; rfl)
  | prepared r =>
    dsimp only at h
    split at h <;> rename_i hsg <;> cases h
    · exact .prepared hsg
    · exact .failed _ (by rw [hsg]; rfl)
  | lane i ev =>
    dsimp only at h
    split at h
    · rename_i lane hsg hln
      split at h <;> cases h
      exact .advanced hsg hln ‹_›
    · cases h
  | finish down persisted =>
    dsimp only at h
    split at h
    · rename_i hsg
      split at h <;> cases h
      refine .finished down hsg ‹_› fun hok => ?_
      split at hok
      · assumption
      · cases hok
    · cases h

/-- Before the lanes begin, nothing was counted; then the property holds. -/
structure SuiteRun.Follows (suite : Suite)
    (P : Except String Unit → Bool → List LaneRun × ℕ → Prop) (run : SuiteRun) : Prop where
  idle : run.stage.begun = false → run.finished = 0
  holds : run.stage.begun = true → P run.base run.stop (run.lanes, run.finished)

section Follows

variable {suite : Suite} {P : Except String Unit → Bool → List LaneRun × ℕ → Prop}

variable {run : SuiteRun}

theorem SuiteRun.Follows.execute (hP : Rule suite P) (hidle : run.finished = 0) :
    (suite.execute run).Follows suite P := by
  refine ⟨nofun, fun _ => ?_⟩
  have hwake : Advances suite run.base run.stop (suite.laneOrder.map Lane.run, run.finished)
      (wake suite run.stop run.finished (suite.laneOrder.map Lane.run)) := .wake _ _ _
  refine hP.advances ?_ hwake
  rw [hidle]
  exact hP.start run.base run.stop

theorem SuiteRun.Follows.prepareNext (hP : Rule suite P) (run : SuiteRun)
    (hidle : run.finished = 0) (todo : List ℕ) : (suite.prepareNext run todo).Follows suite P := by
  rw [Suite.prepareNext]
  split
  · exact .execute hP hidle
  · exact ⟨fun _ => hidle, nofun⟩

theorem SuiteRun.Follows.step (hP : Rule suite P)
    (hac : ∀ base stop s, P base stop s → ∀ lane ∈ s.1, lane.Active)
    {next : SuiteRun} (h : run.Follows suite P) {ev : Event}
    (hst : suite.step run ev = some next) : next.Follows suite P := by
  cases Suite.step_change hst with
  | interrupted => exact ⟨h.idle, fun hbg => hP.interrupt _ _ _ (h.holds hbg)⟩
  | started hsg => exact .prepareNext hP run (h.idle (by rw [hsg]; rfl)) _
  | @prepared key todo hsg =>
    exact .prepareNext hP { run with prepared := run.prepared ++ [key] }
      (h.idle (by rw [hsg]; rfl)) todo
  | failed error hsg => exact .execute hP (h.idle hsg)
  | @advanced i ev lane work hsg hln hwork =>
    have hhs := h.holds (by rw [hsg]; rfl)
    have hmvs : Moves suite run.base run.stop ⟨lane, run.finished⟩ work :=
      Work.step_moves (hac _ _ _ hhs lane (mem_of_getElem? hln)) hwork
    have hwake : Advances suite run.base run.stop
        (run.lanes.set i work.toLaneRun, work.finished)
        (wake suite run.stop work.finished (run.lanes.set i work.toLaneRun)) :=
      .wake _ _ _
    refine ⟨fun hbg => ?_, fun _ =>
      hP.advances hhs ((Advances.of_moves hln hmvs).trans hwake)⟩
    rw [hsg] at hbg
    cases hbg
  | finished down hsg => exact ⟨nofun, fun _ => h.holds (by rw [hsg]; rfl)⟩

/-- The run is one that `run_suite` passes through. -/
abbrev SuiteRun.After (suite : Suite) (run : SuiteRun) : Prop :=
  ∃ stop, Machine.Reachable suite.step (Suite.start stop) run

theorem Rule.holds (hP : Rule suite P) (h : run.After suite) (hbg : run.stage.begun = true) :
    P run.base run.stop (run.lanes, run.finished) := by
  obtain ⟨stop, hreach⟩ := h
  have hrule := hP.and (Rule.active suite)
  have hfollows := hreach.induction (P := SuiteRun.Follows suite _) ⟨fun _ => rfl, nofun⟩
    fun _ _ _ hs hst => hs.step hrule (fun _ _ _ h => h.2) hst
  exact (hfollows.holds hbg).1

end Follows

end Redsuite.Cli
