import Redsuite.SuiteLanes
import Redsuite.SuiteProgress
import Mathlib.Algebra.BigOperators.Group.List.Basic

/-!
# One record for each scenario

However the scenarios of a suite come out, and whenever it is interrupted, each of them leaves one
record, and is counted once.
-/

namespace Redsuite.Cli

open List

/-! ### The accounts of a lane -/

/-- The entries that have a record. -/
def about (records : List RunRecord) : List ScenarioEntry := records.filterMap (·.entry)

theorem about_append (rs more : List RunRecord) :
    about (rs ++ more) = about rs ++ about more := filterMap_append

theorem about_notRun (es : List ScenarioEntry) (family : Family) (reason : String) :
    about (es.map (RunRecord.notRun · family reason)) = es := by
  induction es with
  | nil => rfl
  | cons e es ih => exact congrArg (e :: ·) ih

/-- What a record of an entry says, if the lane has a given ER. -/
def RunRecord.Good (family : Family) (er : Option (Except String Unit))
    (record : RunRecord) : Prop :=
  ∀ entry, record.entry = some entry → record.name = entry.name family ∧
    (record.passed = true → record.ran = true) ∧ (record.ran = true → entry.state er = .ok ())

theorem RunRecord.Good.notRun (family : Family) (er : Option (Except String Unit))
    (e : ScenarioEntry) (reason : String) : (notRun e family reason).Good family er := by
  rintro _ ⟨⟩
  exact ⟨rfl, nofun, nofun⟩

variable {family : Family}

theorem RunRecord.Of.good {er : Option (Except String Unit)} {e : ScenarioEntry} {r : RunRecord}
    (h : r.Of e family er) : r.Good family er := by
  intro other ho
  cases h.about.symm.trans ho
  exact ⟨h.name, h.ran, h.state⟩

/-- No entry is lost or recorded twice. -/
structure LaneRun.Kept (family : Family) (base : Except String Unit) (lane : LaneRun) : Prop where
  /-- every entry is recorded, running, pending or left for the last pass -/
  entries : ∀ entry, (about lane.records).count entry + lane.running.count entry +
    lane.pending.count entry + lane.later.count entry = lane.lane.entries.count entry
  good : ∀ record ∈ lane.records, record.Good family lane.er
  early : lane.stage = .waiting ∨ lane.stage = .booting →
    lane.records = [] ∧ lane.later = [] ∧ lane.er = none
  last : lane.stage = .last → lane.later = []
  finished : lane.stage = .teardown ∨ lane.stage = .done →
    lane.running = [] ∧ lane.pending = [] ∧ lane.later = []
  based : lane.er = some (.ok ()) → base = .ok ()
  torn : lane.stage = .done → lane.er = some (.ok ()) → lane.torn ≠ none
  failed : ∀ error, lane.torn = some (.error error) →
    ∃ record ∈ lane.records, record.passed = false

section Kept

variable {suite : Suite} {base : Except String Unit} {stopped : Bool} {work next : Work}

theorem bootResult_ok {r : Except String Unit}
    (h : some (bootResult base r) = some (.ok ())) : base = .ok () := by
  cases base with
  | error error => exact nomatch Option.some.inj h
  | ok => rfl

theorem count_filter_add (es : List ScenarioEntry) (p : ScenarioEntry → Bool)
    (e : ScenarioEntry) :
    (es.filter p).count e + (es.filter (!p ·)).count e = es.count e := by
  rw [← count_append]
  exact (filter_append_perm p es).count_eq e

theorem Work.skip_good (er : Option (Except String Unit)) (es : List ScenarioEntry)
    (reason : String) : ∀ r ∈ es.map (RunRecord.notRun · family reason), r.Good family er := by
  intro r hrec
  obtain ⟨e, -, rfl⟩ := mem_map.mp hrec
  exact .notRun family er e reason

section

variable (h : work.Kept suite.family base)

include h

theorem LaneRun.Kept.recorded (hsg : work.stage.active = true)
    {later running pending : List ScenarioEntry} {log : List (Note ScenarioEntry)} {failed : Bool}
    (records : List RunRecord)
    (hgood : ∀ r ∈ records, r.Good suite.family work.er)
    (hes : ∀ e, (about records).count e + running.count e +
      pending.count e + later.count e
        = work.running.count e + work.pending.count e + work.later.count e)
    (hlat : work.later = [] → later = []) :
    { work.toLaneRun with
      records := work.records ++ records
      running, pending, later, failed, log }.Kept suite.family base where
  entries e := by
    have hold := h.entries e
    have hnew := hes e
    dsimp only
    rw [about_append, count_append]
    omega
  good r hrec := (mem_append.mp hrec).elim (h.good r) (hgood r)
  early hea := absurd hea (Stage.active_cases hsg).1
  last hla := hlat (h.last hla)
  finished hover := absurd hover (Stage.active_cases hsg).2
  based := h.based
  torn := h.torn
  failed error herr := by
    obtain ⟨r, hm, hps⟩ := h.failed error herr
    exact ⟨r, mem_append_left _ hm, hps⟩

theorem LaneRun.Kept.fill (hsg : work.stage.active = true) :
    (work.fill stopped).Kept suite.family base := by
  rw [Work.fill]
  split
  · exact h
  · split
    · exact ⟨h.entries, h.good, h.early, h.last, h.finished, h.based, h.torn, h.failed⟩
    · refine ⟨fun e => ?_, h.good, h.early, h.last, fun hover => ?_, h.based, h.torn, h.failed⟩
      · have hes := h.entries e
        rw [← startLoop_append work.limit.get work.running.length work.pending,
          count_append] at hes
        dsimp only
        rw [count_append]
        omega
      · exact absurd hover (Stage.active_cases hsg).2

theorem LaneRun.Kept.record (hsg : work.stage.active = true) {i : ℕ} {e : ScenarioEntry}
    (he : work.running[i]? = some e) (a : Attempt) :
    (work.record suite i e a).Kept suite.family base :=
    by
  have hof := e.run_of suite.family suite.config work.er a
  have habout : about [e.run suite.family suite.config work.er a] = [e] := by
    rw [about, filterMap_cons_some hof.about]
    rfl
  refine h.recorded hsg [e.run suite.family suite.config work.er a]
    (forall_mem_singleton.mpr hof.good) (fun other => ?_) id
  -- the entry goes from the running ones to the recorded ones
  obtain ⟨hbd, hget⟩ := List.getElem?_eq_some_iff.mp he
  have hpm := (List.getElem_cons_eraseIdx_perm hbd).count_eq other
  rw [hget, count_cons] at hpm
  rw [habout, count_singleton]
  omega

theorem LaneRun.Kept.conclude (hsg : work.stage.active = true) :
    (work.conclude suite stopped).Kept suite.family base := by
  refine h.recorded hsg (work.pending.map (RunRecord.notRun · suite.family _))
    (Work.skip_good _ _ _) (fun e => ?_) id
  rw [about_notRun, count_nil]
  change _ + work.running.count e + 0 + work.later.count e = _
  omega

theorem LaneRun.Kept.skipLater (hsg : work.stage = .shared) (reason : String) :
    { work.skip suite work.later reason with later := [] }.Kept suite.family base := by
  refine h.recorded (Stage.active_iff.mpr (.inl hsg))
    (work.later.map (RunRecord.notRun · suite.family reason)) (Work.skip_good _ _ _)
    (fun e => ?_) fun _ => rfl
  rw [about_notRun, count_nil]
  change _ + work.running.count e + work.pending.count e + 0 = _
  omega

theorem LaneRun.Kept.tornDown (hsg : work.stage = .teardown) (res : Except String Unit) :
    (work.tornDown res).Kept suite.family base := by
  have hover := h.finished (.inl hsg)
  -- the record of a failed teardown is about no entry, and has not passed
  obtain ⟨more, hmore, habout, hfl⟩ : ∃ more, (work.tornDown res).records
      = work.records ++ more ∧ (∀ r ∈ more, r.entry = none) ∧
      ∀ error, res = .error error → ∃ r ∈ more, r.passed = false := by
    cases res with
    | ok => exact ⟨[], rfl, forall_mem_nil _, fun _ h => nomatch h⟩
    | error error =>
      refine ⟨[_], rfl, fun r hrec => ?_, fun _ _ => ⟨_, mem_cons_self, ?_⟩⟩
      · rw [mem_singleton.mp hrec]
        rfl
      · rfl
  have hn : about more = [] := filterMap_eq_nil_iff.mpr habout
  refine ⟨fun e => ?_, fun r hrec => ?_, (nomatch ·), (nomatch ·), fun _ => hover,
    h.based, fun _ _ h => (nomatch h), fun error herr => ?_⟩
  · have hes := h.entries e
    rw [hmore, about_append, hn, append_nil]
    exact hes
  · rw [hmore] at hrec
    rcases mem_append.mp hrec with hold | hnew
    · exact h.good r hold
    · intro e he
      exact nomatch (habout r hnew).symm.trans he
  · obtain ⟨r, hrec, hps⟩ := hfl error (Option.some.inj herr)
    rw [hmore]
    exact ⟨r, mem_append_right _ hrec, hps⟩

theorem LaneRun.Kept.move (hmove : Move suite base stopped work next) :
    next.Kept suite.family base := by
  cases hmove with
  | boot hsg =>
    exact ⟨h.entries, h.good, fun _ => h.early (.inl hsg), (nomatch ·), (nomatch ·), h.based,
      (nomatch ·), h.failed⟩
  | fresh hsg =>
    exact ⟨h.entries, h.good, (nomatch ·), fun _ => (h.early (.inl hsg)).2.1, (nomatch ·),
      h.based, (nomatch ·), h.failed⟩
  | onePass r hsg =>
    obtain ⟨hrecords, hlat, -⟩ := h.early (.inr hsg)
    refine ⟨h.entries, ?_, (nomatch ·), fun _ => hlat, (nomatch ·), bootResult_ok, (nomatch ·),
      h.failed⟩
    rw [hrecords]
    exact forall_mem_nil _
  | twoPasses r hsg =>
    obtain ⟨hrecords, hlat, -⟩ := h.early (.inr hsg)
    refine ⟨fun e => ?_, ?_, (nomatch ·), (nomatch ·), (nomatch ·), bootResult_ok, (nomatch ·),
      h.failed⟩
    · have hes := h.entries e
      have hfilter := count_filter_add work.pending (·.er.isShared) e
      rw [hlat, count_nil] at hes
      dsimp only
      omega
    · rw [hrecords]
      exact forall_mem_nil _
  | fill hsg => exact h.fill hsg
  | record a hsg he => exact h.record hsg he a
  | conclude hsg => exact h.conclude hsg
  | exclusivePass hsg hrn hpd =>
    refine ⟨fun e => ?_, h.good, (nomatch ·), fun _ => rfl, (nomatch ·), h.based, (nomatch ·),
      h.failed⟩
    have hes := h.entries e
    rw [hpd] at hes
    exact (Nat.add_right_comm _ _ _).trans hes
  | skipLater hsg => exact h.skipLater hsg _
  | close hsg hrn hpd =>
    have hlat : work.later = [] := hsg.elim h.last And.right
    refine ⟨h.entries, h.good, fun hea => ?_, fun _ => hlat,
      fun _ => ⟨hrn, hpd, hlat⟩, h.based, fun hd her => ?_, h.failed⟩
    · rcases work.close_stage with hcld | hcld
      · rw [hcld.1] at hea
        exact nomatch hea
      · rw [hcld.1] at hea
        exact nomatch hea
    · rcases work.close_stage with hcld | hcld
      · cases hcld.1.symm.trans hd
      · exact absurd her hcld.2
  | tornDown r hsg => exact h.tornDown hsg r

end

/-! ### The counter -/

def LaneRun.told (lane : LaneRun) : ℕ := (about lane.records).length

theorem told_append (rs more : List RunRecord) :
    (about (rs ++ more)).length = (about rs).length + (about more).length := by
  rw [about_append, length_append]

theorem Work.fill_frame (stopped : Bool) (work : Work) :
    (work.fill stopped).lane = work.lane ∧ (work.fill stopped).records = work.records ∧
    (work.fill stopped).finished = work.finished := by
  rw [fill]
  split
  · exact ⟨rfl, rfl, rfl⟩
  · split <;> exact ⟨rfl, rfl, rfl⟩

theorem Move.counts (hmove : Move suite base stopped work next) :
    next.lane = work.lane ∧ next.finished + work.told = work.finished + next.told := by
  cases hmove with
  | fill =>
    obtain ⟨hln, hrecords, hfin⟩ := work.fill_frame stopped
    refine ⟨hln, ?_⟩
    rw [LaneRun.told, LaneRun.told, hrecords, hfin]
  | @record i e a =>
    refine ⟨rfl, ?_⟩
    have hone : (about [e.run suite.family suite.config work.er a]).length = 1 := by
      rw [about, filterMap_cons_some (e.run_of _ _ _ a).about]
      rfl
    have htold := told_append work.records [e.run suite.family suite.config work.er a]
    change work.finished + 1 + _ = work.finished + (about (work.records ++ _)).length
    rw [htold, LaneRun.told]
    omega
  | conclude =>
    refine ⟨rfl, ?_⟩
    change work.finished + work.pending.length + _
      = work.finished + (about (work.records ++ work.pending.map _)).length
    rw [told_append, about_notRun, LaneRun.told]
    omega
  | skipLater =>
    refine ⟨rfl, ?_⟩
    change work.finished + work.later.length + _
      = work.finished + (about (work.records ++ work.later.map _)).length
    rw [told_append, about_notRun, LaneRun.told]
    omega
  | tornDown r =>
    refine ⟨rfl, ?_⟩
    change work.finished + (about work.records).length
      = work.finished + (about (work.records ++ _)).length
    rw [told_append]
    cases r <;> rfl
  | _ => exact ⟨rfl, rfl⟩

end Kept

theorem Rule.counted (suite : Suite) : Rule suite fun _ _ s =>
    s.1.map LaneRun.lane = suite.laneOrder ∧ s.2 = (s.1.map LaneRun.told).sum := by
  refine ⟨fun base stop => ⟨?_, ?_⟩, ?_, fun _ _ _ h => h⟩
  · rw [map_map]
    exact map_id _
  · induction suite.laneOrder with
    | nil => rfl
    | cons lane lanes ih => exact ih.trans (Nat.zero_add _).symm
  · rintro base stop _ _ ⟨hlanes, hct⟩ ⟨hln, hmove⟩
    rename_i lanes finished i lane work
    obtain ⟨hsm, hfin⟩ := hmove.counts
    obtain ⟨hbd, hget⟩ := List.getElem?_eq_some_iff.mp hln
    refine ⟨?_, ?_⟩
    · rw [← hlanes, List.map_set, hsm]
      rw [← hget, ← getElem_map LaneRun.lane, set_getElem_self]
      exact (length_map _).symm ▸ hbd
    · have hsum := sum_map_set LaneRun.told work.toLaneRun hln
      change finished = (lanes.map LaneRun.told).sum at hct
      change _ + lane.told = finished + _ at hfin
      dsimp only
      omega

theorem Rule.kept (suite : Suite) : Rule suite fun base _ s =>
    ∀ lane ∈ s.1, lane.Kept suite.family base := by
  refine .of_lanes (fun base _ lane _ => ⟨fun e => ?_, forall_mem_nil _, fun _ => ⟨rfl, rfl, rfl⟩,
    (nomatch ·), (nomatch ·), (nomatch ·), (nomatch ·), fun _ h => nomatch h⟩)
    (fun _ _ _ _ h hmove => h.move hmove) fun _ _ _ h => h
  change 0 + 0 + lane.entries.count e + 0 = lane.entries.count e
  omega

/-! ### The end of a suite -/

section Returned

variable {suite : Suite} {run next : SuiteRun}

theorem Suite.finish_ok {rs : List RunRecord} {down : Except String Unit}
    (h : suite.finish rs down = .ok ()) :
    (∀ r ∈ rs, r.passed = true) ∧
    (suite.cleanup = true → suite.config.environment = false → down = .ok ()) := by
  rw [finish] at h
  split at h
  · rename_i hcounts
    obtain ⟨hfl, hnotRun⟩ := hcounts
    refine ⟨fun r hrec => ?_, fun hcleanup hmanaged => ?_⟩
    · have hp : r.phase ≠ .notRun := fun hp =>
        filter_eq_nil_iff.mp (eq_nil_of_length_eq_zero hnotRun) r hrec
          (decide_eq_true hp)
      have hnot := filter_eq_nil_iff.mp (eq_nil_of_length_eq_zero hfl) r hrec
      rw [decide_eq_true hp, Bool.true_and, Bool.not_eq_true, Bool.not_eq_false'] at hnot
      exact hnot
    · rw [hcleanup, hmanaged] at h
      exact h
  · cases h

/-- A suite that returned is done with its lanes, and without an error only if it finished so. -/
def SuiteRun.Closed (suite : Suite) (run : SuiteRun) : Prop :=
  ∀ result, run.stage = .returned result → run.lanes.all (·.stage = .done) = true ∧
    (result = .ok () → ∃ down, suite.finish run.records down = .ok () ∧
      run.down = if suite.cleanup && !suite.config.environment then some down else none)

theorem SuiteRun.Closed.step (h : run.Closed suite) {ev : Event}
    (hst : suite.step run ev = some next) : next.Closed suite := by
  have hexecute (before : SuiteRun) : (suite.execute before).Closed suite :=
    fun _ hsg => by cases hsg
  have hprepare (before : SuiteRun) (todo : List ℕ) :
      (suite.prepareNext before todo).Closed suite := by
    rw [Suite.prepareNext]
    split
    · exact hexecute before
    · exact fun _ hsg => by cases hsg
  cases Suite.step_change hst with
  | interrupted => exact h
  | started => exact hprepare _ _
  | prepared => exact hprepare _ _
  | failed => exact hexecute _
  | advanced hrun => exact fun _ hsg => by cases hrun.symm.trans hsg
  | finished down hsg hd hok =>
    intro r hres
    cases hres
    exact ⟨hd, fun hout => ⟨down, hok hout, rfl⟩⟩

theorem SuiteRun.After.closed (h : run.After suite) : run.Closed suite := by
  obtain ⟨stop, hreach⟩ := h
  exact hreach.induction (fun _ hsg => nomatch hsg) fun _ _ _ hs hst =>
    hs.step hst

end Returned

section Done

variable {suite : Suite} {run : SuiteRun}

theorem LaneRun.Kept.done {base : Except String Unit} {lane : LaneRun} (h : lane.Kept family base)
    (hd : lane.stage = .done) : (about lane.records).Perm lane.lane.entries := by
  obtain ⟨hrn, hpd, hlat⟩ := h.finished (.inr hd)
  refine perm_iff_count.mpr fun e => ?_
  have hes := h.entries e
  rw [hrn, hpd, hlat] at hes
  exact hes

theorem about_flatMap (lanes : List LaneRun) :
    about (lanes.flatMap (·.records)) = lanes.flatMap fun lane => about lane.records := by
  induction lanes with
  | nil => rfl
  | cons lane lanes ih => rw [flatMap_cons, about_append, ih, flatMap_cons]

theorem SuiteRun.After.records_perm (h : run.After suite) (hbg : run.stage.begun = true)
    (hd : run.lanes.all (·.stage = .done) = true) :
    (about run.records).Perm suite.entries ∧ run.finished = suite.entries.length := by
  obtain ⟨hlanes, hct⟩ := (Rule.counted suite).holds h hbg
  have hkpt := (Rule.kept suite).holds h hbg
  have hpm : (about run.records).Perm suite.entries := by
    rw [SuiteRun.records, about_flatMap]
    refine .trans ?_ (perm_laneOrder suite)
    rw [← hlanes, flatMap_map]
    refine List.Perm.flatMap_left _ fun lane hln => ?_
    exact (hkpt lane hln).done (of_decide_eq_true (all_eq_true.mp hd lane hln))
  refine ⟨hpm, hct.trans ?_⟩
  rw [← hpm.length_eq, SuiteRun.records, about_flatMap, length_flatMap]
  rfl

end Done

/-- **Every scenario has one record.** The lanes of a suite are its groups. While they are not all
done, something is waited for, and whatever happens leaves less to do; when they are, every
selected entry has one record, which is one of its name, and was counted once. If the suite then
returns without an error, every entry was run and passed, every ER that was booted was torn down,
and the stack was if that was asked for. -/
theorem one_record_each (suite : Suite) (hlabels : DistinctLabels suite.entries) :
    LanesByGroup suite.entries ∧ ∀ run, run.After suite →
      (run.stage = .executing → run.lanes.all (·.stage = .done) = false →
        ∃ index event next, suite.step run (.lane index event) = some next) ∧
      (∀ index event next, suite.step run (.lane index event) = some next →
        next.left < run.left) ∧
      (run.stage.begun = true → run.lanes.all (·.stage = .done) = true →
        (about run.records).Perm suite.entries ∧
        (∀ record ∈ run.records, ∀ entry, record.entry = some entry →
          record.name = entry.name suite.family) ∧
        run.finished = suite.entries.length) ∧
      (run.stage = .returned (.ok ()) →
        (about run.records).Perm suite.entries ∧
        (∀ record ∈ run.records, record.passed = true ∧
          ∀ entry, record.entry = some entry → record.ran = true) ∧
        (∀ lane ∈ run.lanes, lane.er = some (.ok ()) → lane.torn = some (.ok ())) ∧
        (suite.cleanup = true → suite.config.environment = false →
          run.down = some (.ok ()))) := by
  refine ⟨hlabels.lanesByGroup, fun run h => ⟨h.exists_step, fun _ _ _ => h.left_lt, ?_, ?_⟩⟩
  · intro hbegun hdone
    obtain ⟨hperm, hfinished⟩ := h.records_perm hbegun hdone
    refine ⟨hperm, fun record hrecord entry hentry => ?_, hfinished⟩
    obtain ⟨lane, hlane, hmem⟩ := mem_flatMap.mp hrecord
    exact (((Rule.kept suite).holds h hbegun lane hlane).good record hmem entry hentry).1
  · intro hreturned
    have hbegun : run.stage.begun = true := by
      rw [hreturned]
      rfl
    obtain ⟨hdone, hok⟩ := h.closed (.ok ()) hreturned
    obtain ⟨down, hfinish, hdown⟩ := hok rfl
    obtain ⟨hpassed, hcleanup⟩ := Suite.finish_ok hfinish
    have hkept := (Rule.kept suite).holds h hbegun
    refine ⟨(h.records_perm hbegun hdone).1, fun record hrecord => ?_, fun lane hlane her => ?_,
      fun hasked hmanaged => ?_⟩
    · refine ⟨hpassed record hrecord, fun entry hentry => ?_⟩
      obtain ⟨lane, hlane, hmem⟩ := mem_flatMap.mp hrecord
      exact ((hkept lane hlane).good record hmem entry hentry).2.1 (hpassed record hrecord)
    · have hstage : lane.stage = .done :=
        of_decide_eq_true (all_eq_true.mp hdone lane hlane)
      cases htorn : lane.torn with
      | none => exact absurd htorn ((hkept lane hlane).torn hstage her)
      | some result =>
        cases result with
        | ok => rfl
        | error error =>
          obtain ⟨record, hmem, hfailed⟩ := (hkept lane hlane).failed error htorn
          have := hpassed record (mem_flatMap.mpr ⟨lane, hlane, hmem⟩)
          cases hfailed.symm.trans this
    · rw [hdown, hasked, hmanaged, hcleanup hasked hmanaged]
      rfl

def sampleEntries : List ScenarioEntry :=
  let group : ErGroup := ⟨1, "default"⟩
  [⟨"late", .shared group, 1, none, false⟩, ⟨"alone", .exclusive group, 0, none, false⟩,
    ⟨"own", .fresh, 0, none, true⟩, ⟨"early", .shared group, 0, none, false⟩]

def sampleSuite : Suite :=
  ⟨.redshift, sampleEntries, ⟨false, false⟩, false, ⟨2, by decide⟩, ⟨4, by decide⟩, true⟩

def passing : Attempt := ⟨.ok (), .ok (), .verdict none (.ok ()), .ok ()⟩

def sampleRun : SuiteRun :=
  Machine.goOn sampleSuite.step (Suite.start false)
    [.started (.ok ()), .lane 0 (.booted (.ok ())), .lane 0 (.completed 1 passing),
      .lane 1 (.completed 0 passing), .lane 0 (.completed 0 passing), .lane 0 (.completed 0 passing),
      .lane 0 (.tornDown (.ok ())), .finish (.ok ()) (.ok ())]

theorem one_record_each_sample :
    (lanes sampleEntries).map (fun lane => (lane.label, lane.entries.map (·.shortName)))
      = [("default", ["alone", "early", "late"]), ("fresh", ["own"])] ∧
    sampleRun.records.map (·.name) = ["redshift/late", "redshift/early", "redshift/alone",
      "redshift/own"] ∧
    (about sampleRun.records).Perm sampleEntries ∧ sampleRun.finished = 4 ∧
    sampleRun.down = some (.ok ()) := by
  have hgroup : ∀ entry ∈ sampleEntries, ∀ group, entry.er.group = some group →
      group = ⟨1, "default"⟩ := by
    have hone : ∀ entry ∈ sampleEntries,
        entry.er.group = none ∨ entry.er.group = some ⟨1, "default"⟩ := by decide
    intro entry hentry group hgroup
    rcases hone entry hentry with hnone | hsome
    · cases hnone.symm.trans hgroup
    · exact Option.some.inj (hgroup.symm.trans hsome)
  have hlabels : DistinctLabels sampleEntries := by
    refine ⟨fun left hleft right hright group other hfirst hsecond _ => ?_,
      fun entry hentry group hsome => ?_⟩
    · rw [hgroup left hleft group hfirst, hgroup right hright other hsecond]
    · rw [hgroup entry hentry group hsome]
      decide
  obtain ⟨-, hruns⟩ := one_record_each sampleSuite hlabels
  obtain ⟨-, -, hdone, hok⟩ := hruns sampleRun ⟨false, Machine.reachable_goOn _ _⟩
  obtain ⟨hperm, -, hfinished⟩ := hdone rfl rfl
  obtain ⟨-, -, -, hdown⟩ := hok rfl
  exact ⟨rfl, rfl, hperm, hfinished, hdown rfl rfl⟩

end Redsuite.Cli
