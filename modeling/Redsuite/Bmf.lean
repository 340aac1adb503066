import Redsuite.HttpHead
import Redsuite.Stats
import Redsuite.Table

/-!
# The exported measurements of a campaign

A model of `core/src/report/bmf.rs`.
-/

namespace Redsuite.Report

open List
open Http (isWhitespace trim)

/-- `Unit`, where the export tells units apart. -/
inductive Unit : Type where
  | micros
  | tps
  | rps
  | other
  deriving DecidableEq

/-- `MeasureValue`: one number, or the statistics of many. -/
inductive MeasureValue : Type where
  | scalar (value : ℚ)
  | distribution (stats : ObservationsStats)
  deriving DecidableEq

/-- `Measurement`: a labelled value with its unit. -/
structure Measurement where
  label : String
  unit : Unit
  value : MeasureValue
  deriving DecidableEq

/-- `PersistedFailure`: a failure of a run, with the phase it happened in. -/
structure PersistedFailure where
  phase : String
  message : String
  deriving DecidableEq

/-- `ScenarioRun`: a stored run, of a scenario or of one of its cells. -/
structure ScenarioRun where
  scenario : String
  passed : Bool
  config : List (String × String)
  measurements : List Measurement
  failures : List PersistedFailure
  deriving DecidableEq

/-- `StoredScenario`: what a campaign stores of one scenario. -/
structure StoredScenario where
  /-- the scenario's own run -/
  run : Option ScenarioRun
  /-- one run for each cell of its matrix -/
  cells : List ScenarioRun

/-- The scenarios of a `Campaign`, in the order of their names. -/
abbrev Campaign : Type := List StoredScenario

/-- `run_gate`: why the run is left out. -/
def runGate (run : ScenarioRun) : Option String :=
  if run.config.any fun setting => setting.1 = "completion" && setting.2 = "interrupted" then
    some "load interrupted"
  else if run.passed then
    run.failures.head?.map fun failure =>
      "run has a " ++ failure.phase ++ " failure: " ++ failure.message
  else
    match run.failures.head? with
    | some failure => some ("run failed (" ++ failure.phase ++ ": " ++ failure.message ++ ")")
    | none => some "run failed"

/-- `trim_end_matches(" us")`, on the reversed text. -/
def dropMicros : List Char → List Char
  | 's' :: 'u' :: ' ' :: rest => dropMicros rest
  | rest => rest

/-- `slug`: the label as a part of a name. -/
def slug (label : List Char) : List Char :=
  (((trim (dropMicros label.reverse).reverse).map Char.toLower).map fun c =>
    if c = ' ' then '-' else c).filter fun c => c.isAlphanum || c = '-' || c = '_'

/-- `split("; ")`. -/
def splitOrigins : List Char → List (List Char)
  | [] => [[]]
  | ';' :: ' ' :: rest => [] :: splitOrigins rest
  | c :: rest =>
    match splitOrigins rest with
    | [] => [[c]]
    | first :: others => (c :: first) :: others

/-- `origin_suffix`: from where the run takes its latencies, as the end of a name. -/
def originSuffix (run : ScenarioRun) : String :=
  match run.config.find? fun setting => setting.1 = "latency origin" with
  | none => ""
  | some (_, origins) =>
    let tags := (splitOrigins origins.toList).map fun origin =>
      if origin = "client, immediately before sendTransaction".toList then "send".toList
      else if origin = "client, immediately before the request".toList then "request".toList
      else origin
    "@" ++ String.ofList (slug (['+'].intercalate tags))

/-- `withheld`: why the latencies of a run are not exported. -/
def withheld (run : ScenarioRun) : Option String :=
  (run.config.find? fun setting =>
    setting.1 ∈ ["client saturated", "offered rate not sustained"]).map fun setting =>
      setting.1 ++ ": " ++ setting.2

/-- `MeasureVal`: a measure of the document, with its bounds. -/
structure MeasureVal where
  value : ℚ
  lowerValue : Option ℚ
  upperValue : Option ℚ
  deriving DecidableEq

/-- `Document`: measures by benchmark and kind. -/
abbrev Document : Type := Table String (Table String MeasureVal)

/-- `client_latency` in `export_run`: a time that none of the validator's words is found in. -/
def clientLatency (measurement : Measurement) : Bool :=
  let label := measurement.label.toList
  measurement.unit = .micros && !decide ("validator".toList <:+: label) &&
    !decide ("scheduling delay".toList <:+: label) &&
    String.ofList ((label.dropWhile isWhitespace).takeWhile fun c => !isWhitespace c) ∉
      ["boundary", "normal", "finalize", "snapshot", "checksum"]

/-- The turn of the loop of `export_run` for one measurement: what it puts where. -/
def exported (run : ScenarioRun) (measurement : Measurement) :
    Option (String × String × MeasureVal) :=
  let client := clientLatency measurement
  let benchmark := run.scenario ++ "/" ++ String.ofList (slug measurement.label.toList) ++
    if client then originSuffix run else ""
  match measurement.unit, measurement.value with
  | .micros, value =>
    if client && (withheld run).isSome then none
    else
      match value with
      | .distribution stats => some (benchmark, "latency",
          ⟨stats.median * 1000, some (stats.min * 1000), some (stats.max * 1000)⟩)
      | .scalar value => some (benchmark, "latency", ⟨value * 1000, none, none⟩)
  | .tps, .scalar value | .rps, .scalar value =>
    some (benchmark, "throughput", ⟨value, none, none⟩)
  | _, _ => none

/-- `export_run`. -/
def exportRun (doc : Document) (run : ScenarioRun) : Document :=
  run.measurements.foldl (fun doc measurement =>
    match exported run measurement with
    | none => doc
    | some (benchmark, measure, value) =>
      doc.insert benchmark (((doc.lookup benchmark).getD ∅).insert measure value)) doc

/-- `bmf_document`: the gate looks at a scenario's own run, not at its cells. -/
def bmfDocument (campaign : Campaign) : Document :=
  campaign.foldl (fun doc scenario =>
    match scenario.run with
    | none => doc
    | some run =>
      match runGate run with
      | some _ => doc
      | none => scenario.cells.foldl exportRun (exportRun doc run)) ∅

/-! ### What the document is made of -/

/-- The run is one whose measurements count. -/
structure ScenarioRun.Sound (run : ScenarioRun) : Prop where
  passed : run.passed = true
  failures : run.failures = []
  complete : ("completion", "interrupted") ∉ run.config

variable {run : ScenarioRun}

theorem runGate_eq_none : runGate run = none ↔ run.Sound := by
  have hcomplete : (run.config.any fun setting =>
      setting.1 = "completion" && setting.2 = "interrupted") = true ↔
        ("completion", "interrupted") ∈ run.config := by
    rw [any_eq_true]
    constructor
    · rintro ⟨⟨key, v⟩, hm, htest⟩
      obtain ⟨rfl, rfl⟩ := by simpa using htest
      exact hm
    · exact fun hm => ⟨_, hm, rfl⟩
  unfold runGate
  split
  · rename_i hyes
    exact ⟨(fun h => by cases h), fun h => absurd (hcomplete.mp hyes) h.complete⟩
  · rename_i hno
    cases hps : run.passed <;> cases hfailures : run.failures
    case true.nil => exact ⟨fun _ => ⟨hps, hfailures, mt hcomplete.mpr hno⟩, fun _ => rfl⟩
    case true.cons =>
      exact ⟨(fun h => by cases h), fun h => by cases hfailures.symm.trans h.failures⟩
    all_goals exact ⟨(fun h => by cases h), fun h => by cases hps.symm.trans h.passed⟩

/-- The runs that `bmf_document` exports, in order. -/
def Campaign.exportedRuns (campaign : Campaign) : List ScenarioRun :=
  campaign.flatMap fun scenario =>
    (scenario.run.filter fun run => (runGate run).isNone).toList.flatMap fun run =>
      run :: scenario.cells

theorem bmfDocument_eq (campaign : Campaign) :
    bmfDocument campaign = campaign.exportedRuns.foldl exportRun ∅ := by
  rw [bmfDocument, Campaign.exportedRuns, foldl_flatMap]
  congr
  funext doc scenario
  rcases scenario.run with _ | run
  · rfl
  · cases hgate : runGate run <;> simp [Option.filter, hgate]

/-- What `export_run` writes for a run, in order. -/
def exports (run : ScenarioRun) : List (String × String × MeasureVal) :=
  run.measurements.filterMap (exported run)

/-- One write: a value already there is replaced. -/
def Document.put (doc : Document) (e : String × String × MeasureVal) : Document :=
  doc.insert e.1 (((doc.lookup e.1).getD ∅).insert e.2.1 e.2.2)

/-- The value under a benchmark and a kind. -/
def Document.value (doc : Document) (name measure : String) : Option MeasureVal :=
  (doc.lookup name).bind (·.lookup measure)

theorem value_put (doc : Document) (e : String × String × MeasureVal) (name measure : String) :
    (doc.put e).value name measure =
      if e.1 = name ∧ e.2.1 = measure then some e.2.2 else doc.value name measure := by
  by_cases hnm : e.1 = name
  · subst hnm
    rw [Document.value, Document.put, AList.lookup_insert, Option.bind_some, Document.value,
      Table.lookup_insert_iff]
    cases doc.lookup e.1 <;> simp [eq_comm]
  · simp [Document.value, Document.put, hnm, Ne.symm hnm]

/-- The last value written under a name stays. -/
theorem value_writes {α : Type} (entry : α → String × String × MeasureVal) (writes : List α)
    (doc : Document) (name measure : String) :
    (writes.foldl (fun doc write => doc.put (entry write)) doc).value name measure =
      ((writes.filter fun write =>
        (entry write).1 = name ∧ (entry write).2.1 = measure).getLast?.map
          fun write => (entry write).2.2).or (doc.value name measure) := by
  -- from the back: the last write decides, or has another name
  induction writes using reverseRecOn with
  | nil => rfl
  | append_singleton writes write ih =>
    rw [foldl_concat, value_put, filter_append]
    by_cases hnm : (entry write).1 = name ∧ (entry write).2.1 = measure
    · simp [hnm]
    · rw [if_neg hnm, ih, filter_singleton]
      simp [hnm]

theorem exportRun_eq (doc : Document) (run : ScenarioRun) :
    exportRun doc run = (exports run).foldl Document.put doc := by
  rw [exportRun, exports, foldl_filterMap]
  congr
  funext doc measurement
  cases exported run measurement <;> rfl

/-- All writes of an export, each with the run it is made for. -/
def Campaign.writes (campaign : Campaign) : List (ScenarioRun × String × String × MeasureVal) :=
  campaign.exportedRuns.flatMap fun run => (exports run).map (run, ·)

/-- The write that a measurement of the document comes from: the last one under its name. -/
def Campaign.source (campaign : Campaign) (name measure : String) :
    Option (ScenarioRun × String × String × MeasureVal) :=
  (campaign.writes.filter fun write => write.2.1 = name ∧ write.2.2.1 = measure).getLast?

theorem value_bmfDocument (campaign : Campaign) (name measure : String) :
    (bmfDocument campaign).value name measure =
      (campaign.source name measure).map fun write => write.2.2.2 := by
  have hwrites : bmfDocument campaign =
      campaign.writes.foldl (fun doc write => doc.put write.2) ∅ := by
    simp only [bmfDocument_eq, Campaign.writes, foldl_flatMap, foldl_map, ← exportRun_eq]
  rw [hwrites, value_writes Prod.snd]
  exact Option.or_none

theorem source_exported {campaign : Campaign} {name measure : String}
    {write : ScenarioRun × String × String × MeasureVal}
    (h : campaign.source name measure = some write) : write.1 ∈ campaign.exportedRuns := by
  obtain ⟨run, hrun, hwrite⟩ := mem_flatMap.mp (mem_of_mem_filter (mem_of_getLast? h))
  obtain ⟨e, -, rfl⟩ := mem_map.mp hwrite
  exact hrun

/-- **The measurements of a document come from sound runs alone exactly when those of them that
come from a cell, the scenario's own run being sound, come from a sound cell.** A measurement
comes from the last write under its benchmark and kind. -/
theorem document_of_sound_runs (campaign : Campaign) :
    (∀ name measure, (bmfDocument campaign).value name measure =
      (campaign.source name measure).map fun write => write.2.2.2) ∧
    ((∀ name measure write, campaign.source name measure = some write → write.1.Sound) ↔
      ∀ scenario ∈ campaign, ∀ run, scenario.run = some run → run.Sound →
        ∀ cell ∈ scenario.cells,
          (∃ name measure e, campaign.source name measure = some (cell, e)) → cell.Sound) := by
  refine ⟨value_bmfDocument campaign, ?_, fun h name measure write hsource => ?_⟩
  · rintro h - - - - - cell - ⟨name, measure, e, hsource⟩
    exact h name measure (cell, e) hsource
  · obtain ⟨scenario, hscenario, hrun⟩ := mem_flatMap.mp (source_exported hsource)
    obtain ⟨parent, hparent, hrun⟩ := mem_flatMap.mp hrun
    obtain ⟨hsome, hgate⟩ := Option.filter_eq_some_iff.mp (Option.mem_toList.mp hparent)
    have hsound : parent.Sound := runGate_eq_none.mp (Option.isNone_iff_eq_none.mp hgate)
    rcases mem_cons.mp hrun with heq | hcell
    · rw [heq]
      exact hsound
    · exact h scenario hscenario parent hsome hsound _ hcell ⟨name, measure, write.2, hsource⟩

/-- A run with one throughput. -/
def sampleRun (scenario : String) (passed : Bool) : ScenarioRun :=
  ⟨scenario, passed, [], [⟨"tps", .tps, .scalar 100⟩], []⟩

/-- **A failed cell is exported.** Its throughput is all the document has; nothing of the campaign
that is sound has measured it. -/
theorem failed_cell_exported :
    let parent := { sampleRun "load" true with measurements := [] }
    let campaign : Campaign := [⟨some parent, [sampleRun "load/c8" false]⟩]
    parent.Sound ∧ runGate (sampleRun "load/c8" false) = some "run failed" ∧
      (bmfDocument campaign).value "load/c8/tps" "throughput" = some ⟨100, none, none⟩ ∧
      (campaign.source "load/c8/tps" "throughput").map Prod.fst =
        some (sampleRun "load/c8" false) := by
  refine ⟨⟨rfl, rfl, by decide⟩, by decide, by decide +kernel, by decide +kernel⟩

/-! ### Latencies of the client and of the validator

Which latencies the validator has measured is read off their labels: `validator` anywhere, the
other words in the first place. The labels `accountsdb snapshot mean us` and `accountsdb checksum
mean us` of the mixed load have theirs in the second. -/

/-- The word stands in the label between blanks. -/
def HasWord (word label : List Char) : Prop :=
  ∃ before after, label = before ++ word ++ after ∧ (∀ c ∈ before.getLast?, isWhitespace c) ∧
    ∀ c ∈ after.head?, isWhitespace c

/-- The words that are looked for in the first place. -/
def stages : List String := ["boundary", "normal", "finalize", "snapshot", "checksum"]

/-- The label names a time of the validator. -/
def ValidatorSide (label : List Char) : Prop :=
  (∃ word ∈ "validator" :: stages, HasWord word.toList label) ∨
    "scheduling delay".toList <:+: label

/-- `split_whitespace().next()`, nothing being the empty word. -/
def firstWord (label : List Char) : List Char :=
  (label.dropWhile isWhitespace).takeWhile fun c => !isWhitespace c

/-- The words of a label are where `export_run` looks for them. -/
structure Plain (label : List Char) : Prop where
  /-- `validator` is a part of another word only where one of the words is there -/
  validator : "validator".toList <:+: label →
    ∃ word ∈ "validator" :: stages, HasWord word.toList label
  /-- a stage is the first word, unless `validator` decides -/
  first : ∀ stage ∈ stages, HasWord stage.toList label →
    "validator".toList <:+: label ∨ String.ofList (firstWord label) ∈ stages

theorem hasWord_firstWord (label : List Char) : HasWord (firstWord label) label := by
  refine ⟨label.takeWhile isWhitespace,
    (label.dropWhile isWhitespace).dropWhile fun c => !isWhitespace c, ?_, ?_, ?_⟩
  · rw [firstWord, append_assoc, takeWhile_append_dropWhile, takeWhile_append_dropWhile]
  · intro c hc
    exact all_eq_true.mp all_takeWhile c (mem_of_getLast? hc)
  · intro c hc
    have h := head?_dropWhile_not (fun c => !isWhitespace c) (label.dropWhile isWhitespace)
    rw [Option.mem_def.mp hc] at h
    simpa using h

variable {m : Measurement}

theorem clientLatency_eq_true (hunit : m.unit = .micros) : clientLatency m = true ↔
    ¬"validator".toList <:+: m.label.toList ∧ ¬"scheduling delay".toList <:+: m.label.toList ∧
    String.ofList (firstWord m.label.toList) ∉ stages := by
  simp only [clientLatency, hunit, decide_true, Bool.true_and, Bool.and_eq_true,
    Bool.not_eq_true', decide_eq_false_iff_not, decide_eq_true_eq, and_assoc]
  rfl

/-- The times of the client are told from the others exactly where the label is plain, or speaks
of a scheduling delay. -/
theorem clientLatency_iff (hunit : m.unit = .micros) :
    (clientLatency m = true ↔ ¬ValidatorSide m.label.toList) ↔
      "scheduling delay".toList <:+: m.label.toList ∨ Plain m.label.toList := by
  have hvalidator : HasWord "validator".toList m.label.toList →
      "validator".toList <:+: m.label.toList := by
    rintro ⟨before, after, heq, -⟩
    exact ⟨before, after, heq.symm⟩
  have hfst : String.ofList (firstWord m.label.toList) ∈ stages →
      ∃ stage ∈ stages, HasWord stage.toList m.label.toList := fun hm =>
    ⟨_, hm, by simpa using hasWord_firstWord m.label.toList⟩
  -- the code looks for less and for more than the words; two inclusions hold anyway
  have hwords : (∃ word ∈ "validator" :: stages, HasWord word.toList m.label.toList) ↔
      HasWord "validator".toList m.label.toList ∨
        ∃ stage ∈ stages, HasWord stage.toList m.label.toList := by
    simp only [mem_cons, exists_eq_or_imp]
  rw [clientLatency_eq_true hunit, ValidatorSide, hwords]
  constructor
  · intro h
    by_cases hdelay : "scheduling delay".toList <:+: m.label.toList
    · exact .inl hdelay
    · refine .inr ⟨fun hv => ?_, fun stage hstage hword => ?_⟩
      · rw [hwords]
        by_contra hno
        exact (h.mpr fun hside => hside.elim hno hdelay).1 hv
      · by_contra hno
        obtain ⟨hv, hf⟩ := not_or.mp hno
        exact h.mp ⟨hv, hdelay, hf⟩ (.inl (.inr ⟨stage, hstage, hword⟩))
  · rintro (hdelay | ⟨hpart, hplain⟩)
    · exact ⟨fun h => absurd hdelay h.2.1, fun h => absurd (.inr hdelay) h⟩
    · constructor
      · rintro ⟨hv, hdelay, hf⟩ ((hword | ⟨stage, hm, hword⟩) | hside)
        · exact hv (hvalidator hword)
        · exact (hplain stage hm hword).elim hv hf
        · exact hdelay hside
      · intro h
        exact ⟨fun hv => h (.inl (hwords.mp (hpart hv))), fun hdelay => h (.inr hdelay),
          fun hf => h (.inl (.inr (hfst hf)))⟩

/-- A time in microseconds as a measure in nanoseconds. -/
def latency : MeasureValue → MeasureVal
  | .scalar value => ⟨value * 1000, none, none⟩
  | .distribution stats => ⟨stats.median * 1000, some (stats.min * 1000), some (stats.max * 1000)⟩

/-- The name of a measurement, without an origin. -/
def benchmark (run : ScenarioRun) (measurement : Measurement) : String :=
  run.scenario ++ "/" ++ String.ofList (slug measurement.label.toList)

theorem exported_micros
    (hunit : m.unit = .micros) : exported run m =
      if clientLatency m && (withheld run).isSome then none
      else some (benchmark run m ++
        (if clientLatency m then originSuffix run else ""), "latency",
          latency m.value) := by
  simp only [exported, hunit]
  split
  · rfl
  · cases m.value <;> rfl

/-- The run carries a load flag. -/
def Flagged (run : ScenarioRun) : Prop :=
  ∃ setting ∈ run.config, setting.1 ∈ ["client saturated", "offered rate not sustained"]

theorem withheld_isSome (run : ScenarioRun) : (withheld run).isSome = true ↔ Flagged run := by
  rw [withheld, Option.isSome_map, find?_isSome]
  simp only [Flagged, decide_eq_true_eq]

/-- A time is exported as its label calls for: the validator's under the plain name, the client's
withheld if the run is flagged and with the origin otherwise. -/
structure AsLabelled (run : ScenarioRun) (m : Measurement) : Prop where
  validator : ValidatorSide m.label.toList →
    exported run m = some (benchmark run m, "latency", latency m.value)
  flagged : ¬ValidatorSide m.label.toList → Flagged run → exported run m = none
  client : ¬ValidatorSide m.label.toList → ¬Flagged run →
    exported run m = some (benchmark run m ++ originSuffix run, "latency", latency m.value)

theorem exported_unflagged (hunit : m.unit = .micros)
    (hflag : ¬Flagged run) : exported run m = some (benchmark run m ++
      (if clientLatency m then originSuffix run else ""), "latency", latency m.value) := by
  have hfree : (withheld run).isSome = false :=
    Bool.eq_false_iff.mpr fun htrue => hflag ((withheld_isSome run).mp htrue)
  simp [exported_micros hunit, hfree]

theorem exported_flagged (hunit : m.unit = .micros) (hflag : Flagged run) : exported run m = if
    clientLatency m then none else some (benchmark run m, "latency", latency m.value) := by
  rw [exported_micros hunit, (withheld_isSome run).mpr hflag]
  cases clientLatency m <;> simp

/-- **A time is exported as its label calls for exactly when the label is plain or speaks of a
scheduling delay, or the run has neither a load flag nor an origin to show. The document then
has, under each name, the value of the last measurement of the run that was exported under it.** -/
theorem latencies_exported (run : ScenarioRun) (measurement : Measurement)
    (hunit : measurement.unit = .micros) :
    (AsLabelled run measurement ↔
      ("scheduling delay".toList <:+: measurement.label.toList ∨ Plain measurement.label.toList) ∨
        ¬Flagged run ∧ originSuffix run = "") ∧
    ∀ doc name measure, (exportRun doc run).value name measure =
      (((exports run).filter fun e =>
        e.1 = name ∧ e.2.1 = measure).getLast?.map fun e => e.2.2).or (doc.value name measure) := by
  refine ⟨?_, fun doc name measure => ?_⟩
  · rw [← clientLatency_iff hunit]
    by_cases hflag : Flagged run
    · have hexported := exported_flagged hunit hflag
      constructor
      · rintro ⟨hvalidator, hwithheld, -⟩
        rw [hexported] at hvalidator hwithheld
        by_cases hside : ValidatorSide measurement.label.toList
        · exact .inl (by simpa [hside] using hvalidator)
        · exact .inl (by simpa [hside, hflag] using hwithheld)
      · rintro (hclient | ⟨hno, -⟩)
        · refine ⟨?_, ?_, fun _ hno => absurd hflag hno⟩ <;>
          · intro hside
            simp [hexported, hclient, hside]
        · exact absurd hflag hno
    · have hexported := exported_unflagged hunit hflag
      constructor
      · rintro ⟨hvalidator, -, hclient⟩
        rw [hexported] at hvalidator hclient
        by_cases hside : ValidatorSide measurement.label.toList
        · cases hcli : clientLatency measurement
          · exact .inl (by simp [hside])
          · exact .inr ⟨hflag, by simpa [hcli] using hvalidator hside⟩
        · cases hcli : clientLatency measurement
          · exact .inr ⟨hflag, by simpa [hcli] using (hclient hside hflag).symm⟩
          · exact .inl (by simp [hside])
      · rintro (hcli | ⟨-, hempty⟩)
        · refine ⟨?_, fun _ hyes => absurd hyes hflag, ?_⟩ <;>
          · intro hside
            simp [hexported, hcli, hside]
        · refine ⟨?_, fun _ hyes => absurd hyes hflag, ?_⟩ <;>
          · intro
            simp [hexported, hempty]
  · rw [exportRun_eq]
    exact value_writes id _ doc name measure

/-- A flagged run with one time. -/
def saturatedRun (label : String) : ScenarioRun :=
  ⟨"mixed", true, [("client saturated", "cpu")], [⟨label, .micros, .scalar 7⟩], []⟩

theorem latencies_exported_first : exported (saturatedRun "validator snapshot us")
    ⟨"validator snapshot us", .micros, .scalar 7⟩ =
      some ("mixed/validator-snapshot", "latency", ⟨7000, none, none⟩) := by
  have hword : HasWord "validator".toList "validator snapshot us".toList :=
    ⟨[], " snapshot us".toList, by decide +kernel, by rintro _ ⟨⟩, by rintro _ ⟨⟩; decide⟩
  have hplain : Plain "validator snapshot us".toList :=
    ⟨fun _ => ⟨_, mem_cons_self, hword⟩, fun _ _ _ => .inl (by decide +kernel)⟩
  have hexported := ((latencies_exported (saturatedRun "validator snapshot us")
    ⟨"validator snapshot us", .micros, .scalar 7⟩ rfl).1.mpr (.inl (.inr hplain))).validator
      (.inl ⟨_, mem_cons_self, hword⟩)
  rw [hexported]
  decide +kernel

/-- **The time of a snapshot is taken for one of the client**: the mixed load names the database
first. -/
theorem accountsdb_snapshot_withheld :
    ValidatorSide "accountsdb snapshot mean us".toList ∧
      exported (saturatedRun "accountsdb snapshot mean us")
        ⟨"accountsdb snapshot mean us", .micros, .scalar 7⟩ = none := by
  refine ⟨.inl ⟨"snapshot", by decide, "accountsdb ".toList, " mean us".toList, ?_⟩, ?_⟩
  · refine ⟨by decide +kernel, ?_, ?_⟩ <;>
    · rintro _ ⟨⟩
      decide
  · decide +kernel

end Redsuite.Report
