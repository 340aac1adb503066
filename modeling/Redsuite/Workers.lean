import Redsuite.Admission
import Mathlib.Data.List.Sigma
import Mathlib.Data.List.TakeWhile

/-!
# Workers

A model of `core/src/runner/workers.rs`.
-/

namespace Redsuite.Runner

open List

/-! ### Budgets -/

/-- Spans of ids that follow one another: the id before the first, and how many there are. -/
def spans (firstId : ℕ) : List ℕ → List (ℕ × ℕ)
  | [] => []
  | count :: counts => (firstId, count) :: spans (firstId + count) counts

def splitIterations (iterations workers : ℕ) : List (ℕ × ℕ) :=
  spans 0 ((splitBudget iterations workers).takeWhile (0 < ·))

/-- `WorkerBudgets`. -/
structure WorkerBudgets where
  iterations : List (ℕ × ℕ)
  rate : List Pacing
  concurrency : List ℕ

namespace WorkerBudgets

def workersFor (threads : ℕ) (rate : Pacing) (concurrency : ℕ) : ℕ :=
  let workers := min (max threads 1) concurrency
  match rate with
  | .perSecond rate => min workers rate
  | .unlimited => workers

def partition (threads iterations : ℕ) (rate : Pacing) (concurrency : ℕ) :
    Except String WorkerBudgets := do
  let _ ← rate.interval
  if concurrency = 0 then
    .error "an admission budget needs a concurrency above zero"
  else
    let iterations := splitIterations iterations (workersFor threads rate concurrency)
    let workers := iterations.length
    let rate ← rate.partition workers
    .ok ⟨iterations, rate, splitBudget concurrency workers⟩

def workers (self : WorkerBudgets) : ℕ := self.iterations.length

end WorkerBudgets

/-! ### Threads -/

/-- What `execute_threaded` is called with. -/
structure ThreadRunConfig where
  /-- the deadline of the `until` bound, if there is one -/
  untilDeadline : Option ℕ
  threads : ℕ
  iterations : ℕ
  rate : Pacing
  concurrency : ℕ
  /-- `D::ORIGIN` -/
  origin : String

/-- The share of a worker. -/
structure Share where
  firstId : ℕ
  iterations : ℕ
  rate : Pacing
  concurrency : ℕ

def WorkerBudgets.share (self : WorkerBudgets) (index : ℕ) : Share :=
  let (firstId, iterations) := self.iterations.getD index (0, 0)
  ⟨firstId, iterations, self.rate.getD index .unlimited, self.concurrency.getD index 0⟩

/-- What a worker calls `execute_raw` with. -/
def Share.workload (self : Share) (config : ThreadRunConfig) : Workload :=
  ⟨.iterations self.iterations config.untilDeadline, self.rate, self.concurrency, false, config.origin⟩

/-- A worker thread. -/
structure Thread where
  share : Share
  driver : Driver
  panic : Option String

/-- What happens to a thread. -/
inductive ThreadEvent : Type where
  | drive (event : Event)
  | panic (message : String)

namespace Thread

def result (self : Thread) : Option (Except String RawRunOutcome) :=
  match self.panic with
  | some error => some (.error error)
  | none =>
    match self.driver.point with
    | .returned result => some result
    | _ => none

def ids (self : Thread) : List ℕ := (called self.driver.log).map (self.share.firstId + ·)

/-- A step of a thread. A worker that is alone is a task of the same thread, whose panic is
reported in other words. -/
def step (config : ThreadRunConfig) (alone : Bool) (self : Thread) (event : ThreadEvent) :
    Option Thread :=
  match self.result, event with
  | some _, _ => none
  | none, .panic message =>
    let error :=
      if alone then "driver worker failed" else s!"driver worker panicked: {message}"
    some { self with panic := some error }
  | none, .drive event =>
    match self.driver.step (self.share.workload config) event with
    | some driver => some { self with driver }
    | none => none

end Thread

def spawnWorkers (config : ThreadRunConfig) (budgets : WorkerBudgets) (entropy : ℕ → ℕ → Rng)
    (now : ℕ) : List Thread :=
  (List.range budgets.workers).map fun index =>
    let share := budgets.share index
    ⟨share, .start (share.workload config) (entropy index) now, none⟩

def stepWorkers (config : ThreadRunConfig) (threads : List Thread) (event : ℕ × ThreadEvent) :
    Option (List Thread) :=
  match threads[event.1]? with
  | some thread =>
    match thread.step config (threads.length == 1) event.2 with
    | some next => some (threads.set event.1 next)
    | none => none
  | none => none

/-! ### Results -/

def results : List Thread → Option (List (Except String RawRunOutcome))
  | [] => some []
  | thread :: threads =>
    match thread.result, results threads with
    | some result, some results => some (result :: results)
    | _, _ => none

/-- `collect` of results: the values, or the first error. -/
def collect {α : Type} : List (Except String α) → Except String (List α)
  | [] => .ok []
  | .error error :: _ => .error error
  | .ok value :: results =>
    match collect results with
    | .ok values => .ok (value :: values)
    | .error error => .error error

def mergeOutcomes : List RawRunOutcome → RunOutcome ObservationsStats
  | [] => ⟨0, 0, none, .default, .default, "", none, .unlimited, .default, 0, 0⟩
  | outcome :: outcomes => (outcomes.foldl RunOutcome.merge outcome).finalize

/-- What `execute_threaded` returns when all threads are done. -/
def joined (threads : List Thread) : Option (Except String (RunOutcome ObservationsStats)) :=
  match results threads with
  | none => none
  | some results =>
    match collect results with
    | .ok outcomes => some (.ok (mergeOutcomes outcomes))
    | .error error => some (.error error)

/-- All ids that were requested. -/
def requested (threads : List Thread) : List ℕ := threads.flatMap Thread.ids

/-! ### Payers -/

/-- `step_by`, with so many still to be passed over. -/
def stepBy {α : Type} (step : ℕ) : ℕ → List α → List α
  | _, [] => []
  | 0, value :: values => value :: stepBy step (step - 1) values
  | skip + 1, _ :: values => stepBy step skip values

/-- `worker_senders`, by the payers it gives to a worker. -/
def workerSenders {α : Type} (payers : List α) (worker threads : ℕ) : List α :=
  stepBy threads 0 (payers.drop worker)

variable {α : Type} {config : ThreadRunConfig} {threads : List Thread}

theorem mem_stepBy {step skip : ℕ} {values : List α} {v : α} (hst : 0 < step)
    (h : v ∈ stepBy step skip values) :
    ∃ i, values[i]? = some v ∧ i % step = skip % step := by
  induction values generalizing skip with
  | nil => cases h
  | cons first values ih =>
    match skip with
    | 0 =>
      rcases mem_cons.mp h with rfl | hr
      · exact ⟨0, rfl, rfl⟩
      · obtain ⟨i, hi, hmod⟩ := ih hr
        refine ⟨i + 1, hi, ?_⟩
        rw [Nat.add_mod, hmod, ← Nat.add_mod, Nat.sub_add_cancel hst, Nat.mod_self, Nat.zero_mod]
    | skip + 1 =>
      obtain ⟨i, hi, hmod⟩ := ih h
      exact ⟨i + 1, hi, by rw [Nat.add_mod, hmod, ← Nat.add_mod]⟩

theorem mem_workerSenders {payers : List α} {w threads : ℕ} {payer : α}
    (hwk : w < threads) (h : payer ∈ workerSenders payers w threads) :
    ∃ i, payers[i]? = some payer ∧ i % threads = w := by
  obtain ⟨i, hi, hmod⟩ := mem_stepBy (Nat.zero_lt_of_lt hwk) h
  rw [getElem?_drop] at hi
  refine ⟨w + i, hi, ?_⟩
  rw [Nat.add_mod, hmod, Nat.zero_mod, Nat.add_zero, Nat.mod_mod, Nat.mod_eq_of_lt hwk]

theorem workerSenders_disjoint {payers : List α} (hpayers : payers.Nodup) {w other threads : ℕ}
    (hwk : w < threads) (ho : other < threads) (hne : w ≠ other) :
    (workerSenders payers w threads).Disjoint (workerSenders payers other threads) := by
  intro payer hm hm'
  obtain ⟨i, hi, hmod⟩ := mem_workerSenders hwk hm
  obtain ⟨i', hi', hmod'⟩ := mem_workerSenders ho hm'
  have hbd := lt_of_getElem? hi
  have heq : i = i' := (getElem?_inj hbd hpayers).mp (hi.trans hi'.symm)
  exact hne (hmod.symm.trans ((congrArg (· % threads) heq).trans hmod'))

/-! ### Budgets add up -/

theorem takeWhile_splitBudget (total : ℕ) {parts : ℕ} (hparts : 0 < parts) :
    ((splitBudget total parts).takeWhile (0 < ·)).length = min parts total ∧
    ((splitBudget total parts).takeWhile (0 < ·)).sum = total ∧
    ∀ count ∈ (splitBudget total parts).takeWhile (0 < ·), 1 ≤ count := by
  rcases Nat.lt_or_ge total parts with hlt | hle
  · -- there are as many shares of one as there is to split
    have htake : (splitBudget total parts).takeWhile (0 < ·) = List.replicate total 1 := by
      rw [splitBudget_eq hparts, Nat.mod_eq_of_lt hlt, Nat.div_eq_of_lt hlt, takeWhile_append,
        takeWhile_replicate, takeWhile_replicate]
      simp
    rw [htake, length_replicate, sum_replicate_nat]
    exact ⟨by omega, Nat.mul_one total, fun _ hm => (eq_of_mem_replicate hm).ge⟩
  · have hpos : ∀ count ∈ splitBudget total parts, 1 ≤ count := fun _ =>
      one_le_of_mem_splitBudget hparts hle
    have htake : (splitBudget total parts).takeWhile (0 < ·) = splitBudget total parts :=
      takeWhile_eq_self_iff.mpr fun count hm => decide_eq_true (hpos count hm)
    rw [htake]
    exact ⟨by rw [length_splitBudget]; omega, sum_splitBudget hparts, hpos⟩

theorem spans_snd (firstId : ℕ) (counts : List ℕ) :
    (spans firstId counts).map Prod.snd = counts := by
  induction counts generalizing firstId with
  | nil => rfl
  | cons count counts ih => exact congrArg (count :: ·) (ih _)

/-- The budgets add up to the configuration. -/
structure WorkerBudgets.Divides (budgets : WorkerBudgets) (config : ThreadRunConfig) : Prop where
  workers_pos : 1 ≤ budgets.workers
  workers_le : budgets.workers ≤ max config.threads 1
  length_rate : budgets.rate.length = budgets.workers
  length_concurrency : budgets.concurrency.length = budgets.workers
  iterations_eq : budgets.iterations = spans 0 (budgets.iterations.map Prod.snd)
  iterations_pos : ∀ span ∈ budgets.iterations, 1 ≤ span.2
  iterations_sum : (budgets.iterations.map Prod.snd).sum = config.iterations
  rate_sum : config.rate.MadeOf budgets.rate
  concurrency_pos : ∀ share ∈ budgets.concurrency, 1 ≤ share
  concurrency_sum : budgets.concurrency.sum = config.concurrency

theorem WorkerBudgets.workersFor_bounds (threads : ℕ) {concurrency : ℕ} {rate : Pacing}
    (hconcurrency : 0 < concurrency) (hrate : rate.Offered) :
    0 < workersFor threads rate concurrency ∧
    workersFor threads rate concurrency ≤ max threads 1 ∧
    workersFor threads rate concurrency ≤ concurrency ∧
    ∀ perSecond, rate = .perSecond perSecond →
      workersFor threads rate concurrency ≤ perSecond := by
  cases rate with
  | unlimited =>
    simp only [workersFor]
    exact ⟨by omega, by omega, by omega, nofun⟩
  | perSecond rate =>
    have hpos := hrate.1
    simp only [workersFor]
    refine ⟨by omega, by omega, by omega, fun other ho => ?_⟩
    rw [← Pacing.perSecond.inj ho]
    omega

theorem WorkerBudgets.partition_divides (hiterations : 0 < config.iterations)
    (hconcurrency : 0 < config.concurrency) (hrate : config.rate.Offered) :
    ∃ budgets, partition config.threads config.iterations config.rate config.concurrency
      = .ok budgets ∧ budgets.Divides config := by
  obtain ⟨interval, hint⟩ := Pacing.interval_of_offered hrate
  obtain ⟨hpos, hthreads, hflight, hper⟩ := workersFor_bounds config.threads hconcurrency hrate
  generalize hdef : workersFor config.threads config.rate config.concurrency = workers at *
  obtain ⟨hlen, hsum, hcounts⟩ := takeWhile_splitBudget config.iterations hpos
  generalize hspans : splitIterations config.iterations workers = iterations
  have hsnd : iterations.map Prod.snd =
      (splitBudget config.iterations workers).takeWhile (0 < ·) := by
    rw [← hspans, splitIterations, spans_snd]
  have hct : iterations.length = min workers config.iterations := by
    rw [← hlen, ← hsnd, length_map]
  have hfull : 0 < iterations.length := by omega
  obtain ⟨rates, hrates, hrateslength, hmade⟩ :=
    Pacing.partition_of_offered hrate iterations.length hfull
      fun rate heq => Nat.le_trans (by omega) (hper rate heq)
  refine ⟨⟨iterations, rates, splitBudget config.concurrency iterations.length⟩, ?_, ?_⟩
  · rw [partition, hint, hdef, hspans]
    change (if config.concurrency = 0 then _ else _) = _
    rw [if_neg (Nat.ne_of_gt hconcurrency), hrates]
    rfl
  · refine ⟨hfull, ?_, hrateslength, length_splitBudget _ _, ?_, ?_, ?_, hmade, ?_,
      sum_splitBudget hfull⟩
    · exact Nat.le_trans (by change iterations.length ≤ workers; omega) hthreads
    · rw [hsnd, ← hspans, splitIterations]
    · intro span hspan
      exact hcounts span.2 (hsnd ▸ mem_map_of_mem hspan)
    · exact (congrArg List.sum hsnd).trans hsum
    · exact fun _ => one_le_of_mem_splitBudget hfull (by omega)

/-! ### Threads keep to their shares -/

/-- A thread whose driver keeps its books. -/
def Thread.Sound (config : ThreadRunConfig) (thread : Thread) : Prop :=
  Inv (thread.share.workload config) thread.driver

theorem Thread.step_sound {alone : Bool} {thread next : Thread} {ev : ThreadEvent}
    (h : thread.Sound config) (hst : thread.step config alone ev = some next) :
    next.share = thread.share ∧ next.Sound config := by
  unfold step at hst
  split at hst
  · cases hst
  · rw [← Option.some.inj hst]
    exact ⟨rfl, h⟩
  · split at hst
    · rename_i driver hdrv
      rw [← Option.some.inj hst]
      exact ⟨rfl, Inv.step h hdrv⟩
    · cases hst

/-- Each share has its thread. -/
structure Crew (config : ThreadRunConfig) (shares : List Share) (threads : List Thread) : Prop where
  shares : threads.map Thread.share = shares
  sound : ∀ thread ∈ threads, thread.Sound config

theorem Crew.step {shares : List Share} {next : List Thread} {ev : ℕ × ThreadEvent}
    (h : Crew config shares threads) (hst : stepWorkers config threads ev = some next) :
    Crew config shares next := by
  rw [stepWorkers] at hst
  split at hst
  · rename_i thread hthread
    split at hst
    · rename_i moved hmv
      obtain ⟨hbd, hget⟩ := List.getElem?_eq_some_iff.mp hthread
      obtain ⟨hshare, hsd⟩ :=
        Thread.step_sound (h.sound thread (List.mem_of_getElem? hthread)) hmv
      rw [← Option.some.inj hst]
      refine ⟨?_, fun other ho => ?_⟩
      · rw [map_set, hshare, ← h.shares, ← hget]
        refine ext_getElem (by rw [length_set]) fun i hleft hrt => ?_
        rw [getElem_set]
        split
        · rename_i heq
          subst heq
          exact (getElem_map _).symm
        · rfl
      · rcases mem_or_eq_of_mem_set ho with hold | rfl
        · exact h.sound other hold
        · exact hsd
    · cases hst
  · cases hst

def WorkerBudgets.shares (self : WorkerBudgets) : List Share :=
  (List.range self.workers).map self.share

theorem Crew.spawn (config : ThreadRunConfig) (budgets : WorkerBudgets) (entropy : ℕ → ℕ → Rng)
    (now : ℕ) : Crew config budgets.shares (spawnWorkers config budgets entropy now) := by
  refine ⟨?_, fun thread hthread => ?_⟩
  · rw [spawnWorkers, map_map]
    rfl
  · obtain ⟨i, -, rfl⟩ := mem_map.mp hthread
    exact .start _ _ _

theorem range_map_getD {β : Type} (values : List α) (default : α) (f : α → β) {count : ℕ}
    (hct : values.length = count) :
    (List.range count).map (fun i => f (values.getD i default)) = values.map f := by
  subst hct
  refine ext_getElem (by simp) fun i hleft hrt => ?_
  rw [length_map] at hrt
  simp [hrt]

theorem WorkerBudgets.shares_spans (self : WorkerBudgets) :
    self.shares.map (fun share => (share.firstId, share.iterations)) = self.iterations := by
  rw [shares, map_map]
  exact (range_map_getD self.iterations (0, 0) id rfl).trans (map_id _)

theorem WorkerBudgets.shares_rate {self : WorkerBudgets} (h : self.rate.length = self.workers) :
    self.shares.map Share.rate = self.rate := by
  rw [shares, map_map]
  exact (range_map_getD self.rate .unlimited id h).trans (map_id _)

/-! ### The ids of all threads -/

/-- Where every thread called for its ids from the first on, within its share, the ids of all
threads are in order; where each is through, they are all the ids. -/
theorem requested_sublist {counts : List ℕ} {firstId : ℕ}
    (hshares : threads.map (fun thread => (thread.share.firstId, thread.share.iterations))
      = spans firstId counts)
    (hcls : ∀ thread ∈ threads, called thread.driver.log = List.range' 1 thread.driver.admitted ∧
      thread.driver.admitted ≤ thread.share.iterations) :
    (requested threads).Sublist (List.range' (firstId + 1) counts.sum) ∧
    ((∀ thread ∈ threads, thread.driver.admitted = thread.share.iterations) →
      requested threads = List.range' (firstId + 1) counts.sum) := by
  induction counts generalizing threads firstId with
  | nil =>
    rw [map_eq_nil_iff.mp hshares]
    exact ⟨List.Sublist.refl _, fun _ => rfl⟩
  | cons count counts ih =>
    obtain ⟨thread, threads, rfl, hthread, hr⟩ := map_eq_cons_iff.mp hshares
    obtain ⟨hfst, hct⟩ := Prod.mk.inj hthread
    obtain ⟨hcalled, hle⟩ := hcls thread mem_cons_self
    obtain ⟨hsub, hall⟩ := ih hr fun other ho => hcls other (mem_cons_of_mem _ ho)
    -- the ids of the thread begin where its span does
    have hids : thread.ids = List.range' (firstId + 1) thread.driver.admitted := by
      rw [Thread.ids, hcalled, hfst, map_add_range']
    have hrange : List.range' (firstId + 1) (count :: counts).sum
        = List.range' (firstId + 1) count ++ List.range' (firstId + count + 1) counts.sum := by
      rw [sum_cons, ← range'_append_1, Nat.add_right_comm]
    rw [hrange]
    refine ⟨?_, fun hthrough => ?_⟩
    · refine List.Sublist.append ?_ hsub
      rw [hids]
      exact range'_sublist_right.mpr (hct ▸ hle)
    · change thread.ids ++ requested threads = _
      rw [hids, hthrough thread mem_cons_self, hct,
        hall fun other ho => hthrough other (mem_cons_of_mem _ ho)]

/-! ### What is merged -/

def Thread.Returned (thread : Thread) (outcome : RawRunOutcome) : Prop :=
  thread.driver.point = .returned (.ok outcome)

theorem Thread.returned_of_result {thread : Thread} {out : RawRunOutcome}
    (h : thread.result = some (.ok out)) : thread.Returned out := by
  rw [result] at h
  split at h
  · cases h
  · split at h
    · rename_i hpoint
      rw [Option.some.inj h] at hpoint
      exact hpoint
    · cases h

theorem collect_ok {results : List (Except String α)} {values : List α}
    (h : collect results = .ok values) : results = values.map .ok := by
  induction results generalizing values with
  | nil =>
    cases h
    rfl
  | cons result results ih =>
    match result with
    | .error error => cases h
    | .ok v =>
      rw [collect] at h
      split at h
      · rename_i rest hr
        rw [← Except.ok.inj h, ih hr]
        rfl
      · cases h

theorem joined_ok {out : RunOutcome ObservationsStats}
    (h : joined threads = some (.ok out)) :
    ∃ outcomes, out = mergeOutcomes outcomes ∧ List.Forall₂ Thread.Returned threads outcomes := by
  rw [joined] at h
  split at h
  · cases h
  · rename_i found hf
    split at h
    · rename_i outcomes houtcomes
      refine ⟨outcomes, (Except.ok.inj (Option.some.inj h)).symm, ?_⟩
      rw [collect_ok houtcomes] at hf
      clear houtcomes h
      induction threads generalizing outcomes with
      | nil =>
        rw [map_eq_nil_iff.mp (Option.some.inj hf).symm]
        exact .nil
      | cons thread threads ih =>
        rw [results] at hf
        split at hf
        · rename_i result rest hres hr
          obtain ⟨first, others, rfl, rfl, rfl⟩ :=
            map_eq_cons_iff.mp (Option.some.inj hf).symm
          exact .cons (Thread.returned_of_result hres) (ih others hr)
        · cases hf
    · cases h

def RunOutcome.counted {σ : Type} (self : RunOutcome σ) : ℕ := self.delivered + self.failed

theorem counted_foldl_merge (outcomes : List RawRunOutcome) (first : RawRunOutcome) :
    (outcomes.foldl RunOutcome.merge first).counted
      = first.counted + (outcomes.map RunOutcome.counted).sum := by
  induction outcomes generalizing first with
  | nil => rfl
  | cons out outcomes ih =>
    have hmerge : (first.merge out).counted = first.counted + out.counted :=
      Nat.add_add_add_comm _ _ _ _
    rw [foldl_cons, ih, hmerge, map_cons, sum_cons, Nat.add_assoc]

theorem offered_foldl_merge (outcomes : List RawRunOutcome) (first : RawRunOutcome) :
    (outcomes.foldl RunOutcome.merge first).offered
      = (outcomes.map RunOutcome.offered).foldl Pacing.combine first.offered := by
  induction outcomes generalizing first with
  | nil => rfl
  | cons out outcomes ih => exact ih (first.merge out)

theorem counted_mergeOutcomes (outcomes : List RawRunOutcome) :
    (mergeOutcomes outcomes).counted = (outcomes.map RunOutcome.counted).sum := by
  cases outcomes with
  | nil => rfl
  | cons out outcomes => exact counted_foldl_merge outcomes out

theorem offered_mergeOutcomes {rate : Pacing} (hrate : rate.Offered) {outcomes : List RawRunOutcome}
    (hne : outcomes ≠ []) (hmade : rate.MadeOf (outcomes.map RunOutcome.offered)) :
    (mergeOutcomes outcomes).offered = rate := by
  cases outcomes with
  | nil => exact absurd rfl hne
  | cons out outcomes =>
    exact (offered_foldl_merge outcomes out).trans (Pacing.combine_of_madeOf hrate hmade)

section Joined

variable {config : ThreadRunConfig} {threads : List Thread} {outcomes : List RawRunOutcome}

theorem Thread.Sound.accounted {thread : Thread} {out : RawRunOutcome}
    (h : thread.Sound config) (hret : thread.Returned out) :
    Accounted (thread.share.workload config) thread.driver.admitted out := by
  have hat := h.atPoint
  rw [hret] at hat
  exact hat

theorem accounted_of_returned (hsd : ∀ thread ∈ threads, thread.Sound config)
    (huntil : config.untilDeadline = none) (h : List.Forall₂ Thread.Returned threads outcomes) :
    List.Forall₂ (fun thread out => thread.driver.admitted = thread.share.iterations ∧
      thread.share.iterations = out.counted ∧ thread.share.rate = out.offered)
      threads outcomes := by
  refine List.Forall₂.imp ?_ ((forall₂_and_left _ _).mpr ⟨hsd, h⟩)
  rintro thread out ⟨hthread, hret⟩
  have hact := Thread.Sound.accounted hthread hret
  have hspent : thread.driver.admitted = thread.share.iterations := by
    refine hact.spent thread.share.iterations ?_
    rw [Share.workload, huntil]
  exact ⟨hspent, hspent.symm.trans hact.total.symm, hact.offered.symm⟩

theorem map_eq_of_forall₂ {α β γ : Type} {f : α → γ} {g : β → γ} {left : List α} {right : List β}
    (h : List.Forall₂ (fun a b => f a = g b) left right) : left.map f = right.map g := by
  have hmap : List.Forall₂ Eq (left.map f) (right.map g) :=
    forall₂_map_left_iff.mpr (forall₂_map_right_iff.mpr h)
  rwa [forall₂_eq_eq_eq] at hmap

end Joined

/-- **Ids are divided, and outcomes merged, without loss.** Budgets of at least one request, one
request in flight and an offered rate are partitioned between one or more workers, no more than
there are threads, so that every share is at least one and the shares make up the budgets.
However the workers interleave, without an `until` bound the ids their request functions are
called with are different ids from one to `iterations`; when `execute_threaded` returns an
outcome they are all of them, and it counts that many requests, at the configured rate. The
payers of different workers are different: they stand at different places of the list. -/
theorem workers_divide (config : ThreadRunConfig) (hiterations : 0 < config.iterations)
    (hconcurrency : 0 < config.concurrency) (hrate : config.rate.Offered) :
    (∃ budgets, WorkerBudgets.partition config.threads config.iterations config.rate
        config.concurrency = .ok budgets ∧ budgets.Divides config ∧
      (config.untilDeadline = none → ∀ entropy now threads,
        Machine.Reachable (stepWorkers config) (spawnWorkers config budgets entropy now) threads →
        (requested threads).Sublist (List.range' 1 config.iterations) ∧
        ∀ outcome, joined threads = some (.ok outcome) →
          requested threads = List.range' 1 config.iterations ∧
          outcome.delivered + outcome.failed = config.iterations ∧
          outcome.offered = config.rate)) ∧
    ∀ (payer : Type) (payers : List payer) (worker other threads : ℕ), worker < threads →
      other < threads → worker ≠ other →
      (workerSenders payers.zipIdx worker threads).Disjoint
        (workerSenders payers.zipIdx other threads) ∧
      (payers.Nodup → (workerSenders payers worker threads).Disjoint
        (workerSenders payers other threads)) := by
  refine ⟨?_, fun payer payers worker other threads hworker hother hne =>
    ⟨workerSenders_disjoint (.of_map Prod.snd payers.nodup_zipIdx_map_snd) hworker hother hne,
      fun hpayers => workerSenders_disjoint hpayers hworker hother hne⟩⟩
  obtain ⟨budgets, hbudgets, hdivides⟩ :=
    WorkerBudgets.partition_divides hiterations hconcurrency hrate
  refine ⟨budgets, hbudgets, hdivides, fun huntil entropy now threads hreach => ?_⟩
  have hcrew : Crew config budgets.shares threads :=
    hreach.induction (.spawn config budgets entropy now) fun _ _ _ hstate hstep =>
      hstate.step hstep
  -- the threads have the spans of the budgets, which follow one another
  have hspans : threads.map (fun thread => (thread.share.firstId, thread.share.iterations))
      = spans 0 (budgets.iterations.map Prod.snd) := by
    rw [← hdivides.iterations_eq, ← budgets.shares_spans, ← hcrew.shares, map_map]
    rfl
  obtain ⟨hsub, hall⟩ := requested_sublist hspans fun thread hthread =>
    have hbooks := (hcrew.sound thread hthread).books
    ⟨hbooks.calls, hbooks.budget _ _ rfl⟩
  rw [hdivides.iterations_sum] at hsub hall
  refine ⟨hsub, fun outcome houtcome => ?_⟩
  obtain ⟨outcomes, rfl, hreturned⟩ := joined_ok houtcome
  have haccounted := accounted_of_returned hcrew.sound huntil hreturned
  have hcounted : threads.map (·.share.iterations) = outcomes.map RunOutcome.counted :=
    map_eq_of_forall₂ (haccounted.imp fun _ _ h => h.2.1)
  have hoffered : threads.map (·.share.rate) = outcomes.map RunOutcome.offered :=
    map_eq_of_forall₂ (haccounted.imp fun _ _ h => h.2.2)
  refine ⟨hall ((forall₂_and_left _ _).mp haccounted).1, ?_, ?_⟩
  · have hsum : threads.map (·.share.iterations) = budgets.iterations.map Prod.snd := by
      rw [← spans_snd 0 (budgets.iterations.map Prod.snd), ← hspans, map_map]
      rfl
    change (mergeOutcomes outcomes).counted = config.iterations
    rw [counted_mergeOutcomes, ← hcounted, hsum, hdivides.iterations_sum]
  · have hrates : budgets.rate = outcomes.map RunOutcome.offered := by
      rw [← hoffered, ← WorkerBudgets.shares_rate hdivides.length_rate, ← hcrew.shares,
        map_map]
      rfl
    refine offered_mergeOutcomes hrate ?_ (hrates ▸ hdivides.rate_sum)
    rintro rfl
    have hpos := hdivides.workers_pos
    rw [← hdivides.length_rate, hrates] at hpos
    exact absurd hpos (by decide)

def sampleConfig : ThreadRunConfig := ⟨none, 4, 3, .perSecond 2, 5, "client"⟩

def sampleBudgets : WorkerBudgets := ⟨[(0, 2), (2, 1)], [.perSecond 1, .perSecond 1], [3, 2]⟩

def sampleThreads : List Thread :=
  let check : ThreadEvent := .drive (.check ⟨0, false, false⟩)
  let tick : ThreadEvent := .drive .tick
  let done : ThreadEvent := .drive (.completed 0 sampleReport 5000)
  let fails : ThreadEvent :=
    .drive (.completed 0 { sampleReport with request := .error "refused" } 7000)
  Machine.goOn (stepWorkers sampleConfig)
    (spawnWorkers sampleConfig sampleBudgets (fun _ _ => ⟨id, 0⟩) 0)
    [(0, check), (1, check), (1, tick), (0, tick), (1, check), (0, check), (1, check), (0, check),
      (1, fails), (0, tick), (0, check), (0, check), (0, done), (0, done)]

theorem workers_divide_sample :
    WorkerBudgets.partition 4 3 (.perSecond 2) 5 = .ok sampleBudgets ∧
    sampleBudgets.Divides sampleConfig ∧ requested sampleThreads = [1, 2, 3] ∧
    ∃ outcome, joined sampleThreads = some (.ok outcome) ∧
      outcome.delivered + outcome.failed = 3 ∧ outcome.offered = .perSecond 2 := by
  obtain ⟨⟨budgets, hbudgets, hdivides, hruns⟩, -⟩ :=
    workers_divide sampleConfig (by decide) (by decide) (by decide)
  have heq : budgets = sampleBudgets := Except.ok.inj (hbudgets.symm.trans rfl)
  subst heq
  obtain ⟨-, hjoined⟩ := hruns rfl (fun _ _ => ⟨id, 0⟩) 0 sampleThreads (Machine.reachable_goOn _ _)
  obtain ⟨hall, hcounted, hoffered⟩ := hjoined _ rfl
  exact ⟨rfl, hdivides, hall, _, rfl, hcounted, hoffered⟩

def stalledConfig : ThreadRunConfig := ⟨none, 1, 2, .unlimited, 1, "client"⟩

def stalledThreads : List Thread :=
  let check : ThreadEvent := .drive (.check ⟨0, false, false⟩)
  Machine.goOn (stepWorkers stalledConfig)
    (spawnWorkers stalledConfig ⟨[(0, 2)], [.unlimited], [1]⟩ (fun _ _ => ⟨id, 0⟩) 0)
    [(0, check), (0, .drive .tick), (0, check), (0, check), (0, .drive (.interval (65 * oneSec))),
      (0, .drive (.expired (125 * oneSec)))]

/-- A run that stalls ends without having called for all ids. -/
theorem stalled_misses_ids :
    WorkerBudgets.partition 1 2 .unlimited 1 = .ok ⟨[(0, 2)], [.unlimited], [1]⟩ ∧
    Machine.Reachable (stepWorkers stalledConfig)
      (spawnWorkers stalledConfig ⟨[(0, 2)], [.unlimited], [1]⟩ (fun _ _ => ⟨id, 0⟩) 0)
      stalledThreads ∧
    joined stalledThreads = some (.error "admitted workload did not drain within 60s") ∧
    requested stalledThreads = [1] ∧
    requested stalledThreads ≠ List.range' 1 stalledConfig.iterations :=
  ⟨rfl, Machine.reachable_goOn _ _, rfl, rfl, by decide⟩

end Redsuite.Runner
