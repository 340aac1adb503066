import Redsuite.Workers
import Mathlib.Algebra.BigOperators.Ring.Finset
import Mathlib.Data.Int.CardIntervalMod

/-!
# The mixed load

A model of `id_for`, `lane_of` and `mode_for` in
`redline/src/scenarios/scheduler/mixed_sustained_load/mod.rs` and of `LaneSpan` and `summarize` in
its `driver.rs`.
-/

namespace Redsuite.MixedLoad

open List
open Runner (RawRunOutcome RunOutcome mergeOutcomes)

def MIX_PERIOD : ℕ := 20

def HASH_COMPUTE_SLOTS : ℕ := 2

def PATTERN_WRITE_SLOTS : ℕ := 9

/-- `Mode`. -/
inductive Mode : Type where
  | hashCompute
  | patternWrite
  | accountSizeSum
  deriving DecidableEq

def modeFor (id : ℕ) : Mode :=
  let slot := (id - 1) % MIX_PERIOD
  if slot < HASH_COMPUTE_SLOTS then .hashCompute
  else if slot < HASH_COMPUTE_SLOTS + PATTERN_WRITE_SLOTS then .patternWrite
  else .accountSizeSum

def laneOf (id lanes : ℕ) : ℕ := (id - 1) % lanes

def idFor (round lane lanes : ℕ) : ℕ := round * lanes + lane + 1

/-- `LaneSpan`: the lanes of a worker. -/
structure LaneSpan where
  lo : ℕ
  len : ℕ

def LaneSpan.jobId (self : LaneSpan) (job lanes : ℕ) : ℕ :=
  idFor (job / self.len) (self.lo + job % self.len) lanes

/-- How many of so many jobs come to a place when they are given out in turn. -/
def turns (jobs places place : ℕ) : ℕ := jobs / places + if place < jobs % places then 1 else 0

/-- What the deliveries of a run note. -/
structure Tally where
  lastIds : List (Option ℕ)
  counts : Mode → ℕ

/-- The loop over the lanes of a span in `summarize`: a lane and its rounds. -/
def Tally.visit (lanes : ℕ) (self : Tally) (lane rounds : ℕ) : Tally where
  lastIds :=
    if 0 < rounds then self.lastIds.set lane (some (idFor (rounds - 1) lane lanes))
    else self.lastIds
  counts := (range MIX_PERIOD).foldl (fun counts round =>
    let mode := modeFor (idFor round lane lanes)
    Function.update counts mode (counts mode + turns rounds MIX_PERIOD round)) self.counts

/-- What a run returns. -/
structure Executed where
  outcome : RunOutcome ObservationsStats
  lastIds : List (Option ℕ)
  counts : Mode → ℕ

/-- A worker, with its outcome. -/
abbrev Worker := LaneSpan × RawRunOutcome

def admitted (outcome : RawRunOutcome) : ℕ := outcome.delivered + outcome.failed

def summarize (lanes : ℕ) (outcomes : List Worker) : Executed :=
  let tally : Tally := outcomes.foldl (fun tally (span, outcome) =>
    (range span.len).foldl (fun tally offset =>
      tally.visit lanes (span.lo + offset) (turns (admitted outcome) span.len offset)) tally)
    ⟨replicate lanes none, fun _ => 0⟩
  ⟨mergeOutcomes (outcomes.map (·.2)), tally.lastIds, tally.counts⟩

/-! ### Turns -/

theorem turns_eq_countP (jobs : ℕ) {places place : ℕ} (h : place < places) :
    turns jobs places place = (range jobs).countP (· % places = place) := by
  have hcount := Nat.count_modEq_card jobs (Nat.zero_lt_of_lt h) place
  rw [Nat.mod_eq_of_lt h] at hcount
  simp only [Nat.count, Nat.ModEq, Nat.mod_eq_of_lt h] at hcount
  exact hcount.symm

theorem turns_succ {jobs places place : ℕ} (h : place < places) : turns (jobs + 1) places place =
    turns jobs places place + if jobs % places = place then 1 else 0 := by
  rw [turns_eq_countP _ h, turns_eq_countP _ h, range_succ, countP_append, countP_singleton]
  simp only [decide_eq_true_eq]

theorem countP_parts (p : ℕ → Bool) (part : ℕ → ℕ) {n : ℕ} {l : List ℕ} (h : ∀ x ∈ l, part x < n) :
    l.countP p = ∑ i ∈ Finset.range n, (l.filter (part · = i)).countP p := by
  induction l with
  | nil => simp
  | cons x l ih =>
    have hcons : ∀ i, ((x :: l).filter (part · = i)).countP p =
        (l.filter (part · = i)).countP p + if part x = i then (if p x then 1 else 0) else 0 := by
      intro i
      by_cases hi : part x = i <;> simp [hi, countP_cons]
    simp only [hcons, Finset.sum_add_distrib, Finset.sum_ite_eq, Finset.mem_range,
      if_pos (h x mem_cons_self), countP_cons, ih fun y hy => h y (mem_cons_of_mem x hy)]

/-! ### The ids of a lane -/

variable {lanes lane rounds : ℕ}

def laneIds (lanes lane rounds : ℕ) : List ℕ := (range rounds).map (idFor · lane lanes)

theorem laneOf_idFor (h : lane < lanes) (round : ℕ) :
    laneOf (idFor round lane lanes) lanes = lane := by
  rw [laneOf, idFor, Nat.add_sub_cancel, Nat.mul_add_mod', Nat.mod_eq_of_lt h]

theorem idFor_lt (h : lane < lanes) {one two : ℕ} (hlt : one < two) :
    idFor one lane lanes < idFor two lane lanes := by
  have := Nat.mul_lt_mul_of_pos_right hlt (Nat.zero_lt_of_lt h)
  rw [idFor, idFor]
  omega

theorem laneIds_increasing (h : lane < lanes) : (laneIds lanes lane rounds).Pairwise (· < ·) :=
  pairwise_map.mpr (pairwise_lt_range.imp fun hlt => idFor_lt h hlt)

theorem max?_laneIds (h : lane < lanes) : (laneIds lanes lane rounds).max? =
    if 0 < rounds then some (idFor (rounds - 1) lane lanes) else none := by
  cases rounds with
  | zero => rfl
  | succ last =>
    refine max?_eq_some_iff.mpr ⟨mem_map.mpr ⟨last, by simp, rfl⟩, fun id hid => ?_⟩
    obtain ⟨round, hround, rfl⟩ := mem_map.mp hid
    rcases Nat.lt_or_eq_of_le (Nat.le_of_lt_succ (mem_range.mp hround)) with hlt | rfl
    · exact (idFor_lt h hlt).le
    · exact Nat.le_refl _

theorem modeFor_round (round : ℕ) :
    modeFor (idFor round lane lanes) = modeFor (idFor (round % MIX_PERIOD) lane lanes) := by
  have hslot : (idFor round lane lanes - 1) % MIX_PERIOD =
      (idFor (round % MIX_PERIOD) lane lanes - 1) % MIX_PERIOD := by
    simp only [idFor, Nat.add_sub_cancel, Nat.add_mod, Nat.mul_mod, Nat.mod_mod]
  rw [modeFor, modeFor, hslot]

theorem laneIds_modes (mode : Mode) : (laneIds lanes lane rounds).countP (modeFor · = mode) =
    ∑ round ∈ Finset.range MIX_PERIOD,
      if modeFor (idFor round lane lanes) = mode then turns rounds MIX_PERIOD round else 0 := by
  have hpos : 0 < MIX_PERIOD := by decide
  rw [laneIds, countP_map, countP_parts _ (· % MIX_PERIOD) fun x _ => Nat.mod_lt x hpos]
  refine Finset.sum_congr rfl fun round hround => ?_
  rw [turns_eq_countP _ (Finset.mem_range.mp hround), countP_eq_length_filter (l := range rounds)]
  split
  · rename_i hmode
    refine countP_eq_length.mpr fun x hx => ?_
    have hx := of_decide_eq_true (mem_filter.mp hx).2
    simp [modeFor_round x, hx, hmode]
  · rename_i hmode
    refine countP_eq_zero.mpr fun x hx => ?_
    have hx := of_decide_eq_true (mem_filter.mp hx).2
    simp [modeFor_round x, hx, hmode]

/-! ### All workers -/

variable {outs : List Worker} {w : Worker} {off : ℕ}

/-- Each lane is one of exactly one worker. -/
structure Divided (lanes : ℕ) (outcomes : List Worker) : Prop where
  nonempty : ∀ worker ∈ outcomes, 0 < worker.1.len
  lanes : (outcomes.flatMap fun worker => range' worker.1.lo worker.1.len) ~ range lanes

/-- The ids of a worker's jobs, in the order in which they are admitted. -/
def jobIds (lanes : ℕ) (worker : Worker) : List ℕ :=
  (range (admitted worker.2)).map (worker.1.jobId · lanes)

def enumerated (lanes : ℕ) (outcomes : List Worker) : List ℕ :=
  outcomes.flatMap (jobIds lanes)

def visits (outcomes : List Worker) : List (ℕ × ℕ) :=
  outcomes.flatMap fun worker => (range worker.1.len).map fun offset =>
    (worker.1.lo + offset, turns (admitted worker.2) worker.1.len offset)

theorem visits_lanes : (visits outs).map Prod.fst =
    outs.flatMap fun w => range' w.1.lo w.1.len := by
  simp only [visits, map_flatMap, map_map, Function.comp_def, range'_eq_map_range]

section

variable (h : Divided lanes outs)

include h

theorem Divided.lane_lt (hm : w ∈ outs) (hlt : off < w.1.len) : w.1.lo + off < lanes := by
  refine mem_range.mp (h.lanes.mem_iff.mp (mem_flatMap.mpr ⟨w, hm, ?_⟩))
  exact mem_range'_1.mpr ⟨Nat.le_add_right _ _, Nat.add_lt_add_left hlt _⟩

theorem Divided.laneOf_jobId (hm : w ∈ outs) (job : ℕ) :
    laneOf (w.1.jobId job lanes) lanes = w.1.lo + job % w.1.len :=
  laneOf_idFor (h.lane_lt hm (Nat.mod_lt job (h.nonempty w hm))) _

theorem Divided.jobIds_lane (hm : w ∈ outs) (hlt : off < w.1.len) : (jobIds lanes w).filter
    (laneOf · lanes = w.1.lo + off) = laneIds lanes (w.1.lo + off)
    (turns (admitted w.2) w.1.len off) := by
  rw [jobIds]
  induction admitted w.2 with
  | zero => simp [turns, laneIds]
  | succ job ih =>
    rw [range_succ, map_append, filter_append, ih, turns_succ hlt, map_singleton, filter_singleton,
      h.laneOf_jobId hm]
    by_cases heq : job % w.1.len = off
    · have hturns : turns job w.1.len off = job / w.1.len := by
        rw [turns, if_neg (by omega), Nat.add_zero]
      rw [heq, decide_eq_true rfl, if_pos rfl, laneIds, laneIds, range_succ, map_append, hturns,
        ← heq]
      rfl
    · rw [decide_eq_false (by omega), if_neg heq]
      exact append_nil _

theorem Divided.no_jobs {workers : List Worker} (hsub : workers ⊆ outs)
    (hlane : lane ∉ workers.flatMap fun w => range' w.1.lo w.1.len) :
    (enumerated lanes workers).filter (laneOf · lanes = lane) = [] := by
  refine filter_eq_nil_iff.mpr fun id hid heq => hlane ?_
  obtain ⟨w, hm, hid⟩ := mem_flatMap.mp hid
  obtain ⟨job, -, rfl⟩ := mem_map.mp hid
  rw [decide_eq_true_eq, h.laneOf_jobId (hsub hm)] at heq
  have hlt := Nat.mod_lt job (h.nonempty w (hsub hm))
  exact mem_flatMap.mpr ⟨w, hm, mem_range'_1.mpr (by omega)⟩

theorem Divided.enumerated_lane {visit : ℕ × ℕ} (hv : visit ∈ visits outs) :
    (enumerated lanes outs).filter (laneOf · lanes = visit.1) = laneIds lanes visit.1 visit.2 := by
  obtain ⟨w, hm, hv⟩ := mem_flatMap.mp hv
  obtain ⟨off, hoff, rfl⟩ := mem_map.mp hv
  have hlt := mem_range.mp hoff
  have hown : w.1.lo + off ∈ range' w.1.lo w.1.len :=
    mem_range'_1.mpr (by omega)
  obtain ⟨before, after, heq⟩ := append_of_mem hm
  -- the lanes of the other workers are other lanes
  have hnd := h.lanes.nodup_iff.mpr nodup_range
  rw [heq, flatMap_append, flatMap_cons, nodup_append, nodup_append] at hnd
  obtain ⟨-, ⟨-, -, hafter⟩, hbefore⟩ := hnd
  have hone : before ⊆ outs := by simp [heq]
  have htwo : after ⊆ outs := by simp [heq]
  have hnone := h.no_jobs hone fun hin => hbefore _ hin _ (mem_append_left _ hown) rfl
  have hnone' := h.no_jobs htwo fun hin => hafter _ hown _ hin rfl
  rw [enumerated] at hnone hnone' ⊢
  rw [heq, flatMap_append, flatMap_cons, filter_append, filter_append, hnone, hnone', nil_append,
    append_nil]
  exact h.jobIds_lane hm hlt

end

/-! ### The loops of `summarize` -/

theorem foldl_counts (modes : ℕ → Mode) (amounts : ℕ → ℕ) (counts : Mode → ℕ) (mode : Mode)
    (n : ℕ) : (range n).foldl (fun counts i =>
        Function.update counts (modes i) (counts (modes i) + amounts i)) counts mode =
      counts mode + ∑ i ∈ Finset.range n, if modes i = mode then amounts i else 0 := by
  induction n with
  | zero => rfl
  | succ n ih =>
    rw [range_succ, foldl_append, foldl_cons, foldl_nil, Finset.sum_range_succ, ← Nat.add_assoc,
      ← ih]
    by_cases h : modes n = mode
    · rw [h, Function.update_self, if_pos rfl]
    · rw [Function.update_of_ne (Ne.symm h), if_neg h, Nat.add_zero]

theorem Tally.visit_counts (tally : Tally) (mode : Mode) :
    (tally.visit lanes lane rounds).counts mode =
      tally.counts mode + (laneIds lanes lane rounds).countP (modeFor · = mode) := by
  simp only [visit, laneIds_modes]
  generalize MIX_PERIOD = n
  exact foldl_counts (fun round => modeFor (idFor round lane lanes)) (turns rounds n) tally.counts
    mode n

def Tally.visitAll (lanes : ℕ) (self : Tally) (visits : List (ℕ × ℕ)) : Tally :=
  visits.foldl (fun tally visit => tally.visit lanes visit.1 visit.2) self

theorem summarize_eq : summarize lanes outs =
    let tally := Tally.visitAll lanes ⟨replicate lanes none, fun _ => 0⟩ (visits outs)
    ⟨mergeOutcomes (outs.map (·.2)), tally.lastIds, tally.counts⟩ := by
  simp only [Tally.visitAll, visits, foldl_flatMap, foldl_map, summarize]

theorem Tally.visitAll_counts (tally : Tally) (visits : List (ℕ × ℕ)) (mode : Mode) :
    (tally.visitAll lanes visits).counts mode = tally.counts mode +
      (visits.map fun visit => (laneIds lanes visit.1 visit.2).countP (modeFor · = mode)).sum := by
  induction visits generalizing tally with
  | nil => rfl
  | cons visit visits ih =>
    rw [map_cons, sum_cons, ← Nat.add_assoc, ← visit_counts]
    exact ih (tally.visit lanes visit.1 visit.2)

theorem Tally.visitAll_lastIds_ne (tally : Tally) {visits : List (ℕ × ℕ)}
    (h : lane ∉ visits.map Prod.fst) :
    (tally.visitAll lanes visits).lastIds[lane]? = tally.lastIds[lane]? := by
  induction visits generalizing tally with
  | nil => rfl
  | cons visit visits ih =>
    obtain ⟨hne, h⟩ := not_or.mp (mt mem_cons.mpr h)
    refine (ih (tally.visit lanes visit.1 visit.2) h).trans ?_
    rw [Tally.visit]
    split
    · exact getElem?_set_ne (Ne.symm hne)
    · rfl

theorem Tally.visit_lastIds {tally : Tally} (hlt : lane < lanes)
    (hnone : tally.lastIds[lane]? = some none) :
    (tally.visit lanes lane rounds).lastIds[lane]? = some (laneIds lanes lane rounds).max? := by
  rw [visit, max?_laneIds hlt]
  split
  · exact getElem?_set_self (lt_of_getElem? hnone)
  · exact hnone

/-- **What the loops leave for a lane**, if they come to each lane once. -/
theorem Tally.visitAll_lastIds {tally : Tally} {visits : List (ℕ × ℕ)}
    (hnd : (visits.map Prod.fst).Nodup) {visit : ℕ × ℕ} (hv : visit ∈ visits)
    (hlt : visit.1 < lanes) (hnone : tally.lastIds[visit.1]? = some none) :
    (tally.visitAll lanes visits).lastIds[visit.1]? =
      some (laneIds lanes visit.1 visit.2).max? := by
  induction visits generalizing tally with
  | nil => cases hv
  | cons first visits ih =>
    obtain ⟨hfst, hnd⟩ := nodup_cons.mp hnd
    rcases mem_cons.mp hv with rfl | hv
    · exact (visitAll_lastIds_ne _ hfst).trans (visit_lastIds hlt hnone)
    · have hne : visit.1 ∉ [first].map Prod.fst := fun hin =>
        hfst (mem_singleton.mp hin ▸ mem_map_of_mem hv)
      exact ih hnd hv ((visitAll_lastIds_ne tally hne).trans hnone)

/-! ### The summary -/

section Summary

variable (h : Divided lanes outs)
include h

theorem Divided.exists_visit (hlt : lane < lanes) : ∃ rounds, (lane, rounds) ∈ visits outs := by
  have hin := h.lanes.mem_iff.mpr (mem_range.mpr hlt)
  rw [← visits_lanes] at hin
  obtain ⟨⟨_, rounds⟩, hv, rfl⟩ := mem_map.mp hin
  exact ⟨rounds, hv⟩

theorem Divided.visits_nodup : ((visits outs).map Prod.fst).Nodup := by
  rw [visits_lanes]
  exact h.lanes.nodup_iff.mpr nodup_range

theorem Divided.lastIds : (summarize lanes outs).lastIds =
    (range lanes).map fun lane =>
      ((enumerated lanes outs).filter (laneOf · lanes = lane)).max? := by
  refine ext_getElem? fun lane => ?_
  rw [summarize_eq, getElem?_map]
  rcases Nat.lt_or_ge lane lanes with hlt | hge
  · obtain ⟨rounds, hv⟩ := h.exists_visit hlt
    rw [getElem?_range hlt, Option.map_some, h.enumerated_lane hv]
    exact Tally.visitAll_lastIds h.visits_nodup hv hlt (by simp [hlt])
  · have hout : lane ∉ (visits outs).map Prod.fst := by
      rw [visits_lanes, h.lanes.mem_iff, mem_range]
      exact Nat.not_lt.mpr hge
    refine (Tally.visitAll_lastIds_ne _ hout).trans ?_
    simp [hge]

theorem Divided.increasing (hlt : lane < lanes) :
    ((enumerated lanes outs).filter (laneOf · lanes = lane)).Pairwise (· < ·) := by
  obtain ⟨rounds, hv⟩ := h.exists_visit hlt
  rw [h.enumerated_lane hv]
  exact laneIds_increasing hlt

theorem Divided.lane_of_enumerated {id : ℕ} (hid : id ∈ enumerated lanes outs) :
    laneOf id lanes < lanes := by
  obtain ⟨w, hm, hid⟩ := mem_flatMap.mp hid
  obtain ⟨job, -, rfl⟩ := mem_map.mp hid
  rw [h.laneOf_jobId hm]
  exact h.lane_lt hm (Nat.mod_lt job (h.nonempty w hm))

theorem Divided.nodup : (enumerated lanes outs).Nodup := by
  refine nodup_iff_count_le_one.mpr fun id => ?_
  by_cases hid : id ∈ enumerated lanes outs
  · have hinc := h.increasing (h.lane_of_enumerated hid)
    rw [← count_filter (p := (laneOf · lanes = laneOf id lanes)) (by simp)]
    exact nodup_iff_count_le_one.mp (hinc.imp Nat.ne_of_lt) id
  · exact (count_eq_zero_of_not_mem hid).le.trans (Nat.zero_le _)

theorem Divided.counts (mode : Mode) : (summarize lanes outs).counts mode =
    (enumerated lanes outs).countP (modeFor · = mode) := by
  rw [summarize_eq]
  refine (Tally.visitAll_counts _ _ mode).trans ?_
  rw [Nat.zero_add, countP_parts _ (laneOf · lanes) fun id => h.lane_of_enumerated]
  have hparts : (visits outs).map (fun visit =>
        (laneIds lanes visit.1 visit.2).countP (modeFor · = mode)) =
      ((visits outs).map Prod.fst).map fun lane =>
        ((enumerated lanes outs).filter (laneOf · lanes = lane)).countP (modeFor · = mode) := by
    rw [map_map]
    exact map_congr_left fun visit hv => congrArg _ (h.enumerated_lane hv).symm
  rw [hparts, visits_lanes]
  exact (h.lanes.map _).sum_eq

end Summary

theorem countP_modes (ids : List ℕ) : ids.countP (modeFor · = .hashCompute) +
    ids.countP (modeFor · = .patternWrite) + ids.countP (modeFor · = .accountSizeSum) =
      ids.length := by
  induction ids with
  | nil => rfl
  | cons id ids ih =>
    simp only [countP_cons, length_cons, ← ih]
    cases modeFor id <;> simp <;> omega

/-- **The summary is what an enumeration of all jobs gives.** The last id of a lane is the largest
id of the lane among all of them, the count of a mode is the number of its ids, and the counts sum
up to the jobs admitted. No id is given out twice, the lane of an id is one of its worker's, and the
ids of a lane increase. -/
theorem summarize_enumerates (lanes : ℕ) (outs : List Worker)
    (h : Divided lanes outs) :
    (summarize lanes outs).lastIds = (range lanes).map (fun lane =>
      ((enumerated lanes outs).filter (laneOf · lanes = lane)).max?) ∧
    (∀ mode, (summarize lanes outs).counts mode =
      (enumerated lanes outs).countP (modeFor · = mode)) ∧
    (summarize lanes outs).counts .hashCompute +
        (summarize lanes outs).counts .patternWrite +
        (summarize lanes outs).counts .accountSizeSum =
      (outs.map fun w => admitted w.2).sum ∧
    (enumerated lanes outs).Nodup ∧
    (∀ w ∈ outs, ∀ id ∈ jobIds lanes w,
      w.1.lo ≤ laneOf id lanes ∧ laneOf id lanes < w.1.lo + w.1.len) ∧
    ∀ lane < lanes,
      ((enumerated lanes outs).filter (laneOf · lanes = lane)).Pairwise (· < ·) := by
  refine ⟨h.lastIds, h.counts, ?_, h.nodup, ?_, fun lane => h.increasing⟩
  · rw [h.counts, h.counts, h.counts, countP_modes, enumerated, length_flatMap]
    simp only [jobIds, length_map, length_range]
  · intro w hm id hid
    obtain ⟨job, -, rfl⟩ := mem_map.mp hid
    have hlt := Nat.mod_lt job (h.nonempty w hm)
    rw [h.laneOf_jobId hm]
    omega

/-- Two workers on three lanes, with five jobs and three. -/
def sampleOutcomes : List Worker :=
  let outcome := RunOutcome.default fun _ => ⟨id, 0⟩
  [(⟨0, 2⟩, { outcome with delivered := 4, failed := 1 }),
    (⟨2, 1⟩, { outcome with delivered := 3 })]

theorem summarize_enumerates_sample : Divided 3 sampleOutcomes ∧
    (summarize 3 sampleOutcomes).lastIds = [some 7, some 5, some 9] := by
  have hdivided : Divided 3 sampleOutcomes := ⟨by decide, by decide⟩
  exact ⟨hdivided, (summarize_enumerates 3 sampleOutcomes hdivided).1.trans (by decide)⟩

end Redsuite.MixedLoad
