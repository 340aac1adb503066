import Redsuite.Stats
import Mathlib.Algebra.Order.BigOperators.Group.List

/-!
# Offered rates

A model of the part of `core/src/transport/rate.rs` that divides a run between workers, and of
the count of admissions per second.
-/

namespace Redsuite

open List

/-- `Pacing`. -/
inductive Pacing : Type where
  | unlimited
  /-- so many each second, a `u32` -/
  | perSecond (rate : ℕ)

def oneSec : ℕ := 1000000000

def splitBudget (total parts : ℕ) : List ℕ :=
  let base := total / max parts 1
  let remainder := total % max parts 1
  (List.range parts).map fun index => base + if index < remainder then 1 else 0

theorem splitBudget_eq {total parts : ℕ} (hparts : 0 < parts) :
    splitBudget total parts =
      List.replicate (total % parts) (total / parts + 1) ++
        List.replicate (parts - total % parts) (total / parts) := by
  have hlt : total % parts < parts := Nat.mod_lt total hparts
  rw [splitBudget, show max parts 1 = parts by omega]
  refine ext_getElem ?_ fun i hleft hrt => ?_
  · simp only [length_map, length_range, length_append, length_replicate]
    omega
  · simp only [getElem_map, getElem_range, getElem_append, length_replicate,
      getElem_replicate]
    split <;> rfl

@[simp]
theorem length_splitBudget (total parts : ℕ) : (splitBudget total parts).length = parts := by
  rw [splitBudget, length_map, length_range]

theorem sum_splitBudget {total parts : ℕ} (hparts : 0 < parts) :
    (splitBudget total parts).sum = total := by
  have hlt : total % parts < parts := Nat.mod_lt total hparts
  rw [splitBudget_eq hparts, sum_append_nat, sum_replicate_nat, sum_replicate_nat,
    Nat.mul_add, Nat.mul_one, Nat.add_right_comm, ← Nat.add_mul, Nat.add_sub_of_le hlt.le,
    Nat.div_add_mod]

theorem one_le_of_mem_splitBudget {total parts share : ℕ} (hparts : 0 < parts)
    (hle : parts ≤ total) (h : share ∈ splitBudget total parts) : 1 ≤ share := by
  have hbase : 1 ≤ total / parts := (Nat.one_le_div_iff hparts).mpr hle
  rw [splitBudget_eq hparts] at h
  rcases mem_append.mp h with hlarge | hsmall
  · rw [eq_of_mem_replicate hlarge]
    exact Nat.le_add_left 1 _
  · rw [eq_of_mem_replicate hsmall]
    exact hbase

namespace Pacing

/-- A rate that can be offered; a rate per second is a `u32`. -/
def Offered : Pacing → Prop
  | .unlimited => True
  | .perSecond rate => 0 < rate ∧ rate ≤ u32Max

instance (self : Pacing) : Decidable self.Offered :=
  match self with
  | .unlimited => .isTrue trivial
  | .perSecond rate => inferInstanceAs (Decidable (0 < rate ∧ rate ≤ u32Max))

def interval : Pacing → Except String (Option ℕ)
  | .unlimited => .ok none
  | .perSecond 0 => .error "a paced run needs an offered rate above zero"
  | .perSecond rate => .ok (some (oneSec / rate))

def partition (self : Pacing) (workers : ℕ) : Except String (List Pacing) :=
  match self with
  | .unlimited => .ok (List.replicate workers .unlimited)
  | .perSecond rate => do
    let _ ← self.interval
    if rate ≥ workers then
      .ok ((splitBudget rate workers).map fun share => .perSecond (share % 2 ^ 32))
    else
      .error s!"an offered rate of {rate}/s cannot be split across {workers} workers"

def combine : Pacing → Pacing → Pacing
  | .perSecond own, .perSecond other => .perSecond (min (own + other) u32Max)
  | _, _ => .unlimited

/-- Rates that make up a rate: unlimited ones an unlimited one, shares of at least one each
second their sum. -/
def MadeOf (self : Pacing) (rates : List Pacing) : Prop :=
  match self with
  | .unlimited => ∀ rate ∈ rates, rate = .unlimited
  | .perSecond total =>
    ∃ shares : List ℕ, rates = shares.map .perSecond ∧ shares.sum = total ∧
      ∀ share ∈ shares, 1 ≤ share

theorem interval_of_offered {self : Pacing} (h : self.Offered) :
    ∃ interval, self.interval = .ok interval := by
  match self, h with
  | .unlimited, _ => exact ⟨none, rfl⟩
  | .perSecond (rate + 1), _ => exact ⟨some (oneSec / (rate + 1)), rfl⟩

theorem partition_of_offered {self : Pacing} (h : self.Offered) (workers : ℕ)
    (hwks : 0 < workers) (hle : ∀ rate, self = .perSecond rate → workers ≤ rate) :
    ∃ rates, self.partition workers = .ok rates ∧ rates.length = workers ∧ self.MadeOf rates := by
  match self with
  | .unlimited =>
    exact ⟨_, rfl, length_replicate, fun _ => eq_of_mem_replicate⟩
  | .perSecond rate =>
    obtain ⟨interval, hint⟩ := interval_of_offered h
    have hshare : ∀ share ∈ splitBudget rate workers, share % 2 ^ 32 = share := by
      intro share hshare
      have hsum := le_sum_of_mem hshare
      rw [sum_splitBudget hwks] at hsum
      exact Nat.mod_eq_of_lt (Nat.lt_of_le_of_lt (Nat.le_trans hsum h.2) (by decide))
    refine ⟨(splitBudget rate workers).map .perSecond, ?_, ?_, splitBudget rate workers, rfl,
      sum_splitBudget hwks, fun _ => one_le_of_mem_splitBudget hwks (hle rate rfl)⟩
    · rw [partition, hint]
      rw [if_pos (hle rate rfl)]
      exact congrArg Except.ok
        (map_congr_left fun share hm => congrArg Pacing.perSecond (hshare share hm))
    · rw [length_map, length_splitBudget]

theorem combine_of_madeOf {self : Pacing} (h : self.Offered) {first : Pacing}
    {rest : List Pacing} (hmade : self.MadeOf (first :: rest)) :
    rest.foldl combine first = self := by
  match self with
  | .unlimited =>
    have hfst := hmade first mem_cons_self
    subst hfst
    clear hmade
    induction rest with
    | nil => rfl
    | cons rate rest ih => exact ih
  | .perSecond total =>
    obtain ⟨shares, heq, hsum, -⟩ := hmade
    have hsmall := h.2
    match shares with
    | [] => cases heq
    | share :: shares =>
      obtain ⟨rfl, rfl⟩ := List.cons.inj heq
      rw [sum_cons] at hsum
      rw [← hsum] at hsmall ⊢
      clear heq hsum h
      induction shares generalizing share with
      | nil => rfl
      | cons next shares ih =>
        rw [sum_cons, ← Nat.add_assoc] at hsmall ⊢
        rw [map_cons, foldl_cons, combine,
          show min (share + next) u32Max = share + next by omega]
        exact ih _ hsmall

end Pacing

/-! ### Admissions per second -/

def tailBucketMin : ℕ := 500000000

/-- The admissions of a run, counted second by second. -/
structure AdmissionStats where
  origin : ℕ
  bucket : ℕ
  count : ℕ
  rps : StreamingStats

namespace AdmissionStats

def new (now : ℕ) (rng : Rng) : AdmissionStats := ⟨now, 0, 0, .new rng⟩

def nextBucket (self : AdmissionStats) : AdmissionStats :=
  { self with rps := self.rps.push self.count, count := 0, bucket := self.bucket + 1 }

def record (self : AdmissionStats) (now : ℕ) : AdmissionStats :=
  let bucket := (now - self.origin) / oneSec
  let self := Nat.repeat nextBucket (bucket - self.bucket) self
  { self with count := self.count + 1 }

def finish (self : AdmissionStats) (now : ℕ) : ObservationsStats :=
  let tail := (now - self.origin) - self.bucket * oneSec
  let rps :=
    if self.count > 0 ∧ (self.bucket = 0 ∨ tail ≥ tailBucketMin) then
      -- a quotient by zero is infinite, and the cast saturates
      self.rps.push (if tail = 0 then u32Max else min (self.count * oneSec / tail) u32Max)
    else self.rps
  rps.finalize true

end AdmissionStats

end Redsuite
