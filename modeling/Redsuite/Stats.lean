import Redsuite.Lists
import Mathlib.Data.Rat.Floor

/-!
# Streaming statistics

A model of `core/src/stats.rs`.
-/

namespace Redsuite

/-! ### Random draws -/

/-- A random generator: the numbers it draws, and how many it drew already. -/
structure Rng where
  draws : ℕ → ℕ
  cursor : ℕ

namespace Rng

/-- The next draw. -/
def advance (self : Rng) : Rng := { self with cursor := self.cursor + 1 }

/-- `gen_range(0..bound)`, which panics on an empty range. -/
def index (self : Rng) (bound : ℕ) : Option ℕ :=
  if bound = 0 then none else some (self.draws self.cursor % bound)

/-- `gen_range(0.0..bound)`, which panics on an empty range. -/
def portion (self : Rng) (bound : ℚ) : Option ℚ :=
  if 0 < bound then some (bound * ((self.draws self.cursor % 2 ^ 53 : ℕ) : ℚ) / 2 ^ 53) else none

end Rng

/-! ### Numbers of fixed width -/

def u32Max : ℕ := 2 ^ 32 - 1

/-- A number brought into the range of an `i32`: `value as i32` of a `u32`, and the sum of two
`i32`s. -/
def wrapI32 (value : ℤ) : ℤ := value.bmod (2 ^ 32)

/-! ### The statistics -/

/-- `StreamingStats`. -/
structure StreamingStats where
  count : ℕ
  mean : Float
  m2 : Float
  min : ℕ
  max : ℕ
  reservoir : List ℕ
  reservoirSize : ℕ
  rng : Rng

/-- `ObservationsStats`. -/
structure ObservationsStats where
  count : ℕ
  median : ℤ
  min : ℕ
  max : ℕ
  avg : ℤ
  quantile95 : ℤ
  stddev : ℕ
  deriving DecidableEq

namespace ObservationsStats

def default : ObservationsStats := ⟨0, 0, 0, 0, 0, 0, 0⟩

/-- `add_rates`; the sums wrap around, as they do in a release build. -/
def addRates (self other : ObservationsStats) : ObservationsStats where
  count := self.count + other.count
  median := wrapI32 (self.median + other.median)
  min := (self.min + other.min) % 2 ^ 32
  max := (self.max + other.max) % 2 ^ 32
  avg := wrapI32 (self.avg + other.avg)
  quantile95 := wrapI32 (self.quantile95 + other.quantile95)
  stddev := (self.stddev + other.stddev) % 2 ^ 32

end ObservationsStats

/-- `Vec::swap_remove`: the element, and the rest; it panics where there is none. -/
def swapRemove (values : List ℕ) (index : ℕ) : Option (ℕ × List ℕ) :=
  if index < values.length then
    some (values.getD index 0, (values.set index (values.getLastD 0)).dropLast)
  else none

/-- `values[index] = value`, which panics where there is no such index. -/
def assign (values : List ℕ) (index value : ℕ) : Option (List ℕ) :=
  if index < values.length then some (values.set index value) else none

namespace StreamingStats

def defaultReservoirSize : ℕ := 10000

def withReservoirSize (reservoirSize : ℕ) (rng : Rng) : StreamingStats :=
  ⟨0, 0, 0, u32Max, 0, [], reservoirSize, rng⟩

def new (rng : Rng) : StreamingStats := withReservoirSize defaultReservoirSize rng

/-- The part of `push` before the reservoir. -/
def see (self : StreamingStats) (value : ℕ) : StreamingStats :=
  let count := self.count + 1
  let delta := Float.ofNat value - self.mean
  let mean := self.mean + delta / Float.ofNat count
  { self with
    count, mean
    m2 := self.m2 + delta * (Float.ofNat value - mean)
    min := Min.min self.min value
    max := Max.max self.max value }

/-- `push`: a value replaces one of a full sample, or none. -/
def pushOrPanic (self : StreamingStats) (value : ℕ) : Option StreamingStats :=
  let self := self.see value
  if self.reservoir.length < self.reservoirSize then
    some { self with reservoir := self.reservoir ++ [value] }
  else do
    let j ← self.rng.index self.count
    let rng := self.rng.advance
    if j < self.reservoirSize then
      let reservoir ← assign self.reservoir j value
      some { self with reservoir, rng }
    else some { self with rng }

/-- `push` for the callers: in what `new` and `push` have made there is no panic. -/
def push (self : StreamingStats) (value : ℕ) : StreamingStats :=
  (self.pushOrPanic value).getD (self.see value)

/-- The loop of `merge_reservoir`; it ends when the sample has its size or nothing is left. -/
def mergeLoop (ownWeight otherWeight : ℚ) :
    ℕ → List ℕ → List ℕ → List ℕ → Rng → Option (List ℕ × Rng)
  | 0, _, _, merged, rng => some (merged, rng)
  | room + 1, own, other, merged, rng =>
    if own = [] ∧ other = [] then some (merged, rng)
    else do
      -- a number is drawn only where there is a choice
      let (fromOwn, rng) ←
        if own = [] then some (false, rng)
        else if other = [] then some (true, rng)
        else do
          let ownRemaining := own.length * ownWeight
          let otherRemaining := other.length * otherWeight
          let draw ← rng.portion (ownRemaining + otherRemaining)
          some (decide (draw < ownRemaining), rng.advance)
      if fromOwn then
        let (value, own) ← swapRemove own (← rng.index own.length)
        mergeLoop ownWeight otherWeight room own other (merged ++ [value]) rng.advance
      else
        let (value, other) ← swapRemove other (← rng.index other.length)
        mergeLoop ownWeight otherWeight room own other (merged ++ [value]) rng.advance

/-- `merge_reservoir`. -/
def mergeReservoir (self : StreamingStats) (other : List ℕ) (otherCount : ℕ) :
    Option StreamingStats :=
  if self.reservoir.length + other.length ≤ self.reservoirSize then
    some { self with reservoir := self.reservoir ++ other }
  else do
    let (reservoir, rng) ← mergeLoop (self.count / self.reservoir.length)
      (otherCount / other.length) self.reservoirSize self.reservoir other [] self.rng
    some { self with reservoir, rng }

/-- The part of `merge` before the reservoirs. -/
def combine (self other : StreamingStats) : StreamingStats :=
  let ownWeight := Float.ofNat self.count
  let otherWeight := Float.ofNat other.count
  let combinedWeight := ownWeight + otherWeight
  let delta := other.mean - self.mean
  { self with
    mean := self.mean + delta * otherWeight / combinedWeight
    m2 := self.m2 + (other.m2 + delta * delta * ownWeight * otherWeight / combinedWeight)
    min := Min.min self.min other.min
    max := Max.max self.max other.max }

/-- `merge`. -/
def mergeOrPanic (self other : StreamingStats) : Option StreamingStats :=
  if other.count = 0 then some self
  else do
    let merged ← (self.combine other).mergeReservoir other.reservoir other.count
    some { merged with count := merged.count + other.count }

/-- `merge` for the callers. -/
def merge (self other : StreamingStats) : StreamingStats := (self.mergeOrPanic other).getD self

/-- `finalize`. -/
def finalize (self : StreamingStats) (invertedq : Bool) : ObservationsStats :=
  if self.count = 0 then .default
  else
    let reservoir := self.reservoir.mergeSort (· ≤ ·)
    let avg := self.mean.toInt32.toInt
    let median := if reservoir = [] then avg else wrapI32 (reservoir.getD (reservoir.length / 2) 0)
    let q95Count := (19 * reservoir.length + 19) / 20
    let p95Idx :=
      if invertedq then reservoir.length - (q95Count + 1)
      else Min.min (q95Count - 1) (reservoir.length - 1)
    let quantile95 := if reservoir = [] then avg else wrapI32 (reservoir.getD p95Idx 0)
    let variance := if self.count > 1 then self.m2 / Float.ofNat self.count else 0
    ⟨self.count, median, self.min, self.max, avg, quantile95, variance.sqrt.toUInt32.toNat⟩

/-! ### Counting -/

@[simp]
theorem count_push (self : StreamingStats) (v : ℕ) : (self.push v).count = self.count + 1 := by
  have hsome : ∀ after, self.pushOrPanic v = some after → after.count = self.count + 1 := by
    intro after h
    simp only [pushOrPanic] at h
    split at h
    · cases h
      rfl
    · obtain ⟨j, -, h⟩ := Option.bind_eq_some_iff.mp h
      split at h
      · obtain ⟨reservoir, -, h⟩ := Option.bind_eq_some_iff.mp h
        cases h
        rfl
      · cases h
        rfl
  rw [push]
  cases h : self.pushOrPanic v with
  | none => rfl
  | some after => exact hsome after h

end StreamingStats

end Redsuite
