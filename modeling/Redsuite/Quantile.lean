import Redsuite.Rank
import Redsuite.Stats

/-!
# The 95th percentile

`StreamingStats::finalize` sorts its sample and reads the 95th percentile off by an index.
-/

namespace Redsuite

open List

open Rank

/-- Nineteen in twenty are at most this. -/
def upTo95 (samples : List ℕ) : Set ℕ :=
  { value | value ∈ samples ∧ 19 * samples.length ≤ 20 * samples.countP (· ≤ value) }

/-- Nineteen in twenty are at least this. -/
def from95 (samples : List ℕ) : Set ℕ :=
  { value | value ∈ samples ∧ 19 * samples.length ≤ 20 * samples.countP (value ≤ ·) }

def q95Count (count : ℕ) : ℕ := (19 * count + 19) / 20

theorem le_q95Count (count part : ℕ) : q95Count count ≤ part ↔ 19 * count ≤ 20 * part := by
  rw [q95Count]
  omega

theorem upTo95_eq (samples : List ℕ) :
    upTo95 samples = Reaching samples (q95Count samples.length) := by
  ext value
  simp only [upTo95, Reaching, le_q95Count]

theorem from95_eq (samples : List ℕ) :
    from95 samples = Leaving samples (q95Count samples.length) := by
  ext value
  simp only [from95, Leaving, le_q95Count]

theorem wrapI32_of_small {v : ℕ} (h : v < 2 ^ 31) : wrapI32 v = v := by
  exact Int.bmod_eq_of_le (by omega) (by omega)

namespace StreamingStats

variable (self : StreamingStats)

def sorted : List ℕ := self.reservoir.mergeSort (· ≤ ·)

def ranked (place : ℕ) : ℕ := self.sorted.getD place 0

theorem sorted_perm : self.sorted.Perm self.reservoir := mergeSort_perm _ _

theorem sorted_pairwise : self.sorted.Pairwise (· ≤ ·) := by
  have hsrt : self.sorted.Pairwise fun first second => decide (first ≤ second) = true :=
    pairwise_mergeSort (by simpa using fun _ _ _ => Nat.le_trans)
      (by simpa using Nat.le_total) self.reservoir
  exact hsrt.imp of_decide_eq_true

variable {self}

theorem ranked_split {p : ℕ} (h : p < self.reservoir.length) :
    ∃ before after, self.sorted = before ++ self.ranked p :: after ∧ before.length = p ∧
      after.length + 1 = self.reservoir.length - p := by
  have hlen := self.sorted_perm.length_eq
  have hlt : p < self.sorted.length := hlen ▸ h
  refine ⟨self.sorted.take p, self.sorted.drop (p + 1), ?_, ?_, ?_⟩
  · rw [ranked, getD_eq_getElem?_getD, getElem?_eq_getElem hlt, Option.getD_some,
      cons_getElem_drop_succ, take_append_drop]
  · rw [length_take, Nat.min_eq_left hlt.le]
  · rw [length_drop]
    omega

theorem ranked_mem {p : ℕ} (h : p < self.reservoir.length) :
    self.ranked p ∈ self.reservoir := by
  obtain ⟨before, after, hsp, -⟩ := ranked_split h
  rw [← self.sorted_perm.mem_iff, hsp]
  exact mem_append_right _ mem_cons_self

theorem ranked_bounds (self : StreamingStats) {p : ℕ} (h : p < self.reservoir.length) :
    IsLeast (Reaching self.reservoir (p + 1)) (self.ranked p) ∧
      IsGreatest (Leaving self.reservoir (self.reservoir.length - p)) (self.ranked p) := by
  obtain ⟨before, after, hsp, hb, haf⟩ := ranked_split h
  have hsrt := self.sorted_pairwise
  rw [← reaching_perm self.sorted_perm, ← leaving_perm self.sorted_perm, ← haf]
  rw [hsp] at hsrt ⊢
  rw [← hb] at hsrt ⊢
  exact ⟨isLeast_reaching hsrt, isGreatest_leaving hsrt⟩

theorem quantile95_eq (hct : self.count ≠ 0) (hne : self.reservoir ≠ [])
    (hsmall : ∀ v ∈ self.reservoir, v < 2 ^ 31) (invertedq : Bool) :
    (self.finalize invertedq).quantile95 =
      self.ranked (if invertedq then self.reservoir.length / 20 - 1
        else q95Count self.reservoir.length - 1) := by
  have hpos : 0 < self.reservoir.length := length_pos_iff.mpr hne
  have hlen : self.sorted.length = self.reservoir.length := self.sorted_perm.length_eq
  have hsrt : self.sorted ≠ [] := length_pos_iff.mp (hlen ▸ hpos)
  have hreported : ∀ p < self.reservoir.length,
      wrapI32 (self.sorted.getD p 0) = self.ranked p :=
    fun p hpl => wrapI32_of_small (hsmall _ (ranked_mem hpl))
  have hpl : (if invertedq then self.reservoir.length - (q95Count self.reservoir.length + 1)
      else Min.min (q95Count self.reservoir.length - 1) (self.reservoir.length - 1)) =
      if invertedq then self.reservoir.length / 20 - 1 else q95Count self.reservoir.length - 1 := by
    rw [q95Count]
    split <;> omega
  rw [finalize, if_neg hct]
  change (if self.sorted = [] then _ else wrapI32 (self.sorted.getD
    (if invertedq then self.sorted.length - (q95Count self.sorted.length + 1)
      else Min.min (q95Count self.sorted.length - 1) (self.sorted.length - 1)) 0)) = _
  rw [if_neg hsrt, hlen, hpl]
  refine hreported _ ?_
  rw [q95Count]
  split <;> omega

/-- **The percentile from below is right, and the one from above is its mirror image exactly if the
samples at two neighbouring places are equal.** With fewer than twenty samples both are the least
one. -/
theorem quantile95_ranks (self : StreamingStats) (hcount : self.count ≠ 0)
    (hne : self.reservoir ≠ []) (hsmall : ∀ value ∈ self.reservoir, value < 2 ^ 31) :
    (∃ value : ℕ, (self.finalize false).quantile95 = value ∧
      IsLeast (upTo95 self.reservoir) value) ∧
    ((∃ value : ℕ, (self.finalize true).quantile95 = value ∧
        IsGreatest (from95 self.reservoir) value) ↔
      self.ranked (self.reservoir.length / 20 - 1) = self.ranked (self.reservoir.length / 20)) := by
  have hpos : 0 < self.reservoir.length := length_pos_iff.mpr hne
  refine ⟨?_, ?_⟩
  · refine ⟨_, quantile95_eq hcount hne hsmall false, ?_⟩
    have hplace : q95Count self.reservoir.length - 1 + 1 = q95Count self.reservoir.length := by
      rw [q95Count]
      omega
    have hlt : q95Count self.reservoir.length - 1 < self.reservoir.length := by
      rw [q95Count]
      omega
    have hranked := (self.ranked_bounds hlt).1
    rw [hplace, ← upTo95_eq] at hranked
    exact hranked
  · -- The mirror image is at place `length / 20`.
    have hlt : self.reservoir.length / 20 < self.reservoir.length := by omega
    have hmirror := (self.ranked_bounds hlt).2
    have hplace : self.reservoir.length - self.reservoir.length / 20 =
        q95Count self.reservoir.length := by
      rw [q95Count]
      omega
    rw [hplace, ← from95_eq] at hmirror
    have hreported := quantile95_eq hcount hne hsmall true
    rw [if_pos rfl] at hreported
    rw [hreported]
    constructor
    · rintro ⟨value, hvalue, hgreatest⟩
      rw [Int.natCast_inj.mp hvalue]
      exact hgreatest.unique hmirror
    · intro hequal
      refine ⟨_, rfl, ?_⟩
      rw [hequal]
      exact hmirror

def ramp (count : ℕ) : StreamingStats := (List.range' 1 count).foldl push (new ⟨id, 0⟩)

theorem quantile95_ranks_ramp :
    (∃ value : ℕ, ((ramp 19).finalize false).quantile95 = value ∧
      IsLeast (upTo95 (ramp 19).reservoir) value) ∧
    ∃ value : ℕ, ((ramp 19).finalize true).quantile95 = value ∧
      IsGreatest (from95 (ramp 19).reservoir) value := by
  obtain ⟨hbelow, habove⟩ := quantile95_ranks (ramp 19) (by decide +kernel) (by decide +kernel)
    (by decide +kernel)
  exact ⟨hbelow, habove.mpr rfl⟩

/-- Of twenty samples nineteen are at least 2, but the least one is reported. -/
theorem quantile95_from_above_too_low :
    (ramp 20).reservoir = List.range' 1 20 ∧ ((ramp 20).finalize true).quantile95 = 1 ∧
      IsGreatest (from95 (ramp 20).reservoir) 2 := by
  have hreservoir : (ramp 20).reservoir = List.range' 1 20 := by decide +kernel
  have hsorted : (ramp 20).sorted = List.range' 1 20 := by
    exact mergeSort_of_pairwise (by decide +kernel)
  refine ⟨hreservoir, ?_, ?_⟩
  · rw [quantile95_eq (by decide +kernel) (by decide +kernel) (by decide +kernel) true, ranked,
      hsorted, hreservoir]
    decide
  · refine ⟨⟨by decide, by decide⟩, ?_⟩
    rintro value ⟨hmem, hcount⟩
    have hall : ∀ value ∈ List.range' 1 20,
        19 * 20 ≤ 20 * (List.range' 1 20).countP (value ≤ ·) → value ≤ 2 := by decide
    exact hall value hmem hcount

end StreamingStats

end Redsuite
