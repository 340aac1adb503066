import Redsuite.Stats
import Mathlib.Data.Multiset.Defs
import Mathlib.Order.Bounds.Lattice

/-!
# The reservoir

What a `StreamingStats` keeps of the values it saw, after any tree of pushes and merges.
-/

namespace Redsuite

open List

/-! ### Drawing without replacement -/

theorem Rng.index_eq (self : Rng) {bound : ℕ} (h : bound ≠ 0) :
    ∃ i, self.index bound = some i ∧ i < bound :=
  ⟨_, if_neg h, Nat.mod_lt _ (Nat.pos_of_ne_zero h)⟩

/-- **`swap_remove` takes one element out.** -/
theorem swapRemove_perm {values : List ℕ} {i : ℕ} (h : i < values.length) :
    ∃ v rest, swapRemove values i = some (v, rest) ∧ (v :: rest).Perm values := by
  refine ⟨_, _, if_pos h, ?_⟩
  obtain ⟨before, value, after, rfl, rfl⟩ :
      ∃ before value after, values = before ++ value :: after ∧ before.length = i := by
    refine ⟨values.take i, values[i], values.drop (i + 1), ?_, ?_⟩
    · rw [cons_getElem_drop_succ, take_append_drop]
    · rw [length_take, Nat.min_eq_left h.le]
  rcases eq_nil_or_concat after with rfl | ⟨front, last, rfl⟩
  · simpa using (perm_append_singleton value before).symm
  · -- the last element comes in its place
    have hla : (before ++ value :: (front ++ [last])).getLastD 0 = last := by
      rw [← cons_append, ← append_assoc, getLastD_concat]
    have hset : (before ++ value :: (front ++ [last])).set before.length last =
        (before ++ last :: front) ++ [last] := by
      simp [set_append_right]
    have hr : (before ++ last :: front).Perm (before ++ (front ++ [last])) :=
      (perm_append_singleton last front).symm.append_left before
    rw [concat_eq_append, hla, hset, dropLast_concat]
    simpa using (hr.cons value).trans perm_middle.symm

theorem draw_perm {src : List ℕ} (rng : Rng) (hne : src ≠ []) :
    ∃ i v rest, rng.index src.length = some i ∧ swapRemove src i = some (v, rest) ∧
      (v :: rest).Perm src := by
  obtain ⟨i, hi, hlt⟩ := rng.index_eq (mt length_eq_zero_iff.mp hne)
  obtain ⟨v, rest, hremove, hpm⟩ := swapRemove_perm hlt
  exact ⟨i, v, rest, hi, hremove, hpm⟩

theorem set_subperm (values : List ℕ) (i v : ℕ) :
    (values.set i v).Subperm (values ++ [v]) := by
  rcases Nat.lt_or_ge i values.length with hlt | hge
  · have hsublist : (values.take i ++ values.drop (i + 1)).Sublist values := by
      rw [← eraseIdx_eq_take_drop_succ]
      exact eraseIdx_sublist values i
    rw [set_eq_take_append_cons_drop, if_pos hlt]
    have hpm : (values.take i ++ v :: values.drop (i + 1)).Perm
        ((values.take i ++ values.drop (i + 1)) ++ [v]) :=
      perm_middle.trans (perm_append_singleton _ _).symm
    exact hpm.subperm.trans (hsublist.append_right [v]).subperm
  · rw [set_eq_of_length_le hge]
    exact (sublist_append_left values [v]).subperm

namespace StreamingStats

theorem round_perm {src rest other merged : List ℕ} {v : ℕ}
    (h : (v :: rest).Perm src) :
    ((merged ++ [v]) ++ (rest ++ other)).Perm (merged ++ (src ++ other)) := by
  rw [append_assoc, singleton_append]
  exact (h.append_right other).append_left merged

variable {ownWeight otherWeight : ℚ}

/-- **A round of the loop**: nothing is left, or an element of one of the reservoirs is drawn. -/
theorem mergeLoop_round (hown : 0 < ownWeight) (ho : 0 < otherWeight) (room : ℕ)
    (own other merged : List ℕ) (rng : Rng) :
    (own = [] ∧ other = [] ∧ mergeLoop ownWeight otherWeight (room + 1) own other merged rng =
      some (merged, rng)) ∨
    (∃ v rest next, (v :: rest).Perm own ∧
      mergeLoop ownWeight otherWeight (room + 1) own other merged rng =
        mergeLoop ownWeight otherWeight room rest other (merged ++ [v]) next) ∨
    (∃ v rest next, (v :: rest).Perm other ∧
      mergeLoop ownWeight otherWeight (room + 1) own other merged rng =
        mergeLoop ownWeight otherWeight room own rest (merged ++ [v]) next) := by
  by_cases hem : own = [] ∧ other = []
  · exact .inl ⟨hem.1, hem.2, by rw [mergeLoop, if_pos hem]⟩
  rw [mergeLoop, if_neg hem]
  by_cases hownNil : own = []
  · obtain ⟨i, v, rest, hi, hremove, hpm⟩ := draw_perm rng fun hnil => hem ⟨hownNil, hnil⟩
    exact .inr (.inr ⟨v, rest, rng.advance, hpm, by simp [hownNil, hi, hremove]⟩)
  by_cases hotherNil : other = []
  · obtain ⟨i, v, rest, hi, hremove, hpm⟩ := draw_perm rng hownNil
    exact .inr (.inl ⟨v, rest, rng.advance, hpm, by simp [hownNil, hotherNil, hi, hremove]⟩)
  have hbd : 0 < own.length * ownWeight + other.length * otherWeight := by
    have hownLength : (0 : ℚ) < own.length := Nat.cast_pos.mpr (length_pos_iff.mpr hownNil)
    positivity
  obtain ⟨draw, hportion⟩ : ∃ draw, rng.portion (own.length * ownWeight +
      other.length * otherWeight) = some draw := ⟨_, if_pos hbd⟩
  by_cases hlt : draw < own.length * ownWeight
  · obtain ⟨i, v, rest, hi, hremove, hpm⟩ := draw_perm rng.advance hownNil
    exact .inr (.inl ⟨v, rest, rng.advance.advance, hpm,
      by simp [hownNil, hotherNil, hportion, hlt, hi, hremove]⟩)
  · obtain ⟨i, v, rest, hi, hremove, hpm⟩ := draw_perm rng.advance hotherNil
    exact .inr (.inr ⟨v, rest, rng.advance.advance, hpm,
      by simp [hownNil, hotherNil, hportion, hlt, hi, hremove]⟩)

/-- **The loop draws without replacement**, as much as there is room for, and does not panic. -/
theorem mergeLoop_spec (hown : 0 < ownWeight) (ho : 0 < otherWeight) (room : ℕ)
    (own other merged : List ℕ) (rng : Rng) :
    ∃ drawn next, mergeLoop ownWeight otherWeight room own other merged rng = some (drawn, next) ∧
      drawn.Subperm (merged ++ (own ++ other)) ∧
      drawn.length = merged.length + Min.min room (own.length + other.length) := by
  induction room generalizing own other merged rng with
  | zero =>
    refine ⟨merged, rng, rfl, (sublist_append_left _ _).subperm, ?_⟩
    rw [Nat.zero_min, Nat.add_zero]
  | succ room ih =>
    obtain ⟨rfl, rfl, hloop⟩ | ⟨v, rest, next, hpm, hloop⟩ | ⟨v, rest, next, hpm, hloop⟩ :=
      mergeLoop_round hown ho room own other merged rng
    · exact ⟨merged, rng, hloop, (sublist_append_left _ _).subperm, by simp⟩
    · obtain ⟨drawn, last, hr, hsub, hlen⟩ := ih rest other (merged ++ [v]) next
      refine ⟨drawn, last, hloop.trans hr, hsub.trans (round_perm hpm).subperm, ?_⟩
      have hct := hpm.length_eq
      rw [length_cons] at hct
      rw [hlen, length_append, length_singleton]
      omega
    · obtain ⟨drawn, last, hr, hsub, hlen⟩ := ih own rest (merged ++ [v]) next
      have hswap : (merged ++ [v] ++ (own ++ rest)).Perm (merged ++ (own ++ other)) := by
        have hback : (other ++ own).Perm (own ++ other) := perm_append_comm
        refine List.Perm.trans ?_ (hback.append_left merged)
        refine List.Perm.trans ?_ (round_perm hpm)
        exact perm_append_comm.append_left _
      refine ⟨drawn, last, hloop.trans hr, hsub.trans hswap.subperm, ?_⟩
      have hct := hpm.length_eq
      rw [length_cons] at hct
      rw [hlen, length_append, length_singleton]
      omega

/-! ### What is kept of the values -/

/-- The statistics are of these values. -/
structure Sampled (stats : StreamingStats) (values : List ℕ) : Prop where
  count : stats.count = values.length
  length : stats.reservoir.length = Min.min stats.count stats.reservoirSize
  /-- it holds values seen, none more often than it was seen -/
  sample : stats.reservoir.Subperm values
  least : IsLeast (insert u32Max { value | value ∈ values }) stats.min
  greatest : IsGreatest (insert 0 { value | value ∈ values }) stats.max

theorem sampled_new (rng : Rng) : (new rng).Sampled [] where
  count := rfl
  length := rfl
  sample := nil_subperm
  least := by simp [new, withReservoirSize]
  greatest := by simp [new, withReservoirSize]

variable {self other : StreamingStats} {values others : List ℕ}

theorem insert_append (bound : ℕ) (values others : List ℕ) :
    insert bound { value | value ∈ values ++ others } =
      insert bound { value | value ∈ values } ∪ insert bound { value | value ∈ others } := by
  ext value
  simp only [mem_append, Set.mem_insert_iff, Set.mem_ofPred_eq, Set.mem_union]
  tauto

theorem Sampled.bounds (h : self.Sampled values) {low high : ℕ}
    (hlow : IsLeast (insert u32Max { value | value ∈ others }) low)
    (hhigh : IsGreatest (insert 0 { value | value ∈ others }) high) :
    IsLeast (insert u32Max { value | value ∈ values ++ others }) (Min.min self.min low) ∧
      IsGreatest (insert 0 { value | value ∈ values ++ others }) (Max.max self.max high) := by
  rw [insert_append, insert_append]
  exact ⟨h.least.union hlow, h.greatest.union hhigh⟩

/-- **What `push` does to the reservoir.** -/
theorem push_spec (self : StreamingStats) (v : ℕ)
    (hlen : self.reservoir.length = Min.min self.count self.reservoirSize) :
    ∃ reservoir rng, self.pushOrPanic v = some { self.see v with reservoir, rng } ∧
      reservoir.Subperm (self.reservoir ++ [v]) ∧
      reservoir.length = Min.min (self.count + 1) self.reservoirSize := by
  by_cases hroom : self.reservoir.length < self.reservoirSize
  · refine ⟨self.reservoir ++ [v], self.rng, if_pos hroom, List.Subperm.refl _, ?_⟩
    rw [length_append, length_singleton]
    omega
  · obtain ⟨j, hi, hlt⟩ := self.rng.index_eq (Nat.succ_ne_zero self.count)
    have hpn : self.pushOrPanic v = (self.rng.index (self.count + 1)).bind fun j =>
        if j < self.reservoirSize then
          (assign self.reservoir j v).bind fun reservoir =>
            some { self.see v with reservoir, rng := self.rng.advance }
        else some { self.see v with rng := self.rng.advance } := if_neg hroom
    rw [hi, Option.bind_some] at hpn
    by_cases hpl : j < self.reservoirSize
    · have hassign : assign self.reservoir j v = some (self.reservoir.set j v) :=
        if_pos (by omega)
      rw [if_pos hpl, hassign] at hpn
      refine ⟨_, _, hpn, set_subperm _ _ _, ?_⟩
      rw [length_set]
      omega
    · rw [if_neg hpl] at hpn
      exact ⟨self.reservoir, _, hpn, (sublist_append_left _ _).subperm, by omega⟩

/-- **`push` sees one more value.** -/
theorem Sampled.push (h : self.Sampled values) {v : ℕ} (hval : v ≤ u32Max) :
    ∃ after, self.pushOrPanic v = some after ∧ after.Sampled (values ++ [v]) ∧
      after.reservoirSize = self.reservoirSize := by
  obtain ⟨reservoir, rng, hpn, hsample, hlen⟩ := self.push_spec v h.length
  have hlow : IsLeast (insert u32Max { other | other ∈ [v] }) v := by
    refine ⟨Set.mem_insert_of_mem _ mem_cons_self, ?_⟩
    rintro other (rfl | ho)
    · exact hval
    · exact (mem_singleton.mp ho).ge
  have hhigh : IsGreatest (insert 0 { other | other ∈ [v] }) v := by
    refine ⟨Set.mem_insert_of_mem _ mem_cons_self, ?_⟩
    rintro other (rfl | ho)
    · exact Nat.zero_le _
    · exact (mem_singleton.mp ho).le
  obtain ⟨hleast, hgrt⟩ := h.bounds hlow hhigh
  refine ⟨_, hpn, ⟨?_, hlen, ?_, hleast, hgrt⟩, rfl⟩
  · rw [length_append, ← h.count]
    rfl
  · exact hsample.trans (subperm_append_right [v] |>.mpr h.sample)

/-- **What `merge` does to the reservoir.** -/
theorem merge_spec (self other : StreamingStats) (ho : other.count ≠ 0)
    (hsize : other.reservoirSize = self.reservoirSize)
    (hlen : self.reservoir.length = Min.min self.count self.reservoirSize)
    (hotherLength : other.reservoir.length = Min.min other.count other.reservoirSize) :
    ∃ reservoir rng,
      self.mergeOrPanic other = some { self.combine other with
        reservoir, rng, count := self.count + other.count } ∧
      reservoir.Subperm (self.reservoir ++ other.reservoir) ∧
      reservoir.length = Min.min (self.count + other.count) self.reservoirSize := by
  have hpn : self.mergeOrPanic other =
      ((self.combine other).mergeReservoir other.reservoir other.count).bind fun merged =>
        some { merged with count := merged.count + other.count } := if_neg ho
  by_cases hfits : self.reservoir.length + other.reservoir.length ≤ self.reservoirSize
  · have hreservoir : (self.combine other).mergeReservoir other.reservoir other.count =
        some { self.combine other with reservoir := self.reservoir ++ other.reservoir } :=
      if_pos hfits
    rw [hreservoir] at hpn
    refine ⟨_, _, hpn, List.Subperm.refl _, ?_⟩
    rw [length_append]
    omega
  · -- Both reservoirs hold something, so their values have a weight.
    have hown : 0 < self.reservoir.length ∧ 0 < self.count := by omega
    have hthat : 0 < other.reservoir.length ∧ 0 < other.count := by omega
    have hownWeight : (0 : ℚ) < self.count / self.reservoir.length :=
      div_pos (Nat.cast_pos.mpr hown.2) (Nat.cast_pos.mpr hown.1)
    have hotherWeight : (0 : ℚ) < other.count / other.reservoir.length :=
      div_pos (Nat.cast_pos.mpr hthat.2) (Nat.cast_pos.mpr hthat.1)
    obtain ⟨drawn, next, hloop, hsub, hdrawn⟩ := mergeLoop_spec hownWeight hotherWeight
      self.reservoirSize self.reservoir other.reservoir [] self.rng
    have hreservoir : (self.combine other).mergeReservoir other.reservoir other.count =
        (mergeLoop (self.count / self.reservoir.length) (other.count / other.reservoir.length)
          self.reservoirSize self.reservoir other.reservoir [] self.rng).bind fun merged =>
            some { self.combine other with reservoir := merged.1, rng := merged.2 } :=
      if_neg hfits
    rw [hreservoir, hloop] at hpn
    refine ⟨_, _, hpn, hsub, ?_⟩
    rw [hdrawn, length_nil]
    omega

/-- **`merge` sees the values of both.** -/
theorem Sampled.merge (h : self.Sampled values) (ho : other.Sampled others)
    (hsize : other.reservoirSize = self.reservoirSize) :
    ∃ after, self.mergeOrPanic other = some after ∧ after.Sampled (values ++ others) ∧
      after.reservoirSize = self.reservoirSize := by
  by_cases hzero : other.count = 0
  · have hos : others = [] := length_eq_zero_iff.mp (ho.count.symm.trans hzero)
    rw [hos, append_nil]
    exact ⟨self, if_pos hzero, h, rfl⟩
  · obtain ⟨reservoir, rng, hpn, hsample, hlen⟩ :=
      self.merge_spec other hzero hsize h.length ho.length
    obtain ⟨hleast, hgrt⟩ := h.bounds ho.least ho.greatest
    refine ⟨_, hpn, ⟨?_, hlen, ?_, hleast, hgrt⟩, rfl⟩
    · rw [length_append, ← h.count, ← ho.count]
    · exact hsample.trans (h.sample.append ho.sample)

/-! ### Trees of pushes and merges -/

/-- How a value came about. Each part has a generator of its own. -/
inductive Build : Type where
  /-- `new` -/
  | new (rng : Rng)
  /-- `push` -/
  | push (stats : Build) (value : UInt32)
  /-- `merge` -/
  | merge (stats other : Build)

namespace Build

/-- The value, unless something panics. -/
def run : Build → Option StreamingStats
  | .new rng => some (.new rng)
  | .push stats value => do (← stats.run).pushOrPanic value.toNat
  | .merge stats other => do (← stats.run).mergeOrPanic (← other.run)

/-- The values that were pushed, in any part. -/
def pushed : Build → List ℕ
  | .new _ => []
  | .push stats value => stats.pushed ++ [value.toNat]
  | .merge stats other => stats.pushed ++ other.pushed

theorem toNat_le_u32Max (v : UInt32) : v.toNat ≤ u32Max :=
  Nat.le_of_lt_succ v.toNat_lt

theorem run_sampled (build : Build) : ∃ stats, build.run = some stats ∧
    stats.Sampled build.pushed ∧ stats.reservoirSize = defaultReservoirSize := by
  induction build with
  | new rng => exact ⟨_, rfl, sampled_new rng, rfl⟩
  | push stats v ih =>
    obtain ⟨own, hrun, hsampled, hsize⟩ := ih
    obtain ⟨after, hpush, hpushed, hkpt⟩ := hsampled.push (toNat_le_u32Max v)
    refine ⟨after, ?_, hpushed, hkpt.trans hsize⟩
    rw [run, hrun]
    exact hpush
  | merge stats other ih ihOther =>
    obtain ⟨own, hrun, hsampled, hsize⟩ := ih
    obtain ⟨that, hrunOther, hsampledOther, hsizeOther⟩ := ihOther
    obtain ⟨after, hmerge, hmerged, hkpt⟩ :=
      hsampled.merge hsampledOther (hsizeOther.trans hsize.symm)
    refine ⟨after, ?_, hmerged, hkpt.trans hsize⟩
    rw [run, hrun, hrunOther]
    exact hmerge

theorem pushed_le (build : Build) : ∀ v ∈ build.pushed, v ≤ u32Max := by
  induction build with
  | new rng => exact fun v hval => absurd hval not_mem_nil
  | push stats last ih =>
    intro v hval
    rcases mem_concat.mp hval with hold | rfl
    · exact ih v hold
    · exact toNat_le_u32Max last
  | merge stats other ih ihOther =>
    intro v hval
    rcases mem_append.mp hval with hleft | hrt
    · exact ih v hleft
    · exact ihOther v hrt

/-- **What any tree of pushes and merges comes to.** Whatever is drawn, nothing panics: no random
number is asked for in an empty range, and no index is out of bounds. The reservoir is as full as it
can be and holds pushed values, and the count, the least and the greatest are those of all pushed
values. -/
theorem reservoir_kept (build : Build) :
    ∃ stats, build.run = some stats ∧
      stats.reservoir.length = Min.min stats.count stats.reservoirSize ∧
      (stats.reservoir : Multiset ℕ) ≤ build.pushed ∧
      stats.count = build.pushed.length ∧
      (build.pushed ≠ [] → IsLeast { value | value ∈ build.pushed } stats.min ∧
        IsGreatest { value | value ∈ build.pushed } stats.max) := by
  obtain ⟨stats, hrun, hsampled, -⟩ := build.run_sampled
  refine ⟨stats, hrun, hsampled.length, hsampled.sample, hsampled.count, fun hne => ⟨?_, ?_⟩⟩
  · obtain ⟨hmem, hlower⟩ := hsampled.least
    refine ⟨?_, fun value hvalue => hlower (Set.mem_insert_of_mem _ hvalue)⟩
    rcases hmem with hmax | hmem
    · -- All values are the greatest number there is.
      obtain ⟨value, hvalue⟩ := exists_mem_of_ne_nil _ hne
      have hle := hlower (Set.mem_insert_of_mem _ hvalue)
      rw [hmax] at hle ⊢
      rw [Nat.le_antisymm hle (build.pushed_le value hvalue)]
      exact hvalue
    · exact hmem
  · obtain ⟨hmem, hupper⟩ := hsampled.greatest
    refine ⟨?_, fun value hvalue => hupper (Set.mem_insert_of_mem _ hvalue)⟩
    rcases hmem with hzero | hmem
    · obtain ⟨value, hvalue⟩ := exists_mem_of_ne_nil _ hne
      have hle := hupper (Set.mem_insert_of_mem _ hvalue)
      rw [hzero] at hle ⊢
      rw [Nat.le_antisymm (Nat.zero_le value) hle]
      exact hvalue
    · exact hmem

end Build

end StreamingStats

end Redsuite
