import Redsuite.Suite

/-!
# The lanes of a suite

The entries of a suite are sorted by their order and then divided into lanes by the label of their
group.
-/

namespace Redsuite.Cli

open List

/-- The lanes are the entries by their label. -/
structure Laned (sorted : List ScenarioEntry) (lanes : List Lane) : Prop where
  nodup : (lanes.map Lane.label).Nodup
  entries : ∀ lane ∈ lanes, lane.entries = sorted.filter (·.laneLabel = lane.label)
  group : ∀ lane ∈ lanes, ∃ entry ∈ sorted, entry.laneLabel = lane.label ∧
    entry.er.group = lane.group
  cover : ∀ entry ∈ sorted, entry.laneLabel ∈ lanes.map Lane.label
variable {es : List ScenarioEntry}


section Lanes

variable {e : ScenarioEntry} {lanes : List Lane} {lane : Lane}

theorem labels_addToLanes (e : ScenarioEntry) (lanes : List Lane) :
    (addToLanes e lanes).map Lane.label =
      if e.laneLabel ∈ lanes.map Lane.label then lanes.map Lane.label
      else lanes.map Lane.label ++ [e.laneLabel] := by
  induction lanes with
  | nil => rfl
  | cons lane lanes ih =>
    rw [addToLanes]
    by_cases hlab : lane.label = e.laneLabel
    · rw [if_pos hlab, if_pos (by rw [map_cons, hlab]; exact mem_cons_self)]
      rfl
    · rw [if_neg hlab, map_cons, ih, map_cons]
      by_cases hm : e.laneLabel ∈ lanes.map Lane.label
      · rw [if_pos hm, if_pos (mem_cons_of_mem _ hm)]
      · rw [if_neg hm, if_neg fun h => (mem_cons.mp h).elim (hlab ·.symm) hm]
        rfl

theorem mem_addToLanes (hnd : (lanes.map Lane.label).Nodup) (h : lane ∈ addToLanes e lanes) :
    (lane ∈ lanes ∧ lane.label ≠ e.laneLabel) ∨
    (∃ old ∈ lanes, old.label = e.laneLabel ∧
      lane = { old with entries := old.entries ++ [e] }) ∨
    (e.laneLabel ∉ lanes.map Lane.label ∧
      lane = ⟨e.laneLabel, e.er.group, [e]⟩) := by
  induction lanes with
  | nil => exact .inr (.inr ⟨not_mem_nil, mem_singleton.mp h⟩)
  | cons first lanes ih =>
    obtain ⟨hfst, hr⟩ := nodup_cons.mp hnd
    rw [addToLanes] at h
    split at h
    · rename_i hlab
      rcases mem_cons.mp h with rfl | hm
      · exact .inr (.inl ⟨first, mem_cons_self, hlab, rfl⟩)
      · refine .inl ⟨mem_cons_of_mem _ hm, fun heq => hfst ?_⟩
        rw [hlab, ← heq]
        exact mem_map_of_mem hm
    · rename_i hlab
      rcases mem_cons.mp h with rfl | hm
      · exact .inl ⟨mem_cons_self, hlab⟩
      · rcases ih hr hm with ⟨hold, hne⟩ | ⟨old, hold, heq⟩ | ⟨hnew, heq⟩
        · exact .inl ⟨mem_cons_of_mem _ hold, hne⟩
        · exact .inr (.inl ⟨old, mem_cons_of_mem _ hold, heq⟩)
        · exact .inr (.inr ⟨fun h => (mem_cons.mp h).elim (hlab ·.symm) hnew, heq⟩)

theorem filter_label_append (es : List ScenarioEntry) (e : ScenarioEntry)
    (label : String) :
    (es ++ [e]).filter (·.laneLabel = label) =
      es.filter (·.laneLabel = label) ++ if e.laneLabel = label then [e] else [] := by
  by_cases h : e.laneLabel = label <;> simp [h]

theorem Laned.add (h : Laned es lanes) (e : ScenarioEntry) :
    Laned (es ++ [e]) (addToLanes e lanes) := by
  refine ⟨?_, fun lane hln => ?_, fun lane hln => ?_, fun other ho => ?_⟩
  · rw [labels_addToLanes]
    split
    · exact h.nodup
    · rename_i hnew
      refine nodup_append.mpr
        ⟨h.nodup, pairwise_singleton _ _, fun label hlab new hm heq => ?_⟩
      exact hnew (mem_singleton.mp hm ▸ heq ▸ hlab)
  · rw [filter_label_append]
    rcases mem_addToLanes h.nodup hln with ⟨hold, hne⟩ | ⟨old, hold, hlab, rfl⟩ | ⟨hnew, rfl⟩
    · rw [if_neg (Ne.symm hne), append_nil]
      exact h.entries lane hold
    · rw [if_pos hlab.symm]
      exact congrArg (· ++ [e]) (h.entries old hold)
    · -- no entry had the label of a new lane
      have hn : es.filter (·.laneLabel = e.laneLabel) = [] :=
        filter_eq_nil_iff.mpr fun other ho heq =>
          hnew (of_decide_eq_true heq ▸ h.cover other ho)
      rw [if_pos rfl, hn]
      rfl
  · rcases mem_addToLanes h.nodup hln with ⟨hold, hne⟩ | ⟨old, hold, hlab, rfl⟩ | ⟨hnew, rfl⟩
    · obtain ⟨other, ho, heq⟩ := h.group lane hold
      exact ⟨other, mem_append_left _ ho, heq⟩
    · obtain ⟨other, ho, heq⟩ := h.group old hold
      exact ⟨other, mem_append_left _ ho, heq⟩
    · exact ⟨e, mem_append_right _ mem_cons_self, rfl, rfl⟩
  · rw [labels_addToLanes]
    rcases mem_concat.mp ho with hold | rfl
    · have hcover := h.cover other hold
      split
      · exact hcover
      · exact mem_append_left _ hcover
    · split
      · assumption
      · exact mem_append_right _ mem_cons_self

theorem laned_lanes (es : List ScenarioEntry) : Laned (sortEntries es) (Cli.lanes es) := by
  -- the fold, from any entries that are already in lanes
  have hfold : ∀ (rest done : List ScenarioEntry) (lanes : List Lane), Laned done lanes →
      Laned (done ++ rest) (rest.foldl (fun lanes e => addToLanes e lanes) lanes) := by
    intro rest
    induction rest with
    | nil =>
      intro done lanes h
      rwa [append_nil]
    | cons e rest ih =>
      intro done lanes h
      have := ih (done ++ [e]) (addToLanes e lanes) (h.add e)
      rwa [append_assoc] at this
  exact hfold (sortEntries es) [] [] ⟨nodup_nil, nofun, nofun, nofun⟩

/-- Different groups have different labels, and none is called `fresh`. -/
structure DistinctLabels (entries : List ScenarioEntry) : Prop where
  label : ∀ left ∈ entries, ∀ right ∈ entries, ∀ group other, left.er.group = some group →
    right.er.group = some other → group.label = other.label → group = other
  fresh : ∀ entry ∈ entries, ∀ group, entry.er.group = some group → group.label ≠ "fresh"

theorem DistinctLabels.group_eq (h : DistinctLabels es)
    {left right : ScenarioEntry} (hleft : left ∈ es) (hrt : right ∈ es) :
    left.laneLabel = right.laneLabel ↔ left.er.group = right.er.group := by
  refine ⟨fun hlab => ?_, fun hgr => by rw [ScenarioEntry.laneLabel, hgr]; rfl⟩
  rw [ScenarioEntry.laneLabel, ScenarioEntry.laneLabel] at hlab
  cases hgr : left.er.group with
  | none =>
    cases ho : right.er.group with
    | none => rfl
    | some other =>
      rw [hgr, ho] at hlab
      exact absurd hlab.symm (h.fresh right hrt other ho)
  | some group =>
    cases ho : right.er.group with
    | none =>
      rw [hgr, ho] at hlab
      exact absurd hlab (h.fresh left hleft group hgr)
    | some other =>
      rw [hgr, ho] at hlab
      rw [h.label left hleft right hrt group other hgr ho hlab]

theorem Perm.addToLanes (e : ScenarioEntry) (lanes : List Lane) :
    ((Cli.addToLanes e lanes).flatMap Lane.entries).Perm
      (lanes.flatMap Lane.entries ++ [e]) := by
  induction lanes with
  | nil => exact .refl _
  | cons lane lanes ih =>
    rw [Cli.addToLanes]
    split
    · rw [flatMap_cons, flatMap_cons, append_assoc, append_assoc]
      exact perm_append_comm.append_left lane.entries
    · rw [flatMap_cons, flatMap_cons, append_assoc]
      exact ih.append_left lane.entries

theorem perm_lanes (es : List ScenarioEntry) :
    ((Cli.lanes es).flatMap Lane.entries).Perm es := by
  have hfold : ∀ (rest : List ScenarioEntry) (lanes : List Lane),
      ((rest.foldl (fun lanes e => Cli.addToLanes e lanes) lanes).flatMap Lane.entries).Perm
        (lanes.flatMap Lane.entries ++ rest) := by
    intro rest
    induction rest with
    | nil =>
      intro lanes
      rw [append_nil]
      exact .refl _
    | cons e rest ih =>
      intro lanes
      refine (ih (Cli.addToLanes e lanes)).trans ?_
      rw [← singleton_append, ← append_assoc]
      exact (Perm.addToLanes e lanes).append_right rest
  exact (hfold (sortEntries es) []).trans (perm_insertionSort _ es)

theorem perm_laneOrder (suite : Suite) :
    (suite.laneOrder.flatMap Lane.entries).Perm suite.entries := by
  rw [Suite.laneOrder]
  split
  · exact perm_lanes suite.entries
  · exact ((perm_insertionSort _ _).flatMap_right _).trans (perm_lanes suite.entries)

theorem sortEntries_spec (es : List ScenarioEntry) :
    (sortEntries es).Pairwise (·.order ≤ ·.order) ∧
    (sortEntries es).Perm es ∧
    ∀ order, (sortEntries es).filter (·.order = order) = es.filter (·.order = order) := by
  have hpm : (sortEntries es).Perm es := perm_insertionSort _ es
  refine ⟨pairwise_insertionSort _ es, hpm, fun order => ?_⟩
  -- those of one order are sorted, so that the sort keeps them as they are
  have hsrt : (es.filter (·.order = order)).Pairwise
      fun left right => left.order ≤ right.order := by
    refine pairwise_of_forall_mem_list fun left hleft right hrt => ?_
    rw [of_decide_eq_true (mem_filter.mp hleft).2,
      of_decide_eq_true (mem_filter.mp hrt).2]
  have hsub := (sublist_insertionSort hsrt filter_sublist).filter (·.order = order)
  simp only [filter_filter, Bool.and_self] at hsub
  exact (hsub.eq_of_length ((hpm.filter _).length_eq.symm)).symm

end Lanes

/-- What the lanes of a suite are. -/
structure LanesByGroup (entries : List ScenarioEntry) : Prop where
  sorted : (sortEntries entries).Pairwise (·.order ≤ ·.order)
  perm : (sortEntries entries).Perm entries
  stable : ∀ order, (sortEntries entries).filter (·.order = order) =
    entries.filter (·.order = order)
  nodup : ((lanes entries).map Lane.group).Nodup
  cover : ∀ entry ∈ entries, ∃ lane ∈ lanes entries, lane.group = entry.er.group
  entries_eq : ∀ lane ∈ lanes entries,
    lane.entries = (sortEntries entries).filter (·.er.group = lane.group)

theorem DistinctLabels.lanesByGroup (h : DistinctLabels es) : LanesByGroup es := by
  obtain ⟨hsrt, hpm, hstable⟩ := sortEntries_spec es
  have hlaned := laned_lanes es
  -- a lane's label stands for its group
  have hlab : ∀ e ∈ es, ∀ lane ∈ lanes es,
      e.laneLabel = lane.label ↔ e.er.group = lane.group := by
    intro e he lane hln
    obtain ⟨first, hfst, hfirstLabel, hfirstGroup⟩ := hlaned.group lane hln
    rw [← hfirstLabel, ← hfirstGroup]
    exact h.group_eq he (hpm.mem_iff.mp hfst)
  refine ⟨hsrt, hpm, hstable, ?_, fun e he => ?_, fun lane hln => ?_⟩
  · refine pairwise_map.mpr ((pairwise_map.mp hlaned.nodup).imp_of_mem ?_)
    intro lane other hln ho hne hgr
    obtain ⟨first, hfst, hfirstLabel, hfirstGroup⟩ := hlaned.group lane hln
    refine hne (hfirstLabel.symm.trans ?_)
    exact (hlab first (hpm.mem_iff.mp hfst) other ho).mpr (hfirstGroup.trans hgr)
  · obtain ⟨lane, hln, hlaneLabel⟩ :=
      mem_map.mp (hlaned.cover e (hpm.mem_iff.mpr he))
    exact ⟨lane, hln, ((hlab e he lane hln).mp hlaneLabel.symm).symm⟩
  · rw [hlaned.entries lane hln]
    refine filter_congr fun e he => ?_
    exact decide_eq_decide.mpr (hlab e (hpm.mem_iff.mp he) lane hln)

end Redsuite.Cli
