import Redsuite.Scenario
import Mathlib.Data.List.Basic
import Mathlib.Data.List.Pairwise
import Mathlib.Order.Nat

/-!
# Selecting scenarios

A model of `select` in `cli/src/catalog.rs`.
-/

namespace Redsuite.Cli

open List

/-- An entry, and whether it runs only when named. -/
structure Listed extends ScenarioEntry where
  explicitOnly : Bool

/-- The target is a name of the entry. -/
def Listed.Named (family : Family) (target : String) (entry : Listed) : Prop :=
  entry.name family = target ∨ entry.shortName = target

/-- The target begins a name of the entry. -/
def Listed.Begins (family : Family) (target : String) (entry : Listed) : Prop :=
  target.toList <+: (entry.name family).toList ∨ target.toList <+: entry.shortName.toList

instance (family : Family) (target : String) (entry : Listed) :
    Decidable (entry.Named family target) := inferInstanceAs (Decidable (_ ∨ _))

instance (family : Family) (target : String) (entry : Listed) :
    Decidable (entry.Begins family target) := inferInstanceAs (Decidable (_ ∨ _))

section Select

variable (family : Family) (entries : List Listed)

def matched (target : String) : List (Listed × ℕ) :=
  let (exact, prefixed) := (entries.zipIdx.filter (·.1.Begins family target)).partition
    (·.1.Named family target)
  if exact.isEmpty then prefixed else exact

def gather (selected indices : List ℕ) : List ℕ :=
  indices.foldl (fun selected index => if index ∈ selected then selected else selected ++ [index])
    selected

def selectLoop (selected : List ℕ) : List String → Except String (List ℕ)
  | [] => .ok selected
  | target :: targets =>
    if matched family entries target = [] then
      .error ("nothing matches `" ++ target ++ "` — `redsuite " ++ family.namePrefix ++
        " list` shows what exists")
    else selectLoop (gather selected ((matched family entries target).map (·.2))) targets

/-- The entries with these indices, each taken out when it is returned. -/
def takeEntries : List (Option Listed) → List ℕ → List Listed
  | _, [] => []
  | slots, index :: indices =>
    match slots[index]?.join with
    | some entry => entry :: takeEntries (slots.set index none) indices
    | none => takeEntries slots indices

def select (targets : List String) : Except String (List Listed) :=
  if targets = [] then .ok (entries.filter (!·.explicitOnly))
  else (selectLoop family entries [] targets).map (takeEntries (entries.map some))

/-- What a target stands for. -/
def Matches (target : String) (entry : Listed) : Prop :=
  if ∃ other ∈ entries, Listed.Named family target other then entry.Named family target
  else entry.Begins family target

instance (target : String) (entry : Listed) : Decidable (Matches family entries target entry) :=
  inferInstanceAs
    (Decidable (if (∃ other ∈ entries, Listed.Named family target other) then _ else _))

end Select

/-! ### An ordered union -/

theorem gather_eq {selected indices : List ℕ} (h : indices.Nodup) :
    gather selected indices = selected ++ indices.filter (· ∉ selected) := by
  induction indices generalizing selected with
  | nil => exact (append_nil selected).symm
  | cons i indices ih =>
    obtain ⟨hnew, hr⟩ := nodup_cons.mp h
    rw [gather, foldl_cons, ← gather, ih hr]
    split
    · rename_i hm
      rw [filter_cons_of_neg (by simpa using hm)]
    · rename_i hm
      rw [filter_cons_of_pos (by simpa using hm), append_assoc, singleton_append]
      congr 2
      refine filter_congr fun other ho => ?_
      have hne : other ≠ i := fun heq => hnew (heq ▸ ho)
      simp [hne]

/-- What the rows select, in their order. -/
structure Gathered (rows : List (List ℕ)) (selected : List ℕ) : Prop where
  mem : ∀ index, index ∈ selected ↔ ∃ row ∈ rows, index ∈ row
  nodup : selected.Nodup
  ordered : selected.Pairwise fun i j =>
    rows.findIdx (i ∈ ·) < rows.findIdx (j ∈ ·) ∨
      rows.findIdx (i ∈ ·) = rows.findIdx (j ∈ ·) ∧ i < j

theorem Gathered.row {rows : List (List ℕ)} {selected row : List ℕ} (h : Gathered rows selected)
    (hrow : row.Pairwise (· < ·)) : Gathered (rows ++ [row]) (gather selected row) := by
  have hnd : row.Nodup := hrow.imp Nat.ne_of_lt
  have hold : ∀ i ∈ selected, (rows ++ [row]).findIdx (i ∈ ·) = rows.findIdx (i ∈ ·) ∧
      rows.findIdx (i ∈ ·) < rows.length := by
    intro i hi
    have hlt : rows.findIdx (i ∈ ·) < rows.length :=
      findIdx_lt_length_of_exists (by simpa using (h.mem i).mp hi)
    exact ⟨by rw [findIdx_append, if_pos hlt], hlt⟩
  have hnew : ∀ i ∈ row.filter (· ∉ selected), (rows ++ [row]).findIdx (i ∈ ·) = rows.length := by
    intro i hi
    obtain ⟨hm, hnot⟩ := mem_filter.mp hi
    have hn : rows.findIdx (i ∈ ·) = rows.length :=
      findIdx_eq_length.mpr fun other ho => by
        simpa using fun hin => of_decide_eq_true hnot ((h.mem i).mpr ⟨other, ho, hin⟩)
    rw [findIdx_append, if_neg (by omega), findIdx_singleton, if_pos (by simpa using hm)]
    omega
  rw [gather_eq hnd]
  refine ⟨fun index => ?_, ?_, ?_⟩
  · simp only [mem_append, mem_filter, h.mem, mem_singleton, or_and_right, exists_or,
      exists_eq_left, decide_eq_true_eq]
    rw [or_and_left, and_iff_left (Classical.em _)]
  · refine nodup_append.mpr ⟨h.nodup, hnd.filter _, fun a ha b hb heq => ?_⟩
    exact of_decide_eq_true (mem_filter.mp hb).2 (heq ▸ ha)
  · refine pairwise_append.mpr ⟨?_, ?_, ?_⟩
    · refine h.ordered.imp_of_mem fun {i j} hi hj hij => ?_
      rw [(hold i hi).1, (hold j hj).1]
      exact hij
    · refine (hrow.filter _).imp_of_mem fun {i j} hi hj hij => ?_
      rw [hnew i hi, hnew j hj]
      exact .inr ⟨rfl, hij⟩
    · intro i hi j hj
      rw [(hold i hi).1, hnew j hj]
      exact .inl (hold i hi).2

/-! ### What is selected -/

variable {family : Family} {entries : List Listed} {target : String}

theorem Listed.Named.begins {e : Listed} (h : e.Named family target) :
    e.Begins family target := by
  rcases h with rfl | rfl
  · exact .inl (prefix_refl _)
  · exact .inr (prefix_refl _)

theorem mem_matched {e : Listed} {i : ℕ} : (e, i) ∈ matched family entries target ↔
    entries[i]? = some e ∧ Matches family entries target e := by
  have hexact : (∃ other ∈ entries, Listed.Named family target other) ↔
      ((entries.zipIdx.filter (·.1.Begins family target)).filter (·.1.Named family target)).isEmpty ≠
        true := by
    rw [ne_eq, List.isEmpty_iff, eq_nil_iff_forall_not_mem, not_forall_not]
    constructor
    · rintro ⟨other, hm, hnmd⟩
      obtain ⟨p, hpl⟩ := mem_iff_getElem?.mp hm
      exact ⟨(other, p), by simp [mem_zipIdx_iff_getElem?, hpl, hnmd, hnmd.begins]⟩
    · rintro ⟨⟨other, p⟩, hm⟩
      simp only [mem_filter, mem_zipIdx_iff_getElem?, decide_eq_true_eq] at hm
      exact ⟨other, mem_of_getElem? hm.1.1, hm.2⟩
  simp only [matched, partition_eq_filter_filter, Matches]
  by_cases hn : ∃ other ∈ entries, Listed.Named family target other
  · rw [if_neg (hexact.mp hn), if_pos hn]
    simp only [mem_filter, mem_zipIdx_iff_getElem?, decide_eq_true_eq, and_assoc]
    exact and_congr_right fun _ => ⟨And.right, fun hnmd => ⟨hnmd.begins, hnmd⟩⟩
  · rw [if_pos (not_not.mp (mt hexact.mpr hn)), if_neg hn]
    simp only [mem_filter, mem_zipIdx_iff_getElem?, decide_eq_true_eq, and_assoc,
      Function.comp_apply, Bool.not_eq_true', decide_eq_false_iff_not]
    refine and_congr_right fun he => and_iff_left fun hnmd => ?_
    exact hn ⟨e, mem_of_getElem? he, hnmd⟩

theorem matched_ordered (family : Family) (entries : List Listed) (target : String) :
    ((matched family entries target).map (·.2)).Pairwise (· < ·) := by
  have hall : (entries.zipIdx.map (·.2)).Pairwise (· < ·) := by
    rw [zipIdx_map_snd]
    exact pairwise_lt_range'
  refine hall.sublist (Sublist.map _ ?_)
  simp only [matched, partition_eq_filter_filter]
  split
  · exact filter_sublist.trans filter_sublist
  · exact filter_sublist.trans filter_sublist

theorem matched_eq_nil : matched family entries target = [] ↔
    ∀ e ∈ entries, ¬e.Begins family target := by
  rw [eq_nil_iff_forall_not_mem]
  constructor
  · intro hn e hm hbgs
    have hnot : ∀ other ∈ entries, ¬Matches family entries target other := by
      intro other ho hmat
      obtain ⟨i, hi⟩ := mem_iff_getElem?.mp ho
      exact hn (other, i) (mem_matched.mpr ⟨hi, hmat⟩)
    by_cases hexact : ∃ other ∈ entries, Listed.Named family target other
    · obtain ⟨other, ho, hnmd⟩ := hexact
      exact hnot other ho ((if_pos ⟨other, ho, hnmd⟩).mpr hnmd)
    · exact hnot e hm ((if_neg hexact).mpr hbgs)
  · rintro hn ⟨e, i⟩ hm
    obtain ⟨he, hmat⟩ := mem_matched.mp hm
    refine hn e (mem_of_getElem? he) ?_
    rw [Matches] at hmat
    split at hmat
    · exact hmat.begins
    · exact hmat

theorem selectLoop_spec (family : Family) (entries : List Listed) {rows : List (List ℕ)}
    {selected : List ℕ} (h : Gathered rows selected) (targets : List String) :
    (∃ error, selectLoop family entries selected targets = .error error ∧
      ∃ target ∈ targets, matched family entries target = []) ∨
    ∃ final, selectLoop family entries selected targets = .ok final ∧
      (∀ target ∈ targets, matched family entries target ≠ []) ∧
      Gathered (rows ++ targets.map fun target => (matched family entries target).map (·.2)) final := by
  induction targets generalizing rows selected with
  | nil => exact .inr ⟨selected, rfl, by simp, by simpa using h⟩
  | cons target targets ih =>
    rw [selectLoop]
    by_cases hn : matched family entries target = []
    · rw [if_pos hn]
      exact .inl ⟨_, rfl, target, mem_cons_self, hn⟩
    · rw [if_neg hn]
      rcases ih (h.row (matched_ordered family entries target)) with
        ⟨error, herr, other, ho, hem⟩ | ⟨final, hfinal, hall, hgathered⟩
      · exact .inl ⟨error, herr, other, mem_cons_of_mem _ ho, hem⟩
      · refine .inr ⟨final, hfinal, forall_mem_cons.mpr ⟨hn, hall⟩, ?_⟩
        rwa [append_assoc] at hgathered

theorem takeEntries_eq {slots : List (Option Listed)} {indices : List ℕ} (h : indices.Nodup) :
    takeEntries slots indices = indices.filterMap fun i => slots[i]?.join := by
  induction indices generalizing slots with
  | nil => rfl
  | cons i indices ih =>
    obtain ⟨hnew, hr⟩ := nodup_cons.mp h
    rw [takeEntries, filterMap_cons]
    split
    · rename_i e he
      rw [he, ih hr]
      refine congrArg _ (filterMap_congr fun other ho => ?_)
      have hne : i ≠ other := fun heq => hnew (heq ▸ ho)
      rw [getElem?_set_ne hne]
    · rename_i he
      rw [he, ih hr]

/-- **What a list of targets selects.** It is refused if and only if one of them begins no name.
Otherwise the places of the selected entries are those that some target stands for, each once, in
the order of the first target that stands for them and then of the catalog. -/
theorem select_union (family : Family) (entries : List Listed) (first : String)
    (others : List String) :
    let targets := first :: others
    let rank := fun index => targets.findIdx fun target =>
      ∃ entry ∈ entries[index]?, Matches family entries target entry
    ((∃ error, select family entries targets = .error error) ↔
      ∃ target ∈ targets, ∀ entry ∈ entries, ¬entry.Begins family target) ∧
    ∀ selected, select family entries targets = .ok selected → ∃ indices : List ℕ,
      selected = indices.filterMap (entries[·]?) ∧ indices.Nodup ∧
      (∀ index, index ∈ indices ↔
        ∃ entry ∈ entries[index]?, ∃ target ∈ targets, Matches family entries target entry) ∧
      indices.Pairwise fun i j => rank i < rank j ∨ rank i = rank j ∧ i < j := by
  intro targets rank
  have hselect : select family entries targets =
      (selectLoop family entries [] targets).map (takeEntries (entries.map some)) := rfl
  have hrow : ∀ target index, index ∈ (matched family entries target).map (·.2) ↔
      ∃ entry ∈ entries[index]?, Matches family entries target entry := by
    intro target index
    simp [mem_matched]
  have hstart : Gathered [] [] := ⟨by simp, nodup_nil, .nil⟩
  rcases selectLoop_spec family entries hstart targets with
    ⟨error, herror, target, htarget, hnone⟩ | ⟨indices, hindices, hsome, hgathered⟩
  · rw [hselect, herror]
    refine ⟨⟨fun _ => ⟨target, htarget, matched_eq_nil.mp hnone⟩, fun _ => ⟨error, rfl⟩⟩, ?_⟩
    rintro selected ⟨⟩
  · rw [hselect, hindices]
    refine ⟨⟨?_, ?_⟩, ?_⟩
    · rintro ⟨error, ⟨⟩⟩
    · rintro ⟨target, htarget, hnone⟩
      exact absurd (matched_eq_nil.mpr hnone) (hsome target htarget)
    · rintro selected ⟨⟩
      rw [nil_append] at hgathered
      refine ⟨indices, ?_, hgathered.nodup, fun index => ?_, ?_⟩
      · rw [takeEntries_eq hgathered.nodup]
        refine filterMap_congr fun index _ => ?_
        rw [getElem?_map]
        cases entries[index]? <;> rfl
      · rw [hgathered.mem]
        simp only [mem_map, exists_exists_and_eq_and, hrow]
        exact ⟨fun ⟨target, htarget, entry, hentry, hm⟩ => ⟨entry, hentry, target, htarget, hm⟩,
          fun ⟨entry, hentry, target, htarget, hm⟩ => ⟨target, htarget, entry, hentry, hm⟩⟩
      · have hrank : ∀ index, (targets.map fun target =>
            (matched family entries target).map (·.2)).findIdx (index ∈ ·) = rank index := by
          intro index
          rw [findIdx_map]
          refine congrArg (findIdx · targets) (funext fun target => ?_)
          simp only [Function.comp_apply, hrow]
        simpa only [hrank] using hgathered.ordered

end Redsuite.Cli
