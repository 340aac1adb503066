import Redsuite.Lists
import Mathlib.Order.Lattice
import Mathlib.Data.List.Basic

/-!
# Grouping by a key

Items put one after the other into the lists of a sorted map, each under its key.
-/

namespace Redsuite.Grouping

open List

variable {κ α : Type} [LinearOrder κ]

def push (key : κ) (item : α) : List (κ × List α) → List (κ × List α)
  | [] => [(key, [item])]
  | (other, items) :: groups =>
    if key < other then (key, [item]) :: (other, items) :: groups
    else if key = other then (other, items ++ [item]) :: groups
    else (other, items) :: push key item groups

def groups (keyOf : α → κ) (items : List α) : List (κ × List α) :=
  items.foldl (fun groups item => push (keyOf item) item groups) []

/-- The items by their key, in the order of the keys. -/
structure Grouped (keyOf : α → κ) (items : List α) (groups : List (κ × List α)) : Prop where
  sorted : groups.Pairwise fun earlier later => earlier.1 < later.1
  members : ∀ group ∈ groups, group.2 = items.filter (keyOf · = group.1)
  cover : ∀ item ∈ items, ∃ group ∈ groups, group.1 = keyOf item

section Push

variable {key : κ} {item : α} {groups : List (κ × List α)} {group : κ × List α}

theorem mem_push (hsrt : groups.Pairwise fun earlier later => earlier.1 < later.1)
    (h : group ∈ push key item groups) :
    (group ∈ groups ∧ group.1 ≠ key) ∨
    (∃ xs, (key, xs) ∈ groups ∧ group = (key, xs ++ [item])) ∨
    ((∀ other ∈ groups, other.1 ≠ key) ∧ group = (key, [item])) := by
  induction groups with
  | nil => exact .inr (.inr ⟨forall_mem_nil _, mem_singleton.mp h⟩)
  | cons first groups ih =>
    obtain ⟨hfst, hr⟩ := pairwise_cons.mp hsrt
    obtain ⟨other, xs⟩ := first
    rw [push] at h
    split at h
    · -- the key comes before all others
      rename_i hlt
      have hnew : ∀ group ∈ (other, xs) :: groups, group.1 ≠ key := by
        refine forall_mem_cons.mpr ⟨ne_of_gt hlt, fun group hgr => ?_⟩
        exact ne_of_gt (lt_trans hlt (hfst group hgr))
      rcases mem_cons.mp h with rfl | hm
      · exact .inr (.inr ⟨hnew, rfl⟩)
      · exact .inl ⟨hm, hnew group hm⟩
    · split at h
      · rename_i heq
        subst heq
        rcases mem_cons.mp h with rfl | hm
        · exact .inr (.inl ⟨xs, mem_cons_self, rfl⟩)
        · exact .inl ⟨mem_cons_of_mem _ hm, ne_of_gt (hfst group hm)⟩
      · rename_i hne
        rcases mem_cons.mp h with rfl | hm
        · exact .inl ⟨mem_cons_self, Ne.symm hne⟩
        · rcases ih hr hm with ⟨hold, ho⟩ | ⟨old, hold, heq⟩ | ⟨hnew, heq⟩
          · exact .inl ⟨mem_cons_of_mem _ hold, ho⟩
          · exact .inr (.inl ⟨old, mem_cons_of_mem _ hold, heq⟩)
          · exact .inr (.inr ⟨forall_mem_cons.mpr ⟨Ne.symm hne, hnew⟩, heq⟩)

theorem exists_push {other : κ} :
    (∃ group ∈ push key item groups, group.1 = other) ↔
      other = key ∨ ∃ group ∈ groups, group.1 = other := by
  induction groups with
  | nil => simp [push, eq_comm]
  | cons first groups ih =>
    obtain ⟨p, xs⟩ := first
    rw [push]
    split
    · simp only [mem_cons, exists_eq_or_imp]
      exact or_congr_left eq_comm
    · split
      · rename_i heq
        subst heq
        simp only [mem_cons, exists_eq_or_imp]
        tauto
      · simp only [mem_cons, exists_eq_or_imp, ih]
        tauto

theorem sorted_push (h : groups.Pairwise fun earlier later => earlier.1 < later.1) :
    (push key item groups).Pairwise fun earlier later => earlier.1 < later.1 := by
  induction groups with
  | nil => exact pairwise_singleton _ _
  | cons first groups ih =>
    obtain ⟨hfst, hr⟩ := pairwise_cons.mp h
    obtain ⟨other, xs⟩ := first
    rw [push]
    split
    · rename_i hlt
      refine pairwise_cons.mpr ⟨forall_mem_cons.mpr ⟨hlt, fun group hgr => ?_⟩, h⟩
      exact lt_trans hlt (hfst group hgr)
    · split
      · exact pairwise_cons.mpr ⟨hfst, hr⟩
      · rename_i hle hne
        refine pairwise_cons.mpr ⟨fun group hgr => ?_, ih hr⟩
        rcases exists_push.mp ⟨group, hgr, rfl⟩ with hk | ⟨old, hold, hk⟩
        · exact hk ▸ lt_of_le_of_ne (not_lt.mp hle) (Ne.symm hne)
        · exact hk ▸ hfst old hold

end Push

theorem Grouped.push {keyOf : α → κ} {xs : List α} {groups : List (κ × List α)}
    (h : Grouped keyOf xs groups) (item : α) :
    Grouped keyOf (xs ++ [item]) (push (keyOf item) item groups) := by
  refine ⟨sorted_push h.sorted, fun group hgr => ?_, fun other ho => ?_⟩
  · rw [filter_append, filter_singleton, Bool.cond_decide]
    rcases mem_push h.sorted hgr with ⟨hold, hne⟩ | ⟨old, hold, rfl⟩ | ⟨hnew, rfl⟩
    · rw [if_neg (Ne.symm hne), append_nil]
      exact h.members group hold
    · rw [if_pos rfl, ← h.members _ hold]
    · -- no item had the key of a new group
      have hn : xs.filter (keyOf · = keyOf item) = [] := by
        refine filter_eq_nil_iff.mpr fun other ho heq => ?_
        obtain ⟨group, hm, hk⟩ := h.cover other ho
        exact hnew group hm (hk.trans (of_decide_eq_true heq))
      rw [if_pos rfl, hn]
      rfl
  · refine exists_push.mpr ?_
    rcases mem_concat.mp ho with hold | rfl
    · exact .inr (h.cover other hold)
    · exact .inl rfl

theorem grouped_groups (keyOf : α → κ) (xs : List α) :
    Grouped keyOf xs (groups keyOf xs) := by
  have hfold : ∀ (more done : List α) (groups : List (κ × List α)), Grouped keyOf done groups →
      Grouped keyOf (done ++ more)
        (more.foldl (fun groups item => Grouping.push (keyOf item) item groups) groups) := by
    intro more
    induction more with
    | nil =>
      intro done groups h
      rwa [append_nil]
    | cons item more ih =>
      intro done groups h
      have := ih (done ++ [item]) _ (h.push item)
      rwa [append_assoc] at this
  exact hfold xs [] [] ⟨.nil, forall_mem_nil _, forall_mem_nil _⟩

theorem forall_groups_iff {keyOf : α → κ} {xs : List α} {P : List α → Prop} (hnil : P []) :
    (∀ group ∈ groups keyOf xs, P group.2) ↔ ∀ key, P (xs.filter (keyOf · = key)) := by
  have h := grouped_groups keyOf xs
  constructor
  · intro hgroups key
    by_cases hk : ∃ group ∈ groups keyOf xs, group.1 = key
    · obtain ⟨group, hgr, rfl⟩ := hk
      rw [← h.members group hgr]
      exact hgroups group hgr
    · have hn : xs.filter (keyOf · = key) = [] := by
        refine filter_eq_nil_iff.mpr fun item hitem heq => hk ?_
        obtain ⟨group, hgr, hm⟩ := h.cover item hitem
        exact ⟨group, hgr, hm.trans (of_decide_eq_true heq)⟩
      rw [hn]
      exact hnil
  · intro hkeys group hgr
    rw [h.members group hgr]
    exact hkeys group.1

theorem mem_groups (keyOf : α → κ) {xs : List α} {item : α} :
    (∃ group ∈ groups keyOf xs, item ∈ group.2) ↔ item ∈ xs := by
  have h := grouped_groups keyOf xs
  constructor
  · rintro ⟨group, hgr, hitem⟩
    rw [h.members group hgr] at hitem
    exact (mem_filter.mp hitem).1
  · intro hitem
    obtain ⟨group, hgr, hk⟩ := h.cover item hitem
    refine ⟨group, hgr, ?_⟩
    rw [h.members group hgr]
    exact mem_filter.mpr ⟨hitem, decide_eq_true hk.symm⟩

end Redsuite.Grouping
