import Mathlib.Data.List.Nodup

/-!
# Work lists

Items turn up, also more than once, and each is open until it is settled.
-/

namespace Redsuite.Worklist

open List

variable {α : Type}

def meet [DecidableEq α] (known : List α × List α) (item : α) : List α × List α :=
  if item ∈ known.1 then known else (item :: known.1, known.2 ++ [item])

/-- Everything seen is open or settled, once. -/
structure Tracked (seen opened settled : List α) : Prop where
  perm : (opened ++ settled).Perm seen
  nodup : seen.Nodup

variable {seen opened settled : List α}

theorem Tracked.nil : Tracked ([] : List α) [] [] := ⟨.refl [], nodup_nil⟩

theorem Tracked.reorder (h : Tracked seen opened settled) {other : List α}
    (ho : other.Perm opened) : Tracked seen other settled :=
  ⟨(ho.append_right settled).trans h.perm, h.nodup⟩

theorem Tracked.settle {item : α} (h : Tracked seen (item :: opened) settled) :
    Tracked seen opened (settled ++ [item]) := by
  refine ⟨.trans ?_ h.perm, h.nodup⟩
  rw [← append_assoc, cons_append]
  exact perm_append_singleton item (opened ++ settled)

theorem Tracked.not_settled {item : α} (h : Tracked seen opened settled) (hopen : item ∈ opened) :
    item ∉ settled := by
  intro hset
  have hnd := h.perm.nodup_iff.mpr h.nodup
  exact (nodup_append.mp hnd).2.2 item hopen item hset rfl

variable [DecidableEq α]

/-- **Nothing is lost**: what turned up is open once, or settled. -/
theorem Tracked.cases {item : α} (h : Tracked seen opened settled) (hseen : item ∈ seen) :
    opened.count item = 1 ∧ item ∉ settled ∨ item ∉ opened ∧ item ∈ settled := by
  have hnd := h.perm.nodup_iff.mpr h.nodup
  rcases mem_append.mp (h.perm.mem_iff.mpr hseen) with hopen | hset
  · refine .inl ⟨?_, h.not_settled hopen⟩
    exact count_eq_one_of_mem (nodup_append.mp hnd).1 hopen
  · exact .inr ⟨fun hopen => h.not_settled hopen hset, hset⟩

theorem Tracked.meet {known : List α × List α} {taken : List α}
    (h : Tracked known.1 (taken ++ known.2) settled) (item : α) :
    Tracked (Worklist.meet known item).1 (taken ++ (Worklist.meet known item).2) settled ∧
      (∀ other ∈ known.1, other ∈ (Worklist.meet known item).1) ∧
      item ∈ (Worklist.meet known item).1 := by
  rw [Worklist.meet]
  split_ifs with hitem
  · exact ⟨h, fun _ ho => ho, hitem⟩
  · refine ⟨⟨?_, nodup_cons.mpr ⟨hitem, h.nodup⟩⟩, fun _ => mem_cons_of_mem item,
      mem_cons_self⟩
    rw [← append_assoc]
    refine .trans ?_ (h.perm.cons item)
    exact (perm_append_singleton item (taken ++ known.2)).append_right settled

theorem Tracked.meets {taken : List α} (xs : List α) {known : List α × List α}
    (h : Tracked known.1 (taken ++ known.2) settled) :
    Tracked (xs.foldl Worklist.meet known).1 (taken ++ (xs.foldl Worklist.meet known).2)
        settled ∧
      (∀ other ∈ known.1, other ∈ (xs.foldl Worklist.meet known).1) ∧
      ∀ item ∈ xs, item ∈ (xs.foldl Worklist.meet known).1 := by
  induction xs generalizing known with
  | nil => exact ⟨h, fun _ ho => ho, forall_mem_nil _⟩
  | cons item xs ih =>
    obtain ⟨hmeet, hkpt, hitem⟩ := h.meet item
    obtain ⟨hmeets, hr, hitems⟩ := ih hmeet
    rw [foldl_cons]
    refine ⟨hmeets, fun other ho => hr other (hkpt other ho), fun other ho => ?_⟩
    rcases mem_cons.mp ho with rfl | hlat
    · exact hr other hitem
    · exact hitems other hlat

end Redsuite.Worklist
