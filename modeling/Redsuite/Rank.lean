import Redsuite.Lists
import Mathlib.Order.Bounds.Basic

/-!
# Ranks

In a sorted list the element at a place is told by counting.
-/

namespace Redsuite.Rank

open List

variable {α : Type} [LinearOrder α]

/-- The members of a list with at least so many elements up to them. -/
def Reaching (values : List α) (count : ℕ) : Set α :=
  { value | value ∈ values ∧ count ≤ values.countP (· ≤ value) }

/-- The members of a list with at least so many elements from them on. -/
def Leaving (values : List α) (count : ℕ) : Set α :=
  { value | value ∈ values ∧ count ≤ values.countP (value ≤ ·) }

theorem reaching_perm {values others : List α} (h : values.Perm others) (count : ℕ) :
    Reaching values count = Reaching others count := by
  ext value
  simp only [Reaching, Set.mem_ofPred_eq, h.mem_iff, h.countP_eq]

theorem leaving_perm {values others : List α} (h : values.Perm others) (count : ℕ) :
    Leaving values count = Leaving others count := by
  ext value
  simp only [Leaving, Set.mem_ofPred_eq, h.mem_iff, h.countP_eq]

variable {before after : List α} {v : α}

section

variable (h : (before ++ v :: after).Pairwise (· ≤ ·))

include h

theorem sides : (∀ other ∈ before, other ≤ v) ∧ ∀ other ∈ after, v ≤ other := by
  obtain ⟨-, hr, hacross⟩ := pairwise_append.mp h
  refine ⟨fun other ho => ?_, ?_⟩
  · exact hacross other ho v mem_cons_self
  · exact (pairwise_cons.mp hr).1

/-- **The element at a place is the least one that reaches so far.** -/
theorem isLeast_reaching : IsLeast (Reaching (before ++ v :: after) (before.length + 1)) v := by
  obtain ⟨hb, haf⟩ := sides h
  refine ⟨⟨mem_append_right _ mem_cons_self, ?_⟩, ?_⟩
  · have hall : before.countP (· ≤ v) = before.length := by
      rw [countP_eq_length]
      exact fun other ho => decide_eq_true (hb other ho)
    rw [countP_append, hall, countP_cons, if_pos (decide_eq_true (le_refl v))]
    omega
  · rintro other ⟨-, hct⟩
    by_contra hlt
    rw [not_le] at hlt
    -- Nothing from the place on is as small as `other`.
    have hn : (v :: after).countP (· ≤ other) = 0 := by
      rw [countP_eq_zero]
      intro later hlat
      rw [decide_eq_true_eq, not_le]
      rcases mem_cons.mp hlat with rfl | hm
      · exact hlt
      · exact lt_of_lt_of_le hlt (haf later hm)
    have hfew : before.countP (· ≤ other) ≤ before.length := countP_le_length
    rw [countP_append, hn] at hct
    omega

theorem isGreatest_leaving : IsGreatest (Leaving (before ++ v :: after) (after.length + 1)) v := by
  obtain ⟨hb, haf⟩ := sides h
  refine ⟨⟨mem_append_right _ mem_cons_self, ?_⟩, ?_⟩
  · have hall : after.countP (v ≤ ·) = after.length := by
      rw [countP_eq_length]
      exact fun other ho => decide_eq_true (haf other ho)
    rw [countP_append, countP_cons, if_pos (decide_eq_true (le_refl v)), hall]
    omega
  · rintro other ⟨-, hct⟩
    by_contra hlt
    rw [not_le] at hlt
    have hn : (before ++ [v]).countP (other ≤ ·) = 0 := by
      rw [countP_eq_zero]
      intro earlier hearlier
      rw [decide_eq_true_eq, not_le]
      rcases mem_concat.mp hearlier with hm | rfl
      · exact lt_of_le_of_lt (hb earlier hm) hlt
      · exact hlt
    have hfew : after.countP (other ≤ ·) ≤ after.length := countP_le_length
    rw [append_cons, countP_append, hn] at hct
    omega

end

end Redsuite.Rank
