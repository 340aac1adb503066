import Redsuite.Lists
import Mathlib.Data.List.NodupEquivFin

/-!
# Events that are spaced out

A list of times is spaced by a gap, up to a slack, if any two of its times are as far apart as the
number of times between them asks for.
-/

namespace Redsuite

open List

/-- The times are in order, and `n` other ones between two of them take `n` gaps, less the slack. -/
def Spaced (gap slack : ℕ) (times : List ℕ) : Prop :=
  ∀ i j first second, i < j → times[i]? = some first → times[j]? = some second →
    first ≤ second ∧ (j - i - 1) * gap + first ≤ second + slack

namespace Spaced

variable {gap slack : ℕ} {times : List ℕ}

theorem nil (gap slack : ℕ) : Spaced gap slack [] := by
  intro i j first second _ hfst
  cases hfst

theorem concat (h : Spaced gap slack times) {last : ℕ}
    (hla : ∀ i time, times[i]? = some time →
      time ≤ last ∧ (times.length - i - 1) * gap + time ≤ last + slack) :
    Spaced gap slack (times ++ [last]) := by
  intro i j first second hlt hfst hsecond
  have hj := lt_of_getElem? hsecond
  rw [length_append, length_singleton] at hj
  rw [getElem?_append_left (by omega)] at hfst
  obtain ⟨rfl, rfl⟩ | ⟨-, hsecond⟩ := of_getElem?_concat hsecond
  · exact hla i first hfst
  · exact h i j first second hlt hfst hsecond

theorem sublist (h : Spaced gap slack times) {some : List ℕ} (hsome : some.Sublist times) :
    Spaced gap slack some := by
  obtain ⟨p, hpl⟩ := sublist_iff_exists_orderEmbedding_getElem?_eq.mp hsome
  intro i j first second hlt hfst hsecond
  rw [hpl] at hfst hsecond
  obtain ⟨hle, hgap⟩ := h _ _ first second (p.strictMono hlt) hfst hsecond
  have hfar : j - i ≤ p j - p i := by
    have hshift := p.strictMono.add_le_nat (j - i) i
    rw [Nat.sub_add_cancel hlt.le] at hshift
    exact Nat.le_sub_of_add_le hshift
  refine ⟨hle, (Nat.add_le_add_right (Nat.mul_le_mul_right gap ?_) first).trans hgap⟩
  omega

theorem length_window (h : Spaced gap slack times) (hgap : 0 < gap) (start length : ℕ) :
    (times.filter fun time => start ≤ time ∧ time ≤ start + length).length ≤
      (length + slack) / gap + 2 := by
  set inside := times.filter fun time => start ≤ time ∧ time ≤ start + length with hinside
  have hin : ∀ time ∈ inside, start ≤ time ∧ time ≤ start + length := by
    intro time htime
    exact of_decide_eq_true (mem_filter.mp htime).2
  rw [← Nat.sub_le_iff_le_add, Nat.le_div_iff_mul_le hgap]
  rcases Nat.lt_or_ge inside.length 2 with hfew | hmany
  · rw [Nat.sub_eq_zero_of_le hfew.le, Nat.zero_mul]
    exact Nat.zero_le _
  · -- The first and the last time of the window have all others between them.
    obtain ⟨first, hfst⟩ : ∃ first, inside[0]? = some first :=
      ⟨_, getElem?_eq_getElem (by omega)⟩
    obtain ⟨last, hla⟩ : ∃ last, inside[inside.length - 1]? = some last :=
      ⟨_, getElem?_eq_getElem (by omega)⟩
    have hfar := (h.sublist filter_sublist 0 (inside.length - 1) first last (by omega)
      hfst hla).2
    have hsr := (hin first (mem_of_getElem? hfst)).1
    have hend := (hin last (mem_of_getElem? hla)).2
    have hct : inside.length - 1 - 0 - 1 = inside.length - 2 := by omega
    rw [hct] at hfar
    omega

end Spaced

end Redsuite
