import Redsuite.Lists
import Mathlib.Data.List.Induction
import Mathlib.Order.Bounds.Basic
import Mathlib.Order.Nat

/-!
# The latest entry that is still open

A history is a list of entries in the order in which they were made.
-/

namespace Redsuite.Latest

open List

variable {α : Type} (opens closes : List α → α → Bool)

/-- The latest open place of a history that is read backwards. -/
def latestBack : List α → Option ℕ
  | [] => none
  | entry :: before =>
    if opens before.reverse entry then some before.length
    else if closes before.reverse entry then none
    else latestBack before

def latest (history : List α) : Option ℕ := latestBack opens closes history.reverse

/-- The entry at this place still counts. -/
structure Open (history : List α) (place : ℕ) : Prop where
  opened : ∃ entry, history[place]? = some entry ∧ opens (history.take place) entry = true
  since : ∀ later entry, place < later → history[later]? = some entry →
    closes (history.take later) entry = false

variable {opens closes} {history : List α} {e : α} {p : ℕ}

theorem latest_append : latest opens closes (history ++ [e]) =
    if opens history e then some history.length
    else if closes history e then none
    else latest opens closes history := by
  rw [latest, reverse_append, reverse_singleton, singleton_append, latestBack,
    reverse_reverse, length_reverse]
  rfl

theorem Open.lt (h : Open opens closes history p) : p < history.length := by
  obtain ⟨e, he, -⟩ := h.opened
  exact lt_of_getElem? he

theorem open_append : Open opens closes (history ++ [e]) p ↔
    p = history.length ∧ opens history e = true ∨
      Open opens closes history p ∧ closes history e = false := by
  constructor
  · rintro ⟨⟨opener, hopener, hopens⟩, hsince⟩
    rcases of_getElem?_concat hopener with ⟨rfl, rfl⟩ | ⟨-, hopener⟩
    · rw [take_left' rfl] at hopens
      exact .inl ⟨rfl, hopens⟩
    · have hlt := lt_of_getElem? hopener
      rw [take_append_of_le_length hlt.le] at hopens
      refine .inr ⟨⟨⟨opener, hopener, hopens⟩, fun later closer hlat hclo => ?_⟩, ?_⟩
      · have hbd := lt_of_getElem? hclo
        have h := hsince later closer hlat
        rw [getElem?_append_left hbd, take_append_of_le_length hbd.le] at h
        exact h hclo
      · have h := hsince history.length e hlt getElem?_concat_length
        rwa [take_left' rfl] at h
  · rintro (⟨rfl, hopens⟩ | ⟨h, hcloses⟩)
    · refine ⟨⟨e, getElem?_concat_length, ?_⟩, fun later closer hlat hclo => ?_⟩
      · rwa [take_left' rfl]
      · have hlt := lt_of_getElem? hclo
        rw [length_append, length_singleton] at hlt
        omega
    · obtain ⟨opener, hopener, hopens⟩ := h.opened
      refine ⟨⟨opener, ?_, ?_⟩, fun later closer hlat hclo => ?_⟩
      · exact getElem?_append_of hopener _
      · rwa [take_append_of_le_length h.lt.le]
      · rcases of_getElem?_concat hclo with ⟨rfl, rfl⟩ | ⟨-, hclo⟩
        · rwa [take_left' rfl]
        · rw [take_append_of_le_length (lt_of_getElem? hclo).le]
          exact h.since later closer hlat hclo

/-- **The latest open place is the greatest one**, if there is one. -/
theorem latest_spec (history : List α) :
    (∀ p, latest opens closes history = some p →
      IsGreatest {p | Open opens closes history p} p) ∧
    (latest opens closes history = none → ∀ p, ¬Open opens closes history p) := by
  induction history using List.reverseRecOn with
  | nil => exact ⟨nofun, fun _ p h => absurd h.lt (Nat.not_lt_zero _)⟩
  | append_singleton history e ih =>
    rw [latest_append]
    split
    · rename_i hopens
      refine ⟨fun p hpl => ?_, nofun⟩
      cases hpl
      refine ⟨open_append.mpr (.inl ⟨rfl, hopens⟩), fun other ho => ?_⟩
      have hlt := Open.lt (show Open opens closes (history ++ [e]) other from ho)
      rw [length_append, length_singleton] at hlt
      omega
    · rename_i hopens
      have hiff : ∀ p, Open opens closes (history ++ [e]) p ↔
          Open opens closes history p ∧ closes history e = false := by
        intro p
        rw [open_append]
        exact or_iff_right fun h => hopens h.2
      split
      · rename_i hcloses
        refine ⟨nofun, fun _ p hpl => ?_⟩
        cases hcloses.symm.trans ((hiff p).mp hpl).2
      · rename_i hcloses
        have hkp : closes history e = false := Bool.eq_false_iff.mpr hcloses
        refine ⟨fun p hpl => ⟨?_, fun other ho => ?_⟩, fun hn p hpl => ?_⟩
        · exact (hiff p).mpr ⟨(ih.1 p hpl).1, hkp⟩
        · exact (ih.1 p hpl).2 ((hiff other).mp ho).1
        · exact ih.2 hn p ((hiff p).mp hpl).1

theorem latest_eq_some_iff : latest opens closes history = some p ↔
    IsGreatest {p | Open opens closes history p} p := by
  refine ⟨(latest_spec history).1 p, fun h => ?_⟩
  cases hlatest : latest opens closes history with
  | none => exact absurd h.1 ((latest_spec history).2 hlatest p)
  | some other => rw [((latest_spec history).1 other hlatest).unique h]

theorem lt_of_latest (h : latest opens closes history = some p) : p < history.length :=
  Open.lt (latest_eq_some_iff.mp h).1

theorem bind_append {β : Type} (read : List α → ℕ → Option β)
    (hrd : ∀ p < history.length, read (history ++ [e]) p = read history p) :
    (latest opens closes (history ++ [e])).bind (read (history ++ [e])) =
      if opens history e then read (history ++ [e]) history.length
      else if closes history e then none
      else (latest opens closes history).bind (read history) := by
  rw [latest_append]
  split
  · rfl
  · split
    · rfl
    · cases hlatest : latest opens closes history with
      | none => rfl
      | some p => exact hrd p (lt_of_latest hlatest)

end Redsuite.Latest
