import Mathlib.Data.List.Nodup
import Mathlib.Data.List.Range
import Mathlib.Order.Nat

/-!
# Occurrences of a list in another

The offsets at which a list occurs in another, with occurrences that overlap, and how to find those
that begin in some part of it.
-/

namespace Redsuite.Occurrences

open List

variable {α : Type}

/-- The parts of a list with a length, as they follow each other. -/
def windows (size : ℕ) (items : List α) : List (List α) :=
  (List.range (items.length + 1 - size)).map fun index => (items.drop index).take size

/-- The offsets among some that follow each other at which a list occurs. -/
def among [DecidableEq α] (image items : List α) (start count : ℕ) : List ℕ :=
  (List.range' start count).filter fun offset => image <+: items.drop offset

section Among

variable {image xs : List α} {start count more offset : ℕ}

theorem offset_add_length_le (h : image <+: xs.drop offset) (hne : image ≠ []) :
    offset + image.length ≤ xs.length := by
  have hle := h.length_le
  have hpos := length_pos_iff.mpr hne
  rw [length_drop] at hle
  omega

variable [DecidableEq α]

theorem among_add : among image xs start (count + more) =
    among image xs start count ++ among image xs (start + count) more := by
  rw [among, ← range'_append_1, filter_append]
  rfl

theorem among_beyond (hne : image ≠ []) (h : xs.length ≤ start) :
    among image xs start count = [] := by
  refine filter_eq_nil_iff.mpr fun offset hoff hoccurs => ?_
  have hsr := (mem_range'_1.mp hoff).1
  have hle := offset_add_length_le (of_decide_eq_true hoccurs) hne
  have hpos := length_pos_iff.mpr hne
  omega

theorem among_of_le (hne : image ≠ []) (h : xs.length ≤ start + count) :
    among image xs start count = among image xs start (xs.length - start) := by
  obtain ⟨rest, rfl⟩ : ∃ rest, count = xs.length - start + rest :=
    ⟨count - (xs.length - start), by omega⟩
  have hr : among image xs (start + (xs.length - start)) rest = [] :=
    among_beyond hne (by omega)
  rw [among_add, hr, append_nil]

/-- **What is looked for among enough offsets is found wherever it occurs.** -/
theorem mem_among (hne : image ≠ []) (h : xs.length ≤ start + count) :
    offset ∈ among image xs start count ↔ start ≤ offset ∧ image <+: xs.drop offset := by
  rw [among, mem_filter, mem_range'_1, decide_eq_true_eq]
  refine ⟨fun h => ⟨h.1.1, h.2⟩, fun hoff => ⟨⟨hoff.1, ?_⟩, hoff.2⟩⟩
  have hle := offset_add_length_le hoff.2 hne
  have hpos := length_pos_iff.mpr hne
  omega

theorem nodup_among : (among image xs start count).Nodup :=
  List.Nodup.filter _ nodup_range'

end Among

section Windows

variable {image : List α} {start : ℕ}

theorem take_drop_slice (xs : List α) {i size : ℕ} (h : i + image.length ≤ size) :
    (((xs.drop start).take size).drop i).take image.length = image ↔
      image <+: xs.drop (start + i) := by
  rw [drop_take, take_take, drop_drop, min_eq_left (by omega), eq_comm]
  exact prefix_iff_eq_take.symm

variable [DecidableEq α]

/-- The windows of a list that are what is looked for, by where they begin. -/
def found (image : List α) (start : ℕ) (parts : List (List α)) : List ℕ :=
  parts.zipIdx.filterMap fun part => if part.1 = image then some (start + part.2) else none

theorem found_map_range (part : ℕ → List α) (count : ℕ) :
    found image start ((List.range count).map part) =
      ((List.range count).filter fun i => part i = image).map (start + ·) := by
  induction count with
  | zero => rfl
  | succ count ih =>
    rw [found] at ih ⊢
    rw [range_succ, map_append, zipIdx_append, filterMap_append, ih,
      filter_append, map_append]
    refine congrArg _ ?_
    by_cases hpart : part count = image <;> simp [hpart]

theorem among_eq_map (xs : List α) (count : ℕ) : among image xs start count =
    ((List.range count).filter fun i => image <+: xs.drop (start + i)).map
      (start + ·) := by
  rw [among, range'_eq_map_range, filter_map]
  rfl

/-- **The windows of a slice show what occurs in a part of a list**, if the slice goes on far
enough. -/
theorem found_windows (hne : image ≠ []) (xs : List α) (c : ℕ) :
    found image start ((windows image.length ((xs.drop start).take
      (min (xs.length - start) (c + image.length - 1)))).take c) =
    among image xs start c := by
  have hpos := length_pos_iff.mpr hne
  generalize hsize : min (xs.length - start) (c + image.length - 1) = size
  have hlen : ((xs.drop start).take size).length = size := by
    rw [length_take, length_drop]
    omega
  rw [windows, hlen, ← map_take, take_range, found_map_range, among_eq_map]
  generalize hct : min c (size + 1 - image.length) = count
  refine congrArg _ ?_
  obtain ⟨rest, rfl⟩ : ∃ rest, c = count + rest := ⟨c - count, by omega⟩
  rw [range_add, filter_append]
  have hr : ((List.range rest).map (count + ·)).filter
      (fun i => image <+: xs.drop (start + i)) = [] := by
    -- such windows would go on after the end of the list
    refine filter_eq_nil_iff.mpr fun i hi hoccurs => ?_
    obtain ⟨offset, hoff, rfl⟩ := mem_map.mp hi
    have hlt := mem_range.mp hoff
    have hle := offset_add_length_le (of_decide_eq_true hoccurs) hne
    omega
  rw [hr, append_nil]
  refine filter_congr fun i hi => decide_eq_decide.mpr (take_drop_slice xs ?_)
  have hlt := mem_range.mp hi
  omega

end Windows

end Redsuite.Occurrences
