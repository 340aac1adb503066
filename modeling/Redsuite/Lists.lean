import Mathlib.Init

/-!
# Lists that grow at their end

Logs, queues and tables of tasks are lists to which one item is appended, or of which one item is
replaced.
-/

namespace Redsuite

open List

variable {α : Type*} {l : List α} {a b : α} {i j : Nat}

theorem mem_concat : a ∈ l ++ [b] ↔ a ∈ l ∨ a = b := by
  rw [mem_append, mem_singleton]

theorem lt_of_getElem? (h : l[i]? = some a) : i < l.length :=
  (List.getElem?_eq_some_iff.mp h).1

theorem getElem?_append_of (h : l[i]? = some a) (more : List α) : (l ++ more)[i]? = some a :=
  (getElem?_append_left (lt_of_getElem? h)).trans h

theorem getElem?_concat_ne (b : α) (h : i ≠ l.length) : (l ++ [b])[i]? = l[i]? := by
  rcases Nat.lt_or_gt_of_ne h with hlt | hgt
  · exact getElem?_append_left hlt
  · have hlen : (l ++ [b]).length ≤ i := by
      rw [length_append, length_singleton]
      exact hgt
    rw [getElem?_eq_none hlen, getElem?_eq_none (Nat.le_of_lt hgt)]

theorem of_getElem?_concat (h : (l ++ [b])[i]? = some a) :
    i = l.length ∧ a = b ∨ i ≠ l.length ∧ l[i]? = some a := by
  by_cases hi : i = l.length
  · subst hi
    rw [getElem?_concat_length] at h
    exact .inl ⟨rfl, (Option.some.inj h).symm⟩
  · rw [getElem?_concat_ne b hi] at h
    exact .inr ⟨hi, h⟩

theorem getElem?_set_of (h : l[i]? = some a) (b : α) : (l.set i b)[i]? = some b :=
  getElem?_set_self (lt_of_getElem? h)

theorem of_getElem?_set (h : (l.set i b)[j]? = some a) :
    j = i ∧ a = b ∨ j ≠ i ∧ l[j]? = some a := by
  by_cases hi : j = i
  · subst hi
    have hlt : j < l.length := length_set ▸ lt_of_getElem? h
    rw [getElem?_set_self hlt] at h
    exact .inl ⟨rfl, (Option.some.inj h).symm⟩
  · rw [getElem?_set_ne (Ne.symm hi)] at h
    exact .inr ⟨hi, h⟩

theorem exists_mem_set {p : α → Prop} (ha : l[i]? = some a) (hp : p a → p b)
    (h : ∃ x ∈ l, p x) : ∃ x ∈ l.set i b, p x := by
  obtain ⟨x, hm, hx⟩ := h
  obtain ⟨j, hj⟩ := mem_iff_getElem?.mp hm
  by_cases hi : i = j
  · subst hi
    cases hj.symm.trans ha
    exact ⟨b, mem_set (lt_of_getElem? hj) _, hp hx⟩
  · exact ⟨x, mem_iff_getElem?.mpr ⟨j, by rw [getElem?_set_ne hi, hj]⟩, hx⟩

theorem filterMap_set_perm {β : Type*} (f : α → Option β) (h : l[i]? = some a) (b : α) :
    (f a).toList ++ (l.set i b).filterMap f ~ (f b).toList ++ l.filterMap f := by
  have hcons : ∀ x (l : List α), (x :: l).filterMap f = (f x).toList ++ l.filterMap f := by
    intro x l
    rw [filterMap_cons]
    cases f x <;> rfl
  induction l generalizing i with
  | nil => cases h
  | cons x l ih =>
    cases i with
    | zero =>
      cases h
      rw [set_cons_zero, hcons, hcons]
      exact perm_append_comm_assoc _ _ _
    | succ i =>
      rw [set_cons_succ, hcons, hcons]
      exact (perm_append_comm_assoc _ _ _).trans
        (((ih h).append_left _).trans (perm_append_comm_assoc _ _ _))

theorem map_getElem?_modify {β : Type*} {f : α → α} {read : α → β} {v : β}
    (h : l[j]?.map read = some v) (hf : ∀ a, read a = v → read (f a) = v) :
    (l.modify i f)[j]?.map read = some v := by
  obtain ⟨a, ha, hrd⟩ := Option.map_eq_some_iff.mp h
  rw [List.getElem?_modify, ha]
  by_cases hij : i = j
  · simp [hij, hf a hrd]
  · simp [hij, hrd]

end Redsuite
