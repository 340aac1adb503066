import Redsuite.Lists
import Mathlib.Algebra.GroupWithZero.Nat
import Mathlib.Data.List.AList

/-!
# Hash maps

Hash maps as association lists without repeated keys.
-/

namespace Redsuite

open List

/-- A `HashMap`, as far as its order is not seen. -/
abbrev Table (κ α : Type) : Type := AList fun _ : κ => α

namespace Table

variable {κ α : Type} [DecidableEq κ] {self : Table κ α} {key other : κ} {v : α}

def any (self : Table κ α) (test : α → Bool) : Bool := self.entries.any fun entry => test entry.2

theorem any_iff (test : α → Bool) :
    self.any test = true ↔ ∃ key v, self.lookup key = some v ∧ test v = true := by
  rw [any, any_eq_true]
  constructor
  · rintro ⟨⟨key, v⟩, hm, htest⟩
    exact ⟨key, v, AList.mem_lookup_iff.mpr hm, htest⟩
  · rintro ⟨key, v, hlk, htest⟩
    exact ⟨⟨key, v⟩, AList.mem_lookup_iff.mp hlk, htest⟩

def retain (self : Table κ α) (test : α → Bool) : Table κ α :=
  ⟨self.entries.filter fun entry => test entry.2,
    List.NodupKeys.sublist filter_sublist self.nodupKeys⟩

theorem lookup_retain (test : α → Bool) :
    (self.retain test).lookup key = some v ↔
      self.lookup key = some v ∧ test v = true := by
  have hm := @AList.mem_lookup_iff κ (fun _ => α) _ key v
  rw [← Option.mem_def, ← Option.mem_def, hm, hm]
  exact mem_filter

def all (self : Table κ α) (test : κ → α → Bool) : Bool :=
  self.entries.all fun entry => test entry.1 entry.2

theorem all_iff (test : κ → α → Bool) :
    self.all test = true ↔ ∀ key v, self.lookup key = some v → test key v = true := by
  rw [all, all_eq_true]
  constructor
  · intro h key v hlk
    exact h ⟨key, v⟩ (AList.mem_lookup_iff.mp hlk)
  · rintro h ⟨key, v⟩ hm
    exact h key v (AList.mem_lookup_iff.mpr hm)

def total (self : Table κ ℕ) : ℕ := (self.entries.map (·.2)).sum

theorem sum_kerase (key : κ) (es : List (Sigma fun _ : κ => ℕ)) :
    ((es.kerase key).map (·.2)).sum + (es.dlookup key).getD 0 =
      (es.map (·.2)).sum := by
  induction es with
  | nil => rfl
  | cons e es ih =>
    obtain ⟨first, v⟩ := e
    by_cases h : key = first
    · subst h
      have herase : kerase key (⟨key, v⟩ :: es) = es := kerase_cons_eq rfl
      rw [herase, dlookup_cons_eq, map_cons, sum_cons]
      exact Nat.add_comm _ _
    · have herase : kerase key (⟨first, v⟩ :: es) =
          ⟨first, v⟩ :: es.kerase key := kerase_cons_ne h
      rw [herase, dlookup_cons_ne _ _ h, map_cons, sum_cons,
        map_cons, sum_cons]
      omega

theorem total_insert (self : Table κ ℕ) (key : κ) (v : ℕ) :
    (total (self.insert key v)) + (self.lookup key).getD 0 = total self + v := by
  have h := sum_kerase key self.entries
  rw [total, AList.entries_insert, map_cons, sum_cons]
  change v + ((self.entries.kerase key).map (·.2)).sum + (self.entries.dlookup key).getD 0 = _
  rw [total]
  omega

theorem lookup_insert_iff : (self.insert key v).lookup other =
    if other = key then some v else self.lookup other := by
  split
  · rename_i h
    rw [h, AList.lookup_insert]
  · rename_i h
    rw [AList.lookup_insert_ne h]

theorem lookup_erase_iff : (self.erase key).lookup other =
    if other = key then none else self.lookup other := by
  split
  · rename_i h
    rw [h, AList.lookup_erase]
  · rename_i h
    rw [AList.lookup_erase_ne h]

theorem of_lookup_insert {found : α} (h : (self.insert key v).lookup other = some found) :
    other = key ∧ found = v ∨ other ≠ key ∧ self.lookup other = some found := by
  rw [lookup_insert_iff] at h
  split at h
  · rename_i heq
    exact .inl ⟨heq, (Option.some.inj h).symm⟩
  · rename_i hne
    exact .inr ⟨hne, h⟩

theorem of_lookup_erase (h : (self.erase key).lookup other = some v) :
    other ≠ key ∧ self.lookup other = some v := by
  rw [lookup_erase_iff] at h
  split at h
  · cases h
  · rename_i hne
    exact ⟨hne, h⟩

end Table

end Redsuite
