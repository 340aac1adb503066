import Redsuite.Table
import Mathlib.Data.Finset.Union
import Mathlib.Data.Finset.Max

/-!
# Maps to sets

A hash map whose values are sets is a relation between its keys and the members of the sets.
-/

namespace Redsuite

/-- Sets of values by key, as a table. -/
abbrev Multimap (κ α : Type) : Type := Table κ (Finset α)

namespace Multimap

variable {κ α : Type} [DecidableEq κ]

/-- The values of a key. -/
def members (self : Multimap κ α) (key : κ) : Finset α := (self.lookup key).getD ∅

variable {self : Multimap κ α} {key : κ} {value : α}

theorem members_of_lookup {values : Finset α} (h : self.lookup key = some values) :
    members self key = values := by
  rw [members, h]
  rfl

theorem lookup_of_mem (h : value ∈ members self key) :
    self.lookup key = some (members self key) := by
  cases hlk : self.lookup key with
  | none =>
    rw [members, hlk] at h
    cases Finset.notMem_empty value h
  | some values => rw [members_of_lookup hlk]

theorem members_insert (self : Multimap κ α) (key other : κ) (values : Finset α) :
    members (self.insert key values) other = if other = key then values else members self other := by
  rw [members, Table.lookup_insert_iff]
  split
  · rfl
  · rfl

theorem members_erase (self : Multimap κ α) (key other : κ) :
    members (self.erase key) other = if other = key then ∅ else members self other := by
  rw [members, Table.lookup_erase_iff]
  split
  · rfl
  · rfl

variable [DecidableEq α]

/-- One more member: `entry(key).or_default().insert(value)`. -/
def add (self : Multimap κ α) (key : κ) (value : α) : Multimap κ α :=
  self.insert key (insert value (members self key))

theorem mem_add {other : κ} {member : α} :
    member ∈ members (self.add key value) other ↔
      other = key ∧ member = value ∨ member ∈ members self other := by
  rw [add, members_insert]
  split
  · rename_i hk
    rw [Finset.mem_insert, hk]
    simp only [true_and]
  · rename_i hk
    simp only [hk, false_and, false_or]

/-- All keys with their values. -/
def pairs (self : Multimap κ α) : Finset (κ × α) :=
  self.keys.toFinset.biUnion fun key => (members self key).image (Prod.mk key)

theorem mem_pairs : (key, value) ∈ self.pairs ↔ value ∈ members self key := by
  simp only [pairs, Finset.mem_biUnion, List.mem_toFinset, Finset.mem_image, Prod.mk.injEq]
  constructor
  · rintro ⟨found, -, member, hmember, rfl, rfl⟩
    exact hmember
  · intro hmember
    refine ⟨key, ?_, value, hmember, rfl, rfl⟩
    refine AList.mem_keys.mp (AList.lookup_isSome.mp ?_)
    rw [lookup_of_mem hmember]
    rfl

/-- Each is the other, turned round. -/
def Inverse (left : Multimap κ α) (right : Multimap α κ) : Prop :=
  ∀ key value, value ∈ members left key ↔ key ∈ members right value

end Multimap

end Redsuite
