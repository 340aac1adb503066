import Mathlib.Data.List.Nodup
import Mathlib.Data.List.Perm.Basic

/-!
# Keyed accounts

A general device for statements like "what is due is handed over exactly once".
-/

namespace Redsuite

open List

variable {κ α : Type} [DecidableEq κ]

/-- The items of a keyed list that are about `key`. -/
def about (key : κ) (entries : List (κ × α)) : List α :=
  (entries.filter fun entry => entry.1 = key).map Prod.snd

@[simp]
theorem about_append (key : κ) (left right : List (κ × α)) :
    about key (left ++ right) = about key left ++ about key right := by
  simp [about]

@[simp]
theorem about_self (key : κ) (item : α) : about key [(key, item)] = [item] := by
  simp [about]

variable {key : κ} {es : List (κ × α)}

theorem about_other {other : κ} (item : α) (h : other ≠ key) : about key [(other, item)] = [] := by
  simp [about, h]

theorem mem_about {item : α} : item ∈ about key es ↔ (key, item) ∈ es := by
  simp [about]

theorem about_sublist (key : κ) {left right : List (κ × α)} (h : left.Sublist right) :
    (about key left).Sublist (about key right) :=
  (h.filter _).map _

/-- Only what is due to `key` changes, and nothing was due to it before. -/
structure Grows (due due' : κ → List α) (key : κ) : Prop where
  others : ∀ other, other ≠ key → due' other = due other
  fresh : due key = []

omit [DecidableEq κ] in
theorem Grows.trans {due due' due'' : κ → List α} (h : Grows due due' key)
    (h' : Grows due' due'' key) : Grows due due'' key := by
  refine ⟨?_, h.fresh⟩
  intro other hne
  exact (h'.others other hne).trans (h.others other hne)

/-- Every key got what is due to it; or nothing, when the system is not live. -/
def Accounts (entries : List (κ × α)) (due : κ → List α) (live : Bool) : Prop :=
  ∀ key, about key entries = due key ∨ live = false ∧ about key entries = []

namespace Accounts

variable {es : List (κ × α)} {due due' : κ → List α} {key : κ} {live live' : Bool}

theorem mono (h : Accounts es due live) (hl : live' = true → live = true) :
    Accounts es due live' := by
  intro key
  rcases h key with heq | ⟨hdead, hn⟩
  · exact Or.inl heq
  · refine Or.inr ⟨?_, hn⟩
    cases hl' : live' with
    | false => rfl
    | true => rw [hl hl'] at hdead; exact absurd hdead (by decide)

theorem exact (h : Accounts es due true) (key : κ) : about key es = due key := by
  rcases h key with heq | ⟨hdead, -⟩
  · exact heq
  · exact absurd hdead (by decide)

section

variable (h : Accounts es due live)

include h

theorem sublist (key : κ) : (about key es).Sublist (due key) := by
  rcases h key with heq | ⟨-, hn⟩
  · rw [heq]
  · rw [hn]; exact nil_sublist _

theorem nothing (hdue : due key = []) : about key es = [] := by
  rcases h key with heq | ⟨-, hn⟩
  · rw [heq, hdue]
  · exact hn

theorem others (hgro : Grows due due' key) {other : κ} (hne : other ≠ key) :
    about other es = due' other ∨ live = false ∧ about other es = [] := by
  rw [hgro.others other hne]
  exact h other

theorem silent (hgro : Grows due due' key) (hdue : due' key = []) : Accounts es due' live := by
  intro other
  by_cases ho : other = key
  · refine Or.inl ?_
    rw [ho, hdue, h.nothing hgro.fresh]
  · exact h.others hgro ho

theorem give {item : α} (hgro : Grows due due' key) (hdue : due' key = [item]) :
    Accounts (es ++ [(key, item)]) due' live := by
  intro other
  rw [about_append]
  by_cases ho : other = key
  · refine Or.inl ?_
    rw [ho, hdue, about_self, h.nothing hgro.fresh, nil_append]
  · rw [about_other item (Ne.symm ho), append_nil]
    exact h.others hgro ho

theorem lost (hgro : Grows due due' key) : Accounts es due' false := by
  intro other
  by_cases ho : other = key
  · refine Or.inr ⟨rfl, ?_⟩
    rw [ho, h.nothing hgro.fresh]
  · rcases h.others hgro ho with heq | ⟨-, hn⟩
    · exact Or.inl heq
    · exact Or.inr ⟨rfl, hn⟩

end

theorem retract {last : List (κ × α)} (h : Accounts (es ++ last) due live)
    (hdue : ∀ key, (due key).length ≤ 1) : Accounts es due false := by
  intro key
  have hsub := (h.sublist key).length_le
  have hlen := hdue key
  rw [about_append] at hsub
  rcases eq_nil_or_concat (about key last) with hnil | ⟨init, item, hcons⟩
  · rcases h key with heq | ⟨-, hn⟩
    · rw [about_append, hnil, append_nil] at heq
      exact Or.inl heq
    · rw [about_append] at hn
      exact Or.inr ⟨rfl, (append_eq_nil_iff.mp hn).1⟩
  · -- the one item due to this key is among those taken back
    refine Or.inr ⟨rfl, eq_nil_of_length_eq_zero ?_⟩
    rw [hcons] at hsub
    simp only [concat_eq_append, length_append, length_singleton] at hsub
    omega

end Accounts

theorem lookup_none (h : key ∉ es.map Prod.fst) : es.lookup key = none := by
  rw [lookup_eq_none_iff]
  intro e hm
  have hne : e.1 ≠ key := fun heq => h (heq ▸ mem_map_of_mem hm)
  simpa using Ne.symm hne

theorem lookup_concat_ne {other : κ} (es : List (κ × α)) (v : α) (h : key ≠ other) :
    (es ++ [(other, v)]).lookup key = es.lookup key := by
  have hne : (key == other) = false := by simpa using h
  simp [lookup_append, lookup_cons, hne]

theorem lookup_concat_self (v : α) (h : key ∉ es.map Prod.fst) :
    (es ++ [(key, v)]).lookup key = some v := by
  simp [lookup_append, lookup_none h]

theorem mem_of_lookup {v : α} (h : es.lookup key = some v) :
    (key, v) ∈ es := by
  obtain ⟨left, right, rfl, -⟩ := lookup_eq_some_iff.mp h
  exact mem_append_right _ mem_cons_self

theorem lookup_of_mem {v : α} (hnd : (es.map Prod.fst).Nodup)
    (hm : (key, v) ∈ es) : es.lookup key = some v := by
  obtain ⟨left, right, rfl⟩ := append_of_mem hm
  have hleft : key ∉ left.map Prod.fst := by
    intro hin
    rw [map_append] at hnd
    exact (nodup_append.mp hnd).2.2 key hin key mem_cons_self rfl
  simp [lookup_append, lookup_none hleft]

end Redsuite
