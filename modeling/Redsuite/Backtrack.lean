import Mathlib.Data.List.Nodup
import Mathlib.Data.List.Perm.Subperm

/-!
# Backtracking over orders

A search for an order of some items.
-/

namespace Redsuite.Backtrack

open List

variable {σ α β : Type}

/-- What a check says of an item. -/
inductive Verdict (σ : Type) : Type where
  | abandon
  | reject
  | accept (next : σ)

/-! ### The search -/

/-- Items are tried one after the other until one leads to a result. -/
def firstOf (attempt : σ → α → Verdict σ) (descend : ℕ → σ → Option β) (state : σ) :
    List (α × ℕ) → Option β
  | [] => none
  | (item, index) :: rest =>
    match attempt state item with
    | .abandon => none
    | .reject => firstOf attempt descend state rest
    | .accept next =>
      match descend index next with
      | some result => some result
      | none => firstOf attempt descend state rest

def free (items : List α) (used : List ℕ) : List (α × ℕ) :=
  items.zipIdx.filter fun entry => entry.2 ∉ used

def explore (attempt : σ → α → Verdict σ) (goal : σ → Option β) (items : List α) :
    ℕ → List ℕ → σ → Option β
  | 0, _, state => goal state
  | left + 1, used, state =>
    firstOf attempt (fun index next => explore attempt goal items left (index :: used) next) state
      (free items used)

/-! ### Orders -/

section Orders

variable (attempt : σ → α → Verdict σ) (items : List α)

/-- Items taken in an order lead from a state to another. -/
def Leads : σ → List ℕ → σ → Prop
  | state, [], final => state = final
  | state, index :: order, final =>
    ∃ item next, items[index]? = some item ∧ attempt state item = .accept next ∧
      Leads next order final

/-- No item tried before those of an order makes the search abandon a point of it. -/
def Reached : List ℕ → σ → List ℕ → Prop
  | _, _, [] => True
  | used, state, index :: order =>
    (∀ other item, other < index → other ∉ used → items[other]? = some item →
      attempt state item ≠ .abandon) ∧
    ∀ item next, items[index]? = some item → attempt state item = .accept next →
      Reached (index :: used) next order

end Orders

section Explore

variable {attempt : σ → α → Verdict σ} {goal : σ → Option β} {items : List α}

theorem mem_free {used : List ℕ} {item : α} {i : ℕ} :
    (item, i) ∈ free items used ↔ items[i]? = some item ∧ i ∉ used := by
  rw [free, mem_filter, mem_zipIdx_iff_getElem?, decide_eq_true_iff]

theorem pairwise_free (items : List α) (used : List ℕ) :
    (free items used).Pairwise fun earlier later => earlier.2 < later.2 := by
  refine List.Pairwise.filter _ (pairwise_map.mp ?_)
  rw [zipIdx_map_snd]
  exact pairwise_lt_range'

theorem firstOf_some {descend : ℕ → σ → Option β} {s : σ} {entries : List (α × ℕ)} {r : β}
    (h : firstOf attempt descend s entries = some r) :
    ∃ before item index after next, entries = before ++ (item, index) :: after ∧
      (∀ e ∈ before, attempt s e.1 ≠ .abandon) ∧
      attempt s item = .accept next ∧ descend index next = some r := by
  induction entries with
  | nil => cases h
  | cons e entries ih =>
    obtain ⟨first, place⟩ := e
    -- the result comes from a later item
    have hlat (hfst : attempt s first ≠ .abandon)
        (hr : firstOf attempt descend s entries = some r) :
        ∃ before item index after next,
          (first, place) :: entries = before ++ (item, index) :: after ∧
          (∀ e ∈ before, attempt s e.1 ≠ .abandon) ∧
          attempt s item = .accept next ∧ descend index next = some r := by
      obtain ⟨before, item, index, after, next, rfl, hb, hitem, hres⟩ := ih hr
      refine ⟨(first, place) :: before, item, index, after, next, rfl, ?_, hitem, hres⟩
      exact List.forall_mem_cons.mpr ⟨hfst, hb⟩
    rw [firstOf] at h
    split at h
    · cases h
    · rename_i hreject
      exact hlat (by rw [hreject]; exact nofun) h
    · rename_i next haccept
      split at h
      · rename_i found hf
        cases h
        exact ⟨[], first, place, entries, next, rfl, forall_mem_nil _, haccept, hf⟩
      · exact hlat (by rw [haccept]; exact nofun) h

/-- An item that leads to a result is not missed, if no earlier one makes the search abandon
the point. -/
theorem firstOf_isSome {descend : ℕ → σ → Option β} {s next : σ} {before after : List (α × ℕ)}
    {item : α} {i : ℕ} (hb : ∀ e ∈ before, attempt s e.1 ≠ .abandon)
    (hitem : attempt s item = .accept next) (hnx : (descend i next).isSome = true) :
    (firstOf attempt descend s (before ++ (item, i) :: after)).isSome = true := by
  induction before with
  | nil =>
    obtain ⟨r, hres⟩ := Option.isSome_iff_exists.mp hnx
    rw [nil_append, firstOf, hitem]
    dsimp only
    rw [hres]
    rfl
  | cons e before ih =>
    obtain ⟨he, hr⟩ := List.forall_mem_cons.mp hb
    rw [cons_append, firstOf]
    split
    · rename_i habandon
      exact absurd habandon he
    · exact ih hr
    · split
      · rfl
      · exact ih hr

/-- **What the search finds is an order of all items** that leads to the goal, and is not hidden. -/
theorem explore_sound {left : ℕ} {used : List ℕ} {state : σ} {r : β} (hused : used.Nodup)
    (hbd : ∀ index ∈ used, index < items.length) (hleft : left + used.length = items.length)
    (h : explore attempt goal items left used state = some r) :
    ∃ order final, (order ++ used).Perm (List.range items.length) ∧
      Leads attempt items state order final ∧ goal final = some r ∧
      Reached attempt items used state order := by
  induction left generalizing used state with
  | zero =>
    refine ⟨[], state, ?_, rfl, h, trivial⟩
    have hsubperm : used.Subperm (List.range items.length) :=
      subperm_of_subset hused fun index hi => mem_range.mpr (hbd index hi)
    refine hsubperm.perm_of_length_le ?_
    rw [length_range]
    omega
  | succ left ih =>
    obtain ⟨before, item, index, after, next, hfree, hb, hitem, hnx⟩ := firstOf_some h
    have hm : (item, index) ∈ free items used := by
      rw [hfree]
      exact mem_append_right _ mem_cons_self
    obtain ⟨hget, hfr⟩ := mem_free.mp hm
    obtain ⟨hlt, -⟩ := List.getElem?_eq_some_iff.mp hget
    obtain ⟨order, final, hpm, hleads, hgoal, hrch⟩ := ih (List.nodup_cons.mpr ⟨hfr, hused⟩)
      (List.forall_mem_cons.mpr ⟨hlt, hbd⟩) (by rw [List.length_cons]; omega) hnx
    refine ⟨index :: order, final, .trans List.perm_middle.symm hpm,
      ⟨item, next, hget, hitem, hleads⟩, hgoal, fun other sibling ho hunused hsibling => ?_, ?_⟩
    · -- an item with a smaller index was tried before
      have hpw := pairwise_free items used
      have hfree' : (sibling, other) ∈ free items used := mem_free.mpr ⟨hsibling, hunused⟩
      rw [hfree] at hpw hfree'
      rcases mem_append.mp hfree' with hearlier | hlat
      · exact hb _ hearlier
      · rcases mem_cons.mp hlat with heq | haf
        · exact absurd ho (Nat.not_lt.mpr (Nat.le_of_eq (Prod.mk.inj heq).2.symm))
        · have := (pairwise_cons.mp (pairwise_append.mp hpw).2.1).1 _ haf
          exact absurd this (Nat.not_lt.mpr (Nat.le_of_lt ho))
    · intro taken after htk haf
      cases hget.symm.trans htk
      obtain rfl := Verdict.accept.inj (hitem.symm.trans haf)
      exact hrch

/-- **An order that is not hidden makes the search find one.** -/
theorem explore_complete {order used : List ℕ} {s final : σ}
    (hpm : (order ++ used).Perm (List.range items.length))
    (hleads : Leads attempt items s order final) (hgoal : (goal final).isSome = true)
    (hrch : Reached attempt items used s order) :
    (explore attempt goal items order.length used s).isSome = true := by
  induction order generalizing used s with
  | nil =>
    obtain rfl := hleads
    exact hgoal
  | cons i order ih =>
    obtain ⟨item, next, hget, hitem, hr⟩ := hleads
    have hnd : (i :: order ++ used).Nodup := hpm.nodup_iff.mpr nodup_range
    have hfr : i ∉ used := fun hused =>
      (List.nodup_cons.mp hnd).1 (mem_append_right _ hused)
    have hnx := ih (.trans List.perm_middle hpm) hr (hrch.2 item next hget hitem)
    obtain ⟨before, after, hfree⟩ := append_of_mem (mem_free.mpr ⟨hget, hfr⟩)
    rw [List.length_cons, explore, hfree]
    refine firstOf_isSome (fun e he => ?_) hitem hnx
    have hm : (e.1, e.2) ∈ free items used := by
      rw [hfree]
      exact mem_append_left _ he
    obtain ⟨hentryGet, hentryFresh⟩ := mem_free.mp hm
    have hpw := pairwise_free items used
    rw [hfree] at hpw
    refine hrch.1 e.2 e.1 ?_ hentryFresh hentryGet
    exact (pairwise_append.mp hpw).2.2 e he _ mem_cons_self

end Explore

end Redsuite.Backtrack
