import Redsuite.Lists

/-!
# Machines

A machine is a step function on states that refuses the events its state has no room for.
-/

namespace Redsuite

theorem of_guard {α : Type} {p : Prop} [Decidable p] {rest : Option α} {r : α}
    (h : (do guard p; rest) = some r) : p ∧ rest = some r := by
  by_cases hp : p
  · have hgd : (guard p : Option Unit) = some () := if_pos hp
    rw [hgd] at h
    exact ⟨hp, h⟩
  · have hgd : (guard p : Option Unit) = none := if_neg hp
    rw [hgd] at h
    cases h

theorem except_bind_ok {ε α β : Type} {x : Except ε α} {f : α → Except ε β} {b : β}
    (h : (x >>= f) = .ok b) : ∃ a, x = .ok a ∧ f a = .ok b := by
  rcases x with e | a
  · cases h
  · exact ⟨a, rfl, h⟩

namespace Machine

variable {σ ε : Type}

/-- The state after a list of events; nothing if one of them is refused. -/
def run (step : σ → ε → Option σ) : σ → List ε → Option σ
  | state, [] => some state
  | state, event :: events =>
    match step state event with
    | some next => run step next events
    | none => none

/-- The state after a list of events, where those that are refused are passed over. -/
def goOn (step : σ → ε → Option σ) (state : σ) (events : List ε) : σ :=
  events.foldl (fun state event => (step state event).getD state) state

/-- Some events lead there. -/
def Reachable (step : σ → ε → Option σ) (start state : σ) : Prop :=
  ∃ events, run step start events = some state

variable {step : σ → ε → Option σ}

theorem run_cons {s : σ} {ev : ε} {evs : List ε} {final : σ}
    (h : run step s (ev :: evs) = some final) :
    ∃ next, step s ev = some next ∧ run step next evs = some final := by
  rw [run] at h
  split at h
  · rename_i next hnx
    exact ⟨next, hnx, h⟩
  · cases h

theorem run_induction {P : σ → Prop}
    (hst : ∀ s ev next, P s → step s ev = some next → P next)
    {s final : σ} {evs : List ε} (hs : P s)
    (h : run step s evs = some final) : P final := by
  induction evs generalizing s with
  | nil =>
    cases h
    exact hs
  | cons ev evs ih =>
    obtain ⟨next, hnx, hr⟩ := run_cons h
    exact ih (hst s ev next hs hnx) hr

theorem Reachable.refl (start : σ) : Reachable step start start := ⟨[], rfl⟩

theorem Reachable.head {start next s : σ} {ev : ε} (hst : step start ev = some next)
    (h : Reachable step next s) : Reachable step start s := by
  obtain ⟨evs, hrun⟩ := h
  refine ⟨ev :: evs, ?_⟩
  rw [run, hst]
  exact hrun

theorem Reachable.induction {P : σ → Prop} {start s : σ}
    (h : Reachable step start s) (hsr : P start)
    (hst : ∀ s ev next, P s → step s ev = some next → P next) : P s := by
  obtain ⟨evs, hrun⟩ := h
  exact run_induction hst hsr hrun

theorem reachable_goOn (start : σ) (evs : List ε) :
    Reachable step start (goOn step start evs) := by
  induction evs generalizing start with
  | nil => exact .refl start
  | cons ev evs ih =>
    rw [goOn, List.foldl_cons]
    cases hst : step start ev with
    | none => exact ih start
    | some next => exact (ih next).head hst

end Machine

end Redsuite
