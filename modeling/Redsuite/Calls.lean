import Redsuite.NetfaultRun
import Mathlib.Logic.Relation

/-!
# Runs of the fault scope

A `Call` is one call into the module.
-/

namespace Redsuite

open List

/-- What a scenario calls, in the source's words. -/
inductive Call : Type where
  /-- `Proxy::scope` -/
  | openScope
  /-- `Faults::intercept` -/
  | intercept (scope : ScopeId) (selector : Selector)
  /-- `Faults::observe` -/
  | observe (scope : ScopeId) (selector : Selector)
  /-- `Faults::reject` -/
  | reject (scope : ScopeId) (selector : Selector) (message : String)
  /-- `Faults::stall` -/
  | stall (scope : ScopeId) (selector : Selector)
  /-- `RuleHandle::remove` -/
  | remove (handle : RuleHandle)
  /-- `gate`, by a connection task -/
  | gate (operation : Operation)
  /-- `Held::release`, `Held::discard` or `Held::reject` -/
  | decide (held : Held) (decision : Decision)
  /-- a `Held` is dropped undecided -/
  | dropHeld (held : Held)
  /-- `Trap::wait` is polled -/
  | waitTrap (trap : Trap)
  /-- a `Trap` is dropped, or its wait times out -/
  | dropTrap (trap : Trap)
  /-- a `Holding` is dropped, by a connection task -/
  | dropHolding (holding : Holding)
  /-- `Faults::restore` -/
  | restore (scope : ScopeId)
  /-- `Faults::reset` begins -/
  | startReset (scope : ScopeId)
  /-- `Faults::reset` is polled -/
  | pollReset (reset : ResetId)
  /-- `Faults::reset` is cancelled or times out -/
  | abandonReset (reset : ResetId)
  /-- a `Faults` is dropped -/
  | dropFaults (scope : ScopeId)

def forget {α : Type} (x : M α) : M Unit := x >>= fun _ => pure ()

def exec (quote : String → String) : Call → M Unit
  | .openScope => forget Redsuite.openScope
  | .intercept scope selector => forget (Redsuite.intercept scope selector)
  | .observe scope selector => forget (Redsuite.observe scope selector)
  | .reject scope selector message => forget (Redsuite.reject scope selector message)
  | .stall scope selector => forget (Redsuite.stall scope selector)
  | .remove handle => handle.remove
  | .gate operation => forget (Redsuite.gate operation)
  | .decide held decision => sendDecision held.decide decision
  | .dropHeld held => held.drop
  | .waitTrap trap => forget trap.wait
  | .dropTrap trap => trap.drop
  | .dropHolding holding => holding.drop
  | .restore scope => Redsuite.restore quote scope
  | .startReset scope => forget (Redsuite.startReset quote scope)
  | .pollReset reset => forget (Redsuite.pollReset reset)
  | .abandonReset reset => Redsuite.abandonReset reset
  | .dropFaults scope => Redsuite.dropFaults quote scope

def runCalls (quote : String → String) (calls : List Call) : M Unit := calls.forM (exec quote)

def finalWorld (quote : String → String) (calls : List Call) : World :=
  match (runCalls quote calls).run World.init with
  | .ok (_, w) => w
  | .error _ => World.init

variable {quote : String → String} {w w' : World} {calls : List Call}

theorem run_finalWorld (h : ((runCalls quote calls).run World.init).isOk = true) :
    (runCalls quote calls).run World.init = .ok ((), finalWorld quote calls) := by
  unfold finalWorld
  rcases hr : (runCalls quote calls).run World.init with e | ⟨⟨⟩, w⟩
  · rw [hr] at h
    cases h
  · rfl

/-! ## The pieces calls are made of -/

/-- One piece of what a call does to the shared memory. -/
inductive Change (quote : String → String) (w : World) : World → Prop where
  | gated {operation : Operation} {g : Gate} {w' : World} (h : Gated w operation g w') :
      Change quote w w'
  | holdingDropped {scope : ScopeId} {state : State} (hs : w.state? scope = some state)
      (hpos : 0 < state.holding) :
      Change quote w (w.tokenDropped scope state)
  | opened (h : ∀ scope, w.active = some scope → w.alive scope = false) :
      Change quote w
        { w with
          active := some w.scopes.length
          scopes := w.scopes ++
            [⟨false, ⟨[], [], [], [0, 0, 0], 0, 0, w.watches.length, Notify.new⟩⟩]
          strong := w.strong ++ [1]
          watches := w.watches ++ [Watch.new] }
  | intercepted {scope : ScopeId} {state : State} (hs : w.state? scope = some state)
      (selector : Selector) :
      Change quote w
        { w.setState scope
            { state with traps := state.traps ++ [⟨selector, some w.deliveries.length⟩] } with
          strong := w.strong.modify scope (· + 1)
          deliveries := w.deliveries ++ [Oneshot.new]
          history := .requested scope w.deliveries.length selector :: w.history }
  /-- a rule is installed; a stall rule brings a channel of its own -/
  | ruled {scope : ScopeId} {state : State} (hs : w.state? scope = some state)
      (selector : Selector) {effect : Effect} {watches : List Watch}
      (hw : (∀ resume, effect ≠ .stall resume) ∧ watches = w.watches ∨
        effect = .stall w.watches.length ∧ watches = w.watches ++ [Watch.new]) :
      Change quote w
        { w.setState scope
            { state with rules := state.rules ++ [⟨selector, effect, w.hits.length⟩] } with
          watches
          hits := w.hits ++ [⟨0, Notify.new⟩]
          history := .installed scope ⟨selector, effect, w.hits.length⟩ :: w.history }
  | removed {handle : RuleHandle} {state : State} (hs : w.state? handle.state = some state) :
      Change quote w
        { w.setState handle.state
            { state with
              rules := state.rules.filter fun rule => !decide (rule.hits = handle.hits) } with
          watches :=
            droppedWatches (state.rules.filter fun rule => rule.hits = handle.hits) w.watches
          history := .removed handle.state handle.hits :: w.history }
  | decisionSent (channel : DecisionId) (decision : Decision) :
      Change quote w
        { w with decisions := w.decisions.modify channel fun c => (c.send decision).1 }
  | senderDropped (channel : DecisionId) :
      Change quote w { w with decisions := w.decisions.modify channel Oneshot.dropSender }
  | receiverDropped (trap : TrapId) :
      Change quote w { w with deliveries := w.deliveries.modify trap Oneshot.dropReceiver }
  | referenceDropped (scope : ScopeId) :
      Change quote w { w with strong := w.strong.modify scope (· - 1) }
  | restored {scope : ScopeId} {state : State} (hs : w.state? scope = some state) :
      Change quote w (w.restored quote scope state)
  /-- rules and traps are taken away and a reset starts to wait -/
  | resetStarted {scope : ScopeId} {state : State} (hs : w.state? scope = some state) :
      Change quote w
        { w.restored quote scope state with
          resets := w.resets ++ [some scope]
          history := .resetStarted w.resets.length scope :: .restored scope :: w.history }
  /-- a reset returns `Ok` -/
  | resetOk {reset : ResetId} {scope : ScopeId} {state : State}
      (hr : w.resetScope reset = some scope) (hs : w.state? scope = some state)
      (hh : state.holding = 0) (hu : state.unfired = []) :
      Change quote w
        { w.setState scope { state with unfired := [] } with
          resets := w.resets.set reset none
          history := .resetOk reset scope :: w.history }
  /-- a reset returns the error that names the traps that never fired -/
  | resetErr {reset : ResetId} {scope : ScopeId} {state : State}
      (hr : w.resetScope reset = some scope) (hs : w.state? scope = some state)
      (hh : state.holding = 0) (hu : state.unfired ≠ []) :
      Change quote w
        { w.setState scope { state with unfired := [] } with
          resets := w.resets.set reset none
          history := .resetErr reset scope state.unfired :: w.history }
  | resetEnded (reset : ResetId) :
      Change quote w { w with resets := w.resets.set reset none }
  | deactivated : Change quote w { w with active := none }

/-- Any number of changes. -/
abbrev Changes (quote : String → String) : World → World → Prop :=
  Relation.ReflTransGen (Change quote)

/-! ## Valid worlds -/

/-- Between calls no cell is borrowed and every scope has its reference count. -/
structure World.Valid (w : World) : Prop where
  quiet : w.Quiet
  strong : w.strong.length = w.scopes.length

namespace World

theorem valid_init : init.Valid := ⟨quiet_init, rfl⟩

variable {scope : ScopeId}

theorem Valid.state_isSome (hv : w.Valid) (hl : w.alive scope = true) :
    (w.state? scope).isSome := by
  have hlt : scope < w.strong.length := by
    rcases Nat.lt_or_ge scope w.strong.length with hlt | hge
    · exact hlt
    · rw [alive, getElem?_eq_none hge] at hl
      simp at hl
  rw [hv.strong] at hlt
  rw [state?, getElem?_eq_getElem hlt]
  rfl

theorem Valid.setState_self (hv : w.Valid) {s : State} (hs : w.state? scope = some s) :
    w.setState scope s = w := by
  have hc := hv.quiet.cell hs
  obtain ⟨hlt, hc⟩ := List.getElem?_eq_some_iff.mp hc
  rw [setState, ← hc, List.set_getElem_self]

theorem Valid.update {w' : World} (hv : w.Valid) {s : State}
    (hsc : w'.scopes = (w.setState scope s).scopes) (hst : w'.strong.length = w.strong.length) :
    w'.Valid := by
  constructor
  · intro cell hc
    rw [hsc] at hc
    exact hv.quiet.setState scope s cell hc
  · rw [hst, hsc, hv.strong, setState, length_set]

end World

theorem Gated.valid {op : Operation} {g : Gate} (hv : w.Valid) (h : Gated w op g w') :
    w'.Valid := by
  cases h with
  | inactive => exact hv
  | rejected | released => exact hv.update rfl rfl
  | stalled | held => exact hv.update rfl (length_modify ..)

theorem Change.valid (hv : w.Valid) (h : Change quote w w') : w'.Valid := by
  cases h with
  | gated h => exact h.valid hv
  | holdingDropped hs hpos | intercepted hs selector => exact hv.update rfl (length_modify ..)
  | opened h =>
    refine ⟨?_, by simp [hv.strong]⟩
    intro cell hc
    rcases mem_append.mp hc with hc | hc
    · exact hv.quiet cell hc
    · rw [mem_singleton.mp hc]
  | decisionSent ch d | senderDropped ch | receiverDropped trap
  | resetEnded reset | deactivated => exact ⟨hv.quiet, hv.strong⟩
  | referenceDropped scope => exact ⟨hv.quiet, by simp [hv.strong]⟩
  | _ => exact hv.update rfl rfl

theorem Changes.valid (hv : w.Valid) (h : Changes quote w w') : w'.Valid := by
  induction h with
  | refl => exact hv
  | tail _ hc ih => exact hc.valid ih

/-! ## Every call is made of pieces -/

theorem forget_run {α : Type} {x : M α} (h : (forget x).run w = .ok ((), w')) :
    ∃ a, x.run w = .ok (a, w') := by
  unfold forget at h
  rw [StateT.run_bind] at h
  rcases hx : x.run w with e | ⟨a, w₁⟩
  · rw [hx] at h
    cases h
  · rw [hx, except_ok_bind] at h
    obtain rfl : w₁ = w' := congrArg Prod.snd (Except.ok.inj h)
    exact ⟨a, rfl⟩

section Pieces

variable {quote : String → String} {w w' : World}

theorem run_unique {α : Type} {x : M α} {a b : α} {w w₁ w₂ : World}
    (h₁ : x.run w = .ok (a, w₁)) (h₂ : x.run w = .ok (b, w₂)) : w₂ = w₁ := by
  rw [h₁] at h₂
  exact (congrArg Prod.snd (Except.ok.inj h₂)).symm

theorem openScope_changes {r : Option ScopeId} (h : openScope.run w = .ok (r, w')) :
    Changes quote w w' := by
  by_cases hdead : ∀ scope, w.active = some scope → w.alive scope = false
  · rw [run_unique (openScope_run hdead) h]
    exact .single (.opened hdead)
  · push Not at hdead
    obtain ⟨scope, ha, hl⟩ := hdead
    rw [run_unique (openScope_run_active ha (by simpa using hl)) h]

variable {scope : ScopeId} {sel : Selector}

theorem intercept_changes (hv : w.Valid) {t : Trap}
    (h : (intercept scope sel).run w = .ok (t, w')) : Changes quote w w' := by
  rcases hs : w.state? scope with _ | s
  · have hs' : World.state? { w with deliveries := w.deliveries ++ [Oneshot.new] } scope =
        none := hs
    simp [intercept, newDelivery, borrowMut_run_none hs'] at h
  · rw [run_unique (intercept_run hv.quiet hs sel) h]
    exact .single (.intercepted hs sel)

theorem rule_changes (hv : w.Valid) {effect : Effect} (he : ∀ resume, effect ≠ .stall resume)
    {r : RuleHandle} (h : (rule scope sel effect).run w = .ok (r, w')) :
    Changes quote w w' := by
  rcases hs : w.state? scope with _ | s
  · simp [rule, borrowMut_run_none hs] at h
  · rw [run_unique (rule_run hv.quiet hs sel effect) h]
    exact .single (.ruled hs sel (.inl ⟨he, rfl⟩))

theorem stall_changes (hv : w.Valid) {r : RuleHandle}
    (h : (stall scope sel).run w = .ok (r, w')) : Changes quote w w' := by
  rcases hs : w.state? scope with _ | s
  · have hs₁ : World.state? { w with watches := w.watches ++ [Watch.new] } scope = none := hs
    simp [stall_run, rule, borrowMut_run_none hs₁] at h
  · have hq₁ : World.Quiet { w with watches := w.watches ++ [Watch.new] } := hv.quiet
    have hs₁ : World.state? { w with watches := w.watches ++ [Watch.new] } scope = some s := hs
    rw [stall_run] at h
    rw [run_unique (rule_run hq₁ hs₁ sel (.stall w.watches.length)) h]
    exact .single (.ruled hs sel (.inr ⟨rfl, rfl⟩))

theorem RuleHandle.remove_changes (hv : w.Valid) {handle : RuleHandle}
    (h : handle.remove.run w = .ok ((), w')) : Changes quote w w' := by
  by_cases hl : w.alive handle.state = true
  · obtain ⟨s, hs⟩ := Option.isSome_iff_exists.mp (hv.state_isSome hl)
    rw [run_unique (RuleHandle.remove_run hv.quiet hl hs) h]
    exact .single (.removed hs)
  · rw [run_unique (RuleHandle.remove_run_dead (by simpa using hl)) h]

theorem gate_changes (hv : w.Valid) {op : Operation} {g : Gate}
    (h : (gate op).run w = .ok (g, w')) : Gated w op g w' := by
  obtain ⟨g₁, w₁, hr, hg⟩ := gate_run hv.quiet (fun _ => hv.state_isSome) op
  rw [hr] at h
  cases h
  exact hg

theorem Trap.wait_changes {trap : Trap} {r : Poll (Option Held)}
    (h : trap.wait.run w = .ok (r, w')) : Changes quote w w' := by
  simp only [Trap.wait, StateT.run_bind, StateT.run_get, except_pure, except_ok_bind] at h
  split at h
  · cases h
    exact .refl
  · cases h
    exact .trans (.single (.receiverDropped trap.receive))
      (.single (.referenceDropped trap.state))

theorem Trap.drop_changes {trap : Trap} (h : trap.drop.run w = .ok ((), w')) :
    Changes quote w w' := by
  have hdrop : Change quote w _ := .receiverDropped trap.receive
  simp only [Trap.drop, StateT.run_bind, StateT.run_modifyGet, except_pure, except_ok_bind] at h
  rcases hl : w.deliveries[trap.receive]?.bind Oneshot.value with _ | held
  · rw [hl] at h
    cases h
    exact .trans (.single hdrop) (.single (.referenceDropped trap.state))
  · rw [hl] at h
    cases h
    exact .trans (.single hdrop)
      (.trans (.single (.senderDropped held.decide)) (.single (.referenceDropped trap.state)))

theorem Holding.drop_changes (hv : w.Valid) {holding : Holding}
    (h : holding.drop.run w = .ok ((), w')) : Changes quote w w' := by
  obtain ⟨scope⟩ := holding
  rcases hs : w.state? scope with _ | s
  · simp [Holding.drop, borrowMut_run_none hs] at h
  · by_cases hpos : 0 < s.holding
    · rw [run_unique (Holding.drop_run hv.quiet hs hpos) h]
      exact .single (.holdingDropped hs hpos)
    · have hz : s.holding = 0 := by omega
      simp [Holding.drop, borrowMut_run hv.quiet hs, hz] at h

theorem restore_changes (hv : w.Valid) (h : (restore quote scope).run w = .ok ((), w')) :
    ∃ s, w.state? scope = some s ∧ w' = w.restored quote scope s := by
  rcases hs : w.state? scope with _ | s
  · simp [restore, borrowMut_run_none hs] at h
  · exact ⟨s, rfl, run_unique (restore_run hv.quiet hs quote) h⟩

theorem startReset_changes (hv : w.Valid) {r : ResetId}
    (h : (startReset quote scope).run w = .ok (r, w')) : Changes quote w w' := by
  rcases hs : w.state? scope with _ | s
  · simp [startReset, restore, borrowMut_run_none hs] at h
  · rw [run_unique (startReset_run hv.quiet hs quote) h]
    exact .single (.resetStarted hs)

theorem dropFaults_changes (hv : w.Valid) (h : (dropFaults quote scope).run w = .ok ((), w')) :
    Changes quote w w' := by
  rcases hs : w.state? scope with _ | s
  · simp [dropFaults, restore, borrowMut_run_none hs] at h
  · rw [run_unique (dropFaults_run hv.quiet hs quote) h]
    exact .trans (.single (.restored hs))
      (.trans (.single .deactivated) (.single (.referenceDropped scope)))

theorem pollReset_changes (hv : w.Valid) {reset : ResetId} {r : Poll ResetOutcome}
    (h : (pollReset reset).run w = .ok (r, w')) : Changes quote w w' := by
  rcases hr : w.resetScope reset with _ | scope
  · rw [run_unique (pollReset_run_over hr) h]
  rcases hs : w.state? scope with _ | s
  · simp [pollReset, hr, borrowMut_run_none hs] at h
  by_cases hh : s.holding = 0
  · by_cases hu : s.unfired = []
    · rw [run_unique (pollReset_run_ok hv.quiet hr hs hh hu) h]
      exact .single (.resetOk hr hs hh hu)
    · rw [run_unique (pollReset_run_unfired hv.quiet hr hs hh hu) h]
      exact .single (.resetErr hr hs hh hu)
  · rw [run_unique (pollReset_run_waiting hv.quiet hr hs hh) h, hv.setState_self hs]

theorem exec_changes (hv : w.Valid) {call : Call}
    (h : (exec quote call).run w = .ok ((), w')) : Changes quote w w' := by
  cases call with
  | openScope =>
    obtain ⟨r, h⟩ := forget_run h
    exact openScope_changes h
  | intercept scope sel =>
    obtain ⟨r, h⟩ := forget_run h
    exact intercept_changes hv h
  | observe scope sel | reject scope sel msg =>
    obtain ⟨r, h⟩ := forget_run h
    exact rule_changes hv (by rintro _ ⟨⟩) h
  | stall scope sel =>
    obtain ⟨r, h⟩ := forget_run h
    exact stall_changes hv h
  | remove handle => exact RuleHandle.remove_changes hv h
  | gate op =>
    obtain ⟨r, h⟩ := forget_run h
    exact .single (.gated (gate_changes hv h))
  | decide held d =>
    cases h
    exact .single (.decisionSent held.decide d)
  | dropHeld held =>
    cases h
    exact .single (.senderDropped held.decide)
  | waitTrap trap =>
    obtain ⟨r, h⟩ := forget_run h
    exact Trap.wait_changes h
  | dropTrap trap => exact Trap.drop_changes h
  | dropHolding holding => exact Holding.drop_changes hv h
  | restore scope =>
    obtain ⟨s, hs, rfl⟩ := restore_changes hv h
    exact .single (.restored hs)
  | startReset scope =>
    obtain ⟨r, h⟩ := forget_run h
    exact startReset_changes hv h
  | pollReset reset =>
    obtain ⟨r, h⟩ := forget_run h
    exact pollReset_changes hv h
  | abandonReset reset =>
    cases h
    exact .single (.resetEnded reset)
  | dropFaults scope => exact dropFaults_changes hv h

theorem runCalls_cons {call : Call} {rest : List Call}
    (h : (runCalls quote (call :: rest)).run w = .ok ((), w')) :
    ∃ w₁, (exec quote call).run w = .ok ((), w₁) ∧ (runCalls quote rest).run w₁ = .ok ((), w') := by
  change (exec quote call >>= fun _ => runCalls quote rest).run w = _ at h
  rw [StateT.run_bind] at h
  rcases he : (exec quote call).run w with e | ⟨⟨⟩, w₁⟩
  · rw [he] at h
    cases h
  · rw [he] at h
    exact ⟨w₁, rfl, h⟩

theorem runCalls_changes (hv : w.Valid)
    (h : (runCalls quote calls).run w = .ok ((), w')) : Changes quote w w' := by
  induction calls generalizing w with
  | nil =>
    cases h
    exact .refl
  | cons call rest ih =>
    obtain ⟨w₁, hc, hr⟩ := runCalls_cons h
    have hch := exec_changes hv hc
    exact hch.trans (ih (hch.valid hv) hr)

/-- **The induction rule for runs**: what holds at the start and survives every piece holds
after every run. -/
theorem run_induction {P : World → Prop} (h₀ : P World.init)
    (hst : ∀ w w', w.Valid → P w → Change quote w w' → P w')
    (h : (runCalls quote calls).run World.init = .ok ((), w)) : w.Valid ∧ P w := by
  have hch := runCalls_changes World.valid_init h
  clear h
  induction hch with
  | refl => exact ⟨World.valid_init, h₀⟩
  | tail _ hc ih => exact ⟨hc.valid ih.1, hst _ _ ih.1 ih.2 hc⟩

end Pieces

end Redsuite
