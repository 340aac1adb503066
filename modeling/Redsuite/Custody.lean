import Redsuite.Wiring
import Mathlib.Data.Multiset.Filter

/-!
# Who holds what

The calls of `Calls` may be made with any arguments.
-/

namespace Redsuite

open List Option World

/-- A proxy, and the values its users have at the moment. -/
structure Custody where
  world : World
  /-- live `Faults` values -/
  faults : Multiset ScopeId
  /-- live `Trap` values -/
  traps : Multiset Trap
  /-- gates whose operation waits for its decision -/
  pending : Multiset Gate
  /-- tokens of operations that are decided and not yet forwarded -/
  tokens : Multiset Holding

namespace Custody

/-- Nobody has anything. -/
def init : Custody := ⟨World.init, 0, 0, 0, 0⟩

/-- All live `Holding` tokens. -/
def holdings (c : Custody) : Multiset Holding := c.pending.filterMap Gate.holding + c.tokens

end Custody

/-- What a user, or the task of an operation, can do. -/
inductive Action : Type where
  /-- a call of `Calls` -/
  | call (call : Call)
  /-- a waiting operation gets its decision; its token stays with it -/
  | resolve (gate : Gate)
  /-- the task of a waiting operation is aborted -/
  | cancel (gate : Gate)

/-- Whoever does something has the value it is done with. -/
def Action.Legal (c : Custody) : Action → Prop
  | .call (.intercept scope _) | .call (.observe scope _) | .call (.reject scope _ _)
  | .call (.stall scope _) | .call (.restore scope) | .call (.startReset scope)
  | .call (.dropFaults scope) => scope ∈ c.faults
  | .call (.waitTrap trap) | .call (.dropTrap trap) => trap ∈ c.traps
  | .call (.dropHolding holding) => holding ∈ c.tokens
  | .call _ => True
  | .resolve gate => gate ∈ c.pending ∧ c.world.resolve gate ≠ .pending
  | .cancel gate => gate ∈ c.pending

instance (c : Custody) : (a : Action) → Decidable (a.Legal c)
  | .call (.intercept scope _) | .call (.observe scope _) | .call (.reject scope _ _)
  | .call (.stall scope _) | .call (.restore scope) | .call (.startReset scope)
  | .call (.dropFaults scope) => inferInstanceAs (Decidable (scope ∈ c.faults))
  | .call (.waitTrap trap) | .call (.dropTrap trap) => inferInstanceAs (Decidable (trap ∈ c.traps))
  | .call (.dropHolding holding) => inferInstanceAs (Decidable (holding ∈ c.tokens))
  | .call .openScope | .call (.remove _) | .call (.gate _) | .call (.decide _ _)
  | .call (.dropHeld _) | .call (.pollReset _) | .call (.abandonReset _) => .isTrue trivial
  | .resolve gate =>
    inferInstanceAs (Decidable (gate ∈ c.pending ∧ c.world.resolve gate ≠ .pending))
  | .cancel gate => inferInstanceAs (Decidable (gate ∈ c.pending))

/-- **One action**, with what becomes of the values. -/
def act (quote : String → String) (c : Custody) : Action → Except Panic Custody
  | .call .openScope => do
    let (scope, world) ← openScope.run c.world
    return { c with world, faults := (scope.elim 0 fun scope => {scope}) + c.faults }
  | .call (.intercept scope selector) => do
    let (trap, world) ← (intercept scope selector).run c.world
    return { c with world, traps := trap ::ₘ c.traps }
  | .call (.gate operation) => do
    let (gate, world) ← (gate operation).run c.world
    return { c with world, pending := if gate.holding.isSome then gate ::ₘ c.pending else c.pending }
  | .call (.waitTrap trap) => do
    let (held, world) ← trap.wait.run c.world
    match held with
    | .pending => return { c with world }
    | .ready _ => return { c with world, traps := c.traps.erase trap }
  | .call (.dropTrap trap) => do
    let (_, world) ← trap.drop.run c.world
    return { c with world, traps := c.traps.erase trap }
  | .call (.dropHolding holding) => do
    let (_, world) ← holding.drop.run c.world
    return { c with world, tokens := c.tokens.erase holding }
  | .call (.dropFaults scope) => do
    let (_, world) ← (dropFaults quote scope).run c.world
    return { c with world, faults := c.faults.erase scope }
  | .call call => do
    let (_, world) ← (exec quote call).run c.world
    return { c with world }
  | .resolve gate =>
    return { c with
      pending := c.pending.erase gate
      tokens := (gate.holding.elim 0 fun holding => {holding}) + c.tokens }
  | .cancel gate =>
    match gate.holding with
    | none => return { c with pending := c.pending.erase gate }
    | some holding => do
      let (_, world) ← holding.drop.run c.world
      return { c with world, pending := c.pending.erase gate }

/-! ## The counts -/

/-- The strong count of a scope. -/
def World.refs (w : World) (scope : ScopeId) : ℕ := w.strong[scope]?.getD 0

variable {w : World} {scope : ScopeId}

theorem World.alive_iff : w.alive scope = true ↔ w.refs scope ≠ 0 := by
  simp [World.alive, refs]

theorem World.refs_modify {w' : World} {f : ℕ → ℕ} (hlt : scope < w.strong.length)
    (hst : w'.strong = w.strong.modify scope f) (other : ScopeId) :
    w'.refs other = if other = scope then f (w.refs other) else w.refs other := by
  simp only [refs, hst]
  split
  · rename_i ho
    simp [ho, getElem?_eq_getElem hlt]
  · rename_i ho
    rw [getElem?_modify_ne f w.strong (Ne.symm ho)]

theorem World.refs_drop {w' : World} (hlt : scope < w.strong.length)
    (hst : w'.strong = w.strong.modify scope (· - 1)) (other : ScopeId) :
    w'.refs other = w.refs other - if other = scope then 1 else 0 := by
  rw [refs_modify hlt hst]
  split <;> rfl

theorem World.refs_clone {w' : World} (hlt : scope < w.strong.length)
    (hst : w'.strong = w.strong.modify scope (· + 1)) (other : ScopeId) :
    w'.refs other = w.refs other + if other = scope then 1 else 0 := by
  rw [refs_modify hlt hst]
  split <;> rfl

namespace Custody

/-- The counts of the code are right. -/
structure Wf (c : Custody) : Prop where
  valid : c.world.Valid
  strong : ∀ scope, c.world.refs scope =
    c.faults.count scope + (c.traps.map Trap.state).count scope + c.holdings.count ⟨scope⟩
  holding : ∀ scope, (c.world.stateD scope).holding = c.holdings.count ⟨scope⟩
  /-- the proxy points to the live `Faults` -/
  active : c.faults = c.world.active.elim 0 fun scope => {scope}
  resets : ∀ reset scope, c.world.resetScope reset = some scope → (c.world.state? scope).isSome
  pending : ∀ gate ∈ c.pending, ∃ scope operation verdict,
    .gated scope operation verdict gate ∈ c.world.history ∧ gate.holding = some ⟨scope⟩

theorem Wf.init : Wf Custody.init := by
  refine ⟨valid_init, fun _ => rfl, fun _ => rfl, rfl, ?_, ?_⟩
  · intro reset scope hr
    cases hr
  · intro gate hg
    exact absurd hg (Multiset.notMem_zero gate)

variable {c : Custody}

theorem Wf.alive (h : c.Wf)
    (hs : scope ∈ c.faults ∨ scope ∈ c.traps.map Trap.state ∨ (⟨scope⟩ : Holding) ∈ c.holdings) :
    c.world.alive scope = true := by
  have hct := h.strong scope
  rw [alive_iff]
  rcases hs with hs | hs | hs
  · have hpos := Multiset.count_pos.mpr hs
    omega
  · have hpos := Multiset.count_pos.mpr hs
    omega
  · have hpos := Multiset.count_pos.mpr hs
    omega

theorem Wf.state (h : c.Wf)
    (hs : scope ∈ c.faults ∨ scope ∈ c.traps.map Trap.state ∨ (⟨scope⟩ : Holding) ∈ c.holdings) :
    ∃ st, c.world.state? scope = some st :=
  isSome_iff_exists.mp (h.valid.state_isSome (h.alive hs))

theorem Wf.lt (h : c.Wf) {st : State} (hs : c.world.state? scope = some st) :
    scope < c.world.strong.length := by
  rw [h.valid.strong]
  obtain ⟨cell, hcell, -⟩ := map_eq_some_iff.mp hs
  exact lt_of_getElem? hcell

theorem mem_holdings_of_pending {gate : Gate} {holding : Holding} (hg : gate ∈ c.pending)
    (hh : gate.holding = some holding) : holding ∈ c.holdings := by
  refine Multiset.mem_add.mpr (.inl ?_)
  exact (Multiset.mem_filterMap _ _).mpr ⟨gate, hg, hh⟩

theorem pending_erase {gate : Gate} {holding : Holding} (hg : gate ∈ c.pending)
    (hh : gate.holding = some holding) :
    c.pending.filterMap Gate.holding =
      holding ::ₘ (c.pending.erase gate).filterMap Gate.holding := by
  obtain ⟨rest, hr⟩ := Multiset.exists_cons_of_mem hg
  rw [hr, Multiset.erase_cons_head, Multiset.filterMap_cons_some _ _ _ hh]

end Custody

/-! ## Calls that leave the counts alone -/

/-- References, tokens and the active scope stay. -/
structure World.Calm (w w' : World) : Prop where
  valid : w'.Valid
  strong : w'.strong = w.strong
  active : w'.active = w.active
  holding : ∀ scope, (w'.stateD scope).holding = (w.stateD scope).holding
  scopes : ∀ scope, (w.state? scope).isSome → (w'.state? scope).isSome
  resets : ∀ reset scope, w'.resetScope reset = some scope →
    w.resetScope reset = some scope ∨ (w.state? scope).isSome
  history : ∀ event ∈ w.history, event ∈ w'.history

namespace World

variable {w w' : World} {st' : State}

theorem stateD_holding {st : State} (hs : w.state? scope = some st)
    (hsc : w'.scopes = (w.setState scope st').scopes) (hh : st'.holding = st.holding)
    (other : ScopeId) : (w'.stateD other).holding = (w.stateD other).holding := by
  rw [stateD_congr hsc]
  by_cases ho : other = scope
  · subst ho
    rw [stateD_setState_self hs, stateD_eq hs, hh]
  · rw [stateD_setState_ne ho]

theorem state_isSome_set (hsc : w'.scopes = (w.setState scope st').scopes) {other : ScopeId}
    (ho : (w.state? other).isSome) : (w'.state? other).isSome := by
  have hst : w'.state? other = (w.setState scope st').state? other := by
    rw [state?, hsc]
    rfl
  rw [hst]
  by_cases hos : other = scope
  · subst hos
    rw [state?_setState_self ho]
    rfl
  · rwa [state?_setState_ne hos]

theorem Calm.ofState (hv : w.Valid) {st : State} (hs : w.state? scope = some st)
    (hsc : w'.scopes = (w.setState scope st').scopes) (hh : st'.holding = st.holding)
    (hst : w'.strong = w.strong) (ha : w'.active = w.active)
    (hr : ∀ reset scope, w'.resetScope reset = some scope →
      w.resetScope reset = some scope ∨ (w.state? scope).isSome)
    (hhist : ∀ ev ∈ w.history, ev ∈ w'.history) : Calm w w' :=
  ⟨hv.update hsc (congrArg List.length hst), hst, ha, stateD_holding hs hsc hh,
    fun _ => state_isSome_set hsc, hr, hhist⟩

theorem Calm.ofSame (hv : w.Valid) (hsc : w'.scopes = w.scopes) (hst : w'.strong = w.strong)
    (ha : w'.active = w.active)
    (hr : ∀ reset scope, w'.resetScope reset = some scope → w.resetScope reset = some scope)
    (hhist : w'.history = w.history) : Calm w w' := by
  refine ⟨⟨?_, ?_⟩, hst, ha, ?_, ?_, fun r s h => .inl (hr r s h), fun e he => hhist ▸ he⟩
  · intro cell hc
    rw [hsc] at hc
    exact hv.quiet cell hc
  · rw [hst, hsc]
    exact hv.strong
  · intro scope
    rw [stateD_congr hsc]
  · intro scope hs
    rw [state?, hsc]
    exact hs

end World

section Plain

variable {w : World} {st : State}

theorem rule_calm (hv : w.Valid) (hs : w.state? scope = some st) (sel : Selector)
    (effect : Effect) :
    ∃ handle w', (rule scope sel effect).run w = .ok (handle, w') ∧ w.Calm w' :=
  ⟨_, _, rule_run hv.quiet hs sel effect,
    .ofState hv hs rfl rfl rfl rfl (fun _ _ => .inl) fun _ => mem_cons_of_mem _⟩

theorem stall_calm (hv : w.Valid) (hs : w.state? scope = some st) (sel : Selector) :
    ∃ handle w', (stall scope sel).run w = .ok (handle, w') ∧ w.Calm w' := by
  have hq₁ : World.Quiet { w with watches := w.watches ++ [Watch.new] } := hv.quiet
  have hs₁ : state? { w with watches := w.watches ++ [Watch.new] } scope = some st := hs
  refine ⟨_, _, (stall_run scope sel w).trans (rule_run hq₁ hs₁ sel _), ?_⟩
  exact .ofState hv hs rfl rfl rfl rfl (fun _ _ => .inl) fun _ => mem_cons_of_mem _

theorem RuleHandle.remove_calm (hv : w.Valid) (handle : RuleHandle) :
    ∃ w', handle.remove.run w = .ok ((), w') ∧ w.Calm w' := by
  by_cases hl : w.alive handle.state = true
  · obtain ⟨st, hs⟩ := isSome_iff_exists.mp (hv.state_isSome hl)
    exact ⟨_, RuleHandle.remove_run hv.quiet hl hs,
      .ofState hv hs rfl rfl rfl rfl (fun _ _ => .inl) fun _ => mem_cons_of_mem _⟩
  · exact ⟨_, RuleHandle.remove_run_dead (by simpa using hl),
      .ofSame hv rfl rfl rfl (fun _ _ => id) rfl⟩

theorem restore_calm (quote : String → String) (hv : w.Valid) (hs : w.state? scope = some st) :
    ∃ w', (restore quote scope).run w = .ok ((), w') ∧ w.Calm w' :=
  ⟨_, restore_run hv.quiet hs quote,
    .ofState hv hs rfl rfl rfl rfl (fun _ _ => .inl) fun _ => mem_cons_of_mem _⟩

theorem startReset_calm (quote : String → String) (hv : w.Valid)
    (hs : w.state? scope = some st) :
    ∃ reset w', (startReset quote scope).run w = .ok (reset, w') ∧ w.Calm w' := by
  refine ⟨_, _, startReset_run hv.quiet hs quote, .ofState hv hs rfl rfl rfl rfl ?_ ?_⟩
  · intro reset scope' hr
    rcases resetScope_append hr with hold | ⟨-, rfl⟩
    · exact .inl hold
    · exact .inr (by rw [hs]; rfl)
  · intro ev he
    exact mem_cons_of_mem _ (mem_cons_of_mem _ he)

theorem pollReset_calm (hv : w.Valid) (reset : ResetId)
    (hres : ∀ scope, w.resetScope reset = some scope → (w.state? scope).isSome) :
    ∃ out w', (pollReset reset).run w = .ok (out, w') ∧ w.Calm w' := by
  rcases hr : w.resetScope reset with _ | scope
  · exact ⟨_, _, pollReset_run_over hr, .ofSame hv rfl rfl rfl (fun _ _ => id) rfl⟩
  obtain ⟨st, hs⟩ := isSome_iff_exists.mp (hres scope hr)
  by_cases hh : st.holding = 0
  · by_cases hu : st.unfired = []
    · exact ⟨_, _, pollReset_run_ok hv.quiet hr hs hh hu,
        .ofState hv hs rfl rfl rfl rfl (fun _ _ hset => .inl (resetScope_set hset))
          fun _ => mem_cons_of_mem _⟩
    · exact ⟨_, _, pollReset_run_unfired hv.quiet hr hs hh hu,
        .ofState hv hs rfl rfl rfl rfl (fun _ _ hset => .inl (resetScope_set hset))
          fun _ => mem_cons_of_mem _⟩
  · exact ⟨_, _, pollReset_run_waiting hv.quiet hr hs hh,
      .ofState hv hs rfl rfl rfl rfl (fun _ _ => .inl) fun _ => id⟩

end Plain

/-! ## Every legal action runs through -/

namespace Custody

variable {quote : String → String} {c : Custody} {w' : World}

theorem Wf.calm (h : c.Wf) (hc : c.world.Calm w') : Wf { c with world := w' } := by
  refine ⟨hc.valid, ?_, ?_, ?_, ?_, ?_⟩
  · intro scope
    rw [refs, hc.strong]
    exact h.strong scope
  · intro scope
    rw [hc.holding]
    exact h.holding scope
  · rw [hc.active]
    exact h.active
  · intro reset scope hr
    rcases hc.resets reset scope hr with hold | hs
    · exact hc.scopes scope (h.resets reset scope hold)
    · exact hc.scopes scope hs
  · intro gate hg
    obtain ⟨scope, operation, verdict, hm, hh⟩ := h.pending gate hg
    exact ⟨scope, operation, verdict, hc.history _ hm, hh⟩

theorem Wf.drop_run (h : c.Wf) (hm : ⟨scope⟩ ∈ c.holdings) :
    ∃ st, c.world.state? scope = some st ∧ 0 < st.holding ∧
      (Holding.drop ⟨scope⟩).run c.world = .ok ((), c.world.tokenDropped scope st) := by
  obtain ⟨st, hs⟩ := h.state (.inr (.inr hm))
  have hpos : 0 < st.holding := by
    have hct := h.holding scope
    rw [stateD_eq hs] at hct
    rw [hct]
    exact Multiset.count_pos.mpr hm
  exact ⟨st, hs, hpos, Holding.drop_run h.valid.quiet hs hpos⟩

variable {st : State}

theorem Wf.dropped (h : c.Wf) (hs : c.world.state? scope = some st) (pending : Multiset Gate)
    (tokens : Multiset Holding)
    (hh : c.holdings = ⟨scope⟩ ::ₘ (pending.filterMap Gate.holding + tokens))
    (hp : ∀ gate ∈ pending, gate ∈ c.pending) :
    Wf { c with world := c.world.tokenDropped scope st, pending, tokens } := by
  have hlt := h.lt hs
  have hct : ∀ other, c.holdings.count ⟨other⟩ =
      (pending.filterMap Gate.holding + tokens).count ⟨other⟩ +
        if other = scope then 1 else 0 := by
    intro other
    rw [hh, Multiset.count_cons]
    simp
  refine ⟨h.valid.update rfl (length_modify ..), ?_, ?_, h.active, ?_, ?_⟩
  · intro other
    have hrefs : (c.world.tokenDropped scope st).refs other =
        c.world.refs other - if other = scope then 1 else 0 := refs_drop hlt rfl other
    have hold := h.strong other
    have hc := hct other
    simp only [holdings]
    omega
  · intro other
    have hold := h.holding other
    have hc := hct other
    simp only [holdings]
    by_cases ho : other = scope
    · subst ho
      have hst : (c.world.tokenDropped other st).stateD other = _ :=
        stateD_setState_self hs _
      rw [stateD_eq hs] at hold
      rw [if_pos rfl] at hc
      rw [hst]
      simp only
      omega
    · have hst : (c.world.tokenDropped scope st).stateD other = c.world.stateD other :=
        stateD_setState_ne ho _
      rw [if_neg ho] at hc
      rw [hst]
      omega
  · intro reset other hr
    exact state_isSome_set rfl (h.resets reset other hr)
  · intro gate hg
    exact h.pending gate (hp gate hg)

theorem Wf.trapGone (h : c.Wf) {trap : Trap} (ht : trap ∈ c.traps)
    (hc : (World.Calm c.world { w' with strong := c.world.strong }))
    (hst : w'.strong = c.world.strong.modify trap.state (· - 1)) :
    Wf { c with world := w', traps := c.traps.erase trap } := by
  obtain ⟨st, hs⟩ := h.state (.inr (.inl (Multiset.mem_map_of_mem _ ht)))
  have hcm := h.calm hc
  refine ⟨⟨hcm.valid.quiet, ?_⟩, ?_, hcm.holding, hcm.active, hcm.resets, hcm.pending⟩
  · rw [hst, length_modify]
    exact hcm.valid.strong
  · intro other
    have hrefs := refs_drop (h.lt hs) hst other
    have hold := h.strong other
    have hmap : (c.traps.map Trap.state).count other =
        ((c.traps.erase trap).map Trap.state).count other +
          if other = trap.state then 1 else 0 := by
      rw [← Multiset.count_cons, ← Multiset.map_cons, Multiset.cons_erase ht]
    change w'.refs other = c.faults.count other +
      ((c.traps.erase trap).map Trap.state).count other + c.holdings.count ⟨other⟩
    omega

theorem Wf.trapMade (h : c.Wf) (trap : Trap) (hs : c.world.state? trap.state = some st)
    (hc : (World.Calm c.world { w' with strong := c.world.strong }))
    (hst : w'.strong = c.world.strong.modify trap.state (· + 1)) :
    Wf { c with world := w', traps := trap ::ₘ c.traps } := by
  have hcm := h.calm hc
  refine ⟨⟨hcm.valid.quiet, ?_⟩, ?_, hcm.holding, hcm.active, hcm.resets, hcm.pending⟩
  · rw [hst, length_modify]
    exact hcm.valid.strong
  · intro other
    have hrefs := refs_clone (h.lt hs) hst other
    have hold := h.strong other
    change w'.refs other = c.faults.count other +
      ((trap ::ₘ c.traps).map Trap.state).count other + c.holdings.count ⟨other⟩
    rw [Multiset.map_cons, Multiset.count_cons]
    omega

theorem Wf.faultsGone (h : c.Wf) (quote : String → String) (hf : scope ∈ c.faults)
    (hs : c.world.state? scope = some st) :
    Wf { c with
      world := { c.world.restored quote scope st with
        active := none, strong := c.world.strong.modify scope (· - 1) }
      faults := c.faults.erase scope } := by
  have hcm := h.calm (.ofState h.valid hs rfl rfl rfl rfl (fun _ _ => .inl)
    fun _ => mem_cons_of_mem _ : c.world.Calm (c.world.restored quote scope st))
  have hone : c.faults = {scope} := by
    have hflt := h.active
    rcases ha : c.world.active with _ | other
    · rw [hflt, ha] at hf
      exact absurd hf (Multiset.notMem_zero scope)
    · rw [ha] at hflt
      rw [hflt] at hf ⊢
      rw [Multiset.mem_singleton.mp hf]
      rfl
  refine ⟨⟨hcm.valid.quiet, ?_⟩, ?_, hcm.holding, ?_, hcm.resets, hcm.pending⟩
  · simp only [length_modify]
    exact hcm.valid.strong
  · intro other
    have hrefs : refs { c.world.restored quote scope st with
        active := none, strong := c.world.strong.modify scope (· - 1) } other =
        c.world.refs other - if other = scope then 1 else 0 :=
      refs_drop (h.lt hs) rfl other
    have hold := h.strong other
    rw [hone, Multiset.count_singleton] at hold
    rw [hrefs, hone, Multiset.erase_singleton]
    change _ = Multiset.count other 0 + (c.traps.map Trap.state).count other +
      c.holdings.count ⟨other⟩
    rw [Multiset.count_zero]
    omega
  · rw [hone, Multiset.erase_singleton]
    rfl

theorem Wf.stopped (h : c.Wf) {st' : State} (hs : c.world.state? scope = some st)
    (hsc : w'.scopes = (c.world.setState scope st').scopes)
    (hh : st'.holding = st.holding + 1)
    (hst : w'.strong = c.world.strong.modify scope (· + 1)) (ha : w'.active = c.world.active)
    (hr : w'.resets = c.world.resets) {operation : Operation} {verdict : Verdict} {g : Gate}
    (hg : g.holding = some ⟨scope⟩)
    (hhist : w'.history = .gated scope operation verdict g :: c.world.history) :
    Wf { c with world := w', pending := g ::ₘ c.pending } := by
  have hlt := h.lt hs
  have hct : ∀ other,
      ((g ::ₘ c.pending).filterMap Gate.holding + c.tokens).count ⟨other⟩ =
        c.holdings.count ⟨other⟩ + if other = scope then 1 else 0 := by
    intro other
    rw [Multiset.filterMap_cons_some _ _ _ hg, Multiset.cons_add, Multiset.count_cons]
    simp [holdings]
  refine ⟨h.valid.update hsc (by rw [hst, length_modify]), ?_, ?_, ?_, ?_, ?_⟩
  · intro other
    have hrefs := refs_clone hlt hst other
    have hold := h.strong other
    have hc := hct other
    simp only [holdings] at hold hc ⊢
    omega
  · intro other
    have hold := h.holding other
    have hc := hct other
    simp only [holdings] at hold hc ⊢
    rw [stateD_congr hsc]
    by_cases ho : other = scope
    · subst ho
      rw [stateD_eq hs] at hold
      rw [stateD_setState_self hs, hh, hc, hold, if_pos rfl]
    · rw [stateD_setState_ne ho, hold, hc, if_neg ho]
      rfl
  · rw [ha]
    exact h.active
  · intro reset other hrst
    refine state_isSome_set hsc (h.resets reset other ?_)
    rwa [resetScope, hr] at hrst
  · intro gate hgate
    rw [hhist]
    rcases Multiset.mem_cons.mp hgate with rfl | hgate
    · exact ⟨scope, operation, verdict, mem_cons_self, hg⟩
    · obtain ⟨scope', operation', verdict', hm, hh'⟩ := h.pending gate hgate
      exact ⟨scope', operation', verdict', mem_cons_of_mem _ hm, hh'⟩

theorem Wf.gated (h : c.Wf) {op : Operation} {g : Gate} (hg : Gated c.world op g w') :
    Wf { c with
      world := w', pending := if g.holding.isSome then g ::ₘ c.pending else c.pending } := by
  cases hg with
  | inactive => exact h
  | rejected ha hl hs hr he | released ha hl hs hr ht =>
    exact h.calm (.ofState h.valid hs rfl rfl rfl rfl (fun _ _ => .inl)
      fun _ => mem_cons_of_mem _)
  | stalled ha hl hs hr he | held ha hl hs hr ht hd =>
    exact h.stopped hs (by rfl) (by rfl) (by rfl) (by rfl) (by rfl) (by rfl) (by rfl)

theorem Wf.active_none (h : c.Wf)
    (hdead : ∀ scope, c.world.active = some scope → c.world.alive scope = false) :
    c.world.active = none := by
  rcases ha : c.world.active with _ | scope
  · rfl
  · have hflt := h.active
    rw [ha] at hflt
    have hm : scope ∈ c.faults := by
      rw [hflt]
      exact Multiset.mem_singleton_self scope
    have hl := h.alive (.inl hm)
    rw [hdead scope ha] at hl
    cases hl

theorem Wf.opened (h : c.Wf)
    (hdead : ∀ scope, c.world.active = some scope → c.world.alive scope = false)
    (hh : st.holding = 0) (hsc : w'.scopes = c.world.scopes ++ [⟨false, st⟩])
    (hst : w'.strong = c.world.strong ++ [1]) (ha : w'.active = some c.world.scopes.length)
    (hr : w'.resets = c.world.resets) (hhist : w'.history = c.world.history) :
    Wf { c with world := w', faults := {c.world.scopes.length} + c.faults } := by
  have hn := h.active_none hdead
  have hflt : c.faults = 0 := by
    rw [h.active, hn]
    rfl
  have hlen := h.valid.strong
  -- nobody refers to the new scope yet
  have hfr : c.world.refs c.world.scopes.length = 0 := by
    rw [refs, getElem?_eq_none (Nat.le_of_eq hlen)]
    rfl
  have hrefs : ∀ other, w'.refs other =
      c.world.refs other + if other = c.world.scopes.length then 1 else 0 := by
    intro other
    rw [refs, hst]
    by_cases heq : other = c.world.scopes.length
    · rw [if_pos heq, heq, hfr, ← hlen, getElem?_concat_length]
      rfl
    · rw [getElem?_concat_ne _ (hlen ▸ heq), if_neg heq]
      rfl
  have hstate : ∀ other, (w'.stateD other).holding = (c.world.stateD other).holding := by
    intro other
    simp only [stateD, state?, hsc]
    by_cases heq : other = c.world.scopes.length
    · rw [heq, getElem?_concat_length, getElem?_eq_none (Nat.le_refl _)]
      exact hh
    · rw [getElem?_concat_ne _ heq]
  refine ⟨⟨?_, ?_⟩, ?_, ?_, ?_, ?_, ?_⟩
  · intro cell hc
    rw [hsc] at hc
    rcases mem_concat.mp hc with hc | rfl
    · exact h.valid.quiet cell hc
    · rfl
  · simp only [hst, hsc, length_append, hlen, length_singleton]
  · intro other
    have hold := h.strong other
    have hnew := hrefs other
    rw [hflt] at hold ⊢
    change w'.refs other = Multiset.count other ({c.world.scopes.length} + 0) +
      (c.traps.map Trap.state).count other + c.holdings.count ⟨other⟩
    rw [Multiset.add_zero, Multiset.count_singleton]
    rw [Multiset.count_zero] at hold
    omega
  · intro other
    rw [hstate]
    exact h.holding other
  · rw [ha, hflt]
    rfl
  · intro reset other hrst
    rw [resetScope, hr] at hrst
    obtain ⟨st', hs⟩ := isSome_iff_exists.mp (h.resets reset other hrst)
    obtain ⟨cell, hcell, -⟩ := map_eq_some_iff.mp hs
    rw [state?, hsc, getElem?_append_of hcell]
    rfl
  · intro gate hg
    rw [hhist]
    exact h.pending gate hg

/-- **Every legal action runs through**: no cell is borrowed twice, no count goes below
zero, nothing is missing; and the counts stay right. -/
theorem act_ok (h : c.Wf) {a : Action} (hl : a.Legal c) : ∃ c', act quote c a = .ok c' ∧ Wf c' := by
  cases a with
  | resolve g =>
    obtain ⟨hg, -⟩ := hl
    obtain ⟨scope, operation, verdict, hmem, hh⟩ := h.pending g hg
    refine ⟨_, rfl, ?_⟩
    have hsm : (c.pending.erase g).filterMap Gate.holding +
        ((g.holding.elim 0 fun holding => {holding}) + c.tokens) = c.holdings := by
      rw [holdings, pending_erase hg hh, hh, elim_some, Multiset.singleton_add,
        Multiset.add_cons, Multiset.cons_add]
    refine ⟨h.valid, ?_, ?_, h.active, h.resets, ?_⟩
    · simp only [holdings, hsm]
      exact h.strong
    · simp only [holdings, hsm]
      exact h.holding
    · intro gate hgate
      exact h.pending gate (Multiset.mem_of_mem_erase hgate)
  | cancel g =>
    obtain ⟨scope, operation, verdict, hmem, hh⟩ := h.pending g hl
    obtain ⟨st, hs, hpos, hrun⟩ := h.drop_run (mem_holdings_of_pending hl hh)
    refine ⟨_, ?_, h.dropped hs (c.pending.erase g) c.tokens ?_
      fun gate hg => Multiset.mem_of_mem_erase hg⟩
    · simp only [act, hh, hrun, except_ok_bind, except_pure]
    · rw [holdings, pending_erase hl hh, Multiset.cons_add]
  | call call =>
    cases call with
    | openScope =>
      by_cases hdead : ∀ scope, c.world.active = some scope → c.world.alive scope = false
      · simp only [act, openScope_run hdead, except_ok_bind, elim_some]
        exact ⟨_, rfl, h.opened hdead rfl rfl rfl rfl rfl rfl⟩
      · push Not at hdead
        obtain ⟨scope, ha, hlv⟩ := hdead
        refine ⟨c, ?_, h⟩
        simp only [act, openScope_run_active ha (by simpa using hlv), except_ok_bind,
          except_pure, elim_none, Multiset.zero_add]
    | intercept scope selector =>
      obtain ⟨st, hs⟩ := h.state (.inl hl)
      simp only [act, intercept_run h.valid.quiet hs selector, except_pure]
      refine ⟨_, rfl, h.trapMade ⟨c.world.deliveries.length, selector, scope⟩ hs ?_ rfl⟩
      exact .ofState h.valid hs rfl rfl rfl rfl (fun _ _ => .inl) fun _ => mem_cons_of_mem _
    | observe scope selector =>
      obtain ⟨st, hs⟩ := h.state (.inl hl)
      obtain ⟨handle, w₁, hrun, hcm⟩ := rule_calm h.valid hs selector .observe
      refine ⟨_, ?_, h.calm hcm⟩
      simp [act, exec, forget, observe, hrun]
    | reject scope selector msg =>
      obtain ⟨st, hs⟩ := h.state (.inl hl)
      obtain ⟨handle, w₁, hrun, hcm⟩ := rule_calm h.valid hs selector (.reject msg)
      refine ⟨_, ?_, h.calm hcm⟩
      simp [act, exec, forget, reject, hrun]
    | stall scope selector =>
      obtain ⟨st, hs⟩ := h.state (.inl hl)
      obtain ⟨handle, w₁, hrun, hcm⟩ := stall_calm h.valid hs selector
      refine ⟨_, ?_, h.calm hcm⟩
      simp [act, exec, forget, hrun]
    | remove handle =>
      obtain ⟨w₁, hrun, hcm⟩ := RuleHandle.remove_calm h.valid handle
      refine ⟨_, ?_, h.calm hcm⟩
      simp [act, exec, hrun]
    | gate operation =>
      obtain ⟨g, w₁, hrun, hg⟩ := gate_run h.valid.quiet (fun _ => h.valid.state_isSome) operation
      refine ⟨_, ?_, h.gated hg⟩
      simp [act, hrun]
    | decide held d | dropHeld held =>
      exact ⟨_, rfl, h.calm (.ofSame h.valid rfl rfl rfl (fun _ _ => id) rfl)⟩
    | waitTrap trap =>
      rcases hp : (c.world.deliveries[trap.receive]?.getD Oneshot.new).poll with held | _
      · simp only [act, Trap.wait_run_ready hp, except_pure]
        exact ⟨_, rfl, h.trapGone hl (.ofSame h.valid rfl rfl rfl (fun _ _ => id) rfl) rfl⟩
      · refine ⟨c, ?_, h⟩
        simp only [act, Trap.wait_run_pending hp, except_ok_bind, except_pure]
    | dropTrap trap =>
      simp only [act, Trap.drop_run, except_pure]
      exact ⟨_, rfl, h.trapGone hl (.ofSame h.valid rfl rfl rfl (fun _ _ => id) rfl) rfl⟩
    | dropHolding holding =>
      obtain ⟨scope⟩ := holding
      have hm : ⟨scope⟩ ∈ c.holdings := Multiset.mem_add.mpr (.inr hl)
      obtain ⟨st, hs, hpos, hrun⟩ := h.drop_run hm
      refine ⟨_, ?_, h.dropped hs c.pending (c.tokens.erase ⟨scope⟩) ?_ fun gate hg => hg⟩
      · simp only [act, hrun, except_ok_bind, except_pure]
      · rw [holdings, ← Multiset.add_cons, Multiset.cons_erase hl]
    | restore scope =>
      obtain ⟨st, hs⟩ := h.state (.inl hl)
      obtain ⟨w₁, hrun, hcm⟩ := restore_calm quote h.valid hs
      refine ⟨_, ?_, h.calm hcm⟩
      simp [act, exec, hrun]
    | startReset scope =>
      obtain ⟨st, hs⟩ := h.state (.inl hl)
      obtain ⟨reset, w₁, hrun, hcm⟩ := startReset_calm quote h.valid hs
      refine ⟨_, ?_, h.calm hcm⟩
      simp [act, exec, forget, hrun]
    | pollReset reset =>
      obtain ⟨out, w₁, hrun, hcm⟩ := pollReset_calm h.valid reset (h.resets reset)
      refine ⟨_, ?_, h.calm hcm⟩
      simp [act, exec, forget, hrun]
    | abandonReset reset =>
      exact ⟨_, rfl, h.calm (.ofSame h.valid rfl rfl rfl (fun _ _ => resetScope_set) rfl)⟩
    | dropFaults scope =>
      obtain ⟨st, hs⟩ := h.state (.inl hl)
      refine ⟨_, ?_, h.faultsGone quote hl hs⟩
      simp only [act, dropFaults_run h.valid.quiet hs, except_ok_bind, except_pure]

end Custody

end Redsuite
