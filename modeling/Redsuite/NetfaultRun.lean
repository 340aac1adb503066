import Redsuite.Netfault

/-!
# What each call of the fault scope does

`Netfault` writes the calls out as code that may panic.
-/

namespace Redsuite

open List Option

/-! ## Running code -/

variable {ε α : Type} {w : World} {scope : ScopeId} {s : State} {op : Operation}
  {reset : ResetId}

@[simp] theorem except_pure (a : α) : (pure a : Except ε α) = .ok a := rfl

@[simp] theorem except_throw (e : ε) : (throw e : Except ε α) = .error e := rfl

@[simp] theorem except_ok_bind {β : Type} (a : α) (f : α → Except ε β) :
    (Except.ok a >>= f) = f a := rfl

@[simp] theorem except_error_bind {ε α β : Type} (e : ε) (f : α → Except ε β) :
    (Except.error e >>= f) = Except.error e := rfl

theorem forM_run {body : α → M Unit} {effect : World → α → World}
    (h : ∀ w a, (body a).run w = .ok ((), effect w a)) :
    ∀ (l : List α) (w : World), (l.forM body).run w = .ok ((), l.foldl effect w) := by
  intro l
  induction l with
  | nil => intro w; rfl
  | cons a rest ih =>
    intro w
    change (body a >>= fun _ => rest.forM body).run w = _
    rw [StateT.run_bind, h, except_ok_bind, ih]
    rfl

/-! ## Quiet worlds -/

namespace World

/-- No state is borrowed. -/
def Quiet (w : World) : Prop := ∀ cell ∈ w.scopes, cell.borrowed = false

def state? (w : World) (scope : ScopeId) : Option State := w.scopes[scope]?.map Scope.state

def setState (w : World) (scope : ScopeId) (state : State) : World :=
  { w with scopes := w.scopes.set scope ⟨false, state⟩ }

theorem quiet_init : init.Quiet := by
  intro cell hc
  cases hc

theorem Quiet.cell (hq : w.Quiet) {s : State} (hs : w.state? scope = some s) :
    w.scopes[scope]? = some ⟨false, s⟩ := by
  unfold state? at hs
  rcases hc : w.scopes[scope]? with _ | ⟨borrowed, contents⟩
  · rw [hc] at hs
    cases hs
  · rw [hc] at hs
    obtain rfl : contents = s := some.inj hs
    have hb : borrowed = false := hq _ (mem_of_getElem? hc)
    rw [hb]

theorem Quiet.setState (hq : w.Quiet) (scope : ScopeId) (s : State) :
    (w.setState scope s).Quiet := by
  intro cell hc
  rcases mem_or_eq_of_mem_set hc with hc | rfl
  · exact hq cell hc
  · rfl

theorem state?_setState_self (hs : (w.state? scope).isSome) (s' : State) :
    (w.setState scope s').state? scope = some s' := by
  have hlt : scope < w.scopes.length := by
    rcases Nat.lt_or_ge scope w.scopes.length with hlt | hge
    · exact hlt
    · rw [state?, getElem?_eq_none hge] at hs
      cases hs
  rw [state?, setState, getElem?_set_self hlt]
  rfl

theorem state?_setState_ne {other : ScopeId} (h : other ≠ scope) (s : State) :
    (w.setState scope s).state? other = w.state? other := by
  rw [state?, setState, getElem?_set_ne (Ne.symm h)]
  rfl

end World

theorem borrowMut_run (hq : w.Quiet) (hs : w.state? scope = some s) :
    (borrowMut scope).run w =
      .ok (s, { w with scopes := w.scopes.set scope ⟨true, s⟩ }) := by
  simp [borrowMut, StateT.run, hq.cell hs]

theorem borrowMut_run_none (hs : w.state? scope = none) :
    (borrowMut scope).run w = .error .unwrapNone := by
  have hc : w.scopes[scope]? = none := by simpa [World.state?] using hs
  simp [borrowMut, StateT.run, hc]

theorem strong_inc_dec (strong : List ℕ) (scope : ScopeId) :
    (strong.modify scope (· + 1)).modify scope (· - 1) = strong := by
  rw [modify_modify_eq]
  have : ((fun n : ℕ => n - 1) ∘ fun n => n + 1) = id := by
    funext n
    simp
  rw [this, modify_id]

/-! ## The gate -/

def observedHits (rules : List Rule) (operation : Operation) (hits : List Hits) : List Hits :=
  rules.foldl
    (fun hits rule =>
      if rule.effect.isObserve && rule.selector.matches operation then
        hits.modify rule.hits Hits.record
      else hits) hits

theorem observeHits_run (rules : List Rule) (op : Operation) (w : World) :
    (observeHits rules op).run w =
      .ok ((), { w with hits := observedHits rules op w.hits }) := by
  have hbody : ∀ (w : World) (rule : Rule),
      ((if rule.effect.isObserve && rule.selector.matches op then recordHit rule.hits
        else pure () : M Unit)).run w =
      .ok ((), { w with
        hits := if rule.effect.isObserve && rule.selector.matches op then
          w.hits.modify rule.hits Hits.record else w.hits }) := by
    intro w rule
    split <;> rfl
  rw [observeHits, forM_run hbody]
  congr 2
  unfold observedHits
  induction rules generalizing w with
  | nil => rfl
  | cons rule rest ih =>
    exact ih _

def State.counted (self : State) (operation : Operation) : State :=
  { self with observed := self.observed.modify operation.stage.index (· + 1) }

/-- The operation is dropped again when the trap's receiver is gone. -/
def World.delivered (w : World) (trap : TrapId) : Bool :=
  ((w.deliveries[trap]?).map fun c => c.sender && c.receiver).getD false

/-- Everything `gate` can do, one case for each way through it. -/
inductive Gated (w : World) (operation : Operation) : Gate → World → Prop where
  | inactive (h : ∀ scope, w.active = some scope → w.alive scope = false) :
      Gated w operation (.decided .release) w
  | rejected {scope : ScopeId} {state : State} {rule : Rule} {message : String}
      (ha : w.active = some scope) (hl : w.alive scope = true)
      (hs : w.state? scope = some state) (hr : decidingRule state.rules operation = some rule)
      (he : rule.effect = .reject message) :
      Gated w operation (.decided (.reject message))
        { w.setState scope (state.counted operation) with
          hits := (observedHits state.rules operation w.hits).modify rule.hits Hits.record
          history :=
            .gated scope operation (.rejected rule.hits) (.decided (.reject message)) :: w.history }
  | stalled {scope : ScopeId} {state : State} {rule : Rule} {resume : WatchId}
      (ha : w.active = some scope) (hl : w.alive scope = true)
      (hs : w.state? scope = some state) (hr : decidingRule state.rules operation = some rule)
      (he : rule.effect = .stall resume) :
      Gated w operation (.stalled ⟨resume, w.version resume⟩ ⟨scope⟩)
        { w.setState scope { state.counted operation with holding := state.holding + 1 } with
          strong := w.strong.modify scope (· + 1)
          hits := (observedHits state.rules operation w.hits).modify rule.hits Hits.record
          history :=
            .gated scope operation (.stalled rule.hits)
              (.stalled ⟨resume, w.version resume⟩ ⟨scope⟩) :: w.history }
  /-- no rule decides and no armed trap matches -/
  | released {scope : ScopeId} {state : State}
      (ha : w.active = some scope) (hl : w.alive scope = true)
      (hs : w.state? scope = some state) (hr : decidingRule state.rules operation = none)
      (ht : armedTrap state.traps operation = none) :
      Gated w operation (.decided .release)
        { w.setState scope (state.counted operation) with
          hits := observedHits state.rules operation w.hits
          history := .gated scope operation .released (.decided .release) :: w.history }
  | held {scope : ScopeId} {state : State} {index : ℕ} {trap : TrapId}
      (ha : w.active = some scope) (hl : w.alive scope = true)
      (hs : w.state? scope = some state) (hr : decidingRule state.rules operation = none)
      (ht : armedTrap state.traps operation = some index)
      (hd : state.traps[index]?.bind Interception.deliver = some trap) :
      Gated w operation (.held w.decisions.length ⟨state.reset, w.version state.reset⟩ ⟨scope⟩)
        { w.setState scope
            { state.counted operation with
              traps := state.traps.modify index fun trap => { trap with deliver := none }
              sequence := state.sequence + 1
              holding := state.holding + 1 } with
          strong := w.strong.modify scope (· + 1)
          hits := observedHits state.rules operation w.hits
          decisions := (w.decisions ++ [Oneshot.new]).modify w.decisions.length fun c =>
            if w.delivered trap then c else c.dropSender
          deliveries := w.deliveries.modify trap fun c =>
            (c.send ⟨operation, state.sequence + 1, w.decisions.length⟩).1
          history :=
            .gated scope operation (.held trap (state.sequence + 1) (w.delivered trap))
              (.held w.decisions.length ⟨state.reset, w.version state.reset⟩ ⟨scope⟩) ::
              w.history }

theorem armedTrap_deliver {traps : List Interception} {i : ℕ}
    (h : armedTrap traps op = some i) :
    ∃ trap, traps[i]?.bind Interception.deliver = some trap := by
  obtain ⟨hlt, hp, -⟩ := findIdx?_eq_some_iff_getElem.mp h
  simp only [Bool.and_eq_true, isSome_iff_exists] at hp
  obtain ⟨⟨trap, hd⟩, -⟩ := hp
  exact ⟨trap, by rw [getElem?_eq_getElem hlt]; exact hd⟩

theorem decidingRule_effect {rules : List Rule} {rule : Rule}
    (h : decidingRule rules op = some rule) : rule.effect ≠ .observe := by
  have hp := find?_some h
  intro he
  simp [he, Effect.isObserve] at hp

theorem upgrade_run_dead {weak : Option ScopeId}
    (h : ∀ scope, weak = some scope → w.alive scope = false) :
    (upgrade weak).run w = .ok (none, w) := by
  cases weak with
  | none => rfl
  | some scope => simp [upgrade, h scope rfl]

theorem upgrade_run_alive {weak : Option ScopeId} (hw : weak = some scope)
    (h : w.alive scope = true) :
    (upgrade weak).run w =
      .ok (some scope, { w with strong := w.strong.modify scope (· + 1) }) := by
  subst hw
  simp [upgrade, h, cloneRc]

theorem gate_run_head (hq : w.Quiet) (ha : w.active = some scope) (hl : w.alive scope = true)
    (hs : w.state? scope = some s) (op : Operation) :
    (gate op).run w =
      (match decidingRule s.rules op with
        | some rule => gateRule scope (s.counted op) op rule
        | none => gateTrap scope (s.counted op) op).run
        { w with
          scopes := w.scopes.set scope ⟨true, s⟩
          strong := w.strong.modify scope (· + 1)
          hits := observedHits s.rules op w.hits } := by
  have hq₁ : World.Quiet { w with strong := w.strong.modify scope (· + 1) } := hq
  have hs₁ : World.state? { w with strong := w.strong.modify scope (· + 1) } scope =
      some s := hs
  simp only [gate, StateT.run_bind, StateT.run_get, except_pure, except_ok_bind,
    upgrade_run_alive ha hl,
    borrowMut_run hq₁ hs₁, observeHits_run]
  rfl

theorem leaveGate_run (w : World) (scope : ScopeId) (s : State) (op : Operation)
    (verdict : Verdict) (gate : Gate) :
    (leaveGate scope s op verdict gate).run w =
      .ok (gate, { w.setState scope s with
        strong := w.strong.modify scope (· - 1)
        history := .gated scope op verdict gate :: w.history }) := rfl

theorem gateTrap_run_held {i : ℕ} {trap : TrapId}
    (ht : armedTrap s.traps op = some i)
    (hd : s.traps[i]?.bind Interception.deliver = some trap) :
    (gateTrap scope s op).run w =
      .ok (.held w.decisions.length ⟨s.reset, w.version s.reset⟩ ⟨scope⟩,
        { w.setState scope
            { s with
              traps := s.traps.modify i fun trap => { trap with deliver := none }
              sequence := s.sequence + 1
              holding := s.holding + 1 } with
          strong := (w.strong.modify scope (· + 1)).modify scope (· - 1)
          decisions := (w.decisions ++ [Oneshot.new]).modify w.decisions.length fun c =>
            if w.delivered trap then c else c.dropSender
          deliveries := w.deliveries.modify trap fun c =>
            (c.send ⟨op, s.sequence + 1, w.decisions.length⟩).1
          history :=
            .gated scope op (.held trap (s.sequence + 1) (w.delivered trap))
              (.held w.decisions.length ⟨s.reset, w.version s.reset⟩ ⟨scope⟩) ::
              w.history }) := by
  have htake : takeDeliver s.traps i =
      (some trap, s.traps.modify i fun trap => { trap with deliver := none }) := by
    rw [takeDeliver, hd]
  have hback : ∀ held : Held, (w.deliveries[trap]?.map fun c => (c.send held).2).getD (some held) =
      if w.delivered trap then none else some held := by
    intro held
    unfold World.delivered
    rcases w.deliveries[trap]? with _ | c
    · rfl
    · simp only [map_some, getD_some, Oneshot.send]
      split <;> rfl
  simp only [gateTrap, ht, htake, StateT.run_bind, newDecision, sendHeld, StateT.run_modifyGet,
    except_pure, except_ok_bind, hback]
  by_cases hw : w.delivered trap = true
  · simp [hw, subscribe, Holding.new, cloneRc, leaveGate_run, World.setState, World.version]
    exact (modify_id ..).symm
  · simp [hw, Held.drop, subscribe, Holding.new, cloneRc, leaveGate_run, World.setState,
      World.version]

/-- **The gate runs through**, and does one of the things `Gated` lists. -/
theorem gate_run (hq : w.Quiet) (hv : ∀ scope, w.alive scope = true → (w.state? scope).isSome)
    (op : Operation) :
    ∃ g w', (gate op).run w = .ok (g, w') ∧ Gated w op g w' := by
  by_cases hdead : ∀ scope, w.active = some scope → w.alive scope = false
  · refine ⟨_, _, ?_, .inactive hdead⟩
    simp [gate, upgrade_run_dead hdead]
  push Not at hdead
  obtain ⟨scope, ha, hl⟩ := hdead
  have hl : w.alive scope = true := by simpa using hl
  obtain ⟨s, hs⟩ := isSome_iff_exists.mp (hv scope hl)
  rw [gate_run_head hq ha hl hs]
  rcases hr : decidingRule s.rules op with _ | rule
  · rcases ht : armedTrap s.traps op with _ | i
    · refine ⟨_, _, ?_, .released ha hl hs hr ht⟩
      simp only [gateTrap, State.counted, ht, leaveGate_run, World.setState, set_set,
        strong_inc_dec]
    · obtain ⟨trap, hd⟩ := armedTrap_deliver ht
      have ht' : armedTrap (s.counted op).traps op = some i := ht
      refine ⟨_, _, ?_, .held ha hl hs hr ht hd⟩
      simp only [gateTrap_run_held ht' hd, World.setState, set_set, strong_inc_dec]
      rfl
  · rcases he : rule.effect with _ | msg | resume
    · exact absurd he (decidingRule_effect hr)
    · refine ⟨_, _, ?_, .rejected ha hl hs hr he⟩
      simp only [gateRule, StateT.run_bind, recordHit, StateT.run_modify, except_pure,
        except_ok_bind, he, leaveGate_run, World.setState, set_set, strong_inc_dec]
    · refine ⟨_, _, ?_, .stalled ha hl hs hr he⟩
      simp only [gateRule, StateT.run_bind, recordHit, StateT.run_modify, except_pure,
        except_ok_bind, he, subscribe, StateT.run_get, Holding.new, cloneRc, StateT.run_pure,
        leaveGate_run, World.setState, set_set, strong_inc_dec]
      rfl

/-! ## The other calls -/

def World.tokenDropped (w : World) (scope : ScopeId) (state : State) : World :=
  { w.setState scope
      { state with holding := state.holding - 1, drained := state.drained.notifyWaiters } with
    strong := w.strong.modify scope (· - 1) }

theorem Holding.drop_run (hq : w.Quiet) (hs : w.state? scope = some s)
    (hpos : 0 < s.holding) :
    (Holding.drop ⟨scope⟩).run w = .ok ((), w.tokenDropped scope s) := by
  have hne : s.holding ≠ 0 := Nat.ne_of_gt hpos
  simp [Holding.drop, borrowMut_run hq hs, hne, endBorrow, dropRc, World.tokenDropped,
    World.setState]

theorem openScope_run_active (ha : w.active = some scope) (hl : w.alive scope = true) :
    openScope.run w = .ok (none, w) := by
  simp [openScope, upgrade_run_alive ha hl, dropRc, strong_inc_dec]

theorem openScope_run (h : ∀ scope, w.active = some scope → w.alive scope = false) :
    openScope.run w =
      .ok (some w.scopes.length,
        { w with
          active := some w.scopes.length
          scopes := w.scopes ++
            [⟨false, ⟨[], [], [], [0, 0, 0], 0, 0, w.watches.length, Notify.new⟩⟩]
          strong := w.strong ++ [1]
          watches := w.watches ++ [Watch.new] }) := by
  simp [openScope, upgrade_run_dead h, newWatch]

theorem intercept_run (hq : w.Quiet) (hs : w.state? scope = some s) (selector : Selector) :
    (intercept scope selector).run w =
      .ok (⟨w.deliveries.length, selector, scope⟩,
        { w.setState scope
            { s with traps := s.traps ++ [⟨selector, some w.deliveries.length⟩] } with
          strong := w.strong.modify scope (· + 1)
          deliveries := w.deliveries ++ [Oneshot.new]
          history := .requested scope w.deliveries.length selector :: w.history }) := by
  have hq₁ : World.Quiet { w with deliveries := w.deliveries ++ [Oneshot.new] } := hq
  have hs₁ : World.state? { w with deliveries := w.deliveries ++ [Oneshot.new] } scope =
      some s := hs
  simp [intercept, newDelivery, borrowMut_run hq₁ hs₁, endBorrow, cloneRc, note,
    World.setState]

theorem rule_run (hq : w.Quiet) (hs : w.state? scope = some s) (sel : Selector)
    (effect : Effect) :
    (rule scope sel effect).run w =
      .ok (⟨scope, w.hits.length⟩,
        { w.setState scope
            { s with rules := s.rules ++ [⟨sel, effect, w.hits.length⟩] } with
          hits := w.hits ++ [⟨0, Notify.new⟩]
          history := .installed scope ⟨sel, effect, w.hits.length⟩ :: w.history }) := by
  simp [rule, borrowMut_run hq hs, newHits, endBorrow, note, World.setState]

theorem stall_run (scope : ScopeId) (sel : Selector) (w : World) :
    (stall scope sel).run w =
      (rule scope sel (.stall w.watches.length)).run
        { w with watches := w.watches ++ [Watch.new] } := by
  simp [stall, newWatch]

def droppedWatches (rules : List Rule) (watches : List Watch) : List Watch :=
  rules.foldl
    (fun watches rule =>
      match rule.effect with
      | .stall resume => watches.modify resume Watch.dropSender
      | _ => watches) watches

theorem dropRules_run (rules : List Rule) (w : World) :
    (rules.forM Rule.drop).run w =
      .ok ((), { w with watches := droppedWatches rules w.watches }) := by
  have hbody : ∀ (w : World) (rule : Rule), (Rule.drop rule).run w =
      .ok ((), { w with watches := match rule.effect with
        | .stall resume => w.watches.modify resume Watch.dropSender
        | _ => w.watches }) := by
    intro w rule
    rcases he : rule.effect with _ | msg | resume <;> simp [Rule.drop, he, dropWatch]
  rw [forM_run hbody]
  congr 2
  unfold droppedWatches
  induction rules generalizing w with
  | nil => rfl
  | cons rule rest ih =>
    exact ih _

def droppedDeliveries (traps : List Interception) (deliveries : List (Oneshot Held)) :
    List (Oneshot Held) :=
  traps.foldl
    (fun deliveries trap =>
      match trap.deliver with
      | some channel => deliveries.modify channel Oneshot.dropSender
      | none => deliveries) deliveries

theorem dropTraps_run (traps : List Interception) (w : World) :
    (traps.forM Interception.drop).run w =
      .ok ((), { w with deliveries := droppedDeliveries traps w.deliveries }) := by
  have hbody : ∀ (w : World) (trap : Interception), (Interception.drop trap).run w =
      .ok ((), { w with deliveries := match trap.deliver with
        | some ch => w.deliveries.modify ch Oneshot.dropSender
        | none => w.deliveries }) := by
    intro w trap
    rcases he : trap.deliver with _ | ch <;> simp [Interception.drop, he, dropDelivery]
  rw [forM_run hbody]
  congr 2
  unfold droppedDeliveries
  induction traps generalizing w with
  | nil => rfl
  | cons trap rest ih =>
    exact ih _

theorem RuleHandle.remove_run_dead {handle : RuleHandle} (h : w.alive handle.state = false) :
    handle.remove.run w = .ok ((), w) := by
  have hd : ∀ scope, some handle.state = some scope → w.alive scope = false := by
    intro scope hs
    rw [← some.inj hs]
    exact h
  simp [RuleHandle.remove, upgrade_run_dead hd]

theorem RuleHandle.remove_run (hq : w.Quiet) {handle : RuleHandle}
    (hl : w.alive handle.state = true) (hs : w.state? handle.state = some s) :
    handle.remove.run w =
      .ok ((), { w.setState handle.state
          { s with
            rules := s.rules.filter fun rule => !decide (rule.hits = handle.hits) } with
        watches :=
          droppedWatches (s.rules.filter fun rule => rule.hits = handle.hits) w.watches
        history := .removed handle.state handle.hits :: w.history }) := by
  have hq₁ : World.Quiet { w with strong := w.strong.modify handle.state (· + 1) } := hq
  have hs₁ : World.state? { w with strong := w.strong.modify handle.state (· + 1) }
      handle.state = some s := hs
  simp only [RuleHandle.remove, StateT.run_bind, upgrade_run_alive rfl hl, except_ok_bind,
    borrowMut_run hq₁ hs₁, dropRules_run, endBorrow, dropRc, note, StateT.run_modify,
    except_pure, strong_inc_dec, set_set, World.setState]

theorem State.restore_run (quote : String → String) (s : State) (w : World) :
    (s.restore quote).run w =
      .ok ({ s with
          rules := [], traps := [], unfired := s.unfired ++ unfiredNames quote s.traps },
        { w with
          watches := (droppedWatches s.rules w.watches).modify s.reset Watch.sendReplace
          deliveries := droppedDeliveries s.traps w.deliveries }) := by
  simp only [State.restore, StateT.run_bind, dropRules_run, except_ok_bind, sendReplace,
    StateT.run_modify, except_pure, dropTraps_run, StateT.run_pure]

def World.restored (w : World) (quote : String → String) (scope : ScopeId) (state : State) :
    World :=
  { w.setState scope
      { state with
        rules := [], traps := [], unfired := state.unfired ++ unfiredNames quote state.traps } with
    watches := (droppedWatches state.rules w.watches).modify state.reset Watch.sendReplace
    deliveries := droppedDeliveries state.traps w.deliveries
    history := .restored scope :: w.history }

theorem restore_run (hq : w.Quiet) (hs : w.state? scope = some s) (quote : String → String) :
    (restore quote scope).run w = .ok ((), w.restored quote scope s) := by
  simp only [restore, StateT.run_bind, borrowMut_run hq hs, except_ok_bind, State.restore_run,
    endBorrow, note, StateT.run_modify, except_pure, World.restored, World.setState, set_set]

theorem startReset_run (hq : w.Quiet) (hs : w.state? scope = some s) (quote : String → String) :
    (startReset quote scope).run w =
      .ok (w.resets.length,
        { w.restored quote scope s with
          resets := w.resets ++ [some scope]
          history := .resetStarted w.resets.length scope :: .restored scope :: w.history }) := by
  simp [startReset, restore_run hq hs, note, World.restored, World.setState]

theorem dropFaults_run (hq : w.Quiet) (hs : w.state? scope = some s) (quote : String → String) :
    (dropFaults quote scope).run w =
      .ok ((), { w.restored quote scope s with
        active := none
        strong := w.strong.modify scope (· - 1) }) := by
  simp [dropFaults, restore_run hq hs, dropRc, World.restored, World.setState]

theorem pollReset_run_over (hr : w.resetScope reset = none) :
    (pollReset reset).run w = .ok (.pending, w) := by
  simp [pollReset, hr]

theorem pollReset_run_waiting (hq : w.Quiet) (hr : w.resetScope reset = some scope)
    (hs : w.state? scope = some s) (hh : s.holding ≠ 0) :
    (pollReset reset).run w = .ok (.pending, w.setState scope s) := by
  simp [pollReset, hr, borrowMut_run hq hs, hh, endBorrow, World.setState]

theorem pollReset_run_ok (hq : w.Quiet) (hr : w.resetScope reset = some scope)
    (hs : w.state? scope = some s) (hh : s.holding = 0) (hu : s.unfired = []) :
    (pollReset reset).run w =
      .ok (.ready .ok, { w.setState scope { s with unfired := [] } with
        resets := w.resets.set reset none
        history := .resetOk reset scope :: w.history }) := by
  simp [pollReset, hr, borrowMut_run hq hs, hh, hu, endBorrow, endReset, note, World.setState]

theorem pollReset_run_unfired (hq : w.Quiet) (hr : w.resetScope reset = some scope)
    (hs : w.state? scope = some s) (hh : s.holding = 0) (hu : s.unfired ≠ []) :
    (pollReset reset).run w =
      .ok (.ready (.unfired s.unfired), { w.setState scope { s with unfired := [] } with
        resets := w.resets.set reset none
        history := .resetErr reset scope s.unfired :: w.history }) := by
  simp [pollReset, hr, borrowMut_run hq hs, hh, hu, endBorrow, endReset, note, World.setState]

/-! ## The scenario's end of a trap -/

theorem Trap.wait_run_pending {trap : Trap}
    (h : (w.deliveries[trap.receive]?.getD Oneshot.new).poll = .pending) :
    trap.wait.run w = .ok (.pending, w) := by
  simp [Trap.wait, h]

theorem Trap.wait_run_ready {trap : Trap} {held : Option Held}
    (h : (w.deliveries[trap.receive]?.getD Oneshot.new).poll = .ready held) :
    trap.wait.run w =
      .ok (.ready held, { w with
        deliveries := w.deliveries.modify trap.receive Oneshot.dropReceiver
        strong := w.strong.modify trap.state (· - 1) }) := by
  simp [Trap.wait, h, dropRc]

theorem Trap.drop_run (trap : Trap) (w : World) :
    trap.drop.run w =
      .ok ((), { w with
        deliveries := w.deliveries.modify trap.receive Oneshot.dropReceiver
        decisions := match w.deliveries[trap.receive]?.bind Oneshot.value with
          | none => w.decisions
          | some held => w.decisions.modify held.decide Oneshot.dropSender
        strong := w.strong.modify trap.state (· - 1) }) := by
  rcases hv : w.deliveries[trap.receive]?.bind Oneshot.value with _ | held
  · simp [Trap.drop, hv, dropRc]
  · simp [Trap.drop, hv, Held.drop, dropRc]

/-! ## Resets in progress -/

theorem resetScope_set {resets : List (Option ScopeId)} {reset' : ResetId}
    (h : (resets.set reset none)[reset']?.join = some scope) :
    resets[reset']?.join = some scope := by
  obtain ⟨e, he, hsco⟩ := bind_eq_some_iff.mp h
  obtain ⟨-, rfl⟩ | ⟨-, hold⟩ := of_getElem?_set he
  · cases hsco
  · rwa [hold]

theorem resetScope_append {resets : List (Option ScopeId)} {scope' : ScopeId}
    (h : (resets ++ [some scope'])[reset]?.join = some scope) :
    resets[reset]?.join = some scope ∨ reset = resets.length ∧ scope' = scope := by
  obtain ⟨e, he, hsco⟩ := bind_eq_some_iff.mp h
  obtain ⟨hla, rfl⟩ | ⟨-, hold⟩ := of_getElem?_concat he
  · exact .inr ⟨hla, some.inj hsco⟩
  · rw [hold]
    exact .inl hsco

end Redsuite
