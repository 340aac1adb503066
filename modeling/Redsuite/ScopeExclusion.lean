import Redsuite.Release
import Redsuite.ScopeHistory

/-!
# One scope at a time

A proxy has at most one live `Faults`.
-/

namespace Redsuite

open List

/-! ## Channels and their scopes -/

/-- A trap of this scope was asked for on this channel. -/
def World.Requests (w : World) (scope : ScopeId) (trap : TrapId) : Prop :=
  ∃ selector, .requested scope trap selector ∈ w.history

/-- An operation of this scope was stopped and waits for its decision on this channel. -/
def World.Stops (w : World) (scope : ScopeId) (decision : DecisionId) : Prop :=
  ∃ operation verdict receiver,
    .gated scope operation verdict (.held decision receiver ⟨scope⟩) ∈ w.history

/-- Every channel of a trap or of a decision belongs to one scope. -/
structure Owned (w : World) : Prop where
  bound : ∀ scope trap, w.Requests scope trap → trap < w.deliveries.length
  trap : ∀ scope other trap, w.Requests scope trap → w.Requests other trap → scope = other
  decision : ∀ scope other decision, w.Stops scope decision → w.Stops other decision →
    scope = other
  /-- what waits in a trap's channel was stopped in the scope of the trap -/
  delivered : ∀ (trap : TrapId) (held : Held), w.deliveries[trap]?.bind Oneshot.value = some held →
    ∃ scope, w.Requests scope trap ∧ w.Stops scope held.decide

section Pieces

variable {quote : String → String} {w w' : World}

theorem Owned.init : Owned World.init := by
  refine ⟨?_, ?_, ?_, ?_⟩
  · rintro scope trap ⟨sel, hm⟩
    cases hm
  · rintro scope other trap ⟨sel, hm⟩
    cases hm
  · rintro scope other d ⟨operation, verdict, receiver, hm⟩
    cases hm
  · intro trap held hv
    cases hv

theorem Owned.quiet (h : Owned w) (hdels : w.deliveries.length ≤ w'.deliveries.length)
    (hval : ∀ (trap : TrapId) (held : Held), w'.deliveries[trap]?.bind Oneshot.value = some held →
      w.deliveries[trap]?.bind Oneshot.value = some held)
    (hreqs : ∀ scope trap, w'.Requests scope trap ↔ w.Requests scope trap)
    (hstops : ∀ scope d, w'.Stops scope d ↔ w.Stops scope d) : Owned w' := by
  refine ⟨?_, ?_, ?_, ?_⟩
  · intro scope trap hr
    exact Nat.lt_of_lt_of_le (h.bound scope trap ((hreqs _ _).mp hr)) hdels
  · intro scope other trap hr hr'
    exact h.trap scope other trap ((hreqs _ _).mp hr) ((hreqs _ _).mp hr')
  · intro scope other d hs hs'
    exact h.decision scope other d ((hstops _ _).mp hs) ((hstops _ _).mp hs')
  · intro trap held hv
    obtain ⟨scope, hr, hs⟩ := h.delivered trap held (hval trap held hv)
    exact ⟨scope, (hreqs _ _).mpr hr, (hstops _ _).mpr hs⟩

/-- An event that makes no channel. -/
def Event.Plain (event : Event) : Prop :=
  (∀ scope trap selector, event ≠ .requested scope trap selector) ∧
    ∀ scope operation verdict decision receiver holding,
      event ≠ .gated scope operation verdict (.held decision receiver holding)

theorem requests_cons {ev : Event} (hh : w'.history = ev :: w.history)
    (hne : ∀ scope trap sel, ev ≠ .requested scope trap sel) (scope : ScopeId)
    (trap : TrapId) : w'.Requests scope trap ↔ w.Requests scope trap := by
  simp only [World.Requests, hh, mem_cons, (hne scope trap _).symm, false_or]

theorem stops_cons {ev : Event} (hh : w'.history = ev :: w.history)
    (hne : ∀ scope operation verdict d rx holding,
      ev ≠ .gated scope operation verdict (.held d rx holding))
    (scope : ScopeId) (d : DecisionId) : w'.Stops scope d ↔ w.Stops scope d := by
  simp only [World.Stops, hh, mem_cons, (hne scope _ _ d _ _).symm, false_or]

theorem Owned.noted (h : Owned w) {ev : Event} (hh : w'.history = ev :: w.history)
    (hev : ev.Plain) (hdels : w.deliveries.length ≤ w'.deliveries.length)
    (hval : ∀ (trap : TrapId) (held : Held), w'.deliveries[trap]?.bind Oneshot.value = some held →
      w.deliveries[trap]?.bind Oneshot.value = some held) : Owned w' :=
  h.quiet hdels hval (requests_cons hh hev.1) (stops_cons hh hev.2)

variable {scope : ScopeId} {op : Operation} {trap : TrapId}

theorem requests_of_ledger {e : TrapEntry} (h : e ∈ (ledger scope w.history).requested) :
    w.Requests scope e.1 := by
  refine ⟨e.2, ?_⟩
  generalize w.history = history at h ⊢
  induction history with
  | nil => cases h
  | cons ev earlier ih =>
    by_cases hs : ev.scope = scope
    · rw [ledger_cons_self hs] at h
      cases ev with
      | requested scope' trap sel =>
        obtain rfl : scope' = scope := hs
        rcases mem_concat.mp h with hold | rfl
        · exact mem_cons_of_mem _ (ih hold)
        · exact mem_cons_self
      | gated scope' op verdict ans =>
        cases verdict <;> exact mem_cons_of_mem _ (ih h)
      | _ => exact mem_cons_of_mem _ (ih h)
    · rw [ledger_cons_ne hs] at h
      exact mem_cons_of_mem _ (ih h)

theorem armed_requested {history : List Event} {e : TrapEntry}
    (h : e ∈ (ledger scope history).armed) : e ∈ (ledger scope history).requested := by
  refine (ledger_balanced scope history).mem_iff.mpr ?_
  simp only [mem_append, h, or_true, true_or]

theorem requests_of_armed (ht : Tracks quote w) {state : State} (hs : w.state? scope = some state)
    {i : ℕ} (harmed : armedTrap state.traps op = some i)
    (hd : state.traps[i]?.bind Interception.deliver = some trap) : w.Requests scope trap := by
  obtain ⟨sel, hfind⟩ := armedTrap_some harmed hd
  have hm := mem_of_find?_eq_some hfind
  rw [(ht.represents hs).armed] at hm
  exact requests_of_ledger (armed_requested hm)

theorem World.Stops.lt (hwd : Wired w) {d : DecisionId} (h : w.Stops scope d) :
    d < w.decisions.length := by
  obtain ⟨op, verdict, receiver, hm⟩ := h
  obtain ⟨later, earlier, heq⟩ := append_of_mem hm
  exact (hwd.held _ _ _ heq).2.2

theorem value_of_sent {ds : List (Oneshot Held)} {ch : TrapId} {sent held : Held}
    (hv : (ds.modify ch fun c => (c.send sent).1)[trap]?.bind Oneshot.value =
      some held) :
    ds[trap]?.bind Oneshot.value = some held ∨ trap = ch ∧ held = sent := by
  rw [getElem?_modify] at hv
  cases hc : ds[trap]? with
  | none =>
    rw [hc] at hv
    cases hv
  | some c =>
    rw [hc] at hv
    by_cases heq : ch = trap
    · simp only [if_pos heq, Option.map_eq_map, Option.map_some, Oneshot.send]
        at hv
      split at hv
      · exact Or.inr ⟨heq.symm, (Option.some.inj hv).symm⟩
      · exact Or.inl hv
    · simp only [if_neg heq, Option.map_eq_map, Option.map_some] at hv
      exact Or.inl hv

theorem Owned.stopped (h : Owned w) (hwd : Wired w) {sequence : ℕ} {delivered : Bool}
    {receiver : Receiver} (hreqs : w.Requests scope trap)
    (hh : w'.history = .gated scope op (.held trap sequence delivered)
      (.held w.decisions.length receiver ⟨scope⟩) :: w.history)
    (hd : w'.deliveries = w.deliveries.modify trap fun c =>
      (c.send ⟨op, sequence, w.decisions.length⟩).1) : Owned w' := by
  have hsm : ∀ other trap, w'.Requests other trap ↔ w.Requests other trap :=
    requests_cons hh nofun
  have hnew : w'.Stops scope w.decisions.length := by
    refine ⟨op, .held trap sequence delivered, receiver, ?_⟩
    rw [hh]
    exact mem_cons_self
  have hold : ∀ other d, w.Stops other d → w'.Stops other d := by
    rintro other d ⟨op', verdict, receiver', hm⟩
    refine ⟨op', verdict, receiver', ?_⟩
    rw [hh]
    exact mem_cons_of_mem _ hm
  have hcs : ∀ other d, w'.Stops other d →
      w.Stops other d ∨ other = scope ∧ d = w.decisions.length := by
    rintro other d ⟨op', verdict, receiver', hm⟩
    rw [hh] at hm
    rcases mem_cons.mp hm with heq | hm
    · cases heq
      exact Or.inr ⟨rfl, rfl⟩
    · exact Or.inl ⟨op', verdict, receiver', hm⟩
  refine ⟨?_, ?_, ?_, ?_⟩
  · intro other trap' hr
    rw [hd, length_modify]
    exact h.bound other trap' ((hsm _ _).mp hr)
  · intro other other' trap' hr hr'
    exact h.trap other other' trap' ((hsm _ _).mp hr) ((hsm _ _).mp hr')
  · intro other other' d hs hs'
    rcases hcs other d hs with hs | ⟨rfl, rfl⟩
    · rcases hcs other' d hs' with hs' | ⟨rfl, rfl⟩
      · exact h.decision other other' d hs hs'
      · exact absurd (hs.lt hwd) (Nat.lt_irrefl _)
    · rcases hcs other' _ hs' with hs' | ⟨rfl, -⟩
      · exact absurd (hs'.lt hwd) (Nat.lt_irrefl _)
      · rfl
  · intro trap' held hv
    rw [hd] at hv
    rcases value_of_sent hv with hv | ⟨rfl, rfl⟩
    · obtain ⟨other, hr, hs⟩ := h.delivered trap' held hv
      exact ⟨other, (hsm _ _).mpr hr, hold other held.decide hs⟩
    · exact ⟨scope, (hsm _ _).mpr hreqs, hnew⟩

theorem Owned.requested (h : Owned w) {sel : Selector}
    (hh : w'.history = .requested scope w.deliveries.length sel :: w.history)
    (hd : w'.deliveries = w.deliveries ++ [Oneshot.new]) : Owned w' := by
  have hsm : ∀ other d, w'.Stops other d ↔ w.Stops other d :=
    stops_cons hh nofun
  have hcs : ∀ other trap, w'.Requests other trap →
      w.Requests other trap ∨ other = scope ∧ trap = w.deliveries.length := by
    rintro other trap ⟨sel', hm⟩
    rw [hh] at hm
    rcases mem_cons.mp hm with heq | hm
    · cases heq
      exact Or.inr ⟨rfl, rfl⟩
    · exact Or.inl ⟨sel', hm⟩
  refine ⟨?_, ?_, ?_, ?_⟩
  · intro other trap hr
    rw [hd, length_append]
    rcases hcs other trap hr with hr | ⟨-, rfl⟩
    · exact Nat.lt_succ_of_lt (h.bound other trap hr)
    · exact Nat.lt_succ_self _
  · intro other other' trap hr hr'
    rcases hcs other trap hr with hr | ⟨rfl, rfl⟩
    · rcases hcs other' trap hr' with hr' | ⟨rfl, rfl⟩
      · exact h.trap other other' trap hr hr'
      · exact absurd (h.bound other _ hr) (Nat.lt_irrefl _)
    · rcases hcs other' _ hr' with hr' | ⟨rfl, -⟩
      · exact absurd (h.bound other' _ hr') (Nat.lt_irrefl _)
      · rfl
  · intro other other' d hs hs'
    exact h.decision other other' d ((hsm _ _).mp hs) ((hsm _ _).mp hs')
  · intro trap held hv
    rw [hd] at hv
    rcases Nat.lt_or_ge trap w.deliveries.length with hlt | hge
    · rw [getElem?_append_left hlt] at hv
      obtain ⟨other, ⟨sel', hr⟩, hs⟩ := h.delivered trap held hv
      refine ⟨other, ⟨sel', ?_⟩, (hsm _ _).mpr hs⟩
      rw [hh]
      exact mem_cons_of_mem _ hr
    · -- the new channel is empty
      rw [getElem?_append_right hge] at hv
      rcases Nat.eq_zero_or_pos (trap - w.deliveries.length) with hz | hp
      · rw [hz] at hv
        cases hv
      · rw [getElem?_eq_none hp] at hv
        cases hv

theorem Gated.owned (ht : Tracks quote w) (hwd : Wired w) (h : Owned w) {g : Gate}
    (hg : Gated w op g w') : Owned w' := by
  cases hg with
  | inactive => exact h
  | @held scope state i trap ha hl hs hr htrap hd =>
    exact h.stopped hwd (requests_of_armed ht hs htrap hd) rfl rfl
  | _ =>
    exact h.noted rfl ⟨nofun, nofun⟩ (Nat.le_refl _) fun _ _ => id

/-- **Every piece of a call leaves the channels with their scopes.** -/
theorem Change.owned (ht : Tracks quote w) (hwd : Wired w) (h : Owned w)
    (hc : Change quote w w') : Owned w' := by
  cases hc with
  | gated hg => exact hg.owned ht hwd h
  | intercepted hs sel => exact h.requested rfl rfl
  | ruled hs sel hw | removed hs | resetOk hr hs hh hu | resetErr hr hs hh hu =>
    exact h.noted rfl ⟨nofun, nofun⟩ (Nat.le_refl _) fun _ _ => id
  | receiverDropped trap =>
    refine h.quiet (Nat.le_of_eq (length_modify ..).symm) ?_ (fun _ _ => Iff.rfl)
      fun _ _ => Iff.rfl
    intro trap' held hv
    refine Handed.modify_value ?_ hv
    rintro c held' ⟨⟩
  | restored hs =>
    exact h.noted rfl ⟨nofun, nofun⟩ (Nat.le_of_eq (droppedDeliveries_length ..).symm)
      fun _ _ => Handed.droppedDeliveries_value
  | @resetStarted scope state hs =>
    have hrestored : Owned (w.restored quote scope state) :=
      h.noted rfl ⟨nofun, nofun⟩ (Nat.le_of_eq (droppedDeliveries_length ..).symm)
        fun _ _ => Handed.droppedDeliveries_value
    exact hrestored.noted rfl ⟨nofun, nofun⟩ (Nat.le_refl _) fun _ _ => id
  | _ => exact h.quiet (Nat.le_refl _) (fun _ _ => id) (fun _ _ => Iff.rfl) fun _ _ => Iff.rfl

end Pieces

/-! ## What a scope does not notice -/

/-- Operations of this scope listen to this channel: its reset channel or that of a rule. -/
def World.Listens (w : World) (scope : ScopeId) (watch : WatchId) : Prop :=
  (∃ state, w.state? scope = some state ∧ state.reset = watch) ∨
    ∃ rule ∈ (ledger scope w.history).installed, rule.effect = .stall watch

/-- The channels the operations of a scope wait on stay as they are. -/
structure World.Leaves (w : World) (scope : ScopeId) (w' : World) : Prop where
  decisions : ∀ decision, w.Stops scope decision → w'.decisions[decision]? = w.decisions[decision]?
  watches : ∀ watch, w.Listens scope watch → w'.watches[watch]? = w.watches[watch]?
variable {op : Operation}


section Leaves

variable {quote : String → String} {w w' : World} {scope : ScopeId}

theorem World.Leaves.resolve (hg : w.Good quote) (h : w.Leaves scope w')
    {verdict : Verdict} {g : Gate} (hm : .gated scope op verdict g ∈ w.history)
    (hholding : g.holding = some ⟨scope⟩) : w'.resolve g = w.resolve g := by
  cases g with
  | decided d => rfl
  | held d receiver holding =>
    cases hholding
    obtain ⟨later, earlier, heq⟩ := append_of_mem hm
    obtain ⟨⟨state, hs, hwatch⟩, -⟩ := hg.wired.held _ _ _ heq
    simp only [World.resolve, h.decisions d ⟨op, verdict, receiver, hm⟩,
      h.watches receiver.watch (Or.inl ⟨state, hs, hwatch.symm⟩)]
  | stalled receiver holding =>
    obtain ⟨rule, resume, seen, hin, he, -, ha⟩ :=
      hg.stalled_rule hm (.inr ⟨receiver, holding, rfl⟩)
    cases ha
    simp only [World.resolve, h.watches resume (Or.inr ⟨rule, hin, he⟩)]

theorem World.Leaves.same (hd : w'.decisions = w.decisions) (hw : w'.watches = w.watches) :
    w.Leaves scope w' :=
  ⟨fun _ _ => by rw [hd], fun _ _ => by rw [hw]⟩

variable {watch : WatchId} {other : ScopeId} {s : State}

theorem World.Listens.lt (hwd : Wired w) (h : w.Listens scope watch) :
    watch < w.watches.length := by
  rcases h with ⟨s, hs, rfl⟩ | ⟨rule, hin, he⟩
  · exact (hwd.reset scope s hs).1
  · exact (hwd.stall scope rule watch hin he).1

theorem World.Leaves.newWatch (hwd : Wired w) (hd : w'.decisions = w.decisions)
    (hw : w'.watches = w.watches ++ [Watch.new]) : w.Leaves scope w' := by
  refine ⟨fun _ _ => by rw [hd], ?_⟩
  intro watch hl
  rw [hw, getElem?_append_left (hl.lt hwd)]

theorem World.Listens.ne_stall (hwd : Wired w) (h : w.Listens scope watch) (hne : other ≠ scope)
    {rule : Rule} (hin : rule ∈ (ledger other w.history).installed) :
    rule.effect ≠ .stall watch := by
  intro he
  rcases h with ⟨s, hs, rfl⟩ | ⟨rule', hin', he'⟩
  · exact hwd.apart scope other s rule hs hin he
  · exact hne (hwd.unique other scope rule rule' watch hin hin' he he').1

theorem World.Listens.ne_reset (hwd : Wired w) (h : w.Listens scope watch) (hne : other ≠ scope)
    (hs : w.state? other = some s) : s.reset ≠ watch := by
  rintro rfl
  rcases h with ⟨s', hs', heq⟩ | ⟨rule, hin, he⟩
  · exact hne (hwd.own other scope s s' hs hs' heq.symm)
  · exact hwd.apart other scope s rule hs hin he

theorem World.Leaves.dropped (hg : w.Good quote) (hne : other ≠ scope)
    (hs : w.state? other = some s) {rules : List Rule}
    (hrls : ∀ rule ∈ rules, rule ∈ s.rules) (h : w.Listens scope watch) :
    (droppedWatches rules w.watches)[watch]? = w.watches[watch]? := by
  refine droppedWatches_ne ?_ w.watches
  intro rule hr
  refine h.ne_stall hg.wired hne (rules_installed other w.history rule ?_)
  rw [← (hg.tracks.represents hs).rules]
  exact hrls rule hr

theorem World.Leaves.restored (hg : w.Good quote) (hne : other ≠ scope)
    (hs : w.state? other = some s)
    (hd : w'.decisions = (w.restored quote other s).decisions)
    (hw : w'.watches = (w.restored quote other s).watches) : w.Leaves scope w' := by
  refine ⟨fun _ _ => by rw [hd]; rfl, ?_⟩
  intro watch hl
  rw [hw]
  change ((droppedWatches s.rules w.watches).modify s.reset Watch.sendReplace)[watch]? = _
  rw [getElem?_modify_ne _ _ (hl.ne_reset hg.wired hne hs)]
  exact dropped hg hne hs (fun _ => id) hl

theorem World.Leaves.removed (hg : w.Good quote) {handle : RuleHandle}
    (hne : handle.state ≠ scope) (hs : w.state? handle.state = some s)
    (hd : w'.decisions = w.decisions)
    (hw : w'.watches =
      droppedWatches (s.rules.filter fun rule => rule.hits = handle.hits) w.watches) :
    w.Leaves scope w' := by
  refine ⟨fun _ _ => by rw [hd], ?_⟩
  intro watch hl
  rw [hw]
  exact dropped hg hne hs (fun _ hr => (mem_filter.mp hr).1) hl

theorem World.Leaves.decided {ch : DecisionId} (hno : ¬ w.Stops scope ch)
    {f : Oneshot Decision → Oneshot Decision} (hd : w'.decisions = w.decisions.modify ch f)
    (hw : w'.watches = w.watches) : w.Leaves scope w' := by
  refine ⟨?_, fun _ _ => by rw [hw]⟩
  intro d hs
  rw [hd, getElem?_modify_ne]
  rintro rfl
  exact hno hs

theorem World.Leaves.gated (hwd : Wired w) {g : Gate}
    (hg : Gated w op g w') : w.Leaves scope w' := by
  cases hg with
  | held ha hl hs hr ht hd =>
    refine ⟨?_, fun _ _ => rfl⟩
    intro d hstops
    have hlt := hstops.lt hwd
    rw [getElem?_modify_ne _ _ (Nat.ne_of_gt hlt), getElem?_append_left hlt]
  | _ => exact .same rfl rfl

end Leaves

/-! ## Actions -/

/-- The action uses a value that a scope handed out and that can decide its operations. -/
def Action.Uses (w : World) (scope : ScopeId) : Action → Prop
  | .call (.restore other) | .call (.startReset other) | .call (.dropFaults other) => other = scope
  | .call (.remove handle) => handle.state = scope
  | .call (.decide held _) | .call (.dropHeld held) => w.Stops scope held.decide
  | .call (.dropTrap trap) => trap.state = scope
  | _ => False

theorem Changes.owned {quote : String → String} {w w' : World} (hg : w.Good quote) (h : Owned w)
    (hc : Changes quote w w') : Owned w' := by
  induction hc with
  | refl => exact h
  | tail hr hc ih =>
    have hgood := Changes.good hg hr
    exact hc.owned hgood.tracks hgood.wired ih

theorem Changes.requests {quote : String → String} {w w' : World} (hc : Changes quote w w')
    {scope : ScopeId} {trap : TrapId} (h : w.Requests scope trap) : w'.Requests scope trap := by
  obtain ⟨sel, hm⟩ := h
  obtain ⟨later, hlat⟩ := hc.history
  refine ⟨sel, ?_⟩
  rw [hlat]
  exact mem_append_right _ hm

namespace Custody

variable {quote : String → String} {c c' : Custody} {a : Action} {scope : ScopeId}

/-- **What an action does to the values**: only a drop of a `Faults` takes one away, and every new
trap was requested. -/
theorem act_values (h : c.Wf) (hl : a.Legal c) (ha : act quote c a = .ok c') :
    (c.faults ≤ c'.faults ∨ ∃ dropped, a = .call (.dropFaults dropped) ∧
      c'.faults = c.faults.erase dropped) ∧
    ∀ trap ∈ c'.traps, trap ∈ c.traps ∨ c'.world.Requests trap.state trap.receive := by
  cases a with
  | resolve g =>
    cases ha
    exact ⟨.inl le_rfl, fun _ => .inl⟩
  | cancel g =>
    simp only [act] at ha
    split at ha
    · cases ha
      exact ⟨.inl le_rfl, fun _ => .inl⟩
    · obtain ⟨⟨⟨⟩, w⟩, -, hret⟩ := except_bind_ok ha
      cases hret
      exact ⟨.inl le_rfl, fun _ => .inl⟩
  | call call =>
    cases call with
    | openScope =>
      obtain ⟨⟨r, w⟩, -, hret⟩ := except_bind_ok ha
      cases hret
      exact ⟨.inl (Multiset.le_add_left _ _), fun _ => .inl⟩
    | intercept scope sel =>
      obtain ⟨s, hs⟩ := h.state (.inl hl)
      simp only [act, intercept_run h.valid.quiet hs sel, except_ok_bind, except_pure] at ha
      cases ha
      refine ⟨.inl le_rfl, fun trap hm => ?_⟩
      rcases Multiset.mem_cons.mp hm with rfl | hm
      · exact .inr ⟨sel, mem_cons_self⟩
      · exact .inl hm
    | waitTrap trap =>
      obtain ⟨⟨r, w⟩, -, hret⟩ := except_bind_ok ha
      rcases r with held | _
      · cases hret
        exact ⟨.inl le_rfl, fun _ hm => .inl (Multiset.mem_of_mem_erase hm)⟩
      · cases hret
        exact ⟨.inl le_rfl, fun _ => .inl⟩
    | dropTrap trap =>
      obtain ⟨⟨⟨⟩, w⟩, -, hret⟩ := except_bind_ok ha
      cases hret
      exact ⟨.inl le_rfl, fun _ hm => .inl (Multiset.mem_of_mem_erase hm)⟩
    | dropFaults dropped =>
      obtain ⟨⟨⟨⟩, w⟩, -, hret⟩ := except_bind_ok ha
      cases hret
      exact ⟨.inr ⟨dropped, rfl, rfl⟩, fun _ => .inl⟩
    | _ =>
      obtain ⟨⟨r, w⟩, -, hret⟩ := except_bind_ok ha
      cases hret
      exact ⟨.inl le_rfl, fun _ => .inl⟩

theorem stays_active (h : c.Wf) (hl : a.Legal c) (ha : act quote c a = .ok c')
    (hm : scope ∈ c.faults) (hne : a ≠ .call (.dropFaults scope)) :
    scope ∈ c'.faults ∧ c'.world.active = some scope ∧ c'.world.alive scope = true := by
  have hm' : scope ∈ c'.faults := by
    rcases (act_values h hl ha).1 with hle | ⟨dropped, rfl, herase⟩
    · exact Multiset.mem_of_le hle hm
    · rw [herase]
      refine (Multiset.mem_erase_of_ne ?_).mpr hm
      rintro rfl
      exact hne rfl
  have hwf := act_wf h hl ha
  exact ⟨hm', hwf.active_of_mem hm', hwf.alive (Or.inl hm')⟩

theorem Run.requests (h : Reached quote c) :
    ∀ trap ∈ c.traps, c.world.Requests trap.state trap.receive := by
  induction h with
  | refl => exact fun trap hm => absurd hm (Multiset.notMem_zero trap)
  | step hrun hl ha ih =>
    have hwf := hrun.wf Wf.init
    intro trap hm
    rcases (act_values hwf hl ha).2 trap hm with hold | hnew
    · exact (act_changes hwf ha).requests (ih trap hold)
    · exact hnew

theorem Run.owned (h : Reached quote c) : Owned c.world :=
  (h.changes Wf.init).owned (World.good_init quote) Owned.init

theorem exec_leaves (h : Reached quote c) {call : Call} {w' : World}
    (hl : (Action.call call).Legal c) (hno : ¬ (Action.call call).Uses c.world scope)
    (hrun : (exec quote call).run c.world = .ok ((), w')) : c.world.Leaves scope w' := by
  have hwf := h.wf Wf.init
  have hgood := h.good
  have hq := hwf.valid.quiet
  cases call with
  | openScope =>
    obtain ⟨r, hrun⟩ := forget_run hrun
    by_cases hdead : ∀ scope, c.world.active = some scope → c.world.alive scope = false
    · rw [run_unique (openScope_run hdead) hrun]
      exact .newWatch hgood.wired rfl rfl
    · push Not at hdead
      obtain ⟨other, ha, hlv⟩ := hdead
      rw [run_unique (openScope_run_active ha (by simpa using hlv)) hrun]
      exact .same rfl rfl
  | intercept other sel =>
    obtain ⟨r, hrun⟩ := forget_run hrun
    obtain ⟨s, hs⟩ := hwf.state (.inl hl)
    rw [run_unique (intercept_run hq hs sel) hrun]
    exact .same rfl rfl
  | observe other sel | reject other sel msg =>
    obtain ⟨r, hrun⟩ := forget_run hrun
    obtain ⟨s, hs⟩ := hwf.state (.inl hl)
    rw [run_unique (rule_run hq hs sel _) hrun]
    exact .same rfl rfl
  | stall other sel =>
    obtain ⟨r, hrun⟩ := forget_run hrun
    obtain ⟨s, hs⟩ := hwf.state (.inl hl)
    have hq' : World.Quiet { c.world with watches := c.world.watches ++ [Watch.new] } := hq
    have hs' : World.state? { c.world with watches := c.world.watches ++ [Watch.new] } other =
        some s := hs
    rw [run_unique (rule_run hq' hs' sel _) hrun]
    exact .newWatch hgood.wired rfl rfl
  | remove handle =>
    by_cases hlv : c.world.alive handle.state = true
    · obtain ⟨s, hs⟩ := Option.isSome_iff_exists.mp (hwf.valid.state_isSome hlv)
      rw [run_unique (RuleHandle.remove_run hq hlv hs) hrun]
      exact .removed hgood hno hs rfl rfl
    · rw [run_unique (RuleHandle.remove_run_dead (by simpa using hlv)) hrun]
      exact .same rfl rfl
  | gate op =>
    obtain ⟨r, hrun⟩ := forget_run hrun
    exact .gated hgood.wired (gate_changes hwf.valid hrun)
  | decide held d | dropHeld held =>
    cases hrun
    exact .decided hno rfl rfl
  | waitTrap trap =>
    obtain ⟨r, hrun⟩ := forget_run hrun
    rcases hp : (c.world.deliveries[trap.receive]?.getD Oneshot.new).poll with held | _
    · rw [run_unique (Trap.wait_run_ready hp) hrun]
      exact .same rfl rfl
    · rw [run_unique (Trap.wait_run_pending hp) hrun]
      exact .same rfl rfl
  | dropTrap trap =>
    rw [run_unique (Trap.drop_run trap c.world) hrun]
    rcases hv : c.world.deliveries[trap.receive]?.bind Oneshot.value with _ | held
    · exact .same rfl rfl
    · -- what waits in the trap was stopped in the scope of the trap
      have ho : ¬ c.world.Stops scope held.decide := by
        intro hstops
        have howned := h.owned
        obtain ⟨other, hr, hs⟩ := howned.delivered trap.receive held hv
        have hsm := howned.trap _ _ _ (h.requests trap hl) hr
        exact hno (hsm.trans (howned.decision _ _ _ hs hstops))
      exact .decided ho rfl rfl
  | dropHolding holding =>
    obtain ⟨s, hs, -, hdrop⟩ := hwf.drop_run (Multiset.mem_add.mpr (.inr hl))
    rw [run_unique hdrop hrun]
    exact .same rfl rfl
  | restore other =>
    obtain ⟨s, hs⟩ := hwf.state (.inl hl)
    rw [run_unique (restore_run hq hs quote) hrun]
    exact .restored hgood hno hs rfl rfl
  | startReset other =>
    obtain ⟨r, hrun⟩ := forget_run hrun
    obtain ⟨s, hs⟩ := hwf.state (.inl hl)
    rw [run_unique (startReset_run hq hs quote) hrun]
    exact .restored hgood hno hs rfl rfl
  | dropFaults other =>
    obtain ⟨s, hs⟩ := hwf.state (.inl hl)
    rw [run_unique (dropFaults_run hq hs quote) hrun]
    exact .restored hgood hno hs rfl rfl
  | pollReset reset =>
    obtain ⟨r, hrun⟩ := forget_run hrun
    rcases hr : c.world.resetScope reset with _ | other
    · rw [run_unique (pollReset_run_over hr) hrun]
      exact .same rfl rfl
    obtain ⟨s, hs⟩ := Option.isSome_iff_exists.mp (hwf.resets reset other hr)
    by_cases hh : s.holding = 0
    · by_cases hu : s.unfired = []
      · rw [run_unique (pollReset_run_ok hq hr hs hh hu) hrun]
        exact .same rfl rfl
      · rw [run_unique (pollReset_run_unfired hq hr hs hh hu) hrun]
        exact .same rfl rfl
    · rw [run_unique (pollReset_run_waiting hq hr hs hh) hrun]
      exact .same rfl rfl
  | abandonReset reset =>
    cases hrun
    exact .same rfl rfl

theorem act_leaves (h : Reached quote c) (hl : a.Legal c) (hno : ¬ a.Uses c.world scope)
    (ha : act quote c a = .ok c') : c.world.Leaves scope c'.world := by
  cases a with
  | resolve g =>
    cases ha
    exact .same rfl rfl
  | cancel g =>
    simp only [act] at ha
    split at ha
    · cases ha
      exact .same rfl rfl
    · rename_i holding hholding
      have hwf := h.wf Wf.init
      obtain ⟨s, hs, -, hdrop⟩ := hwf.drop_run (mem_holdings_of_pending hl hholding)
      obtain ⟨⟨⟨⟩, w⟩, hrun, hret⟩ := except_bind_ok ha
      rw [run_unique hdrop hrun] at hret
      cases hret
      exact .same rfl rfl
  | call call => exact exec_leaves h hl hno (act_exec ha)

/-! ## One scope at a time -/

theorem Wf.card_faults (h : c.Wf) : c.faults.card ≤ 1 := by
  rw [h.active]
  cases c.world.active with
  | none => exact Nat.zero_le _
  | some scope => exact Nat.le_refl _

theorem Wf.openScope_iff (h : c.Wf) :
    ∃ r world, openScope.run c.world = .ok (r, world) ∧
      (r.isSome = true ↔ c.faults = 0) := by
  cases ha : c.world.active with
  | none =>
    have hdead : ∀ scope, c.world.active = some scope → c.world.alive scope = false := by
      intro scope hs
      rw [ha] at hs
      cases hs
    refine ⟨_, _, openScope_run hdead, ?_⟩
    rw [h.active, ha]
    exact ⟨fun _ => rfl, fun _ => rfl⟩
  | some scope =>
    have hflt : c.faults = {scope} := by
      rw [h.active, ha]
      rfl
    have hl := h.alive (Or.inl (hflt ▸ Multiset.mem_singleton_self scope))
    refine ⟨_, _, openScope_run_active ha hl, ?_⟩
    rw [hflt]
    constructor
    · intro hsome
      cases hsome
    · intro hzero
      exact absurd hzero (Multiset.singleton_ne_zero scope)

theorem gated_recorded {w w' : World} (ha : w.active = some scope) (hl : w.alive scope = true)
    {ans : Gate} (hg : Gated w op ans w') :
    ∃ verdict, w'.history = .gated scope op verdict ans :: w.history := by
  cases hg with
  | inactive hdead =>
    rw [hdead scope ha] at hl
    cases hl
  | rejected ha' | stalled ha' | released ha' | held ha' =>
    cases ha.symm.trans ha'
    exact ⟨_, rfl⟩

theorem gate_ruled (h : Reached quote c) (hm : scope ∈ c.faults) (op : Operation) :
    ∃ ans verdict world, (gate op).run c.world = .ok (ans, world) ∧
      world.history = .gated scope op verdict ans :: c.world.history ∧
      (ledger scope c.world.history).Rules scope op verdict ans := by
  have hwf := h.wf Wf.init
  obtain ⟨ans, world, hrun, hg⟩ :=
    gate_run hwf.valid.quiet (fun _ => hwf.valid.state_isSome) op
  obtain ⟨verdict, hhistory⟩ :=
    gated_recorded (hwf.active_of_mem hm) (hwf.alive (Or.inl hm)) hg
  have hsd := (Change.good h.good (.gated hg)).tracks.sound
  rw [hhistory] at hsd
  exact ⟨ans, verdict, world, hrun, hhistory, hsd.1⟩

/-- **A proxy has one scope at a time.** At most one `Faults` is live; a scope is opened exactly
when none is, whatever of earlier scopes is still around; a live one stays active until its own
`Faults` is dropped; and the operations it stops are decided by its own rules and traps, and let
go by values of its own only. -/
theorem one_scope_at_a_time (h : Reached quote c) :
    c.faults.card ≤ 1 ∧
    (∃ result world, openScope.run c.world = .ok (result, world) ∧
      (result.isSome = true ↔ c.faults = 0)) ∧
    (∀ scope ∈ c.faults, ∀ a c', a.Legal c → act quote c a = .ok c' →
      a ≠ .call (.dropFaults scope) →
      scope ∈ c'.faults ∧ c'.world.active = some scope ∧ c'.world.alive scope = true) ∧
    (∀ scope ∈ c.faults, ∀ operation, ∃ answer verdict world,
      (gate operation).run c.world = .ok (answer, world) ∧
      world.history = .gated scope operation verdict answer :: c.world.history ∧
      (ledger scope c.world.history).Rules scope operation verdict answer) ∧
    ∀ gate ∈ c.pending, ∃ scope, gate.holding = some ⟨scope⟩ ∧
      ∀ a c', a.Legal c → act quote c a = .ok c' → ¬ a.Uses c.world scope →
        c'.world.resolve gate = c.world.resolve gate := by
  have hwf := h.wf Wf.init
  refine ⟨hwf.card_faults, hwf.openScope_iff, ?_, fun scope hm => gate_ruled h hm, ?_⟩
  · intro scope hm a c' hl ha hne
    exact stays_active hwf hl ha hm hne
  · intro gate hgate
    obtain ⟨scope, operation, verdict, hmem, hholding⟩ := hwf.pending gate hgate
    refine ⟨scope, hholding, ?_⟩
    intro a c' hl ha hno
    exact (act_leaves h hl hno ha).resolve h.good hmem hholding

/-- A scope is open while a trap and a stopped operation of an earlier one live on. -/
def reopened : List Action :=
  [.call .openScope, .call (.intercept 0 (.onHttp .default)), .call (.intercept 0 .default),
    .call (.gate ⟨.http, .request, "getSlot", [], []⟩), .call (.dropFaults 0), .call .openScope]

theorem one_scope_at_a_time_reopened :
    ⟨1, .default, 0⟩ ∈ (reach id reopened).traps ∧ 1 ∈ (reach id reopened).faults ∧
      ∀ c, act id (reach id reopened) (.call (.dropTrap ⟨1, .default, 0⟩)) = .ok c →
        1 ∈ c.faults ∧ c.world.active = some 1 ∧ c.world.alive 1 = true := by
  have hrun : Reached id (reach id reopened) := reach_run (by decide +kernel)
  have htrap : ⟨1, .default, 0⟩ ∈ (reach id reopened).traps := by decide +kernel
  have hfaults : 1 ∈ (reach id reopened).faults := by decide +kernel
  refine ⟨htrap, hfaults, ?_⟩
  intro c hc
  obtain ⟨-, -, hstays, -⟩ := one_scope_at_a_time hrun
  exact hstays 1 hfaults (.call (.dropTrap _)) c htrap hc (by rintro ⟨⟩)

/-- **No scope leaks, and none goes too early.** After any run a scope is alive exactly while a
`Faults`, a `Trap` or a `Holding` of it is, and it counts its tokens. -/
theorem alive_iff_referred_to (h : Reached quote c) (scope : ScopeId) :
    (c.world.alive scope = true ↔ scope ∈ c.faults ∨ scope ∈ c.traps.map Trap.state ∨
      (⟨scope⟩ : Holding) ∈ c.holdings) ∧
    (c.world.stateD scope).holding = c.holdings.count ⟨scope⟩ := by
  have hwf := h.wf Wf.init
  refine ⟨⟨fun halive => ?_, hwf.alive⟩, hwf.holding scope⟩
  by_contra hnone
  simp only [not_or, ← Multiset.count_eq_zero] at hnone
  have hrefs := hwf.strong scope
  have hpos := World.alive_iff.mp halive
  omega

theorem alive_iff_referred_to_reopened : (reach id reopened).world.alive 0 = true :=
  (alive_iff_referred_to (reach_run (by decide +kernel)) 0).1.mpr (.inr (.inl (by decide +kernel)))

end Custody

end Redsuite
