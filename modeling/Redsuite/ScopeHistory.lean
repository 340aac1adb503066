import Redsuite.Refinement

/-!
# Rules and traps over whole runs

What the scenario can rely on, whatever it and the connections do.
-/

namespace Redsuite

open List

/-! ## Firings and errors -/

section

variable (scope : ScopeId)

include scope

def Event.fires : Event → Option TrapId
  | .gated scope' _ (.held trap _ _) _ => if scope' = scope then some trap else none
  | _ => none

def firings (history : List Event) : List TrapId :=
  (history.filterMap (Event.fires scope)).reverse

def Event.errorNames : Event → Option (List String)
  | .resetErr _ scope' names => if scope' = scope then some names else none
  | _ => none

def errors (history : List Event) : List (List String) :=
  (history.filterMap (Event.errorNames scope)).reverse

theorem firings_cons (ev : Event) (earlier : List Event) :
    firings scope (ev :: earlier) = firings scope earlier ++ (ev.fires scope).toList := by
  unfold firings
  rw [filterMap_cons]
  rcases ev.fires scope with _ | trap
  · simp
  · simp

theorem errors_cons (ev : Event) (earlier : List Event) :
    errors scope (ev :: earlier) = errors scope earlier ++ (ev.errorNames scope).toList := by
  unfold errors
  rw [filterMap_cons]
  rcases ev.errorNames scope with _ | names
  · simp
  · simp

end

variable {scope : ScopeId} {w w' : World} {quote : String → String} {entry : TrapEntry}

theorem fires_ne {ev : Event} (h : ev.scope ≠ scope) :
    ev.fires scope = none ∧ ev.errorNames scope = none := by
  cases ev with
  | gated scope' op verdict ans =>
    cases verdict with
    | held trap sequence delivered => exact ⟨if_neg h, rfl⟩
    | _ => exact ⟨rfl, rfl⟩
  | resetErr reset scope' names => exact ⟨rfl, if_neg h⟩
  | _ => exact ⟨rfl, rfl⟩

section Sound

variable {quote : String → String} {history : List Event}

theorem Sound.fired_eq (h : Sound quote history) (scope : ScopeId) :
    (ledger scope history).fired.map Prod.fst = firings scope history := by
  induction history with
  | nil => rfl
  | cons ev earlier ih =>
    have hsd := h.2
    have ih := ih hsd
    rw [firings_cons, ← ih]
    by_cases hs : ev.scope = scope
    · rw [ledger_cons_self hs]
      cases ev with
      | gated scope' op verdict ans =>
        obtain rfl : scope' = scope := hs
        cases verdict with
        | held trap sequence delivered =>
          obtain ⟨-, entry, hfind, rfl⟩ := Ledger.Rules.held h.1
          have hone := filter_trap_eq (hsd.armed_nodup scope')
            (mem_of_find?_eq_some hfind)
          simp [Ledger.after, hone, Event.fires]
        | _ => simp [Ledger.after, Event.fires]
      | _ => simp [Ledger.after, Event.fires]
    · rw [ledger_cons_ne hs, (fires_ne hs).1]
      exact (append_nil _).symm

theorem Sound.reports_eq (h : Sound quote history) (scope : ScopeId) :
    (ledger scope history).reports.map (List.map (TrapEntry.name quote)) =
      errors scope history := by
  induction history with
  | nil => rfl
  | cons ev earlier ih =>
    have ih := ih h.2
    rw [errors_cons, ← ih]
    by_cases hs : ev.scope = scope
    · rw [ledger_cons_self hs]
      cases ev with
      | resetErr reset scope' names =>
        obtain rfl : scope' = scope := hs
        obtain ⟨hnames, -⟩ := h.1
        simp [Ledger.after, Event.errorNames, hnames]
      | gated scope' op verdict ans =>
        cases verdict <;> simp [Ledger.after, Event.errorNames]
      | _ => simp [Ledger.after, Event.errorNames]
    · rw [ledger_cons_ne hs, (fires_ne hs).2]
      exact (append_nil _).symm

theorem Sound.firings_nodup (h : Sound quote history) (scope : ScopeId) :
    (firings scope history).Nodup := by
  have hcols := h.columns_nodup scope
  simp only [map_append] at hcols
  rw [← h.fired_eq scope]
  exact hcols.of_append_left.of_append_left.of_append_left

end Sound

/-! ## What the channels carry -/

/-- Every held operation waiting for its scenario was handed to that trap. -/
def Handed (w : World) : Prop :=
  ∀ (trap : TrapId) (held : Held), w.deliveries[trap]?.bind Oneshot.value = some held →
    ∃ scope answer,
      .gated scope held.operation (.held trap held.sequence true) answer ∈ w.history

namespace Handed

variable {quote : String → String} {w w' : World}

theorem init : Handed World.init := by
  intro trap held hv
  cases hv

theorem mono (h : Handed w)
    (hd : ∀ (trap : TrapId) (held : Held), w'.deliveries[trap]?.bind Oneshot.value = some held →
      w.deliveries[trap]?.bind Oneshot.value = some held)
    (hh : w.history ⊆ w'.history) : Handed w' := by
  intro trap held hv
  obtain ⟨scope, answer, hm⟩ := h trap held (hd trap held hv)
  exact ⟨scope, answer, hh hm⟩

theorem modify_value {ds : List (Oneshot Held)} {ch : TrapId}
    {f : Oneshot Held → Oneshot Held} (hf : ∀ c held, (f c).value = some held → c.value = some held)
    {trap : TrapId} {held : Held}
    (hv : (ds.modify ch f)[trap]?.bind Oneshot.value = some held) :
    ds[trap]?.bind Oneshot.value = some held := by
  rw [getElem?_modify] at hv
  rcases hc : ds[trap]? with _ | c
  · rw [hc] at hv
    cases hv
  · rw [hc] at hv
    by_cases heq : ch = trap
    · simp only [heq, if_true, Option.map_eq_map, Option.map_some] at hv ⊢
      exact hf c held hv
    · simpa [heq] using hv

theorem droppedDeliveries_value {traps : List Interception} {ds : List (Oneshot Held)}
    {trap : TrapId} {held : Held}
    (hv : (droppedDeliveries traps ds)[trap]?.bind Oneshot.value = some held) :
    ds[trap]?.bind Oneshot.value = some held := by
  unfold droppedDeliveries at hv
  induction traps generalizing ds with
  | nil => exact hv
  | cons t rest ih =>
    rw [foldl_cons] at hv
    have hv := ih hv
    split at hv
    · exact modify_value (f := Oneshot.dropSender) (fun _ _ h => h) hv
    · exact hv

end Handed

theorem Gated.handed {op : Operation} {g : Gate} (h : Handed w)
    (hg : Gated w op g w') : Handed w' := by
  cases hg with
  | inactive => exact h
  | @held scope s i trap ha hl hs hr ht hd =>
    intro trap' held' hv
    -- the channel of the trap that fired carries the new operation, if anything
    rcases hc : w.deliveries[trap']? with _ | c
    · simp [getElem?_modify, hc] at hv
    by_cases heq : trap = trap'
    · subst heq
      by_cases hdel : (c.sender && c.receiver) = true
      · have hflag : w.delivered trap = true := by simp [World.delivered, hc, hdel]
        simp only [getElem?_modify, hc, if_true, Option.map_eq_map, Option.map_some,
          Option.bind_some, Oneshot.send, hdel] at hv
        cases hv
        rw [hflag]
        exact ⟨scope, _, mem_cons_self⟩
      · simp only [getElem?_modify, hc, if_true, Option.map_eq_map, Option.map_some,
          Option.bind_some, Oneshot.send, hdel] at hv
        obtain ⟨scope', answer, hm⟩ := h trap held' (by rw [hc]; exact hv)
        exact ⟨scope', answer, mem_cons_of_mem _ hm⟩
    · simp only [getElem?_modify, heq, hc] at hv
      obtain ⟨scope', answer, hm⟩ := h trap' held' (by rw [hc]; exact hv)
      exact ⟨scope', answer, mem_cons_of_mem _ hm⟩
  | _ => exact h.mono (fun _ _ => id) (subset_cons_self _ _)

theorem Change.handed (h : Handed w) (hc : Change quote w w') : Handed w' := by
  cases hc with
  | gated hg => exact hg.handed h
  | holdingDropped hs hpos => exact h
  | opened ha => exact h
  | intercepted hs sel =>
    refine h.mono ?_ (subset_cons_self _ _)
    intro trap held hv
    rcases Nat.lt_or_ge trap w.deliveries.length with hlt | hge
    · rwa [getElem?_append_left hlt] at hv
    · rw [getElem?_append_right hge] at hv
      rcases Nat.eq_zero_or_pos (trap - w.deliveries.length) with hz | hp
      · rw [hz] at hv
        cases hv
      · rw [getElem?_eq_none hp] at hv
        cases hv
  | decisionSent ch d => exact h
  | senderDropped ch => exact h
  | receiverDropped trap =>
    refine h.mono (fun _ _ => Handed.modify_value ?_) (List.Subset.refl _)
    rintro c held ⟨⟩
  | referenceDropped scope => exact h
  | restored hs =>
    exact h.mono (fun _ _ => Handed.droppedDeliveries_value) (subset_cons_self _ _)
  | resetStarted hs =>
    refine h.mono (fun _ _ => Handed.droppedDeliveries_value) ?_
    exact subset_cons_of_subset _ (subset_cons_self _ _)
  | resetEnded reset => exact h
  | deactivated => exact h
  | _ => exact h.mono (fun _ _ => id) (subset_cons_self _ _)

theorem handed_run {calls : List Call} (h : (runCalls quote calls).run World.init = .ok ((), w)) :
    Handed w :=
  (run_induction Handed.init (fun _ _ _ hh hc => hc.handed hh) h).2

/-! ## Which rule or trap gets an operation -/

/-- **The history of a scope, operation by operation.** In every run: no trap fires twice;
every gated operation fares as the rules in force and the armed traps say; the operations
that fell into traps are numbered 1, 2, 3, ... as the traps fired, and those that somebody
received keep that order; what waits in a trap's channel was handed to that trap; and every
counter counts the hits of its rule. -/
theorem gated_by_rules_and_traps {quote : String → String} {calls : List Call} {w : World}
    (h : (runCalls quote calls).run World.init = .ok ((), w)) (scope : ScopeId) :
    (firings scope w.history).Nodup ∧
      (∀ later earlier operation verdict answer,
        w.history = later ++ .gated scope operation verdict answer :: earlier →
        (ledger scope earlier).Rules scope operation verdict answer) ∧
      (ledger scope w.history).sequences = List.range' 1 (firings scope w.history).length ∧
      (ledger scope w.history).delivered.Sublist (ledger scope w.history).sequences ∧
      Handed w ∧
      ∀ rule ∈ (ledger scope w.history).installed,
        w.hitCount rule.hits = some (hitsOf scope rule w.history) := by
  have ht := tracks_run h
  refine ⟨ht.sound.firings_nodup scope, ?_, ?_, delivered_sublist scope _, handed_run h,
    (counted_run h).count scope⟩
  · intro later earlier operation verdict answer heq
    have hsound := ht.sound
    rw [heq] at hsound
    exact hsound.truthful
  · rw [ht.sound.sequences_eq scope, ← ht.sound.fired_eq scope, length_map]

def someOperation : Operation := ⟨.http, .request, "getSlot", [], []⟩

def twoTraps : List Call :=
  [.openScope, .observe 0 .default, .intercept 0 .default, .intercept 0 .default,
    .gate someOperation, .gate someOperation]

theorem gated_by_rules_and_traps_two :
    firings 0 (finalWorld id twoTraps).history = [0, 1] ∧
      (firings 0 (finalWorld id twoTraps).history).Nodup :=
  ⟨by decide +kernel,
    (gated_by_rules_and_traps (run_finalWorld (by decide +kernel)) 0).1⟩

/-- The scenario gives up on its first trap before an operation falls into it. -/
def abandonedTrap : List Call :=
  [.openScope, .intercept 0 .default, .dropTrap ⟨0, .default, 0⟩, .intercept 0 .default,
    .gate someOperation, .gate someOperation]

/-- The numbers of the operations that are received may skip: the first operation somebody
receives here is number two. -/
theorem received_numbers_skip : ¬ ∀ (quote : String → String) (calls : List Call) (w : World),
    (runCalls quote calls).run World.init = .ok ((), w) → ∀ scope,
      (ledger scope w.history).delivered =
        List.range' 1 (ledger scope w.history).delivered.length := by
  intro hall
  have hrun := hall id abandonedTrap _ (run_finalWorld (by decide +kernel)) 0
  revert hrun
  decide +kernel

/-! ## Where the traps are -/

theorem after_fired {l : Ledger} (h : entry ∈ l.fired) (ev : Event) :
    entry ∈ (l.after ev).fired := by
  cases ev with
  | gated scope op verdict ans =>
    cases verdict with
    | held trap sequence delivered => exact mem_append_left _ h
    | _ => exact h
  | _ => exact h

theorem after_taken {l : Ledger} (h : entry ∈ l.unfired ∨ entry ∈ l.reports.flatten)
    (ev : Event) :
    entry ∈ (l.after ev).unfired ∨ entry ∈ (l.after ev).reports.flatten := by
  cases ev with
  | gated scope op verdict ans => cases verdict <;> exact h
  | restored scope =>
    rcases h with h | h
    · exact .inl (mem_append_left _ h)
    · exact .inr h
  | resetErr reset scope names =>
    simp only [Ledger.after, flatten_append, flatten_singleton, mem_append]
    rcases h with h | h
    · exact .inr (.inr h)
    · exact .inr (.inl h)
  | _ => exact h

/-- Every reset in progress began, and so did every reset that returned. -/
structure Begun (w : World) : Prop where
  waiting : ∀ reset scope, w.resetScope reset = some scope → .resetStarted reset scope ∈ w.history
  /-- a reset that returned `Ok` had begun by then -/
  returned : ∀ later earlier reset scope, w.history = later ++ .resetOk reset scope :: earlier →
    .resetStarted reset scope ∈ earlier

namespace Begun

variable {quote : String → String} {w w' : World}

theorem init : Begun World.init := by
  constructor
  · intro reset scope hr
    cases hr
  · intro later earlier reset scope heq
    cases later <;> cases heq

theorem frame (h : Begun w) (hr : ∀ reset scope, w'.resetScope reset = some scope →
    w.resetScope reset = some scope) (hh : w'.history = w.history) : Begun w' := by
  refine ⟨?_, ?_⟩
  · intro reset scope hs
    rw [hh]
    exact h.waiting reset scope (hr reset scope hs)
  · rw [hh]
    exact h.returned

theorem step (h : Begun w) (ev : Event) (hh : w'.history = ev :: w.history)
    (hr : ∀ reset scope, w'.resetScope reset = some scope →
      w.resetScope reset = some scope ∨ ev = .resetStarted reset scope)
    (hok : ∀ reset scope, ev = .resetOk reset scope → w.resetScope reset = some scope) :
    Begun w' := by
  refine ⟨?_, ?_⟩
  · intro reset scope hs
    rw [hh]
    rcases hr reset scope hs with hold | rfl
    · exact mem_cons_of_mem _ (h.waiting reset scope hold)
    · exact mem_cons_self
  · intro later earlier reset scope heq
    rw [hh] at heq
    cases later with
    | nil =>
      obtain ⟨rfl, rfl⟩ := List.cons.inj heq
      exact h.waiting reset scope (hok reset scope rfl)
    | cons e rest =>
      obtain ⟨-, heq⟩ := List.cons.inj heq
      exact h.returned rest earlier reset scope heq

end Begun

theorem Change.begun (h : Begun w) (hc : Change quote w w') : Begun w' := by
  cases hc with
  | gated hg =>
    cases hg with
    | inactive => exact h
    | _ => exact h.step _ rfl (fun _ _ => .inl) (by rintro _ _ ⟨⟩)
  | intercepted hs sel | ruled hs sel hw | removed hs
  | restored hs => exact h.step _ rfl (fun _ _ => .inl) (by rintro _ _ ⟨⟩)
  | @resetStarted scope s hs =>
    have hres : Begun (w.restored quote scope s) :=
      h.step _ rfl (fun _ _ => .inl) (by rintro _ _ ⟨⟩)
    refine hres.step (.resetStarted w.resets.length scope) rfl ?_ (by rintro _ _ ⟨⟩)
    intro reset scope' hr
    rcases resetScope_append hr with hold | ⟨rfl, rfl⟩
    · exact .inl hold
    · exact .inr rfl
  | resetOk hr hs hh hu =>
    refine h.step _ rfl (fun _ _ hset => .inl (resetScope_set hset)) ?_
    rintro _ _ ⟨⟩
    exact hr
  | resetErr hr hs hh hu =>
    exact h.step _ rfl (fun _ _ hset => .inl (resetScope_set hset)) (by rintro _ _ ⟨⟩)
  | resetEnded reset => exact h.frame (fun _ _ => resetScope_set) rfl
  | _ => exact h.frame (fun _ _ => id) rfl

theorem begun_run {calls : List Call} (h : (runCalls quote calls).run World.init = .ok ((), w)) :
    Begun w :=
  (run_induction Begun.init (fun _ _ _ hb hc => hc.begun hb) h).2

theorem Sound.unfired_unreported {history : List Event} (h : Sound quote history)
    (hu : entry ∈ (ledger scope history).unfired) :
    entry ∉ (ledger scope history).reports.flatten := by
  have hcols := (h.columns_nodup scope).of_map
  intro hr
  exact (nodup_append.mp hcols).2.2 entry (mem_append_right _ hu) entry hr rfl

theorem Sound.reports_nodup {history : List Event} (h : Sound quote history) (scope : ScopeId) :
    (ledger scope history).reports.flatten.Nodup :=
  (h.columns_nodup scope).of_map.of_append_right

/-- When a reset returns `Ok`, the traps requested before it fired or were reported. -/
theorem Sound.ok_settles {reset reset' : ResetId} {since before : List Event}
    (h : Sound quote (.resetOk reset scope :: (since ++ .resetStarted reset' scope :: before)))
    (hr : entry ∈ (ledger scope before).requested) :
    entry ∈ (ledger scope (since ++ .resetStarted reset' scope :: before)).fired ∨
      entry ∈ (ledger scope (since ++ .resetStarted reset' scope :: before)).reports.flatten := by
  have hunfired : (ledger scope (since ++ .resetStarted reset' scope :: before)).unfired = [] := h.1
  have harmed : (ledger scope before).armed = [] := h.2.truthful
  have hsr : ledger scope (.resetStarted reset' scope :: before) = ledger scope before :=
    ledger_cons_self rfl before
  -- nothing is armed when the reset begins, so the trap is in one of the other columns
  have hcols := (ledger_balanced scope before).mem_iff.mp hr
  rw [harmed, append_nil, append_assoc, mem_append, mem_append] at hcols
  rcases hcols with hfired | htk
  · refine .inl (ledger_mono (P := fun l => entry ∈ l.fired) (fun _ e hl => after_fired hl e) ?_ _)
    rw [hsr]
    exact hfired
  · have hlat := ledger_mono (P := fun l => entry ∈ l.unfired ∨ entry ∈ l.reports.flatten)
      (fun _ e hl => after_taken hl e) (hsr ▸ htk) since
    rw [hunfired] at hlat
    rcases hlat with hnil | hreported
    · cases hnil
    · exact .inr hreported

/-- **No trap is lost.** In every run: the requested traps are the fired ones, the ones the
scope still has armed, the ones recorded in `unfired` and the ones the errors of `reset`
named; the columns share no trap. A trap taken away unfired stays in `unfired` until one
error names it, and only one does. A reset that returns `Ok` leaves no trap unfired and
unreported that was requested before the reset began. -/
theorem traps_accounted {quote : String → String} {calls : List Call} {w : World}
    (h : (runCalls quote calls).run World.init = .ok ((), w)) (scope : ScopeId) :
    (ledger scope w.history).requested.length =
        (firings scope w.history).length +
          ((w.stateD scope).traps.countP fun trap => trap.deliver.isSome) +
          (w.stateD scope).unfired.length + (errors scope w.history).flatten.length ∧
      (ledger scope w.history).requested.Perm
        ((ledger scope w.history).fired ++ armedEntries (w.stateD scope).traps ++
          (ledger scope w.history).unfired ++ (ledger scope w.history).reports.flatten) ∧
      ((ledger scope w.history).requested.map Prod.fst).Nodup ∧
      (ledger scope w.history).fired.map Prod.fst = firings scope w.history ∧
      (w.stateD scope).unfired = (ledger scope w.history).unfired.map (TrapEntry.name quote) ∧
      errors scope w.history =
        (ledger scope w.history).reports.map (List.map (TrapEntry.name quote)) ∧
      (∀ later earlier, w.history = later ++ earlier →
        ∀ entry ∈ (ledger scope earlier).unfired,
          entry ∉ (ledger scope earlier).reports.flatten ∧
            (entry ∈ (ledger scope w.history).unfired ∨
              (ledger scope w.history).reports.flatten.count entry = 1)) ∧
      ∀ later earlier reset, w.history = later ++ .resetOk reset scope :: earlier →
        ∃ since before, earlier = since ++ .resetStarted reset scope :: before ∧
          ∀ entry ∈ (ledger scope before).requested,
            entry ∈ (ledger scope earlier).fired ∨
              entry ∈ (ledger scope earlier).reports.flatten := by
  have ht := tracks_run h
  have hrep := ht.state scope
  have hbal := ledger_balanced scope w.history
  refine ⟨?_, ?_, ht.sound.requested_nodup scope, ht.sound.fired_eq scope, hrep.unfired,
    (ht.sound.reports_eq scope).symm, ?_, ?_⟩
  · have hlen := hbal.length_eq
    have hfired : (firings scope w.history).length = (ledger scope w.history).fired.length := by
      rw [← ht.sound.fired_eq scope, length_map]
    have harmed : ((w.stateD scope).traps.countP fun trap => trap.deliver.isSome) =
        (ledger scope w.history).armed.length := by
      rw [← hrep.armed, armedEntries_length]
    have hunfired : (w.stateD scope).unfired.length =
        (ledger scope w.history).unfired.length := by
      rw [hrep.unfired, length_map]
    have hreports : (errors scope w.history).flatten.length =
        (ledger scope w.history).reports.flatten.length := by
      rw [← ht.sound.reports_eq scope, ← map_flatten, length_map]
    rw [hlen, hfired, harmed, hunfired, hreports]
    simp only [length_append]
  · rw [hrep.armed]
    exact hbal
  · intro later earlier heq entry hentry
    have hsound := ht.sound
    rw [heq] at hsound
    refine ⟨hsound.suffix.unfired_unreported hentry, ?_⟩
    have hlater := ledger_mono (P := fun l => entry ∈ l.unfired ∨ entry ∈ l.reports.flatten)
      (fun _ e hl => after_taken hl e) (.inl hentry) later
    rw [← heq] at hlater
    rcases hlater with hu | hr
    · exact .inl hu
    · exact .inr (count_eq_one_of_mem (ht.sound.reports_nodup scope) hr)
  · intro later earlier reset heq
    have hsound := ht.sound
    rw [heq] at hsound
    obtain ⟨since, before, rfl⟩ := append_of_mem ((begun_run h).returned _ _ _ _ heq)
    exact ⟨since, before, rfl, fun entry hentry => hsound.suffix.ok_settles hentry⟩

/-- A reset that times out, a second one that reports, a third one that is content. -/
def patientResets : List Call :=
  [.openScope, .intercept 0 .default, .intercept 0 (.ofMethod "getSlot"), .gate someOperation,
    .startReset 0, .pollReset 0, .abandonReset 0, .dropHolding ⟨0⟩, .startReset 0, .pollReset 1,
    .startReset 0, .pollReset 2]

theorem traps_accounted_patient :
    (errors 0 (finalWorld id patientResets).history).flatten.length = 1 ∧
      (ledger 0 (finalWorld id patientResets).history).requested.length =
        (firings 0 (finalWorld id patientResets).history).length +
          (((finalWorld id patientResets).stateD 0).traps.countP fun trap =>
            trap.deliver.isSome) +
          ((finalWorld id patientResets).stateD 0).unfired.length +
          (errors 0 (finalWorld id patientResets).history).flatten.length :=
  ⟨by decide +kernel, (traps_accounted (run_finalWorld (by decide +kernel)) 0).1⟩

/-- A trap is armed while a reset waits for an operation held by an earlier one. -/
def armedWhileWaiting : List Call :=
  [.openScope, .intercept 0 .default, .gate someOperation, .startReset 0, .intercept 0 .default,
    .dropHolding ⟨0⟩, .pollReset 0]

/-- A reset may return `Ok` while a trap requested after its beginning is still armed. -/
theorem ok_with_armed_trap : ¬ ∀ (quote : String → String) (calls : List Call) (w : World),
    (runCalls quote calls).run World.init = .ok ((), w) → ∀ scope later earlier reset,
      w.history = later ++ .resetOk reset scope :: earlier →
        ∀ entry ∈ (ledger scope earlier).requested,
          entry ∈ (ledger scope earlier).fired ∨
            entry ∈ (ledger scope earlier).reports.flatten := by
  intro hall
  have hok := hall id armedWhileWaiting _ (run_finalWorld (by decide +kernel)) 0 []
    (finalWorld id armedWhileWaiting).history.tail 0 (by decide +kernel)
  revert hok
  decide +kernel

end Redsuite
