import Redsuite.Ledger

/-!
# The fault scope keeps the ledger

The `State` of a scope is a representation of its ledger.
-/

namespace Redsuite

open List Option World

/-! ## Armed traps -/

/-- The traps that still wait, as the ledger lists them. -/
def armedEntries (traps : List Interception) : List TrapEntry :=
  traps.filterMap fun trap => trap.deliver.map fun channel => (channel, trap.selector)

theorem armedEntries_cons_none {trap : Interception} (h : trap.deliver = none)
    (rest : List Interception) : armedEntries (trap :: rest) = armedEntries rest := by
  simp [armedEntries, h]

variable {channel : TrapId} {traps : List Interception} {index : ℕ} {op : Operation}
  {scope : ScopeId}

theorem armedEntries_cons_some {trap : Interception} (h : trap.deliver = some channel)
    (rest : List Interception) :
    armedEntries (trap :: rest) = (channel, trap.selector) :: armedEntries rest := by
  simp [armedEntries, h]

theorem armedEntries_append (traps : List Interception) (sel : Selector) (channel : TrapId) :
    armedEntries (traps ++ [⟨sel, some channel⟩]) =
      armedEntries traps ++ [(channel, sel)] := by
  simp [armedEntries]

theorem armedEntries_length (traps : List Interception) :
    (armedEntries traps).length = traps.countP fun trap => trap.deliver.isSome := by
  induction traps with
  | nil => rfl
  | cons trap rest ih =>
    rcases hd : trap.deliver with _ | channel
    · rw [armedEntries_cons_none hd, ih, countP_cons_of_neg (by simp [hd])]
    · rw [armedEntries_cons_some hd, length_cons, ih, countP_cons_of_pos (by simp [hd])]

theorem unfiredNames_eq (quote : String → String) (traps : List Interception) :
    unfiredNames quote traps = (armedEntries traps).map (TrapEntry.name quote) := by
  induction traps with
  | nil => rfl
  | cons trap rest ih =>
    unfold unfiredNames at ih ⊢
    rcases hd : trap.deliver with _ | channel
    · rw [filter_cons_of_neg (by simp [hd]), armedEntries_cons_none hd, ih]
    · rw [filter_cons_of_pos (by simp [hd]), armedEntries_cons_some hd, map_cons,
        map_cons, ih]
      rfl

theorem armedTrap_none (h : armedTrap traps op = none) :
    ((armedEntries traps).find? fun e => e.2.matches op) = none := by
  induction traps with
  | nil => rfl
  | cons trap rest ih =>
    rw [armedTrap, findIdx?_cons] at h
    rcases hd : trap.deliver with _ | channel
    · rw [armedEntries_cons_none hd]
      simp only [hd, isSome_none, Bool.false_and, Bool.false_eq_true, if_false,
        map_eq_none_iff] at h
      exact ih h
    · rw [armedEntries_cons_some hd]
      rcases hm : trap.selector.matches op with _ | _
      · simp only [hd, hm, isSome_some, Bool.and_false, Bool.false_eq_true, if_false,
          map_eq_none_iff] at h
        rw [find?_cons_of_neg (by simp [hm])]
        exact ih h
      · simp [hd, hm] at h

theorem armedTrap_some (h : armedTrap traps op = some index)
    (hd : traps[index]?.bind Interception.deliver = some channel) :
    ∃ sel, ((armedEntries traps).find? fun e => e.2.matches op) = some (channel, sel) := by
  induction traps generalizing index with
  | nil => cases h
  | cons trap rest ih =>
    rw [armedTrap, findIdx?_cons] at h
    by_cases hp : (trap.deliver.isSome && trap.selector.matches op) = true
    · rw [if_pos hp] at h
      cases h
      have hdel : trap.deliver = some channel := hd
      rw [hdel, isSome_some] at hp
      exact ⟨trap.selector, by
        rw [armedEntries_cons_some hdel, find?_cons_of_pos (by exact hp)]⟩
    · rw [if_neg hp] at h
      obtain ⟨pos, hr, rfl⟩ := map_eq_some_iff.mp h
      obtain ⟨sel, hfind⟩ := ih hr hd
      refine ⟨sel, ?_⟩
      rcases hdel : trap.deliver with _ | other
      · rw [armedEntries_cons_none hdel, hfind]
      · rw [hdel, isSome_some] at hp
        rw [armedEntries_cons_some hdel, find?_cons_of_neg (by exact hp), hfind]

theorem mem_armedEntries (hd : traps[index]?.bind Interception.deliver = some channel) :
    channel ∈ (armedEntries traps).map Prod.fst := by
  obtain ⟨trap, ht, hdel⟩ := bind_eq_some_iff.mp hd
  refine mem_map.mpr ⟨(channel, trap.selector), ?_, rfl⟩
  refine mem_filterMap.mpr ⟨trap, mem_of_getElem? ht, ?_⟩
  rw [hdel]
  rfl

theorem armedEntries_take (hn : ((armedEntries traps).map Prod.fst).Nodup)
    (hd : traps[index]?.bind Interception.deliver = some channel) :
    armedEntries (traps.modify index fun trap => { trap with deliver := none }) =
      (armedEntries traps).filter fun e => !decide (e.1 = channel) := by
  induction traps generalizing index with
  | nil => cases hd
  | cons trap rest ih =>
    cases index with
    | zero =>
      have hdel : trap.deliver = some channel := hd
      rw [armedEntries_cons_some hdel] at hn ⊢
      obtain ⟨hnot, -⟩ := nodup_cons.mp hn
      rw [modify_zero_cons, armedEntries_cons_none rfl,
        filter_cons_of_neg (by simp)]
      refine (filter_eq_self.mpr ?_).symm
      intro e he
      have hne : e.1 ≠ channel := by
        rintro rfl
        exact hnot (mem_map.mpr ⟨e, he, rfl⟩)
      simpa using hne
    | succ pos =>
      rw [modify_succ_cons]
      rcases hdel : trap.deliver with _ | other
      · rw [armedEntries_cons_none hdel] at hn ⊢
        rw [armedEntries_cons_none hdel, ih hn hd]
      · rw [armedEntries_cons_some hdel] at hn ⊢
        obtain ⟨hnot, hn⟩ := nodup_cons.mp hn
        have hne : other ≠ channel := by
          rintro rfl
          exact hnot (mem_armedEntries hd)
        rw [armedEntries_cons_some hdel, ih hn hd,
          filter_cons_of_pos (by simpa using hne)]

/-! ## States and ledgers -/

/-- The contents of a scope, those of a fresh one where it does not exist yet. -/
def World.stateD (w : World) (scope : ScopeId) : State :=
  (w.state? scope).getD ⟨[], [], [], [0, 0, 0], 0, 0, 0, Notify.new⟩

namespace World

variable {w : World} {scope : ScopeId}

theorem stateD_eq {state : State} (h : w.state? scope = some state) : w.stateD scope = state := by
  rw [stateD, h]
  rfl

theorem stateD_congr {w' : World} (h : w'.scopes = w.scopes) (scope : ScopeId) :
    w'.stateD scope = w.stateD scope := by
  rw [stateD, state?, h]
  rfl

theorem stateD_setState_self {state : State} (h : w.state? scope = some state) (state' : State) :
    (w.setState scope state').stateD scope = state' :=
  stateD_eq (state?_setState_self (by rw [h]; rfl) state')

theorem stateD_setState_ne {other : ScopeId} (h : other ≠ scope) (state : State) :
    (w.setState scope state).stateD other = w.stateD other := by
  rw [stateD, state?_setState_ne h, stateD]

end World

/-- A state says what a ledger says. -/
structure Represents (quote : String → String) (state : State) (l : Ledger) : Prop where
  rules : state.rules = l.rules
  armed : armedEntries state.traps = l.armed
  unfired : state.unfired = l.unfired.map (TrapEntry.name quote)
  sequence : state.sequence = l.sequences.length

/-- Every scope is represented, and every event told the truth. -/
structure Tracks (quote : String → String) (w : World) : Prop where
  state : ∀ scope, Represents quote (w.stateD scope) (ledger scope w.history)
  requested : ∀ scope, ∀ entry ∈ (ledger scope w.history).requested,
    entry.1 < w.deliveries.length
  sound : Sound quote w.history

namespace Tracks

variable {quote : String → String} {w w' : World}

theorem init : Tracks quote World.init := by
  refine ⟨?_, ?_, trivial⟩
  · intro scope
    exact ⟨rfl, rfl, rfl, rfl⟩
  · intro scope e he
    cases he

variable {s : State}

section

variable (h : Tracks quote w)

include h

theorem represents (hs : w.state? scope = some s) :
    Represents quote s (ledger scope w.history) := by
  have hrep := h.state scope
  rwa [stateD_eq hs] at hrep

theorem same (hst : ∀ scope, Represents quote (w'.stateD scope) (ledger scope w.history))
    (hh : w'.history = w.history) (hd : w.deliveries.length ≤ w'.deliveries.length) :
    Tracks quote w' :=
    by
  refine ⟨?_, ?_, hh ▸ h.sound⟩
  · intro scope
    rw [hh]
    exact hst scope
  · intro scope e he
    rw [hh] at he
    exact Nat.lt_of_lt_of_le (h.requested scope e he) hd

theorem frame (hs : w'.scopes = w.scopes) (hh : w'.history = w.history)
    (hd : w.deliveries.length ≤ w'.deliveries.length) : Tracks quote w' := by
  refine h.same ?_ hh hd
  intro scope
  rw [stateD_congr hs]
  exact h.state scope

theorem step (ev : Event) (hne : ∀ scope, scope ≠ ev.scope → w'.stateD scope = w.stateD scope)
    (hrep : Represents quote (w'.stateD ev.scope) ((ledger ev.scope w.history).after ev))
    (hh : w'.history = ev :: w.history) (ht : ev.Truthful quote w.history)
    (hd : w.deliveries.length ≤ w'.deliveries.length)
    (hreq : ∀ e ∈ ((ledger ev.scope w.history).after ev).requested,
      e ∈ (ledger ev.scope w.history).requested ∨ e.1 < w'.deliveries.length) :
    Tracks quote w' := by
  have hold : ∀ scope, ∀ e ∈ (ledger scope w.history).requested, e.1 < w'.deliveries.length :=
    fun scope e he => Nat.lt_of_lt_of_le (h.requested scope e he) hd
  refine ⟨?_, ?_, ?_⟩ <;> rw [hh]
  · refine forall_ledger_cons (P := fun scope => Represents quote (w'.stateD scope)) ev _ hrep
      fun scope hs => ?_
    rw [hne scope (Ne.symm hs)]
    exact h.state scope
  · refine forall_ledger_cons (P := fun _ l => ∀ e ∈ l.requested, e.1 < w'.deliveries.length) ev _
      (fun e he => ?_) fun scope _ => hold scope
    exact (hreq e he).elim (hold _ e) id
  · exact ⟨ht, h.sound⟩

theorem stepState (ev : Event) {s' : State} (hs : w.state? ev.scope = some s)
    (hsc : w'.scopes = (w.setState ev.scope s').scopes)
    (hrep : Represents quote s' ((ledger ev.scope w.history).after ev))
    (hh : w'.history = ev :: w.history) (ht : ev.Truthful quote w.history)
    (hd : w.deliveries.length ≤ w'.deliveries.length)
    (hreq : ∀ e ∈ ((ledger ev.scope w.history).after ev).requested,
      e ∈ (ledger ev.scope w.history).requested ∨ e.1 < w'.deliveries.length) :
    Tracks quote w' := by
  refine h.step ev ?_ ?_ hh ht hd hreq
  · intro scope hne
    rw [stateD_congr hsc, stateD_setState_ne hne]
  · rw [stateD_congr hsc, stateD_setState_self hs]
    exact hrep

theorem sameState {s' : State} (hs : w.state? scope = some s)
    (hsc : w'.scopes = (w.setState scope s').scopes)
    (hrep : Represents quote s' (ledger scope w.history)) (hh : w'.history = w.history)
    (hd : w.deliveries.length ≤ w'.deliveries.length) : Tracks quote w' :=
    by
  refine h.same ?_ hh hd
  intro other
  rw [stateD_congr hsc]
  by_cases ho : other = scope
  · subst ho
    rw [stateD_setState_self hs]
    exact hrep
  · rw [stateD_setState_ne ho]
    exact h.state other

end

end Tracks

/-! ## Every piece keeps the ledger -/

section Pieces

theorem droppedDeliveries_length (traps : List Interception) (ds : List (Oneshot Held)) :
    (droppedDeliveries traps ds).length = ds.length := by
  unfold droppedDeliveries
  induction traps generalizing ds with
  | nil => rfl
  | cons trap rest ih =>
    rw [foldl_cons, ih]
    split
    · exact length_modify ..
    · rfl

variable {quote : String → String} {w w' : World}

theorem Gated.tracks {g : Gate} (h : Tracks quote w) (hg : Gated w op g w') : Tracks quote w' := by
  cases hg with
  | inactive => exact h
  | rejected ha hl hs hr he | stalled ha hl hs hr he =>
    have hrep := h.represents hs
    refine h.stepState (.gated _ op _ _) hs rfl ?_ rfl ?_ (Nat.le_refl _) (fun _ => .inl)
    · exact { hrep with }
    · rw [hrep.rules] at hr
      simp [Event.Truthful, Ledger.Rules, hr, he]
  | @released scope s ha hl hs hr ht =>
    have hrep := h.represents hs
    refine h.stepState (.gated scope op .released (.decided .release))
      hs rfl ?_ rfl ?_ (Nat.le_refl _) (fun _ => .inl)
    · exact { hrep with }
    · have hfind := armedTrap_none ht
      rw [hrep.rules] at hr
      rw [hrep.armed] at hfind
      simp only [Event.Truthful, Ledger.Rules, hr, hfind, and_self]
  | @held scope s index trap ha hl hs hr ht hd =>
    have hrep := h.represents hs
    have hnd := h.sound.armed_nodup scope
    rw [← hrep.armed] at hnd
    refine h.stepState (.gated scope op (.held trap (s.sequence + 1) _) (.held _ _ _))
      hs rfl ?_ rfl ?_ (Nat.le_of_eq (length_modify ..).symm) (fun _ => .inl)
    · refine ⟨hrep.rules, ?_, hrep.unfired, ?_⟩
      · exact (armedEntries_take hnd hd).trans (congrArg (List.filter _) hrep.armed)
      · simp only [Ledger.after, Event.scope, length_append, length_singleton,
          hrep.sequence]
    · obtain ⟨sel, hfind⟩ := armedTrap_some ht hd
      rw [hrep.rules] at hr
      rw [hrep.armed] at hfind
      simp only [Event.Truthful, Ledger.Rules, hr, hfind, hrep.sequence]
      exact ⟨⟨_, rfl⟩, _, _, rfl⟩

theorem World.restored_tracks (h : Tracks quote w) {s : State}
    (hs : w.state? scope = some s) : Tracks quote (w.restored quote scope s) := by
  have hrep := h.represents hs
  refine h.stepState (.restored scope) hs rfl ?_ rfl trivial ?_ (fun _ => .inl)
  · refine ⟨rfl, rfl, ?_, hrep.sequence⟩
    simp only [Ledger.after, Event.scope, map_append, unfiredNames_eq, hrep.unfired, hrep.armed]
  · exact Nat.le_of_eq (droppedDeliveries_length ..).symm

theorem Change.tracks (h : Tracks quote w) (hc : Change quote w w') : Tracks quote w' := by
  cases hc with
  | gated hg => exact hg.tracks h
  | @holdingDropped scope s hs hpos =>
    have hrep := h.represents hs
    exact h.sameState hs rfl { hrep with } rfl (Nat.le_refl _)
  | opened ha =>
    -- the new scope starts with the contents `stateD` gives a missing one
    refine h.same ?_ rfl (Nat.le_refl _)
    intro scope
    have hrep := h.state scope
    simp only [stateD, state?] at hrep ⊢
    by_cases heq : scope = w.scopes.length
    · rw [heq, getElem?_eq_none (Nat.le_refl _)] at hrep
      rw [heq, getElem?_concat_length]
      exact { hrep with }
    · rw [getElem?_concat_ne _ heq]
      exact hrep
  | @intercepted scope s hs sel =>
    have hrep := h.represents hs
    refine h.stepState (.requested scope w.deliveries.length sel) hs rfl ?_ rfl ?_ ?_ ?_
    · refine ⟨hrep.rules, ?_, hrep.unfired, hrep.sequence⟩
      rw [armedEntries_append, hrep.armed]
      rfl
    · intro e he
      exact Nat.ne_of_lt (h.requested scope e he)
    · simp
    · intro e he
      rcases mem_concat.mp he with hold | rfl
      · exact .inl hold
      · exact .inr (by simp)
  | @ruled scope s hs sel effect watches hw =>
    have hrep := h.represents hs
    refine h.stepState (.installed scope _) hs rfl ?_ rfl trivial (Nat.le_refl _)
      (fun _ => .inl)
    exact { hrep with rules := congrArg (· ++ _) hrep.rules }
  | @removed handle s hs =>
    have hrep := h.represents hs
    refine h.stepState (.removed handle.state handle.hits) hs rfl ?_ rfl trivial
      (Nat.le_refl _) (fun _ => .inl)
    exact { hrep with rules := congrArg (List.filter _) hrep.rules }
  | receiverDropped trap => exact h.frame rfl rfl (Nat.le_of_eq (length_modify ..).symm)
  | restored hs => exact restored_tracks h hs
  | @resetStarted scope s hs =>
    have hres := restored_tracks h hs
    refine hres.step (.resetStarted w.resets.length scope) (fun _ _ => rfl) ?_ rfl ?_
      (Nat.le_refl _) (fun _ => .inl)
    · exact hres.state scope
    · exact congrArg Ledger.armed (ledger_cons_self rfl w.history)
  | @resetOk reset scope s hr hs hh hu =>
    have hrep := h.represents hs
    refine h.stepState (.resetOk reset scope) hs rfl ?_ rfl ?_ (Nat.le_refl _) (fun _ => .inl)
    · exact { hrep with unfired := hu ▸ hrep.unfired }
    · have hmap := hrep.unfired
      rw [hu] at hmap
      exact map_eq_nil_iff.mp hmap.symm
  | @resetErr reset scope s hr hs hh hu =>
    have hrep := h.represents hs
    refine h.stepState (.resetErr reset scope s.unfired) hs rfl ?_ rfl ?_
      (Nat.le_refl _) (fun _ => .inl)
    · exact { hrep with unfired := rfl }
    · exact ⟨hrep.unfired, hu⟩
  | _ => exact h.frame rfl rfl (Nat.le_refl _)

/-- **The code refines the ledger**, whatever it is made to do. -/
theorem tracks_run {calls : List Call}
    (h : (runCalls quote calls).run World.init = .ok ((), w)) : Tracks quote w :=
  (run_induction Tracks.init (fun _ _ _ ht hc => hc.tracks ht) h).2

end Pieces

/-! ## The counters of the rules -/

/-- The rule that decided, by its counter. -/
def Verdict.decider : Verdict → Option HitsId
  | .rejected rule => some rule
  | .stalled rule => some rule
  | .released => none
  | .held _ _ _ => none

/-- An event is a hit of a rule: an observer counts what matches while it is in force, a
deciding rule what it decides. -/
def Event.isHit (scope : ScopeId) (rule : Rule) (earlier : List Event) : Event → Bool
  | .gated scope' operation verdict _ =>
    decide (scope' = scope) &&
      if rule.effect.isObserve then
        (ledger scope earlier).rules.contains rule && rule.selector.matches operation
      else
        verdict.decider = some rule.hits
  | _ => false

/-- How many hits of a rule a history has. -/
def hitsOf (scope : ScopeId) (rule : Rule) : List Event → ℕ
  | [] => 0
  | event :: earlier =>
    hitsOf scope rule earlier + if event.isHit scope rule earlier then 1 else 0

/-- What a counter says. -/
def World.hitCount (w : World) (hits : HitsId) : Option ℕ := w.hits[hits]?.map Hits.count

/-- No rule was installed, and none came into force. -/
def Ledger.Shrinks (before after : Ledger) : Prop :=
  after.installed = before.installed ∧ after.rules.Sublist before.rules

/-- Every rule ever installed has a counter of its own, which agrees with the history. -/
structure Counted (w : World) : Prop where
  nodup : ∀ scope, (ledger scope w.history).rules.Nodup
  unique : ∀ scope scope' rule rule', rule ∈ (ledger scope w.history).installed →
    rule' ∈ (ledger scope' w.history).installed → rule.hits = rule'.hits →
    scope = scope' ∧ rule = rule'
  count : ∀ scope, ∀ rule ∈ (ledger scope w.history).installed,
    w.hitCount rule.hits = some (hitsOf scope rule w.history)
  fresh : ∀ scope rule, w.hits.length ≤ rule.hits → hitsOf scope rule w.history = 0

theorem modify_record_count (hits : List Hits) (i k : HitsId) :
    ((hits.modify i Hits.record)[k]?.map Hits.count) =
      (hits[k]?.map Hits.count).map (· + if i = k then 1 else 0) := by
  by_cases hik : i = k
  · simp [hik, Hits.record, Function.comp_def]
  · simp [hik, Function.comp_def]

theorem observedHits_count (rules : List Rule) (op : Operation) (hits : List Hits)
    (k : HitsId) :
    ((observedHits rules op hits)[k]?.map Hits.count) =
      (hits[k]?.map Hits.count).map (· + rules.countP fun rule =>
        rule.effect.isObserve && rule.selector.matches op && rule.hits = k) := by
  unfold observedHits
  induction rules generalizing hits with
  | nil => simp [Function.comp_def]
  | cons rule rest ih =>
    rw [foldl_cons, ih, countP_cons]
    by_cases hm : (rule.effect.isObserve && rule.selector.matches op) = true
    · rw [if_pos hm, modify_record_count, hm, Option.map_map]
      congr 1
      funext n
      by_cases hk : rule.hits = k
      · simp only [hk, Bool.true_and, decide_true, Function.comp_apply]
        omega
      · simp [hk]
    · simp [hm]

theorem countP_hits {rules : List Rule} (hn : rules.Nodup) {rule : Rule}
    (hu : ∀ other ∈ rules, other.hits = rule.hits → other = rule) (p : Rule → Bool) :
    (rules.countP fun other => p other && other.hits = rule.hits) =
      if rules.contains rule && p rule then 1 else 0 := by
  have hcongr : (rules.countP fun other => p other && other.hits = rule.hits) =
      rules.countP fun other => p rule && other == rule := by
    refine countP_congr ?_
    intro other ho
    simp only [Bool.and_eq_true, decide_eq_true_eq, beq_iff_eq]
    constructor
    · rintro ⟨hp, hh⟩
      obtain rfl := hu other ho hh
      exact ⟨hp, rfl⟩
    · rintro ⟨hp, rfl⟩
      exact ⟨hp, rfl⟩
  rw [hcongr]
  rcases hp : p rule with _ | _
  · simp
  · have hct : rules.count rule = if rule ∈ rules then 1 else 0 := hn.count
    simpa [List.count] using hct

namespace Counted

variable {w w' : World}

theorem init : Counted World.init := by
  constructor
  · intro scope
    exact nodup_nil
  · intro scope scope' rule rule' hr
    cases hr
  · intro scope rule hr
    cases hr
  · intro scope rule _
    rfl

variable {scope : ScopeId}

theorem hits_lt (h : Counted w) {rule : Rule} (hr : rule ∈ (ledger scope w.history).installed) :
    rule.hits < w.hits.length := by
  have hc := h.count scope rule hr
  rcases Nat.lt_or_ge rule.hits w.hits.length with hlt | hge
  · exact hlt
  · rw [hitCount, getElem?_eq_none hge] at hc
    cases hc

theorem update (h : Counted w)
    (hl : ∀ scope, (ledger scope w.history).Shrinks (ledger scope w'.history))
    (hc : ∀ scope, ∀ rule ∈ (ledger scope w.history).installed,
      w'.hitCount rule.hits = some (hitsOf scope rule w'.history))
    (hf : ∀ scope rule, w'.hits.length ≤ rule.hits → hitsOf scope rule w'.history = 0) :
    Counted w' := by
  refine ⟨fun scope => (h.nodup scope).sublist (hl scope).2, ?_, ?_, hf⟩
  · intro scope scope' rule rule' hrule hrule'
    rw [(hl _).1] at hrule hrule'
    exact h.unique scope scope' rule rule' hrule hrule'
  · intro scope rule hrule
    rw [(hl _).1] at hrule
    exact hc scope rule hrule

theorem same (h : Counted w) (hhits : w'.hits = w.hits)
    (hl : ∀ scope, (ledger scope w.history).Shrinks (ledger scope w'.history))
    (hsm : ∀ scope rule, hitsOf scope rule w'.history = hitsOf scope rule w.history) :
    Counted w' := by
  refine h.update hl ?_ ?_
  · intro scope rule hrule
    rw [hitCount, hhits, hsm]
    exact h.count scope rule hrule
  · intro scope rule hlt
    rw [hhits] at hlt
    rw [hsm]
    exact h.fresh scope rule hlt

theorem frame (h : Counted w) (hh : w'.history = w.history) (hhits : w'.hits = w.hits) :
    Counted w' :=
  h.same hhits (fun _ => hh ▸ ⟨rfl, .refl _⟩) fun _ _ => by rw [hh]

theorem step (h : Counted w) (ev : Event) (hh : w'.history = ev :: w.history)
    (hhits : w'.hits = w.hits)
    (hl : (ledger ev.scope w.history).Shrinks ((ledger ev.scope w.history).after ev))
    (hn : ∀ scope rule, ev.isHit scope rule w.history = false) : Counted w' := by
  refine h.same hhits ?_ fun scope rule => ?_
  · rw [hh]
    exact forall_ledger_cons (P := fun scope => (ledger scope w.history).Shrinks) ev _ hl
      fun _ _ => ⟨rfl, .refl _⟩
  · rw [hh, hitsOf, hn]
    rfl

theorem shrinks_gated (l : Ledger) (scope : ScopeId) (op : Operation) (verdict : Verdict)
    (ans : Gate) : l.Shrinks (l.after (.gated scope op verdict ans)) := by
  cases verdict <;> exact ⟨rfl, .refl _⟩

theorem gated (h : Counted w) {verdict : Verdict} {ans : Gate}
    (hh : w'.history = .gated scope op verdict ans :: w.history)
    (hlen : w.hits.length ≤ w'.hits.length)
    (hd : ∀ k, verdict.decider = some k →
      ∃ rule ∈ (ledger scope w.history).rules, rule.hits = k ∧ rule.effect.isObserve = false)
    (hk : ∀ k, w'.hitCount k = (w.hitCount k).map
      (· + ((ledger scope w.history).rules.countP (fun rule =>
          rule.effect.isObserve && rule.selector.matches op && rule.hits = k) +
        if verdict.decider = some k then 1 else 0))) : Counted w' := by
  refine h.update ?_ ?_ ?_
  · rw [hh]
    exact forall_ledger_cons (P := fun other => (ledger other w.history).Shrinks) _ _
      (shrinks_gated ..) fun _ _ => ⟨rfl, .refl _⟩
  · intro other rule hrule
    rw [hk, h.count other rule hrule, hh, map_some]
    congr 2
    -- a rule in force with this counter is the rule itself
    have hown : ∀ r ∈ (ledger scope w.history).rules, r.hits = rule.hits →
        scope = other ∧ r = rule := by
      intro r hr heq
      exact h.unique scope other r rule (rules_installed scope _ r hr) hrule heq
    have hct := countP_hits (h.nodup scope) (fun r hr heq => (hown r hr heq).2)
      fun r => r.effect.isObserve && r.selector.matches op
    rw [hct]
    by_cases hs : scope = other
    · subst hs
      rcases ho : rule.effect.isObserve with _ | _
      · simp [Event.isHit, ho]
      · have hnot : verdict.decider ≠ some rule.hits := by
          intro hdec
          obtain ⟨r, hr, heq, hno⟩ := hd _ hdec
          rw [(hown r hr heq).2, ho] at hno
          cases hno
        simp [Event.isHit, ho, hnot]
    · have hout : rule ∉ (ledger scope w.history).rules := fun hr => hs (hown rule hr rfl).1
      have hnot : verdict.decider ≠ some rule.hits := by
        intro hdec
        obtain ⟨r, hr, heq, -⟩ := hd _ hdec
        exact hs (hown r hr heq).1
      simp [Event.isHit, hs, hout, hnot]
  · intro other rule hge
    have hge := Nat.le_trans hlen hge
    have hout : ∀ r ∈ (ledger scope w.history).rules, r.hits ≠ rule.hits := by
      intro r hr heq
      have hlt := h.hits_lt (rules_installed scope _ r hr)
      rw [heq] at hlt
      exact Nat.lt_irrefl _ (Nat.lt_of_lt_of_le hlt hge)
    have hnot : verdict.decider ≠ some rule.hits := by
      intro hdec
      obtain ⟨r, hr, heq, -⟩ := hd _ hdec
      exact hout r hr heq
    have hm : rule ∉ (ledger scope w.history).rules := fun hr => hout rule hr rfl
    rw [hh, hitsOf, h.fresh other rule hge]
    by_cases hs : scope = other
    · subst hs
      simp [Event.isHit, hm, hnot]
    · simp [Event.isHit, hs]

theorem ruled (h : Counted w) {sel : Selector} {effect : Effect}
    (hh : w'.history = .installed scope ⟨sel, effect, w.hits.length⟩ :: w.history)
    (hhits : w'.hits = w.hits ++ [⟨0, Notify.new⟩]) : Counted w' := by
  have hsm : ∀ other rule, hitsOf other rule w'.history = hitsOf other rule w.history := by
    intro other rule
    rw [hh]
    rfl
  -- every rule installed now is the new one or was installed before
  have hcs : ∀ other, ∀ rule ∈ (ledger other w'.history).installed,
      rule ∈ (ledger other w.history).installed ∨
        other = scope ∧ rule = ⟨sel, effect, w.hits.length⟩ := by
    rw [hh]
    refine forall_ledger_cons (P := fun other l => ∀ rule ∈ l.installed,
      rule ∈ (ledger other w.history).installed ∨ other = scope ∧ rule = ⟨sel, effect, _⟩) _ _
      (fun rule hrule => ?_) fun _ _ _ => .inl
    exact (mem_concat.mp hrule).imp id fun hnew => ⟨rfl, hnew⟩
  constructor
  · rw [hh]
    refine forall_ledger_cons (P := fun _ l => l.rules.Nodup) _ _ ?_ fun other _ => h.nodup other
    refine List.Nodup.append (h.nodup scope) (nodup_singleton _) ?_
    intro rule hrule hnew
    have hlt := h.hits_lt (rules_installed scope _ rule hrule)
    rw [mem_singleton.mp hnew] at hlt
    exact Nat.lt_irrefl _ hlt
  · intro other other' rule rule' hrule hrule' heq
    rcases hcs other rule hrule with hold | ⟨rfl, rfl⟩
    · rcases hcs other' rule' hrule' with hold' | ⟨rfl, rfl⟩
      · exact h.unique other other' rule rule' hold hold' heq
      · have hlt := h.hits_lt hold
        rw [heq] at hlt
        exact absurd hlt (Nat.lt_irrefl _)
    · rcases hcs other' rule' hrule' with hold' | ⟨rfl, rfl⟩
      · have hlt := h.hits_lt hold'
        rw [← heq] at hlt
        exact absurd hlt (Nat.lt_irrefl _)
      · exact ⟨rfl, rfl⟩
  · intro other rule hrule
    rw [hitCount, hhits, hsm]
    rcases hcs other rule hrule with hold | ⟨rfl, rfl⟩
    · rw [getElem?_append_left (h.hits_lt hold)]
      exact h.count other rule hold
    · rw [getElem?_concat_length, h.fresh _ _ (Nat.le_refl _)]
      rfl
  · intro other rule hge
    rw [hhits, length_append] at hge
    rw [hsm]
    exact h.fresh other rule (by omega)

end Counted

section Pieces

variable {quote : String → String} {w w' : World}

theorem observedHits_length (rules : List Rule) (op : Operation) (hits : List Hits) :
    (observedHits rules op hits).length = hits.length := by
  unfold observedHits
  induction rules generalizing hits with
  | nil => rfl
  | cons rule rest ih =>
    rw [foldl_cons, ih]
    split
    · exact length_modify ..
    · rfl

theorem decidingRule_mem {rules : List Rule} {rule : Rule} (h : decidingRule rules op = some rule) :
    rule ∈ rules ∧ rule.effect.isObserve = false := by
  have hp := find?_some h
  rw [Bool.and_eq_true, Bool.not_eq_true'] at hp
  exact ⟨mem_of_find?_eq_some h, hp.1⟩

theorem decided_count (rules : List Rule) (op : Operation) (hits : List Hits)
    (i k : HitsId) :
    (((observedHits rules op hits).modify i Hits.record)[k]?.map Hits.count) =
      (hits[k]?.map Hits.count).map (· + (rules.countP (fun rule =>
        rule.effect.isObserve && rule.selector.matches op && rule.hits = k) +
        if some i = some k then 1 else 0)) := by
  rw [modify_record_count, observedHits_count, Option.map_map]
  congr 1
  funext n
  simp only [Function.comp_apply, Option.some.injEq]
  omega

theorem Gated.counted {g : Gate} (ht : Tracks quote w) (h : Counted w)
    (hg : Gated w op g w') : Counted w' := by
  cases hg with
  | inactive => exact h
  | @rejected scope s rule msg ha hl hs hr he
  | @stalled scope s rule resume ha hl hs hr he =>
    have hrls := (ht.represents hs).rules
    obtain ⟨hm, hno⟩ := decidingRule_mem hr
    refine h.gated rfl ?_ ?_ ?_
    · simp [observedHits_length]
    · rintro k ⟨⟩
      exact ⟨rule, hrls ▸ hm, rfl, hno⟩
    · intro k
      rw [← hrls]
      exact decided_count ..
  | @released scope s ha hl hs hr htr | @held scope s index trap ha hl hs hr htr hd =>
    have hrls := (ht.represents hs).rules
    refine h.gated rfl ?_ ?_ ?_
    · simp [observedHits_length]
    · rintro k ⟨⟩
    · intro k
      rw [← hrls]
      exact observedHits_count ..

theorem Change.counted (ht : Tracks quote w) (h : Counted w) (hc : Change quote w w') :
    Counted w' := by
  cases hc with
  | gated hg => exact hg.counted ht h
  | @intercepted scope s hs sel =>
    exact h.step (.requested scope _ sel) rfl rfl ⟨rfl, .refl _⟩ fun _ _ => rfl
  | ruled hs sel hw => exact h.ruled rfl rfl
  | @removed handle s hs =>
    exact h.step (.removed handle.state _) rfl rfl ⟨rfl, filter_sublist⟩ fun _ _ => rfl
  | @restored scope s hs =>
      exact h.step (.restored scope) rfl rfl ⟨rfl, nil_sublist _⟩ fun _ _ => rfl
  | @resetStarted scope s hs =>
    have hres : Counted (w.restored quote scope s) :=
      h.step (.restored scope) rfl rfl ⟨rfl, nil_sublist _⟩ fun _ _ => rfl
    exact hres.step (.resetStarted _ scope) rfl rfl ⟨rfl, .refl _⟩ fun _ _ => rfl
  | @resetOk reset scope s hr hs hh hu =>
    exact h.step (.resetOk reset scope) rfl rfl ⟨rfl, .refl _⟩ fun _ _ => rfl
  | @resetErr reset scope s hr hs hh hu =>
    exact h.step (.resetErr reset scope _) rfl rfl ⟨rfl, .refl _⟩ fun _ _ => rfl
  | _ => exact h.frame rfl rfl

/-- **The counters agree with the history**, whatever the code is made to do. -/
theorem counted_run {calls : List Call}
    (h : (runCalls quote calls).run World.init = .ok ((), w)) : Counted w := by
  have hboth : w.Valid ∧ Tracks quote w ∧ Counted w := by
    refine run_induction (P := fun w => Tracks quote w ∧ Counted w)
      ⟨Tracks.init, Counted.init⟩ ?_ h
    rintro w₁ w₂ - ⟨ht, hc⟩ hch
    exact ⟨hch.tracks ht, hch.counted ht hc⟩
  exact hboth.2.2

end Pieces

end Redsuite
