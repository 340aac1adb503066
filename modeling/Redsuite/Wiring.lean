import Redsuite.Refinement

/-!
# Which channel wakes whom

A stopped operation waits on channels it does not own.
-/

namespace Redsuite

open List Option

/-! ## Dropped senders -/

/-- The sender of a watch was dropped. -/
def World.gone (w : World) (watch : WatchId) : Prop :=
  w.watches[watch]?.map Watch.sender = some false

theorem droppedWatches_cons (rule : Rule) (rest : List Rule) (watches : List Watch) :
    droppedWatches (rule :: rest) watches =
      droppedWatches rest (match rule.effect with
        | .stall resume => watches.modify resume Watch.dropSender
        | _ => watches) := rfl

theorem droppedWatches_length (rules : List Rule) (watches : List Watch) :
    (droppedWatches rules watches).length = watches.length := by
  induction rules generalizing watches with
  | nil => rfl
  | cons rule rest ih =>
    rw [droppedWatches_cons, ih]
    split
    · exact length_modify ..
    · rfl

open Classical in
/-- **The watches after rules are dropped**: those that one of them stalls on have lost their
sender. -/
theorem droppedWatches_getElem? (rules : List Rule) (watches : List Watch) (k : WatchId) :
    (droppedWatches rules watches)[k]? =
      if ∃ rule ∈ rules, rule.effect = .stall k then watches[k]?.map Watch.dropSender
      else watches[k]? := by
  induction rules generalizing watches with
  | nil => simp [droppedWatches]
  | cons rule rest ih =>
    rw [droppedWatches_cons, ih]
    cases he : rule.effect with
    | observe | reject msg => simp [he]
    | stall resume =>
      by_cases heq : resume = k
      · subst heq
        have htwice : Watch.dropSender ∘ Watch.dropSender = Watch.dropSender := rfl
        simp [he, htwice]
      · simp [he, heq, getElem?_modify_ne]

variable {k : WatchId} {scope : ScopeId}

theorem droppedWatches_version (rules : List Rule) (watches : List Watch) (k : WatchId) :
    (droppedWatches rules watches)[k]?.map Watch.version = watches[k]?.map Watch.version := by
  rw [droppedWatches_getElem?]
  split
  · rw [Option.map_map]
    rfl
  · rfl

theorem droppedWatches_ne {rules : List Rule} (h : ∀ rule ∈ rules, rule.effect ≠ .stall k)
    (watches : List Watch) : (droppedWatches rules watches)[k]? = watches[k]? := by
  rw [droppedWatches_getElem?, if_neg]
  rintro ⟨rule, hr, he⟩
  exact h rule hr he

theorem droppedWatches_gone {watches : List Watch} (h : watches[k]?.map Watch.sender = some false)
    (rules : List Rule) : (droppedWatches rules watches)[k]?.map Watch.sender = some false := by
  obtain ⟨c, hc, -⟩ := map_eq_some_iff.mp h
  rw [droppedWatches_getElem?]
  split
  · rw [hc]
    rfl
  · exact h

theorem droppedWatches_drops {rules : List Rule} {rule : Rule} (hr : rule ∈ rules)
    (he : rule.effect = .stall k) {watches : List Watch} (hk : k < watches.length) :
    (droppedWatches rules watches)[k]?.map Watch.sender = some false := by
  rw [droppedWatches_getElem?, if_pos ⟨rule, hr, he⟩, getElem?_eq_getElem hk]
  rfl

/-! ## The wiring -/

/-- How often a scope was restored. -/
def restores (scope : ScopeId) (history : List Event) : ℕ := history.count (.restored scope)

theorem restores_cons_ne {event : Event} (h : event ≠ .restored scope)
    (earlier : List Event) : restores scope (event :: earlier) = restores scope earlier :=
  count_cons_of_ne h

theorem restores_cons_self (scope : ScopeId) (earlier : List Event) :
    restores scope (.restored scope :: earlier) = restores scope earlier + 1 :=
  count_cons_self

/-- A held operation listens to the reset channel of its scope, from its time on, and to a decision
that was asked for. -/
def World.Hears (w : World) (decisions : ℕ) (earlier : List Event) : Event → Prop
  | .gated scope _ _ (.held decision receiver _) =>
    (∃ state, w.state? scope = some state ∧ receiver.watch = state.reset) ∧
      receiver.seen = restores scope earlier ∧ decision < decisions
  | _ => True

theorem World.Hears.mono {w : World} {event : Event} {m n : ℕ} {earlier : List Event} (hle : m ≤ n)
    (h : w.Hears m earlier event) : w.Hears n earlier event := by
  unfold Hears at h ⊢
  split at h
  · exact ⟨h.1, h.2.1, Nat.lt_of_lt_of_le h.2.2 hle⟩
  · trivial

/-- Every channel has one owner and tells its waiters the truth. -/
structure Wired (w : World) : Prop where
  /-- the channel of a stall rule exists, and its sender with the rule -/
  stall : ∀ scope rule resume, rule ∈ (ledger scope w.history).installed →
    rule.effect = .stall resume →
    resume < w.watches.length ∧ (rule ∈ (ledger scope w.history).rules ∨ w.gone resume)
  /-- it belongs to one rule -/
  unique : ∀ scope scope' rule rule' resume, rule ∈ (ledger scope w.history).installed →
    rule' ∈ (ledger scope' w.history).installed → rule.effect = .stall resume →
    rule'.effect = .stall resume → scope = scope' ∧ rule = rule'
  /-- the reset channel of a scope counts its restores -/
  reset : ∀ scope state, w.state? scope = some state →
    state.reset < w.watches.length ∧ w.version state.reset = restores scope w.history
  apart : ∀ scope scope' state rule, w.state? scope = some state →
    rule ∈ (ledger scope' w.history).installed → rule.effect ≠ .stall state.reset
  own : ∀ scope scope' state state', w.state? scope = some state →
    w.state? scope' = some state' → state.reset = state'.reset → scope = scope'
  unopened : ∀ scope, w.state? scope = none → restores scope w.history = 0
  held : ∀ later event earlier, w.history = later ++ event :: earlier →
    w.Hears w.decisions.length earlier event

namespace Wired

variable {w w' : World}

theorem init : Wired World.init := by
  constructor
  · intro scope rule resume hr
    cases hr
  · intro scope scope' rule rule' resume hr
    cases hr
  · intro scope state hs
    cases hs
  · intro scope scope' state rule hs
    cases hs
  · intro scope scope' state state' hs
    cases hs
  · intro scope _
    rfl
  · intro later event earlier heq
    cases later <;> cases heq

/-- Who a watch belongs to. -/
inductive Owner : Type where
  /-- the reset channel of a scope -/
  | scope (scope : ScopeId)
  /-- the channel of a stall rule -/
  | rule (scope : ScopeId) (rule : Rule)

/-- What a step has to show in which the next channel goes to at most this owner. -/
structure Kept (new : Option Owner) (w w' : World) : Prop where
  installed : ∀ scope rule, rule ∈ (ledger scope w'.history).installed →
    rule ∈ (ledger scope w.history).installed ∨ new = some (.rule scope rule)
  ruled : ∀ scope rule resume, new = some (.rule scope rule) → rule.effect = .stall resume →
    rule ∈ (ledger scope w'.history).rules ∧ resume = w.watches.length ∧
      w.watches.length < w'.watches.length
  rules : ∀ scope rule resume, rule ∈ (ledger scope w.history).rules →
    rule.effect = .stall resume → resume < w.watches.length →
    rule ∈ (ledger scope w'.history).rules ∨ w'.gone resume
  length : w.watches.length ≤ w'.watches.length
  gone : ∀ watch, w.gone watch → w'.gone watch
  state : ∀ scope, new ≠ some (.scope scope) →
    (w'.state? scope).map State.reset = (w.state? scope).map State.reset
  opened : ∀ scope, new = some (.scope scope) → w.state? scope = none ∧
    (w'.state? scope).map State.reset = some w.watches.length ∧
    w.watches.length < w'.watches.length ∧ w'.version w.watches.length = 0
  decisions : w.decisions.length ≤ w'.decisions.length

theorem Kept.origin {new : Option Owner} (hk : Kept new w w') {state' : State}
    (hs : w'.state? scope = some state') :
    (∃ state, w.state? scope = some state ∧ state'.reset = state.reset) ∨
      new = some (.scope scope) ∧ state'.reset = w.watches.length := by
  by_cases hnew : new = some (.scope scope)
  · obtain ⟨-, hmap, -⟩ := hk.opened scope hnew
    rw [hs] at hmap
    exact .inr ⟨hnew, some.inj hmap⟩
  · have hmap := hk.state scope hnew
    rw [hs] at hmap
    obtain ⟨state, ho, heq⟩ := map_eq_some_iff.mp hmap.symm
    exact .inl ⟨state, ho, heq.symm⟩

theorem kept (h : Wired w) {new : Option Owner} (hk : Kept new w w')
    (hv : ∀ scope state, w.state? scope = some state →
      w'.version state.reset = restores scope w'.history)
    (hu : ∀ scope, w.state? scope = none → restores scope w'.history = restores scope w.history)
    (hheld : ∀ later event earlier, w'.history = later ++ event :: earlier →
      w.Hears w'.decisions.length earlier event) : Wired w' := by
  -- the next channel belongs to nobody yet
  have hrule {scope rule} (hr : rule ∈ (ledger scope w.history).installed)
      (he : rule.effect = .stall w.watches.length) : False :=
    Nat.lt_irrefl _ (h.stall scope rule _ hr he).1
  have hsco {scope state} (hs : w.state? scope = some state)
      (heq : state.reset = w.watches.length) : False :=
    Nat.lt_irrefl _ (heq ▸ (h.reset scope state hs).1)
  constructor
  · intro scope rule resume hr he
    rcases hk.installed scope rule hr with hr | hnew
    · obtain ⟨hlt, hin | hgone⟩ := h.stall scope rule resume hr he
      · exact ⟨Nat.lt_of_lt_of_le hlt hk.length, hk.rules scope rule resume hin he hlt⟩
      · exact ⟨Nat.lt_of_lt_of_le hlt hk.length, .inr (hk.gone resume hgone)⟩
    · obtain ⟨hin, rfl, hlt⟩ := hk.ruled scope rule resume hnew he
      exact ⟨hlt, .inl hin⟩
  · intro scope scope' rule rule' resume hr hr' he he'
    rcases hk.installed scope rule hr with hr | hnew
    · rcases hk.installed scope' rule' hr' with hr' | hnew'
      · exact h.unique scope scope' rule rule' resume hr hr' he he'
      · obtain ⟨-, rfl, -⟩ := hk.ruled scope' rule' resume hnew' he'
        exact (hrule hr he).elim
    · obtain ⟨-, rfl, -⟩ := hk.ruled scope rule resume hnew he
      rcases hk.installed scope' rule' hr' with hr' | hnew'
      · exact (hrule hr' he').elim
      · cases hnew.symm.trans hnew'
        exact ⟨rfl, rfl⟩
  · intro scope state' hs
    rcases hk.origin hs with ⟨state, hs, heq⟩ | ⟨hnew, heq⟩
    · rw [heq]
      exact ⟨Nat.lt_of_lt_of_le (h.reset scope state hs).1 hk.length, hv scope state hs⟩
    · obtain ⟨hn, -, hlt, hzero⟩ := hk.opened scope hnew
      rw [heq, hzero, hu scope hn, h.unopened scope hn]
      exact ⟨hlt, rfl⟩
  · intro scope scope' state' rule hs hr he
    rcases hk.origin hs with ⟨state, hs, heq⟩ | ⟨hnew, heq⟩
    · rcases hk.installed scope' rule hr with hr | hnew
      · exact h.apart scope scope' state rule hs hr (heq ▸ he)
      · exact hsco hs (heq.symm.trans (hk.ruled scope' rule _ hnew he).2.1)
    · rcases hk.installed scope' rule hr with hr | hnew'
      · exact hrule hr (heq ▸ he)
      · cases hnew.symm.trans hnew'
  · intro scope scope' state₁ state₂ hs₁ hs₂ hrst
    rcases hk.origin hs₁ with ⟨state, hs, heq⟩ | ⟨hnew, heq⟩
    · rcases hk.origin hs₂ with ⟨state', hs', heq'⟩ | ⟨hnew, heq'⟩
      · rw [heq, heq'] at hrst
        exact h.own scope scope' state state' hs hs' hrst
      · exact (hsco hs (heq.symm.trans (hrst.trans heq'))).elim
    · rcases hk.origin hs₂ with ⟨state', hs', heq'⟩ | ⟨hnew', -⟩
      · exact (hsco hs' (heq'.symm.trans (hrst.symm.trans heq))).elim
      · cases hnew.symm.trans hnew'
        rfl
  · intro scope hs
    have hold : w.state? scope = none := by
      by_cases hnew : new = some (.scope scope)
      · exact (hk.opened scope hnew).1
      · have hmap := hk.state scope hnew
        rw [hs] at hmap
        exact map_eq_none_iff.mp hmap.symm
    rw [hu scope hold]
    exact h.unopened scope hold
  · intro later event earlier heq
    have hhears := hheld _ _ _ heq
    unfold World.Hears at hhears ⊢
    split at hhears
    · rename_i scope _ _ _ _ _
      obtain ⟨⟨state, hs, hw⟩, hrs⟩ := hhears
      refine ⟨?_, hrs⟩
      have hmap := hk.state scope fun hnew => by
        cases hs.symm.trans (hk.opened scope hnew).1
      rw [hs] at hmap
      obtain ⟨state', hs', heq'⟩ := map_eq_some_iff.mp hmap
      exact ⟨state', hs', hw.trans heq'.symm⟩
    · trivial

variable {scope : ScopeId} {s s' : State} {watches : List Watch}

theorem state_reset (hs : w.state? scope = some s)
    (hsc : w'.scopes = (w.setState scope s').scopes) (hrst : s'.reset = s.reset)
    (other : ScopeId) : (w'.state? other).map State.reset = (w.state? other).map State.reset := by
  have hst : w'.state? other = (w.setState scope s').state? other := by
    rw [World.state?, hsc]
    rfl
  rw [hst]
  by_cases ho : other = scope
  · subst ho
    rw [World.state?_setState_self (by rw [hs]; rfl), hs]
    exact congrArg some hrst
  · rw [World.state?_setState_ne ho]

theorem quiet (h : Wired w) (new : Option Owner) (hk : Kept new w w')
    (hh : w'.history = w.history)
    (hver : ∀ watch < w.watches.length, w'.version watch = w.version watch) : Wired w' := by
  refine h.kept hk ?_ (fun scope _ => by rw [hh]) ?_
  · intro scope s hst
    rw [hver _ (h.reset scope s hst).1, hh]
    exact (h.reset scope s hst).2
  · intro later event earlier heq
    exact (h.held later event earlier (hh ▸ heq)).mono hk.decisions

theorem frame (h : Wired w) (hh : w'.history = w.history) (hw : w'.watches = w.watches)
    (hs : ∀ scope, (w'.state? scope).map State.reset = (w.state? scope).map State.reset)
    (hd : w.decisions.length ≤ w'.decisions.length) : Wired w' := by
  refine h.quiet none ⟨?_, nofun, ?_, Nat.le_of_eq (congrArg List.length hw).symm, ?_,
    fun scope _ => hs scope, nofun, hd⟩ hh fun watch _ => by rw [World.version, hw]; rfl
  · exact fun scope rule hr => .inl (hh ▸ hr)
  · exact fun scope rule resume hr _ _ => .inl (hh.symm ▸ hr)
  · exact fun watch hg => by rwa [World.gone, hw]

theorem event (h : Wired w) (new : Option Owner) (hk : Kept new w w') (event : Event)
    (hh : w'.history = event :: w.history) (hne : ∀ scope, event ≠ .restored scope)
    (hver : ∀ watch < w.watches.length, w'.version watch = w.version watch)
    (hheld : w.Hears w'.decisions.length w.history event) : Wired w' := by
  have hres : ∀ scope, restores scope w'.history = restores scope w.history := by
    intro scope
    rw [hh, restores_cons_ne (hne scope)]
  refine h.kept hk ?_ (fun scope _ => hres scope) ?_
  · intro scope s hst
    rw [hver _ (h.reset scope s hst).1, hres]
    exact (h.reset scope s hst).2
  · intro later event earlier heq
    rw [hh] at heq
    cases later with
    | nil =>
      obtain ⟨rfl, rfl⟩ := List.cons.inj heq
      exact hheld
    | cons e rest => exact (h.held _ _ _ (List.cons.inj heq).2).mono hk.decisions

theorem Kept.ofEvent (event : Event) {new : Option Owner}
    (hs : w.state? event.scope = some s)
    (hsc : w'.scopes = (w.setState event.scope s').scopes)
    (hrst : s'.reset = s.reset) (hh : w'.history = event :: w.history)
    (hi : ∀ rule ∈ ((ledger event.scope w.history).after event).installed,
      rule ∈ (ledger event.scope w.history).installed ∨ new = some (.rule event.scope rule))
    (hnew : ∀ scope rule resume, new = some (.rule scope rule) → rule.effect = .stall resume →
      rule ∈ (ledger scope w'.history).rules ∧ resume = w.watches.length ∧
        w.watches.length < w'.watches.length)
    (hr : ∀ rule resume, rule ∈ (ledger event.scope w.history).rules →
      rule.effect = .stall resume → resume < w.watches.length →
      rule ∈ ((ledger event.scope w.history).after event).rules ∨ w'.gone resume)
    (hlen : w.watches.length ≤ w'.watches.length) (hgone : ∀ watch, w.gone watch → w'.gone watch)
    (hopen : ∀ scope, new ≠ some (.scope scope))
    (hd : w.decisions.length ≤ w'.decisions.length) : Kept new w w' := by
  refine ⟨?_, hnew, ?_, hlen, hgone, fun scope _ => state_reset hs hsc hrst scope,
    fun scope h => absurd h (hopen scope), hd⟩
  · rw [hh]
    exact forall_ledger_cons (P := fun scope l => ∀ rule, rule ∈ l.installed →
      rule ∈ (ledger scope w.history).installed ∨ new = some (.rule scope rule)) event _ hi
      fun _ _ _ => .inl
  · rw [hh]
    exact forall_ledger_cons (P := fun scope l => ∀ rule resume,
      rule ∈ (ledger scope w.history).rules → rule.effect = .stall resume →
      resume < w.watches.length → rule ∈ l.rules ∨ w'.gone resume) event _ hr
      fun _ _ _ _ hrule _ _ => .inl hrule

theorem noted (h : Wired w) (event : Event) (hs : w.state? event.scope = some s)
    (hsc : w'.scopes = (w.setState event.scope s').scopes)
    (hrst : s'.reset = s.reset) (hh : w'.history = event :: w.history)
    (hrls : ((ledger event.scope w.history).after event).installed =
        (ledger event.scope w.history).installed ∧
      ((ledger event.scope w.history).after event).rules = (ledger event.scope w.history).rules)
    (hw : w'.watches = w.watches) (hd : w.decisions.length ≤ w'.decisions.length)
    (hne : ∀ scope, event ≠ .restored scope)
    (hheld : w.Hears w'.decisions.length w.history event) : Wired w' := by
  refine h.event none (.ofEvent event hs hsc hrst hh ?_ nofun ?_ ?_ ?_ nofun hd) event hh
    hne ?_ hheld
  · exact fun rule hr => .inl (hrls.1 ▸ hr)
  · exact fun rule resume hr _ _ => .inl (hrls.2 ▸ hr)
  · exact Nat.le_of_eq (congrArg List.length hw).symm
  · exact fun watch hg => by rwa [World.gone, hw]
  · exact fun watch _ => by rw [World.version, hw]; rfl

theorem gone_modify {reset : WatchId} (h : watches[k]?.map Watch.sender = some false) :
    (watches.modify reset Watch.sendReplace)[k]?.map Watch.sender = some false :=
  map_getElem?_modify h fun _ => id

theorem restored {quote : String → String} (ht : Tracks quote w) (h : Wired w)
    (hs : w.state? scope = some s) : Wired (w.restored quote scope s) := by
  have hrls := (ht.represents hs).rules
  have hk : Kept none w (w.restored quote scope s) := by
    refine Kept.ofEvent (.restored scope) hs rfl rfl rfl (fun _ => .inl) nofun ?_ ?_ ?_ nofun
      (Nat.le_refl _)
    · intro rule resume hr he hlt
      rw [Event.scope, ← hrls] at hr
      exact .inr (gone_modify (droppedWatches_drops hr he hlt))
    · simp [World.restored, droppedWatches_length]
    · intro watch hg
      exact gone_modify (droppedWatches_gone hg _)
  -- the reset channel of the scope moves on by one, those of the others stay
  have hver : ∀ other other', w.state? other = some other' →
      (w.restored quote scope s).version other'.reset =
        w.version other'.reset + if other = scope then 1 else 0 := by
    intro other other' ho
    obtain ⟨hlt, -⟩ := h.reset other other' ho
    have hold := droppedWatches_version s.rules w.watches other'.reset
    rw [getElem?_eq_getElem hlt] at hold
    obtain ⟨c, hc, hcv⟩ := map_eq_some_iff.mp hold
    have hw : w.version other'.reset = c.version := by
      rw [World.version, getElem?_eq_getElem hlt, hcv]
      rfl
    rw [hw]
    simp only [World.restored, World.version, getElem?_modify, hc]
    by_cases hos : other = scope
    · subst hos
      cases hs.symm.trans ho
      simp [Watch.sendReplace]
    · have hne : s.reset ≠ other'.reset := fun heq => hos (h.own _ _ _ _ hs ho heq).symm
      simp [hos, hne]
  have hrestores : ∀ other, restores other (w.restored quote scope s).history =
      restores other w.history + if other = scope then 1 else 0 := by
    intro other
    by_cases hos : other = scope
    · subst hos
      rw [if_pos rfl]
      exact restores_cons_self other w.history
    · rw [if_neg hos]
      refine restores_cons_ne ?_ w.history
      rintro ⟨⟩
      exact hos rfl
  refine h.kept hk ?_ ?_ ?_
  · intro other other' ho
    rw [hver other other' ho, hrestores, (h.reset other other' ho).2]
  · intro other ho
    have hne : other ≠ scope := by
      rintro rfl
      rw [hs] at ho
      cases ho
    rw [hrestores, if_neg hne]
    rfl
  · intro later event earlier heq
    cases later with
    | nil =>
      cases heq
      trivial
    | cons e rest => exact h.held _ _ _ (List.cons.inj heq).2

theorem gone_append (h : watches[k]?.map Watch.sender = some false) (c : Watch) :
    (watches ++ [c])[k]?.map Watch.sender = some false := by
  rcases hk : watches[k]? with _ | d
  · rw [hk] at h
    cases h
  · rwa [getElem?_append_of hk, ← hk]

theorem version_append (h : k < watches.length) (hw : w.watches = watches)
    (hw' : w'.watches = watches ++ [Watch.new]) : w'.version k = w.version k := by
  rw [World.version, World.version, hw, hw', List.getElem?_append_left h]

theorem opened (h : Wired w) (hrst : s.reset = w.watches.length)
    (hsc : w'.scopes = w.scopes ++ [⟨false, s⟩]) (hw : w'.watches = w.watches ++ [Watch.new])
    (hh : w'.history = w.history) (hd : w'.decisions = w.decisions) : Wired w' := by
  have hlen : w.watches.length < w'.watches.length := by simp [hw]
  refine h.quiet (some (.scope w.scopes.length)) ⟨?_, nofun, ?_, Nat.le_of_lt hlen, ?_, ?_,
    ?_, Nat.le_of_eq (congrArg List.length hd).symm⟩ hh fun watch hlt => version_append hlt rfl hw
  · exact fun scope rule hr => .inl (hh ▸ hr)
  · exact fun scope rule resume hr _ _ => .inl (hh.symm ▸ hr)
  · intro watch hg
    rw [World.gone, hw]
    exact gone_append hg _
  · intro scope hne
    have hne : scope ≠ w.scopes.length := fun heq => hne (heq ▸ rfl)
    rw [World.state?, World.state?, hsc, getElem?_concat_ne _ hne]
  · rintro scope ⟨⟩
    refine ⟨by simp [World.state?], ?_, hlen, by simp [World.version, hw, Watch.new]⟩
    simp [World.state?, hsc, hrst]

theorem ruled (h : Wired w) {rule : Rule} (hs : w.state? scope = some s)
    (hsc : w'.scopes = (w.setState scope s').scopes) (hrst : s'.reset = s.reset)
    (hh : w'.history = .installed scope rule :: w.history)
    (hw : (∀ resume, rule.effect ≠ .stall resume) ∧ w'.watches = w.watches ∨
      rule.effect = .stall w.watches.length ∧ w'.watches = w.watches ++ [Watch.new])
    (hd : w'.decisions = w.decisions) : Wired w' := by
  have hwatches : w'.watches = w.watches ∨ w'.watches = w.watches ++ [Watch.new] :=
    hw.imp And.right And.right
  have hver : ∀ k < w.watches.length, w'.version k = w.version k := by
    intro k hk
    rcases hwatches with hw | hw
    · rw [World.version, hw]
      rfl
    · exact version_append hk rfl hw
  refine h.event (some (.rule scope rule)) (.ofEvent (.installed scope rule) hs hsc hrst hh
    ?_ ?_ (fun r _ hr _ _ => .inl (mem_append_left _ hr)) ?_ ?_ (by rintro _ ⟨⟩)
    (Nat.le_of_eq (congrArg List.length hd).symm)) _ hh (by rintro _ ⟨⟩) hver trivial
  · intro r hr
    rcases mem_concat.mp hr with hr | rfl
    · exact .inl hr
    · exact .inr rfl
  · rintro _ _ resume ⟨⟩ he
    rcases hw with ⟨hno, -⟩ | ⟨heff, hw⟩
    · exact absurd he (hno resume)
    · rw [heff] at he
      cases he
      rw [hh, ledger_cons_self (by exact rfl), hw, length_append]
      exact ⟨mem_concat_self, rfl, Nat.lt_succ_self _⟩
  · rcases hwatches with hw | hw <;> simp [hw]
  · intro k hg
    rcases hwatches with hw | hw
    · rwa [World.gone, hw]
    · rw [World.gone, hw]
      exact gone_append hg _

end Wired

section Pieces

variable {quote : String → String} {w w' : World}

theorem Gated.wired {op : Operation} {g : Gate} (h : Wired w)
    (hg : Gated w op g w') : Wired w' := by
  cases hg with
  | inactive => exact h
  | rejected ha hl hs hr he | stalled ha hl hs hr he | released ha hl hs hr htr =>
    exact h.noted (.gated _ op _ _) hs rfl rfl rfl ⟨rfl, rfl⟩ rfl (Nat.le_refl _)
      (by rintro _ ⟨⟩) trivial
  | @held scope s i trap ha hl hs hr htr hd =>
    have hlen : w.decisions.length < ((w.decisions ++ [Oneshot.new]).modify w.decisions.length
        fun c => if w.delivered trap then c else c.dropSender).length := by
      rw [length_modify, length_append]
      exact Nat.lt_succ_self _
    exact h.noted (.gated scope op (.held _ _ _) _) hs rfl rfl rfl ⟨rfl, rfl⟩ rfl
      (Nat.le_of_lt hlen) (by rintro _ ⟨⟩)
      ⟨⟨s, hs, rfl⟩, (h.reset scope s hs).2, hlen⟩

theorem Change.wired (ht : Tracks quote w) (h : Wired w) (hc : Change quote w w') : Wired w' := by
  cases hc with
  | gated hg => exact hg.wired h
  | holdingDropped hs hpos => exact h.frame rfl rfl (Wired.state_reset hs rfl rfl) (Nat.le_refl _)
  | opened ha => exact h.opened rfl rfl rfl rfl rfl
  | @intercepted scope s hs sel =>
    exact h.noted (.requested scope _ _) hs rfl rfl rfl ⟨rfl, rfl⟩ rfl (Nat.le_refl _)
      (by rintro _ ⟨⟩) trivial
  | ruled hs sel hw => exact h.ruled hs rfl rfl rfl hw rfl
  | @removed handle s hs =>
    have hrls := (ht.represents hs).rules
    refine h.event none ?_ _ rfl (by rintro _ ⟨⟩) ?_ trivial
    · refine .ofEvent (.removed handle.state handle.hits) hs rfl rfl rfl (fun _ => .inl) nofun ?_ ?_
        ?_ nofun (Nat.le_refl _)
      · intro rule resume hr he hlt
        rw [Event.scope, ← hrls] at hr
        by_cases hh : rule.hits = handle.hits
        · refine .inr (droppedWatches_drops (mem_filter.mpr ⟨hr, ?_⟩) he hlt)
          exact decide_eq_true hh
        · refine .inl (mem_filter.mpr ⟨hrls ▸ hr, ?_⟩)
          simpa using hh
      · exact Nat.le_of_eq (droppedWatches_length ..).symm
      · exact fun watch hg => droppedWatches_gone hg _
    · intro watch _
      rw [World.version, World.version, droppedWatches_version]
  | decisionSent ch d | senderDropped ch =>
    exact h.frame rfl rfl (fun _ => rfl) (Nat.le_of_eq (length_modify ..).symm)
  | restored hs => exact h.restored ht hs
  | @resetStarted scope s hs =>
    have hres := h.restored ht hs
    have hst : (w.restored quote scope s).state? scope = some _ :=
      World.state?_setState_self (by rw [hs]; rfl) _
    exact hres.noted (.resetStarted _ scope) hst (set_set ..).symm rfl rfl ⟨rfl, rfl⟩ rfl
      (Nat.le_refl _) (by rintro _ ⟨⟩) trivial
  | @resetOk reset scope s hr hs hh hu =>
    exact h.noted (.resetOk reset scope) hs rfl rfl rfl ⟨rfl, rfl⟩ rfl (Nat.le_refl _)
      (by rintro _ ⟨⟩) trivial
  | @resetErr reset scope s hr hs hh hu =>
    exact h.noted (.resetErr reset scope _) hs rfl rfl rfl ⟨rfl, rfl⟩ rfl (Nat.le_refl _)
      (by rintro _ ⟨⟩) trivial
  | _ => exact h.frame rfl rfl (fun _ => rfl) (Nat.le_refl _)

theorem Change.history (hc : Change quote w w') : ∃ later, w'.history = later ++ w.history := by
  cases hc with
  | gated hg => cases hg with
    | inactive => exact ⟨[], rfl⟩
    | _ => exact ⟨[_], rfl⟩
  | intercepted | ruled | removed | restored | resetOk | resetErr => exact ⟨[_], rfl⟩
  | resetStarted => exact ⟨[_, _], rfl⟩
  | _ => exact ⟨[], rfl⟩

theorem Change.gone (hc : Change quote w w') {watch : WatchId} (h : w.gone watch) :
    w'.gone watch := by
  cases hc with
  | gated hg => cases hg <;> exact h
  | opened ha => exact Wired.gone_append h _
  | ruled hs sel hw =>
    rcases hw with ⟨-, rfl⟩ | ⟨-, rfl⟩
    · exact h
    · exact Wired.gone_append h _
  | removed hs => exact droppedWatches_gone h _
  | restored hs | resetStarted hs => exact Wired.gone_modify (droppedWatches_gone h _)
  | _ => exact h

/-! ## Decisions -/

/-- The decision sent about a held operation. -/
def World.decision (w : World) (channel : DecisionId) : Option Decision :=
  w.decisions[channel]?.bind Oneshot.value

/-- Every decision channel is settled. -/
def World.Settled (w : World) : Prop := ∀ c ∈ w.decisions, c.Settled

theorem decision_modify {decisions : List (Oneshot Decision)} {ch : DecisionId}
    {f : Oneshot Decision → Oneshot Decision} (hset : ∀ c ∈ decisions, c.Settled)
    (hf : ∀ c decision, c.Settled → c.value = some decision → (f c).value = some decision)
    {d : DecisionId} {decision : Decision} (h : decisions[d]?.bind Oneshot.value = some decision) :
    (decisions.modify ch f)[d]?.bind Oneshot.value = some decision := by
  rw [getElem?_modify]
  rcases hd : decisions[d]? with _ | c
  · rw [hd] at h
    cases h
  · rw [hd] at h
    split
    · exact hf c decision (hset c (mem_of_getElem? hd)) h
    · exact h

theorem settled_modify {decisions : List (Oneshot Decision)} {ch : DecisionId}
    {f : Oneshot Decision → Oneshot Decision} (hset : ∀ c ∈ decisions, c.Settled)
    (hf : ∀ c : Oneshot Decision, c.Settled → (f c).Settled) :
    ∀ c ∈ decisions.modify ch f, c.Settled := by
  intro c hc
  obtain ⟨i, hi⟩ := mem_iff_getElem?.mp hc
  rw [getElem?_modify] at hi
  obtain ⟨b, hb, rfl⟩ := map_eq_some_iff.mp hi
  have hbs := hset b (mem_of_getElem? hb)
  split
  · exact hf b hbs
  · exact hbs

/-- **A decision that was sent is never taken back.** -/
theorem Change.settled (hset : w.Settled) (hc : Change quote w w') :
    w'.Settled ∧ ∀ d decision, w.decision d = some decision → w'.decision d = some decision := by
  cases hc with
  | gated hg =>
    cases hg with
    | @held scope s i trap =>
      have hset₁ : ∀ c ∈ w.decisions ++ [Oneshot.new], c.Settled := by
        intro c hc
        rcases mem_concat.mp hc with hc | rfl
        · exact hset c hc
        · exact Oneshot.settled_new
      refine ⟨settled_modify hset₁ ?_, ?_⟩
      · intro c hcs
        split
        · exact hcs
        · exact hcs.dropSender
      · intro d decision hd
        refine decision_modify hset₁ ?_ ?_
        · intro c _ _ hv
          split
          · exact hv
          · exact hv
        · rcases hd' : w.decisions[d]? with _ | c
          · rw [World.decision, hd'] at hd
            cases hd
          · obtain ⟨hlt, -⟩ := List.getElem?_eq_some_iff.mp hd'
            rw [List.getElem?_append_left hlt]
            exact hd
    | _ => exact ⟨hset, fun _ _ => id⟩
  | decisionSent ch decision =>
    refine ⟨settled_modify hset fun c hcs => hcs.send decision, ?_⟩
    intro d sent hd
    exact decision_modify hset (fun c _ hcs hv => hcs.send_value hv) hd
  | senderDropped ch =>
    refine ⟨settled_modify hset fun c hcs => hcs.dropSender, ?_⟩
    intro d sent hd
    exact decision_modify (f := Oneshot.dropSender) hset (fun c _ _ hv => hv) hd
  | _ => exact ⟨hset, fun _ _ => id⟩

end Pieces

/-! ## Reading `resolve` off the history -/

theorem World.version_eq (w : World) (watch : WatchId) :
    (w.watches[watch]?.getD Watch.new).version = w.version watch := by
  rw [World.version]
  rcases w.watches[watch]? with _ | c <;> rfl

/-- A held operation whose scope was restored resolves to its decision if one was sent, to a release
otherwise. -/
theorem Wired.resolve_held {w : World} (h : Wired w) {later earlier : List Event} {op : Operation}
    {verdict : Verdict} {d : DecisionId} {rx : Receiver} {holding : Holding}
    (heq : w.history = later ++ .gated scope op verdict (.held d rx holding) :: earlier)
    (hr : .restored scope ∈ later) :
    w.resolve (.held d rx holding) = .ready ((w.decision d).getD .release) := by
  obtain ⟨⟨s, hs, hwatch⟩, hseen, hd⟩ := h.held _ _ _ heq
  obtain ⟨-, hver⟩ := h.reset scope s hs
  -- the restore moved the reset channel past what the operation has seen
  have hlt : rx.seen < w.version rx.watch := by
    have hpos : 0 < restores scope later := count_pos_iff.mpr hr
    have hge : restores scope earlier ≤ restores scope
        (.gated scope op verdict (.held d rx holding) :: earlier) :=
      count_le_count_cons
    rw [hwatch, hver, heq, restores, count_append, hseen]
    change restores scope earlier < restores scope later + restores scope (_ :: earlier)
    omega
  have hchd : (w.watches[rx.watch]?.getD Watch.new).changed rx.seen =
      .ready () := by
    refine Watch.changed_of_lt ?_
    rwa [World.version_eq]
  have hchan : w.decisions[d]? = some w.decisions[d] :=
    getElem?_eq_getElem hd
  simp only [World.resolve, World.decision, hchan, getD_some, Option.bind_some,
    Oneshot.poll, hchd]
  rcases hv : w.decisions[d].value with _ | sent
  · rcases hsdr : w.decisions[d].sender with _ | _ <;> simp
  · rfl

theorem resolve_stalled {w : World} {rx : Receiver} (holding : Holding)
    (h : w.gone rx.watch) : w.resolve (.stalled rx holding) = .ready .release := by
  obtain ⟨c, hc, hsdr⟩ := map_eq_some_iff.mp h
  simp [World.resolve, hc, Watch.changed_of_dropped _ hsdr]

end Redsuite
