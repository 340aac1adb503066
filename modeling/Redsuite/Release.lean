import Redsuite.Custody
import Redsuite.Machine

/-!
# Restoring traffic

What `restore`, `reset`, the drop of a `Faults` and `RuleHandle::remove` do to operations
that are stopped, and to those that come later.
-/

namespace Redsuite

open List Option

/-! ## Runs -/

namespace Custody

/-- Any number of legal actions. -/
inductive Run (quote : String → String) (c : Custody) : Custody → Prop where
  | refl : Run quote c c
  | step {c₁ c₂ : Custody} {a : Action} (h : Run quote c c₁) (hl : a.Legal c₁)
      (ha : act quote c₁ a = .ok c₂) : Run quote c c₂

def runActions (quote : String → String) (c : Custody) : List Action → Option Custody
  | [] => some c
  | a :: rest =>
    if a.Legal c then
      match act quote c a with
      | .ok c' => runActions quote c' rest
      | .error _ => none
    else none

variable {quote : String → String} {c c' : Custody}

theorem Run.trans {c₁ c₂ c₃ : Custody} (h₁ : Run quote c₁ c₂) (h₂ : Run quote c₂ c₃) :
    Run quote c₁ c₃ := by
  induction h₂ with
  | refl => exact h₁
  | step _ hl ha ih => exact ih.step hl ha

theorem runActions_run {actions : List Action} (h : runActions quote c actions = some c') :
    Run quote c c' := by
  induction actions generalizing c with
  | nil =>
    cases h
    exact .refl
  | cons a rest ih =>
    rw [runActions] at h
    split at h
    · rename_i hl
      rcases ha : act quote c a with e | c₁
      · rw [ha] at h
        cases h
      · rw [ha] at h
        exact (Run.refl.step hl ha).trans (ih h)
    · cases h

/-- Where a list of actions leads from the start. Only the kernel should compute it. -/
@[irreducible] def reach (quote : String → String) (actions : List Action) : Custody :=
  (runActions quote init actions).getD init

theorem reach_run {actions : List Action} (h : (runActions quote init actions).isSome = true) :
    Run quote init (reach quote actions) := by
  obtain ⟨c₁, hc₁⟩ := isSome_iff_exists.mp h
  have hreach : reach quote actions = c₁ := by
    rw [reach, hc₁]
    rfl
  rw [hreach]
  exact runActions_run hc₁

theorem act_wf (h : c.Wf) {a : Action} (hl : a.Legal c) (ha : act quote c a = .ok c') : Wf c' := by
  obtain ⟨c₁, hok, hwf⟩ := act_ok h hl
  rw [hok] at ha
  cases ha
  exact hwf

theorem Run.wf (h : c.Wf) (hr : Run quote c c') : Wf c' := by
  induction hr with
  | refl => exact h
  | step _ hl ha ih => exact act_wf ih hl ha

theorem act_exec {call : Call} (ha : act quote c (.call call) = .ok c') :
    (exec quote call).run c.world = .ok ((), c'.world) := by
  cases call with
  | waitTrap trap =>
    obtain ⟨⟨r, w⟩, hrun, hret⟩ := except_bind_ok ha
    have hw : c'.world = w := by
      rcases r with held | _
      · cases hret
        rfl
      · cases hret
        rfl
    simp [exec, forget, hrun, hw]
  | openScope | intercept scope sel | gate operation =>
    obtain ⟨⟨r, w⟩, hrun, hret⟩ := except_bind_ok ha
    cases hret
    simp [exec, forget, hrun]
  | _ =>
    obtain ⟨⟨r, w⟩, hrun, hret⟩ := except_bind_ok ha
    cases hret
    exact hrun

theorem act_changes (h : c.Wf) {a : Action} (ha : act quote c a = .ok c') :
    Changes quote c.world c'.world := by
  cases a with
  | resolve g =>
    cases ha
    exact .refl
  | cancel g =>
    simp only [act] at ha
    split at ha
    · cases ha
      exact .refl
    · obtain ⟨⟨⟨⟩, w⟩, hrun, hret⟩ := except_bind_ok ha
      cases hret
      exact Holding.drop_changes h.valid hrun
  | call call => exact exec_changes h.valid (act_exec ha)

theorem Run.changes (h : c.Wf) (hr : Run quote c c') : Changes quote c.world c'.world := by
  induction hr with
  | refl => exact .refl
  | step hr _ ha ih => exact ih.trans (act_changes (hr.wf h) ha)

end Custody

/-! ## What every run keeps -/

/-- What holds of the heap at every await. -/
structure World.Good (quote : String → String) (w : World) : Prop where
  valid : w.Valid
  tracks : Tracks quote w
  wired : Wired w
  settled : w.Settled

theorem World.good_init (quote : String → String) : World.init.Good quote :=
  ⟨valid_init, Tracks.init, Wired.init, fun _ hc => absurd hc not_mem_nil⟩
variable {later : List Event} {d : DecisionId}


section Changes

variable {quote : String → String} {w w' : World}

theorem Change.good (h : w.Good quote) (hc : Change quote w w') : w'.Good quote :=
  ⟨hc.valid h.valid, hc.tracks h.tracks, hc.wired h.tracks h.wired, (hc.settled h.settled).1⟩

theorem Changes.good (h : w.Good quote) (hc : Changes quote w w') : w'.Good quote := by
  induction hc with
  | refl => exact h
  | tail _ hc ih => exact hc.good ih

theorem Changes.history (hc : Changes quote w w') : ∃ later, w'.history = later ++ w.history := by
  induction hc with
  | refl => exact ⟨[], rfl⟩
  | tail _ hc ih =>
    obtain ⟨later, hlat⟩ := ih
    obtain ⟨more, hmore⟩ := hc.history
    exact ⟨more ++ later, by rw [hmore, hlat, append_assoc]⟩

theorem Changes.gone (hc : Changes quote w w') {watch : WatchId} (h : w.gone watch) :
    w'.gone watch := by
  induction hc with
  | refl => exact h
  | tail _ hc ih => exact hc.gone ih

theorem Changes.decision (h : w.Good quote) (hc : Changes quote w w')
    {decision : Decision} (hd : w.decision d = some decision) : w'.decision d = some decision := by
  induction hc with
  | refl => exact hd
  | tail hr hc ih => exact (hc.settled (Changes.good h hr).settled).2 d decision ih

/-! ## A scope at rest -/

def Event.installs : Event → Bool
  | .requested _ _ _ => true
  | .installed _ _ => true
  | _ => false

/-- Neither rules nor armed traps. -/
def Ledger.Idle (l : Ledger) : Prop := l.rules = [] ∧ l.armed = []

theorem after_idle {l : Ledger} (h : l.Idle) {ev : Event} (he : ev.installs = false) :
    (l.after ev).Idle := by
  obtain ⟨hr, ha⟩ := h
  cases ev with
  | requested => cases he
  | installed => cases he
  | removed scope hits => exact ⟨by simp [Ledger.after, hr], ha⟩
  | gated scope operation verdict ans =>
    cases verdict with
    | held trap sequence delivered => exact ⟨hr, by simp [Ledger.after, ha]⟩
    | _ => exact ⟨hr, ha⟩
  | restored scope => exact ⟨rfl, rfl⟩
  | _ => exact ⟨hr, ha⟩

variable {scope : ScopeId}

theorem ledger_idle {earlier : List Event} (h : (ledger scope earlier).Idle)
    (hl : ∀ ev ∈ later, ev.installs = false) : (ledger scope (later ++ earlier)).Idle := by
  induction later with
  | nil => exact h
  | cons ev rest ih =>
    have ih := ih fun e he => hl e (mem_cons_of_mem _ he)
    by_cases hs : ev.scope = scope
    · rw [cons_append, ledger_cons_self hs]
      exact after_idle ih (hl ev mem_cons_self)
    · rw [cons_append, ledger_cons_ne hs]
      exact ih

/-- The proxy stops nothing: the active scope is idle, and so is any scope still to come. -/
def World.Open (w : World) : Prop :=
  ∀ scope, w.active = some scope ∨ w.state? scope = none → (ledger scope w.history).Idle

theorem Change.active (hc : Change quote w w')
    (h : w'.active = some scope ∨ w'.state? scope = none) :
    w.active = some scope ∨ w.state? scope = none := by
  have hset : ∀ {other : ScopeId} {s s' : State}, w.state? other = some s →
      ((w.setState other s').state? scope = none → w.state? scope = none) := by
    intro other s s' hs hn
    by_cases ho : scope = other
    · subst ho
      rw [World.state?_setState_self (by rw [hs]; rfl)] at hn
      cases hn
    · rwa [World.state?_setState_ne ho] at hn
  cases hc with
  | gated hg =>
    cases hg with
    | inactive => exact h
    | rejected ha hl hs | stalled ha hl hs | released ha hl hs
    | held ha hl hs => exact h.imp id (hset hs)
  | holdingDropped hs | intercepted hs | ruled hs | removed hs | restored hs | resetStarted hs
  | resetOk hr hs | resetErr hr hs => exact h.imp id (hset hs)
  | opened ha =>
    right
    rcases h with h | h
    · cases h
      rw [World.state?, getElem?_eq_none (Nat.le_refl _)]
      rfl
    · rw [World.state?, map_eq_none_iff, getElem?_eq_none_iff] at h ⊢
      rw [length_append] at h
      exact Nat.le_trans (Nat.le_add_right _ _) h
  | deactivated =>
    rcases h with h | h
    · cases h
    · exact .inr h
  | _ => exact h

theorem Changes.active (hc : Changes quote w w')
    (h : w'.active = some scope ∨ w'.state? scope = none) :
    w.active = some scope ∨ w.state? scope = none := by
  induction hc with
  | refl => exact h
  | tail _ hc ih => exact ih (hc.active h)

theorem Changes.open (hc : Changes quote w w') (h : w.Open) (hl : w'.history = later ++ w.history)
    (hno : ∀ ev ∈ later, ev.installs = false) : w'.Open := by
  intro scope hs
  rw [hl]
  exact ledger_idle (h scope (hc.active hs)) hno

theorem World.Good.idle_of_none (h : w.Good quote) (hs : w.state? scope = none) :
    (ledger scope w.history).Idle := by
  have hrep := h.tracks.state scope
  rw [World.stateD, hs] at hrep
  exact ⟨hrep.rules.symm, hrep.armed.symm⟩

theorem World.Good.gate_open (h : w.Good quote) (ho : w.Open) (operation : Operation) :
    ∃ w', (gate operation).run w = .ok (.decided .release, w') := by
  obtain ⟨g, w', hrun, hg⟩ := gate_run h.valid.quiet (fun _ => h.valid.state_isSome) operation
  cases hg with
  | inactive hdead | released => exact ⟨_, hrun⟩
  | rejected ha hl hs hr he | stalled ha hl hs hr he =>
    rw [(h.tracks.represents hs).rules, (ho _ (.inl ha)).1] at hr
    cases hr
  | held ha hl hs hr ht hd =>
    obtain ⟨sel, hfind⟩ := armedTrap_some ht hd
    rw [(h.tracks.represents hs).armed, (ho _ (.inl ha)).2] at hfind
    cases hfind

end Changes

/-! ## Restoring -/

/-- The calls that take all rules and traps of a scope away. -/
def Call.Restores (scope : ScopeId) : Call → Prop
  | .restore scope' => scope' = scope
  | .startReset scope' => scope' = scope
  | .dropFaults scope' => scope' = scope
  | _ => False

namespace Custody

variable {quote : String → String} {c c' : Custody}

theorem Wf.active_of_mem (h : c.Wf) {scope : ScopeId} (hf : scope ∈ c.faults) :
    c.world.active = some scope := by
  rw [h.active] at hf
  rcases ha : c.world.active with _ | other
  · rw [ha] at hf
    exact absurd hf (Multiset.notMem_zero scope)
  · rw [ha] at hf
    rw [Multiset.mem_singleton.mp hf]

theorem restoring (h : c.Wf) {scope : ScopeId} {call : Call} (hc : call.Restores scope)
    (hl : (Action.call call).Legal c) (ha : act quote c (.call call) = .ok c') :
    (∃ later, c'.world.history = later ++ c.world.history ∧ .restored scope ∈ later) ∧
      (ledger scope c'.world.history).Idle ∧
      ∀ other, c'.world.active = some other → other = scope := by
  have hidle : (ledger scope (.restored scope :: c.world.history)).Idle := by
    rw [ledger_cons_self (by exact rfl)]
    exact ⟨rfl, rfl⟩
  cases call with
  | restore scope' =>
    obtain rfl : scope' = scope := hc
    obtain ⟨s, hs⟩ := h.state (.inl hl)
    simp only [act, exec, restore_run h.valid.quiet hs, except_pure] at ha
    cases ha
    refine ⟨⟨[.restored scope'], rfl, mem_singleton.mpr rfl⟩, hidle, ?_⟩
    intro other ho
    exact (some.inj (ho.symm.trans (h.active_of_mem hl)))
  | startReset scope' =>
    obtain rfl : scope' = scope := hc
    obtain ⟨s, hs⟩ := h.state (.inl hl)
    simp only [act, exec, forget, StateT.run_bind, startReset_run h.valid.quiet hs,
      except_ok_bind, except_pure, StateT.run_pure] at ha
    cases ha
    refine ⟨⟨[.resetStarted _ scope', .restored scope'], rfl, by simp⟩, ?_, ?_⟩
    · rw [ledger_cons_self (by exact rfl)]
      exact hidle
    · intro other ho
      exact (some.inj (ho.symm.trans (h.active_of_mem hl)))
  | dropFaults scope' =>
    obtain rfl : scope' = scope := hc
    obtain ⟨s, hs⟩ := h.state (.inl hl)
    simp only [act, dropFaults_run h.valid.quiet hs, except_pure] at ha
    cases ha
    refine ⟨⟨[.restored scope'], rfl, mem_singleton.mpr rfl⟩, hidle, ?_⟩
    intro other ho
    cases ho
  | _ => cases hc

end Custody
variable {rx : Receiver} {handle : RuleHandle}


section Stopped

variable {quote : String → String} {w w' : World}

variable {scope : ScopeId} {operation : Operation} {verdict : Verdict}

theorem World.Good.rules (hg : w.Good quote) {ans : Gate}
    (hm : .gated scope operation verdict ans ∈ w.history) :
    ∃ later earlier, w.history = later ++ earlier ∧
      (ledger scope earlier).Rules scope operation verdict ans := by
  obtain ⟨later, earlier, heq⟩ := append_of_mem hm
  have hsd := hg.tracks.sound
  rw [heq] at hsd
  refine ⟨later ++ [.gated scope operation verdict ans], earlier, ?_, hsd.truthful⟩
  rw [heq, append_assoc]
  rfl

theorem World.Good.stalled_rule (hg : w.Good quote) {ans : Gate}
    (hm : .gated scope operation verdict ans ∈ w.history)
    (hst : (∃ hits, verdict = .stalled hits) ∨ ∃ rx holding, ans = .stalled rx
      holding) :
    ∃ rule resume seen, rule ∈ (ledger scope w.history).installed ∧
      rule.effect = .stall resume ∧ verdict = .stalled rule.hits ∧
      ans = .stalled ⟨resume, seen⟩ ⟨scope⟩ := by
  obtain ⟨later, earlier, heq, hrls⟩ := hg.rules hm
  rcases hrls.inv with ⟨_, _, _, _, hv, ha⟩ | ⟨rule, resume, seen, hr, he, hv, ha⟩ |
    ⟨_, _, _, _, _, _, hv, ha⟩ | ⟨_, _, hv, ha⟩
  case inr.inl =>
    have hin := rules_installed scope earlier rule (decidingRule_mem hr).1
    refine ⟨rule, resume, seen, ?_, he, hv, ha⟩
    rw [heq]
    exact ledger_mono (P := fun l => rule ∈ l.installed) (fun _ e hl => after_installed hl e) hin _
  all_goals
    rcases hst with ⟨_, hst⟩ | ⟨_, _, hst⟩
    · rw [hv] at hst
      cases hst
    · rw [ha] at hst
      cases hst

theorem World.resolve_held_congr (hd : w'.decisions = w.decisions)
    (hw : w'.watches[rx.watch]? = w.watches[rx.watch]?) (holding : Holding) :
    w'.resolve (.held d rx holding) = w.resolve (.held d rx holding) := by
  simp only [World.resolve, hd, hw]

theorem World.resolve_stalled_congr (hw : w'.watches[rx.watch]? = w.watches[rx.watch]?)
    (holding : Holding) : w'.resolve (.stalled rx holding) = w.resolve (.stalled rx holding) := by
  simp only [World.resolve, hw]

theorem World.Good.resolve_removed (hg : w.Good quote) {s : State}
    (hs : w.state? handle.state = some s) (hd : w'.decisions = w.decisions)
    (hw : w'.watches =
      droppedWatches (s.rules.filter fun rule => rule.hits = handle.hits) w.watches)
    {g : Gate} (hm : .gated scope operation verdict g ∈ w.history)
    (hnot : ¬ (scope = handle.state ∧ verdict = .stalled handle.hits)) :
    w'.resolve g = w.resolve g := by
  have hrule : ∀ rule ∈ s.rules.filter fun rule => rule.hits = handle.hits,
      rule ∈ (ledger handle.state w.history).installed ∧ rule.hits = handle.hits := by
    intro rule hr
    obtain ⟨hin, hh⟩ := mem_filter.mp hr
    rw [(hg.tracks.represents hs).rules] at hin
    exact ⟨rules_installed _ _ rule hin, of_decide_eq_true hh⟩
  cases g with
  | decided d => rfl
  | held d rx holding =>
    obtain ⟨later, earlier, heq⟩ := append_of_mem hm
    obtain ⟨⟨s', hs', hwatch⟩, -⟩ := hg.wired.held _ _ _ heq
    refine World.resolve_held_congr hd ?_ holding
    rw [hw]
    refine droppedWatches_ne ?_ _
    intro rule hr
    rw [hwatch]
    exact hg.wired.apart _ _ _ _ hs' (hrule rule hr).1
  | stalled rx holding =>
    obtain ⟨rule, resume, seen, hin, he, hv, ha⟩ :=
      hg.stalled_rule hm (.inr ⟨rx, holding, rfl⟩)
    cases ha
    refine World.resolve_stalled_congr ?_ _
    rw [hw]
    refine droppedWatches_ne ?_ _
    intro other ho heff
    obtain ⟨hin', hh⟩ := hrule other ho
    obtain ⟨rfl, rfl⟩ := hg.wired.unique _ _ _ _ _ hin hin' he heff
    exact hnot ⟨rfl, by rw [hv, hh]⟩

end Stopped

/-! ## The results -/

/-- States of runs from the start. -/
abbrev Reached (quote : String → String) (c : Custody) : Prop := Custody.Run quote Custody.init c

namespace Custody

variable {quote : String → String} {c : Custody}

theorem Run.good (h : Reached quote c) : c.world.Good quote :=
  (h.changes Wf.init).good (World.good_init quote)

section Restored

variable {c₁ c₂ : Custody} {scope : ScopeId} {call : Call}

section

variable (h : Reached quote c)

include h

theorem Run.held_after_restore (hc : Call.Restores scope call) (hl : (Action.call call).Legal c)
    (hact : act quote c (.call call) = .ok c₁) (hrun : Run quote c₁ c₂)
    (hp : .held d rx ⟨scope⟩ ∈ c.pending) :
    (∀ sent, c.world.decision d = some sent → c₂.world.resolve (.held d rx ⟨scope⟩) = .ready sent) ∧
    (c₂.world.decision d = none → c₂.world.resolve (.held d rx ⟨scope⟩) = .ready .release) := by
  have hwf := h.wf Wf.init
  have hchs := (act_changes hwf hact).trans (hrun.changes (act_wf hwf hl hact))
  obtain ⟨⟨later, hlat, hres⟩, -, -⟩ := restoring hwf hc hl hact
  obtain ⟨more, hmore⟩ := (hrun.changes (act_wf hwf hl hact)).history
  obtain ⟨scope', operation, verdict, hm, hh⟩ := hwf.pending _ hp
  cases hh
  obtain ⟨after, earlier, heq⟩ := append_of_mem hm
  have hhist : c₂.world.history = (more ++ later ++ after) ++
      .gated scope operation verdict (.held d rx ⟨scope⟩) :: earlier := by
    rw [hmore, hlat, heq]
    simp only [append_assoc]
  have hresolve := (Changes.good h.good hchs).wired.resolve_held hhist
    (mem_append_left _ (mem_append_right _ hres))
  rw [hresolve]
  refine ⟨?_, ?_⟩
  · intro sent hsent
    rw [Changes.decision h.good hchs hsent]
    rfl
  · intro hn
    rw [hn]
    rfl

theorem Run.stalled_after_restore (hc : Call.Restores scope call) (hl : (Action.call call).Legal c)
    (hact : act quote c (.call call) = .ok c₁) (hrun : Run quote c₁ c₂)
    (hp : .stalled rx ⟨scope⟩ ∈ c.pending) :
    c₂.world.resolve (.stalled rx ⟨scope⟩) = .ready .release :=
    by
  have hwf := h.wf Wf.init
  have hgood₁ := (act_changes hwf hact).good h.good
  obtain ⟨⟨later, hlat, -⟩, hidle, -⟩ := restoring hwf hc hl hact
  obtain ⟨scope', operation, verdict, hm, hh⟩ := hwf.pending _ hp
  cases hh
  have hmem₁ : .gated scope operation verdict (.stalled rx ⟨scope⟩) ∈
      c₁.world.history := by
    rw [hlat]
    exact mem_append_right _ hm
  obtain ⟨rule, resume, seen, hin, he, hv, ha⟩ :=
    hgood₁.stalled_rule hmem₁ (.inr ⟨rx, _, rfl⟩)
  cases ha
  -- the rule went with the restore, and its sender with the rule
  obtain ⟨-, hrule | hgone⟩ := hgood₁.wired.stall _ _ _ hin he
  · rw [hidle.1] at hrule
    cases hrule
  · exact resolve_stalled _ ((hrun.changes (act_wf hwf hl hact)).gone hgone)

theorem Run.gate_after_restore (hc : Call.Restores scope call) (hl : (Action.call call).Legal c)
    (hact : act quote c (.call call) = .ok c₁) (hrun : Run quote c₁ c₂)
    (hlat : c₂.world.history = later ++ c₁.world.history) (hno : ∀ ev ∈ later, ev.installs = false)
    (operation : Operation) : ∃ w, (gate operation).run c₂.world = .ok (.decided .release, w) := by
  have hwf := h.wf Wf.init
  have hgood₁ := (act_changes hwf hact).good h.good
  have hch := hrun.changes (act_wf hwf hl hact)
  obtain ⟨-, hidle, hac⟩ := restoring hwf hc hl hact
  refine (hch.good hgood₁).gate_open (hch.open ?_ hlat hno) operation
  rintro other (ho | ho)
  · rw [hac other ho]
    exact hidle
  · exact hgood₁.idle_of_none ho

theorem Run.own_after_remove (hact : act quote c (.call (.remove handle)) = .ok c₁) {g : Gate}
    (hp : g ∈ c.pending) {operation : Operation}
    (hm : .gated handle.state operation (.stalled handle.hits) g ∈ c.world.history) :
    c₁.world.resolve g = .ready .release :=
    by
  have hwf := h.wf Wf.init
  obtain ⟨rule, resume, seen, hin, he, hv, rfl⟩ := h.good.stalled_rule hm (.inl ⟨_, rfl⟩)
  -- the operation's token keeps the scope alive, so the rule is really removed
  have hl := hwf.alive (.inr (.inr (mem_holdings_of_pending hp rfl)))
  obtain ⟨s, hs⟩ := isSome_iff_exists.mp (hwf.valid.state_isSome hl)
  have hgood₁ := (act_changes hwf hact).good h.good
  simp only [act, exec, RuleHandle.remove_run hwf.valid.quiet hl hs, except_ok_bind,
    except_pure] at hact
  cases hact
  have hldg : ledger handle.state (.removed handle.state handle.hits :: c.world.history) =
      (ledger handle.state c.world.history).after (.removed handle.state handle.hits) :=
    ledger_cons_self (by exact rfl) _
  obtain ⟨-, hrule | hgone⟩ := hgood₁.wired.stall handle.state rule resume
    (by rw [hldg]; exact hin) he
  · rw [hldg] at hrule
    have hne := (mem_filter.mp hrule).2
    have heq : rule.hits = handle.hits := (Verdict.stalled.inj hv).symm
    simp [heq] at hne
  · exact resolve_stalled _ hgone

theorem Run.others_after_remove
    (hact : act quote c (.call (.remove handle)) = .ok c₁) {g : Gate} (hp : g ∈ c.pending)
    (hnot : ∀ operation, .gated handle.state operation (.stalled handle.hits) g ∉ c.world.history) :
    c₁.world.resolve g = c.world.resolve g := by
  have hwf := h.wf Wf.init
  obtain ⟨scope, operation, verdict, hm, hh⟩ := hwf.pending g hp
  by_cases hl : c.world.alive handle.state = true
  · obtain ⟨s, hs⟩ := isSome_iff_exists.mp (hwf.valid.state_isSome hl)
    simp only [act, exec, RuleHandle.remove_run hwf.valid.quiet hl hs, except_ok_bind,
      except_pure] at hact
    cases hact
    refine h.good.resolve_removed hs (by rfl) (by rfl) hm ?_
    rintro ⟨rfl, rfl⟩
    exact hnot operation hm
  · simp only [act, exec, RuleHandle.remove_run_dead (by simpa using hl), except_ok_bind,
      except_pure] at hact
    cases hact
    rfl

end

end Restored

/-- **Restoring lets traffic through.** Let `restore`, `reset` or the drop of a `Faults`
happen in any reachable situation, and anything after that. An operation that was held and is
decided keeps its decision; held without a decision it is released when its task next looks;
an operation stalled by a rule of the scope is released; and everything gated later is
released, until a rule is installed or a trap armed.

Removing one rule releases the operations stalled by that rule, and no other waiting
operation notices. -/
theorem restoring_lets_through (h : Reached quote c) :
    (∀ scope call c₁ c₂, Call.Restores scope call → (Action.call call).Legal c →
      act quote c (.call call) = .ok c₁ → Run quote c₁ c₂ →
        (∀ decision receiver, .held decision receiver ⟨scope⟩ ∈ c.pending →
          (∀ sent, c.world.decision decision = some sent →
            c₂.world.resolve (.held decision receiver ⟨scope⟩) = .ready sent) ∧
          (c₂.world.decision decision = none →
            c₂.world.resolve (.held decision receiver ⟨scope⟩) = .ready .release)) ∧
        (∀ receiver, .stalled receiver ⟨scope⟩ ∈ c.pending →
          c₂.world.resolve (.stalled receiver ⟨scope⟩) = .ready .release) ∧
        ∀ later, c₂.world.history = later ++ c₁.world.history →
          (∀ event ∈ later, event.installs = false) →
          ∀ operation, ∃ w, (gate operation).run c₂.world = .ok (.decided .release, w)) ∧
    ∀ handle c₁, act quote c (.call (.remove handle)) = .ok c₁ → ∀ g ∈ c.pending,
      (∀ operation, .gated handle.state operation (.stalled handle.hits) g ∈ c.world.history →
        c₁.world.resolve g = .ready .release) ∧
      ((∀ operation, .gated handle.state operation (.stalled handle.hits) g ∉ c.world.history) →
        c₁.world.resolve g = c.world.resolve g) := by
  refine ⟨?_, ?_⟩
  · intro scope call c₁ c₂ hcall hl hact hrun
    refine ⟨?_, ?_, ?_⟩
    · intro decision receiver hp
      exact h.held_after_restore hcall hl hact hrun hp
    · intro receiver hp
      exact h.stalled_after_restore hcall hl hact hrun hp
    · intro later hlater hno operation
      exact h.gate_after_restore hcall hl hact hrun hlater hno operation
  · intro handle c₁ hact g hp
    refine ⟨?_, ?_⟩
    · intro operation hmem
      exact h.own_after_remove hact hp hmem
    · intro hnot
      exact h.others_after_remove hact hp hnot

def stalledTwice : List Action :=
  [.call .openScope, .call (.stall 0 (.onHttp .default)), .call (.stall 0 .default),
    .call (.gate ⟨.http, .request, "getSlot", [], []⟩),
    .call (.gate ⟨.ws, .request, "slotSubscribe", [], []⟩)]

theorem restoring_lets_through_stalled :
    .stalled ⟨1, 0⟩ ⟨0⟩ ∈ (reach id stalledTwice).pending ∧
      ∀ c, act id (reach id stalledTwice) (.call (.restore 0)) = .ok c →
        c.world.resolve (.stalled ⟨1, 0⟩ ⟨0⟩) = .ready .release := by
  have hrun : Reached id (reach id stalledTwice) := reach_run (by decide +kernel)
  have hmem : .stalled ⟨1, 0⟩ ⟨0⟩ ∈ (reach id stalledTwice).pending := by decide +kernel
  have hlegal : (Action.call (.restore 0)).Legal (reach id stalledTwice) := by decide +kernel
  refine ⟨hmem, ?_⟩
  intro c hc
  obtain ⟨-, hstalled, -⟩ :=
    (restoring_lets_through hrun).1 0 (.restore 0) c c rfl hlegal hc .refl
  exact hstalled ⟨1, 0⟩ hmem

end Custody

end Redsuite
