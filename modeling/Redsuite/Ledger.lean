import Redsuite.Calls
import Mathlib.Data.List.Nodup
import Mathlib.Data.List.Perm.Basic

/-!
# The ledger of a fault scope

What a scope is for, said without its code.
-/

namespace Redsuite

open List

/-- A trap and what it waits for. -/
abbrev TrapEntry : Type := TrapId × Selector

/-- What the history of a scope says about its rules and traps. -/
structure Ledger where
  /-- all rules so far -/
  installed : List Rule
  /-- those in force -/
  rules : List Rule
  /-- all traps so far -/
  requested : List TrapEntry
  /-- those that still wait -/
  armed : List TrapEntry
  /-- those that have stopped an operation -/
  fired : List TrapEntry
  /-- the traps taken away unfired and not reported yet -/
  unfired : List TrapEntry
  /-- the traps each reset error reported, error by error -/
  reports : List (List TrapEntry)
  /-- the numbers of the held operations, in the order the traps fired -/
  sequences : List ℕ
  /-- the same, without the operations that nobody received -/
  delivered : List ℕ

/-- The scope an event belongs to. -/
def Event.scope : Event → ScopeId
  | .requested scope _ _ => scope
  | .installed scope _ => scope
  | .removed scope _ => scope
  | .gated scope _ _ _ => scope
  | .restored scope => scope
  | .resetStarted _ scope => scope
  | .resetOk _ scope => scope
  | .resetErr _ scope _ => scope

namespace Ledger

/-- Before the first event. -/
def empty : Ledger := ⟨[], [], [], [], [], [], [], [], []⟩

/-- What an event of the scope changes. -/
def after (l : Ledger) : Event → Ledger
  | .requested _ trap selector =>
    { l with
      requested := l.requested ++ [(trap, selector)]
      armed := l.armed ++ [(trap, selector)] }
  | .installed _ rule =>
    { l with installed := l.installed ++ [rule], rules := l.rules ++ [rule] }
  | .removed _ hits => { l with rules := l.rules.filter fun rule => !decide (rule.hits = hits) }
  | .gated _ _ (.held trap sequence delivered) _ =>
    { l with
      armed := l.armed.filter fun entry => !decide (entry.1 = trap)
      fired := l.fired ++ l.armed.filter fun entry => entry.1 = trap
      sequences := l.sequences ++ [sequence]
      delivered := l.delivered ++ if delivered then [sequence] else [] }
  | .gated _ _ _ _ => l
  | .restored _ => { l with rules := [], armed := [], unfired := l.unfired ++ l.armed }
  | .resetStarted _ _ => l
  | .resetOk _ _ => l
  | .resetErr _ _ _ => { l with unfired := [], reports := l.reports ++ [l.unfired] }

end Ledger

/-- The ledger of a scope; the last event comes first. -/
def ledger (scope : ScopeId) : List Event → Ledger
  | [] => Ledger.empty
  | event :: earlier =>
    if event.scope = scope then (ledger scope earlier).after event else ledger scope earlier

variable {scope : ScopeId} {ev : Event} {earlier : List Event} {P : Ledger → Prop} {l : Ledger}

theorem ledger_cons_self (h : ev.scope = scope) (earlier : List Event) :
    ledger scope (ev :: earlier) = (ledger scope earlier).after ev := by
  rw [ledger, if_pos h]

theorem ledger_cons_ne (h : ev.scope ≠ scope) (earlier : List Event) :
    ledger scope (ev :: earlier) = ledger scope earlier := by
  rw [ledger, if_neg h]

/-- **One more event** changes the ledger of its own scope. -/
theorem forall_ledger_cons {P : ScopeId → Ledger → Prop} (ev : Event) (earlier : List Event)
    (hself : P ev.scope ((ledger ev.scope earlier).after ev))
    (hother : ∀ scope, ev.scope ≠ scope → P scope (ledger scope earlier)) (scope : ScopeId) :
    P scope (ledger scope (ev :: earlier)) := by
  by_cases hs : ev.scope = scope
  · subst hs
    rw [ledger_cons_self rfl]
    exact hself
  · rw [ledger_cons_ne hs]
    exact hother scope hs

theorem ledger_mono (hP : ∀ l ev, P l → P (l.after ev))
    (h : P (ledger scope earlier)) (later : List Event) : P (ledger scope (later ++ earlier)) := by
  induction later with
  | nil => exact h
  | cons ev rest ih =>
    by_cases hs : ev.scope = scope
    · rw [cons_append, ledger_cons_self hs]
      exact hP _ ev ih
    · rw [cons_append, ledger_cons_ne hs]
      exact ih

theorem ledger_induction (hnil : P .empty) (hP : ∀ l ev, P l → P (l.after ev))
    (scope : ScopeId) (history : List Event) : P (ledger scope history) := by
  have hfirst : P (ledger scope []) := hnil
  have hmono := ledger_mono hP hfirst history
  rwa [append_nil] at hmono

/-! ## The books balance

Each event moves traps between the columns of the ledger and loses none, whatever the
history. -/

/-- Every requested trap is in one of the four columns, once. -/
def Ledger.Balanced (l : Ledger) : Prop :=
  l.requested.Perm (l.fired ++ l.armed ++ l.unfired ++ l.reports.flatten)

theorem filter_trap_perm (l : List TrapEntry) (trap : TrapId) :
    (l.filter (fun e => e.1 = trap) ++ l.filter fun e => !decide (e.1 = trap)).Perm
      l :=
  filter_append_perm _ l

theorem Ledger.Balanced.after (h : l.Balanced) (ev : Event) : (l.after ev).Balanced := by
  cases ev with
  | requested scope trap sel =>
    have hnew := h.append_right [(trap, sel)]
    refine hnew.trans ?_
    simp only [Ledger.after, append_assoc]
    refine List.Perm.append_left _ (List.Perm.append_left _ ?_)
    rw [← append_assoc]
    exact perm_append_comm
  | gated scope op verdict ans =>
    cases verdict with
    | held trap sequence delivered =>
      refine h.trans ?_
      simp only [Ledger.after, append_assoc]
      refine List.Perm.append_left _ ?_
      rw [← append_assoc (List.filter _ _) (List.filter _ _)]
      exact (filter_trap_perm l.armed trap).symm.append_right _
    | _ => exact h
  | restored scope =>
    refine h.trans ?_
    simp only [Ledger.after, append_assoc, nil_append]
    refine List.Perm.append_left _ ?_
    rw [← append_assoc, ← append_assoc]
    exact perm_append_comm.append_right _
  | resetErr reset scope names =>
    refine h.trans ?_
    simp only [Ledger.after, append_assoc, nil_append, flatten_append,
      flatten_singleton]
    exact List.Perm.append_left _ (List.Perm.append_left _ perm_append_comm)
  | _ => exact h

theorem ledger_balanced (scope : ScopeId) (history : List Event) :
    (ledger scope history).Balanced :=
  ledger_induction (List.Perm.refl _) (fun _ ev h => h.after ev) scope history

/-! ## What only grows -/

theorem after_installed {rule : Rule} (h : rule ∈ l.installed) (ev : Event) :
    rule ∈ (l.after ev).installed := by
  cases ev with
  | installed scope other => exact mem_append_left _ h
  | gated scope op verdict ans => cases verdict <;> exact h
  | _ => exact h

theorem rules_installed (scope : ScopeId) (history : List Event) :
    ∀ rule ∈ (ledger scope history).rules, rule ∈ (ledger scope history).installed := by
  refine ledger_induction (P := fun l => ∀ rule ∈ l.rules, rule ∈ l.installed)
    (fun _ hr => nomatch hr) (fun l ev hl => ?_) scope history
  cases ev with
  | installed scope other =>
    intro rule hr
    rcases mem_append.mp hr with hr | hr
    · exact mem_append_left _ (hl rule hr)
    · exact mem_append_right _ hr
  | removed scope hits =>
    intro rule hr
    exact hl rule (mem_filter.mp hr).1
  | restored scope =>
    intro rule hr
    cases hr
  | gated scope op verdict ans => cases verdict <;> exact hl
  | _ => exact hl

/-! ## Events that tell the truth -/

/-- How an operation fares under a ledger: the first deciding rule that matches decides it
alone; without one the first armed trap that matches stops it; without one it goes on. -/
def Ledger.Rules (l : Ledger) (scope : ScopeId) (operation : Operation) (verdict : Verdict)
    (answer : Gate) : Prop :=
  match decidingRule l.rules operation with
  | some rule =>
    match rule.effect with
    | .observe => False
    | .reject message =>
      verdict = .rejected rule.hits ∧ answer = .decided (.reject message)
    | .stall resume =>
      verdict = .stalled rule.hits ∧ ∃ seen, answer = .stalled ⟨resume, seen⟩ ⟨scope⟩
  | none =>
    match l.armed.find? fun entry => entry.2.matches operation with
    | some entry =>
      (∃ delivered, verdict = .held entry.1 (l.sequences.length + 1) delivered) ∧
        ∃ decision reset, answer = .held decision reset ⟨scope⟩
    | none => verdict = .released ∧ answer = .decided .release

/-- How an error names a trap. -/
def TrapEntry.name (quote : String → String) (entry : TrapEntry) : String :=
  entry.2.debug quote

/-- An event says of its scope what the ledger says. -/
def Event.Truthful (quote : String → String) (earlier : List Event) : Event → Prop
  | .requested scope trap _ => ∀ entry ∈ (ledger scope earlier).requested, entry.1 ≠ trap
  | .gated scope operation verdict answer =>
    (ledger scope earlier).Rules scope operation verdict answer
  | .resetStarted _ scope => (ledger scope earlier).armed = []
  | .resetOk _ scope => (ledger scope earlier).unfired = []
  | .resetErr _ scope names =>
    names = (ledger scope earlier).unfired.map (TrapEntry.name quote) ∧ names ≠ []
  | _ => True

/-- All events of a history do. -/
def Sound (quote : String → String) : List Event → Prop
  | [] => True
  | event :: earlier => event.Truthful quote earlier ∧ Sound quote earlier

theorem Sound.truthful {quote : String → String} {later : List Event}
    (h : Sound quote (later ++ ev :: earlier)) : ev.Truthful quote earlier := by
  induction later with
  | nil => exact h.1
  | cons e rest ih => exact ih h.2

theorem Sound.suffix {quote : String → String} {later : List Event}
    (h : Sound quote (later ++ earlier)) : Sound quote earlier := by
  induction later with
  | nil => exact h
  | cons e rest ih => exact ih h.2

/-! ### What soundness gives -/

section Consequences

variable {quote : String → String} {history : List Event}

theorem Sound.ledger_induction (hnil : P .empty)
    (hP : ∀ ev earlier, ev.Truthful quote earlier → Sound quote earlier →
      P (ledger ev.scope earlier) → P ((ledger ev.scope earlier).after ev))
    (h : Sound quote history) (scope : ScopeId) : P (ledger scope history) := by
  induction history with
  | nil => exact hnil
  | cons ev earlier ih =>
    by_cases hs : ev.scope = scope
    · subst hs
      rw [ledger_cons_self rfl]
      exact hP ev earlier h.1 h.2 (ih h.2)
    · rw [ledger_cons_ne hs]
      exact ih h.2

theorem Sound.requested_nodup (h : Sound quote history) (scope : ScopeId) :
    ((ledger scope history).requested.map Prod.fst).Nodup := by
  refine h.ledger_induction (P := fun l => (l.requested.map Prod.fst).Nodup) nodup_nil
    (fun ev earlier htrue _ ih => ?_) scope
  cases ev with
  | requested scope trap sel =>
    simp only [Ledger.after, map_append, map_cons]
    refine List.Nodup.append ih (nodup_singleton _) ?_
    intro id hid hid'
    obtain ⟨e, he, rfl⟩ := mem_map.mp hid
    exact htrue e he (mem_singleton.mp hid')
  | gated scope op verdict ans => cases verdict <;> exact ih
  | _ => exact ih

theorem Sound.columns_nodup (h : Sound quote history) (scope : ScopeId) :
    (((ledger scope history).fired ++ (ledger scope history).armed ++
      (ledger scope history).unfired ++ (ledger scope history).reports.flatten).map
        Prod.fst).Nodup :=
  ((ledger_balanced scope history).map Prod.fst).nodup_iff.mp (h.requested_nodup scope)

theorem Sound.armed_nodup (h : Sound quote history) (scope : ScopeId) :
    ((ledger scope history).armed.map Prod.fst).Nodup := by
  have hcols := h.columns_nodup scope
  simp only [map_append] at hcols
  exact (hcols.of_append_left.of_append_left).of_append_right

theorem filter_trap_eq {l : List TrapEntry} (hn : (l.map Prod.fst).Nodup) {entry : TrapEntry}
    (hm : entry ∈ l) : l.filter (fun e => e.1 = entry.1) = [entry] := by
  induction l with
  | nil => cases hm
  | cons e rest ih =>
    obtain ⟨hnot, hn⟩ := nodup_cons.mp hn
    rcases mem_cons.mp hm with rfl | hm
    · rw [filter_cons_of_pos (by simp)]
      have hr : rest.filter (fun e => e.1 = entry.1) = [] := by
        refine filter_eq_nil_iff.mpr ?_
        intro e he heq
        exact hnot (mem_map.mpr ⟨e, he, of_decide_eq_true heq⟩)
      rw [hr]
    · have hne : e.1 ≠ entry.1 := by
        intro heq
        exact hnot (mem_map.mpr ⟨entry, hm, heq.symm⟩)
      rw [filter_cons_of_neg (by simpa using hne), ih hn hm]

theorem Ledger.Rules.inv {scope : ScopeId} {op : Operation}
    {verdict : Verdict} {ans : Gate} (h : l.Rules scope op verdict ans) :
    (∃ rule message, decidingRule l.rules op = some rule ∧
        rule.effect = .reject message ∧ verdict = .rejected rule.hits ∧
        ans = .decided (.reject message)) ∨
      (∃ rule resume seen, decidingRule l.rules op = some rule ∧
        rule.effect = .stall resume ∧ verdict = .stalled rule.hits ∧
        ans = .stalled ⟨resume, seen⟩ ⟨scope⟩) ∨
      (∃ e delivered decision reset, decidingRule l.rules op = none ∧
        (l.armed.find? fun e => e.2.matches op) = some e ∧
        verdict = .held e.1 (l.sequences.length + 1) delivered ∧
        ans = .held decision reset ⟨scope⟩) ∨
      decidingRule l.rules op = none ∧
        (l.armed.find? fun e => e.2.matches op) = none ∧
        verdict = .released ∧ ans = .decided .release := by
  unfold Ledger.Rules at h
  rcases hr : decidingRule l.rules op with _ | rule
  · rw [hr] at h
    rcases hf : l.armed.find? fun e => e.2.matches op with _ | e
    · simp only [hf] at h
      exact .inr (.inr (.inr ⟨rfl, hf, h⟩))
    · simp only [hf] at h
      obtain ⟨⟨delivered, hv⟩, decision, reset, ha⟩ := h
      exact .inr (.inr (.inl ⟨e, delivered, decision, reset, rfl, hf, hv, ha⟩))
  · rw [hr] at h
    rcases he : rule.effect with _ | message | resume
    · simp only [he] at h
    · simp only [he] at h
      exact .inl ⟨rule, message, rfl, he, h⟩
    · simp only [he] at h
      obtain ⟨hv, seen, ha⟩ := h
      exact .inr (.inl ⟨rule, resume, seen, rfl, he, hv, ha⟩)

theorem Ledger.Rules.held {scope : ScopeId} {op : Operation} {trap : TrapId} {sequence : ℕ}
    {delivered : Bool} {ans : Gate} (h : l.Rules scope op (.held trap sequence delivered) ans) :
    sequence = l.sequences.length + 1 ∧ ∃ entry, (l.armed.find? fun entry => entry.2.matches op) =
    some entry ∧ entry.1 = trap := by
  rcases h.inv with ⟨_, _, _, _, hv, _⟩ | ⟨_, _, _, _, _, hv, _⟩ |
    ⟨entry, _, _, _, _, hf, hv, _⟩ | ⟨_, _, hv, _⟩
  · cases hv
  · cases hv
  · cases hv
    exact ⟨rfl, entry, hf, rfl⟩
  · cases hv

theorem Sound.sequences_eq (h : Sound quote history) (scope : ScopeId) :
    (ledger scope history).sequences = List.range' 1 (ledger scope history).fired.length := by
  refine h.ledger_induction (P := fun l => l.sequences = List.range' 1 l.fired.length) rfl
    (fun ev earlier htrue hsd ih => ?_) scope
  cases ev with
  | gated scope op verdict ans =>
    cases verdict with
    | held trap sequence delivered =>
      obtain ⟨hseq, entry, hfind, rfl⟩ := Ledger.Rules.held htrue
      have hm := mem_of_find?_eq_some hfind
      have hone := filter_trap_eq (hsd.armed_nodup scope) hm
      simp only [Event.scope] at ih
      simp only [Ledger.after, Event.scope, hone, length_append, length_singleton, range'_concat]
      rw [hseq, ih, length_range', Nat.one_mul, Nat.add_comm]
    | _ => exact ih
  | _ => exact ih

theorem delivered_sublist (scope : ScopeId) (history : List Event) :
    (ledger scope history).delivered.Sublist (ledger scope history).sequences := by
  refine ledger_induction (P := fun l => l.delivered.Sublist l.sequences) (List.Sublist.refl _)
    (fun l ev ih => ?_) scope history
  cases ev with
  | gated scope op verdict ans =>
    cases verdict with
    | held trap sequence delivered =>
      refine ih.append ?_
      cases delivered
      · exact nil_sublist _
      · exact List.Sublist.refl _
    | _ => exact ih
  | _ => exact ih

end Consequences

end Redsuite
