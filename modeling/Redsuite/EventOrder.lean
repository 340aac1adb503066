import Redsuite.EventConsumers

/-!
# Events are taken in order

What the calls on a connection returned is compared with what its router sent to each key.
-/

namespace Redsuite

open List Option

namespace Events

variable {ν τ : Type} {connection : Connection ν}

namespace Consumers

/-! ### What every step keeps -/

/-- The calls got what was routed, in order, and the rest is in the buffers. -/
structure Delivered (codec : Codec ν) (decode : Topic → ν → Option τ) (connection : Connection ν)
    (routed : List (ℕ × ν)) (returned : List (ℕ × τ)) : Prop where
  reached : Connection.Reachable codec connection
  buffered : ∀ number events, connection.router.state.byKey.lookup number = some events →
    taken number connection.log ++ events = about number routed
  /-- also where the buffer is gone, nothing else was taken -/
  ordered : ∀ number, taken number connection.log <+: about number routed
  given : ∀ task ∈ connection.tasks, about task.key returned =
    (taken task.key connection.log).filterMap (decode task.topic)
  routedLe : ∀ entry ∈ routed, entry.1 ≤ connection.router.state.lastKey
  returnedLe : ∀ entry ∈ returned, entry.1 ≤ connection.router.state.lastKey

section Delivered

variable {codec : Codec ν} {decode : Topic → ν → Option τ} {connection after : Connection ν}
  {routed : List (ℕ × ν)} {returned : List (ℕ × τ)} {ev : Event}

theorem delivered_init : Delivered codec decode (.init : Connection ν) [] ([] : List (ℕ × τ)) where
  reached := .refl
  buffered number events hevs := by cases hevs
  ordered number := prefix_refl _
  given task hm := by cases hm
  routedLe entry hm := by cases hm
  returnedLe entry hm := by cases hm

theorem about_fresh {α : Type} {es : List (ℕ × α)} {last n : ℕ}
    (h : ∀ e ∈ es, e.1 ≤ last) (hnum : last < n) : about n es = [] := by
  refine eq_nil_iff_forall_not_mem.mpr ?_
  intro item hm
  exact absurd (h _ (mem_about.mp hm)) (Nat.not_le_of_lt hnum)

theorem arrivals_le (hinv : Connection.Inv connection) :
    ∀ e ∈ connection.arrivals codec ev, e.1 ≤ connection.router.state.lastKey := by
  intro e hm
  unfold Connection.arrivals at hm
  split at hm
  · split at hm
    · split at hm
      · rename_i key pl hrt hrd
        rw [mem_singleton.mp hm]
        obtain ⟨⟨req, hnmd⟩, -⟩ := hinv.routes _ key hrt
        exact hinv.named_le hnmd
      · cases hm
    · cases hm
  · cases hm

theorem Delivered.routed_le (h : Delivered codec decode connection routed returned)
    (ev : Event) : ∀ e ∈ routed ++ connection.arrivals codec ev,
      e.1 ≤ connection.router.state.lastKey := by
  intro e hm
  rcases mem_append.mp hm with hold | hnew
  · exact h.routedLe e hold
  · exact arrivals_le (h.reached.inv Connection.inv_init) e hnew

theorem Delivered.connected (h : Delivered codec decode connection routed returned)
    (hst : connection.step codec ev = some after) (hpop : ∀ i, ev ≠ .pop i) :
    Delivered codec decode after (routed ++ connection.arrivals codec ev) returned := by
  have hfollows := Connection.step_follows hst hpop
  have hroutedLe := h.routed_le ev
  have hfr : ∀ n, connection.router.state.lastKey < n →
      taken n connection.log = [] := by
    intro n hnum
    have hprefix := h.ordered n
    rw [about_fresh h.routedLe hnum] at hprefix
    exact prefix_nil.mp hprefix
  refine ⟨.step h.reached hst, ?_, ?_, ?_, ?_, ?_⟩
  · intro n evs hevs
    rw [hfollows.taken]
    rcases hfollows.buffers n evs hevs with ⟨old, hold, rfl⟩ | ⟨hnum, rfl⟩
    · rw [about_append, ← h.buffered n old hold, append_assoc]
    · rw [hfr n hnum, about_fresh hroutedLe hnum]
      rfl
  · intro n
    rw [hfollows.taken, about_append]
    exact (h.ordered n).trans (prefix_append _ _)
  · intro task hm
    rw [hfollows.taken]
    rcases hfollows.names task hm with ⟨old, hold, hnm⟩ | hnum
    · obtain ⟨hk, htop⟩ := Prod.mk.inj hnm
      rw [← hk, ← htop]
      exact h.given old hold
    · rw [about_fresh h.returnedLe hnum, hfr task.key hnum]
      rfl
  · intro e hm
    exact Nat.le_trans (hroutedLe e hm) hfollows.last
  · intro e hm
    exact Nat.le_trans (h.returnedLe e hm) hfollows.last

theorem taken_popped (n key : ℕ) (log : List (Entry ν)) (ev : ν) :
    taken n (log ++ [.taken key ev]) =
      taken n log ++ if key = n then [ev] else [] := by
  rw [taken_concat]
  congr 1
  split
  · rename_i h
    simp [taken, h]
  · rename_i h
    simp [taken, h]

theorem Delivered.popped (h : Delivered codec decode connection routed returned) {i : ℕ}
    {task : Task} {ev : ν} {s : EventBuffer ν}
    (ht : connection.tasks[i]? = some task) (hheld : task.phase = .held)
    (hpop : connection.router.state.pop task.key = some (ev, s)) :
    Delivered codec decode
      { connection with router.state := s, log := connection.log ++ [.taken task.key ev] }
      routed (returned ++ (decode task.topic ev).toList.map (task.key, ·)) := by
  have hinv := h.reached.inv Connection.inv_init
  have hm := mem_of_getElem? ht
  have hst : connection.step codec (.pop i) = some
      { connection with router.state := s, log := connection.log ++ [.taken task.key ev] } := by
    simp [Connection.step, ht, hheld, hpop]
  obtain ⟨rest, hbuf, rfl⟩ := EventBuffer.pop_some hpop
  have hfst := h.buffered task.key _ hbuf
  refine ⟨.step h.reached hst, ?_, ?_, ?_, h.routedLe, ?_⟩
  · intro n evs hevs
    rw [taken_popped]
    obtain ⟨rfl, rfl⟩ | ⟨hnum, hevs⟩ := Table.of_lookup_insert hevs
    · rw [if_pos rfl, ← hfst, append_assoc]
      rfl
    · rw [if_neg (Ne.symm hnum), append_nil]
      exact h.buffered n evs hevs
  · intro n
    rw [taken_popped]
    by_cases hnum : task.key = n
    · subst hnum
      rw [if_pos rfl, ← hfst]
      exact (prefix_append_right_inj _).mpr ⟨rest, rfl⟩
    · rw [if_neg hnum, append_nil]
      exact h.ordered n
  · intro other ho
    rw [taken_popped, about_append, h.given other ho, filterMap_append]
    congr 1
    by_cases hk : task.key = other.key
    · obtain rfl := hinv.task_eq hm ho hk
      cases hdec : decode task.topic ev with
      | none => simp [about, hdec]
      | some v => simp [hdec]
    · rw [if_neg hk]
      cases hdec : decode task.topic ev with
      | none => rfl
      | some v => exact about_other v hk
  · intro e he
    rcases mem_append.mp he with hold | hnew
    · exact h.returnedLe e hold
    · obtain ⟨v, -, rfl⟩ := mem_map.mp hnew
      exact hinv.key_le hm

/-- **A call looks at the buffers** of subscriptions that are held. -/
theorem Delivered.observed (h : Delivered codec decode connection routed returned)
    {tasks : List Task}
    (hheld : ∀ task ∈ tasks, ∃ i : ℕ, connection.tasks[i]? = some task ∧
      task.phase = .held) :
    Delivered codec decode (connection.observe decode tasks).2 routed
      (returned ++ handed (connection.observe decode tasks).1) := by
  have hspec := connection.observe_spec decode tasks
  generalize connection.observe decode tasks = observed at hspec
  cases hspec with
  | closed | malformed | empty => exact (append_nil returned).symm ▸ h
  | @returned p task ev v s _ ht hpop hdec =>
    obtain ⟨i, hi, hp⟩ := hheld task (mem_of_getElem? ht)
    have hpopped := h.popped hi hp hpop
    rwa [hdec] at hpopped
  | @lost task ev s _ ht hpop hdec =>
    obtain ⟨i, hi, hp⟩ := hheld task ht
    have hpopped := h.popped hi hp hpop
    rwa [hdec] at hpopped

end Delivered

/-- A call of these subscriptions finds nothing, and nothing to complain about. -/
structure Idle (connection : Connection ν) (subscriptions : List ℕ) : Prop where
  opened : connection.router.error = none
  read : connection.router.state.malformed = 0
  empty : ∀ index ∈ subscriptions, ∀ task, connection.tasks[index]? = some task →
    ∀ events, connection.router.state.byKey.lookup task.key = some events → events = []

/-- These subscriptions are held. -/
def Holds (connection : Connection ν) (subscriptions : List ℕ) : Prop :=
  ∀ index ∈ subscriptions, ∃ task, connection.tasks[index]? = some task ∧ task.phase = .held

theorem Holds.tasks_ne_nil {subscriptions : List ℕ}
    (h : Holds connection subscriptions) (hne : subscriptions ≠ []) :
    (subscriptions.filterMap fun task => connection.tasks[task]?) ≠ [] := by
  intro hnil
  obtain ⟨first, rest, rfl⟩ := exists_cons_of_ne_nil hne
  obtain ⟨task, ht, -⟩ := h first mem_cons_self
  rw [filterMap_cons_some ht] at hnil
  cases hnil

/-- The calls under way have their subscriptions, and none sleeps for nothing. -/
structure Attended (consumers : Consumers ν τ) : Prop where
  /-- a borrowed `Subscription` is there -/
  held : ∀ call ∈ consumers.calls, call.phase.live = true →
    Holds consumers.connection call.subscriptions
  asleep : ∀ call ∈ consumers.calls, call.phase = .parked →
    Idle consumers.connection call.subscriptions

section Attended

variable {codec : Codec ν} {decode : Topic → ν → Option τ} {self : Consumers ν τ}

theorem attended_init : Attended (init : Consumers ν τ) where
  held call hm := by cases hm
  asleep call hm := by cases hm

theorem arrivals_quiet {ev : Event}
    (h : connection.notifies ev = false) : connection.arrivals codec ev = [] := by
  unfold Connection.arrivals
  split
  · split
    · rename_i method params hpa
      simp only [Connection.notifies, hpa, isSome_eq_false_iff,
        isNone_iff_eq_none] at h
      simp only [h]
    · rfl
  · rfl

theorem pop_of_filled {s : EventBuffer ν} {key : ℕ} {evs : List ν}
    (hrd : s.malformed = 0) (hn : s.pop key = none)
    (h : s.byKey.lookup key = some evs) : evs = [] := by
  cases evs with
  | nil => rfl
  | cons ev rest =>
    rw [EventBuffer.pop, if_pos hrd, h] at hn
    cases hn

/-- **The connection moves on**, without a `Subscription` in use. -/
theorem Attended.connected (h : Attended self) {ev : Event} {after : Connection ν}
    (hpmt : self.permits ev = true)
    (hfollows : Connection.Follows codec self.connection ev after) (routed : List (ℕ × ν)) :
    Attended { self with
      connection := after
      calls := if self.connection.notifies ev then self.calls.map Call.wake else self.calls
      routed } := by
  -- whatever is borrowed stays
  have hheld : ∀ call ∈ self.calls, call.phase.live = true → ∀ i ∈ call.subscriptions,
      ∃ task, self.connection.tasks[i]? = some task ∧ after.tasks[i]? = some task ∧
        task.phase = .held := by
    intro call hm hl i hi
    obtain ⟨task, ht, hp⟩ := h.held call hm hl i hi
    refine ⟨task, ht, hfollows.held i task ht hp ?_, hp⟩
    rintro rfl
    have hfree := all_eq_true.mp hpmt call hm
    simp [hl, hi] at hfree
  cases hnotifies : self.connection.notifies ev with
  | true =>
    refine ⟨?_, ?_⟩
    · intro call hm hl i hi
      obtain ⟨old, hold, rfl⟩ := mem_map.mp hm
      have hold' : old.phase.live = true ∧ i ∈ old.subscriptions := by
        unfold Call.wake at hl hi
        split at hi
        · rename_i hp
          rw [hp]
          exact ⟨rfl, hi⟩
        · rename_i hp
          split at hl
          · rename_i hpk
            exact absurd hpk hp
          · exact ⟨hl, hi⟩
      obtain ⟨task, -, ht, hp⟩ := hheld old hold hold'.1 i hold'.2
      exact ⟨task, ht, hp⟩
    · -- nobody sleeps
      intro call hm hpk
      obtain ⟨old, hold, rfl⟩ := mem_map.mp hm
      unfold Call.wake at hpk
      split at hpk
      · cases hpk
      · rename_i hp
        exact absurd hpk hp
  | false =>
    obtain ⟨herr, hmal⟩ := hfollows.quiet hnotifies
    refine ⟨?_, ?_⟩
    · intro call hm hl i hi
      obtain ⟨task, -, ht, hp⟩ := hheld call hm hl i hi
      exact ⟨task, ht, hp⟩
    · intro call hm hpk
      have hidle := h.asleep call hm hpk
      refine ⟨herr.trans hidle.opened, hmal.trans hidle.read, ?_⟩
      intro i hi task ht evs hevs
      obtain ⟨old, hold, hnew, -⟩ := hheld call hm (by rw [hpk]; rfl) i hi
      cases hnew.symm.trans ht
      rcases hfollows.buffers _ evs hevs with ⟨before, hb, rfl⟩ | ⟨-, hem⟩
      · rw [arrivals_quiet hnotifies, hidle.empty i hi _ hold before hb]
        rfl
      · exact hem

theorem Idle.observed {subscriptions : List ℕ} (h : Idle connection subscriptions)
    (tasks : List Task) : Idle (connection.observe decode tasks).2 subscriptions := by
  have hpopped : ∀ {task : Task} {ev : ν} {s : EventBuffer ν},
      connection.router.state.pop task.key = some (ev, s) →
      Idle { connection with
        router.state := s, log := connection.log ++ [.taken task.key ev] } subscriptions := by
    intro task ev s hpop
    obtain ⟨rest, hbuf, rfl⟩ := EventBuffer.pop_some hpop
    refine ⟨h.opened, h.read, ?_⟩
    intro i hi other ho evs hevs
    obtain ⟨hk, -⟩ | ⟨-, hevs⟩ := Table.of_lookup_insert hevs
    · rw [← hk] at hbuf
      cases h.empty i hi other ho _ hbuf
    · exact h.empty i hi other ho evs hevs
  have hspec := connection.observe_spec decode tasks
  generalize connection.observe decode tasks = observed at hspec
  cases hspec with
  | closed | malformed | empty => exact h
  | returned _ _ hpop | lost _ _ hpop => exact hpopped hpop

variable (decode) in
theorem observe_keeps (connection : Connection ν) (tasks : List Task) :
    ∃ s log, (connection.observe decode tasks).2 =
      { connection with router.state := s, log } := by
  have hspec := connection.observe_spec decode tasks
  generalize connection.observe decode tasks = observed at hspec
  cases hspec <;> exact ⟨_, _, rfl⟩

theorem observe_tasks (connection : Connection ν) (tasks : List Task) :
    (connection.observe decode tasks).2.tasks = connection.tasks := by
  obtain ⟨s, log, heq⟩ := observe_keeps decode connection tasks
  rw [heq]

theorem Attended.looked (h : Attended self) (subscriptions : List ℕ) :
    Attended (self.look decode subscriptions).2 := by
  refine ⟨?_, ?_⟩
  · intro call hm hl i hi
    have hts : (self.look decode subscriptions).2.connection.tasks = self.connection.tasks :=
      observe_tasks self.connection _
    rw [hts]
    exact h.held call hm hl i hi
  · intro call hm hpk
    exact (h.asleep call hm hpk).observed _

theorem Attended.called (h : Attended self) (call : Call τ) (hpk : call.phase ≠ .parked)
    (hheld : call.phase.live = true → Holds self.connection call.subscriptions) :
    Attended { self with calls := self.calls ++ [call] } := by
  refine ⟨?_, ?_⟩
  · intro other hm
    rcases mem_concat.mp hm with hold | rfl
    · exact h.held other hold
    · exact hheld
  · intro other hm ho
    rcases mem_concat.mp hm with hold | rfl
    · exact h.asleep other hold ho
    · exact absurd ho hpk

theorem Attended.moved (h : Attended self) {i : ℕ} {call : Call τ} {phase : CallPhase τ}
    (hc : call ∈ self.calls) (hl : phase.live = true → call.phase.live = true)
    (hidle : phase = .parked → Idle self.connection call.subscriptions) :
    Attended (self.move i call phase) := by
  refine ⟨?_, ?_⟩
  · intro other hm ho
    rcases mem_or_eq_of_mem_set hm with hold | rfl
    · exact h.held other hold ho
    · exact h.held call hc (hl ho)
  · intro other hm hpk
    rcases mem_or_eq_of_mem_set hm with hold | rfl
    · exact h.asleep other hold hpk
    · exact hidle hpk

end Attended

/-! ### Steps and runs -/

/-- What one step does, case by case. -/
inductive Change (codec : Codec ν) (decode : Topic → ν → Option τ) (self : Consumers ν τ) :
    Action → Consumers ν τ → Prop where
  | connected {event : Event} {connection : Connection ν} (hpermits : self.permits event = true)
      (hstep : self.connection.step codec event = some connection) :
      Change codec decode self (.connection event)
        { self with
          connection
          calls := if self.connection.notifies event then self.calls.map Call.wake else self.calls
          routed := self.routed ++ self.connection.arrivals codec event }
  | tried {task : ℕ} (h : self.available task = true) :
      Change codec decode self (.tryNext task)
        { (self.look decode [task]).2 with
          calls := self.calls ++ [⟨[task], .ended (self.look decode [task]).1⟩] }
  | called {action : Action} {tasks : List ℕ} (hbegins : action.begins = some tasks)
      (h : ∀ task ∈ tasks, self.available task = true) :
      Change codec decode self action { self with calls := self.calls ++ [⟨tasks, .begun⟩] }
  | polled {index : ℕ} {call : Call τ} (expired : Bool) (hcall : self.calls[index]? = some call)
      (hphase : call.phase = .begun ∨ call.phase = .woken) :
      Change codec decode self (.poll index expired) (self.pollAwake decode index call expired)
  | overslept {index : ℕ} {call : Call τ} (hcall : self.calls[index]? = some call)
      (hphase : call.phase = .parked) :
      Change codec decode self (.poll index true)
        (self.move index call (.ended (.error .timedOut)))
  | slept {index : ℕ} {call : Call τ} (hcall : self.calls[index]? = some call)
      (hphase : call.phase = .parked) : Change codec decode self (.poll index false) self
  | cancelled {index : ℕ} {call : Call τ} (hcall : self.calls[index]? = some call) :
      Change codec decode self (.cancel index) (self.move index call .dropped)

section Steps

variable {codec : Codec ν} {decode : Topic → ν → Option τ} {self after : Consumers ν τ}

theorem step_change {a : Action} (h : self.step codec decode a = some after) :
    Change codec decode self a after := by
  cases a with
  | connection ev =>
    obtain ⟨hpmt, h⟩ := of_guard h
    obtain ⟨connection, hst, h⟩ := bind_eq_some_iff.mp h
    cases h
    exact .connected hpmt hst
  | tryNext task =>
    obtain ⟨hav, h⟩ := of_guard h
    cases h
    exact .tried hav
  | next task =>
    obtain ⟨hav, h⟩ := of_guard h
    cases h
    refine .called rfl ?_
    intro other hm
    rw [mem_singleton.mp hm]
    exact hav
  | nextFrom tasks =>
    obtain ⟨⟨-, hav⟩, h⟩ := of_guard h
    cases h
    exact .called rfl (all_eq_true.mp hav)
  | poll i expired =>
    obtain ⟨call, hc, h⟩ := bind_eq_some_iff.mp h
    cases hp : call.phase with
    | begun =>
      simp only [hp] at h
      cases h
      exact .polled expired hc (Or.inl hp)
    | woken =>
      simp only [hp] at h
      cases h
      exact .polled expired hc (Or.inr hp)
    | parked =>
      simp only [hp] at h
      cases expired with
      | true =>
        cases h
        exact .overslept hc hp
      | false =>
        cases h
        exact .slept hc hp
    | ended ans | dropped =>
      simp only [hp] at h
      cases h
  | cancel i =>
    obtain ⟨call, hc, h⟩ := bind_eq_some_iff.mp h
    obtain ⟨-, h⟩ := of_guard h
    cases h
    exact .cancelled hc

/-- What holds at every await. -/
structure Sound (codec : Codec ν) (decode : Topic → ν → Option τ) (consumers : Consumers ν τ) :
    Prop where
  delivered : Delivered codec decode consumers.connection consumers.routed consumers.returned
  attended : Attended consumers

theorem held_of_available {tasks : List ℕ} (h : ∀ task ∈ tasks, self.available task = true) :
    Holds self.connection tasks := by
  intro task hm
  obtain ⟨hf, -⟩ := Bool.and_eq_true_iff.mp (h task hm)
  obtain ⟨found, ht, hp⟩ := (any_eq_true _ _).mp hf
  exact ⟨found, ht, of_decide_eq_true hp⟩

variable {subs : List ℕ}

/-- **A look at subscriptions that are held** keeps everything. -/
theorem Sound.looked (h : Sound codec decode self) (hheld : Holds self.connection subs) :
    Sound codec decode (self.look decode subs).2 := by
  refine ⟨h.delivered.observed ?_, h.attended.looked subs⟩
  intro task hm
  obtain ⟨i, hi, ht⟩ := mem_filterMap.mp hm
  obtain ⟨found, hf, hp⟩ := hheld i hi
  cases ht.symm.trans hf
  exact ⟨i, ht, hp⟩

theorem idle_of_look (hne : subs ≠ []) (hheld : Holds self.connection subs)
    (h : (self.look decode subs).1 = .ok none) :
    Idle (self.look decode subs).2.connection subs := by
  simp only [look] at h ⊢
  have hspec := self.connection.observe_spec decode
    (subs.filterMap fun task => self.connection.tasks[task]?)
  generalize self.connection.observe decode _ = observed at hspec h ⊢
  cases hspec with
  | empty hopen hrd hem =>
    have hrd := hrd.resolve_right (hheld.tasks_ne_nil hne)
    refine ⟨hopen, hrd, ?_⟩
    intro i hi task ht evs hevs
    have hm := mem_filterMap.mpr ⟨i, hi, ht⟩
    exact pop_of_filled hrd (hem task hm) hevs
  | _ => cases h

theorem Sound.polled (h : Sound codec decode self) {i : ℕ} {call : Call τ}
    (hc : self.calls[i]? = some call) (hl : call.phase.live = true) (expired : Bool) :
    Sound codec decode (self.pollAwake decode i call expired) := by
  have hm := mem_of_getElem? hc
  have hheld := h.attended.held call hm hl
  unfold pollAwake
  split
  · refine ⟨h.delivered, h.attended.moved hm ?_ ?_⟩
    · exact fun hend => by cases hend
    · exact fun hend => by cases hend
  · rename_i hne
    have hlkd := h.looked hheld
    dsimp only
    split
    · rename_i hn
      refine ⟨hlkd.delivered, hlkd.attended.moved hm (fun _ => hl) ?_⟩
      exact fun _ => idle_of_look hne hheld hn
    · refine ⟨hlkd.delivered, hlkd.attended.moved hm ?_ ?_⟩
      · exact fun hend => by cases hend
      · exact fun hend => by cases hend

theorem Sound.change (h : Sound codec decode self) {a : Action}
    (hch : Change codec decode self a after) : Sound codec decode after := by
  cases hch with
  | @connected ev connection hpmt hst =>
    have hpop : ∀ i, ev ≠ .pop i := by
      rintro i rfl
      cases hpmt
    have hfollows := Connection.step_follows hst hpop
    exact ⟨h.delivered.connected hst hpop, h.attended.connected hpmt hfollows _⟩
  | @tried task hav =>
    have hlkd := h.looked (held_of_available (forall_mem_singleton.mpr hav))
    refine ⟨hlkd.delivered, hlkd.attended.called _ ?_ ?_⟩
    · exact fun hend => by cases hend
    · exact fun hend => by cases hend
  | called hbgs hav =>
    refine ⟨h.delivered, h.attended.called _ ?_ ?_⟩
    · exact fun hbg => by cases hbg
    · exact fun _ => held_of_available hav
  | polled expired hc hp =>
    exact h.polled hc (CallPhase.live_of_awake hp) expired
  | overslept hc hp =>
    refine ⟨h.delivered, h.attended.moved (mem_of_getElem? hc) ?_ ?_⟩
    · exact fun hend => by cases hend
    · exact fun hend => by cases hend
  | slept => exact h
  | cancelled hc =>
    refine ⟨h.delivered, h.attended.moved (mem_of_getElem? hc) ?_ ?_⟩
    · exact fun hdropped => by cases hdropped
    · exact fun hdropped => by cases hdropped

theorem Reachable.sound (h : Reachable codec decode self) : Sound codec decode self :=
  Machine.Reachable.induction h ⟨delivered_init, attended_init⟩
    fun _ _ _ hsd hst => hsd.change (step_change hst)

/-! ### What the calls return -/

theorem map_eq_of_all {f : ν → Option τ} {evs : List ν}
    (h : ∀ ev ∈ evs, (f ev).isSome = true) :
    evs.map f = (evs.filterMap f).map some := by
  induction evs with
  | nil => rfl
  | cons ev rest ih =>
    obtain ⟨v, hval⟩ := isSome_iff_exists.mp (h ev mem_cons_self)
    rw [map_cons, filterMap_cons_some hval, map_cons, hval,
      ih fun other hm => h other (mem_cons_of_mem _ hm)]

theorem Delivered.split {routed : List (ℕ × ν)} {returned : List (ℕ × τ)}
    (h : Delivered codec decode connection routed returned) {task : Task}
    (hm : task ∈ connection.tasks)
    (hall : ∀ ev ∈ about task.key routed, (decode task.topic ev).isSome = true) : ∃ waiting,
    (about task.key routed).map (decode task.topic) = (about task.key returned ++ waiting).map some
    ∧ ∀ evs, connection.router.state.byKey.lookup task.key = some evs → evs.map (decode task.topic)
    = waiting.map some := by
  obtain ⟨rest, hr⟩ := h.ordered task.key
  have hrestAll : ∀ ev ∈ rest, (decode task.topic ev).isSome = true := by
    intro ev hev
    refine hall ev ?_
    rw [← hr]
    exact mem_append_right _ hev
  refine ⟨rest.filterMap (decode task.topic), ?_, ?_⟩
  · rw [map_eq_of_all hall, ← hr, filterMap_append, h.given task hm]
  · intro evs hevs
    have hsm := (h.buffered task.key evs hevs).trans hr.symm
    rw [append_cancel_left hsm]
    exact map_eq_of_all hrestAll

variable (decode) in
theorem look_malformed (hne : subs ≠ []) (hheld : Holds self.connection subs)
    (h : self.connection.router.state.malformed ≠ 0) :
    ∃ failure, self.look decode subs = (.error failure, self) := by
  have hsm : self.returned ++ [] = self.returned := append_nil _
  simp only [look]
  have hspec := self.connection.observe_spec decode
    (subs.filterMap fun task => self.connection.tasks[task]?)
  generalize self.connection.observe decode _ = observed at hspec ⊢
  cases hspec with
  | closed | malformed =>
    simp only [handed, hsm]
    exact ⟨_, rfl⟩
  | empty _ hrd => exact absurd (hrd.resolve_right (hheld.tasks_ne_nil hne)) h
  | returned hrd | lost hrd => exact absurd hrd h

theorem tryNext_malformed {task : ℕ} (h : self.connection.router.state.malformed ≠ 0)
    (hst : self.step codec decode (.tryNext task) = some after) :
    ∃ failure, after = { self with calls := self.calls ++ [⟨[task], .ended (.error failure)⟩] } := by
  cases step_change hst with
  | tried hav =>
    obtain ⟨failure, hlook⟩ := look_malformed decode (cons_ne_nil task [])
      (held_of_available (forall_mem_singleton.mpr hav)) h
    rw [hlook]
    exact ⟨failure, rfl⟩
  | called hbgs => cases hbgs

theorem poll_malformed (hattended : Attended self) {i : ℕ} {expired : Bool}
    (h : self.connection.router.state.malformed ≠ 0)
    (hst : self.step codec decode (.poll i expired) = some after) :
    ∃ call failure, self.calls[i]? = some call ∧
      after = self.move i call (.ended (.error failure)) := by
  cases step_change hst with
  | @polled _ call _ hc hp =>
    rw [pollAwake]
    split
    · exact ⟨call, .noSubscriptions, hc, rfl⟩
    · rename_i hne
      have hheld := hattended.held call (mem_of_getElem? hc) (CallPhase.live_of_awake hp)
      obtain ⟨failure, hlook⟩ := look_malformed decode hne hheld h
      rw [hlook]
      exact ⟨call, failure, hc, rfl⟩
  | overslept hc hp | slept hc hp =>
    exact absurd (hattended.asleep _ (mem_of_getElem? hc) hp).read h
  | called hbgs => cases hbgs

/-- **Events are taken in order.** However notifications and calls come, and whichever calls are
dropped or time out: the events returned for a subscription, followed by those in its buffer, are
the readable payloads that were routed to it, in this order, as far as they are of its type. A call
sleeps only while there is nothing for it. After something unreadable nobody sleeps, and every
`try_next` and every poll fails and takes nothing. -/
theorem events_taken_in_order (h : Reachable codec decode self) :
    (∀ task ∈ self.connection.tasks,
      (∀ event ∈ about task.key self.routed, (decode task.topic event).isSome = true) →
      ∃ waiting, (about task.key self.routed).map (decode task.topic) =
          (about task.key self.returned ++ waiting).map some ∧
        ∀ events, self.connection.router.state.byKey.lookup task.key = some events →
          events.map (decode task.topic) = waiting.map some) ∧
    (∀ call ∈ self.calls, call.phase = .parked → Idle self.connection call.subscriptions) ∧
    (self.connection.router.state.malformed ≠ 0 →
      (∀ call ∈ self.calls, call.phase ≠ .parked) ∧
      (∀ task after, self.step codec decode (.tryNext task) = some after → ∃ failure,
        after = { self with calls := self.calls ++ [⟨[task], .ended (.error failure)⟩] }) ∧
      ∀ index expired after, self.step codec decode (.poll index expired) = some after →
        ∃ call failure, self.calls[index]? = some call ∧
          after = self.move index call (.ended (.error failure))) := by
  have hsound := h.sound
  refine ⟨fun task hmem => hsound.delivered.split hmem, hsound.attended.asleep, ?_⟩
  intro hmalformed
  refine ⟨?_, fun _ _ => tryNext_malformed hmalformed,
    fun _ _ _ => poll_malformed hsound.attended hmalformed⟩
  intro call hmem hparked
  exact hmalformed (hsound.attended.asleep call hmem hparked).read

/-- Two subscriptions, a call of both that sleeps and is cancelled when the first event is there,
and a second call that gets it. -/
def cancelledCall : List Action :=
  (Connection.twoSubscriptions "7" "8").dropLast.map Action.connection ++
    [.nextFrom [1, 0], .poll 0 false, .connection (Connection.sampleNotification 7 "one"),
      .cancel 0, .connection (Connection.sampleNotification 7 "two"), .next 0, .poll 1 false]

def cancelledState : Consumers String String :=
  Machine.goOn (step Connection.twoIds fun _ event => some event) init cancelledCall

theorem events_taken_in_order_cancelled :
    about 1 cancelledState.routed = ["one", "two"] ∧ about 1 cancelledState.returned = ["one"] ∧
      ∃ waiting, ["one", "two"].map some = (["one"] ++ waiting).map some ∧
        ["two"].map some = waiting.map some := by
  have hreached : Reachable Connection.twoIds (fun _ event => some event) cancelledState :=
    Machine.reachable_goOn _ _
  have hrouted : about 1 cancelledState.routed = ["one", "two"] := by decide +kernel
  have hreturned : about 1 cancelledState.returned = ["one"] := by decide +kernel
  have hmem : ⟨1, .slot, "[]", true, 1, .held⟩ ∈ cancelledState.connection.tasks := by
    decide +kernel
  obtain ⟨waiting, hsplit, hbuffer⟩ := (events_taken_in_order hreached).1 _ hmem fun _ _ => rfl
  refine ⟨hrouted, hreturned, waiting, ?_, hbuffer ["two"] (by decide +kernel)⟩
  rwa [hrouted, hreturned] at hsplit

end Steps

end Consumers

end Events

end Redsuite
