import Redsuite.Confirmation

/-!
# Subscriptions of one's own

The calls of `core/src/api/wait.rs` open their subscriptions themselves, and nobody else uses them.
-/

namespace Redsuite

open List Option

namespace Events

variable {ν τ : Type} {a : Action}

def Action.sparesCall (own : Option ℕ) : Action → Bool
  | .poll call _ => own ≠ some call
  | .cancel call => own ≠ some call
  | _ => true

theorem Action.sparesCall_of_spares {index : ℕ} {own : Option ℕ}
    (h : a.spares index own = true) : a.sparesCall own = true := by
  cases a with
  | poll call expired => exact h
  | cancel call => exact h
  | _ => rfl

/-! ### What the calls of a connection keep -/

/-- Nothing happened but that events were taken. -/
inductive Quiet (before : List (Entry ν)) : List (Entry ν) → Prop where
  | refl : Quiet before before
  | taken {after : List (Entry ν)} (h : Quiet before after) (key : ℕ) (event : ν) :
      Quiet before (after ++ [.taken key event])

theorem Quiet.trans {before after last : List (Entry ν)} (h : Quiet before after)
    (hla : Quiet after last) : Quiet before last := by
  induction hla with
  | refl => exact h
  | taken _ key ev ih => exact ih.taken key ev

/-- The tasks stay where they are, nothing is routed, and events were taken at most. -/
structure Still (before after : Consumers ν τ) : Prop where
  tasks : after.connection.tasks = before.connection.tasks
  routed : after.routed = before.routed
  quiet : Quiet before.connection.log after.connection.log

theorem Still.refl (cs : Consumers ν τ) : Still cs cs := ⟨rfl, rfl, .refl⟩

theorem Still.trans {before after last : Consumers ν τ} (h : Still before after)
    (hla : Still after last) : Still before last :=
  ⟨hla.tasks.trans h.tasks, hla.routed.trans h.routed, h.quiet.trans hla.quiet⟩

namespace Consumers

variable {codec : Codec ν} {decode : Topic → ν → Option τ} {self after : Consumers ν τ}
  {i p : ℕ} {call : Call τ} {phase : CallPhase τ}

theorem look_still (decode : Topic → ν → Option τ) (self : Consumers ν τ)
    (subscriptions : List ℕ) : Still self (self.look decode subscriptions).2 := by
  refine ⟨observe_tasks self.connection _, rfl, ?_⟩
  simp only [look]
  have hspec := self.connection.observe_spec decode
    (subscriptions.filterMap fun task => self.connection.tasks[task]?)
  generalize self.connection.observe decode _ = observed at hspec ⊢
  cases hspec with
  | closed | malformed | empty => exact .refl
  | returned | lost => exact .taken .refl _ _

theorem step_still (h : self.step codec decode a = some after)
    (haction : ∀ ev, a ≠ .connection ev) : Still self after := by
  cases step_change h with
  | connected => exact absurd rfl (haction _)
  | tried =>
    obtain ⟨hts, hrtd, hq⟩ := self.look_still decode [_]
    exact ⟨hts, hrtd, hq⟩
  | @polled p call expired hc hp =>
    rcases self.pollAwake_cases decode p call expired with ⟨-, heq⟩ | ⟨-, heq⟩
    · rw [heq]
      exact ⟨rfl, rfl, .refl⟩
    · rw [heq]
      obtain ⟨hts, hrtd, hq⟩ := self.look_still decode call.subscriptions
      exact ⟨hts, hrtd, hq⟩
  | _ => exact ⟨rfl, rfl, .refl⟩

theorem call_stays (hspr : a.sparesCall (some p) = true) (h : Change codec decode self a after)
    (hc : self.calls[p]? = some call) (hl : call.phase.live = true) : ∃ woken, after.calls[p]? =
    some woken ∧ woken.phase.live = true ∧ woken.subscriptions = call.subscriptions := by
  have ho : ∀ i (other : Call τ) (phase : CallPhase τ), p ≠ i →
      ∃ woken, (self.calls.set i { other with phase })[p]? = some woken ∧
        woken.phase.live = true ∧ woken.subscriptions = call.subscriptions := by
    intro i other phase hne
    refine ⟨call, ?_, hl, rfl⟩
    rw [getElem?_set_ne (Ne.symm hne), hc]
  cases h with
  | @connected ev conn =>
    split
    · refine ⟨call.wake, ?_, ?_, wake_subscriptions call⟩
      · rw [getElem?_map, hc]
        rfl
      · rw [wake_live, hl]
    · exact ⟨call, hc, hl, rfl⟩
  | tried | called => exact ⟨call, getElem?_append_of hc _, hl, rfl⟩
  | @polled i other expired =>
    have hne : p ≠ i := by simpa [Action.sparesCall] using hspr
    rcases self.pollAwake_cases decode i other expired with ⟨-, heq⟩ | ⟨-, heq⟩
    · rw [heq]
      exact ho i other _ hne
    · rw [heq]
      exact ho i other _ hne
  | slept => exact ⟨call, hc, hl, rfl⟩
  | overslept | cancelled => exact ho _ _ _ (by simpa [Action.sparesCall] using hspr)

theorem answer_move (phase : CallPhase τ) (h : self.calls[p]? = some call) :
    (self.move p call phase).answer p =
      match phase with
      | .ended answer => some answer
      | _ => none := by
  simp only [answer, move, getElem?_set_of h _]
  cases phase <;> rfl

theorem Owned.over (h : self.Owned i (some p)) (hover : phase.live = false) :
    (self.move p call phase).Owned i none := by
  intro other found hf hl hm
  obtain ⟨-, rfl⟩ | ⟨hne, hold⟩ := of_getElem?_set hf
  · cases hover.symm.trans hl
  · exact absurd (some.inj (h other found hold hl hm)).symm hne

def heard (self : Consumers ν τ) (index : ℕ) : List ν := taken (index + 1) self.connection.log

theorem Fit.heard_eq (h : self.Fit codec decode) {task : Task}
    (ht : self.connection.tasks[i]? = some task) :
    taken task.key self.connection.log = self.heard i := by
  rw [heard, (h.sound.delivered.reached.inv Connection.inv_init).keys i task ht]

/-- What a look may say, and what it leaves. -/
inductive Looked (decode : Topic → ν → Option τ) (topic : Topic) (self : Consumers ν τ)
    (subscriptions : List ℕ) (after : Connection ν) : Answer τ → Prop where
  | nothing (hheard : ∀ index, taken (index + 1) after.log = self.heard index) :
      Looked decode topic self subscriptions after (.ok none)
  | failed (failure : Failure) : Looked decode topic self subscriptions after (.error failure)
  | found {update : Update τ} (event : ν) (index : ℕ)
      (hindex : subscriptions[update.index]? = some index)
      (hdecode : decode topic event = some update.event)
      (hheard : taken (index + 1) after.log = self.heard index ++ [event])
      (hothers : ∀ other, other ≠ index → taken (other + 1) after.log = self.heard other) :
      Looked decode topic self subscriptions after (.ok (some update))

end Consumers

/-! ### The subscriptions of a call -/

/-- A call has these subscriptions of a topic for itself. The first of them are open, and it waits
in the given `next` or `next_from`. -/
structure Owns (codec : Codec ν) (decode : Topic → ν → Option τ) (topic : Topic)
    (consumers : Consumers ν τ) (subscriptions : List ℕ) (own : Option ℕ) (held : ℕ) : Prop where
  fit : consumers.Fit codec decode
  nodup : subscriptions.Nodup
  task : ∀ place index, subscriptions[place]? = some index →
    ∃ task : Task, consumers.connection.tasks[index]? = some task ∧ task.topic = topic ∧
      (place < held → task.phase = .held)
  owned : ∀ index ∈ subscriptions, consumers.Owned index own
  /-- the call of `next` or `next_from` -/
  call : ∀ place, own = some place → ∃ call, consumers.calls[place]? = some call ∧
    call.phase.live = true ∧ call.subscriptions = subscriptions

namespace Owns

variable {codec : Codec ν} {decode : Topic → ν → Option τ} {topic : Topic}
  {self after : Consumers ν τ} {subscriptions : List ℕ} {own : Option ℕ} {held : ℕ}

theorem start (h : self.Fit codec decode) (topic : Topic) :
    Owns codec decode topic self [] none 0 where
  fit := h
  nodup := nodup_nil
  task p i hi := by cases hi
  owned i hm := by cases hm
  call p hpl := by cases hpl

section

variable (h : Owns codec decode topic self subscriptions own held)

include h

theorem task_of_mem {i : ℕ} (hm : i ∈ subscriptions) :
    ∃ task : Task, self.connection.tasks[i]? = some task := by
  obtain ⟨p, hpl⟩ := mem_iff_getElem?.mp hm
  obtain ⟨task, ht, -⟩ := h.task p i hpl
  exact ⟨task, ht⟩

theorem spared (hc : a.sparesCall own = true) (hspr : ∀ i ∈ subscriptions, a.spares i own = true)
    (hch : Consumers.Change codec decode self a after) : Owns codec decode topic after subscriptions
    own held ∧ ∀ i ∈ subscriptions, after.heard i = self.heard i := by
  have hspared : ∀ i ∈ subscriptions, Consumers.Spared self after i own := fun i hm =>
    Consumers.step_spares h.fit.sound (h.owned i hm) (hspr i hm) hch
  refine ⟨⟨h.fit.change hch, h.nodup, ?_, fun i hm => (hspared i hm).owned, ?_⟩, ?_⟩
  · intro p i hi
    obtain ⟨task, ht, htop, hheld⟩ := h.task p i hi
    obtain ⟨moved, hmv, hnm, hsty, -⟩ :=
      (hspared i (mem_of_getElem? hi)).task task ht
    exact ⟨moved, hmv, (congrArg Prod.snd hnm).trans htop, fun hlt => hsty (hheld hlt)⟩
  · rintro p rfl
    obtain ⟨call, hpl, hl, hsubs⟩ := h.call p rfl
    obtain ⟨woken, hwoken, hwokenLive, hsm⟩ :=
      Consumers.call_stays hc hch hpl hl
    exact ⟨woken, hwoken, hwokenLive, hsm.trans hsubs⟩
  · intro i hm
    obtain ⟨task, ht⟩ := h.task_of_mem hm
    obtain ⟨-, -, -, -, htk⟩ := (hspared i hm).task task ht
    rw [← h.fit.heard_eq ht, ← htk, Consumers.heard,
      (h.fit.sound.delivered.reached.inv Connection.inv_init).keys i task ht]

theorem opened {i : ℕ} {task : Task} (hi : subscriptions[held]? = some i)
    (ht : self.connection.tasks[i]? = some task) (hheld : task.phase = .held) :
    Owns codec decode topic self subscriptions own (held + 1) := by
  refine ⟨h.fit, h.nodup, ?_, h.owned, h.call⟩
  intro p other ho
  obtain ⟨found, hf, htop, hp⟩ := h.task p other ho
  refine ⟨found, hf, htop, fun hlt => ?_⟩
  rcases Nat.lt_succ_iff_lt_or_eq.mp hlt with hlt | rfl
  · exact hp hlt
  · cases hi.symm.trans ho
    cases ht.symm.trans hf
    exact hheld

end

section

variable (h : Owns codec decode topic self subscriptions none held)

include h

theorem subscribed {params : String}
    (hst : self.step codec decode (.connection (.subscribe true topic params)) = some after)
    (hheld : held ≤ subscriptions.length) : Owns codec decode topic after
    (subscriptions ++ [self.connection.tasks.length]) none held ∧ after.heard
    self.connection.tasks.length = [] ∧ ∀ i ∈ subscriptions, after.heard i = self.heard i := by
  have hch := Consumers.step_change hst
  obtain ⟨hold, hhd⟩ := h.spared rfl (fun _ _ => rfl) hch
  have hdel := h.fit.sound.delivered
  have hla : self.connection.router.state.lastKey = self.connection.tasks.length :=
    (hdel.reached.inv Connection.inv_init).last
  obtain ⟨-, hst⟩ := of_guard hst
  cases hst
  have hfr : self.connection.tasks.length ∉ subscriptions := by
    intro hm
    obtain ⟨task, ht⟩ := h.task_of_mem hm
    exact absurd (lt_of_getElem? ht) (Nat.lt_irrefl _)
  refine ⟨⟨hold.fit, ?_, ?_, ?_, fun p hpl => by cases hpl⟩, ?_, hhd⟩
  · refine h.nodup.append (nodup_singleton _) ?_
    intro i hm hnew
    rw [mem_singleton.mp hnew] at hm
    exact hfr hm
  · intro p i hi
    obtain ⟨rfl, rfl⟩ | ⟨-, hi⟩ := of_getElem?_concat hi
    · exact ⟨_, getElem?_concat_length, rfl, fun hlt => absurd hlt (Nat.not_lt.mpr hheld)⟩
    · exact hold.task p i hi
  · intro i hm
    rcases mem_concat.mp hm with hm | rfl
    · exact hold.owned i hm
    · -- calls have subscriptions that were there before
      intro p call hc hl hin
      obtain ⟨task, ht, -⟩ :=
        h.fit.sound.attended.held call (mem_of_getElem? hc) hl _ hin
      exact absurd (lt_of_getElem? ht) (Nat.lt_irrefl _)
  · -- nothing was taken from a key that is just given out
    have hprefix := hdel.ordered (self.connection.router.state.lastKey + 1)
    rw [Consumers.about_fresh hdel.routedLe (Nat.lt_succ_self _), hla] at hprefix
    exact prefix_nil.mp hprefix

theorem available (hall : subscriptions.length ≤ held) :
    ∀ i ∈ subscriptions, self.available i = true := by
  intro i hm
  obtain ⟨p, hpl⟩ := mem_iff_getElem?.mp hm
  obtain ⟨task, ht, -, hp⟩ := h.task p i hpl
  have hheld := hp (Nat.lt_of_lt_of_le (lt_of_getElem? hpl) hall)
  refine Bool.and_eq_true_iff.mpr ⟨?_, ?_⟩
  · rw [ht]
    exact decide_eq_true hheld
  · refine all_eq_true.mpr ?_
    intro call hc
    obtain ⟨other, ho⟩ := mem_iff_getElem?.mp hc
    refine (Bool.not_eq_true' _).mpr (Bool.eq_false_iff.mpr ?_)
    intro hused
    obtain ⟨hl, hin⟩ := Bool.and_eq_true_iff.mp hused
    cases h.owned i hm other call ho hl (contains_iff_mem.mp hin)

theorem called (a : Action) (hbgs : a.begins = some subscriptions)
    (hall : subscriptions.length ≤ held) :
    Owns codec decode topic { self with calls := self.calls ++ [⟨subscriptions, .begun⟩] }
      subscriptions (some self.calls.length) held := by
  refine ⟨h.fit.change (.called hbgs (h.available hall)), h.nodup, h.task, ?_, ?_⟩
  · intro i hm p call hc hl hin
    obtain ⟨rfl, -⟩ | ⟨-, hc⟩ := of_getElem?_concat hc
    · rfl
    · cases h.owned i hm p call hc hl hin
  · rintro p hpl
    cases hpl
    exact ⟨_, getElem?_concat_length, rfl, rfl⟩

end

theorem tasks_getElem? {tasks : List Task} (h : ∀ i ∈ subscriptions, ∃ task,
    tasks[i]? = some task) (p : ℕ) :
    (subscriptions.filterMap fun i => tasks[i]?)[p]? =
      subscriptions[p]?.bind fun i => tasks[i]? := by
  induction subscriptions generalizing p with
  | nil => rfl
  | cons i rest ih =>
    obtain ⟨task, ht⟩ := h i mem_cons_self
    rw [filterMap_cons_some ht]
    cases p with
    | zero => exact ht.symm
    | succ p =>
      exact ih (fun other hm => h other (mem_cons_of_mem _ hm)) p

theorem looked (h : Owns codec decode topic self subscriptions own held) :
    Consumers.Looked decode topic self subscriptions
      (self.look decode subscriptions).2.connection (self.look decode subscriptions).1 := by
  simp only [Consumers.look]
  have hspec := self.connection.observe_spec decode
    (subscriptions.filterMap fun i => self.connection.tasks[i]?)
  generalize self.connection.observe decode _ = observed at hspec ⊢
  cases hspec with
  | closed | malformed | lost => exact .failed _
  | empty => exact .nothing fun _ => rfl
  | @returned found task ev v s _ hpl _ hdec =>
    rw [tasks_getElem? fun _ => h.task_of_mem] at hpl
    obtain ⟨i, hi, ht⟩ := bind_eq_some_iff.mp hpl
    obtain ⟨other, ho, htop, -⟩ := h.task found i hi
    cases ht.symm.trans ho
    rw [htop] at hdec
    have hk := (h.fit.sound.delivered.reached.inv Connection.inv_init).keys i task ht
    refine .found ev i ?_ hdec ?_ ?_
    · rw [Nat.zero_add]
      exact hi
    · rw [Consumers.taken_popped, hk, if_pos rfl]
      rfl
    · intro n hne
      rw [Consumers.taken_popped, if_neg (by omega), append_nil]
      rfl

theorem still (h : Owns codec decode topic self subscriptions own held)
    (hfit : after.Fit codec decode) (hstl : Still self after) {own' : Option ℕ}
    (howned : ∀ i ∈ subscriptions, after.Owned i own')
    (hc : ∀ p, own' = some p → ∃ call, after.calls[p]? = some call ∧
      call.phase.live = true ∧ call.subscriptions = subscriptions) :
    Owns codec decode topic after subscriptions own' held := by
  refine ⟨hfit, h.nodup, ?_, howned, hc⟩
  rw [hstl.tasks]
  exact h.task

theorem tryNext {i : ℕ} (h : Owns codec decode topic self [i] none held)
    (hheld : 0 < held) :
    ∃ after, self.step codec decode (.tryNext i) = some after ∧
      after.answer self.calls.length = some (self.look decode [i]).1 ∧
      Consumers.Looked decode topic self [i] after.connection (self.look decode [i]).1 ∧
      Owns codec decode topic after [i] none held := by
  have hav := h.available hheld i (mem_singleton_self i)
  have hcls : (self.look decode [i]).2.calls = self.calls := rfl
  have hst : self.step codec decode (.tryNext i) =
      some { (self.look decode [i]).2 with
        calls := self.calls ++ [⟨[i], .ended (self.look decode [i]).1⟩] } := by
    simp [Consumers.step, hav, hcls]
  refine ⟨_, hst, ?_, h.looked, ?_⟩
  · simp only [Consumers.answer, getElem?_concat_length]
  · refine h.still (h.fit.change (Consumers.step_change hst))
      (Consumers.step_still hst fun _ hne => by cases hne) ?_ fun p hpl => by cases hpl
    intro other hm p call hc
    exact (h.owned other hm).called (by rintro ⟨⟩) hc

/-- What a poll of the call of `next` or `next_from` comes to. -/
inductive Polled (codec : Codec ν) (decode : Topic → ν → Option τ) (topic : Topic)
    (self : Consumers ν τ) (subscriptions : List ℕ) (place held : ℕ) (after : Consumers ν τ) :
    Prop where
  | waits (hanswer : after.answer place = none)
      (howns : Owns codec decode topic after subscriptions (some place) held)
      (hheard : ∀ index, after.heard index = self.heard index)
  | failed (failure : Failure) (hanswer : after.answer place = some (.error failure))
      (hfit : after.Fit codec decode)
  | found (update : Update τ) (event : ν) (index : ℕ)
      (hanswer : after.answer place = some (.ok (some update)))
      (hindex : subscriptions[update.index]? = some index)
      (hdecode : decode topic event = some update.event)
      (hheard : after.heard index = self.heard index ++ [event])
      (hothers : ∀ other, other ≠ index → after.heard other = self.heard other)
      (howns : Owns codec decode topic after subscriptions none held)

theorem polled_awake {p : ℕ} {call : Call τ}
    (h : Owns codec decode topic self subscriptions (some p) held)
    (hc : self.calls[p]? = some call) (hawk : call.phase = .begun ∨ call.phase = .woken)
    (hsubs : call.subscriptions = subscriptions) (expired : Bool) :
    Polled codec decode topic self subscriptions p held
      (self.pollAwake decode p call expired) := by
  have hfit : (self.pollAwake decode p call expired).Fit codec decode :=
    h.fit.change (.polled expired hc hawk)
  rcases self.pollAwake_cases decode p call expired with ⟨-, heq⟩ | ⟨-, heq⟩
  · rw [heq] at hfit ⊢
    exact .failed _ (Consumers.answer_move _ hc) hfit
  · rw [hsubs] at heq
    rw [heq] at hfit ⊢
    have hlkd := h.looked
    have hc' : (self.look decode subscriptions).2.calls[p]? = some call := hc
    have hstl : ∀ phase, Still self ((self.look decode subscriptions).2.move p call phase) := by
      intro phase
      obtain ⟨hts, hrtd, hq⟩ := self.look_still decode subscriptions
      exact ⟨hts, hrtd, hq⟩
    generalize (self.look decode subscriptions).1 = answer at hfit hlkd ⊢
    cases hlkd with
    | failed failure => exact .failed failure (Consumers.answer_move _ hc') hfit
    | @found update ev i hi hdec hhd hos =>
      refine .found update ev i (Consumers.answer_move _ hc') hi hdec hhd hos
        (h.still hfit (hstl _) ?_ fun other ho => by cases ho)
      intro other hm
      have howned : (self.look decode subscriptions).2.Owned other (some p) := h.owned other hm
      exact howned.over rfl
    | nothing hhd =>
      cases expired with
      | true => exact .failed .timedOut (Consumers.answer_move _ hc') hfit
      | false =>
        refine .waits (Consumers.answer_move _ hc') (h.still hfit (hstl _) ?_ ?_) hhd
        · intro i hm other found hf
          exact (h.owned i hm).moved hc (fun _ => CallPhase.live_of_awake hawk) hf
        · rintro other ho
          cases ho
          exact ⟨_, getElem?_set_of hc _, rfl,
            hsubs⟩

/-- **A poll of the call of `next` or `next_from`.** -/
theorem polled {p : ℕ} (h : Owns codec decode topic self subscriptions (some p) held)
    {expired : Bool} (hst : self.step codec decode (.poll p expired) = some after) :
    Polled codec decode topic self subscriptions p held after := by
  obtain ⟨call, hc, hl, hsubs⟩ := h.call p rfl
  cases Consumers.step_change hst with
  | called hbgs => cases hbgs
  | polled _ hf hawk =>
    cases hc.symm.trans hf
    exact h.polled_awake hc hawk hsubs expired
  | overslept hf hp =>
    exact .failed .timedOut (Consumers.answer_move _ hf)
      (h.fit.change (.overslept hf hp))
  | slept =>
    refine .waits ?_ h fun _ => rfl
    obtain ⟨tasks, phase⟩ := call
    cases phase with
    | ended ans => cases hl
    | _ => simp only [Consumers.answer, hc]

end Owns

end Events

end Redsuite
