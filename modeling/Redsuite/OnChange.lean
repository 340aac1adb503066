import Redsuite.Channel
import Redsuite.Machine

/-!
# Waiting for a change

A model of `on_change` of `core/src/wait.rs`, which most waits of the suite go through.
-/

namespace Redsuite

open Option

/-- What a call of `on_change` waits on: a state that others change, and the closure that looks
at it. -/
structure Subject (σ ε φ α : Type) where
  /-- what the others do; nothing where it cannot happen -/
  change : σ → ε → Option σ
  /-- they call `notify_waiters` afterwards -/
  announces : σ → ε → Bool
  /-- `observe`, which may take what it returns out of the state -/
  observe : σ → Except φ (Option α) × σ

variable {σ ε φ α : Type}

/-- What `observe()?` returns from the loop, if it does. -/
def answered : Except φ (Option α) → Option (Except φ α)
  | .ok none => none
  | .ok (some value) => some (.ok value)
  | .error failure => some (.error failure)

def Subject.result (self : Subject σ ε φ α) (shared : σ) : Option (Except φ α) :=
  answered (self.observe shared).1

namespace OnChange

/-! ### The call -/

/-- Where the call is. -/
inductive Phase (φ α : Type) : Type where
  | looping
  /-- its `Notified` is enabled since there were so many broadcasts -/
  | enabled (seen : ℕ)
  /-- it has looked, and awaits its `Notified` -/
  | asleep (seen : ℕ)
  | returned (result : Except φ α)
  | timedOut

def Phase.waits : Phase φ α → Bool
  | .looping | .enabled _ | .asleep _ => true
  | .returned _ | .timedOut => false

/-- The state, and the call that waits for it. -/
structure State (σ φ α : Type) where
  shared : σ
  /-- `changed` -/
  changed : Notify
  /-- somebody has changed the state and is yet to notify; not in the source -/
  due : Bool
  phase : Phase φ α

/-- What can happen next. -/
inductive Event (ε : Type) : Type where
  | change (event : ε)
  /-- `notify_waiters` is called -/
  | notify
  /-- the call makes a `Notified` and enables it -/
  | enable
  | observe
  | poll (expired : Bool)

def Event.own : Event ε → Bool
  | .change _ | .notify => false
  | .enable | .observe | .poll _ => true

namespace State

def look (subject : Subject σ ε φ α) (self : State σ φ α) (seen : ℕ) : State σ φ α :=
  { self with
    shared := (subject.observe self.shared).2
    phase := match answered (subject.observe self.shared).1 with
      | some result => .returned result
      | none => .asleep seen }

/-- `time::timeout` polls the loop before it looks at the clock. -/
def poll (self : State σ φ α) (seen : ℕ) (expired : Bool) : State σ φ α :=
  match self.changed.notified seen with
  | .ready () => { self with phase := .looping }
  | .pending => if expired then { self with phase := .timedOut } else self

def step (subject : Subject σ ε φ α) (self : State σ φ α) : Event ε → Option (State σ φ α)
  | .change event =>
    (subject.change self.shared event).map fun shared =>
      { self with shared, due := self.due || subject.announces self.shared event }
  | .notify => some { self with changed := self.changed.notifyWaiters, due := false }
  | .enable =>
    match self.phase with
    | .looping => some { self with phase := .enabled self.changed.count }
    | _ => none
  | .observe =>
    match self.phase with
    | .enabled seen => some (self.look subject seen)
    | _ => none
  | .poll expired =>
    match self.phase with
    | .asleep seen => some (self.poll seen expired)
    | _ => none

/-- States that a run leads to. -/
abbrev Reachable (subject : Subject σ ε φ α) : State σ φ α → State σ φ α → Prop :=
  Machine.Reachable (State.step subject)

end State

/-! ### What is promised -/

/-- The closure has something to return until the call is over. -/
def Stays (subject : Subject σ ε φ α) (state : State σ φ α) (events : List (Event ε)) : Prop :=
  ∀ n middle, Machine.run (State.step subject) state (events.take n) = some middle →
    middle.phase.waits = true → (subject.result middle.shared).isSome = true

/-- Some look of the run saw this result. -/
def Observed (subject : Subject σ ε φ α) (state : State σ φ α) (events : List (Event ε))
    (result : Except φ α) : Prop :=
  ∃ n middle, Machine.run (State.step subject) state (events.take n) = some middle ∧
    subject.result middle.shared = some result

/-- **No wakeup is lost.** Take any call that begins in a state of this kind, and any moment at
which it is not over, all changes were announced and there is something to return. If that stays so,
the call does not time out, and after three steps of its own, no more than one poll, it has returned
something it observed. -/
def NoLostWakeup (subject : Subject σ ε φ α) (kind : σ → Prop) : Prop :=
  ∀ begun state : State σ φ α, begun.phase = .looping → kind begun.shared →
    begun.Reachable subject state → state.phase.waits = true → state.due = false →
    ∀ events last, Machine.run (State.step subject) state events = some last →
      Stays subject state events →
      last.phase ≠ .timedOut ∧
        (3 ≤ events.countP Event.own →
          ∃ result, last.phase = .returned result ∧ Observed subject state events result)

/-- **What the state owes to the wait**, in the states of a kind. -/
structure Announced (subject : Subject σ ε φ α) (kind : σ → Prop) : Prop where
  changes : ∀ {shared after event}, kind shared → subject.change shared event = some after →
    kind after
  looks : ∀ {shared}, kind shared → kind (subject.observe shared).2
  /-- what is not announced gives the wait nothing to see -/
  quiet : ∀ {shared after event}, kind shared → subject.change shared event = some after →
    subject.announces shared event = false → subject.result shared = none →
    subject.result after = none
  vain : ∀ {shared}, kind shared → subject.result shared = none →
    subject.result (subject.observe shared).2 = none

/-! ### A call that sleeps has seen nothing -/

section Asleep

variable {subject : Subject σ ε φ α} {kind : σ → Prop} {self next : State σ φ α}

/-- Who sleeps and is not woken would see nothing, or is about to be woken. -/
structure Sound (subject : Subject σ ε φ α) (kind : σ → Prop) (state : State σ φ α) : Prop where
  shared : kind state.shared
  enabled : ∀ seen, state.phase = .enabled seen → seen ≤ state.changed.count
  asleep : ∀ seen, state.phase = .asleep seen → seen ≤ state.changed.count ∧
    (seen = state.changed.count → state.due = true ∨ subject.result state.shared = none)

theorem sound_begun (hp : self.phase = .looping) (hkind : kind self.shared) :
    Sound subject kind self where
  shared := hkind
  enabled seen h := by
    rw [hp] at h
    cases h
  asleep seen h := by
    rw [hp] at h
    cases h

/-- **The others change the state**: unless they announce it, there is still nothing to see. -/
theorem Sound.change (hann : Announced subject kind) (h : Sound subject kind self)
    {event : ε} {after : σ} (hch : subject.change self.shared event = some after) :
    Sound subject kind
      { self with shared := after, due := self.due || subject.announces self.shared event } where
  shared := hann.changes h.shared hch
  enabled := h.enabled
  asleep seen hp := by
    obtain ⟨hle, hnth⟩ := h.asleep seen hp
    refine ⟨hle, fun hseen => ?_⟩
    rcases hnth hseen with hdue | hn
    · exact .inl (Bool.or_eq_true_iff.mpr (.inl hdue))
    · cases hannounces : subject.announces self.shared event with
      | true => exact .inl (Bool.or_true _)
      | false => exact .inr (hann.quiet h.shared hch hannounces hn)

theorem Sound.notify (h : Sound subject kind self) :
    Sound subject kind { self with changed := self.changed.notifyWaiters, due := false } where
  shared := h.shared
  enabled seen hp := Nat.le_succ_of_le (h.enabled seen hp)
  asleep seen hp := by
    have hlt : seen < self.changed.notifyWaiters.count :=
      Nat.lt_succ_of_le (h.asleep seen hp).1
    exact ⟨Nat.le_of_lt hlt, fun hseen => absurd hseen (Nat.ne_of_lt hlt)⟩

theorem Sound.enable (h : Sound subject kind self) :
    Sound subject kind { self with phase := .enabled self.changed.count } where
  shared := h.shared
  enabled seen hp := by
    cases hp
    exact Nat.le_refl _
  asleep seen hp := by cases hp

/-- **The call looks**, and goes to sleep only where there is nothing to see. -/
theorem Sound.look (hann : Announced subject kind) (h : Sound subject kind self) {seen : ℕ}
    (hp : self.phase = .enabled seen) : Sound subject kind (self.look subject seen) := by
  have hle := h.enabled seen hp
  cases hans : answered (subject.observe self.shared).1 with
  | some r =>
    refine ⟨hann.looks h.shared, fun other ho => ?_, fun other ho => ?_⟩
    · simp only [State.look, hans] at ho
      cases ho
    · simp only [State.look, hans] at ho
      cases ho
  | none =>
    refine ⟨hann.looks h.shared, fun other ho => ?_, fun other ho => ?_⟩
    · simp only [State.look, hans] at ho
      cases ho
    · simp only [State.look, hans] at ho
      cases ho
      exact ⟨hle, fun _ => .inr (hann.vain h.shared hans)⟩

theorem Sound.poll (h : Sound subject kind self) (seen : ℕ) (expired : Bool) :
    Sound subject kind (self.poll seen expired) := by
  rw [State.poll]
  split
  · refine ⟨h.shared, fun other ho => ?_, fun other ho => ?_⟩ <;> cases ho
  · split
    · refine ⟨h.shared, fun other ho => ?_, fun other ho => ?_⟩ <;> cases ho
    · exact h

theorem Sound.step (hann : Announced subject kind) (h : Sound subject kind self)
    {event : Event ε} (hst : self.step subject event = some next) : Sound subject kind next := by
  cases event with
  | change event =>
    obtain ⟨after, hch, rfl⟩ := map_eq_some_iff.mp hst
    exact h.change hann hch
  | notify =>
    cases hst
    exact h.notify
  | enable =>
    simp only [State.step] at hst
    split at hst
    · cases hst
      exact h.enable
    · cases hst
  | observe =>
    simp only [State.step] at hst
    split at hst
    · rename_i seen hp
      cases hst
      exact h.look hann hp
    · cases hst
  | poll expired =>
    simp only [State.step] at hst
    split at hst
    · rename_i seen _
      cases hst
      exact h.poll seen expired
    · cases hst

theorem Sound.reachable (hann : Announced subject kind) (h : Sound subject kind self)
    (hreach : self.Reachable subject next) : Sound subject kind next :=
  hreach.induction h fun _ _ _ hsd hst => hsd.step hann hst

end Asleep

/-! ### A call that is awake returns -/

/-- The call looks, or was woken. -/
def Awake (state : State σ φ α) : Prop :=
  match state.phase with
  | .looping | .enabled _ => True
  | .asleep seen => seen < state.changed.count
  | .returned _ | .timedOut => False

/-- How many steps it is away from the end of a look. -/
def distance (state : State σ φ α) : ℕ :=
  match state.phase with
  | .asleep _ => 3
  | .looping => 2
  | .enabled _ => 1
  | .returned _ | .timedOut => 0

section Awake

variable {subject : Subject σ ε φ α} {kind : σ → Prop} {self next last : State σ φ α}
  {evs : List (Event ε)}

theorem distance_le (s : State σ φ α) : distance s ≤ 3 := by
  unfold distance
  split <;> omega

theorem Sound.awake (h : Sound subject kind self) (hwts : self.phase.waits = true)
    (hdue : self.due = false) (hres : (subject.result self.shared).isSome = true) :
    Awake self := by
  unfold Awake
  cases hp : self.phase with
  | looping => trivial
  | enabled seen => trivial
  | asleep seen =>
    obtain ⟨hle, hnth⟩ := h.asleep seen hp
    refine Nat.lt_of_le_of_ne hle fun hseen => ?_
    rcases hnth hseen with htrue | hn
    · rw [hdue] at htrue
      cases htrue
    · rw [hn] at hres
      cases hres
  | returned r | timedOut =>
    rw [hp] at hwts
    cases hwts

theorem Awake.waits (h : Awake self) : self.phase.waits = true := by
  unfold Awake at h
  cases hp : self.phase with
  | looping => rfl
  | enabled seen => rfl
  | asleep seen => rfl
  | returned r | timedOut => exact absurd h (by simp [hp])

variable {ev : Event ε}

/-- What one step does to a call that is awake while there is something to see: it returns that, or
comes closer to it if the step is its own. -/
theorem Awake.step (h : Awake self) (hres : (subject.result self.shared).isSome = true)
    (hst : self.step subject ev = some next) :
    (∃ r, subject.result self.shared = some r ∧ next.phase = .returned r) ∨
      Awake next ∧ distance next + (if ev.own then 1 else 0) ≤ distance self := by
  cases ev with
  | change ev =>
    obtain ⟨after, -, rfl⟩ := map_eq_some_iff.mp hst
    exact .inr ⟨h, Nat.le_refl _⟩
  | notify =>
    cases hst
    refine .inr ⟨?_, Nat.le_refl _⟩
    unfold Awake at h ⊢
    cases hp : self.phase with
    | asleep seen =>
      simp only [hp] at h ⊢
      exact Nat.lt_succ_of_lt h
    | looping => trivial
    | enabled seen => trivial
    | returned r | timedOut => simp only [hp] at h
  | enable =>
    simp only [State.step] at hst
    split at hst
    · rename_i hp
      cases hst
      refine .inr ⟨trivial, ?_⟩
      simp [distance, hp, Event.own]
    · cases hst
  | observe =>
    simp only [State.step] at hst
    split at hst
    · cases hst
      obtain ⟨r, hsome⟩ := isSome_iff_exists.mp hres
      refine .inl ⟨r, hsome, ?_⟩
      rw [Subject.result] at hsome
      simp only [State.look, hsome]
    · cases hst
  | poll expired =>
    simp only [State.step] at hst
    split at hst
    · rename_i seen hp
      cases hst
      have hlt : seen < self.changed.count := by simpa only [Awake, hp] using h
      refine .inr ?_
      simp only [State.poll, Notify.notified_of_lt hlt]
      exact ⟨trivial, by simp [distance, hp, Event.own]⟩
    · cases hst

theorem returned_step {r : Except φ α} (h : self.phase = .returned r)
    (hst : self.step subject ev = some next) : next.phase = .returned r := by
  cases ev with
  | change ev =>
    obtain ⟨after, -, rfl⟩ := map_eq_some_iff.mp hst
    exact h
  | notify =>
    cases hst
    exact h
  | _ =>
    simp only [State.step, h] at hst
    cases hst

theorem run_take_succ (hst : self.step subject ev = some next) (n : ℕ) :
    Machine.run (State.step subject) self ((ev :: evs).take (n + 1)) =
      Machine.run (State.step subject) next (evs.take n) := by
  rw [List.take_succ_cons, Machine.run, hst]

theorem Stays.tail (h : Stays subject self (ev :: evs))
    (hst : self.step subject ev = some next) : Stays subject next evs := by
  intro n middle hrun
  exact h (n + 1) middle ((run_take_succ hst n).trans hrun)

theorem Observed.cons {r : Except φ α} (hst : self.step subject ev = some next)
    (h : Observed subject next evs r) : Observed subject self (ev :: evs) r := by
  obtain ⟨n, middle, hrun, hres⟩ := h
  exact ⟨n + 1, middle, (run_take_succ hst n).trans hrun, hres⟩

/-- **A call that is awake while there is something to see** returns it in time. -/
theorem Awake.run (h : Awake self) (hsty : Stays subject self evs)
    (hrun : Machine.run (State.step subject) self evs = some last) :
    (∃ r, last.phase = .returned r ∧ Observed subject self evs r) ∨
      Awake last ∧ distance last + evs.countP Event.own ≤ distance self := by
  induction evs generalizing self with
  | nil =>
    cases hrun
    exact .inr ⟨h, Nat.le_refl _⟩
  | cons ev evs ih =>
    obtain ⟨next, hst, hr⟩ := Machine.run_cons hrun
    rcases h.step (hsty 0 self rfl h.waits) hst with
      ⟨r, hres, hp⟩ | ⟨hawk, hclo⟩
    · refine .inl ⟨r, ?_, 0, self, rfl, hres⟩
      exact Machine.run_induction (fun _ _ _ hret => returned_step hret) hp hr
    · rcases ih hawk (hsty.tail hst) hr with ⟨r, hp, hobs⟩ | ⟨hla, hfar⟩
      · exact .inl ⟨r, hp, hobs.cons hst⟩
      · refine .inr ⟨hla, ?_⟩
        rw [List.countP_cons]
        omega

theorem distance_pos (h : Awake self) : 0 < distance self := by
  unfold Awake at h
  unfold distance
  split
  · exact Nat.succ_pos _
  · exact Nat.succ_pos _
  · exact Nat.succ_pos _
  · rename_i hp
    simp only [hp] at h
  · rename_i hp
    simp only [hp] at h

/-- **No wakeup is lost** where every change that gives the wait something to see is announced. -/
theorem Announced.noLostWakeup (h : Announced subject kind) : NoLostWakeup subject kind := by
  intro begun s hbg hkind hreach hwts hdue evs last hrun hsty
  have hsd := (sound_begun hbg hkind).reachable h hreach
  have hawk := hsd.awake hwts hdue (hsty 0 s rfl hwts)
  rcases hawk.run hsty hrun with ⟨r, hp, hobs⟩ | ⟨hla, hfar⟩
  · refine ⟨?_, fun _ => ⟨r, hp, hobs⟩⟩
    rw [hp]
    intro htimedOut
    cases htimedOut
  · refine ⟨fun htimedOut => ?_, fun hthree => ?_⟩
    · have hlastWaits := hla.waits
      rw [htimedOut] at hlastWaits
      cases hlastWaits
    · -- three steps of its own take it all the way
      have hpos := distance_pos hla
      have hle := distance_le s
      omega

end Awake

end OnChange

end Redsuite
