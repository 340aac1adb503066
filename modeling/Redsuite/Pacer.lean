import Redsuite.Machine
import Redsuite.Rate
import Redsuite.Spacing

/-!
# Pacing

A model of `Pacer` of `core/src/transport/rate.rs`.
-/

namespace Redsuite

open List

/-- `Pacer`, with instants in nanoseconds. -/
structure Pacer where
  interval : Option ℕ
  next : ℕ

namespace Pacer

def timerResolution : ℕ := 1000000

def resyncSlack : ℕ := 5000000

/-- `Pacer::new`, at an instant. -/
def new (pacing : Pacing) (now : ℕ) : Except String Pacer := do
  .ok { interval := ← pacing.interval, next := now }

/-- What `wait` does before it sleeps. -/
inductive Waited : Type where
  | done (pacer : Pacer)
  | sleeps

def advance (self : Pacer) (interval : ℕ) : Pacer := { self with next := self.next + interval }

/-- `Pacer::wait` up to its sleep, where the clock shows `now`. -/
def wait (self : Pacer) (now : ℕ) : Waited :=
  match self.interval with
  | none => .done self
  | some interval =>
    if self.next > now then
      if self.next - now ≥ timerResolution then .sleeps else .done (self.advance interval)
    else if now - self.next > resyncSlack then
      .done ({ self with next := now }.advance interval)
    else
      .done (self.advance interval)

/-- `Pacer::wait` from its sleep on. -/
def wake (self : Pacer) : Pacer :=
  match self.interval with
  | none => self
  | some interval => self.advance interval

/-- A wait that is over at once left the pacer an interval after the instant it was due or after
now, and was due within the resolution of a timer. -/
theorem wait_done {self pacer : Pacer} {interval now : ℕ}
    (hint : self.interval = some interval) (h : self.wait now = .done pacer) :
    self.next ≤ now + timerResolution ∧ pacer.interval = some interval ∧
      (pacer.next = self.next + interval ∧ now ≤ self.next + resyncSlack ∨
        pacer.next = now + interval ∧ self.next + resyncSlack < now) := by
  obtain ⟨_, next⟩ := self
  cases hint
  rw [wait] at h
  split_ifs at h with hahead hsleep hresync <;> cases h <;>
    refine ⟨by omega, rfl, ?_⟩
  · exact .inl ⟨rfl, by omega⟩
  · exact .inr ⟨rfl, by omega⟩
  · exact .inl ⟨rfl, by omega⟩

theorem wait_sleeps {self : Pacer} {now : ℕ} (h : self.wait now = .sleeps) : now < self.next := by
  rw [wait] at h
  cases hint : self.interval with
  | none =>
    rw [hint] at h
    cases h
  | some interval =>
    rw [hint] at h
    split_ifs at h with hahead
    exact hahead

end Pacer

/-- A pacer in use. -/
structure Pace where
  pacer : Pacer
  /-- the latest instant so far, not in the source -/
  clock : ℕ
  sleeping : Bool
  /-- when the completed waits were over, not in the source -/
  completed : List ℕ

namespace Pace

/-- What can happen next. -/
inductive Event : Type where
  /-- a wait begins; where it does not sleep, it is over after a delay -/
  | call (now delay : ℕ)
  | wake (now : ℕ)
  | cancel (now : ℕ)

def start (pacer : Pacer) : Pace :=
  { pacer := pacer, clock := pacer.next, sleeping := false, completed := [] }

/-- One step. The clock does not go back, and a sleep does not return before its deadline. -/
def step (self : Pace) : Event → Option Pace
  | .call now delay =>
    if self.sleeping = false ∧ self.clock ≤ now then
      match self.pacer.wait now with
      | .done pacer =>
        some { self with
          pacer := pacer
          clock := now + delay
          completed := self.completed ++ [now + delay] }
      | .sleeps => some { self with clock := now, sleeping := true }
    else none
  | .wake now =>
    if self.sleeping = true ∧ self.clock ≤ now ∧ self.pacer.next ≤ now then
      some
        { pacer := self.pacer.wake
          clock := now
          sleeping := false
          completed := self.completed ++ [now] }
    else none
  | .cancel now =>
    if self.sleeping = true ∧ self.clock ≤ now then
      some { self with clock := now, sleeping := false }
    else none

/-- What a completing wait may leave: its admission was due, and the next is an interval later than
that or than now. -/
structure Completes (interval : ℕ) (before pace : Pace) (now time : ℕ) : Prop where
  clock : before.clock ≤ now
  delay : now ≤ time
  due : before.pacer.next ≤ now + Pacer.timerResolution
  asleep : before.sleeping = true → before.pacer.next ≤ now
  kept : pace.pacer.interval = some interval
  later : pace.clock = time
  awake : pace.sleeping = false
  completed : pace.completed = before.completed ++ [time]
  next : pace.pacer.next = before.pacer.next + interval ∧
      (before.sleeping = false → now ≤ before.pacer.next + Pacer.resyncSlack) ∨
    pace.pacer.next = now + interval ∧ before.pacer.next + Pacer.resyncSlack < now

/-- **A step** completes a wait, or moves the clock on and leaves the pacer as it is. -/
theorem step_cases {self pace : Pace} {ev : Event} {interval : ℕ}
    (hint : self.pacer.interval = some interval) (h : self.step ev = some pace) :
    (∃ now time, Completes interval self pace now time) ∨
      pace.pacer = self.pacer ∧ pace.completed = self.completed ∧ self.clock ≤ pace.clock ∧
        (pace.sleeping = true → pace.clock < self.pacer.next) := by
  cases ev with
  | call now delay =>
    rw [step] at h
    split_ifs at h with hc
    cases hwait : self.pacer.wait now with
    | done pacer =>
      rw [hwait] at h
      cases h
      obtain ⟨hdue, hkpt, hnx⟩ := Pacer.wait_done hint hwait
      refine .inl ⟨now, now + delay, hc.2, Nat.le_add_right now delay, hdue, ?_, hkpt, rfl,
        hc.1, rfl, hnx.imp_left fun h => ⟨h.1, fun _ => h.2⟩⟩
      intro hasleep
      rw [hc.1] at hasleep
      cases hasleep
    | sleeps =>
      rw [hwait] at h
      cases h
      exact .inr ⟨rfl, rfl, hc.2, fun _ => Pacer.wait_sleeps hwait⟩
  | wake now =>
    rw [step] at h
    split_ifs at h with hwake
    cases h
    have hpacer : self.pacer.wake = self.pacer.advance interval := by
      rw [Pacer.wake, hint]
    refine .inl ⟨now, now, hwake.2.1, le_rfl, hwake.2.2.trans (Nat.le_add_right now _),
      fun _ => hwake.2.2, ?_, rfl, rfl, rfl, .inl ⟨congrArg Pacer.next hpacer, ?_⟩⟩
    · exact (congrArg Pacer.interval hpacer).trans hint
    · intro hawk
      rw [hwake.1] at hawk
      cases hawk
  | cancel now =>
    rw [step] at h
    split_ifs at h with hcancel
    cases h
    exact .inr ⟨rfl, rfl, hcancel.2, nofun⟩

def slack : ℕ := Pacer.resyncSlack + Pacer.timerResolution

/-- What holds between the waits and the next admission: counted from any completed wait on, it is
an interval later for each but the first. -/
structure Paced (interval : ℕ) (pace : Pace) : Prop where
  kept : pace.pacer.interval = some interval
  past : ∀ time ∈ pace.completed, time ≤ pace.clock
  asleep : pace.sleeping = true → ∀ time ∈ pace.completed, time ≤ pace.pacer.next
  ahead : ∀ i time, i + 1 < pace.completed.length → pace.completed[i]? = some time →
    (pace.completed.length - i - 1) * interval + time ≤ pace.pacer.next + Pacer.resyncSlack
  spaced : Spaced interval slack pace.completed

theorem start_paced {pacer : Pacer} {interval : ℕ} (h : pacer.interval = some interval) :
    (start pacer).Paced interval where
  kept := h
  past := forall_mem_nil _
  asleep := fun _ => forall_mem_nil _
  ahead := by
    intro i time hi
    cases hi
  spaced := Spaced.nil interval slack

section

variable {self pace : Pace} {interval now time : ℕ}

theorem Paced.far (h : self.Paced interval) (hd : Completes interval self pace now time) (i : ℕ)
    {earlier : ℕ} (hearlier : self.completed[i]? = some earlier) :
    earlier ≤ time ∧ (self.completed.length - i - 1) * interval + earlier ≤ time + slack := by
  have hpast := h.past earlier (mem_of_getElem? hearlier)
  have hle : earlier ≤ time := hpast.trans (hd.clock.trans hd.delay)
  refine ⟨hle, ?_⟩
  rcases Nat.lt_or_ge (i + 1) self.completed.length with hinn | hla
  · have hahead := h.ahead i earlier hinn hearlier
    have hdue := hd.due
    have hdelay := hd.delay
    rw [slack]
    omega
  · rw [show self.completed.length - i - 1 = 0 by omega]
    omega

theorem Paced.near (h : self.Paced interval) (hd : Completes interval self pace now time) (i : ℕ)
    {earlier : ℕ} (hearlier : self.completed[i]? = some earlier) :
    (self.completed.length - i) * interval + earlier ≤ pace.pacer.next + Pacer.resyncSlack := by
  have hm := mem_of_getElem? hearlier
  have hi : i < self.completed.length := lt_of_getElem? hearlier
  have hclock := (h.past earlier hm).trans hd.clock
  -- Before the step the same holds with an interval less, also for the last completed wait.
  have hb : (self.completed.length - i - 1) * interval + earlier + interval ≤
      pace.pacer.next + Pacer.resyncSlack := by
    rcases Nat.lt_or_ge (i + 1) self.completed.length with hinn | hla
    · have hahead := h.ahead i earlier hinn hearlier
      rcases hd.next with ⟨hnx, _⟩ | ⟨hnx, hlate⟩ <;> omega
    · rw [show self.completed.length - i - 1 = 0 by omega]
      rcases hd.next with ⟨hnx, hresync⟩ | ⟨hnx, _⟩
      · cases hsleeping : self.sleeping with
        | true =>
          have hasleep := h.asleep hsleeping earlier hm
          omega
        | false =>
          have hawk := hresync hsleeping
          omega
      · omega
  have hct : self.completed.length - i = self.completed.length - i - 1 + 1 := by omega
  rw [hct, Nat.add_mul]
  omega

theorem Paced.completes (h : self.Paced interval) (hd : Completes interval self pace now time) :
    pace.Paced interval where
  kept := hd.kept
  past := by
    rw [hd.completed, hd.later]
    intro earlier hearlier
    rcases mem_concat.mp hearlier with hold | hnew
    · exact (h.past earlier hold).trans (hd.clock.trans hd.delay)
    · exact hnew.le
  asleep := by
    intro hasleep
    rw [hd.awake] at hasleep
    cases hasleep
  ahead := by
    intro i earlier hi hearlier
    rw [hd.completed, length_append, length_singleton] at hi ⊢
    rw [hd.completed, getElem?_append_left (by omega)] at hearlier
    have hct : self.completed.length + 1 - i - 1 = self.completed.length - i := by omega
    rw [hct]
    exact h.near hd i hearlier
  spaced := by
    rw [hd.completed]
    exact h.spaced.concat fun i _ hearlier => h.far hd i hearlier

theorem Paced.step {ev : Event} (h : self.Paced interval) (hst : self.step ev = some pace) :
    pace.Paced interval := by
  rcases step_cases h.kept hst with ⟨now, time, hd⟩ | ⟨hpacer, hcompleted, hclock, hsleeping⟩
  · exact h.completes hd
  · have hpast : ∀ time ∈ pace.completed, time ≤ pace.clock := by
      rw [hcompleted]
      exact fun time htime => (h.past time htime).trans hclock
    refine ⟨?_, hpast, ?_, ?_, ?_⟩
    · rw [hpacer]
      exact h.kept
    · intro hasleep time htime
      rw [hpacer]
      exact (hpast time htime).trans (hsleeping hasleep).le
    · rw [hpacer, hcompleted]
      exact h.ahead
    · rw [hcompleted]
      exact h.spaced

end

theorem new_interval {rate now : ℕ} (hrate : 0 < rate) {pacer : Pacer}
    (h : Pacer.new (.perSecond rate) now = .ok pacer) : pacer.interval = some (oneSec / rate) := by
  obtain ⟨rate, rfl⟩ := Nat.exists_eq_succ_of_ne_zero hrate.ne'
  cases h
  rfl

/-- **The pace of a pacer**: whenever waits are called, however late the timers are and whichever
waits are dropped, the waits that complete are in order and spaced by the interval up to the slack,
and a window has room for so many of them only. -/
theorem waits_spaced (rate now : ℕ) (hrate : 0 < rate) (pacer : Pacer)
    (hnew : Pacer.new (.perSecond rate) now = .ok pacer) (pace : Pace)
    (h : Machine.Reachable step (start pacer) pace) :
    (∀ i j first second, i < j → pace.completed[i]? = some first →
        pace.completed[j]? = some second →
        first ≤ second ∧ (j - i - 1) * (oneSec / rate) ≤ (second - first) + 6000000) ∧
      ∀ since length, 0 < oneSec / rate →
        (pace.completed.filter fun time => since ≤ time ∧ time ≤ since + length).length ≤
          (length + 6000000) / (oneSec / rate) + 2 := by
  have hpaced := h.induction (start_paced (new_interval hrate hnew))
    fun _ _ _ hpaced hstep => hpaced.step hstep
  refine ⟨?_, fun since length hgap => hpaced.spaced.length_window hgap since length⟩
  intro i j first second hlt hfirst hsecond
  obtain ⟨hle, hgap⟩ := hpaced.spaced i j first second hlt hfirst hsecond
  refine ⟨hle, ?_⟩
  rw [show slack = 6000000 by rfl] at hgap
  omega

/-- A pacer of a thousand waits each second: after a pause of five milliseconds five waits are done
at once and one more before it is due, one is dropped in its sleep, and one sleeps. -/
def thousand : List Event :=
  [.call 0 0, .call 5000000 0, .call 5000000 0, .call 5000000 0, .call 5000000 0,
    .call 5000000 10, .call 5000100 0, .call 5600000 0, .cancel 5700000, .call 5800000 0,
    .wake 7000007]

theorem waits_spaced_thousand :
    ∃ pace, Machine.run step (start ⟨some 1000000, 0⟩) thousand = some pace ∧
      pace.completed.length = 8 ∧
      (pace.completed.filter fun time => 5000000 ≤ time ∧ time ≤ 5000000 + 10).length ≤ 8 := by
  refine ⟨_, by rfl, by rfl, ?_⟩
  exact (waits_spaced 1000 0 (by decide) ⟨some 1000000, 0⟩ rfl _ ⟨thousand, rfl⟩).2 5000000 10
    (by decide)

end Pace

end Redsuite
