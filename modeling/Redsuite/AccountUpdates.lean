import Redsuite.AwaitId
import Redsuite.Multimap
import Redsuite.Stats

/-!
# Account updates

A model of `core/src/transport/clock.rs` and of `AccountUpdates` of `core/src/transport/ws.rs`.
-/

namespace Redsuite

open List Option

namespace Ws

open Events (CloseReason)
open Multimap (members)

/-! ### The send clock -/

/-- `SendClock`: when the writes of one window were sent, in microseconds after its epoch. -/
structure SendClock where
  firstId : ℕ
  /-- for each id, one more than the time; zero if it was not sent -/
  sentMicros : List ℕ

namespace SendClock

def new (firstId capacity : ℕ) : SendClock := ⟨firstId, List.replicate capacity 0⟩

/-- `slot_of`: the place of an id. -/
def slotOf (self : SendClock) (id : ℕ) : Option ℕ :=
  if self.firstId ≤ id ∧ id - self.firstId < self.sentMicros.length then some (id - self.firstId)
  else none

def reset (self : SendClock) (firstId : ℕ) : SendClock :=
  ⟨firstId, self.sentMicros.map fun _ => 0⟩

/-- `stamp`; nothing if it panics. -/
def stamp (self : SendClock) (id time : ℕ) : Option SendClock :=
  (self.slotOf id).map fun slot => { self with sentMicros := self.sentMicros.set slot (time + 1) }

/-- `elapsed_micros`, at some time. -/
def elapsedMicros (self : SendClock) (id now : ℕ) : Option ℕ :=
  match (self.slotOf id).bind fun slot => self.sentMicros[slot]? with
  | none => none
  | some 0 => none
  | some (sent + 1) => some (min (now - sent) u32Max)

end SendClock

/-! ### The state -/

/-- The least element: `BTreeSet::first`. -/
def first (ids : Finset ℕ) : Option ℕ :=
  if h : ids.Nonempty then some (ids.min' h) else none

theorem first_eq_none {ids : Finset ℕ} (h : first ids = none) (id : ℕ) : id ∉ ids := by
  intro hm
  rw [first, dif_pos ⟨id, hm⟩] at h
  cases h

theorem first_eq_some {ids : Finset ℕ} {least : ℕ} (h : first ids = some least) :
    least ∈ ids ∧ ∀ id ∈ ids, least ≤ id := by
  rw [first] at h
  split at h
  · cases h
    exact ⟨Finset.min'_mem _ _, fun id hid => Finset.min'_le _ id hid⟩
  · cases h

/-- `AccountState`: what the reader and the calls share. -/
structure AccountState (π : Type) where
  /-- the accounts that were not updated yet, by id -/
  pending : Multimap ℕ π
  byAccount : Multimap π ℕ
  waiters : Waiters ℕ
  lag : StreamingStats
  observed : ℕ
  superseded : ℕ

/-- What `take_outcome` returns. -/
structure UpdateOutcome where
  lag : ObservationsStats
  observed : ℕ
  superseded : ℕ

variable {π : Type} {gone : ℕ × π → Prop}

namespace AccountState

def default (rng : Rng) : AccountState π := ⟨∅, ∅, Waiters.new, StreamingStats.new rng, 0, 0⟩

/-- `take_outcome`; a new generator comes with the empty statistics. -/
def takeOutcome (self : AccountState π) (rng : Rng) : UpdateOutcome × AccountState π :=
  (⟨self.lag.finalize false, self.observed, self.superseded⟩,
    { self with lag := StreamingStats.new rng, observed := 0, superseded := 0 })

variable [DecidableEq π]

def track (self : AccountState π) (id : ℕ) (account : π) : AccountState π :=
  { self with
    pending := self.pending.add id account
    byAccount := self.byAccount.add account id }

/-- `settle`; nothing if one of its `unwrap`s panics. -/
def settle (self : AccountState π) (id : ℕ) (account : π) : Option (AccountState π) :=
  match self.pending.lookup id, self.byAccount.lookup account with
  | some targets, some ids =>
    let targets := targets.erase account
    let self := { self with
      pending := self.pending.insert id targets
      byAccount := self.byAccount.insert account (ids.erase id) }
    if targets = ∅ then
      some { self with pending := self.pending.erase id, waiters := self.waiters.wake id }
    else some self
  | _, _ => none

/-- The loop of `observe`, with a bound on the number of rounds. -/
def supersede (account : π) (id : ℕ) : ℕ → AccountState π → Option (AccountState π)
  | 0, self => some self
  | rounds + 1, self =>
    match first (members self.byAccount account) with
    | none => some self
    | some pendingId =>
      if pendingId ≥ id then some self
      else
        match { self with superseded := self.superseded + 1 }.settle pendingId account with
        | some self => supersede account id rounds self
        | none => none

/-- The part of `observe` for the write itself. -/
def see (self : AccountState π) (account : π) (id : ℕ) (clock : SendClock) (now : ℕ) :
    Option (AccountState π) :=
  if account ∈ members self.pending id then
    let lag := match clock.elapsedMicros id now with
      | some lag => self.lag.push lag
      | none => self.lag
    { self with lag, observed := self.observed + 1 }.settle id account
  else some self

/-- `observe`; a round takes an id of the account out, so there are not more rounds than ids. -/
def observe (self : AccountState π) (account : π) (id : ℕ) (clock : SendClock) (now : ℕ) :
    Option (AccountState π) :=
  match self.see account id clock now with
  | some self => supersede account id (members self.byAccount account).card self
  | none => none

/-! ### The writes -/

def writes (self : AccountState π) : Finset (ℕ × π) := self.pending.pairs

/-- The two indexes hold the same writes, and an id is in the first one only with an account. -/
structure Indexed (state : AccountState π) : Prop where
  inverse : state.pending.Inverse state.byAccount
  nonempty : ∀ id, state.pending.lookup id ≠ some ∅

variable {before after self : AccountState π} {id : ℕ} {acc : π}

theorem mem_writes : (id, acc) ∈ self.writes ↔ acc ∈ members self.pending id :=
  Multimap.mem_pairs

theorem Indexed.mem_byAccount (h : self.Indexed) :
    id ∈ members self.byAccount acc ↔ (id, acc) ∈ self.writes := by
  rw [mem_writes, h.inverse]

theorem Indexed.isSome_iff (h : self.Indexed) (id : ℕ) :
    (self.pending.lookup id).isSome = true ↔ ∃ acc, (id, acc) ∈ self.writes := by
  simp only [mem_writes]
  constructor
  · intro hsome
    obtain ⟨targets, htargets⟩ := isSome_iff_exists.mp hsome
    have hne : targets ≠ ∅ := by
      rintro rfl
      exact h.nonempty id htargets
    obtain ⟨acc, hacc⟩ := Finset.nonempty_of_ne_empty hne
    refine ⟨acc, ?_⟩
    rwa [Multimap.members_of_lookup htargets]
  · rintro ⟨acc, hacc⟩
    rw [Multimap.lookup_of_mem hacc]
    rfl

/-- Some writes are taken out, and the waiters of the ids done with that are woken. -/
structure Drops (before after : AccountState π) (gone : ℕ × π → Prop) : Prop where
  indexed : after.Indexed
  writes : ∀ write, write ∈ after.writes ↔ write ∈ before.writes ∧ ¬gone write
  waiters : ∃ ids, after.waiters = before.waiters.wakeAll ids ∧
    ∀ id, id ∈ ids ↔ (∃ account, (id, account) ∈ before.writes) ∧
      ¬∃ account, (id, account) ∈ after.writes

theorem Drops.refl (h : self.Indexed)
    (hgone : ∀ write ∈ self.writes, ¬gone write) : Drops self self gone where
  indexed := h
  writes write := ⟨fun hm => ⟨hm, hgone write hm⟩, fun hm => hm.1⟩
  waiters := ⟨[], rfl, fun id => by simp⟩

theorem Drops.trans {middle : AccountState π} {first second : ℕ × π → Prop}
    (hfst : Drops before middle first) (hsecond : Drops middle after second)
    (hgone : ∀ write, gone write ↔ first write ∨ second write) : Drops before after gone where
  indexed := hsecond.indexed
  writes write := by
    rw [hsecond.writes, hfst.writes, hgone, not_or, and_assoc]
  waiters := by
    obtain ⟨early, hea, hmemEarly⟩ := hfst.waiters
    obtain ⟨late, hlate, hmemLate⟩ := hsecond.waiters
    refine ⟨early ++ late, ?_, fun id => ?_⟩
    · rw [hlate, hea, Waiters.wakeAll_append]
    · -- Writes only go, so an id that is done stays done.
      have hmiddle : ∀ acc, (id, acc) ∈ middle.writes → (id, acc) ∈ before.writes :=
        fun acc hm => ((hfst.writes _).mp hm).1
      have haf : ∀ acc, (id, acc) ∈ after.writes → (id, acc) ∈ middle.writes :=
        fun acc hm => ((hsecond.writes _).mp hm).1
      rw [mem_append, hmemEarly, hmemLate]
      constructor
      · rintro (⟨hb, hnot⟩ | ⟨⟨acc, hm⟩, hnot⟩)
        · exact ⟨hb, fun ⟨acc, hm⟩ => hnot ⟨acc, haf acc hm⟩⟩
        · exact ⟨⟨acc, hmiddle acc hm⟩, hnot⟩
      · rintro ⟨hb, hnot⟩
        by_cases hmid : ∃ acc, (id, acc) ∈ middle.writes
        · exact .inr ⟨hmid, hnot⟩
        · exact .inl ⟨hb, hmid⟩

/-- One write is taken out of both indexes. -/
structure Unlinks (before after : AccountState π) (id : ℕ) (account : π) : Prop where
  pending : ∀ other, members after.pending other =
    if other = id then (members before.pending id).erase account else members before.pending other
  byAccount : ∀ other, members after.byAccount other =
    if other = account then (members before.byAccount account).erase id
    else members before.byAccount other

section

variable (h : Unlinks before after id acc)

include h

theorem Unlinks.writes (write : ℕ × π) :
    write ∈ after.writes ↔ write ∈ before.writes ∧ write ≠ (id, acc) := by
  obtain ⟨other, t⟩ := write
  rw [mem_writes, mem_writes, h.pending]
  grind

theorem Unlinks.inverse (hinverse : before.pending.Inverse before.byAccount) :
    after.pending.Inverse after.byAccount := by
  intro other t
  have hold := hinverse other t
  rw [h.pending, h.byAccount]
  grind

theorem Unlinks.other {other : ℕ} (hne : other ≠ id) :
    (∃ t, (other, t) ∈ after.writes) ↔ ∃ t, (other, t) ∈ before.writes := by
  simp only [mem_writes, h.pending, if_neg hne]

theorem Unlinks.drops_last (hb : before.Indexed) (hm : (id, acc) ∈ before.writes)
    (hpd : after.pending.lookup id = none)
    (ho : ∀ other, other ≠ id → after.pending.lookup other = before.pending.lookup other)
    (hws : after.waiters = before.waiters.wake id) : Drops before after (· = (id, acc)) where
  indexed := by
    refine ⟨h.inverse hb.inverse, fun other hlk => ?_⟩
    by_cases hid : other = id
    · rw [hid, hpd] at hlk
      cases hlk
    · rw [ho other hid] at hlk
      exact hb.nonempty other hlk
  writes := h.writes
  waiters := by
    refine ⟨[id], hws, fun other => ?_⟩
    rw [mem_singleton]
    by_cases hid : other = id
    · have hn : ∀ t, (id, t) ∉ after.writes := by
        intro t
        rw [mem_writes, Multimap.members, hpd]
        exact Finset.notMem_empty t
      rw [hid]
      refine ⟨fun _ => ⟨⟨acc, hm⟩, ?_⟩, fun _ => rfl⟩
      rintro ⟨t, hin⟩
      exact hn t hin
    · rw [h.other hid]
      exact ⟨fun heq => absurd heq hid, fun hboth => absurd hboth.1 hboth.2⟩

theorem Unlinks.drops_more (hb : before.Indexed) {targets : Finset π} (hne : targets ≠ ∅)
    (hpd : after.pending.lookup id = some targets)
    (ho : ∀ other, other ≠ id → after.pending.lookup other = before.pending.lookup other)
    (hws : after.waiters = before.waiters) : Drops before after (· = (id, acc)) where
  indexed := by
    refine ⟨h.inverse hb.inverse, fun other hlk => ?_⟩
    by_cases hid : other = id
    · rw [hid, hpd] at hlk
      exact hne (some.inj hlk)
    · rw [ho other hid] at hlk
      exact hb.nonempty other hlk
  writes := h.writes
  waiters := by
    refine ⟨[], hws, fun other => ?_⟩
    simp only [not_mem_nil, false_iff]
    rintro ⟨hin, hnot⟩
    by_cases hid : other = id
    · obtain ⟨t, htgt⟩ := Finset.nonempty_of_ne_empty hne
      refine hnot ⟨t, ?_⟩
      rw [hid, mem_writes, Multimap.members_of_lookup hpd]
      exact htgt
    · exact hnot ((h.other hid).mpr hin)

end

/-- **What `settle` does with a pending write.** -/
theorem settle_spec (h : self.Indexed) (hm : (id, acc) ∈ self.writes) :
    ∃ after, self.settle id acc = some after ∧ Drops self after (· = (id, acc)) ∧
      after.lag = self.lag ∧ after.observed = self.observed ∧
      after.superseded = self.superseded := by
  have htargets := Multimap.lookup_of_mem (mem_writes.mp hm)
  have hids := Multimap.lookup_of_mem (h.mem_byAccount.mpr hm)
  rw [settle, htargets, hids]
  dsimp only
  split
  · rename_i hem
    refine ⟨_, rfl, ?_, rfl, rfl, rfl⟩
    refine Unlinks.drops_last ⟨fun other => ?_, fun other => Multimap.members_insert ..⟩ h hm
      (AList.lookup_erase _ _) (fun other hne => ?_) rfl
    · rw [Multimap.members_erase, Multimap.members_insert, hem]
      grind
    · rw [AList.lookup_erase_ne hne, AList.lookup_insert_ne hne]
  · rename_i hne
    refine ⟨_, rfl, ?_, rfl, rfl, rfl⟩
    exact Unlinks.drops_more
      ⟨fun other => Multimap.members_insert .., fun other => Multimap.members_insert ..⟩ h hne
      (AList.lookup_insert _) (fun other ho => AList.lookup_insert_ne ho) rfl

theorem see_spec (h : self.Indexed) (acc : π) (id : ℕ) (clock : SendClock) (now : ℕ) :
    ∃ after, self.see acc id clock now = some after ∧ Drops self after (· = (id, acc)) ∧
      after.observed = self.observed + (if (id, acc) ∈ self.writes then 1 else 0) ∧
      after.superseded = self.superseded := by
  simp only [see, ← mem_writes]
  split
  · rename_i hm
    generalize (match clock.elapsedMicros id now with
      | some lag => self.lag.push lag
      | none => self.lag) = lag
    have hseen : Indexed { self with lag, observed := self.observed + 1 } :=
      ⟨h.inverse, h.nonempty⟩
    obtain ⟨after, hsettle, hdrops, -, hobs, hsup⟩ := settle_spec hseen hm
    exact ⟨after, hsettle, ⟨hdrops.indexed, hdrops.writes, hdrops.waiters⟩, hobs, hsup⟩
  · rename_i hm
    refine ⟨self, rfl, Drops.refl h ?_, rfl, rfl⟩
    rintro write hin rfl
    exact hm hin

theorem supersede_done (h : self.Indexed)
    (hd : ∀ other, (other, acc) ∈ self.writes → id ≤ other) :
    Drops self self (fun write => write.2 = acc ∧ write.1 < id) ∧
      self.observed = self.observed ∧
      self.superseded = self.superseded +
        (self.writes.filter fun write => write.2 = acc ∧ write.1 < id).card := by
  have hn : ∀ write ∈ self.writes, ¬(write.2 = acc ∧ write.1 < id) := by
    rintro ⟨other, t⟩ hm ⟨rfl, hlt⟩
    exact absurd (hd other hm) (Nat.not_le.mpr hlt)
  refine ⟨Drops.refl h hn, rfl, ?_⟩
  rw [Finset.filter_false_of_mem hn, Finset.card_empty, Nat.add_zero]

theorem Drops.card_filter (h : Drops before after (· = (id, acc))) {bound : ℕ}
    (hm : (id, acc) ∈ before.writes) (hlt : id < bound) :
    (before.writes.filter fun write => write.2 = acc ∧ write.1 < bound).card =
      (after.writes.filter fun write => write.2 = acc ∧ write.1 < bound).card + 1 := by
  have herase : (after.writes.filter fun write => write.2 = acc ∧ write.1 < bound) =
      (before.writes.filter fun write => write.2 = acc ∧ write.1 < bound).erase
        (id, acc) := by
    ext write
    simp only [Finset.mem_erase, Finset.mem_filter, h.writes]
    tauto
  rw [herase, Finset.card_erase_add_one]
  exact Finset.mem_filter.mpr ⟨hm, rfl, hlt⟩

theorem Drops.card_byAccount (h : Drops before after (· = (id, acc))) (hb : before.Indexed)
    (hm : (id, acc) ∈ before.writes) :
    (members after.byAccount acc).card + 1 = (members before.byAccount acc).card := by
  have herase : members after.byAccount acc = (members before.byAccount acc).erase id := by
    ext other
    rw [Finset.mem_erase, h.indexed.mem_byAccount, hb.mem_byAccount, h.writes]
    grind
  rw [herase, Finset.card_erase_add_one (hb.mem_byAccount.mpr hm)]

/-- **The loop takes out the older writes of the account.** -/
theorem supersede_spec (acc : π) (id : ℕ) {rounds : ℕ} (h : self.Indexed)
    (hrounds : (members self.byAccount acc).card ≤ rounds) :
    ∃ after, supersede acc id rounds self = some after ∧
      Drops self after (fun write => write.2 = acc ∧ write.1 < id) ∧
      after.observed = self.observed ∧
      after.superseded = self.superseded +
        (self.writes.filter fun write => write.2 = acc ∧ write.1 < id).card := by
  induction rounds generalizing self with
  | zero =>
    refine ⟨self, rfl, supersede_done h fun other hm => ?_⟩
    have hem := Finset.card_eq_zero.mp (Nat.le_zero.mp hrounds)
    have hin := h.mem_byAccount.mpr hm
    rw [hem] at hin
    cases Finset.notMem_empty other hin
  | succ rounds ih =>
    rw [supersede]
    cases hfst : first (members self.byAccount acc) with
    | none =>
      exact ⟨self, rfl, supersede_done h fun other hm =>
        absurd (h.mem_byAccount.mpr hm) (first_eq_none hfst other)⟩
    | some pendingId =>
      obtain ⟨hin, hleast⟩ := first_eq_some hfst
      dsimp only
      split
      · rename_i hge
        exact ⟨self, rfl, supersede_done h fun other hm =>
          hge.trans (hleast other (h.mem_byAccount.mpr hm))⟩
      · rename_i hlt
        have hm := h.mem_byAccount.mp hin
        have hcounted : Indexed { self with superseded := self.superseded + 1 } :=
          ⟨h.inverse, h.nonempty⟩
        obtain ⟨next, hsettle, hdrops, -, hobs, hsup⟩ := settle_spec hcounted hm
        rw [hsettle]
        have hround : Drops self next (· = (pendingId, acc)) :=
          ⟨hdrops.indexed, hdrops.writes, hdrops.waiters⟩
        have hcard := hround.card_byAccount h hm
        have hfilter := hround.card_filter hm (Nat.not_le.mp hlt)
        obtain ⟨after, hr, hrestDrops, hrestObserved, hrestSuperseded⟩ :=
          ih hround.indexed (by omega)
        refine ⟨after, hr, hround.trans hrestDrops ?_, hrestObserved.trans hobs, ?_⟩
        · rintro ⟨other, t⟩
          grind
        · rw [hrestSuperseded, hsup]
          dsimp only
          omega

/-- **What `observe` does.** It does not panic, takes out and counts the writes of the account up to
the id. -/
theorem observe_spec (h : self.Indexed) (acc : π) (id : ℕ) (clock : SendClock) (now : ℕ) :
    ∃ after, self.observe acc id clock now = some after ∧
      Drops self after (fun write => write.2 = acc ∧ write.1 ≤ id) ∧
      after.observed = self.observed + (if (id, acc) ∈ self.writes then 1 else 0) ∧
      after.superseded = self.superseded +
        (self.writes.filter fun write => write.2 = acc ∧ write.1 < id).card := by
  obtain ⟨seen, hsee, hseen, hobs, hsup⟩ := see_spec h acc id clock now
  obtain ⟨after, hloop, haf, hkpt, hcounted⟩ :=
    supersede_spec acc id hseen.indexed (Nat.le_refl _)
  -- The write that was seen is none of the older ones.
  have hfilter : (seen.writes.filter fun write => write.2 = acc ∧ write.1 < id) =
      self.writes.filter fun write => write.2 = acc ∧ write.1 < id := by
    ext ⟨other, t⟩
    simp only [Finset.mem_filter, hseen.writes, Prod.mk.injEq]
    grind
  refine ⟨after, ?_, hseen.trans haf ?_, ?_, ?_⟩
  · rw [observe, hsee]
    exact hloop
  · rintro ⟨other, t⟩
    grind
  · rw [hkpt, hobs]
  · rw [hcounted, hfilter, hsup]

theorem Indexed.track (h : self.Indexed) (id : ℕ) (acc : π) :
    (self.track id acc).Indexed where
  inverse other target := by
    have hold := h.inverse other target
    rw [AccountState.track, Multimap.mem_add, Multimap.mem_add]
    grind
  nonempty other hlk := by
    rw [AccountState.track, Multimap.add, Table.lookup_insert_iff] at hlk
    split at hlk
    · exact Finset.insert_ne_empty _ _ (some.inj hlk)
    · exact h.nonempty other hlk

theorem track_writes (id : ℕ) (acc : π) :
    (self.track id acc).writes = insert (id, acc) self.writes := by
  ext ⟨other, t⟩
  rw [mem_writes, track, Multimap.mem_add, Finset.mem_insert, mem_writes, Prod.mk.injEq]

end AccountState

/-! ### The calls -/

/-- A change of the state by a caller or the reader. -/
inductive AccountAct (π : Type) : Type where
  /-- `track` -/
  | track (id : ℕ) (account : π)
  | observe (account : π) (id : ℕ) (clock : SendClock) (now : ℕ)
  /-- `take_outcome` -/
  | takeOutcome (rng : Rng)

/-- `AccountUpdates`, as `await_id` sees it. -/
def accountObserver (π : Type) : Observer (AccountState π) where
  pending state id := (state.pending.lookup id).isSome
  waiters := AccountState.waiters
  setWaiters state waiters := { state with waiters }
  timedOut := "account update timed out"
  streamFailed := "ws stream failed while awaiting update"

/-- `AccountUpdates`. The second and third part are not in the source: how many calls of `track`
added a write, and which outcomes were taken. -/
structure AccountUpdates (π : Type) where
  feed : Feed (AccountState π)
  /-- calls of `track` that added a write -/
  added : ℕ
  windows : List UpdateOutcome

/-- An operation on the whole component. -/
inductive AccountOp (π : Type) : Type where
  | act (act : AccountAct π)
  /-- `await_id` is called -/
  | awaitId (id : ℕ)
  /-- the `await_id` that waits for this channel runs into its timeout -/
  | timeOut (channel : ℕ)
  /-- the stream ends, or `finalize` stops it -/
  | close (reason : CloseReason)

variable [DecidableEq π]

namespace AccountAct

def run (state : AccountState π) : AccountAct π → Option (AccountState π)
  | .track id account => some (state.track id account)
  | .observe account id clock now => state.observe account id clock now
  | .takeOutcome rng => some (state.takeOutcome rng).2

def adds (state : AccountState π) : AccountAct π → ℕ
  | .track id account => if account ∈ members state.pending id then 0 else 1
  | _ => 0

def takes (state : AccountState π) : AccountAct π → List UpdateOutcome
  | .takeOutcome rng => [(state.takeOutcome rng).1]
  | _ => []

end AccountAct

namespace AccountUpdates

def connect (rng : Rng) : AccountUpdates π := ⟨⟨AccountState.default rng, none⟩, 0, []⟩

def step (self : AccountUpdates π) : AccountOp π → Option (AccountUpdates π)
  | .act act =>
    match act.run self.feed.state with
    | some state =>
      some ⟨{ self.feed with state }, self.added + act.adds self.feed.state,
        self.windows ++ act.takes self.feed.state⟩
    | none => none
  | .awaitId id => some { self with feed := ((accountObserver π).awaitId self.feed id).1 }
  | .timeOut channel => some { self with feed := (accountObserver π).leave self.feed channel }
  | .close reason => some { self with feed := (accountObserver π).close self.feed reason }

def counted (self : AccountUpdates π) : ℕ :=
  (self.windows.map fun outcome => outcome.observed + outcome.superseded).sum

/-- What holds of the component at every await. -/
structure Sound (updates : AccountUpdates π) : Prop where
  indexed : updates.feed.state.Indexed
  waiting : ∀ id, updates.feed.state.waiters.senders.lookup id ≠ none →
    (updates.feed.state.pending.lookup id).isSome = true
  closed : updates.feed.error.isSome = true → updates.feed.state.waiters.senders = ∅
  accounted : updates.added = updates.counted + updates.feed.state.observed +
    updates.feed.state.superseded + updates.feed.state.writes.card

variable {self : AccountUpdates π}

theorem sound_connect (rng : Rng) : (connect rng : AccountUpdates π).Sound where
  indexed :=
    { inverse := fun id acc => by simp [connect, AccountState.default, Multimap.members]
      nonempty := fun id h => by cases h }
  waiting _ h := absurd rfl h
  closed _ := rfl
  accounted := rfl

theorem Sound.waiting_drops (h : self.Sound) {after : AccountState π}
    (hdrops : AccountState.Drops self.feed.state after gone) (id : ℕ)
    (hid : after.waiters.senders.lookup id ≠ none) : (after.pending.lookup id).isSome = true := by
  obtain ⟨ids, hws, hids⟩ := hdrops.waiters
  rw [hws, Waiters.lookup_wakeAll] at hid
  have hnot : id ∉ ids := by
    intro hm
    rw [if_pos hm] at hid
    exact hid rfl
  rw [if_neg hnot] at hid
  have hb := (h.indexed.isSome_iff id).mp (h.waiting id hid)
  rw [hids] at hnot
  rw [hdrops.indexed.isSome_iff]
  tauto

theorem card_drops {before after : AccountState π} {acc : π} {id : ℕ}
    (h : AccountState.Drops before after fun write => write.2 = acc ∧ write.1 ≤ id) :
    before.writes.card = after.writes.card +
      ((if (id, acc) ∈ before.writes then 1 else 0) +
        (before.writes.filter fun write => write.2 = acc ∧ write.1 < id).card) := by
  have haf : after.writes =
      before.writes.filter fun write => ¬(write.2 = acc ∧ write.1 ≤ id) := by
    ext write
    rw [h.writes, Finset.mem_filter]
  have hgone : (before.writes.filter fun write => write.2 = acc ∧ write.1 ≤ id) =
      (before.writes.filter fun write => write = (id, acc)) ∪
        before.writes.filter fun write => write.2 = acc ∧ write.1 < id := by
    rw [← Finset.filter_or]
    refine Finset.filter_congr ?_
    rintro ⟨other, t⟩ -
    grind
  have hdisjoint : Disjoint (before.writes.filter fun write => write = (id, acc))
      (before.writes.filter fun write => write.2 = acc ∧ write.1 < id) := by
    refine Finset.disjoint_filter.mpr ?_
    rintro write - rfl hlt
    exact Nat.lt_irrefl _ hlt.2
  have hone : (before.writes.filter fun write => write = (id, acc)).card =
      if (id, acc) ∈ before.writes then 1 else 0 := by
    rw [Finset.filter_eq']
    split <;> rfl
  rw [← Finset.card_filter_add_card_filter_not fun write => write.2 = acc ∧ write.1 ≤ id,
    hgone, Finset.card_union_of_disjoint hdisjoint, hone, haf]
  omega

section

variable (h : self.Sound)

include h

theorem Sound.track (id : ℕ) (acc : π) :
    ∃ next, self.step (.act (.track id acc)) = some next ∧ next.Sound := by
  refine ⟨_, rfl, h.indexed.track id acc, fun other ho => ?_, h.closed, ?_⟩
  · have hb := h.waiting other ho
    rw [(h.indexed.track id acc).isSome_iff, AccountState.track_writes]
    obtain ⟨t, hm⟩ := (h.indexed.isSome_iff other).mp hb
    exact ⟨t, Finset.mem_insert_of_mem hm⟩
  · have hact := h.accounted
    dsimp only [counted, AccountAct.takes, AccountAct.adds] at hact ⊢
    rw [AccountState.track_writes, append_nil]
    split
    · rename_i hm
      rw [Finset.insert_eq_of_mem (AccountState.mem_writes.mpr hm)]
      exact hact
    · rename_i hm
      rw [Finset.card_insert_of_notMem (mt AccountState.mem_writes.mp hm), hact]
      rfl

theorem Sound.observe (acc : π) (id : ℕ) (clock : SendClock) (now : ℕ) :
    ∃ next, self.step (.act (.observe acc id clock now)) = some next ∧ next.Sound := by
  obtain ⟨after, hobv, hdrops, hobs, hsup⟩ :=
    AccountState.observe_spec h.indexed acc id clock now
  refine ⟨⟨{ self.feed with state := after }, self.added, self.windows⟩, ?_, hdrops.indexed,
    h.waiting_drops hdrops, fun herr => ?_, ?_⟩
  · simp only [step, AccountAct.run, hobv, AccountAct.adds, AccountAct.takes, Nat.add_zero,
      append_nil]
  · obtain ⟨ids, hws, -⟩ := hdrops.waiters
    dsimp only
    rw [hws, Waiters.wakeAll_of_empty (h.closed herr)]
    exact h.closed herr
  · have hcard := card_drops hdrops
    have hact := h.accounted
    dsimp only [counted] at hact ⊢
    omega

theorem Sound.takeOutcome (rng : Rng) :
    ∃ next, self.step (.act (.takeOutcome rng)) = some next ∧ next.Sound := by
  refine ⟨_, rfl, ⟨h.indexed.inverse, h.indexed.nonempty⟩, h.waiting, h.closed, ?_⟩
  have hact := h.accounted
  dsimp only [counted, AccountAct.takes, AccountAct.adds, AccountState.takeOutcome]
    at hact ⊢
  rw [map_append, sum_append]
  simp only [map_cons, map_nil, sum_cons, sum_nil, Nat.add_zero]
  change _ = _ + self.feed.state.writes.card
  omega

theorem Sound.awaitId (id : ℕ) : ∃ next, self.step (.awaitId id) = some next ∧ next.Sound := by
  refine ⟨_, rfl, ?_⟩
  obtain ⟨r, -, haw⟩ | ⟨hopen, hpd, haw⟩ :=
    (accountObserver π).awaitId_cases self.feed id
  · rw [haw]
    exact ⟨h.indexed, h.waiting, h.closed, h.accounted⟩
  · rw [haw]
    refine ⟨⟨h.indexed.inverse, h.indexed.nonempty⟩, fun other ho => ?_, fun herr => ?_,
      h.accounted⟩
    · by_cases hid : other = id
      · rw [hid]
        exact hpd
      · refine h.waiting other ?_
        rwa [accountObserver, Waiters.lookup_park, if_neg hid] at ho
    · rw [hopen] at herr
      cases herr

/-- **No operation panics, and all keep the invariant.** -/
theorem step_sound (op : AccountOp π) : ∃ next, self.step op = some next ∧ next.Sound := by
  cases op with
  | act act =>
    cases act with
    | track id acc => exact h.track id acc
    | observe acc id clock now => exact h.observe acc id clock now
    | takeOutcome rng => exact h.takeOutcome rng
  | awaitId id => exact h.awaitId id
  | timeOut ch =>
    exact ⟨_, rfl, ⟨h.indexed.inverse, h.indexed.nonempty⟩, h.waiting, h.closed, h.accounted⟩
  | close reason =>
    exact ⟨_, rfl, ⟨h.indexed.inverse, h.indexed.nonempty⟩, fun id hid => absurd rfl hid,
      fun _ => rfl, h.accounted⟩

theorem run_sound (ops : List (AccountOp π)) :
    ∃ final, Machine.run step self ops = some final ∧ final.Sound := by
  induction ops generalizing self with
  | nil => exact ⟨self, rfl, h⟩
  | cons op ops ih =>
    obtain ⟨next, hst, hnx⟩ := step_sound h op
    obtain ⟨final, hrun, hfinal⟩ := ih hnx
    refine ⟨final, ?_, hfinal⟩
    rw [Machine.run, hst]
    exact hrun

end

theorem step_error {next : AccountUpdates π} {op : AccountOp π} (h : self.step op = some next) :
    next.feed.error = match op with
      | .close reason => some reason
      | _ => self.feed.error := by
  cases op with
  | act act =>
    rw [step] at h
    split at h
    · cases h
      rfl
    · cases h
  | awaitId id =>
    cases h
    exact Observer.awaitId_error _ _ _
  | timeOut ch =>
    cases h
    rfl
  | close reason =>
    cases h
    rfl

theorem run_closed {ops : List (AccountOp π)} {final : AccountUpdates π}
    (h : Machine.run step self ops = some final)
    (hcld : self.feed.error.isSome = true ∨ ∃ reason, .close reason ∈ ops) :
    final.feed.error.isSome = true := by
  induction ops generalizing self with
  | nil =>
    cases h
    simpa using hcld
  | cons op ops ih =>
    obtain ⟨next, hst, hr⟩ := Machine.run_cons h
    refine ih hr ?_
    rw [step_error hst]
    obtain herr | ⟨reason, hm⟩ := hcld
    · left
      split
      · rfl
      · exact herr
    · obtain rfl | hm := mem_cons.mp hm
      · exact .inl rfl
      · exact .inr ⟨reason, hm⟩

/-- **The two indexes stay inverse to each other.** After any operations: none of them has panicked;
an account is under an id just when the id is under the account; no id is kept without an account;
whoever waits, waits for a pending id; and after the end of the stream nobody waits. -/
theorem indexes_stay_inverse (rng : Rng) (ops : List (AccountOp π)) :
    ∃ final, Machine.run step (connect rng) ops = some final ∧
      final.feed.state.pending.Inverse final.feed.state.byAccount ∧
      (∀ id, final.feed.state.pending.lookup id ≠ some ∅) ∧
      (∀ id ∈ final.feed.state.waiters.senders, id ∈ final.feed.state.pending) ∧
      ((∃ reason, .close reason ∈ ops) → final.feed.state.waiters.senders = ∅) := by
  obtain ⟨final, hrun, hsound⟩ := run_sound (sound_connect rng) ops
  refine ⟨final, hrun, hsound.indexed.inverse, hsound.indexed.nonempty, fun id hid => ?_,
    fun hclose => hsound.closed (run_closed hrun (.inr hclose))⟩
  refine AList.lookup_isSome.mp (hsound.waiting id ?_)
  exact isSome_iff_ne_none.mp (AList.lookup_isSome.mpr hid)

/-- **Every write is accounted for.** After any operations, an update with an id takes out just the
writes of its account up to this id; it counts the one with this id as observed and the earlier ones
as superseded. And the calls of `track` that added a write are as many as the writes counted in the
outcomes taken, those counted since, and those pending. -/
theorem writes_accounted (rng : Rng) (ops : List (AccountOp π)) :
    ∃ final, Machine.run step (connect rng) ops = some final ∧
      (∀ account id clock now, ∃ after,
        final.feed.state.observe account id clock now = some after ∧
        after.writes =
          final.feed.state.writes.filter (fun write => ¬(write.2 = account ∧ write.1 ≤ id)) ∧
        after.observed = final.feed.state.observed +
          (if (id, account) ∈ final.feed.state.writes then 1 else 0) ∧
        after.superseded = final.feed.state.superseded +
          (final.feed.state.writes.filter fun write => write.2 = account ∧ write.1 < id).card) ∧
      final.added = (final.windows.map fun outcome => outcome.observed + outcome.superseded).sum +
        final.feed.state.observed + final.feed.state.superseded +
        final.feed.state.writes.card := by
  obtain ⟨final, hrun, hsound⟩ := run_sound (sound_connect rng) ops
  refine ⟨final, hrun, fun account id clock now => ?_, hsound.accounted⟩
  obtain ⟨after, hobserve, hdrops, hobserved, hsuperseded⟩ :=
    AccountState.observe_spec hsound.indexed account id clock now
  refine ⟨after, hobserve, ?_, hobserved, hsuperseded⟩
  ext write
  rw [hdrops.writes, Finset.mem_filter]

end AccountUpdates

/-! ### Waiting calls -/

/-- `AccountUpdates`, as the machine of many calls sees it. -/
def accountService (π : Type) [DecidableEq π] : Service (AccountState π) (AccountAct π) where
  toObserver := accountObserver π
  act state act := act.run state
  streaming
    | .observe .. => true
    | _ => false

theorem settles_iff {before after : AccountState π} (hb : before.Indexed)
    (haf : after.Indexed) (id : ℕ) :
    (accountService π).settles before after id = true ↔
      (∃ acc, (id, acc) ∈ before.writes) ∧ ¬∃ acc, (id, acc) ∈ after.writes := by
  rw [← hb.isSome_iff, ← haf.isSome_iff, Service.settles, Bool.and_eq_true,
    Bool.not_eq_true', Bool.not_eq_true]
  rfl

theorem settles_quiet {s next : AccountState π} {act : AccountAct π} (h : s.Indexed)
    (hq : (accountService π).streaming act = false) (hact : act.run s = some next) :
    next.Indexed ∧ next.waiters = s.waiters ∧
      ∀ id, (accountService π).settles s next id = false := by
  cases act with
  | observe acc id clock now => cases hq
  | track id acc =>
    cases hact
    refine ⟨h.track id acc, rfl, fun other => ?_⟩
    rw [← Bool.not_eq_true, settles_iff h (h.track id acc), AccountState.track_writes]
    rintro ⟨⟨t, hm⟩, hnot⟩
    exact hnot ⟨t, Finset.mem_insert_of_mem hm⟩
  | takeOutcome rng =>
    cases hact
    exact ⟨⟨h.inverse, h.nonempty⟩, rfl, fun other => Bool.and_not_self _⟩

theorem accountService_lawful : (accountService π).Lawful AccountState.Indexed where
  waiters_set state waiters := rfl
  sound_set state waiters h := ⟨h.inverse, h.nonempty⟩
  quiet state act next id h hq hact := (settles_quiet h hq hact).2.2 id
  act state act next h hact := by
    cases hstr : (accountService π).streaming act with
    | false =>
      obtain ⟨hindexed, hws, hq⟩ := settles_quiet h hstr hact
      refine ⟨hindexed, [], hws, fun id => ?_⟩
      rw [hq]
      exact ⟨fun hm => absurd hm not_mem_nil, fun hfalse => by cases hfalse⟩
    | true =>
      cases act with
      | observe acc id clock now =>
        obtain ⟨after, hobv, hdrops, -⟩ :=
          AccountState.observe_spec h acc id clock now
        obtain rfl : after = next := some.inj (hobv.symm.trans hact)
        obtain ⟨ids, hws, hids⟩ := hdrops.waiters
        refine ⟨hdrops.indexed, ids, hws, fun other => ?_⟩
        rw [hids, settles_iff h hdrops.indexed]
      | track id acc => cases hstr
      | takeOutcome rng => cases hstr

end Ws

end Redsuite
