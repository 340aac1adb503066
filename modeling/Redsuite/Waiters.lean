import Redsuite.Channel
import Redsuite.Table

/-!
# Waiters by key

A task that waits for a key leaves the sending half of a channel in a table and keeps the receiving
half.
-/

namespace Redsuite

open List

/-- Who waits for which key. -/
structure Waiters (κ : Type) where
  /-- the channel whose sender is kept for a key -/
  senders : Table κ ℕ
  channels : List (κ × Oneshot Unit)

namespace Waiters

variable {κ : Type} {self : Waiters κ} {key other : κ} {ch i : ℕ} {oneshot : Oneshot Unit}

/-! ### The operations -/

def new : Waiters κ := ⟨∅, []⟩

def alter (self : Waiters κ) (channel : ℕ) (change : Oneshot Unit → Oneshot Unit) :
    List (κ × Oneshot Unit) :=
  self.channels.modify channel fun entry => (entry.1, change entry.2)

def poll (self : Waiters κ) (channel : ℕ) : Poll (Option Unit) :=
  match self.channels[channel]? with
  | some entry => entry.2.poll
  | none => .pending

def leave (self : Waiters κ) (channel : ℕ) : Waiters κ :=
  { self with channels := self.alter channel Oneshot.dropReceiver }

def clear (self : Waiters κ) : Waiters κ where
  senders := ∅
  channels := self.channels.mapIdx fun channel entry =>
    if self.senders.any (· = channel) then (entry.1, entry.2.dropSender) else entry

theorem getElem?_alter (change : Oneshot Unit → Oneshot Unit) :
    (self.alter ch change)[i]? =
      self.channels[i]?.map fun e =>
        if ch = i then (e.1, change e.2) else e := by
  rw [alter, getElem?_modify]
  rfl

variable [DecidableEq κ]

section

variable (self : Waiters κ)

/-- The sender for the key, if there is one, is taken out, and this becomes of its channel. -/
def remove (key : κ) (change : Oneshot Unit → Oneshot Unit) : Waiters κ :=
  match self.senders.lookup key with
  | some channel => ⟨self.senders.erase key, self.alter channel change⟩
  | none => self

def wake (key : κ) : Waiters κ :=
  self.remove key fun sender => (sender.send ()).1

/-- A fresh channel for the key; its number is the number of channels before. -/
def push (key : κ) : Waiters κ :=
  ⟨self.senders.insert key self.channels.length, self.channels ++ [(key, Oneshot.new)]⟩

/-- A fresh channel for the key; the sender it replaces is dropped. -/
def park (key : κ) : Waiters κ := (self.remove key Oneshot.dropSender).push key

def wakeAll (keys : List κ) : Waiters κ := keys.foldl wake self

end

theorem wakeAll_append (first second : List κ) :
    self.wakeAll (first ++ second) = (self.wakeAll first).wakeAll second :=
  foldl_append

/-! ### The table after an operation -/

theorem length_remove (key : κ) (change : Oneshot Unit → Oneshot Unit) :
    (self.remove key change).channels.length = self.channels.length := by
  rw [remove]
  cases self.senders.lookup key with
  | none => rfl
  | some ch => exact length_modify _ _ _

theorem lookup_remove (change : Oneshot Unit → Oneshot Unit) :
    (self.remove key change).senders.lookup other =
      if other = key then none else self.senders.lookup other := by
  rw [remove]
  cases hk : self.senders.lookup key with
  | some ch => exact Table.lookup_erase_iff
  | none =>
    by_cases ho : other = key
    · rw [if_pos ho, ho]
      exact hk
    · rw [if_neg ho]

theorem lookup_park : (self.park key).senders.lookup other =
    if other = key then some self.channels.length else self.senders.lookup other := by
  rw [park, push, Table.lookup_insert_iff, length_remove, lookup_remove]
  grind

theorem lookup_wakeAll (keys : List κ) : (self.wakeAll keys).senders.lookup other =
    if other ∈ keys then none else self.senders.lookup other := by
  induction keys generalizing self with
  | nil => rfl
  | cons key keys ih =>
    rw [wakeAll, foldl_cons, ← wakeAll, ih, wake, lookup_remove]
    by_cases hkeys : other ∈ keys
    · simp [hkeys]
    · simp [hkeys]

theorem wakeAll_of_empty (h : self.senders = ∅) (keys : List κ) : self.wakeAll keys = self := by
  induction keys with
  | nil => rfl
  | cons key keys ih =>
    have hn : self.senders.lookup key = none := by
      rw [h]
      rfl
    have hwake : self.wake key = self := by rw [wake, remove, hn]
    rw [wakeAll, foldl_cons, hwake]
    exact ih

/-! ### Whose sender it is -/

/-- Somebody waits there for the key. -/
def Holds (self : Waiters κ) (channel : ℕ) (key : κ) : Prop :=
  ∃ oneshot, self.channels[channel]? = some (key, oneshot) ∧ oneshot.receiver = true

omit [DecidableEq κ] in
theorem Holds.lt (h : self.Holds ch key) : ch < self.channels.length := by
  obtain ⟨oneshot, he, -⟩ := h
  exact lt_of_getElem? he

/-- A sender in the table is one that is alive, and a channel with a value has none. -/
structure Wf (waiters : Waiters κ) : Prop where
  sender : ∀ key channel, waiters.senders.lookup key = some channel ↔
    ∃ oneshot, waiters.channels[channel]? = some (key, oneshot) ∧ oneshot.sender = true
  settled : ∀ (channel : ℕ) (key : κ) (oneshot : Oneshot Unit),
    waiters.channels[channel]? = some (key, oneshot) → oneshot.Settled

theorem wf_new : (new : Waiters κ).Wf where
  sender key ch := by simp [new]
  settled ch key oneshot h := by simp [new] at h

theorem Wf.lookup_iff (h : self.Wf) (he : self.channels[i]? = some (key, oneshot))
    (other : κ) : self.senders.lookup other = some i ↔ other = key ∧ oneshot.sender = true := by
  rw [h.sender, he]
  constructor
  · rintro ⟨found, hf, hsdr⟩
    cases hf
    exact ⟨rfl, hsdr⟩
  · rintro ⟨rfl, hsdr⟩
    exact ⟨oneshot, rfl, hsdr⟩

theorem Wf.any_iff (h : self.Wf) (he : self.channels[i]? = some (key, oneshot)) :
    self.senders.any (· = i) = true ↔ oneshot.sender = true := by
  rw [Table.any_iff]
  simp only [decide_eq_true_eq, exists_eq_right, h.lookup_iff he, exists_eq_left]

/-! ### Senders that are used up -/

/-- The senders of some keys are used up, in one way. -/
structure Retires (before after : Waiters κ) (gone : κ → Bool)
    (change : Oneshot Unit → Oneshot Unit) : Prop where
  length : after.channels.length = before.channels.length
  senders : ∀ key, after.senders.lookup key =
    if gone key then none else before.senders.lookup key
  channels : ∀ (channel : ℕ) (key : κ) (oneshot : Oneshot Unit),
    before.channels[channel]? = some (key, oneshot) →
    after.channels[channel]? =
      some (key, if gone key && oneshot.sender then change oneshot else oneshot)

variable {before after : Waiters κ} {gone : κ → Bool} {change : Oneshot Unit → Oneshot Unit}

section

variable (h : Retires before after gone change)

include h

theorem Retires.origin (he : after.channels[ch]? = some (key, oneshot)) : ∃ old,
    before.channels[ch]? = some (key, old) ∧ oneshot = if gone key && old.sender then change old
    else old := by
  have hlt : ch < before.channels.length := by
    rw [← h.length]
    exact lt_of_getElem? he
  obtain ⟨⟨found, old⟩, hold⟩ : ∃ e, before.channels[ch]? = some e :=
    ⟨_, getElem?_eq_getElem hlt⟩
  have hnew := h.channels ch found old hold
  rw [he] at hnew
  cases hnew
  exact ⟨old, hold, rfl⟩

theorem Retires.wf (hwf : before.Wf) (hsdr : ∀ oneshot, (change oneshot).sender = false) :
    after.Wf where
  sender key ch := by
    rw [h.senders]
    constructor
    · intro hlk
      split at hlk
      · cases hlk
      · rename_i hgone
        obtain ⟨oneshot, he, hl⟩ := (hwf.sender key ch).mp hlk
        refine ⟨oneshot, ?_, hl⟩
        rw [h.channels ch key oneshot he, if_neg (by simp [hgone])]
    · rintro ⟨oneshot, he, hl⟩
      obtain ⟨old, hold, rfl⟩ := h.origin he
      grind [Wf.sender]
  settled ch key oneshot he := by
    obtain ⟨old, hold, rfl⟩ := h.origin he
    split
    · exact fun _ => hsdr old
    · exact hwf.settled ch key old hold

theorem Retires.holds (hrcv : ∀ oneshot, (change oneshot).receiver = oneshot.receiver)
    (hhs : before.Holds ch key) : after.Holds ch key := by
  obtain ⟨oneshot, he, hl⟩ := hhs
  refine ⟨_, h.channels ch key oneshot he, ?_⟩
  split
  · rw [hrcv]
    exact hl
  · exact hl

theorem Retires.poll (hwf : before.Wf) (ans : Poll (Option Unit))
    (hans : ∀ oneshot, oneshot.Settled → oneshot.receiver = true → oneshot.sender = true →
      (change oneshot).poll = ans)
    (hhs : before.Holds ch key) :
    after.poll ch =
      if gone key = true ∧ before.poll ch = .pending then ans else before.poll ch := by
  obtain ⟨oneshot, he, hl⟩ := hhs
  have hset := hwf.settled ch key oneshot he
  rw [Waiters.poll, Waiters.poll, h.channels ch key oneshot he, he]
  simp only [hset.poll_eq_pending]
  by_cases hgone : gone key = true ∧ oneshot.sender = true
  · rw [if_pos hgone, if_pos (by simpa using hgone)]
    exact hans oneshot hset hl hgone.2
  · rw [if_neg hgone, if_neg (by simpa using hgone)]

end

theorem remove_retires (hwf : self.Wf) (key : κ) (change : Oneshot Unit → Oneshot Unit) :
    Retires self (self.remove key change) (· = key) change where
  length := length_remove key change
  senders other := by simp only [lookup_remove, decide_eq_true_eq]
  channels ch owner oneshot he := by
    have hlk := hwf.lookup_iff he key
    rw [remove]
    cases hk : self.senders.lookup key with
    | none => grind
    | some found =>
      rw [getElem?_alter]
      grind

theorem clear_retires (hwf : self.Wf) :
    Retires self self.clear (fun _ => true) Oneshot.dropSender where
  length := length_mapIdx
  senders key := rfl
  channels ch key oneshot he := by
    rw [clear, getElem?_mapIdx]
    have hany := hwf.any_iff he
    grind

/-! ### What the operations do to the polls -/

theorem send_sender (oneshot : Oneshot Unit) : (oneshot.send ()).1.sender = false := by
  rw [Oneshot.send]
  split <;> rfl

theorem send_receiver (oneshot : Oneshot Unit) :
    (oneshot.send ()).1.receiver = oneshot.receiver := by
  rw [Oneshot.send]
  split <;> rfl

theorem Wf.wake (h : self.Wf) (key : κ) : (self.wake key).Wf :=
  (remove_retires h key _).wf h send_sender

theorem Holds.wake (h : self.Holds ch key) (hwf : self.Wf) (other : κ) :
    (self.wake other).Holds ch key :=
  (remove_retires hwf other _).holds send_receiver h

theorem poll_wake (h : self.Wf) (hhs : self.Holds ch key) (other : κ) :
    (self.wake other).poll ch =
      if key = other ∧ self.poll ch = .pending then .ready (some ())
      else self.poll ch := by
  have hans : ∀ oneshot : Oneshot Unit, oneshot.Settled → oneshot.receiver = true →
      oneshot.sender = true → (oneshot.send ()).1.poll = .ready (some ()) := by
    intro oneshot _ hrcv hsdr
    rw [Oneshot.poll_send hrcv, if_pos hsdr]
  have hpoll := (remove_retires h other _).poll h _ hans hhs
  simp only [decide_eq_true_eq] at hpoll
  exact hpoll

theorem Wf.wakeAll (h : self.Wf) (keys : List κ) : (self.wakeAll keys).Wf := by
  induction keys generalizing self with
  | nil => exact h
  | cons key keys ih => exact ih (h.wake key)

theorem Holds.wakeAll (h : self.Holds ch key) (hwf : self.Wf) (keys : List κ) :
    (self.wakeAll keys).Holds ch key := by
  induction keys generalizing self with
  | nil => exact h
  | cons other keys ih => exact ih (h.wake hwf other) (hwf.wake other)

/-- **A waiter is woken when its key is among those that are settled.** -/
theorem poll_wakeAll (h : self.Wf) (hhs : self.Holds ch key) (keys : List κ) :
    (self.wakeAll keys).poll ch =
      if key ∈ keys ∧ self.poll ch = .pending then .ready (some ())
      else self.poll ch := by
  induction keys generalizing self with
  | nil => simp [Waiters.wakeAll]
  | cons other keys ih =>
    rw [Waiters.wakeAll, foldl_cons, ← Waiters.wakeAll,
      ih (h.wake other) (hhs.wake h other), poll_wake h hhs other]
    grind

theorem Wf.clear (h : self.Wf) : self.clear.Wf := (clear_retires h).wf h fun _ => rfl

theorem Holds.clear (h : self.Holds ch key) (hwf : self.Wf) : self.clear.Holds ch key :=
  (clear_retires hwf).holds (fun _ => rfl) h

theorem poll_dropSender (oneshot : Oneshot Unit) (hset : oneshot.Settled)
    (_ : oneshot.receiver = true) (hsdr : oneshot.sender = true) :
    oneshot.dropSender.poll = .ready none := by
  rw [hset.poll_dropSender, if_pos hsdr]

/-- **A waiter that still waits when all senders are dropped learns that nothing will come.** -/
theorem poll_clear (h : self.Wf) (hhs : self.Holds ch key) :
    self.clear.poll ch =
      if self.poll ch = .pending then .ready none else self.poll ch := by
  have hpoll := (clear_retires h).poll h _ poll_dropSender hhs
  simpa only [true_and] using hpoll

theorem holds_park : (self.park key).Holds self.channels.length key := by
  refine ⟨Oneshot.new, ?_, rfl⟩
  rw [← length_remove key Oneshot.dropSender]
  exact getElem?_concat_length

theorem poll_park_self : (self.park key).poll self.channels.length = .pending := by
  have he : (self.park key).channels[self.channels.length]? = some (key, Oneshot.new) := by
    rw [← length_remove key Oneshot.dropSender]
    exact getElem?_concat_length
  rw [poll, he]
  rfl

theorem getElem?_park (hchannel : ch < self.channels.length) (key : κ) :
    (self.park key).channels[ch]? =
      (self.remove key Oneshot.dropSender).channels[ch]? := by
  rw [← length_remove key Oneshot.dropSender] at hchannel
  exact getElem?_append_left hchannel

theorem Holds.park (h : self.Holds ch key) (hwf : self.Wf) (other : κ) :
    (self.park other).Holds ch key := by
  obtain ⟨oneshot, he, hl⟩ :=
    (remove_retires hwf other Oneshot.dropSender).holds (fun _ => rfl) h
  exact ⟨oneshot, (getElem?_park h.lt other).trans he, hl⟩

/-- **A waiter whose sender is replaced learns that nothing will come.** -/
theorem poll_park (h : self.Wf) (hhs : self.Holds ch key) (other : κ) :
    (self.park other).poll ch =
      if key = other ∧ self.poll ch = .pending then .ready none else self.poll ch := by
  have hpoll := (remove_retires h other Oneshot.dropSender).poll h _ poll_dropSender hhs
  simp only [decide_eq_true_eq] at hpoll
  rw [← hpoll, poll, poll, getElem?_park hhs.lt]

theorem Wf.push (h : self.Wf) (hn : self.senders.lookup key = none) : (self.push key).Wf where
  sender other ch := by
    rw [Waiters.push, Table.lookup_insert_iff]
    constructor
    · intro hlk
      split at hlk
      · rename_i ho
        cases hlk
        rw [ho]
        exact ⟨Oneshot.new, getElem?_concat_length, rfl⟩
      · obtain ⟨oneshot, he, hl⟩ := (h.sender other ch).mp hlk
        exact ⟨oneshot, getElem?_append_of he _, hl⟩
    · rintro ⟨oneshot, he, hl⟩
      obtain ⟨rfl, heq⟩ | ⟨-, hold⟩ := of_getElem?_concat he
      · cases heq
        exact if_pos rfl
      · have hlk := (h.sender other ch).mpr ⟨oneshot, hold, hl⟩
        have hne : other ≠ key := by
          rintro rfl
          rw [hn] at hlk
          cases hlk
        rw [if_neg hne]
        exact hlk
  settled ch other oneshot he := by
    obtain ⟨-, heq⟩ | ⟨-, hold⟩ := of_getElem?_concat he
    · cases heq
      exact Oneshot.settled_new
    · exact h.settled ch other oneshot hold

theorem Wf.park (h : self.Wf) (key : κ) : (self.park key).Wf := by
  have hremoved : (self.remove key Oneshot.dropSender).Wf :=
    (remove_retires h key _).wf h fun _ => rfl
  refine hremoved.push ?_
  rw [lookup_remove, if_pos rfl]

theorem Wf.leave (h : self.Wf) (ch : ℕ) : (self.leave ch).Wf where
  sender key i := by
    rw [Waiters.leave, getElem?_alter, h.sender]
    cases self.channels[i]? with
    | none => simp
    | some e => grind [Oneshot.dropReceiver]
  settled i key oneshot he := by
    rw [Waiters.leave, getElem?_alter] at he
    obtain ⟨⟨owner, old⟩, hold, hnew⟩ := Option.map_eq_some_iff.mp he
    have hset := h.settled i owner old hold
    split at hnew
    · cases hnew
      intro hval
      cases hval
    · cases hnew
      exact hset

omit [DecidableEq κ] in
theorem Holds.leave (h : self.Holds ch key) {other : ℕ} (hne : other ≠ ch) :
    (self.leave other).Holds ch key := by
  obtain ⟨oneshot, he, hl⟩ := h
  refine ⟨oneshot, ?_, hl⟩
  rw [Waiters.leave, getElem?_alter, he, Option.map_some, if_neg hne]

omit [DecidableEq κ] in
theorem poll_leave {other : ℕ} (hne : other ≠ ch) :
    (self.leave other).poll ch = self.poll ch := by
  rw [poll, poll, leave, getElem?_alter]
  cases self.channels[ch]? with
  | none => rfl
  | some e => rw [Option.map_some, if_neg hne]

end Waiters

end Redsuite
