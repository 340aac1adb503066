import Redsuite.Events
import Redsuite.Machine
import Redsuite.Waiters

/-!
# Waiting for an id

`AccountUpdates` and `SignatureConfirmations` of `core/src/transport/ws.rs` both follow ids that are
pending until a notification settles them, and both have an `await_id`.
-/

namespace Redsuite

namespace Ws

open Events (CloseReason)

/-- What the users of a connection share with its reader. -/
structure Feed (σ : Type) where
  state : σ
  error : Option CloseReason

/-- What `await_id` needs of a state. -/
structure Observer (σ : Type) where
  pending : σ → ℕ → Bool
  waiters : σ → Waiters ℕ
  setWaiters : σ → Waiters ℕ → σ
  timedOut : String
  /-- the text of the error when the sender is gone -/
  streamFailed : String

/-- Why `await_id` fails. -/
inductive Failure : Type where
  /-- `check_error`: the stream had ended before -/
  | ended (reason : CloseReason)
  | timedOut
  | streamFailed
  deriving DecidableEq

/-- `await_id` up to its first await. -/
inductive Begun : Type where
  | returned (result : Except Failure Unit)
  | parked (channel : ℕ)

variable {σ ω : Type}

namespace Observer

section

variable (self : Observer σ)

include self

/-- The text of an error; that of `check_error` is written elsewhere. -/
def text : Failure → Option String
  | .ended _ => none
  | .timedOut => some self.timedOut
  | .streamFailed => some self.streamFailed

/-- `await_id`, up to its wait. -/
def awaitId (feed : Feed σ) (id : ℕ) : Feed σ × Begun :=
  match feed.error with
  | some reason => (feed, .returned (.error (.ended reason)))
  | none =>
    if self.pending feed.state id then
      let waiters := self.waiters feed.state
      ({ feed with state := self.setWaiters feed.state (waiters.park id) },
        .parked waiters.channels.length)
    else (feed, .returned (.ok ()))

theorem awaitId_cases (feed : Feed σ) (id : ℕ) :
    (∃ r, r ≠ .error .streamFailed ∧ self.awaitId feed id = (feed, .returned r)) ∨ feed.error = none
    ∧ self.pending feed.state id = true ∧ self.awaitId feed id =
    ({ feed with state := self.setWaiters feed.state ((self.waiters feed.state).park id)
    },
          .parked (self.waiters feed.state).channels.length) := by
  rw [awaitId]
  split
  · exact .inl ⟨_, (fun h => by cases h), rfl⟩
  · rename_i hopen
    split
    · rename_i hpd
      exact .inr ⟨hopen, hpd, rfl⟩
    · exact .inl ⟨_, (fun h => by cases h), rfl⟩

theorem awaitId_error (feed : Feed σ) (id : ℕ) : (self.awaitId feed id).1.error = feed.error := by
  obtain ⟨r, -, haw⟩ | ⟨-, -, haw⟩ := self.awaitId_cases feed id
  · rw [haw]
  · rw [haw]

/-- The wait of `await_id` is over: its receiver is dropped. -/
def leave (feed : Feed σ) (channel : ℕ) : Feed σ :=
  { feed with state := self.setWaiters feed.state ((self.waiters feed.state).leave channel) }

/-- `time::timeout(NETWORK_TIMEOUT, rx)`, polled before or after its time: the receiver is polled
first. -/
def wait (feed : Feed σ) (channel : ℕ) (expired : Bool) : Poll (Except Failure Unit) :=
  match (self.waiters feed.state).poll channel with
  | .ready (some ()) => .ready (.ok ())
  | .ready none => .ready (.error .streamFailed)
  | .pending => if expired then .ready (.error .timedOut) else .pending

/-- `Router::close`: the error is kept, and `on_close` clears the waiters. -/
def close (feed : Feed σ) (reason : CloseReason) : Feed σ :=
  ⟨self.setWaiters feed.state (self.waiters feed.state).clear, some reason⟩

end

end Observer

/-! ### Many calls -/

/-- A service that ids are awaited of. -/
structure Service (σ ω : Type) : Type extends Observer σ where
  act : σ → ω → Option σ
  /-- it is made by the reader, or after `check_error`: only while the stream lasts -/
  streaming : ω → Bool

/-- Where a call of `await_id` is. -/
inductive CallPhase : Type where
  | waiting (channel : ℕ)
  | returned (result : Except Failure Unit)
  | dropped
  deriving DecidableEq

/-- A call of `await_id`. The flags, not in the source, record what happened while it waited. -/
structure Call where
  id : ℕ
  phase : CallPhase
  settled : Bool
  closed : Bool
  /-- another call for the id parked a sender, before the id was settled -/
  crowded : Bool
  deriving DecidableEq

def Call.new (id : ℕ) : Begun → Call
  | .returned result => ⟨id, .returned result, false, false, false⟩
  | .parked channel => ⟨id, .waiting channel, false, false, false⟩

def Call.waits (self : Call) : Bool :=
  match self.phase with
  | .waiting _ => true
  | _ => false

def Call.noteSettled (settled : ℕ → Bool) (self : Call) : Call :=
  if self.waits && settled self.id then { self with settled := true } else self

def Call.noteClosed (self : Call) : Call :=
  if self.waits then { self with closed := true } else self

def Call.noteParked (id : ℕ) (self : Call) : Call :=
  if self.waits && !self.settled && self.id = id then { self with crowded := true } else self

/-- The service, with all calls of `await_id`. -/
structure Awaiting (σ : Type) where
  feed : Feed σ
  calls : List Call

/-- What can happen next. -/
inductive Event (ω : Type) : Type where
  | act (op : ω)
  /-- `await_id` is called -/
  | awaitId (id : ℕ)
  | poll (call : ℕ) (expired : Bool)
  | drop (call : ℕ)
  | close (reason : CloseReason)

namespace Service

def finish (self : Service σ ω) (state : Awaiting σ) (index : ℕ) (call : Call) (channel : ℕ)
    (phase : CallPhase) : Awaiting σ :=
  ⟨self.leave state.feed channel, state.calls.set index { call with phase }⟩

/-- The id was pending, and is not any more. -/
def settles (self : Service σ ω) (before after : σ) (id : ℕ) : Bool :=
  self.pending before id && !self.pending after id

def step (self : Service σ ω) (state : Awaiting σ) : Event ω → Option (Awaiting σ)
  | .act op =>
    if self.streaming op && state.feed.error.isSome then none
    else
      match self.act state.feed.state op with
      | some next =>
        some ⟨{ state.feed with state := next },
          state.calls.map (Call.noteSettled (self.settles state.feed.state next))⟩
      | none => none
  | .awaitId id =>
    let (feed, begun) := self.awaitId state.feed id
    match begun with
    | .returned _ => some ⟨feed, state.calls ++ [Call.new id begun]⟩
    | .parked _ => some ⟨feed, state.calls.map (Call.noteParked id) ++ [Call.new id begun]⟩
  | .poll index expired =>
    match state.calls[index]? with
    | some call =>
      match call.phase with
      | .waiting channel =>
        match self.wait state.feed channel expired with
        | .ready result => some (self.finish state index call channel (.returned result))
        | .pending => none
      | _ => none
    | none => none
  | .drop index =>
    match state.calls[index]? with
    | some call =>
      match call.phase with
      | .waiting channel => some (self.finish state index call channel .dropped)
      | _ => none
    | none => none
  | .close reason => some ⟨self.close state.feed reason, state.calls.map Call.noteClosed⟩

def start (state : σ) : Awaiting σ := ⟨⟨state, none⟩, []⟩

def Reachable (self : Service σ ω) (initial : σ) (state : Awaiting σ) : Prop :=
  Machine.Reachable self.step (start initial) state

end Service

/-! ### What the notes change -/

/-- It notes something about calls that wait. -/
structure IsNote (note : Call → Call) : Prop where
  phase : ∀ call, (note call).phase = call.phase
  id : ∀ call, (note call).id = call.id
  idle : ∀ call, call.waits = false → note call = call

theorem Call.isNote_noteSettled (settled : ℕ → Bool) : IsNote (Call.noteSettled settled) where
  phase call := by
    rw [noteSettled]
    split <;> rfl
  id call := by
    rw [noteSettled]
    split <;> rfl
  idle call hidle := by
    rw [noteSettled, hidle]
    rfl

theorem Call.isNote_noteClosed : IsNote Call.noteClosed where
  phase call := by
    rw [noteClosed]
    split <;> rfl
  id call := by
    rw [noteClosed]
    split <;> rfl
  idle call hidle := by
    rw [noteClosed, hidle]
    rfl

theorem Call.isNote_noteParked (id : ℕ) : IsNote (Call.noteParked id) where
  phase call := by
    rw [noteParked]
    split <;> rfl
  id call := by
    rw [noteParked]
    split <;> rfl
  idle call hidle := by
    rw [noteParked, hidle]
    rfl

theorem Call.waits_of_waiting {self : Call} {ch : ℕ} (h : self.phase = .waiting ch) :
    self.waits = true := by
  rw [waits, h]

namespace Service

/-- What the other operations have to keep, for states of some kind: one wakes the waiters of just
the ids it settles, and only one that needs the stream settles any. -/
structure Lawful (service : Service σ ω) (Sound : σ → Prop) : Prop where
  waiters_set : ∀ state waiters, service.waiters (service.setWaiters state waiters) = waiters
  sound_set : ∀ state waiters, Sound state → Sound (service.setWaiters state waiters)
  act : ∀ state op next, Sound state → service.act state op = some next → Sound next ∧
    ∃ ids, service.waiters next = (service.waiters state).wakeAll ids ∧
      ∀ id, id ∈ ids ↔ service.settles state next id = true
  quiet : ∀ state op next id, Sound state → service.streaming op = false →
    service.act state op = some next → service.settles state next id = false

/-- What a waiting call is going to find, and why. -/
structure Told (answer : Poll (Option Unit)) (call : Call) (ended : Bool) : Prop where
  failed : answer = .ready none → call.closed = true ∨ call.crowded = true
  settled : call.settled = true → answer = .ready (some ()) ∨ call.crowded = true
  closed : call.closed = true → ended = true

section Told

variable {ans : Poll (Option Unit)} {call : Call} {ended : Bool}

theorem Told.settle (h : Told ans call false) :
    Told (if ans = .pending then .ready (some ()) else ans) { call with settled := true }
      false where
  failed hn := by
    split at hn
    · cases hn
    · exact h.failed hn
  settled _ := by
    split
    · exact .inl rfl
    · rename_i hans
      cases ans with
      | pending => exact absurd rfl hans
      | ready v =>
        cases v with
        | some => exact .inl rfl
        | none =>
          obtain hcld | hcr := h.failed rfl
          · cases h.closed hcld
          · exact .inr hcr
  closed := h.closed

theorem Told.close (h : Told ans call ended) :
    Told (if ans = .pending then .ready none else ans) { call with closed := true } true where
  failed _ := .inl rfl
  settled hset := by
    obtain hans | hcr := h.settled hset
    · rw [hans]
      exact .inl rfl
    · exact .inr hcr
  closed _ := rfl

theorem Told.crowd (h : Told ans call ended) :
    Told (if ans = .pending then .ready none else ans)
      (if !call.settled then { call with crowded := true } else call) ended := by
  cases hset : call.settled with
  | false => exact ⟨fun _ => .inr rfl, fun _ => .inr rfl, h.closed⟩
  | true =>
    obtain hans | hcr := h.settled hset
    · rw [hans] at h ⊢
      exact h
    · exact ⟨fun _ => .inr hcr, fun _ => .inr hcr, h.closed⟩

end Told

/-- The result is the one the call should have. -/
structure Fair (call : Call) (result : Except Failure Unit) : Prop where
  failed : result = .error .streamFailed → call.closed = true ∨ call.crowded = true
  settled : call.settled = true → result = .ok () ∨ call.crowded = true

/-- What holds at every await. -/
structure Inv (service : Service σ ω) (Sound : σ → Prop) (state : Awaiting σ) : Prop where
  sound : Sound state.feed.state
  wf : (service.waiters state.feed.state).Wf
  held : ∀ (index : ℕ) (call : Call) (channel : ℕ), state.calls[index]? = some call →
    call.phase = .waiting channel →
    (service.waiters state.feed.state).Holds channel call.id ∧
      Told ((service.waiters state.feed.state).poll channel) call state.feed.error.isSome
  apart : ∀ (index other : ℕ) (call rival : Call) (channel : ℕ),
    state.calls[index]? = some call → state.calls[other]? = some rival →
    call.phase = .waiting channel → rival.phase = .waiting channel → index = other
  fair : ∀ (index : ℕ) (call : Call) (result : Except Failure Unit),
    state.calls[index]? = some call → call.phase = .returned result → Fair call result

variable {sv : Service σ ω} {Sound : σ → Prop} {state : Awaiting σ}

/-- **A step that changes what the calls are going to find.** -/
theorem Inv.notes (h : Inv sv Sound state) {feed : Feed σ} {note : Call → Call}
    (hsd : Sound feed.state) (hwf : (sv.waiters feed.state).Wf) (hnote : IsNote note)
    (hheld : ∀ call ch, call.phase = .waiting ch →
      (sv.waiters state.feed.state).Holds ch call.id →
      Told ((sv.waiters state.feed.state).poll ch) call state.feed.error.isSome →
      (sv.waiters feed.state).Holds ch call.id ∧
        Told ((sv.waiters feed.state).poll ch) (note call) feed.error.isSome) :
    Inv sv Sound ⟨feed, state.calls.map note⟩ := by
  have horigin : ∀ (i : ℕ) (call : Call), (state.calls.map note)[i]? = some call →
      ∃ old, state.calls[i]? = some old ∧ note old = call := by
    intro i call hc
    rwa [List.getElem?_map, Option.map_eq_some_iff] at hc
  refine ⟨hsd, hwf, ?_, ?_, ?_⟩
  · intro i call ch hc hw
    obtain ⟨old, hold, rfl⟩ := horigin i call hc
    rw [hnote.phase] at hw
    obtain ⟨hhs, htold⟩ := h.held i old ch hold hw
    rw [hnote.id]
    exact hheld old ch hw hhs htold
  · intro i other call rival ch hc hrival hw ho
    obtain ⟨old, hold, rfl⟩ := horigin i call hc
    obtain ⟨oldRival, holdRival, rfl⟩ := horigin other rival hrival
    rw [hnote.phase] at hw ho
    exact h.apart i other old oldRival ch hold holdRival hw ho
  · intro i call r hc hret
    obtain ⟨old, hold, rfl⟩ := horigin i call hc
    rw [hnote.phase] at hret
    rw [hnote.idle old (by rw [Call.waits, hret])]
    exact h.fair i old r hold hret

theorem Inv.act (h : Inv sv Sound state) (hlaw : sv.Lawful Sound) {op : ω} {next : σ}
    (hstr : sv.streaming op = true → state.feed.error = none)
    (hact : sv.act state.feed.state op = some next) :
    Inv sv Sound ⟨{ state.feed with state := next },
      state.calls.map (Call.noteSettled (sv.settles state.feed.state next))⟩ := by
  obtain ⟨hsd, ids, hws, hids⟩ := hlaw.act _ op next h.sound hact
  have hwf : (sv.waiters next).Wf := by
    rw [hws]
    exact h.wf.wakeAll ids
  refine h.notes hsd hwf (Call.isNote_noteSettled _) fun call ch hw hhs htold => ?_
  rw [hws, Waiters.poll_wakeAll h.wf hhs ids]
  refine ⟨hhs.wakeAll h.wf ids, ?_⟩
  by_cases hset : sv.settles state.feed.state next call.id = true
  · -- Ids are settled only while the stream lasts.
    have hopen : state.feed.error = none := by
      cases hop : sv.streaming op with
      | true => exact hstr hop
      | false =>
        rw [hlaw.quiet _ op next call.id h.sound hop hact] at hset
        cases hset
    rw [hopen] at htold ⊢
    simp only [(hids call.id).mpr hset, true_and, Call.noteSettled, hset,
      Call.waits_of_waiting hw, Bool.and_self, if_true]
    exact htold.settle
  · simp only [mt (hids call.id).mp hset, false_and, Call.noteSettled, hset,
      Bool.and_false, if_false, Bool.false_eq_true]
    exact htold

theorem Inv.close (h : Inv sv Sound state) (hlaw : sv.Lawful Sound)
    (reason : CloseReason) :
    Inv sv Sound ⟨sv.close state.feed reason, state.calls.map Call.noteClosed⟩ := by
  have hws := hlaw.waiters_set state.feed.state (sv.waiters state.feed.state).clear
  refine h.notes (hlaw.sound_set _ _ h.sound) ?_ Call.isNote_noteClosed
    fun call ch hw hhs htold => ?_
  · rw [Observer.close, hws]
    exact h.wf.clear
  · rw [Observer.close, hws, Waiters.poll_clear h.wf hhs, Call.noteClosed,
      if_pos (Call.waits_of_waiting hw)]
    exact ⟨hhs.clear h.wf, htold.close⟩

variable {call : Call}

theorem Inv.append (h : Inv sv Sound state)
    (hheld : ∀ ch, call.phase = .waiting ch →
      (sv.waiters state.feed.state).Holds ch call.id ∧
      Told ((sv.waiters state.feed.state).poll ch) call state.feed.error.isSome ∧
      ∀ (i : ℕ) (rival : Call), state.calls[i]? = some rival →
        rival.phase ≠ .waiting ch)
    (hfair : ∀ r, call.phase = .returned r → Fair call r) :
    Inv sv Sound ⟨state.feed, state.calls ++ [call]⟩ := by
  refine ⟨h.sound, h.wf, ?_, ?_, ?_⟩
  · intro i found ch hf hw
    obtain ⟨-, rfl⟩ | ⟨-, hold⟩ := of_getElem?_concat hf
    · exact ⟨(hheld ch hw).1, (hheld ch hw).2.1⟩
    · exact h.held i found ch hold hw
  · intro i other found rival ch hf hrival hw ho
    obtain ⟨rfl, rfl⟩ | ⟨-, hold⟩ := of_getElem?_concat hf
    · obtain ⟨rfl, -⟩ | ⟨-, holdRival⟩ := of_getElem?_concat hrival
      · rfl
      · exact absurd ho ((hheld ch hw).2.2 other rival holdRival)
    · obtain ⟨rfl, rfl⟩ | ⟨-, holdRival⟩ := of_getElem?_concat hrival
      · exact absurd hw ((hheld ch ho).2.2 i found hold)
      · exact h.apart i other found rival ch hold holdRival hw ho
  · intro i found r hf hret
    obtain ⟨-, rfl⟩ | ⟨-, hold⟩ := of_getElem?_concat hf
    · exact hfair r hret
    · exact h.fair i found r hold hret

theorem Inv.append_returned (h : Inv sv Sound state) (id : ℕ)
    {r : Except Failure Unit} (hres : r ≠ .error .streamFailed) :
    Inv sv Sound ⟨state.feed, state.calls ++ [Call.new id (.returned r)]⟩ := by
  refine h.append (fun ch hw => by cases hw) fun found hf => ?_
  cases hf
  exact ⟨fun hfl => absurd hfl hres, fun hset => by cases hset⟩

theorem Inv.append_parked (h : Inv sv Sound state) (hlaw : sv.Lawful Sound) (id : ℕ) :
    Inv sv Sound ⟨{ state.feed with
        state := sv.setWaiters state.feed.state ((sv.waiters state.feed.state).park id) },
      state.calls.map (Call.noteParked id) ++
        [Call.new id (.parked (sv.waiters state.feed.state).channels.length)]⟩ := by
  have hws := hlaw.waiters_set state.feed.state ((sv.waiters state.feed.state).park id)
  have hntd : Inv sv Sound ⟨{ state.feed with
      state := sv.setWaiters state.feed.state ((sv.waiters state.feed.state).park id) },
      state.calls.map (Call.noteParked id)⟩ := by
    refine h.notes (hlaw.sound_set _ _ h.sound) ?_ (Call.isNote_noteParked id)
      fun call ch hw hhs htold => ?_
    · rw [hws]
      exact h.wf.park id
    · rw [hws, Waiters.poll_park h.wf hhs]
      refine ⟨hhs.park h.wf id, ?_⟩
      rw [Call.noteParked, Call.waits_of_waiting hw]
      by_cases hid : call.id = id
      · simp only [eq_true hid, true_and, decide_true, Bool.and_true]
        exact htold.crowd
      · simp only [hid, false_and, decide_false, Bool.and_false, if_false]
        exact htold
  refine hntd.append (fun ch hw => ?_) fun r hret => by cases hret
  cases hw
  rw [hws]
  refine ⟨Waiters.holds_park, ?_, fun i rival hrival hw => ?_⟩
  · rw [Waiters.poll_park_self]
    refine ⟨fun hn => ?_, fun hset => ?_, fun hcld => ?_⟩
    · cases hn
    · cases hset
    · cases hcld
  · -- The channels of the other calls are older.
    rw [List.getElem?_map, Option.map_eq_some_iff] at hrival
    obtain ⟨old, hold, rfl⟩ := hrival
    rw [(Call.isNote_noteParked id).phase] at hw
    exact Nat.lt_irrefl _ (h.held i old _ hold hw).1.lt

theorem Inv.finish (h : Inv sv Sound state) (hlaw : sv.Lawful Sound) {i : ℕ}
    {ch : ℕ} {phase : CallPhase} (hc : state.calls[i]? = some call)
    (hw : call.phase = .waiting ch) (hover : ∀ other, phase ≠ .waiting other)
    (hfair : ∀ r, phase = .returned r → Fair call r) :
    Inv sv Sound (sv.finish state i call ch phase) := by
  have hws :=
    hlaw.waiters_set state.feed.state ((sv.waiters state.feed.state).leave ch)
  refine ⟨hlaw.sound_set _ _ h.sound, ?_, ?_, ?_, ?_⟩
  · rw [Service.finish, Observer.leave, hws]
    exact h.wf.leave ch
  · intro p found other hf hp
    obtain ⟨-, rfl⟩ | ⟨hne, hold⟩ := of_getElem?_set hf
    · exact absurd hp (hover other)
    · obtain ⟨hhs, htold⟩ := h.held p found other hold hp
      have hapart : ch ≠ other := by
        rintro rfl
        exact hne (h.apart p i found call ch hold hc hp hw)
      rw [Service.finish, Observer.leave, hws, Waiters.poll_leave hapart]
      exact ⟨hhs.leave hapart, htold⟩
  · intro p other found rival shared hf hrival hp hshr
    obtain ⟨-, rfl⟩ | ⟨-, hold⟩ := of_getElem?_set hf
    · exact absurd hp (hover shared)
    · obtain ⟨-, rfl⟩ | ⟨-, holdRival⟩ := of_getElem?_set hrival
      · exact absurd hshr (hover shared)
      · exact h.apart p other found rival shared hold holdRival hp hshr
  · intro p found r hf hret
    obtain ⟨-, rfl⟩ | ⟨-, hold⟩ := of_getElem?_set hf
    · exact ⟨(hfair r hret).failed, (hfair r hret).settled⟩
    · exact h.fair p found r hold hret

theorem Told.fair {feed : Feed σ} {ch : ℕ} {expired : Bool} {r : Except Failure Unit}
    (h : Told ((sv.waiters feed.state).poll ch) call feed.error.isSome)
    (hwait : sv.wait feed ch expired = .ready r) : Fair call r := by
  rw [Observer.wait] at hwait
  split at hwait
  · cases hwait
    refine ⟨fun hfl => ?_, fun _ => .inl rfl⟩
    cases hfl
  · rename_i hans
    cases hwait
    rw [hans] at h
    refine ⟨fun _ => h.failed rfl, fun hset => ?_⟩
    obtain hval | hcr := h.settled hset
    · cases hval
    · exact .inr hcr
  · rename_i hans
    rw [hans] at h
    split at hwait
    · cases hwait
      refine ⟨fun hfl => ?_, fun hset => ?_⟩
      · cases hfl
      · obtain hval | hcr := h.settled hset
        · cases hval
        · exact .inr hcr
    · cases hwait

theorem Inv.step (h : Inv sv Sound state) (hlaw : sv.Lawful Sound) {ev : Event ω}
    {next : Awaiting σ} (hst : sv.step state ev = some next) :
    Inv sv Sound next := by
  cases ev with
  | act op =>
    rw [Service.step] at hst
    split at hst
    · cases hst
    · rename_i hstr
      split at hst
      · rename_i acted hact
        cases hst
        exact h.act hlaw (fun hop => by simpa [hop] using hstr) hact
      · cases hst
  | awaitId id =>
    rw [Service.step] at hst
    obtain ⟨r, hres, haw⟩ | ⟨-, -, haw⟩ := sv.awaitId_cases state.feed id
    · rw [haw] at hst
      cases hst
      exact h.append_returned id hres
    · rw [haw] at hst
      cases hst
      exact h.append_parked hlaw id
  | poll i expired =>
    rw [Service.step] at hst
    cases hc : state.calls[i]? with
    | none =>
      rw [hc] at hst
      cases hst
    | some call =>
      rw [hc] at hst
      dsimp only at hst
      split at hst
      · rename_i ch hw
        split at hst
        · rename_i r hwait
          cases hst
          refine h.finish hlaw hc hw (fun other hover => by cases hover) fun found hf => ?_
          cases hf
          exact (h.held i call ch hc hw).2.fair hwait
        · cases hst
      · cases hst
  | drop i =>
    rw [Service.step] at hst
    cases hc : state.calls[i]? with
    | none =>
      rw [hc] at hst
      cases hst
    | some call =>
      rw [hc] at hst
      dsimp only at hst
      split at hst
      · rename_i ch hw
        cases hst
        exact h.finish hlaw hc hw (fun other hover => by cases hover)
          fun found hf => by cases hf
      · cases hst
  | close reason =>
    cases hst
    exact h.close hlaw reason

theorem inv_start {initial : σ} (hsd : Sound initial)
    (hwf : (sv.waiters initial).Wf) : Inv sv Sound (start initial) where
  sound := hsd
  wf := hwf
  held index call channel hc := by cases hc
  apart index other call rival channel hc := by cases hc
  fair index call result hc := by cases hc

theorem Reachable.inv {initial : σ} (h : sv.Reachable initial state)
    (hlaw : sv.Lawful Sound) (hsd : Sound initial) (hwf : (sv.waiters initial).Wf) :
    Inv sv Sound state :=
  h.induction (inv_start hsd hwf) fun _ _ _ hinv hst => hinv.step hlaw hst

/-- What is promised to a call: it fails with the error of the stream only if the stream ended, and
once its id is settled it returns without an error when it is polled. -/
def Promised (service : Service σ ω) (state : Awaiting σ) (index : ℕ) (call : Call) : Prop :=
  (call.phase = .returned (.error .streamFailed) → call.closed = true) ∧
  (call.settled = true →
    call.phase = .returned (.ok ()) ∨ call.phase = .dropped ∨
      ∀ expired, ∃ next, service.step state (.poll index expired) = some next ∧
        next.calls[index]? = some { call with phase := .returned (.ok ()) })

theorem Inv.promised (h : Inv sv Sound state) {i : ℕ}
    (hc : state.calls[i]? = some call) (hcr : call.crowded = false) :
    Promised sv state i call := by
  constructor
  · intro hp
    obtain hcld | ho := (h.fair i call _ hc hp).failed rfl
    · exact hcld
    · rw [hcr] at ho
      cases ho
  · intro hset
    cases hp : call.phase with
    | dropped => exact .inr (.inl rfl)
    | returned r =>
      obtain rfl | ho := (h.fair i call r hc hp).settled hset
      · exact .inl rfl
      · rw [hcr] at ho
        cases ho
    | waiting ch =>
      obtain hans | ho := (h.held i call ch hc hp).2.settled hset
      · right
        right
        intro expired
        have hwait : sv.wait state.feed ch expired = .ready (.ok ()) := by
          rw [Observer.wait, hans]
        refine ⟨sv.finish state i call ch (.returned (.ok ())), ?_, ?_⟩
        · simp only [Service.step, hc, hp, hwait]
        · exact getElem?_set_of hc _
      · rw [hcr] at ho
        cases ho

end Service

end Ws

end Redsuite
