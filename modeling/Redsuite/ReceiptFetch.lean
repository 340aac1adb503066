import Redsuite.Machine
import Redsuite.Receipt
import Redsuite.Worklist

/-!
# Waiting for a completion

A model of `fetch_commit_receipt_by_intent` of `core/src/receipt.rs`.
-/

namespace Redsuite.Receipt

open List

/-- Why there is no receipt. -/
inductive FetchError (κ : Type) : Type where
  | failed (error : String)
  /-- it was not published in time; with the last error of the node, if there was one -/
  | notPublished (intentId : ℕ) (validator : κ) (minSlot : ℕ) (last : Option String)

/-- Where the fetch is. -/
inductive Stage (κ ς : Type) : Type where
  | subscribing
  | fetching (signature : ς) (taken : List ς)
  /-- in the `select!` -/
  | selecting
  | listing
  | returned (result : Except (FetchError κ) (CommitReceipt κ ς))

/-- The signatures that a call has taken; nothing if it has returned. -/
def Stage.taken {κ ς : Type} : Stage κ ς → Option (List ς)
  | .fetching signature taken => some (signature :: taken)
  | .returned _ => none
  | _ => some []

/-- What the node says of a transaction. -/
abbrev Answer (κ : Type) : Type := Except String (Option (Transaction κ))

def Answer.body {κ : Type} : Answer κ → Option (Transaction κ)
  | .ok body => body
  | .error _ => none

/-- A call of `fetch_commit_receipt_by_intent`. -/
structure Fetch (κ ς : Type) where
  stage : Stage κ ς
  seen : List ς
  pending : List ς
  lastFetchError : Option String
  /-- the requests for transactions that were answered, not in the source -/
  fetched : List (ς × Answer κ)
  /-- what was notified and listed, not in the source -/
  reported : List ς

namespace Fetch

/-- What can happen next. -/
inductive Event (κ ς : Type) : Type where
  /-- the connection and the subscriptions are there, or one of them failed -/
  | subscribed (result : Except String Unit)
  | answered (answer : Answer κ)
  /-- the next log notification and its signature; an error if there is none or it cannot be read -/
  | logs (update : Except String ς)
  | slot (update : Except String Unit)
  | tick
  | listed (signatures : Except String (List ς))
  /-- `NETWORK_TIMEOUT` has passed -/
  | timeout

variable {κ ς : Type} [DecidableEq κ]

def start : Fetch κ ς :=
  { stage := .subscribing
    seen := []
    pending := []
    lastFetchError := none
    fetched := []
    reported := [] }

section

variable (self : Fetch κ ς)

def proceed (taken : List ς) : Fetch κ ς :=
  match taken with
  | [] => { self with stage := .selecting }
  | signature :: taken => { self with stage := .fetching signature taken }

/-- The head of the loop: `mem::take(&mut pending)`. -/
def loop : Fetch κ ς := { self with pending := [] }.proceed self.pending

/-- Signatures turn up, and those not seen before are pending. -/
def meet [DecidableEq ς] (signatures : List ς) : Fetch κ ς :=
  let known := signatures.foldl Worklist.meet (self.seen, self.pending)
  { self with seen := known.1, pending := known.2, reported := self.reported ++ signatures }

def finish (result : Except (FetchError κ) (CommitReceipt κ ς)) : Fetch κ ς :=
  { self with stage := .returned result }

/-- The operator `?`. -/
def orFail {α : Type} (result : Except String α) (go : α → Fetch κ ς) : Fetch κ ς :=
  match result with
  | .ok value => go value
  | .error error => self.finish (.error (.failed error))

def list [DecidableEq ς] : Except String (List ς) → Fetch κ ς
  | .ok signatures => (self.meet signatures).loop
  | .error error => { self with lastFetchError := some error }.loop

end

variable (reading : Reading κ ς) (validator : κ) (intentId minSlot : ℕ)

def wanted (signature : ς) (transaction : Transaction κ) : Option (CommitReceipt κ ς) :=
  if transaction.slot < minSlot then none
  else
    match parseOutboxCompletion reading signature transaction with
    | none => none
    | some receipt => if receipt.commitId = some intentId then some receipt else none

theorem wanted_some {signature : ς} {tx : Transaction κ} {receipt : CommitReceipt κ ς}
    (h : wanted reading intentId minSlot signature tx = some receipt) :
    minSlot ≤ tx.slot ∧
      parseOutboxCompletion reading signature tx = some receipt ∧
      receipt.commitId = some intentId := by
  rw [wanted] at h
  split_ifs at h with hslot
  cases hpsd : parseOutboxCompletion reading signature tx with
  | none =>
    rw [hpsd] at h
    cases h
  | some parsed =>
    rw [hpsd] at h
    dsimp only at h
    split_ifs at h with hid
    cases h
    exact ⟨Nat.not_lt.mp hslot, rfl, hid⟩

def answer (self : Fetch κ ς) (signature : ς) (taken : List ς) (answer : Answer κ) : Fetch κ ς :=
  let self := { self with fetched := self.fetched ++ [(signature, answer)] }
  match answer with
  | .ok (some transaction) =>
    match wanted reading intentId minSlot signature transaction with
    | some receipt => self.finish (.ok receipt)
    | none => self.proceed taken
  | .ok none => { self with pending := self.pending ++ [signature] }.proceed taken
  | .error error =>
    { self with
      lastFetchError := some error
      pending := self.pending ++ [signature] }.proceed taken

def step [DecidableEq ς] (self : Fetch κ ς) : Event κ ς → Option (Fetch κ ς)
  | .subscribed result =>
    match self.stage with
    | .subscribing => some (self.orFail result fun _ => self.loop)
    | _ => none
  | .answered answer =>
    match self.stage with
    | .fetching signature taken =>
      some (self.answer reading intentId minSlot signature taken answer)
    | _ => none
  | .logs update =>
    match self.stage with
    | .selecting => some (self.orFail update fun signature => (self.meet [signature]).loop)
    | _ => none
  | .slot update =>
    match self.stage with
    | .selecting => some (self.orFail update fun _ => self.loop)
    | _ => none
  | .tick =>
    match self.stage with
    | .selecting => some { self with stage := .listing }
    | _ => none
  | .listed signatures =>
    match self.stage with
    | .listing => some (self.list signatures)
    | _ => none
  | .timeout =>
    match self.stage with
    | .returned _ => none
    | _ =>
      some (self.finish (.error (.notPublished intentId validator minSlot self.lastFetchError)))

/-! ### Nothing is lost and nothing is asked for again -/

/-- The signatures whose bodies have been read. -/
def settled (fetched : List (ς × Answer κ)) : List ς :=
  (fetched.filter fun call => call.2.body.isSome).map Prod.fst

omit [DecidableEq κ] in
theorem settled_concat (fetched : List (ς × Answer κ)) (signature : ς) (answer : Answer κ) :
    settled (fetched ++ [(signature, answer)]) =
      settled fetched ++ if answer.body.isSome then [signature] else [] := by
  rw [settled, settled, filter_append, map_append, filter_singleton]
  change _ ++ (bif answer.body.isSome then [(signature, answer)] else []).map Prod.fst = _
  cases answer.body.isSome <;> rfl

omit [DecidableEq κ] in
theorem mem_settled {fetched : List (ς × Answer κ)} {signature : ς} :
    signature ∈ settled fetched ↔ ∃ tx, (signature, .ok (some tx)) ∈ fetched := by
  rw [settled, mem_map]
  constructor
  · rintro ⟨⟨signature, answer⟩, hm, rfl⟩
    obtain ⟨hm, hbody⟩ := mem_filter.mp hm
    match answer, hbody with
    | .ok (some tx), _ => exact ⟨tx, hm⟩
  · rintro ⟨tx, hm⟩
    exact ⟨_, mem_filter.mpr ⟨hm, rfl⟩, rfl⟩

variable (want : ς → Transaction κ → Option (CommitReceipt κ ς))

/-- Nothing that was read is the completion. -/
def Unwanted (fetched : List (ς × Answer κ)) : Prop :=
  ∀ signature transaction, (signature, .ok (some transaction)) ∈ fetched →
    want signature transaction = none

/-- After a body has been read, its signature is not asked for. -/
def Once (fetched : List (ς × Answer κ)) : Prop :=
  fetched.Pairwise fun earlier later => earlier.2.body.isSome → later.1 ≠ earlier.1

/-- What holds while a call goes on, with what is left of the signatures that were taken. -/
structure Going (fetch : Fetch κ ς) (taken : List ς) : Prop where
  tracked : Worklist.Tracked fetch.seen (taken ++ fetch.pending) (settled fetch.fetched)
  unwanted : Unwanted want fetch.fetched
  once : Once fetch.fetched
  known : ∀ signature ∈ fetch.reported, signature ∈ fetch.seen

/-- What holds at every await. -/
structure Sound (fetch : Fetch κ ς) : Prop where
  going : ∀ taken, fetch.stage.taken = some taken → Going want fetch taken
  once : Once fetch.fetched
  receipt : ∀ receipt, fetch.stage = .returned (.ok receipt) → ∃ signature transaction,
    (signature, .ok (some transaction)) ∈ fetch.fetched ∧
      want signature transaction = some receipt

section

variable {want} {self : Fetch κ ς} {sig : ς} {taken : List ς}

omit [DecidableEq κ]

theorem start_sound : Sound want (start : Fetch κ ς) where
  going := by
    intro taken htk
    cases htk
    exact ⟨.nil, fun _ _ hm => absurd hm not_mem_nil, List.Pairwise.nil,
      forall_mem_nil _⟩
  once := List.Pairwise.nil
  receipt := fun _ hsg => by cases hsg

theorem Going.sound {stage : Stage κ ς} (h : Going want self taken)
    (hsg : stage.taken = some taken) : Sound want { self with stage } where
  going := by
    intro other ho
    cases hsg.symm.trans ho
    exact ⟨h.tracked, h.unwanted, h.once, h.known⟩
  once := h.once
  receipt := by
    intro receipt hret
    cases hret
    cases hsg

theorem Going.proceed (h : Going want self taken) :
    Sound want (self.proceed taken) := by
  cases taken with
  | nil | cons sig taken => exact h.sound rfl

theorem Going.loop (h : Going want self []) :
    Sound want self.loop := by
  refine Going.proceed ⟨?_, h.unwanted, h.once, h.known⟩
  rw [append_nil]
  exact h.tracked

theorem Going.meet [DecidableEq ς] (h : Going want self [])
    (sigs : List ς) : Going want (self.meet sigs) [] := by
  have hknown : Worklist.Tracked (self.seen, self.pending).1 ([] ++ (self.seen, self.pending).2)
    (settled self.fetched) := h.tracked
  obtain ⟨htrk, hkpt, hmet⟩ := hknown.meets sigs
  refine ⟨htrk, h.unwanted, h.once, fun sig hreported => ?_⟩
  rcases mem_append.mp hreported with hold | hnew
  · exact hkpt sig (h.known sig hold)
  · exact hmet sig hnew

theorem Sound.failed (h : Once self.fetched) (error : FetchError κ) :
    Sound want (self.finish (.error error)) where
  going := fun _ htk => by cases htk
  once := h
  receipt := fun _ hsg => by cases hsg

theorem Sound.orFail {α : Type} (h : Sound want self) (r : Except String α)
    {go : α → Fetch κ ς} (hgo : ∀ v, Sound want (go v)) :
    Sound want (self.orFail r go) := by
  cases r with
  | ok v => exact hgo v
  | error error => exact .failed h.once _

theorem Going.list [DecidableEq ς] (h : Going want self [])
    (sigs : Except String (List ς)) :
    Sound want (self.list sigs) := by
  cases sigs with
  | ok sigs => exact (h.meet sigs).loop
  | error error => exact Going.loop ⟨h.tracked, h.unwanted, h.once, h.known⟩

theorem Going.once_concat (h : Going want self (sig :: taken))
    (answer : Answer κ) : Once (self.fetched ++ [(sig, answer)]) := by
  refine pairwise_append.mpr ⟨h.once, pairwise_singleton _ _, ?_⟩
  rintro ⟨earlier, body⟩ hearlier later hlat hbody hsm
  rw [mem_singleton.mp hlat] at hsm
  refine h.tracked.not_settled mem_cons_self ?_
  rw [show sig = earlier from hsm]
  exact mem_map.mpr ⟨_, mem_filter.mpr ⟨hearlier, hbody⟩, rfl⟩

/-- **The node answers**: the signature is settled or pending again, or the call is over. -/
theorem Going.answer [DecidableEq κ] {reading : Reading κ ς} {intentId minSlot : ℕ}
    (h : Going (wanted reading intentId minSlot) self (sig :: taken)) (answer : Answer κ) :
    Sound (wanted reading intentId minSlot)
      (self.answer reading intentId minSlot sig taken answer) := by
  have honce := h.once_concat answer
  have hset := settled_concat self.fetched sig answer
  -- Without a body, the signature goes from those that were taken to those that are pending.
  have hagain : answer.body = none →
      Worklist.Tracked self.seen (taken ++ (self.pending ++ [sig]))
          (settled (self.fetched ++ [(sig, answer)])) ∧
        Unwanted (wanted reading intentId minSlot) (self.fetched ++ [(sig, answer)]) := by
    intro hbody
    rw [hset, hbody, Option.isSome_none, if_neg Bool.false_ne_true, append_nil]
    refine ⟨h.tracked.reorder ?_, fun other transaction hm => ?_⟩
    · rw [← append_assoc]
      exact perm_append_singleton sig (taken ++ self.pending)
    · rcases mem_concat.mp hm with hold | hnew
      · exact h.unwanted other transaction hold
      · cases hnew
        cases hbody
  match answer with
  | .ok (some transaction) =>
    rw [Fetch.answer]
    cases hwanted : wanted reading intentId minSlot sig transaction with
    | some receipt =>
      refine ⟨fun _ htk => ?_, honce, fun other ho => ?_⟩
      · cases htk
      cases ho
      exact ⟨sig, transaction, mem_concat_self, hwanted⟩
    | none =>
      refine Going.proceed ⟨?_, fun other body hm => ?_, honce, h.known⟩
      · rw [hset]
        exact h.tracked.settle
      · rcases mem_concat.mp hm with hold | hnew
        · exact h.unwanted other body hold
        · cases hnew
          exact hwanted
  | .ok none =>
    obtain ⟨htrk, hunwanted⟩ := hagain rfl
    exact Going.proceed ⟨htrk, hunwanted, honce, h.known⟩
  | .error error =>
    obtain ⟨htrk, hunwanted⟩ := hagain rfl
    exact Going.proceed ⟨htrk, hunwanted, honce, h.known⟩

theorem Sound.step [DecidableEq κ] [DecidableEq ς] {reading : Reading κ ς} {intentId minSlot : ℕ}
    {fetch : Fetch κ ς} {ev : Event κ ς} (h : Sound (wanted reading intentId minSlot) self)
    (hst : self.step reading validator intentId minSlot ev = some fetch) :
    Sound (wanted reading intentId minSlot) fetch := by
  have hgoing : ∀ stage taken, self.stage = stage → stage.taken = some taken →
      Going (wanted reading intentId minSlot) self taken := by
    rintro _ taken rfl htk
    exact h.going taken htk
  rw [Fetch.step.eq_def] at hst
  -- an event finds the call where it waits for it
  cases ev <;> dsimp only at hst <;> split at hst <;> cases hst
  · exact h.orFail _ fun _ => (hgoing _ [] ‹_› rfl).loop
  · exact (hgoing _ _ ‹_› rfl).answer _
  · exact h.orFail _ fun sig => ((hgoing _ [] ‹_› rfl).meet [sig]).loop
  · exact h.orFail _ fun _ => (hgoing _ [] ‹_› rfl).loop
  · exact (hgoing _ [] ‹_› rfl).sound rfl
  · exact (hgoing _ [] ‹_› rfl).list _
  · exact .failed h.once _

end

/-- **Waiting for a completion**: whatever is notified, listed and answered, every signature that
turned up is pending once or was read and is not the wanted completion, none is asked for again after
it was read, and a receipt is the wanted completion. -/
theorem nothing_lost [DecidableEq ς] (fetch : Fetch κ ς)
    (h : Machine.Reachable (step reading validator intentId minSlot) start fetch) :
    (fetch.stage = .selecting → ∀ signature ∈ fetch.reported,
        fetch.pending.count signature = 1 ∧
            (∀ transaction, (signature, .ok (some transaction)) ∉ fetch.fetched) ∨
          signature ∉ fetch.pending ∧ ∃ transaction,
            (signature, .ok (some transaction)) ∈ fetch.fetched ∧
              wanted reading intentId minSlot signature transaction = none) ∧
      (fetch.fetched.Pairwise fun earlier later => earlier.2.body.isSome → later.1 ≠ earlier.1) ∧
      (∀ signature taken, fetch.stage = .fetching signature taken →
        ∀ transaction, (signature, .ok (some transaction)) ∉ fetch.fetched) ∧
      ∀ receipt, fetch.stage = .returned (.ok receipt) → ∃ signature transaction status message,
        (signature, .ok (some transaction)) ∈ fetch.fetched ∧ minSlot ≤ transaction.slot ∧
          transaction.status = some status ∧ status.err = none ∧
          transaction.decoded = some message ∧ message.callsOutbox reading = true ∧
          receipt = parseReceipt reading signature status ∧ receipt.commitId = some intentId := by
  have hsound : Sound (wanted reading intentId minSlot) fetch :=
    h.induction start_sound fun _ _ _ hsound hstep => hsound.step validator hstep
  refine ⟨fun hstage signature hreported => ?_, hsound.once, fun signature taken hstage => ?_,
    fun receipt hstage => ?_⟩
  · have hgoing := hsound.going [] (by rw [hstage]; rfl)
    rcases hgoing.tracked.cases (hgoing.known signature hreported) with
      ⟨hcount, hopen⟩ | ⟨hclosed, hsettled⟩
    · exact .inl ⟨hcount, fun transaction hmem => hopen (mem_settled.mpr ⟨transaction, hmem⟩)⟩
    · obtain ⟨transaction, hmem⟩ := mem_settled.mp hsettled
      exact .inr ⟨hclosed, transaction, hmem, hgoing.unwanted signature transaction hmem⟩
  · have hgoing := hsound.going (signature :: taken) (by rw [hstage]; rfl)
    intro transaction hmem
    exact hgoing.tracked.not_settled mem_cons_self (mem_settled.mpr ⟨transaction, hmem⟩)
  · obtain ⟨signature, transaction, hmem, hwanted⟩ := hsound.receipt receipt hstage
    obtain ⟨hslot, hparsed, hid⟩ := wanted_some reading intentId minSlot hwanted
    obtain ⟨status, message, hstatus, herr, hmessage, hcalls, hreceipt⟩ :=
      parseOutboxCompletion_some reading hparsed
    exact ⟨signature, transaction, status, message, hmem, hslot, hstatus, herr, hmessage, hcalls,
      hreceipt, hid⟩

/-- The completion of intent 42 turns up in a listing and in the logs, and can be read only later.
-/
def late : List (Event ℕ ℕ) :=
  [.subscribed (.ok ()), .tick, .listed (.ok [1, 2, 1]), .answered (.ok none),
    .answered (.error "timeout"), .logs (.ok 2), .answered (.ok (some completion))]

theorem nothing_lost_late :
    ∃ fetch receipt, Machine.run (step numbers 5 42 0) start late = some fetch ∧
      fetch.stage = .returned (.ok receipt) ∧ receipt.commitId = some 42 := by
  obtain ⟨fetch, receipt, hrun, hstage⟩ : ∃ fetch receipt,
      Machine.run (step numbers 5 42 0) start late = some fetch ∧
        fetch.stage = .returned (.ok receipt) := ⟨_, _, rfl, rfl⟩
  obtain ⟨_, _, _, _, _, _, _, _, _, _, _, hid⟩ :=
    (nothing_lost numbers 5 42 0 fetch ⟨late, hrun⟩).2.2.2 receipt hstage
  exact ⟨fetch, receipt, hrun, hstage, hid⟩

end Fetch

end Redsuite.Receipt
