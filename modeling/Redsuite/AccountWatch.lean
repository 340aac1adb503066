import Redsuite.Ownership

/-!
# Watching accounts

A model of `AccountWatch` and `Api::await_accounts` of `core/src/api/wait.rs`.
-/

namespace Redsuite

open List

namespace Events

variable {ν τ π α ρ : Type}

/-! ### The call -/

/-- How a reply or a notification is read. -/
structure AccountReading (ν τ π α : Type) where
  codec : Codec ν
  decode : Topic → ν → Option τ
  /-- `account_params` -/
  params : π → String
  /-- `decode_account` of the value of a response -/
  account : τ → Option α
  /-- `Account::default()`, as which a closed account is reported -/
  closed : α

/-- The image of an account: `(account != Account::default()).then_some(account)`. -/
def AccountReading.image [DecidableEq α] (self : AccountReading ν τ π α) (account : α) :
    Option α :=
  if account = self.closed then none else some account

/-- Why `watch_accounts` or its wait fails. -/
inductive WatchFailure : Type where
  /-- `accountSubscribe not acknowledged: ...` -/
  | subscription
  | request
  /-- `account snapshot length mismatch` -/
  | mismatch
  | wait (failure : Failure)
  /-- `invalid RPC account encoding or owner` -/
  | undecodable
  | timeout

/-- Where the call is. -/
inductive WatchPhase (π α ρ : Type) : Type where
  /-- `watch_accounts` opens the subscriptions, and has collected so many -/
  | subscribing (collected : ℕ)
  /-- the snapshot is read: the addresses that are left, and the accounts so far -/
  | reading (rest : List π) (read : List (Option α))
  /-- `until` waits in this call of `next_from` -/
  | waiting (call : ℕ)
  | returned (result : Except WatchFailure ρ)

def WatchPhase.call : WatchPhase π α ρ → Option ℕ
  | .waiting call => some call
  | _ => none

def WatchPhase.busy : WatchPhase π α ρ → Bool
  | .returned _ => false
  | _ => true

def WatchPhase.failed : WatchPhase π α ρ → Bool
  | .returned (.error _) => true
  | _ => false

/-- It has shown its images to `ready`, and has not failed since. -/
def WatchPhase.shows : WatchPhase π α ρ → Bool
  | .waiting _ | .returned (.ok _) => true
  | _ => false

variable {phase : WatchPhase π α ρ}

theorem WatchPhase.not_failed (h : phase.busy = true) : phase.failed = false := by
  cases phase with
  | returned r => cases h
  | _ => rfl

theorem WatchPhase.sound_of_shows (h : phase.shows = true) : phase.failed = false := by
  cases phase with
  | returned r =>
    cases r with
    | error failure => cases h
    | ok v => rfl
  | _ => rfl

theorem WatchPhase.opened_of_shows (h : phase.shows = true) (collected : ℕ) :
    phase ≠ .subscribing collected := by
  rintro rfl
  cases h

/-- A call of `await_accounts`, on a connection with other users. -/
structure AccountWatch (ν τ π α ρ : Type) where
  consumers : Consumers ν τ
  addresses : List π
  /-- their subscriptions so far, by their places among the tasks -/
  subscriptions : List ℕ
  accounts : List (Option α)
  seen : List Bool
  phase : WatchPhase π α ρ
  /-- the images `ready` was called with, call by call; not in the source -/
  passed : List (List (Option α))

/-- What can happen next to the call. -/
inductive WatchEvent (α : Type) : Type where
  /-- something that the server does, others, or the code that opens the subscriptions -/
  | others (action : Action)
  /-- the subscription of the next account is begun -/
  | subscribe
  /-- the next subscription is open, or could not be opened -/
  | collect
  | subscribed
  /-- the node answers `get_multiple_accounts`, or fails to -/
  | answered (reply : Option (List (Option α)))
  /-- `until` is polled, before or after the time of `next_from` and the deadline -/
  | poll (expired late : Bool)
  | late

namespace AccountWatch

variable (reading : AccountReading ν τ π α) (ready : List (Option α) → Option ρ)

section

variable (self : AccountWatch ν τ π α ρ)

def finish (result : Except WatchFailure ρ) : AccountWatch ν τ π α ρ :=
  { self with phase := .returned result }

/-- `until` calls `next_from`. -/
def await : Option (AccountWatch ν τ π α ρ) := do
  let consumers ← self.consumers.step reading.codec reading.decode (.nextFrom self.subscriptions)
  some { self with consumers, phase := .waiting self.consumers.calls.length }

def check : Option (AccountWatch ν τ π α ρ) :=
  if self.seen.contains false then self.await reading
  else
    let self := { self with passed := self.passed ++ [self.accounts] }
    match ready self.accounts with
    | some value => some (self.finish (.ok value))
    | none => self.await reading

def seed (accounts : List (Option α)) : Option (AccountWatch ν τ π α ρ) :=
  if accounts.length = self.addresses.length then
    some { self with accounts, seen := self.seen.map fun _ => true }
  else none

/-- The snapshot goes on with what is left of the addresses, or is seeded. -/
def proceed (rest : List π) (read : List (Option α)) : Option (AccountWatch ν τ π α ρ) :=
  match rest with
  | [] =>
    match self.seed read with
    | some seeded => seeded.check reading ready
    | none => some (self.finish (.error .mismatch))
  | _ :: _ => some { self with phase := .reading rest read }

def chunk : List π :=
  match self.phase with
  | .reading rest _ => rest.take 100
  | _ => []

def update [DecidableEq α] (index : ℕ) (account : α) : AccountWatch ν τ π α ρ :=
  { self with
    accounts := self.accounts.set index (reading.image account)
    seen := self.seen.set index true }

def pollUntil [DecidableEq α] (call : ℕ) (expired late : Bool) : Option (AccountWatch ν τ π α ρ) :=
    do
  let consumers ← self.consumers.step reading.codec reading.decode (.poll call expired)
  let self : AccountWatch ν τ π α ρ := { self with consumers }
  match consumers.answer call with
  | some (.error failure) => some (self.finish (.error (.wait failure)))
  | some (.ok (some update)) =>
    match reading.account update.event with
    | some account => (self.update reading update.index account).check reading ready
    | none => some (self.finish (.error .undecodable))
  | _ =>
    if late then do
      let consumers ← consumers.step reading.codec reading.decode (.cancel call)
      some ({ self with consumers }.finish (.error .timeout))
    else some self

/-- **One step**; `none` where it cannot happen. `buffered(16)` has at most sixteen subscriptions
not collected yet, and collects them in order. The deadlines poll what they wait for before the
clock. -/
def step [DecidableEq α] : WatchEvent α → Option (AccountWatch ν τ π α ρ)
  | .others action => do
    guard (self.phase.busy = true ∧ action.sparesCall self.phase.call = true ∧
      ∀ index ∈ self.subscriptions, action.spares index self.phase.call = true)
    let consumers ← self.consumers.step reading.codec reading.decode action
    some { self with consumers }
  | .subscribe =>
    match self.phase with
    | .subscribing collected => do
      guard (self.subscriptions.length < collected + 16)
      let address ← self.addresses[self.subscriptions.length]?
      let consumers ← self.consumers.step reading.codec reading.decode
        (.connection (.subscribe true .account (reading.params address)))
      some { self with
        consumers
        subscriptions := self.subscriptions ++ [self.consumers.connection.tasks.length] }
    | _ => none
  | .collect =>
    match self.phase with
    | .subscribing collected => do
      let index ← self.subscriptions[collected]?
      let task ← self.consumers.connection.tasks[index]?
      match task.phase with
      | .held => some { self with phase := .subscribing (collected + 1) }
      | .locking | .sending | .acking => none
      | _ => some (self.finish (.error .subscription))
    | _ => none
  | .subscribed =>
    match self.phase with
    | .subscribing collected => do
      guard (collected = self.addresses.length)
      self.proceed reading ready self.addresses []
    | _ => none
  | .answered reply =>
    match self.phase with
    | .reading rest read =>
      match reply with
      | some accounts => self.proceed reading ready (rest.drop 100) (read ++ accounts)
      | none => some (self.finish (.error .request))
    | _ => none
  | .poll expired late =>
    match self.phase with
    | .waiting call => self.pollUntil reading ready call expired late
    | _ => none
  | .late =>
    match self.phase with
    | .subscribing _ | .reading _ _ => some (self.finish (.error .timeout))
    | _ => none

end

def start (consumers : Consumers ν τ) (addresses : List π) : AccountWatch ν τ π α ρ :=
  ⟨consumers, addresses, [], addresses.map fun _ => none, addresses.map fun _ => false,
    .subscribing 0, []⟩

end AccountWatch

/-! ### The steps of a call -/

namespace AccountWatch

variable {reading : AccountReading ν τ π α} {ready : List (Option α) → Option ρ}
  {self after : AccountWatch ν τ π α ρ}

def heard (self : AccountWatch ν τ π α ρ) (index : ℕ) : List ν := self.consumers.heard index

def opened (self : AccountWatch ν τ π α ρ) : ℕ :=
  match self.phase with
  | .subscribing collected => collected
  | _ => self.subscriptions.length

/-- What holds between the call and the connection. -/
structure Inv (reading : AccountReading ν τ π α) (watch : AccountWatch ν τ π α ρ) : Prop where
  fit : watch.consumers.Fit reading.codec reading.decode
  owns : watch.phase.failed = false → Owns reading.codec reading.decode .account watch.consumers
    watch.subscriptions watch.phase.call watch.opened
  subscriptions : watch.subscriptions.length ≤ watch.addresses.length
  collected : watch.opened ≤ watch.subscriptions.length
  all : (∀ collected, watch.phase ≠ .subscribing collected) → watch.phase.failed = false →
    watch.subscriptions.length = watch.addresses.length
  accounts : watch.accounts.length = watch.addresses.length
  /-- `ready` sees only what was observed -/
  seen : watch.phase.shows = true → false ∉ watch.seen
  /-- `ready` has seen the images -/
  passed : watch.phase.shows = true → watch.passed.getLast? = some watch.accounts

/-- The call keeps what it asked for and heard. -/
structure Keeps (before after : AccountWatch ν τ π α ρ) : Prop where
  addresses : after.addresses = before.addresses
  subscriptions : after.subscriptions = before.subscriptions
  heard : ∀ index ∈ before.subscriptions, after.heard index = before.heard index

/-- What `until` keeps when it calls `ready` and `next_from`. -/
structure Rests (before after : AccountWatch ν τ π α ρ) : Prop where
  addresses : after.addresses = before.addresses
  subscriptions : after.subscriptions = before.subscriptions
  connection : after.consumers.connection = before.consumers.connection

theorem Rests.heard (h : Rests self after) (i : ℕ) : after.heard i = self.heard i :=
  congrArg (fun conn : Connection ν => taken (i + 1) conn.log) h.connection

/-- A step in which addresses are left to be read. -/
inductive Fetched (self : AccountWatch ν τ π α ρ) (event : WatchEvent α) (rest : List π)
    (read : List (Option α)) : Prop where
  | begun (hphase : self.phase = .subscribing self.addresses.length) (hevent : event = .subscribed)
      (hrest : rest = self.addresses) (hread : read = [])
  | answered (before : List π) (earlier accounts : List (Option α))
      (hphase : self.phase = .reading before earlier) (hevent : event = .answered (some accounts))
      (hrest : rest = before.drop 100) (hread : read = earlier ++ accounts)

variable {ev : WatchEvent α}

theorem Fetched.early {rest : List π} {read : List (Option α)} (h : Fetched self ev rest read) :
    self.phase.shows = false ∧ self.phase.failed = false := by
  cases h with
  | begun hp | answered _ _ _ hp => rw [hp]; exact ⟨rfl, rfl⟩

/-- **What a step of `await_accounts` can do.** -/
inductive Stepped [DecidableEq α] (reading : AccountReading ν τ π α)
    (self : AccountWatch ν τ π α ρ) (event : WatchEvent α) (after : AccountWatch ν τ π α ρ) :
    Prop where
  | stays (hkeeps : Keeps self after) (hphase : after.phase = self.phase)
      (haccounts : after.accounts = self.accounts) (hpassed : after.passed = self.passed)
      (hevent : ∀ accounts, event ≠ .answered (some accounts))
  | subscribes (index collected : ℕ) (hbefore : self.phase = .subscribing collected)
      (haddresses : after.addresses = self.addresses)
      (hsubscriptions : after.subscriptions = self.subscriptions ++ [index])
      (hnew : after.heard index = [])
      (hheard : ∀ other ∈ self.subscriptions, after.heard other = self.heard other)
      (hphase : after.phase = self.phase) (hpassed : after.passed = self.passed)
      (hevent : ∀ accounts, event ≠ .answered (some accounts))
  | collects (collected : ℕ) (hkeeps : Keeps self after)
      (hbefore : self.phase = .subscribing collected)
      (hphase : after.phase = .subscribing (collected + 1)) (hpassed : after.passed = self.passed)
      (hevent : ∀ accounts, event ≠ .answered (some accounts))
  | reads (rest : List π) (read : List (Option α)) (hkeeps : Keeps self after)
      (hfetched : Fetched self event rest read) (hphase : after.phase = .reading rest read)
      (hpassed : after.passed = self.passed)
  /-- `ready` sees the snapshot -/
  | seeds (read : List (Option α)) (hkeeps : Keeps self after)
      (hfetched : Fetched self event [] read) (hphase : after.phase.shows = true)
      (haccounts : after.accounts = read) (hpassed : after.passed = self.passed ++ [read])
  /-- a notification is taken, and `ready` sees it -/
  | takes (place index : ℕ) (payload : ν) (account : α) (hbefore : self.phase.shows = true)
      (haddresses : after.addresses = self.addresses)
      (hsubscriptions : after.subscriptions = self.subscriptions)
      (hindex : self.subscriptions[place]? = some index)
      (htells : (reading.decode .account payload).bind reading.account = some account)
      (hheard : after.heard index = self.heard index ++ [payload])
      (hothers : ∀ other, other ≠ index → after.heard other = self.heard other)
      (hphase : after.phase.shows = true)
      (haccounts : after.accounts = self.accounts.set place (reading.image account))
      (hpassed : after.passed = self.passed ++ [after.accounts])
      (hevent : ∀ accounts, event ≠ .answered (some accounts))
  | fails (failure : WatchFailure) (haddresses : after.addresses = self.addresses)
      (hsubscriptions : after.subscriptions = self.subscriptions)
      (hbefore : self.phase.failed = false) (hphase : after.phase = .returned (.error failure))
      (hpassed : after.passed = self.passed)
      (hevent : self.phase.shows = true → ∀ accounts, event ≠ .answered (some accounts))

theorem Inv.finish (h : Inv reading self) {consumers : Consumers ν τ}
    (hfit : consumers.Fit reading.codec reading.decode) (failure : WatchFailure) :
    Inv reading ({ self with consumers }.finish (.error failure)) where
  fit := hfit
  owns hn := by cases hn
  subscriptions := h.subscriptions
  collected := Nat.le_refl _
  all _ hn := by cases hn
  accounts := h.accounts
  seen hsh := by cases hsh
  passed hsh := by cases hsh

theorem await_owns (self : AccountWatch ν τ π α ρ)
    (howns : Owns reading.codec reading.decode .account self.consumers self.subscriptions none
      self.subscriptions.length) :
    ∃ after, self.await reading = some after ∧ Rests self after ∧ after.accounts = self.accounts ∧
      after.seen = self.seen ∧ after.passed = self.passed ∧
      after.phase = .waiting self.consumers.calls.length ∧
      Owns reading.codec reading.decode .account after.consumers self.subscriptions
        (some self.consumers.calls.length) self.subscriptions.length := by
  have hav : self.subscriptions.all self.consumers.available = true :=
    all_eq_true.mpr (howns.available (Nat.le_refl _))
  have hst : self.consumers.step reading.codec reading.decode (.nextFrom self.subscriptions) =
      some { self.consumers with
        calls := self.consumers.calls ++ [⟨self.subscriptions, .begun⟩] } := by
    simp only [Consumers.step, guard, if_pos (And.intro howns.nodup hav), Option.pure_def,
      Option.bind_eq_bind, Option.bind_some]
  have hwts := howns.called (.nextFrom self.subscriptions) rfl (Nat.le_refl _)
  refine ⟨{ self with
    consumers := { self.consumers with
      calls := self.consumers.calls ++ [⟨self.subscriptions, .begun⟩] }
    phase := .waiting self.consumers.calls.length }, ?_, ⟨rfl, rfl, rfl⟩, rfl, rfl, rfl, rfl,
    hwts⟩
  simp only [AccountWatch.await, hst, Option.bind_eq_bind, Option.bind_some]

/-- **The images are shown to `ready`.** -/
theorem check_shows (self : AccountWatch ν τ π α ρ)
    (howns : Owns reading.codec reading.decode .account self.consumers self.subscriptions none
      self.subscriptions.length)
    (hall : self.subscriptions.length = self.addresses.length)
    (haccs : self.accounts.length = self.addresses.length) (hseen : false ∉ self.seen)
    (hcheck : self.check reading ready = some after) :
    Inv reading after ∧ Rests self after ∧ after.accounts = self.accounts ∧
      after.phase.shows = true ∧ after.passed = self.passed ++ [self.accounts] := by
  have hcontains : self.seen.contains false = false := by
    rw [Bool.eq_false_iff]
    exact fun hm => hseen (contains_iff_mem.mp hm)
  simp only [AccountWatch.check, hcontains, Bool.false_eq_true] at hcheck
  cases hready : ready self.accounts with
  | some v =>
    simp only [hready] at hcheck
    cases hcheck
    exact ⟨⟨howns.fit, fun _ => howns, Nat.le_of_eq hall, Nat.le_refl _, fun _ _ => hall, haccs,
      fun _ => hseen, fun _ => getLast?_concat⟩, ⟨rfl, rfl, rfl⟩, rfl, rfl, rfl⟩
  | none =>
    simp only [hready] at hcheck
    obtain ⟨last, haw, hrests, hsm, hlastSeen, hps, hp, hwts⟩ :=
      await_owns { self with passed := self.passed ++ [self.accounts] } howns
    obtain rfl := Option.some.inj (haw.symm.trans hcheck)
    have hop : last.opened = self.subscriptions.length := by
      simp only [opened, hp]
      exact congrArg List.length hrests.subscriptions
    have hsh : last.phase.shows = true := by
      rw [hp]
      rfl
    refine ⟨⟨hwts.fit, fun _ => ?_, ?_, ?_, fun _ _ => ?_, ?_, fun _ => ?_, fun _ => ?_⟩,
      ⟨hrests.addresses, hrests.subscriptions, hrests.connection⟩, hsm, hsh, hps⟩
    · rw [hop, hp, hrests.subscriptions]
      exact hwts
    · rw [hrests.subscriptions, hrests.addresses]
      exact Nat.le_of_eq hall
    · rw [hop, hrests.subscriptions]
    · rw [hrests.subscriptions, hrests.addresses]
      exact hall
    · rw [hsm, hrests.addresses]
      exact haccs
    · rw [hlastSeen]
      exact hseen
    · rw [hps, hsm]
      exact getLast?_concat

section

variable (h : Inv reading self)

include h

theorem Inv.proceed [DecidableEq α] {rest : List π} {read : List (Option α)}
    (howns : Owns reading.codec reading.decode .account self.consumers
      self.subscriptions none self.subscriptions.length)
    (hall : self.subscriptions.length = self.addresses.length)
    (hfet : Fetched self ev rest read)
    (hprc : self.proceed reading ready rest read = some after) :
    Inv reading after ∧ Stepped reading self ev after := by
  cases rest with
  | cons addr rest =>
    cases hprc
    refine ⟨⟨howns.fit, fun _ => howns, h.subscriptions, Nat.le_refl _, fun _ _ => hall,
      h.accounts, ?_, ?_⟩, .reads _ _ ⟨rfl, rfl, fun _ _ => rfl⟩ hfet rfl rfl⟩
    · intro hsh
      cases hsh
    · intro hsh
      cases hsh
  | nil =>
    simp only [AccountWatch.proceed, AccountWatch.seed] at hprc
    by_cases hlen : read.length = self.addresses.length
    · simp only [if_pos hlen] at hprc
      have hseen : false ∉ self.seen.map fun _ => true := by
        intro hm
        obtain ⟨_, -, hfalse⟩ := mem_map.mp hm
        cases hfalse
      obtain ⟨hinv, hrests, haccs, hsh, hps⟩ :=
        check_shows { self with accounts := read, seen := self.seen.map fun _ => true } howns hall
          hlen hseen hprc
      have hkp : Keeps self after :=
        ⟨hrests.addresses, hrests.subscriptions, fun i _ => hrests.heard i⟩
      exact ⟨hinv, .seeds read hkp hfet hsh haccs hps⟩
    · simp only [if_neg hlen] at hprc
      cases hprc
      obtain ⟨hn, hsd⟩ := hfet.early
      refine ⟨h.finish h.fit .mismatch, .fails _ rfl rfl hsd rfl rfl fun hsh => ?_⟩
      cases hn.symm.trans hsh

theorem Inv.pollUntil [DecidableEq α] {call : ℕ} {expired late : Bool}
    (hp : self.phase = .waiting call)
    (hpoll : self.pollUntil reading ready call expired late = some after) :
    Inv reading after ∧ Stepped reading self (.poll expired late) after := by
  have howns := h.owns (by rw [hp]; rfl)
  have hop : self.opened = self.subscriptions.length := by simp only [opened, hp]
  have hsh : self.phase.shows = true := by
    rw [hp]
    rfl
  have hall : self.subscriptions.length = self.addresses.length :=
    h.all (by rw [hp]; rintro _ ⟨⟩) (by rw [hp]; rfl)
  have hb : self.phase.failed = false := by
    rw [hp]
    rfl
  rw [hop, hp] at howns
  obtain ⟨consumers, hst, hpoll⟩ := Option.bind_eq_some_iff.mp hpoll
  have hpolled := howns.polled hst
  cases hpolled with
  | waits hans hwts hhd =>
    simp only [hans] at hpoll
    split at hpoll
    · obtain ⟨last, hla, hpoll⟩ := Option.bind_eq_some_iff.mp hpoll
      cases hpoll
      exact ⟨h.finish (hwts.fit.change (Consumers.step_change hla)) .timeout,
        .fails _ rfl rfl hb rfl rfl fun _ => by rintro _ ⟨⟩⟩
    · cases hpoll
      refine ⟨⟨hwts.fit, fun _ => ?_, h.subscriptions, h.collected, h.all, h.accounts, h.seen,
        h.passed⟩, .stays ⟨rfl, rfl, fun i _ => hhd i⟩ rfl rfl rfl (by rintro _ ⟨⟩)⟩
      have hsm : AccountWatch.opened { self with consumers } = self.subscriptions.length :=
        hop
      rw [hp]
      exact hwts
  | failed failure hans hfit =>
    simp only [hans] at hpoll
    cases hpoll
    exact ⟨h.finish hfit _, .fails _ rfl rfl hb rfl rfl fun _ => by rintro _ ⟨⟩⟩
  | found update pl i hans hi hdec hhd hos hfree =>
    simp only [hans] at hpoll
    cases hacc : reading.account update.event with
    | none =>
      simp only [hacc] at hpoll
      cases hpoll
      exact ⟨h.finish hfree.fit _, .fails _ rfl rfl hb rfl rfl fun _ => by rintro _ ⟨⟩⟩
    | some acc =>
      simp only [hacc] at hpoll
      have hseen : false ∉ self.seen.set update.index true := by
        intro hm
        rcases mem_or_eq_of_mem_set hm with hold | hnew
        · exact h.seen hsh hold
        · cases hnew
      have hlen : (self.accounts.set update.index (reading.image acc)).length =
          self.addresses.length := by
        rw [length_set]
        exact h.accounts
      obtain ⟨hinv, hrests, haccs, hla, hps⟩ := check_shows
        (AccountWatch.update reading { self with consumers } update.index acc) hfree hall
        hlen hseen hpoll
      refine ⟨hinv, .takes update.index i pl acc hsh hrests.addresses
        hrests.subscriptions hi ?_ ((hrests.heard i).trans hhd)
        (fun other hne => (hrests.heard other).trans (hos other hne)) hla haccs ?_
        (by rintro _ ⟨⟩)⟩
      · rw [hdec]
        exact hacc
      · rw [haccs]
        exact hps

theorem Inv.others [DecidableEq α] {a : Action}
    (hst : self.step reading ready (.others a) = some after) :
    Inv reading after ∧ Stepped reading self (.others a) after := by
  obtain ⟨⟨hbusy, hc, hspr⟩, hst⟩ := of_guard hst
  obtain ⟨cs, hcons, hst⟩ := Option.bind_eq_some_iff.mp hst
  cases hst
  obtain ⟨howns, hhd⟩ :=
    (h.owns (WatchPhase.not_failed hbusy)).spared hc hspr (Consumers.step_change hcons)
  exact ⟨⟨howns.fit, fun _ => howns, h.subscriptions, h.collected, h.all, h.accounts, h.seen,
    h.passed⟩, .stays ⟨rfl, rfl, hhd⟩ rfl rfl rfl (by rintro _ ⟨⟩)⟩

theorem Inv.subscribe [DecidableEq α] (hst : self.step reading ready .subscribe = some after) :
    Inv reading after ∧ Stepped reading self .subscribe after := by
  simp only [AccountWatch.step] at hst
  split at hst
  · rename_i collected hp
    obtain ⟨-, hst⟩ := of_guard hst
    obtain ⟨address, haddr, hst⟩ := Option.bind_eq_some_iff.mp hst
    obtain ⟨consumers, hcons, hst⟩ := Option.bind_eq_some_iff.mp hst
    cases hst
    have howns := h.owns (by rw [hp]; rfl)
    rw [hp] at howns
    obtain ⟨hmore, hnew, hhd⟩ := howns.subscribed hcons h.collected
    have hop : AccountWatch.opened { self with
        consumers
        subscriptions := self.subscriptions ++ [self.consumers.connection.tasks.length] } =
        self.opened := by simp only [opened, hp]
    refine ⟨⟨hmore.fit, fun _ => ?_, ?_, ?_, ?_, h.accounts, h.seen, h.passed⟩,
      .subscribes _ collected hp rfl rfl hnew hhd rfl rfl (by rintro _ ⟨⟩)⟩
    · rw [hop, hp]
      exact hmore
    · rw [length_append]
      exact lt_of_getElem? haddr
    · rw [hop, length_append]
      exact Nat.le_trans h.collected (Nat.le_add_right _ _)
    · exact fun hn => absurd hp (hn collected)
  · cases hst

theorem Inv.collect [DecidableEq α] (hst : self.step reading ready .collect = some after) :
    Inv reading after ∧ Stepped reading self .collect after := by
  simp only [AccountWatch.step] at hst
  split at hst
  · rename_i collected hp
    obtain ⟨i, hi, hst⟩ := Option.bind_eq_some_iff.mp hst
    obtain ⟨task, ht, hst⟩ := Option.bind_eq_some_iff.mp hst
    split at hst
    · rename_i hheld
      cases hst
      have howns := h.owns (by rw [hp]; rfl)
      have hop : self.opened = collected := by simp only [opened, hp]
      rw [hop, hp] at howns
      refine ⟨⟨h.fit, fun _ => howns.opened hi ht hheld, h.subscriptions,
        (lt_of_getElem? hi), ?_, h.accounts, ?_, ?_⟩,
        .collects collected ⟨rfl, rfl, fun _ _ => rfl⟩ hp rfl rfl (by rintro _ ⟨⟩)⟩
      · exact fun hn => absurd rfl (hn (collected + 1))
      · intro hsh
        cases hsh
      · intro hsh
        cases hsh
    · cases hst
    · cases hst
    · cases hst
    · cases hst
      exact ⟨h.finish h.fit .subscription,
        .fails _ rfl rfl (by rw [hp]; rfl) rfl rfl fun _ => by rintro _ ⟨⟩⟩
  · cases hst

theorem Inv.step [DecidableEq α] (hst : self.step reading ready ev = some after) :
    Inv reading after ∧ Stepped reading self ev after := by
  cases ev with
  | others a => exact h.others hst
  | subscribe => exact h.subscribe hst
  | collect => exact h.collect hst
  | subscribed =>
    simp only [AccountWatch.step] at hst
    split at hst
    · rename_i collected hp
      obtain ⟨hcollected, hst⟩ := of_guard hst
      rw [hcollected] at hp
      have hop : self.opened = self.addresses.length := by simp only [opened, hp]
      have hall : self.subscriptions.length = self.addresses.length :=
        Nat.le_antisymm h.subscriptions (hop ▸ h.collected)
      have howns := h.owns (by rw [hp]; rfl)
      rw [hop, ← hall, hp] at howns
      exact h.proceed howns hall (.begun hp rfl rfl rfl) hst
    · cases hst
  | answered reply =>
    simp only [AccountWatch.step] at hst
    split at hst
    · rename_i rest read hp
      split at hst
      · rename_i accs
        have howns := h.owns (by rw [hp]; rfl)
        have hop : self.opened = self.subscriptions.length := by simp only [opened, hp]
        rw [hop, hp] at howns
        exact h.proceed howns (h.all (by rw [hp]; rintro _ ⟨⟩) (by rw [hp]; rfl))
          (.answered rest read accs hp rfl rfl rfl) hst
      · cases hst
        exact ⟨h.finish h.fit .request,
          .fails _ rfl rfl (by rw [hp]; rfl) rfl rfl fun _ => by rintro _ ⟨⟩⟩
    · cases hst
  | poll expired late =>
    simp only [AccountWatch.step] at hst
    split at hst
    · rename_i call hp
      exact h.pollUntil hp hst
    · cases hst
  | late =>
    simp only [AccountWatch.step] at hst
    split at hst
    · rename_i hp
      cases hst
      exact ⟨h.finish h.fit .timeout,
        .fails _ rfl rfl (by rw [hp]; rfl) rfl rfl fun _ => by rintro _ ⟨⟩⟩
    · rename_i hp
      cases hst
      exact ⟨h.finish h.fit .timeout,
        .fails _ rfl rfl (by rw [hp]; rfl) rfl rfl fun _ => by rintro _ ⟨⟩⟩
    · cases hst

end

theorem inv_start {cs : Consumers ν τ}
    (h : cs.Reachable reading.codec reading.decode) (addrs : List π) :
    Inv reading (start cs addrs : AccountWatch ν τ π α ρ) where
  fit := h.fit
  owns _ := .start h.fit .account
  subscriptions := Nat.zero_le _
  collected := Nat.le_refl _
  all hn := absurd rfl (hn 0)
  accounts := length_map _
  seen hsh := by cases hsh
  passed hsh := by cases hsh

end AccountWatch

end Events

end Redsuite
