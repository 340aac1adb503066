import Redsuite.AccountWatch
import Redsuite.TryConfirm

/-!
# The images of watched accounts

`await_accounts` runs against a node whose accounts change.
-/

namespace Redsuite

open List Option

namespace Events

variable {ν τ π α ρ : Type}

def AccountReading.tells (self : AccountReading ν τ π α) (event : ν) : Option α :=
  (self.decode .account event).bind self.account

def AccountReading.reads (self : AccountReading ν τ π α) (payload : String) : Option α :=
  (self.codec.event payload).bind self.tells

/-! ### The node -/

/-- An account as it is from a slot on. -/
structure Version (α : Type) where
  slot : ℕ
  account : α

/-- `await_accounts`, its connection and the node. -/
structure Watched (ν τ π α ρ : Type) where
  watch : AccountWatch ν τ π α ρ
  now : π → ℕ
  /-- how often the account had changed when its subscription was acknowledged -/
  starts : ℕ → Option ℕ
  /-- the node has looked for the accounts asked for, when they had changed so often -/
  numbers : Option (π → ℕ)
  /-- how often the accounts of the snapshot had changed; not in the source -/
  reads : List ℕ
  /-- the versions `ready` has seen, call by call; not in the source -/
  shown : List (List ℕ)

/-- What the node does, and what the call does. -/
inductive WatchedEvent (π α : Type) : Type where
  /-- an account changes; the subscriptions that were acknowledged are notified -/
  | change (address : π)
  | acknowledge (place : ℕ)
  | look
  /-- the client does something, or reads a frame, or others do -/
  | client (event : WatchEvent α)

namespace Watched

section

variable (reading : AccountReading ν τ π α) (versions : π → ℕ → Version α)
  (ready : List (Option α) → Option ρ)

/-- What the node has sent on a subscription: every change since its acknowledgment. -/
def sent (self : Watched ν τ π α ρ) (place : ℕ) : List α :=
  match self.starts place, self.watch.addresses[place]? with
  | some start, some address => (List.range (self.now address - start)).map fun n =>
      (versions address (start + n + 1)).account
  | _, _ => []

/-- What arrives of it, by the log of the client: ids of the node's own, the acknowledgment, and
what was sent, in order. -/
structure Sends (watched : Watched ν τ π α ρ) : Prop where
  ids : (ackedIds watched.watch.consumers.connection.log).Nodup
  acked : ∀ entry ∈ watched.watch.subscriptions.zipIdx,
    acknowledges (entry.1 + 1, .account) watched.watch.consumers.connection.log = true →
      (watched.starts entry.2).isSome = true
  told : ∀ entry ∈ watched.watch.subscriptions.zipIdx,
    (notifications (entry.1 + 1, .account) watched.watch.consumers.connection.log).map
      reading.reads <+: (watched.sent versions entry.2).map some

def hear (self : Watched ν τ π α ρ) : WatchEvent α → Watched ν τ π α ρ
  | .answered (some _) =>
    match self.numbers with
    | some numbers =>
      { self with numbers := none, reads := self.reads ++ self.watch.chunk.map numbers }
    | none => self
  | _ => self

/-- The version that the image of an account shows: of the last notification, or of the snapshot. -/
def number (self : Watched ν τ π α ρ) (place : ℕ) : ℕ :=
  let count := self.watch.subscriptions[place]?.elim 0 fun index => (self.watch.heard index).length
  if count = 0 then self.reads.getD place 0 else (self.starts place).getD 0 + count

def row (self : Watched ν τ π α ρ) : List ℕ :=
  (List.range self.watch.addresses.length).map self.number

variable [DecidableEq α]

instance (watched : Watched ν τ π α ρ) : Decidable (Sends reading versions watched) :=
  decidable_of_iff ((ackedIds watched.watch.consumers.connection.log).Nodup ∧
    (∀ entry ∈ watched.watch.subscriptions.zipIdx,
      acknowledges (entry.1 + 1, .account) watched.watch.consumers.connection.log = true →
        (watched.starts entry.2).isSome = true) ∧
    ∀ entry ∈ watched.watch.subscriptions.zipIdx,
      (notifications (entry.1 + 1, .account) watched.watch.consumers.connection.log).map
        reading.reads <+: (watched.sent versions entry.2).map some)
    ⟨fun h => ⟨h.1, h.2.1, h.2.2⟩, fun h => ⟨h.ids, h.acked, h.told⟩⟩

def images (addresses : List π) (numbers : List ℕ) : List (Option α) :=
  zipWith (fun address n => reading.image (versions address n).account) addresses numbers

/-- The snapshot shows the accounts as the node has found them. -/
def Answers (self : Watched ν τ π α ρ) : WatchEvent α → Prop
  | .answered (some accounts) =>
    match self.numbers with
    | some numbers =>
      accounts = images reading versions self.watch.chunk (self.watch.chunk.map numbers)
    | none => False
  | _ => True

instance (self : Watched ν τ π α ρ) (event : WatchEvent α) :
    Decidable (self.Answers reading versions event) := by
  unfold Answers
  split
  · split <;> infer_instance
  · infer_instance

def step [DecidableEq π] (self : Watched ν τ π α ρ) :
    WatchedEvent π α → Option (Watched ν τ π α ρ)
  | .change address =>
    some { self with now := Function.update self.now address (self.now address + 1) }
  | .acknowledge place => do
    guard (place < self.watch.subscriptions.length ∧ self.starts place = none)
    let address ← self.watch.addresses[place]?
    some { self with starts := Function.update self.starts place (some (self.now address)) }
  | .look => do
    guard (self.watch.chunk.isEmpty = false ∧ self.numbers.isNone = true)
    some { self with numbers := some self.now }
  | .client event => do
    guard (self.Answers reading versions event)
    let watch ← self.watch.step reading ready event
    let after : Watched ν τ π α ρ := { self.hear event with watch }
    guard (Sends reading versions after)
    some { after with
      shown :=
        if watch.passed.length = self.watch.passed.length then self.shown
        else self.shown ++ [after.row] }

def start (consumers : Consumers ν τ) (addresses : List π) (now : π → ℕ) : Watched ν τ π α ρ :=
  ⟨AccountWatch.start consumers addresses, now, fun _ => none, none, [], []⟩

/-- A state of some run. -/
def Reachable [DecidableEq π] (self : Watched ν τ π α ρ) : Prop :=
  ∃ consumers addresses now, consumers.Reachable reading.codec reading.decode ∧
    (ackedIds consumers.connection.log).Nodup ∧
    Machine.Reachable (step reading versions ready) (start consumers addresses now) self

end

/-! ### What was heard was sent -/

section

variable {reading : AccountReading ν τ π α} {versions : π → ℕ → Version α}
  {self after : Watched ν τ π α ρ}

variable {p index : ℕ} {address : π}

theorem task (h : self.watch.Inv reading) (hsd : self.watch.phase.failed = false)
    (hi : self.watch.subscriptions[p]? = some index) :
    ∃ task : Task, self.watch.consumers.connection.tasks[index]? = some task ∧
      task.name = (index + 1, .account) ∧
      (p < self.watch.opened → task.phase = .held) := by
  have howns := h.owns hsd
  obtain ⟨task, ht, htop, hheld⟩ := howns.task p index hi
  have hinv := howns.fit.sound.delivered.reached.inv Connection.inv_init
  refine ⟨task, ht, ?_, hheld⟩
  rw [Task.name, htop, hinv.keys index task ht]

theorem reads_all {payloads : List String}
    (h : ∀ pl ∈ payloads, (reading.reads pl).isSome = true) :
    (payloads.filterMap reading.codec.event).map reading.tells = payloads.map reading.reads := by
  induction payloads with
  | nil => rfl
  | cons pl rest ih =>
    have hfst := h pl mem_cons_self
    rw [AccountReading.reads, isSome_bind] at hfst
    obtain ⟨event, hev, -⟩ := (any_eq_true _ _).mp hfst
    rw [filterMap_cons_some hev, map_cons, map_cons,
      ih fun other hm => h other (mem_cons_of_mem _ hm), AccountReading.reads, hev]
    rfl

theorem heard_sent (h : self.watch.Inv reading) (hsd : self.watch.phase.failed = false)
    (hsn : Sends reading versions self) (hi : self.watch.subscriptions[p]? = some index)
    (hop : p < self.watch.opened) :
    (self.watch.heard index).map reading.tells <+: (self.sent versions p).map some := by
  obtain ⟨task, ht, hnm, hheld⟩ := task h hsd hi
  have hrch := (h.owns hsd).fit.sound.delivered.reached
  obtain ⟨evs, -, hevs⟩ := (Connection.Run.routed hrch hsn.ids).events task
    (mem_of_getElem? ht) (by rw [hheld hop]; rfl)
  have hsig : (index + 1, Topic.account).2 ≠ .signature := by rintro ⟨⟩
  rw [hnm, routed_of_one fun h => absurd h hsig, (Prod.mk.inj hnm).1] at hevs
  have he : (index, p) ∈ self.watch.subscriptions.zipIdx :=
    mk_mem_zipIdx_iff_getElem?.mpr hi
  have htold := hsn.told _ he
  have hrd : ∀ pl ∈ notifications (index + 1, .account)
      self.watch.consumers.connection.log, (reading.reads pl).isSome = true := by
    intro pl hm
    obtain ⟨acc, -, hacc⟩ := mem_map.mp (htold.subset (mem_map_of_mem hm))
    rw [← hacc]
    rfl
  refine List.IsPrefix.trans ?_ htold
  rw [← reads_all hrd, ← hevs, map_append]
  exact prefix_append _ _

theorem taken_version (self : Watched ν τ π α ρ) {start : ℕ} {before : List ν} {pl : ν}
    {acc : α}
    (hsent : (self.watch.heard index).map reading.tells <+: (self.sent versions p).map some)
    (hhd : self.watch.heard index = before ++ [pl])
    (htl : reading.tells pl = some acc) (hsr : self.starts p = some start)
    (haddr : self.watch.addresses[p]? = some address) :
    acc = (versions address (start + (before.length + 1))).account := by
  obtain ⟨rest, hr⟩ := hsent
  have hla : ((self.sent versions p).map some)[before.length]? = some (some acc) := by
    rw [← hr, hhd, map_append, append_assoc,
      getElem?_append_right (Nat.le_of_eq (length_map _)), length_map, Nat.sub_self,
      ← htl]
    rfl
  simp only [sent, hsr, haddr] at hla
  rw [getElem?_map, getElem?_map] at hla
  obtain ⟨found, hf, hsome⟩ := map_eq_some_iff.mp hla
  obtain ⟨n, hn, rfl⟩ := map_eq_some_iff.mp hf
  obtain ⟨hlt, rfl⟩ := List.getElem?_eq_some_iff.mp hn
  rw [List.getElem_range] at hsome
  exact (some.inj hsome).symm

theorem started (h : self.watch.Inv reading) (hsd : self.watch.phase.failed = false)
    (hsn : Sends reading versions self) (hi : self.watch.subscriptions[p]? = some index)
    (hop : p < self.watch.opened) : ∃ start, self.starts p = some start := by
  obtain ⟨task, ht, hnm, hheld⟩ := task h hsd hi
  have hacked := (h.owns hsd).fit.sound.delivered.reached.acked (mem_of_getElem? ht)
    (hheld hop)
  rw [Connection.Acked, hnm] at hacked
  exact isSome_iff_exists.mp (hsn.acked (index, p)
    (mk_mem_zipIdx_iff_getElem?.mpr hi) (acknowledges_iff.mpr hacked))

theorem sent_grows (self : Watched ν τ π α ρ) (p : ℕ) {now : π → ℕ}
    (hnow : ∀ address, self.now address ≤ now address) :
    self.sent versions p <+: sent versions { self with now } p := by
  simp only [sent]
  split
  · rename_i start address _ _
    have hle : self.now address - start ≤ now address - start :=
      Nat.sub_le_sub_right (hnow address) start
    have hrange : List.range (self.now address - start) =
        (List.range (now address - start)).take (self.now address - start) := by
      rw [take_range, Nat.min_eq_left hle]
    rw [hrange]
    exact ( take_prefix _ _).map _
  · exact prefix_refl _

theorem images_append [DecidableEq α] (addrs : List π) (numbers more : List ℕ) :
    images reading versions addrs (numbers ++ more) =
      images reading versions addrs numbers ++
        images reading versions (addrs.drop numbers.length) more := by
  induction numbers generalizing addrs with
  | nil =>
    rw [images, images, zipWith_nil_right]
    rfl
  | cons n rest ih =>
    cases addrs with
    | nil => rfl
    | cons address addrs => exact congrArg (_ :: ·) (ih addrs)

theorem images_take [DecidableEq α] (addrs : List π) (numbers : π → ℕ) (n : ℕ) :
    images reading versions (addrs.take n) ((addrs.take n).map numbers) =
      images reading versions addrs ((addrs.take n).map numbers) := by
  induction n generalizing addrs with
  | zero => exact zipWith_nil_right.symm
  | succ n ih =>
    cases addrs with
    | nil => rfl
    | cons address addrs => exact congrArg (_ :: ·) (ih addrs)

theorem images_getElem? [DecidableEq α] {addrs : List π} {numbers : List ℕ} {n : ℕ}
    (haddr : addrs[p]? = some address) (hn : numbers[p]? = some n) :
    (images reading versions addrs numbers)[p]? =
      some (reading.image (versions address n).account) := by
  rw [images, getElem?_zipWith, haddr, hn]

/-! ### What every step keeps -/

variable (versions) in
/-- The slots of an account do not go back. -/
def Steady : Prop := ∀ address m n, m ≤ n → (versions address m).slot ≤ (versions address n).slot

variable (versions) in
/-- The versions of an account between its acknowledgment and the snapshot are all from the slot of
the one that the snapshot shows. -/
def Calm (self : Watched ν τ π α ρ) : Prop :=
  ∀ place address start n, self.watch.addresses[place]? = some address →
    self.starts place = some start → self.reads[place]? = some n →
    ∀ k, start < k → k ≤ n → (versions address n).slot ≤ (versions address k).slot

variable (versions) in
/-- No image of the later call of `ready` is from an older slot than that of the earlier. -/
def Forward (addresses : List π) (earlier later : List ℕ) : Prop :=
  ∀ (place : ℕ) address m n, addresses[place]? = some address → earlier[place]? = some m →
    later[place]? = some n → (versions address m).slot ≤ (versions address n).slot

/-- A snapshot that is read, up to some place. -/
structure Snapshot [DecidableEq α] (reading : AccountReading ν τ π α) (versions : π → ℕ → Version α)
    (watched : Watched ν τ π α ρ) (rest : List π) (read : List (Option α)) : Prop where
  rest : rest = watched.watch.addresses.drop watched.reads.length
  bound : watched.reads.length ≤ watched.watch.addresses.length
  read : read = images reading versions watched.watch.addresses watched.reads

theorem Snapshot.congr [DecidableEq α] {rest : List π} {read : List (Option α)}
    (h : Snapshot reading versions self rest read)
    (haddrs : after.watch.addresses = self.watch.addresses) (hrds : after.reads = self.reads) :
    Snapshot reading versions after rest read := by
  obtain ⟨hr, hbd, hrd⟩ := h
  rw [← haddrs, ← hrds] at hr hbd hrd
  exact ⟨hr, hbd, hrd⟩

/-- Once `ready` is called, the images show the versions that are said. -/
structure Shown [DecidableEq α] (reading : AccountReading ν τ π α) (versions : π → ℕ → Version α)
    (watched : Watched ν τ π α ρ) : Prop where
  complete : watched.reads.length = watched.watch.addresses.length
  accounts : watched.watch.accounts = images reading versions watched.watch.addresses watched.row
  last : watched.shown.getLast? = some watched.row

/-- What holds between the call and the node. -/
structure Honest [DecidableEq α] (reading : AccountReading ν τ π α) (versions : π → ℕ → Version α)
    (watched : Watched ν τ π α ρ) : Prop where
  inv : watched.watch.Inv reading
  sends : Sends reading versions watched
  starts : ∀ place start address, watched.starts place = some start →
    watched.watch.addresses[place]? = some address → start ≤ watched.now address
  /-- the node looks when every subscription is acknowledged -/
  numbers : ∀ numbers, watched.numbers = some numbers → ∀ (place : ℕ) address,
    watched.watch.addresses[place]? = some address → numbers address ≤ watched.now address ∧
      ∃ start, watched.starts place = some start ∧ start ≤ numbers address
  reads : watched.watch.phase.failed = false → ∀ (place : ℕ) n address,
    watched.reads[place]? = some n → watched.watch.addresses[place]? = some address →
      n ≤ watched.now address ∧ ∃ start, watched.starts place = some start ∧ start ≤ n
  subscribing : ∀ collected, watched.watch.phase = .subscribing collected → watched.reads = []
  snapshot : ∀ rest read, watched.watch.phase = .reading rest read →
    Snapshot reading versions watched rest read
  /-- nothing is taken before the snapshot is shown -/
  fresh : watched.watch.phase.shows = false → watched.watch.phase.failed = false →
    watched.shown = [] ∧ ∀ index ∈ watched.watch.subscriptions, watched.watch.heard index = []
  shows : watched.watch.phase.shows = true → Shown reading versions watched
  passed : watched.watch.passed =
    watched.shown.map (images reading versions watched.watch.addresses)
  forward : Steady versions → Calm versions watched →
    watched.shown.Pairwise (Forward versions watched.watch.addresses)

theorem number_eq (self : Watched ν τ π α ρ)
    (hi : self.watch.subscriptions[p]? = some index) :
    self.number p = if (self.watch.heard index).length = 0 then self.reads.getD p 0
      else (self.starts p).getD 0 + (self.watch.heard index).length := by
  simp only [number, hi, elim_some]

theorem number_same (self : Watched ν τ π α ρ) {watch : AccountWatch ν τ π α ρ}
    (hsubs : watch.subscriptions = self.watch.subscriptions)
    (hhd : ∀ index, self.watch.subscriptions[p]? = some index →
      watch.heard index = self.watch.heard index) :
    Watched.number { self with watch } p = self.number p := by
  cases hi : self.watch.subscriptions[p]? with
  | none => simp only [number, hsubs, hi, elim_none, if_true]
  | some index =>
    have hi' : watch.subscriptions[p]? = some index := hsubs ▸ hi
    rw [number_eq self hi, number_eq { self with watch } hi', hhd index hi]

theorem row_getElem? (self : Watched ν τ π α ρ) (h : self.watch.addresses[p]? = some address) :
    self.row[p]? = some (self.number p) := by
  rw [row, getElem?_map, getElem?_range (lt_of_getElem? h)]
  rfl

theorem row_length : self.row.length = self.watch.addresses.length := by
  rw [row, length_map, length_range]

theorem row_eq (haddrs : after.watch.addresses = self.watch.addresses)
    (h : ∀ p, p < self.watch.addresses.length → after.number p = self.number p) :
    after.row = self.row := by
  rw [row, haddrs]
  exact map_congr_left fun p hm => h p (mem_range.mp hm)

theorem Forward.trans {earlier later : List ℕ}
    (h : Forward versions self.watch.addresses earlier self.row)
    (hnx : Forward versions self.watch.addresses self.row later) :
    Forward versions self.watch.addresses earlier later := by
  intro p address m n haddr hm hn
  have hrow := self.row_getElem? haddr
  exact Nat.le_trans (h p address m _ haddr hm hrow)
    (hnx p address _ n haddr hrow hn)

theorem row_reads (hlen : self.reads.length = self.watch.addresses.length)
    (hn : ∀ index ∈ self.watch.subscriptions, self.watch.heard index = []) :
    self.row = self.reads := by
  refine ext_getElem? fun p => ?_
  by_cases hpl : p < self.watch.addresses.length
  · have hct : self.number p = self.reads.getD p 0 := by
      cases hi : self.watch.subscriptions[p]? with
      | none => simp only [number, hi, elim_none, if_true]
      | some index =>
        rw [number_eq self hi, hn index (mem_of_getElem? hi)]
        exact if_pos rfl
    rw [self.row_getElem? (getElem?_eq_getElem hpl), hct, getD_eq_getElem?_getD,
      getElem?_eq_getElem (hlen ▸ hpl)]
    rfl
  · rw [getElem?_eq_none (row_length ▸ Nat.not_lt.mp hpl),
      getElem?_eq_none (hlen ▸ Nat.not_lt.mp hpl)]

theorem hear_other {event : WatchEvent α} (h : ∀ accs, event ≠ .answered (some accs)) :
    self.hear event = self := by
  unfold hear
  split
  · exact absurd rfl (h _)
  · rfl

theorem hear_watch {event : WatchEvent α} : (self.hear event).watch = self.watch := by
  unfold hear
  split
  · split <;> rfl
  · rfl

theorem hear_keeps (self : Watched ν τ π α ρ) (event : WatchEvent α) :
    (self.hear event).now = self.now ∧ (self.hear event).starts = self.starts ∧
      (∀ numbers, (self.hear event).numbers = some numbers → self.numbers = some numbers) := by
  unfold hear
  split
  · split
    · refine ⟨rfl, rfl, ?_⟩
      rintro numbers ⟨⟩
    · exact ⟨rfl, rfl, fun _ => id⟩
  · exact ⟨rfl, rfl, fun _ => id⟩

section

variable [DecidableEq α]

theorem honest_start {cs : Consumers ν τ}
    (h : cs.Reachable reading.codec reading.decode)
    (hids : (ackedIds cs.connection.log).Nodup) (addrs : List π) (now : π → ℕ) :
    Honest reading versions (start cs addrs now : Watched ν τ π α ρ) where
  inv := AccountWatch.inv_start h addrs
  sends := ⟨hids, (fun _ hm => by cases hm), (fun _ hm => by cases hm)⟩
  starts p start address hsr := by cases hsr
  numbers numbers hnums := by cases hnums
  reads _ p n address hn := by cases hn
  subscribing _ _ := rfl
  snapshot rest read hp := by cases hp
  fresh _ _ := ⟨rfl, fun _ hm => by cases hm⟩
  shows hsh := by cases hsh
  passed := rfl
  forward _ _ := List.Pairwise.nil

section

variable (h : Honest reading versions self)

include h

theorem Honest.change {now : π → ℕ} (hnow : ∀ address, self.now address ≤ now address) :
    Honest reading versions { self with now } where
  inv := h.inv
  sends := ⟨h.sends.ids, h.sends.acked, fun e hm =>
    (h.sends.told e hm).trans ((sent_grows self e.2 hnow).map some)⟩
  starts p start address hsr haddr :=
    Nat.le_trans (h.starts p start address hsr haddr) (hnow address)
  numbers numbers hnums p address haddr := by
    obtain ⟨hle, hsr⟩ := h.numbers numbers hnums p address haddr
    exact ⟨Nat.le_trans hle (hnow address), hsr⟩
  reads hsd p n address hn haddr := by
    obtain ⟨hle, hsr⟩ := h.reads hsd p n address hn haddr
    exact ⟨Nat.le_trans hle (hnow address), hsr⟩
  subscribing := h.subscribing
  snapshot rest read hp := (h.snapshot rest read hp).congr rfl rfl
  fresh := h.fresh
  shows hsh := { h.shows hsh with }
  passed := h.passed
  forward := h.forward

theorem Honest.shows_started (hsh : self.watch.phase.shows = true)
    (haddr : self.watch.addresses[p]? = some address) : ∃ start n, self.starts p = some start ∧
    self.reads[p]? = some n ∧ start ≤ n ∧ n ≤ self.now address := by
  have hlt : p < self.reads.length := by
    rw [(h.shows hsh).complete]
    exact lt_of_getElem? haddr
  have hn := getElem?_eq_getElem hlt
  obtain ⟨hle, start, hsr, hstartLe⟩ :=
    h.reads (WatchPhase.sound_of_shows hsh) p _ address hn haddr
  exact ⟨start, _, hsr, hn, hstartLe, hle⟩

theorem Honest.acknowledge (haddr : self.watch.addresses[p]? = some address)
    (hnone : self.starts p = none) :
    Honest reading versions { self with starts := Function.update self.starts p (some
    (self.now address)) } := by
  have ho : ∀ {other start}, self.starts other = some start →
      Function.update self.starts p (some (self.now address)) other = some start := by
    intro other start hsr
    rw [Function.update_of_ne, hsr]
    rintro rfl
    cases hnone.symm.trans hsr
  have hsh : self.watch.phase.shows ≠ true := by
    intro hsh
    obtain ⟨start, n, hsr, -⟩ := h.shows_started hsh haddr
    cases hnone.symm.trans hsr
  refine ⟨h.inv, ⟨h.sends.ids, ?_, ?_⟩, ?_, ?_, ?_, h.subscribing,
    fun rest read hp => (h.snapshot rest read hp).congr rfl rfl, h.fresh,
    fun hyes => absurd hyes hsh, h.passed, ?_⟩
  · intro e hm hacked
    obtain ⟨start, hsr⟩ := isSome_iff_exists.mp (h.sends.acked e hm hacked)
    exact isSome_iff_exists.mpr ⟨start, ho hsr⟩
  · intro e hm
    have htold := h.sends.told e hm
    by_cases he : self.starts e.2 = none
    · simp only [sent, he, map_nil, prefix_nil, map_eq_nil_iff] at htold
      simp only [htold, map_nil, nil_prefix]
    · obtain ⟨start, hsr⟩ := ne_none_iff_exists'.mp he
      simp only [sent, ho hsr]
      simpa only [sent, hsr] using htold
  · intro other start found hsr hf
    dsimp only at hsr hf ⊢
    by_cases hpl : other = p
    · subst hpl
      cases haddr.symm.trans hf
      rw [Function.update_self] at hsr
      cases hsr
      exact Nat.le_refl _
    · rw [Function.update_of_ne hpl] at hsr
      exact h.starts other start found hsr hf
  · intro numbers hnums other found hf
    obtain ⟨hle, start, hsr, hstartLe⟩ := h.numbers numbers hnums other found hf
    exact ⟨hle, start, ho hsr, hstartLe⟩
  · intro hsd other n found hn hf
    obtain ⟨hle, start, hsr, hstartLe⟩ := h.reads hsd other n found hn hf
    exact ⟨hle, start, ho hsr, hstartLe⟩
  · intro hsteady hcm
    refine h.forward hsteady ?_
    intro other found start n hf hsr
    exact hcm other found start n hf (ho hsr)

theorem Honest.look (hchk : self.watch.chunk.isEmpty = false) :
    Honest reading versions { self with numbers := some self.now } := by
  refine ⟨h.inv, ⟨h.sends.ids, h.sends.acked, h.sends.told⟩, h.starts, ?_, h.reads, h.subscribing,
    fun rest read hp => (h.snapshot rest read hp).congr rfl rfl, h.fresh,
    fun hsh => { h.shows hsh with }, h.passed, h.forward⟩
  rintro numbers hnums p address haddr
  cases hnums
  refine ⟨Nat.le_refl _, ?_⟩
  unfold AccountWatch.chunk at hchk
  split at hchk
  · rename_i rest read hp
    have hsd : self.watch.phase.failed = false := by
      rw [hp]
      rfl
    have hall := h.inv.all (by rw [hp]; rintro _ ⟨⟩) hsd
    have hlt : p < self.watch.subscriptions.length :=
      hall ▸ (lt_of_getElem? haddr)
    have hop : self.watch.opened = self.watch.subscriptions.length := by
      simp only [AccountWatch.opened, hp]
    obtain ⟨start, hsr⟩ := started h.inv hsd h.sends (getElem?_eq_getElem hlt)
      (hop ▸ hlt)
    exact ⟨start, hsr, h.starts p start address hsr haddr⟩
  · cases hchk

end

variable {event : WatchEvent α} {read : List (Option α)} {watch : AccountWatch ν τ π α ρ}

theorem Honest.fetched (h : Honest reading versions self) {rest : List π}
    (hanss : self.Answers reading versions event)
    (hfet : self.watch.Fetched event rest read) :
    Snapshot reading versions (self.hear event) rest read ∧
      ∀ (p : ℕ) n address, (self.hear event).reads[p]? = some n →
        self.watch.addresses[p]? = some address → n ≤ self.now address ∧
          ∃ start, self.starts p = some start ∧ start ≤ n := by
  cases hfet with
  | begun hp hev hr hrd =>
    subst hev hr hrd
    have hnil : self.reads = [] := h.subscribing _ hp
    refine ⟨⟨?_, ?_, ?_⟩, ?_⟩
    · change _ = self.watch.addresses.drop self.reads.length
      rw [hnil]
      rfl
    · change self.reads.length ≤ _
      rw [hnil]
      exact Nat.zero_le _
    · change _ = images reading versions self.watch.addresses self.reads
      rw [hnil]
      exact zipWith_nil_right.symm
    · intro p n address hn
      change self.reads[p]? = some n at hn
      rw [hnil] at hn
      cases hn
  | answered before earlier accs hp hev hr hrd =>
    subst hev hr hrd
    have hchk : self.watch.chunk = before.take 100 := by simp only [AccountWatch.chunk, hp]
    obtain ⟨hb, hbd, hearlier⟩ := h.snapshot before earlier hp
    simp only [Answers] at hanss
    split at hanss
    · rename_i numbers hnums
      have hhear : self.hear (.answered (some accs)) =
          { self with numbers := none, reads := self.reads ++ (before.take 100).map numbers } := by
        simp only [hear, hnums, hchk]
      have hlen : (self.reads ++ (before.take 100).map numbers).length =
          self.reads.length + min 100 before.length := by
        rw [length_append, length_map, length_take]
      have hleft : before.length = self.watch.addresses.length - self.reads.length := by
        rw [hb, length_drop]
      rw [hhear]
      refine ⟨⟨?_, ?_, ?_⟩, ?_⟩
      · rw [hlen, ← drop_drop, ← hb]
        rcases Nat.le_total 100 before.length with hle | hle
        · rw [Nat.min_eq_left hle]
        · rw [Nat.min_eq_right hle, drop_eq_nil_of_le hle,
            drop_eq_nil_of_le (Nat.le_refl _)]
      · change List.length _ ≤ self.watch.addresses.length
        rw [hlen]
        omega
      · rw [images_append, ← hb, ← images_take, ← hearlier, hanss, hchk]
      · intro p n address hn haddr
        rcases Nat.lt_or_ge p self.reads.length with hlt | hge
        · rw [getElem?_append_left hlt] at hn
          exact h.reads (by rw [hp]; rfl) p n address hn haddr
        · rw [getElem?_append_right hge, getElem?_map, map_eq_some_iff] at hn
          obtain ⟨found, hf, rfl⟩ := hn
          have hsome : before[p - self.reads.length]? = some found := by
            rw [getElem?_take] at hf
            split at hf
            · exact hf
            · cases hf
          rw [hb, getElem?_drop, Nat.add_sub_cancel' hge] at hsome
          cases haddr.symm.trans hsome
          exact h.numbers numbers hnums p address haddr
    · exact hanss.elim

theorem Honest.node (h : Honest reading versions self) (event : WatchEvent α) :
    (∀ p start address, (self.hear event).starts p = some start →
      self.watch.addresses[p]? = some address → start ≤ (self.hear event).now address) ∧
    ∀ numbers, (self.hear event).numbers = some numbers → ∀ (p : ℕ) address,
      self.watch.addresses[p]? = some address →
        numbers address ≤ (self.hear event).now address ∧
          ∃ start, (self.hear event).starts p = some start ∧ start ≤ numbers address := by
  obtain ⟨hnow, hstarts, hnums⟩ := self.hear_keeps event
  rw [hnow, hstarts]
  exact ⟨h.starts, fun numbers hsome => h.numbers numbers (hnums numbers hsome)⟩

section

variable (h : Honest reading versions self) (hinv : watch.Inv reading)

include h hinv

theorem Honest.stays (hsn : Sends reading versions { self with watch })
    (hkp : self.watch.Keeps watch)
    (hp : watch.phase = self.watch.phase) (haccs : watch.accounts = self.watch.accounts)
    (hps : watch.passed = self.watch.passed) : Honest reading versions { self with watch } := by
  obtain ⟨haddrs, hsubs, hhd⟩ := hkp
  have hrow : Watched.row { self with watch } = self.row := by
    refine row_eq haddrs fun p _ => self.number_same hsubs fun index hi => ?_
    exact hhd index (mem_of_getElem? hi)
  cases watch
  subst haddrs hsubs hp haccs hps
  refine ⟨hinv, hsn, h.starts, h.numbers, h.reads, h.subscribing,
    fun rest read hrdg => (h.snapshot rest read hrdg).congr rfl rfl, ?_, ?_, h.passed, h.forward⟩
  · intro hn hsd
    obtain ⟨hshown, hem⟩ := h.fresh hn hsd
    exact ⟨hshown, fun index hm => (hhd index hm).trans (hem index hm)⟩
  · intro hsh
    obtain ⟨hlen, himages, hlast⟩ := h.shows hsh
    rw [← hrow] at himages hlast
    exact ⟨hlen, himages, hlast⟩

theorem Honest.opens (hsn : Sends reading versions { self with watch })
    (haddrs : watch.addresses = self.watch.addresses) {before collected : ℕ}
    (hb : self.watch.phase = .subscribing before)
    (hp : watch.phase = .subscribing collected)
    (hhd : ∀ index ∈ watch.subscriptions, watch.heard index = [])
    (hps : watch.passed = self.watch.passed) : Honest reading versions { self with watch } := by
  have hsh : watch.phase.shows ≠ true := by
    rw [hp]
    rintro ⟨⟩
  have hrds : self.reads = [] := h.subscribing before hb
  obtain ⟨hshown, -⟩ := h.fresh (by rw [hb]; rfl) (by rw [hb]; rfl)
  cases watch
  subst haddrs hps
  refine ⟨hinv, hsn, h.starts, h.numbers, ?_, fun _ _ => hrds, ?_,
    fun _ _ => ⟨hshown, hhd⟩, fun hyes => absurd hyes hsh, h.passed, ?_⟩
  · intro _ p n address hn
    rw [hrds] at hn
    cases hn
  · intro rest read hrdg
    cases hp.symm.trans hrdg
  · intro _ _
    rw [hshown]
    exact List.Pairwise.nil

section

variable (hsn : Sends reading versions { self.hear event with watch })

include hsn

theorem Honest.fails (haddrs : watch.addresses = self.watch.addresses) {failure : WatchFailure}
    (hb : self.watch.phase.failed = false) (hp : watch.phase = .returned (.error failure))
    (hps : watch.passed = self.watch.passed)
    (hev : self.watch.phase.shows = true → ∀ accs, event ≠ .answered (some accs)) :
    Honest reading versions { self.hear event with watch, shown :=
    self.shown } := by
  have hfl : watch.phase.failed = true := by
    rw [hp]
    rfl
  have hsh : watch.phase.shows ≠ true := by
    rw [hp]
    rintro ⟨⟩
  obtain ⟨hstarts, hnums⟩ := h.node event
  cases watch
  subst haddrs hps
  refine ⟨hinv, ⟨hsn.ids, hsn.acked, hsn.told⟩, hstarts, hnums, ?_, ?_, ?_, ?_,
    fun hyes => absurd hyes hsh, h.passed, ?_⟩
  · intro hsd
    cases hfl.symm.trans hsd
  · intro collected hsubg
    cases hp.symm.trans hsubg
  · intro rest read hrdg
    cases hp.symm.trans hrdg
  · intro _ hsd
    cases hfl.symm.trans hsd
  · intro hsteady hcm
    cases hyes : self.watch.phase.shows with
    | false =>
      rw [(h.fresh hyes hb).1]
      exact List.Pairwise.nil
    | true =>
      rw [hear_other (hev hyes)] at hcm
      exact h.forward hsteady hcm

theorem Honest.fetches {rest : List π}
    (hanss : self.Answers reading versions event) (hkp : self.watch.Keeps watch)
    (hfet : self.watch.Fetched event rest read) (hp : watch.phase = .reading rest read)
    (hps : watch.passed = self.watch.passed) :
    Honest reading versions { self.hear event with watch, shown := self.shown } := by
  obtain ⟨haddrs, hsubs, hhd⟩ := hkp
  have hsh : watch.phase.shows ≠ true := by
    rw [hp]
    rintro ⟨⟩
  obtain ⟨hsnapshot, hrds⟩ := h.fetched hanss hfet
  obtain ⟨hstarts, hnums⟩ := h.node event
  obtain ⟨hshown, hem⟩ := h.fresh hfet.early.1 hfet.early.2
  obtain ⟨hnow, hsm, -⟩ := self.hear_keeps event
  cases watch
  subst haddrs hsubs hps
  refine ⟨hinv, ⟨hsn.ids, hsn.acked, hsn.told⟩, hstarts, hnums, fun _ => ?_, ?_, ?_,
    fun _ _ => ⟨hshown, fun index hm => (hhd index hm).trans (hem index hm)⟩,
    fun hyes => absurd hyes hsh, h.passed, fun _ _ => ?_⟩
  · rw [hnow, hsm]
    exact hrds
  · intro collected hsubg
    cases hp.symm.trans hsubg
  · intro rest' read' hrdg
    cases hp.symm.trans hrdg
    exact hsnapshot.congr (by rw [hear_watch]) rfl
  · rw [hshown]
    exact List.Pairwise.nil

theorem Honest.seeds (hanss : self.Answers reading versions event) (hkp : self.watch.Keeps watch)
    (hfet : self.watch.Fetched event [] read) (hsh : watch.phase.shows = true)
    (haccs : watch.accounts = read) (hps : watch.passed = self.watch.passed ++ [read]) :
    Honest reading versions { self.hear event with
      watch, shown := self.shown ++ [Watched.row { self.hear event with watch }] } := by
  obtain ⟨haddrs, hsubs, hhd⟩ := hkp
  obtain ⟨⟨hr, hbd, hrd⟩, hrds⟩ := h.fetched hanss hfet
  obtain ⟨hstarts, hnums⟩ := h.node event
  obtain ⟨hshown, hem⟩ := h.fresh hfet.early.1 hfet.early.2
  obtain ⟨hnow, hsm, -⟩ := self.hear_keeps event
  rw [hear_watch, ← haddrs] at hr hbd hrd
  have hlen : (self.hear event).reads.length = watch.addresses.length :=
    Nat.le_antisymm hbd (drop_eq_nil_iff.mp hr.symm)
  have hrow : Watched.row { self.hear event with watch } = (self.hear event).reads := by
    refine row_reads hlen ?_
    rw [hsubs]
    exact fun index hm => (hhd index hm).trans (hem index hm)
  have himages : watch.accounts = images reading versions watch.addresses
      (Watched.row { self.hear event with watch }) := by
    rw [haccs, hrow]
    exact hrd
  cases watch
  subst haddrs haccs
  refine ⟨hinv, ⟨hsn.ids, hsn.acked, hsn.told⟩, hstarts, hnums, fun _ => ?_, ?_, ?_,
    ?_, fun _ => ⟨hlen, himages, getLast?_concat⟩, ?_, fun _ _ => ?_⟩
  · rw [hnow, hsm]
    exact hrds
  · intro collected hsubg
    rw [hsubg] at hsh
    cases hsh
  · intro rest' read' hrdg
    rw [hrdg] at hsh
    cases hsh
  · intro hn
    cases hn.symm.trans hsh
  · rw [hps, map_append, map_singleton, ← himages, ← h.passed]
  · rw [hshown]
    exact pairwise_singleton _ _

end

end

theorem Honest.newer (h : Honest reading versions self) (hsteady : Steady versions)
    (hcm : Calm versions self) (hsh : self.watch.phase.shows = true) {index : ℕ}
    (hi : self.watch.subscriptions[p]? = some index)
    (haddr : self.watch.addresses[p]? = some address) {start : ℕ}
    (hsr : self.starts p = some start) :
    (versions address (self.number p)).slot ≤
      (versions address (start + ((self.watch.heard index).length + 1))).slot := by
  obtain ⟨start', n, hsr', hn, -, -⟩ := h.shows_started hsh haddr
  cases hsr.symm.trans hsr'
  rw [number_eq self hi, hsr, getD_eq_getElem?_getD, hn]
  split
  · rename_i hnone
    rw [hnone, getD_some]
    rcases Nat.lt_or_ge start n with hlt | hge
    · exact hcm p address start n haddr hsr hn (start + 1) (Nat.lt_succ_self _) hlt
    · exact hsteady address _ _ (Nat.le_trans hge (Nat.le_succ _))
  · exact hsteady address _ _ (by rw [getD_some]; omega)

theorem Honest.takes (h : Honest reading versions self) {index : ℕ} {pl : ν} {acc : α}
    (hinv : watch.Inv reading) (hsn : Sends reading versions { self with watch })
    (hb : self.watch.phase.shows = true) (haddrs : watch.addresses = self.watch.addresses)
    (hsubs : watch.subscriptions = self.watch.subscriptions)
    (hi : self.watch.subscriptions[p]? = some index)
    (htl : reading.tells pl = some acc)
    (hhd : watch.heard index = self.watch.heard index ++ [pl])
    (hos : ∀ other, other ≠ index → watch.heard other = self.watch.heard other)
    (hsh : watch.phase.shows = true)
    (haccs : watch.accounts = self.watch.accounts.set p (reading.image acc))
    (hps : watch.passed = self.watch.passed ++ [watch.accounts]) :
    Honest reading versions { self with
      watch, shown := self.shown ++ [Watched.row { self with watch }] } := by
  have hsd := WatchPhase.sound_of_shows hb
  have hsd' := WatchPhase.sound_of_shows hsh
  have hnever := WatchPhase.opened_of_shows hsh
  have hop : watch.opened = watch.subscriptions.length := by
    unfold AccountWatch.opened
    split
    · rename_i collected hp
      exact absurd hp (hnever collected)
    · rfl
  have hlt := lt_of_getElem? hi
  have hpl : p < self.watch.addresses.length := Nat.lt_of_lt_of_le hlt h.inv.subscriptions
  obtain ⟨address, haddr⟩ : ∃ address, self.watch.addresses[p]? = some address :=
    ⟨_, getElem?_eq_getElem hpl⟩
  obtain ⟨start, n, hsr, hn, -, -⟩ := h.shows_started hb haddr
  -- the image shows the next version
  have hi' : watch.subscriptions[p]? = some index := hsubs ▸ hi
  have haddr' : watch.addresses[p]? = some address := by rw [haddrs, haddr]
  have hsent := heard_sent hinv hsd' hsn hi' (by rw [hop, hsubs]; exact hlt)
  have hacc : acc =
      (versions address (start + ((self.watch.heard index).length + 1))).account :=
    taken_version { self with watch } hsent hhd htl hsr haddr'
  have hnum : Watched.number { self with watch } p =
      start + ((self.watch.heard index).length + 1) := by
    rw [number_eq { self with watch } hi']
    simp only [hhd, length_append, hsr, getD_some]
    exact if_neg (Nat.succ_ne_zero _)
  -- and the other ones stay
  have hsty : ∀ other, other ≠ p →
      Watched.number { self with watch } other = self.number other := by
    intro other hne
    refine self.number_same hsubs fun found hf => hos found ?_
    rintro rfl
    exact hne ((getElem?_inj (lt_of_getElem? hf)
      (h.inv.owns hsd).nodup).mp (hf.trans hi.symm))
  have himages : watch.accounts = images reading versions watch.addresses
      (Watched.row { self with watch }) := by
    have hlen : (images reading versions watch.addresses
        (Watched.row { self with watch })).length = watch.addresses.length := by
      rw [images, length_zipWith, row_length]
      exact Nat.min_self _
    refine ext_getElem? fun other => ?_
    by_cases hbd : other < watch.addresses.length
    · obtain ⟨found, ho⟩ : ∃ found, watch.addresses[other]? = some found :=
        ⟨_, getElem?_eq_getElem hbd⟩
      rw [images_getElem? ho (row_getElem? { self with watch } ho), haccs]
      by_cases hsm : p = other
      · subst hsm
        cases haddr'.symm.trans ho
        rw [getElem?_set_self (h.inv.accounts ▸ hpl), hnum, hacc]
      · rw [getElem?_set_ne hsm, hsty other (Ne.symm hsm), (h.shows hb).accounts]
        rw [haddrs] at ho
        exact images_getElem? ho (self.row_getElem? ho)
    · rw [getElem?_eq_none (hinv.accounts ▸ Nat.not_lt.mp hbd),
        getElem?_eq_none (hlen ▸ Nat.not_lt.mp hbd)]
  have hnx : Steady versions → Calm versions self → Forward versions self.watch.addresses self.row
      (Watched.row { self with watch }) := by
    intro hsteady hcm other found m k hf hm hk
    rw [self.row_getElem? hf] at hm
    rw [row_getElem? { self with watch } (haddrs ▸ hf)] at hk
    cases hm
    cases hk
    by_cases hsm : other = p
    · subst hsm
      cases haddr.symm.trans hf
      rw [hnum]
      exact h.newer hsteady hcm hb hi haddr hsr
    · rw [hsty other hsm]
  cases watch
  subst haddrs
  refine ⟨hinv, ⟨hsn.ids, hsn.acked, hsn.told⟩, h.starts, h.numbers,
    fun _ => h.reads hsd, ?_, ?_, ?_, fun _ => ⟨(h.shows hb).complete, himages, getLast?_concat⟩,
    ?_, ?_⟩
  · intro collected hsubg
    exact absurd hsubg (hnever collected)
  · intro rest read hrdg
    rw [hrdg] at hsh
    cases hsh
  · intro hnone
    cases hnone.symm.trans hsh
  · rw [hps, map_append, map_singleton, ← himages, ← h.passed]
  · intro hsteady hcm
    have hordered := h.forward hsteady hcm
    have hst := hnx hsteady hcm
    refine pairwise_append.mpr ⟨hordered, pairwise_singleton _ _, ?_⟩
    intro earlier hearlier later hlat
    rw [mem_singleton.mp hlat]
    obtain ⟨before, hshown⟩ := getLast?_eq_some_iff.mp (h.shows hb).last
    rw [hshown] at hordered hearlier
    rcases mem_concat.mp hearlier with hold | rfl
    · have hla := (pairwise_append.mp hordered).2.2 earlier hold _ (mem_singleton_self _)
      exact hla.trans hst
    · exact hst

variable {ready : List (Option α) → Option ρ}

theorem Honest.client (h : Honest reading versions self)
    (hanss : self.Answers reading versions event)
    (hst : self.watch.step reading ready event = some watch)
    (hsn : Sends reading versions { self.hear event with watch }) :
    Honest reading versions { self.hear event with
      watch
      shown := if watch.passed.length = self.watch.passed.length then self.shown
        else self.shown ++ [Watched.row { self.hear event with watch }] } := by
  obtain ⟨hinv, hstepped⟩ := h.inv.step hst
  have hmore : ∀ images, watch.passed = self.watch.passed ++ [images] →
      watch.passed.length ≠ self.watch.passed.length := by
    intro images hps
    rw [hps, length_append]
    exact Nat.succ_ne_self _
  cases hstepped with
  | stays hkp hp haccs hps hev =>
    rw [if_pos (congrArg List.length hps)]
    rw [hear_other hev] at hsn ⊢
    exact h.stays hinv hsn hkp hp haccs hps
  | subscribes index collected hb haddrs hsubs hnew hhd hp hps
      hev =>
    rw [if_pos (congrArg List.length hps)]
    rw [hear_other hev] at hsn ⊢
    refine h.opens hinv hsn haddrs hb (hp.trans hb) ?_ hps
    obtain ⟨-, hem⟩ := h.fresh (by rw [hb]; rfl) (by rw [hb]; rfl)
    intro other hm
    rw [hsubs] at hm
    rcases mem_concat.mp hm with hold | rfl
    · exact (hhd other hold).trans (hem other hold)
    · exact hnew
  | collects collected hkp hb hp hps hev =>
    rw [if_pos (congrArg List.length hps)]
    rw [hear_other hev] at hsn ⊢
    refine h.opens hinv hsn hkp.addresses hb hp ?_ hps
    obtain ⟨-, hem⟩ := h.fresh (by rw [hb]; rfl) (by rw [hb]; rfl)
    intro other hm
    rw [hkp.subscriptions] at hm
    exact (hkp.heard other hm).trans (hem other hm)
  | reads rest read hkp hfet hp hps =>
    rw [if_pos (congrArg List.length hps)]
    exact h.fetches hinv hsn hanss hkp hfet hp hps
  | seeds read hkp hfet hp haccs hps =>
    rw [if_neg (hmore read hps)]
    exact h.seeds hinv hsn hanss hkp hfet hp haccs hps
  | takes p index pl acc hb haddrs hsubs hi htl hhd hos
      hp haccs hps hev =>
    rw [if_neg (hmore _ hps)]
    rw [hear_other hev] at hsn ⊢
    exact h.takes hinv hsn hb haddrs hsubs hi htl hhd hos hp
      haccs hps
  | fails failure haddrs hsubs hb hp hps hev =>
    rw [if_pos (congrArg List.length hps)]
    exact h.fails hinv hsn haddrs hb hp hps hev

theorem Honest.step [DecidableEq π] (h : Honest reading versions self) {event : WatchedEvent π α}
    (hst : self.step reading versions ready event = some after) :
    Honest reading versions after := by
  cases event with
  | change address =>
    cases hst
    refine h.change fun other => ?_
    by_cases ho : other = address
    · rw [ho, Function.update_self]
      exact Nat.le_succ _
    · rw [Function.update_of_ne ho]
  | acknowledge p =>
    obtain ⟨⟨-, hn⟩, hst⟩ := of_guard hst
    obtain ⟨address, haddr, hst⟩ := bind_eq_some_iff.mp hst
    cases hst
    exact h.acknowledge haddr hn
  | look =>
    obtain ⟨⟨hchk, -⟩, hst⟩ := of_guard hst
    cases hst
    exact h.look hchk
  | client event =>
    obtain ⟨hanss, hst⟩ := of_guard hst
    obtain ⟨watch, hwatch, hst⟩ := bind_eq_some_iff.mp hst
    obtain ⟨hsn, hst⟩ := of_guard hst
    cases hst
    exact h.client hanss hwatch hsn

theorem Reachable.honest [DecidableEq π] (h : Reachable reading versions ready self) :
    Honest reading versions self := by
  obtain ⟨cs, addresses, now, hcons, hids, hrch⟩ := h
  exact Machine.Reachable.induction hrch (honest_start hcons hids addresses now)
    fun _ _ _ hhonest hst => hhonest.step hst

/-! ### The images -/

/-- **The images are the latest.** Once everything that was sent is consumed, the images that
`ready` was last called with are those of the accounts as they are. -/
theorem images_latest [DecidableEq π] (h : Reachable reading versions ready self)
    (hshows : self.watch.phase.shows = true)
    (hconsumed : ∀ (place : ℕ) index, self.watch.subscriptions[place]? = some index →
      (self.watch.heard index).length = (self.sent versions place).length) :
    ∃ last, self.watch.passed.getLast? = some last ∧
      ∀ (place : ℕ) address, self.watch.addresses[place]? = some address →
        last[place]? = some (reading.image (versions address (self.now address)).account) := by
  have hhonest := h.honest
  refine ⟨_, hhonest.inv.passed hshows, ?_⟩
  intro place address haddress
  rw [(hhonest.shows hshows).accounts, images_getElem? haddress (self.row_getElem? haddress)]
  have hall := hhonest.inv.all (WatchPhase.opened_of_shows hshows)
    (WatchPhase.sound_of_shows hshows)
  have hindex := getElem?_eq_getElem
    (hall ▸ (lt_of_getElem? haddress) : place < self.watch.subscriptions.length)
  obtain ⟨start, n, hstart, hn, hstartLe, hnLe⟩ := hhonest.shows_started hshows haddress
  have hcount := hconsumed place _ hindex
  simp only [sent, hstart, haddress, length_map, length_range] at hcount
  have hnumber : self.number place = self.now address := by
    rw [number_eq self hindex, hcount, hstart, getD_eq_getElem?_getD, hn, getD_some,
      getD_some]
    split <;> omega
  rw [hnumber]

/-- **The images do not go back**, if between the acknowledgment of its subscription and the
snapshot no account changes in two slots. -/
theorem images_forward [DecidableEq π] (h : Reachable reading versions ready self)
    (hsteady : Steady versions) (hcalm : Calm versions self) :
    self.watch.passed = self.shown.map (images reading versions self.watch.addresses) ∧
      self.shown.Pairwise (Forward versions self.watch.addresses) :=
  ⟨h.honest.passed, h.honest.forward hsteady hcalm⟩

end

end

/-! ### One account -/

def sampleReading : AccountReading String String String String where
  codec := Connection.twoIds
  decode _ event := some event
  params address := address
  account event := some event
  closed := "closed"

/-- An account that changes in every slot, and is closed in the third. -/
def sampleVersions (_ : String) (n : ℕ) : Version String :=
  ⟨n, ["new", "one", "two"].getD n "closed"⟩

theorem sampleVersions_steady : Steady sampleVersions := fun _ _ _ => id

def sampleReady (_ : List (Option String)) : Option Unit := none

def frame (event : Event) : WatchedEvent String String := .client (.others (.connection event))

/-- The account is subscribed to, and changes `before` times until the snapshot. -/
def sampleWatch (before : ℕ) (events : List (WatchedEvent String String)) :
    Watched String String String String Unit :=
  Machine.goOn (step sampleReading sampleVersions sampleReady) (start .init ["account"] fun _ => 0)
    ([.client .subscribe, frame (.locked 0), frame (.sent 0 true), .acknowledge 0,
      frame (Connection.sampleReply 1 "7"), frame (.acknowledged 0), .client .collect,
      .client .subscribed] ++ List.replicate before (.change "account") ++ [.look,
      .client (.answered (some [sampleReading.image (sampleVersions "account" before).account]))] ++
      events)

theorem sampleWatch_reachable (before : ℕ) (evs : List (WatchedEvent String String)) :
    Reachable sampleReading sampleVersions sampleReady (sampleWatch before evs) :=
  ⟨.init, ["account"], fun _ => 0, .refl _, nodup_nil, Machine.reachable_goOn _ _⟩

def closedAccount : Watched String String String String Unit :=
  sampleWatch 2 [.change "account", frame (Connection.sampleNotification 7 "one"),
    frame (Connection.sampleNotification 7 "two"), .client (.poll false false),
    frame (Connection.sampleNotification 7 "closed"), .client (.poll false false),
    .client (.poll false false)]

theorem images_latest_closed :
    closedAccount.watch.passed = [[some "two"], [some "one"], [some "two"], [none]] ∧
      ∃ last, closedAccount.watch.passed.getLast? = some last ∧
        ∀ (place : ℕ) address, closedAccount.watch.addresses[place]? = some address →
          last[place]? = some (sampleReading.image
            (sampleVersions address (closedAccount.now address)).account) := by
  refine ⟨by decide +kernel, images_latest (sampleWatch_reachable 2 _) (by decide +kernel) ?_⟩
  intro place index hindex
  have hsubscriptions : closedAccount.watch.subscriptions = [0] := by decide +kernel
  cases place with
  | zero =>
    cases hindex
    decide +kernel
  | succ place => cases hindex

/-- The account is read in its first version, and changes once more. -/
def calmAccount : Watched String String String String Unit :=
  sampleWatch 1 [.change "account", frame (Connection.sampleNotification 7 "one"),
    .client (.poll false false), frame (Connection.sampleNotification 7 "two"),
    .client (.poll false false), .client (.poll false false)]

theorem images_forward_calm :
    calmAccount.watch.passed = [[some "one"], [some "one"], [some "two"]] ∧
      calmAccount.shown.Pairwise (Forward sampleVersions calmAccount.watch.addresses) := by
  have hreads : calmAccount.reads = [1] := by decide +kernel
  have hcalm : Calm sampleVersions calmAccount := by
    intro place address start n _ _ hn k hlt _
    cases place with
    | zero =>
      cases hn
      exact Nat.zero_lt_of_lt hlt
    | succ place => cases hn
  exact ⟨by decide +kernel,
    (images_forward (sampleWatch_reachable 1 _) sampleVersions_steady hcalm).2⟩

/-- **The image goes back.** Both changes were notified before the snapshot, which shows the second
one, and the first of them is applied to it. -/
theorem image_goes_back :
    let self := sampleWatch 2
      [frame (Connection.sampleNotification 7 "one"), .client (.poll false false)]
    Reachable sampleReading sampleVersions sampleReady self ∧ Steady sampleVersions ∧
      self.watch.passed = [[some "two"], [some "one"]] ∧ self.shown = [[2], [1]] ∧
      ¬ self.shown.Pairwise (Forward sampleVersions self.watch.addresses) := by
  refine ⟨sampleWatch_reachable 2 _, sampleVersions_steady, by decide +kernel, by decide +kernel,
    ?_⟩
  have hshown : (sampleWatch 2 [frame (Connection.sampleNotification 7 "one"),
      .client (.poll false false)]).shown = [[2], [1]] := by decide +kernel
  have haddresses : (sampleWatch 2 [frame (Connection.sampleNotification 7 "one"),
      .client (.poll false false)]).watch.addresses = ["account"] := by decide +kernel
  rw [hshown, pairwise_pair]
  intro hforward
  exact absurd (hforward 0 "account" 2 1 rfl rfl rfl) (by decide)

end Watched

end Events

end Redsuite
