import Redsuite.EventsCleanup

/-!
# Acknowledgments

A subscription that its caller holds was acknowledged.
-/

namespace Redsuite

open List

namespace Events

namespace Connection

variable {ν : Type} {codec : Codec ν} {self after : Connection ν} {ev : Event}

/-- The server's acknowledgment of the subscription was read. -/
def Acked (connection : Connection ν) (task : Task) : Prop :=
  ∃ subscription, .acked task.name subscription ∈ connection.log

/-- Its request is outstanding, or it was acknowledged, or the connection has ended. -/
def Asked (connection : Connection ν) (task : Task) : Prop :=
  connection.router.error.isSome = true ∨
    connection.router.requests.lookup task.request = some (.subscribe task.name) ∨
    connection.Acked task

/-- What an opening call can count on, by where it stands. -/
def Awaits (connection : Connection ν) (task : Task) : Prop :=
  match task.phase with
  | .locking | .sending | .acking => connection.Asked task
  | .held => connection.Acked task
  | .unlocking id _ => id < connection.nextId ∧ ∀ other ∈ connection.tasks, other.request ≠ id
  | _ => True

/-- Every call can count on it, and the ids of requests are below the next one. -/
structure Asking (connection : Connection ν) : Prop where
  numbered : ∀ task ∈ connection.tasks, task.request < connection.nextId
  awaits : ∀ task ∈ connection.tasks, connection.Awaits task

theorem asking_init : Asking (init : Connection ν) :=
  ⟨forall_mem_nil _, forall_mem_nil _⟩

/-- What a call needs of a step of others: its request is left alone. -/
structure Leaves (before after : Connection ν) (task : Task) : Prop where
  error : before.router.error.isSome = true → after.router.error.isSome = true
  log : ∀ entry ∈ before.log, entry ∈ after.log
  asked : before.router.requests.lookup task.request = some (.subscribe task.name) →
    after.Asked task

variable {task : Task} {index : ℕ} {phase : Phase}

theorem Leaves.same (herr : after.router.error = self.router.error) (hlog : after.log = self.log)
    (hreqs : after.router.requests = self.router.requests) : Leaves self after task where
  error := fun h => herr ▸ h
  log := fun _ h => hlog ▸ h
  asked := fun h => .inr (.inl (hreqs ▸ h))

theorem Acked.leaves (h : self.Acked task) (hlv : Leaves self after task) :
    after.Acked task := by
  obtain ⟨sub, hacked⟩ := h
  exact ⟨sub, hlv.log _ hacked⟩

theorem Asked.leaves (h : self.Asked task) (hlv : Leaves self after task) :
    after.Asked task := by
  rcases h with herr | hask | hacked
  · exact .inl (hlv.error herr)
  · exact hlv.asked hask
  · exact .inr (.inr (hacked.leaves hlv))

theorem Awaits.leaves (h : self.Awaits task) (hlv : Leaves self after task)
    (hnx : self.nextId ≤ after.nextId)
    (hreqs : ∀ other ∈ after.tasks, other.request = self.nextId ∨
      ∃ old ∈ self.tasks, old.request = other.request) : after.Awaits task := by
  rw [Awaits] at h ⊢
  split at h
  · exact h.leaves hlv
  · exact h.leaves hlv
  · exact h.leaves hlv
  · exact h.leaves hlv
  · refine ⟨Nat.lt_of_lt_of_le h.1 hnx, fun other ho hsm => ?_⟩
    rcases hreqs other ho with hnew | ⟨old, hold, hreq⟩
    · omega
    · exact h.2 old hold (hreq.trans hsm)
  · trivial

theorem request_set {tasks : List Task} {other : Task} (ht : tasks[index]? = some task)
    (ho : other ∈ tasks.set index { task with phase }) :
    ∃ old ∈ tasks, old.request = other.request := by
  rcases mem_or_eq_of_mem_set ho with hold | rfl
  · exact ⟨other, hold, rfl⟩
  · exact ⟨task, mem_of_getElem? ht, rfl⟩

theorem Asking.moved (h : Asking self) (hinv : Inv self) (ht : self.tasks[index]? = some task)
    (hts : after.tasks = self.tasks.set index { task with phase })
    (hnx : self.nextId ≤ after.nextId)
    (hlv : ∀ other ∈ self.tasks, other.key ≠ task.key → Leaves self after other)
    (hmv : after.Awaits { task with phase }) : Asking after := by
  have hreqs : ∀ other ∈ after.tasks, ∃ old ∈ self.tasks, old.request = other.request := by
    intro other ho
    rw [hts] at ho
    exact request_set ht ho
  refine ⟨fun other ho => ?_, fun other ho => ?_⟩
  · obtain ⟨old, hold, hreq⟩ := hreqs other ho
    exact hreq ▸ Nat.lt_of_lt_of_le (h.numbered old hold) hnx
  · rw [hts] at ho
    obtain ⟨i, hi⟩ := mem_iff_getElem?.mp ho
    rcases of_getElem?_set hi with ⟨-, rfl⟩ | ⟨hne, hi⟩
    · exact hmv
    · have hm := mem_of_getElem? hi
      refine (h.awaits other hm).leaves (hlv other hm ?_) hnx
        fun other ho => .inr (hreqs other ho)
      rw [hinv.keys i other hi, hinv.keys index task ht]
      omega

theorem Asking.moves (h : Asking self) (hinv : Inv self) (ht : self.tasks[index]? = some task)
    (hts : after.tasks = self.tasks.set index { task with phase })
    (hnx : after.nextId = self.nextId) (herr : after.router.error = self.router.error)
    (hlog : after.log = self.log) (hreqs : after.router.requests = self.router.requests)
    (hmv : after.Awaits { task with phase }) : Asking after :=
  h.moved hinv ht hts (Nat.le_of_eq hnx.symm)
    (fun _ _ _ => .same herr hlog hreqs) hmv

theorem Asking.stays (h : Asking self) (hts : after.tasks = self.tasks)
    (hnx : after.nextId = self.nextId) (hlv : ∀ task ∈ self.tasks, Leaves self after task) :
    Asking after := by
  refine ⟨?_, ?_⟩
  · rw [hts, hnx]
    exact h.numbered
  · rw [hts]
    intro task ht
    refine (h.awaits task ht).leaves (hlv task ht) (Nat.le_of_eq hnx.symm)
      fun other ho => .inr ?_
    rw [hts] at ho
    exact ⟨other, ho, rfl⟩

theorem notification_requests (codec : Codec ν) (router : Router ν) (params : Notification) :
    (router.dispatchNotification codec params).requests = router.requests ∧
      (router.dispatchNotification codec params).error = router.error := by
  cases hrt : router.subscriptions.lookup params.subscription with
  | none =>
    rw [Router.dispatchNotification_none hrt]
    exact ⟨rfl, rfl⟩
  | some key =>
    rw [Router.dispatchNotification_some hrt]
    exact ⟨rfl, rfl⟩

/-- **A frame**: the reply to a request is its acknowledgment, or ends the connection. -/
theorem read_leaves (codec : Codec ν) (self : Connection ν) (env : Option Envelope)
    (task : Task) : Leaves self (self.read codec env) task := by
  rw [Connection.read]
  rcases parse env with reason | _ | ⟨id, r⟩ | ⟨method, params⟩ | _
  · exact ⟨fun _ => rfl, fun _ h => h, fun _ => .inl rfl⟩
  · exact .same rfl rfl rfl
  · have hother : task.request ≠ id →
        (self.router.answered id).requests.lookup task.request =
          self.router.requests.lookup task.request := by
      intro hne
      change (self.router.requests.erase id).lookup _ = _
      rw [Table.lookup_erase_iff, if_neg hne]
    dsimp only
    rw [Router.dispatch_reply]
    have hreplied := self.router.dispatchReply_replied codec.id id r
    generalize self.router.dispatchReply codec.id id r = outcome at hreplied ⊢
    cases hreplied with
    | @acknowledged key text subscription hreq hr hid =>
      refine ⟨fun h => h, fun _ => mem_append_left _, fun h => .inr ?_⟩
      by_cases heq : task.request = id
      · rw [heq, hreq] at h
        cases h
        refine .inr ⟨subscription, mem_append_right _ ?_⟩
        simp only [hr, noted, hreq, hid]
        exact mem_singleton_self _
      · exact .inl ((hother heq).trans h)
    | refused => exact ⟨fun _ => rfl, fun _ => mem_append_left _, fun _ => .inl rfl⟩
    | settled hnot =>
      refine ⟨fun h => h, fun _ => mem_append_left _, fun h => .inr (.inl ?_)⟩
      exact (hother fun heq => hnot task.name (heq ▸ h)).trans h
  · obtain ⟨hreqs, herr⟩ := notification_requests codec self.router params
    refine ⟨fun h => ?_, fun _ => mem_append_left _, fun h => .inr (.inl ?_)⟩
    · exact (congrArg Option.isSome herr).trans h
    · exact (congrArg (AList.lookup task.request) hreqs).trans h
  · exact ⟨fun h => h, fun _ => mem_append_left _, fun h => .inr (.inl h)⟩

theorem Asking.change (h : Asking self) (hinv : Inv self)
    (hch : Change codec self ev after) : Asking after := by
  cases hch with
  | subscribed typed topic params =>
    refine ⟨fun task ht => ?_, fun task ht => ?_⟩
    · rcases mem_concat.mp ht with hold | rfl
      · exact Nat.lt_succ_of_lt (h.numbered task hold)
      · exact Nat.lt_succ_self self.nextId
    · rcases mem_concat.mp ht with hold | rfl
      · refine (h.awaits task hold).leaves ⟨fun h => h, fun _ h => h, fun hask => .inr (.inl ?_)⟩
          (Nat.le_succ self.nextId) fun other ho => ?_
        · change (self.router.requests.insert self.nextId _).lookup _ = _
          have hlt := h.numbered task hold
          rw [Table.lookup_insert_iff, if_neg (by omega), hask]
        · rcases mem_concat.mp ho with ho | rfl
          · exact .inr ⟨other, ho, rfl⟩
          · exact .inl rfl
      · refine .inr (.inl ?_)
        change (self.router.requests.insert self.nextId _).lookup self.nextId = _
        rw [Table.lookup_insert_iff, if_pos rfl]
        rfl
  | locked ht hp hfree =>
    rename_i index task
    have haws := h.awaits task (mem_of_getElem? ht)
    rw [Awaits, hp] at haws
    exact h.moves hinv ht rfl rfl rfl rfl rfl haws
  | unlocked ht hp hfree =>
    rename_i index task id sub
    have haws := h.awaits task (mem_of_getElem? ht)
    rw [Awaits, hp] at haws
    refine h.moved hinv ht rfl le_rfl (fun other ho _ => ?_) trivial
    refine ⟨fun h => h, fun _ h => h, fun hask => .inr (.inl ?_)⟩
    change (self.router.requests.insert id _).lookup _ = _
    rw [Table.lookup_insert_iff, if_neg (haws.2 other ho), hask]
  | sent ht hp =>
    rename_i index task
    have haws := h.awaits task (mem_of_getElem? ht)
    rw [Awaits, hp] at haws
    refine h.moves hinv ht rfl rfl rfl rfl rfl ?_
    cases task.typed with
    | true => exact haws
    | false => trivial
  | unsent ht hp lastSent => exact h.moves hinv ht rfl rfl rfl rfl rfl trivial
  | gaveUp ht hp =>
    rw [Connection.giveUp]
    split
    · exact h.moves hinv ht rfl rfl rfl rfl rfl trivial
    · exact h.moves hinv ht rfl rfl rfl rfl rfl trivial
  | acknowledged ht hp hopen hpd =>
    rename_i index task
    have haws := h.awaits task (mem_of_getElem? ht)
    rw [Awaits, hp] at haws
    refine h.moves hinv ht rfl rfl rfl rfl rfl ?_
    rcases haws with herr | hask | hacked
    · rw [hopen] at herr
      cases herr
    · exact absurd hask (Subscription.Router.pending_eq_false.mp hpd task.request)
    · exact hacked
  | released route ht hp hopen hpd hfinds =>
    cases route with
    | none => exact h.moves hinv ht rfl rfl rfl rfl rfl trivial
    | some sub =>
      refine h.moved hinv ht rfl (Nat.le_succ self.nextId) (fun _ _ _ => .same rfl rfl rfl) ?_
      refine ⟨Nat.lt_succ_self self.nextId, fun other ho => ?_⟩
      obtain ⟨old, hold, hreq⟩ := request_set ht ho
      have hlt := h.numbered old hold
      omega
  | abandoned ht hp hfail =>
    refine h.moved hinv ht rfl le_rfl (fun other ho hk => ?_) trivial
    refine ⟨fun h => h, fun _ h => h, fun hask => .inr (.inl ?_)⟩
    refine (Table.lookup_retain _).mpr ⟨hask, decide_eq_true fun hsm => hk ?_⟩
    exact congrArg Prod.fst (Subscription.Request.subscribe.inj hsm)
  | popped ht hp hpop =>
    exact h.stays rfl rfl fun _ _ => ⟨fun h => h, fun _ => mem_append_left _,
      fun h => .inr (.inl h)⟩
  | read env hopen =>
    obtain ⟨hts, -, hnx⟩ := read_frame codec self env
    exact h.stays hts hnx fun task _ => read_leaves codec self env task
  | closed reason =>
    exact h.stays rfl rfl fun _ _ => ⟨fun _ => rfl, fun _ h => h, fun _ => .inl rfl⟩

theorem Run.asking (h : Run codec init self) : Asking self := by
  induction h with
  | refl => exact asking_init
  | step hrun hst ih => exact ih.change (hrun.inv inv_init) (step_change hst)

theorem Run.acked (h : Run codec init self) (hm : task ∈ self.tasks)
    (hheld : task.phase = .held) : self.Acked task := by
  have haws := h.asking.awaits task hm
  rwa [Awaits, hheld] at haws

end Connection

end Events

end Redsuite
