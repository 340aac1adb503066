import Redsuite.Events
import Redsuite.Machine
import Mathlib.Data.List.Infix

/-!
# Raw connections

A model of `RawWs` of `core/src/transport/wsraw.rs`.
-/

namespace Redsuite

open List

open Events

/-- `RawNotification`: the method, the server's id of the subscription, and the payload. -/
structure RawNotification (ν : Type) where
  method : String
  subscription : ℕ
  payload : ν

/-- Why a request fails. -/
inductive RequestError : Type where
  | send (reason : String)
  | noReply
  | receive (reason : CloseReason)
  /-- the server reported an error that is no reply -/
  | parse (reason : CloseReason)
  | result

/-- A request that has returned, not in the source: its id, how it reads results, and its result. -/
structure Returned (ρ : Type) where
  id : ℕ
  decode : String → Option ρ
  result : Except RequestError (Except ServerError ρ)

/-- Where the call is. -/
inductive RawCall (ρ : Type) : Type where
  | idle
  /-- `try_request` sends -/
  | sending (id : ℕ) (decode : String → Option ρ)
  /-- `try_request` reads -/
  | requesting (id : ℕ) (decode : String → Option ρ)
  /-- `next_notification` reads -/
  | listening

def RawCall.request {ρ : Type} : RawCall ρ → Option ℕ
  | .sending id _ => some id
  | .requesting id _ => some id
  | _ => none

/-- `RawWs`, its socket and its caller. -/
structure RawWs (ν ρ : Type) where
  nextId : ℕ
  queue : List (RawNotification ν)
  malformed : ℕ
  inbox : List (Option Envelope)
  call : RawCall ρ
  /-- all texts that arrived, not in the source -/
  arrived : List (Option Envelope)
  /-- the ids of all requests, not in the source -/
  requested : List ℕ
  /-- the requests that have returned, not in the source -/
  results : List (Returned ρ)
  /-- the notifications that were returned, not in the source -/
  returned : List (RawNotification ν)

namespace RawWs

/-- What can happen next. -/
inductive Event (ρ : Type) : Type where
  | arrive (text : Option Envelope)
  | request (decode : String → Option ρ)
  | sent (result : Except String Unit)
  | next
  | receive
  | timeout
  | fail (reason : CloseReason)

variable {ν ρ : Type}

def connect : RawWs ν ρ :=
  { nextId := 1
    queue := []
    malformed := 0
    inbox := []
    call := .idle
    arrived := []
    requested := []
    results := []
    returned := [] }

def respond (self : RawWs ν ρ) (id : ℕ) (decode : String → Option ρ)
    (result : Except RequestError (Except ServerError ρ)) : RawWs ν ρ :=
  { self with call := .idle, results := self.results ++ [⟨id, decode, result⟩] }

def readReply (decode : String → Option ρ) :
    Except ServerError String → Except RequestError (Except ServerError ρ)
  | .ok result =>
    match decode result with
    | some value => .ok (.ok value)
    | none => .error .result
  | .error error => .ok (.error error)

variable (json : String → Option ν)

def decodeNotification (self : RawWs ν ρ) (method : String) (params : Notification) :
    RawWs ν ρ × Option (RawNotification ν) :=
  match json params.result with
  | some payload => (self, some ⟨method, params.subscription, payload⟩)
  | none => ({ self with malformed := self.malformed + 1 }, none)

/-- One round of the loop of `try_request`. -/
def tryRequest (self : RawWs ν ρ) (id : ℕ) (decode : String → Option ρ) (text : Option Envelope) :
    RawWs ν ρ :=
  match parse text with
  | .error reason => self.respond id decode (.error (.parse reason))
  | .ok (some (.reply reply result)) =>
    if reply = id then self.respond id decode (readReply decode result) else self
  | .ok none => self
  | .ok (some (.notification method params)) =>
    match self.decodeNotification json method params with
    | (self, some notification) => { self with queue := self.queue ++ [notification] }
    | (self, none) => self
  | .ok (some .malformed) => { self with malformed := self.malformed + 1 }

/-- One round of the loop of `next_notification`. -/
def nextNotification (self : RawWs ν ρ) (text : Option Envelope) : RawWs ν ρ :=
  match parse text with
  | .error _ => { self with call := .idle }
  | .ok (some (.notification method params)) =>
    match self.decodeNotification json method params with
    | (self, some notification) =>
      { self with call := .idle, returned := self.returned ++ [notification] }
    | (self, none) => self
  | .ok (some (.reply _ (.error _))) => { self with call := .idle }
  | .ok (some (.reply _ (.ok _))) => self
  | .ok none => self
  | .ok (some .malformed) => { self with malformed := self.malformed + 1 }

def step (self : RawWs ν ρ) : Event ρ → Option (RawWs ν ρ)
  | .arrive text =>
    some { self with inbox := self.inbox ++ [text], arrived := self.arrived ++ [text] }
  | .request decode =>
    match self.call with
    | .idle =>
      some { self with
        nextId := self.nextId + 1
        call := .sending self.nextId decode
        requested := self.requested ++ [self.nextId] }
    | _ => none
  | .sent result =>
    match self.call with
    | .sending id decode =>
      match result with
      | .ok () => some { self with call := .requesting id decode }
      | .error reason => some (self.respond id decode (.error (.send reason)))
    | _ => none
  | .next =>
    match self.call with
    | .idle =>
      match self.queue with
      | notification :: queue =>
        some { self with queue := queue, returned := self.returned ++ [notification] }
      | [] => some { self with call := .listening }
    | _ => none
  | .receive =>
    match self.inbox with
    | [] => none
    | text :: inbox =>
      match self.call with
      | .requesting id decode => some ({ self with inbox := inbox }.tryRequest json id decode text)
      | .listening => some ({ self with inbox := inbox }.nextNotification json text)
      | _ => none
  | .timeout =>
    match self.call with
    | .requesting id decode => some (self.respond id decode (.error .noReply))
    | .listening => some { self with call := .idle }
    | _ => none
  | .fail reason =>
    match self.call with
    | .requesting id decode => some (self.respond id decode (.error (.receive reason)))
    | .listening => some { self with call := .idle }
    | _ => none

/-! ### Order -/

def wellFormed (text : Option Envelope) : Option (RawNotification ν) :=
  match parse text with
  | .ok (some (.notification method params)) =>
    (json params.result).map fun payload => ⟨method, params.subscription, payload⟩
  | _ => none

def notifications (texts : List (Option Envelope)) : List (RawNotification ν) :=
  texts.filterMap (wellFormed json)

theorem notifications_cons (text : Option Envelope) (texts : List (Option Envelope)) :
    notifications json (text :: texts) = (wellFormed json text).toList ++
      notifications json texts := by
  rw [notifications, filterMap_cons]
  cases wellFormed json text <;> rfl

/-- Nothing was read or sent. -/
structure Untouched (before after : RawWs ν ρ) : Prop where
  inbox : after.inbox = before.inbox
  arrived : after.arrived = before.arrived
  nextId : after.nextId = before.nextId
  requested : after.requested = before.requested

/-- The text is a reply with this id, read so. -/
def Replied (text : Option Envelope) (id : ℕ) (decode : String → Option ρ)
    (value : Except ServerError ρ) : Prop :=
  ∃ result, parse text = .ok (some (.reply id result)) ∧ readReply decode result = .ok value

/-- **A request reads a text**: a notification is queued, and the request goes on or returns. -/
theorem tryRequest_spec (self : RawWs ν ρ) (id : ℕ) (decode : String → Option ρ)
    (text : Option Envelope) :
    Untouched self (self.tryRequest json id decode text) ∧
      (self.tryRequest json id decode text).returned = self.returned ∧
      (self.tryRequest json id decode text).queue =
        self.queue ++ (wellFormed json text).toList ∧
      ((self.tryRequest json id decode text).call = self.call ∧
          (self.tryRequest json id decode text).results = self.results ∨
        ∃ r, (self.tryRequest json id decode text).call = .idle ∧
          (self.tryRequest json id decode text).results =
            self.results ++ [⟨id, decode, r⟩] ∧
          ∀ v, r = .ok v → Replied text id decode v) := by
  rw [tryRequest, wellFormed]
  match hpa : parse text with
  | .error reason =>
    refine ⟨⟨rfl, rfl, rfl, rfl⟩, rfl, (append_nil _).symm, .inr ⟨_, rfl, rfl, ?_⟩⟩
    intro v hval
    cases hval
  | .ok (some (.reply reply r)) =>
    dsimp only
    split_ifs with hrep
    · subst hrep
      exact ⟨⟨rfl, rfl, rfl, rfl⟩, rfl, (append_nil _).symm,
        .inr ⟨_, rfl, rfl, fun v hval => ⟨r, hpa, hval⟩⟩⟩
    · exact ⟨⟨rfl, rfl, rfl, rfl⟩, rfl, (append_nil _).symm, .inl ⟨rfl, rfl⟩⟩
  | .ok none => exact ⟨⟨rfl, rfl, rfl, rfl⟩, rfl, (append_nil _).symm, .inl ⟨rfl, rfl⟩⟩
  | .ok (some (.notification method params)) =>
    dsimp only
    rw [decodeNotification]
    cases json params.result with
    | some pl => exact ⟨⟨rfl, rfl, rfl, rfl⟩, rfl, rfl, .inl ⟨rfl, rfl⟩⟩
    | none => exact ⟨⟨rfl, rfl, rfl, rfl⟩, rfl, (append_nil _).symm, .inl ⟨rfl, rfl⟩⟩
  | .ok (some .malformed) =>
    exact ⟨⟨rfl, rfl, rfl, rfl⟩, rfl, (append_nil _).symm, .inl ⟨rfl, rfl⟩⟩

/-- **`next_notification` reads a text**: it returns that notification, or goes on or fails. -/
theorem nextNotification_spec (self : RawWs ν ρ) (text : Option Envelope) :
    Untouched self (self.nextNotification json text) ∧
      (self.nextNotification json text).queue = self.queue ∧
      (self.nextNotification json text).results = self.results ∧
      (self.nextNotification json text).returned =
        self.returned ++ (wellFormed json text).toList ∧
      ((self.nextNotification json text).call = self.call ∨
        (self.nextNotification json text).call = .idle) := by
  rw [nextNotification, wellFormed]
  match parse text with
  | .error reason => exact ⟨⟨rfl, rfl, rfl, rfl⟩, rfl, rfl, (append_nil _).symm, .inr rfl⟩
  | .ok (some (.reply _ (.error _))) =>
    exact ⟨⟨rfl, rfl, rfl, rfl⟩, rfl, rfl, (append_nil _).symm, .inr rfl⟩
  | .ok (some (.reply _ (.ok _))) =>
    exact ⟨⟨rfl, rfl, rfl, rfl⟩, rfl, rfl, (append_nil _).symm, .inl rfl⟩
  | .ok none => exact ⟨⟨rfl, rfl, rfl, rfl⟩, rfl, rfl, (append_nil _).symm, .inl rfl⟩
  | .ok (some (.notification method params)) =>
    dsimp only
    rw [decodeNotification]
    cases json params.result with
    | some pl => exact ⟨⟨rfl, rfl, rfl, rfl⟩, rfl, rfl, rfl, .inr rfl⟩
    | none => exact ⟨⟨rfl, rfl, rfl, rfl⟩, rfl, rfl, (append_nil _).symm, .inl rfl⟩
  | .ok (some .malformed) =>
    exact ⟨⟨rfl, rfl, rfl, rfl⟩, rfl, rfl, (append_nil _).symm, .inl rfl⟩

/-- What a step can do to the notifications and the requests of a connection. -/
inductive Moves (before after : RawWs ν ρ) : Prop where
  | arrives (text : Option Envelope)
    (h : after = { before with
      inbox := before.inbox ++ [text], arrived := before.arrived ++ [text] })
  | calls (call : RawCall ρ) (hrequest : call.request = before.call.request)
    (hlistening : call = .listening → before.queue = []) (h : after = { before with call := call })
  | requests (decode : String → Option ρ) (hidle : before.call = .idle)
    (h : after = { before with
      nextId := before.nextId + 1
      call := .sending before.nextId decode
      requested := before.requested ++ [before.nextId] })
  | fails (id : ℕ) (decode : String → Option ρ) (error : RequestError)
    (hrequest : before.call.request = some id) (h : after = before.respond id decode (.error error))
  | pops (notification : RawNotification ν) (queue : List (RawNotification ν))
    (hidle : before.call = .idle) (hqueue : before.queue = notification :: queue)
    (h : after = { before with
      queue := queue, returned := before.returned ++ [notification] })
  | asks (id : ℕ) (decode : String → Option ρ) (text : Option Envelope)
    (inbox : List (Option Envelope)) (hcall : before.call = .requesting id decode)
    (hinbox : before.inbox = text :: inbox)
    (h : after = { before with inbox := inbox }.tryRequest json id decode text)
  /-- `next_notification` reads a text -/
  | listens (text : Option Envelope) (inbox : List (Option Envelope))
    (hcall : before.call = .listening) (hinbox : before.inbox = text :: inbox)
    (h : after = { before with inbox := inbox }.nextNotification json text)

section

variable {json} {self raw : RawWs ν ρ}

theorem step_moves {ev : Event ρ} (h : self.step json ev = some raw) : Moves json self raw := by
  cases ev with
  | arrive text =>
    cases h
    exact .arrives text rfl
  | request decode =>
    rw [step] at h
    split at h <;> cases h
    rename_i hc
    exact .requests decode hc rfl
  | sent r =>
    rw [step] at h
    split at h
    · rename_i id decode hc
      split at h <;> cases h
      · exact .calls (.requesting id decode) (by rw [hc]; rfl) (fun h => by cases h) rfl
      · exact .fails id decode _ (by rw [hc]; rfl) rfl
    · cases h
  | next =>
    rw [step] at h
    split at h
    · rename_i hc
      split at h <;> cases h
      · rename_i notification queue hqu
        exact .pops notification queue hc hqu rfl
      · rename_i hqu
        exact .calls .listening (by rw [hc]; rfl) (fun _ => hqu) rfl
    · cases h
  | receive =>
    rw [step] at h
    split at h
    · cases h
    · rename_i text inbox hinbox
      split at h <;> cases h
      · rename_i id decode hc
        exact .asks id decode text inbox hc hinbox rfl
      · rename_i hc
        exact .listens text inbox hc hinbox rfl
  | timeout | fail reason =>
    rw [step] at h
    split at h <;> cases h
    · rename_i id decode hc
      exact .fails id decode _ (by rw [hc]; rfl) rfl
    · rename_i hc
      exact .calls .idle (by rw [hc]; rfl) (fun h => by cases h) rfl

end

/-- The notifications returned, in the queue and in the socket are all that arrived, in order; and
`next_notification` reads only if the queue is empty. -/
structure InOrder (raw : RawWs ν ρ) : Prop where
  order : raw.returned ++ raw.queue ++ notifications json raw.inbox =
    notifications json raw.arrived
  direct : raw.call = .listening → raw.queue = []

/-- Requests have ids of their own, each returns once, and with the reply to its id. -/
structure Replies (raw : RawWs ν ρ) : Prop where
  inbox : raw.inbox <:+ raw.arrived
  once : raw.requested = raw.results.map Returned.id ++ raw.call.request.toList
  ids : raw.requested.Pairwise (· < ·)
  fresh : ∀ id ∈ raw.requested, id < raw.nextId
  own : ∀ returned ∈ raw.results, ∀ value, returned.result = .ok value →
    ∃ text ∈ raw.arrived, Replied text returned.id returned.decode value

section

variable {json} {self raw : RawWs ν ρ}

theorem InOrder.moves (h : InOrder json self) (hmvs : Moves json self raw) : InOrder json raw := by
  obtain ⟨horder, hdirect⟩ := h
  cases hmvs with
  | arrives text hraw =>
    subst hraw
    refine ⟨?_, hdirect⟩
    rw [notifications, notifications, filterMap_append, filterMap_append,
      ← append_assoc]
    exact congrArg (· ++ _) horder
  | calls call _ hlis hraw =>
    subst hraw
    exact ⟨horder, hlis⟩
  | requests decode _ hraw | fails id decode error _ hraw =>
    subst hraw
    exact ⟨horder, fun hc => by cases hc⟩
  | pops notification queue hidle hqu hraw =>
    subst hraw
    refine ⟨?_, fun hc => ?_⟩
    · rw [hqu] at horder
      rw [← horder]
      rw [append_assoc self.returned, singleton_append]
    · rw [show self.call = .listening from hc] at hidle
      cases hidle
  | asks id decode text inbox hc hinbox hraw =>
    subst hraw
    obtain ⟨hfr, hret, hqu, hcs⟩ :=
      tryRequest_spec json { self with inbox := inbox } id decode text
    refine ⟨?_, fun hlis => ?_⟩
    · rw [hfr.inbox, hfr.arrived, hret, hqu]
      rw [← horder, hinbox, notifications_cons, append_assoc, append_assoc,
        append_assoc]
    · rcases hcs with ⟨hkpt, _⟩ | ⟨_, hidle, _⟩
      · rw [hkpt, show RawWs.call { self with inbox := inbox } = _ from hc] at hlis
        cases hlis
      · rw [hidle] at hlis
        cases hlis
  | listens text inbox hc hinbox hraw =>
    subst hraw
    obtain ⟨hfr, hqu, _, hret, _⟩ :=
      nextNotification_spec json { self with inbox := inbox } text
    have hem : self.queue = [] := hdirect hc
    refine ⟨?_, fun _ => hqu.trans hem⟩
    rw [hfr.inbox, hfr.arrived, hqu, hret]
    rw [← horder, hinbox, hem, notifications_cons, append_nil, append_nil,
      append_assoc]

theorem Replies.kept (h : Replies self) (hinbox : raw.inbox <:+ raw.arrived)
    (harrived : ∀ text ∈ self.arrived, text ∈ raw.arrived) (hnx : raw.nextId = self.nextId)
    (hreqd : raw.requested = self.requested) (hress : raw.results = self.results)
    (hreq : raw.call.request = self.call.request) : Replies raw where
  inbox := hinbox
  once := by rw [hreqd, hress, hreq, h.once]
  ids := by
    rw [hreqd]
    exact h.ids
  fresh := by
    rw [hreqd, hnx]
    exact h.fresh
  own := by
    rw [hress]
    intro returned hret v hval
    obtain ⟨text, htext, hreplied⟩ := h.own returned hret v hval
    exact ⟨text, harrived text htext, hreplied⟩

theorem Replies.respond (h : Replies self) {id : ℕ} {decode : String → Option ρ}
    {r : Except RequestError (Except ServerError ρ)} (hinbox : raw.inbox <:+ self.arrived)
    (hreq : self.call.request = some id) (harrived : raw.arrived = self.arrived)
    (hnx : raw.nextId = self.nextId) (hreqd : raw.requested = self.requested)
    (hc : raw.call = .idle) (hress : raw.results = self.results ++ [⟨id, decode, r⟩])
    (hres : ∀ v, r = .ok v → ∃ text ∈ self.arrived, Replied text id decode v) :
    Replies raw where
  inbox := by rwa [harrived]
  once := by
    rw [hreqd, hress, hc, h.once, hreq, map_append]
    exact (append_nil _).symm
  ids := by
    rw [hreqd]
    exact h.ids
  fresh := by
    rw [hreqd, hnx]
    exact h.fresh
  own := by
    rw [hress, harrived]
    intro returned hret v hval
    rcases mem_concat.mp hret with hold | rfl
    · exact h.own returned hold v hval
    · exact hres v hval

theorem Replies.moves (h : Replies self) (hmvs : Moves json self raw) : Replies raw := by
  cases hmvs with
  | arrives text hraw =>
    subst hraw
    refine h.kept ?_ (fun _ => mem_append_left _) rfl rfl rfl rfl
    obtain ⟨read, hrd⟩ := h.inbox
    exact ⟨read, by rw [← hrd, append_assoc]⟩
  | calls call hreq _ hraw =>
    subst hraw
    exact h.kept h.inbox (fun _ htext => htext) rfl rfl rfl hreq
  | requests decode hidle hraw =>
    subst hraw
    refine ⟨h.inbox, ?_, ?_, ?_, h.own⟩
    · rw [h.once, hidle]
      exact congrArg (· ++ [self.nextId]) (append_nil _)
    · refine pairwise_append.mpr ⟨h.ids, pairwise_singleton _ _, fun id hid other ho => ?_⟩
      rw [mem_singleton.mp ho]
      exact h.fresh id hid
    · intro id hid
      rcases mem_concat.mp hid with hold | rfl
      · exact Nat.lt_succ_of_lt (h.fresh id hold)
      · exact Nat.lt_succ_self self.nextId
  | fails id decode error hreq hraw =>
    subst hraw
    exact h.respond h.inbox hreq rfl rfl rfl rfl rfl fun v hval => by cases hval
  | pops notification queue _ _ hraw =>
    subst hraw
    exact h.kept h.inbox (fun _ htext => htext) rfl rfl rfl rfl
  | asks id decode text inbox hc hinbox hraw =>
    subst hraw
    obtain ⟨hfr, _, _, hcs⟩ := tryRequest_spec json { self with inbox := inbox } id decode text
    have hsuf : inbox <:+ self.arrived := (suffix_cons text inbox).trans (hinbox ▸ h.inbox)
    have htext : text ∈ self.arrived := h.inbox.subset (by rw [hinbox]; exact mem_cons_self)
    rcases hcs with ⟨hkpt, hress⟩ | ⟨r, hidle, hress, hreplied⟩
    · refine h.kept ?_ (fun other ho => ?_) hfr.nextId hfr.requested hress
        (congrArg RawCall.request hkpt)
      · rw [hfr.inbox, hfr.arrived]
        exact hsuf
      · rw [hfr.arrived]
        exact ho
    · refine h.respond ?_ (by rw [hc]; rfl) hfr.arrived hfr.nextId hfr.requested hidle
        hress fun v hval => ⟨text, htext, hreplied v hval⟩
      rw [hfr.inbox]
      exact hsuf
  | listens text inbox hc hinbox hraw =>
    subst hraw
    obtain ⟨hfr, _, hress, _, hcs⟩ :=
      nextNotification_spec json { self with inbox := inbox } text
    have hsuf : inbox <:+ self.arrived := (suffix_cons text inbox).trans (hinbox ▸ h.inbox)
    refine h.kept ?_ (fun other ho => ?_) hfr.nextId hfr.requested hress ?_
    · rw [hfr.inbox, hfr.arrived]
      exact hsuf
    · rw [hfr.arrived]
      exact ho
    · rcases hcs with hkpt | hidle
      · exact congrArg RawCall.request hkpt
      · rw [hidle, hc]
        rfl

/-! ### Nothing stays behind -/

/-- Calls of `next_notification` bring out all that arrived. -/
def Drains (json : String → Option ν) (raw : RawWs ν ρ) : Prop :=
  ∃ events : List (Event ρ), (∀ event ∈ events, event = .next ∨ event = .receive) ∧
    ∃ drained, Machine.run (step json) raw events = some drained ∧
      drained.returned = notifications json raw.arrived

theorem Drains.head {ev : Event ρ} (hev : ev = .next ∨ ev = .receive)
    (hst : self.step json ev = some raw) (harrived : raw.arrived = self.arrived)
    (h : Drains json raw) : Drains json self := by
  obtain ⟨evs, hevs, drained, hrun, hret⟩ := h
  refine ⟨ev :: evs, forall_mem_cons.mpr ⟨hev, hevs⟩, drained, ?_, ?_⟩
  · rw [Machine.run, hst]
    exact hrun
  · rw [hret, harrived]

theorem InOrder.drained (h : InOrder json self) (hqu : self.queue = [])
    (hinbox : self.inbox = []) : Drains json self := by
  refine ⟨[], forall_mem_nil _, self, rfl, ?_⟩
  rw [← h.order, hqu, hinbox, notifications, filterMap_nil, append_nil, append_nil]

theorem InOrder.step {ev : Event ρ} (h : InOrder json self)
    (hst : self.step json ev = some raw) : InOrder json raw :=
  h.moves (step_moves hst)

variable (json) in
theorem step_receive {text : Option Envelope} {inbox : List (Option Envelope)}
    (hc : self.call = .listening) (hinbox : self.inbox = text :: inbox) :
    self.step json .receive = some ({ self with inbox := inbox }.nextNotification json text) := by
  rw [RawWs.step, hinbox]
  rw [hc]

variable (json) in
theorem step_listen (hc : self.call = .idle) (hqu : self.queue = []) :
    self.step json .next = some { self with call := .listening } := by
  rw [RawWs.step, hc]
  rw [hqu]

variable (json) in
theorem step_pop {notification : RawNotification ν} {queue : List (RawNotification ν)}
    (hc : self.call = .idle) (hqu : self.queue = notification :: queue) :
    self.step json .next = some { self with
      queue := queue, returned := self.returned ++ [notification] } := by
  rw [RawWs.step, hc]
  rw [hqu]

theorem InOrder.drains_inbox (h : InOrder json self)
    (hc : self.call = .idle ∨ self.call = .listening) (hqu : self.queue = []) :
    Drains json self := by
  induction hinbox : self.inbox generalizing self with
  | nil => exact h.drained hqu hinbox
  | cons text inbox ih =>
    have hlistens : ∀ raw : RawWs ν ρ, InOrder json raw → raw.call = .listening →
        raw.inbox = text :: inbox → Drains json raw := by
      intro raw horder hlis htexts
      have hst := step_receive json hlis htexts
      obtain ⟨hfr, hkpt, _, _, hcs⟩ :=
        nextNotification_spec json { raw with inbox := inbox } text
      refine .head (.inr rfl) hst hfr.arrived (ih (horder.step hst) ?_ ?_ hfr.inbox)
      · rcases hcs with hgoes | hidle
        · exact .inr (hgoes.trans hlis)
        · exact .inl hidle
      · exact hkpt.trans (horder.direct hlis)
    rcases hc with hidle | hlis
    · have hst := step_listen json hidle hqu
      exact .head (.inl rfl) hst rfl (hlistens _ (h.step hst) rfl hinbox)
    · exact hlistens self h hlis hinbox

theorem InOrder.drains (h : InOrder json self) (hc : self.call = .idle) : Drains json self := by
  induction hqu : self.queue generalizing self with
  | nil => exact h.drains_inbox (.inl hc) hqu
  | cons notification queue ih =>
    have hst := step_pop json hc hqu
    exact .head (.inl rfl) hst rfl (ih (h.step hst) hc rfl)

end

/-- **Raw connections**: however frames, requests and calls of `next_notification` are interleaved,
the notifications that were returned, queued and are still in the socket are those that arrived, in
order; a caller that asks for them gets all of them; and every request has an id of its own and
returns no reply but the one with that id. -/
theorem notifications_in_order (raw : RawWs ν ρ)
    (h : Machine.Reachable (step json) connect raw) :
    raw.returned ++ raw.queue ++ notifications json raw.inbox = notifications json raw.arrived ∧
      (raw.call = .idle → ∃ events : List (Event ρ),
        (∀ event ∈ events, event = .next ∨ event = .receive) ∧
          ∃ drained, Machine.run (step json) raw events = some drained ∧
            drained.returned = notifications json raw.arrived) ∧
      raw.requested.Nodup ∧
      raw.requested = raw.results.map Returned.id ++ raw.call.request.toList ∧
      ∀ returned ∈ raw.results, ∀ value, returned.result = .ok value → ∃ text ∈ raw.arrived,
        ∃ result, parse text = .ok (some (.reply returned.id result)) ∧
          readReply returned.decode result = .ok value := by
  have horder : InOrder json raw :=
    h.induction ⟨rfl, fun hcall => by cases hcall⟩ fun _ _ _ horder hstep => horder.step hstep
  have hreplies : Replies raw := by
    refine h.induction ⟨suffix_rfl, rfl, List.Pairwise.nil, forall_mem_nil _,
      forall_mem_nil _⟩ fun _ _ _ hreplies hstep => hreplies.moves (step_moves hstep)
  exact ⟨horder.order, horder.drains, hreplies.ids.imp Nat.ne_of_lt, hreplies.once, hreplies.own⟩

def noticed (result : String) : Option Envelope :=
  some ⟨some "slotNotification", none, none, none, some ⟨7, result⟩⟩

/-- A request during which a notification arrives, after one that timed out and whose reply comes
late; then another notification is read. -/
def interleaved : List (Event String) :=
  [.request some, .sent (.ok ()), .timeout, .request some, .sent (.ok ()),
    .arrive (some ⟨none, some 1, some "late", none, none⟩), .arrive (noticed "a"),
    .arrive (some ⟨none, some 2, some "own", none, none⟩), .arrive (noticed "b"),
    .receive, .receive, .receive, .next, .next, .receive]

theorem notifications_in_order_interleaved :
    ∃ raw, Machine.run (step some) connect interleaved = some raw ∧
      raw.returned = [⟨"slotNotification", 7, "a"⟩, ⟨"slotNotification", 7, "b"⟩] ∧
      raw.requested = [1, 2] ∧ raw.requested.Nodup :=
  ⟨_, rfl, rfl, rfl, (notifications_in_order some _ ⟨interleaved, rfl⟩).2.2.1⟩

end RawWs

end Redsuite
