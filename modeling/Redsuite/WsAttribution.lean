import Redsuite.WsRelay
import Redsuite.Machine
import Redsuite.Latest

/-!
# What replies and notifications are attributed to

The relay asks the gate about an upstream frame with the operation it is attributed to.
-/

namespace Redsuite

open List Option

/-- What attribution depends on. -/
inductive WsEntry : Type where
  | request (parsed : Json) (decision : Decision)
  | upstream (parsed : Json)

namespace WsRelay

variable {γ τ : Type}

def entries (codec : Codec) (self : WsRelay γ τ) : WsEvent γ τ → List WsEntry
  | .clientFrame (.text text) (.decided decision) => [.request (codec.parseOrNull text) decision]
  | .decided decision _ =>
    match self.phase with
    | .deciding _ _ parsed _ _ => [.request parsed decision]
    | _ => []
  | .upstreamFrame (.text text) _ => (codec.parse text).toList.map .upstream
  | _ => []

def record (codec : Codec) (state : WsRelay γ τ × List WsEntry) (event : WsEvent γ τ) :
    Option (WsRelay γ τ × List WsEntry) :=
  (state.1.step codec event).map fun after => (after.relay, state.2 ++ state.1.entries codec event)

/-- The run has this history. -/
def Recorded (codec : Codec) (relay : WsRelay γ τ) (history : List WsEntry) : Prop :=
  Machine.Reachable (record codec) (init, []) (relay, history)

end WsRelay

namespace Codec

variable (codec : Codec)

/-- The subscription a request would end. -/
def unsubscribes (parsed : Json) : Option UInt64 :=
  if WsRelay.endsWith (codec.request .ws parsed).method "Unsubscribe" then
    ((parsed.field "params").item 0).asU64
  else none

/-- The id a frame replies to. -/
def replyId (parsed : Json) : Option String :=
  match subscription parsed with
  | some _ => none
  | none => codec.id parsed

def releases (id : String) : WsEntry → Bool
  | .request parsed .release => codec.id parsed = some id
  | _ => false

def answers (id : String) : WsEntry → Bool
  | .upstream parsed => codec.replyId parsed = some id
  | _ => false

/-- The place of the latest request with an id that was released and not answered. -/
def unanswered (id : String) (history : List WsEntry) : Option ℕ :=
  Latest.latest (fun _ => codec.releases id) (fun _ => codec.answers id) history

def attributed (history : List WsEntry) (parsed : Json) : Option ℕ :=
  (codec.replyId parsed).bind fun id => codec.unanswered id history

def requestAt (history : List WsEntry) (place : ℕ) : Option (Operation × Option UInt64) :=
  match history[place]? with
  | some (.request parsed _) => some (codec.request .ws parsed, codec.unsubscribes parsed)
  | _ => none

def answered (history : List WsEntry) (parsed : Json) : Option (Operation × Option UInt64) :=
  (codec.attributed history parsed).bind (codec.requestAt history)

def acknowledges (number : UInt64) (history : List WsEntry) : WsEntry → Bool
  | .upstream parsed =>
    match codec.answered history parsed with
    | some (request, _) =>
      WsRelay.endsWith request.method "Subscribe" && (parsed.field "result").asU64 = some number
    | none => false
  | _ => false

def ends (number : UInt64) (history : List WsEntry) : WsEntry → Bool
  | .upstream parsed =>
    match codec.answered history parsed with
    | some (_, unsubscribe) =>
      unsubscribe = some number && (parsed.field "result").asBool = some true
    | none => false
  | _ => false

/-- The place of the latest acknowledgement of a subscription that was not ended since. -/
def subscribed (number : UInt64) (history : List WsEntry) : Option ℕ :=
  Latest.latest (codec.acknowledges number) (codec.ends number) history

def subscriber (history : List WsEntry) (place : ℕ) : Option Operation :=
  match history[place]? with
  | some (.upstream parsed) => (codec.answered (history.take place) parsed).map Prod.fst
  | _ => none

end Codec

/-! ### The history, entry by entry -/

section Append

variable {codec : Codec} {history : List WsEntry} {e : WsEntry} {parsed : Json}
  {decision : Decision} {id : String} {number : UInt64}

/-- The request a reply would answer. -/
def Codec.expected (codec : Codec) (history : List WsEntry) (id : String) :
    Option (Operation × Option UInt64) :=
  (codec.unanswered id history).bind (codec.requestAt history)

/-- The request a notification is of. -/
def Codec.base (codec : Codec) (history : List WsEntry) (number : UInt64) : Option Operation :=
  (codec.subscribed number history).bind (codec.subscriber history)

theorem answered_eq (codec : Codec) (history : List WsEntry) (parsed : Json) :
    codec.answered history parsed = (codec.replyId parsed).bind (codec.expected history) := by
  rw [Codec.answered, Codec.attributed, bind_assoc]
  rfl

theorem expected_append : codec.expected (history ++ [e]) id =
    if codec.releases id e then codec.requestAt (history ++ [e]) history.length
    else if codec.answers id e then none
    else codec.expected history id := by
  refine Latest.bind_append codec.requestAt fun place hpl => ?_
  rw [Codec.requestAt, getElem?_append_left hpl]
  rfl

theorem base_append : codec.base (history ++ [e]) number =
    if codec.acknowledges number history e then
      codec.subscriber (history ++ [e]) history.length
    else if codec.ends number history e then none
    else codec.base history number := by
  refine Latest.bind_append codec.subscriber fun place hpl => ?_
  rw [Codec.subscriber, getElem?_append_left hpl, take_append_of_le_length hpl.le]
  rfl

theorem expected_request : codec.expected (history ++ [.request parsed decision]) id =
    if decision = .release ∧ codec.id parsed = some id then
      some (codec.request .ws parsed, codec.unsubscribes parsed)
    else codec.expected history id := by
  rw [expected_append, Codec.requestAt, getElem?_concat_length]
  cases decision with
  | release =>
    simp only [Codec.releases, decide_eq_true_eq, true_and]
    rfl
  | reject msg => rfl
  | discard => rfl

theorem expected_upstream : codec.expected (history ++ [.upstream parsed]) id =
    if codec.replyId parsed = some id then none else codec.expected history id := by
  rw [expected_append]
  simp only [Codec.answers, decide_eq_true_eq]
  rfl

theorem base_request : codec.base (history ++ [.request parsed decision]) number =
    codec.base history number := by
  rw [base_append]
  rfl

theorem base_upstream : codec.base (history ++ [.upstream parsed]) number =
    match codec.answered history parsed with
    | some (request, unsubscribe) =>
      if WsRelay.endsWith request.method "Subscribe" ∧
        (parsed.field "result").asU64 = some number then
        some request
      else if unsubscribe = some number ∧ (parsed.field "result").asBool = some true then none
      else codec.base history number
    | none => codec.base history number := by
  rw [base_append, Codec.subscriber, getElem?_concat_length, Codec.acknowledges, Codec.ends]
  dsimp only
  rw [take_left' rfl]
  cases codec.answered history parsed with
  | none => rfl
  | some answered =>
    simp only [Bool.and_eq_true, decide_eq_true_eq]
    rfl

end Append

namespace WsRelay

variable {γ τ : Type} {codec : Codec} {history : List WsEntry}

/-- The tables say what the history implies. -/
structure Attributes (codec : Codec) (relay : WsRelay γ τ) (history : List WsEntry) : Prop where
  pending : ∀ id, relay.pending.lookup id = codec.expected history id
  subscriptions : ∀ number, relay.subscriptions.lookup number = codec.base history number
  deciding : ∀ index text parsed request gate,
    relay.phase = .deciding index text parsed request gate → request = codec.request .ws parsed

/-- Nothing that attribution depends on changed. -/
structure Keeps (before after : WsRelay γ τ) : Prop where
  pending : after.pending = before.pending
  subscriptions : after.subscriptions = before.subscriptions
  deciding : ∀ index text parsed request gate,
    after.phase = .deciding index text parsed request gate →
      before.phase = .deciding index text parsed request gate

theorem Attributes.keeps {self after : WsRelay γ τ} (h : Attributes codec self history)
    (hkp : Keeps self after) : Attributes codec after history where
  pending := hkp.pending ▸ h.pending
  subscriptions := hkp.subscriptions ▸ h.subscriptions
  deciding index text parsed request gate hp :=
    h.deciding index text parsed request gate (hkp.deciding index text parsed request gate hp)

section Keeps

variable {self : WsRelay γ τ}

theorem Keeps.refl (self : WsRelay γ τ) : Keeps self self := ⟨rfl, rfl, fun _ _ _ _ _ h => h⟩

theorem Keeps.trans {first second third : WsRelay γ τ} (h : Keeps first second)
    (hr : Keeps second third) : Keeps first third :=
  ⟨hr.pending.trans h.pending, hr.subscriptions.trans h.subscriptions,
    fun i text parsed request gate hp =>
      h.deciding i text parsed request gate
        (hr.deciding i text parsed request gate hp)⟩

theorem keeps_leave (self : WsRelay γ τ) : Keeps self self.leave := ⟨rfl, rfl, nofun⟩

theorem keeps_resume (self : WsRelay γ τ) (ok : Bool) : Keeps self (self.resume ok) := by
  cases ok with
  | true => exact ⟨rfl, rfl, nofun⟩
  | false => exact keeps_leave self

theorem keeps_push (self : WsRelay γ τ) (e : Outbound τ) : Keeps self (self.push e).1 := by
  rw [push]
  split
  · exact ⟨rfl, rfl, fun _ _ _ _ _ h => h⟩
  · exact .refl self

theorem keeps_pushOrLeave (self : WsRelay γ τ) (e : Outbound τ) :
    Keeps self (self.pushOrLeave e).relay :=
  (keeps_push self e).trans (keeps_resume _ _)

theorem keeps_deliver (self : WsRelay γ τ) (decision : Decision) (i : ℕ) (text : String)
    (parsed : Json) (holding : Option τ) :
    Keeps self (self.deliver codec decision i text parsed holding).1 := by
  rw [deliver]
  split
  · exact .refl self
  · exact keeps_push self _

theorem keeps_of_phase {after : WsRelay γ τ} (hpd : after.pending = self.pending)
    (hsubs : after.subscriptions = self.subscriptions)
    (hp : after.phase = self.phase) : Keeps self after :=
  ⟨hpd, hsubs, fun _ _ _ _ _ h => hp ▸ h⟩

theorem keeps_delivered (self : WsRelay γ τ) (task : Delivery γ) (rest : List (Delivery γ))
    (decision : Decision) (holding : τ) :
    Keeps self (self.delivered codec task rest decision holding).relay := by
  have hlog : Keeps self { self with
      deliveries := rest, log := self.log.reply task.index decision false } :=
    keeps_of_phase rfl rfl rfl
  exact (hlog.trans (keeps_deliver _ _ _ _ _ _)).trans (keeps_of_phase rfl rfl rfl)

theorem keeps_abort (self : WsRelay γ τ) : Keeps self self.abort.relay := by
  rw [abort]
  cases self.phase <;> exact ⟨rfl, rfl, nofun⟩

end Keeps

/-! ### One step -/

section Step

variable {self : WsRelay γ τ}

theorem remember_eq (self : WsRelay γ τ) (parsed : Json) :
    self.remember codec parsed (codec.request .ws parsed) = { self with
      pending := (codec.id parsed).elim self.pending fun id =>
        self.pending.insert id (codec.request .ws parsed, codec.unsubscribes parsed) } := by
  rw [remember]
  cases codec.id parsed <;> rfl

/-- **A request that is decided is remembered if it is released.** -/
theorem Attributes.applyRequest (h : Attributes codec self history) (i : ℕ) (text : String)
    (parsed : Json) (decision : Decision) (hold : Option τ) :
    Attributes codec (self.applyRequest codec i text parsed (codec.request .ws parsed) decision
      hold).relay (history ++ [.request parsed decision]) := by
  have hsm : decision ≠ .release → Attributes codec self (history ++ [.request parsed decision]) := by
    intro hne
    refine ⟨fun id => ?_, fun number => ?_, h.deciding⟩
    · rw [expected_request, if_neg fun hyes => hne hyes.1]
      exact h.pending id
    · rw [base_request]
      exact h.subscriptions number
  have hlog : Keeps self { self with log := self.log.request i decision } :=
    keeps_of_phase rfl rfl rfl
  cases decision with
  | discard => exact (hsm nofun).keeps (hlog.trans (keeps_leave _))
  | reject msg =>
    exact (hsm nofun).keeps (hlog.trans ((keeps_push _ _).trans (keeps_resume _ _)))
  | release =>
    rw [WsRelay.applyRequest, remember_eq]
    refine ⟨fun id => ?_, fun number => ?_, nofun⟩
    · rw [expected_request]
      cases hid : codec.id parsed with
      | none =>
        exact h.pending id
      | some other =>
        rw [elim_some]
        by_cases heq : other = id
        · subst heq
          rw [if_pos ⟨rfl, rfl⟩, AList.lookup_insert]
        · rw [if_neg fun hyes => heq (some.inj hyes.2), AList.lookup_insert_ne (Ne.symm heq)]
          exact h.pending id
    · rw [base_request]
      exact h.subscriptions number

/-- What a reply answers in the tables, or nothing that is known. -/
def reading (codec : Codec) (self : WsRelay γ τ) (parsed : Json) : Operation × Option UInt64 :=
  ((codec.id parsed).bind fun id => self.pending.lookup id).getD (codec.request .ws .null, none)

def subscribe (request : Operation) (result : Json) (table : AList fun _ : UInt64 => Operation) :
    AList fun _ : UInt64 => Operation :=
  if endsWith request.method "Subscribe" then result.asU64.elim table (table.insert · request)
  else table

def unsubscribe (ended : Option UInt64) (result : Json)
    (table : AList fun _ : UInt64 => Operation) :
    AList fun _ : UInt64 => Operation :=
  if result.asBool = some true then ended.elim table table.erase else table

theorem lookup_subscribe (request : Operation) (r : Json)
    (table : AList fun _ : UInt64 => Operation) (number : UInt64) :
    (subscribe request r table).lookup number =
      if endsWith request.method "Subscribe" ∧ r.asU64 = some number then some request
      else table.lookup number := by
  rw [subscribe]
  by_cases hmet : endsWith request.method "Subscribe" = true
  · rw [if_pos hmet]
    cases hres : r.asU64 with
    | none => simp
    | some other =>
      by_cases heq : other = number
      · subst heq
        simp [hmet]
      · simp [heq, AList.lookup_insert_ne (Ne.symm heq)]
  · rw [if_neg hmet, if_neg fun hyes => hmet hyes.1]

theorem lookup_unsubscribe (ended : Option UInt64) (r : Json)
    (table : AList fun _ : UInt64 => Operation) (number : UInt64) :
    (unsubscribe ended r table).lookup number =
      if ended = some number ∧ r.asBool = some true then none else table.lookup number := by
  rw [unsubscribe]
  by_cases hres : r.asBool = some true
  · rw [if_pos hres]
    cases ended with
    | none => simp
    | some other =>
      by_cases heq : other = number
      · subst heq
        simp [hres]
      · simp [heq, AList.lookup_erase_ne (Ne.symm heq)]
  · rw [if_neg hres, if_neg fun hyes => hres hyes.2]

theorem responseOperation_reply {parsed : Json} (hrep : subscription parsed = none) :
    self.responseOperation codec parsed =
      ({ self with
          pending := (codec.id parsed).elim self.pending self.pending.erase
          subscriptions := unsubscribe (self.reading codec parsed).2 (parsed.field "result")
            (subscribe (self.reading codec parsed).1 (parsed.field "result") self.subscriptions) },
        { (self.reading codec parsed).1 with stage := .response }) := by
  rw [responseOperation, hrep]
  dsimp only
  rw [← reading]
  obtain ⟨request, ended⟩ := self.reading codec parsed
  dsimp only [subscribe, unsubscribe]
  -- whatever the result is, both sides do the same
  generalize (parsed.field "result").asBool = flag
  generalize (parsed.field "result").asU64 = number
  generalize endsWith request.method "Subscribe" = subscribes
  rcases flag with _ | _ | _ <;> cases subscribes <;> cases number <;> cases ended <;>
    cases codec.id parsed <;> rfl

theorem Attributes.reading_eq (h : Attributes codec self history) {parsed : Json}
    (hrep : subscription parsed = none) : self.reading codec parsed =
      (codec.answered history parsed).getD (codec.request .ws .null, none) := by
  have hid : codec.replyId parsed = codec.id parsed := by rw [Codec.replyId, hrep]
  rw [reading, answered_eq, hid]
  simp only [h.pending]

theorem not_subscribes_null (codec : Codec) :
    ¬endsWith (codec.request .ws .null).method "Subscribe" = true := by
  have hmet : (codec.request .ws .null).method = "?" := rfl
  rw [hmet]
  decide

theorem asBool_of_asU64 {v : Json} {number : UInt64} (h : v.asU64 = some number) :
    v.asBool = none := by
  cases v with
  | bool flag => cases h
  | null | number _ | string _ | array _ | object _ => rfl

section

variable (h : Attributes codec self history)

include h

/-- **A frame of the server changes the tables as it does the history.** -/
theorem Attributes.responseOperation (parsed : Json) :
    Attributes codec (self.responseOperation codec parsed).1 (history ++ [.upstream parsed]) := by
  cases hsub : subscription parsed with
  | some number =>
    have hid : codec.replyId parsed = none := by rw [Codec.replyId, hsub]
    have hanswered : codec.answered history parsed = none := by rw [answered_eq, hid, bind_none]
    rw [WsRelay.responseOperation, hsub]
    refine ⟨fun id => ?_, fun number => ?_, h.deciding⟩
    · rw [expected_upstream, hid]
      exact h.pending id
    · rw [base_upstream, hanswered]
      exact h.subscriptions number
  | none =>
    have hid : codec.replyId parsed = codec.id parsed := by rw [Codec.replyId, hsub]
    rw [responseOperation_reply hsub, h.reading_eq hsub]
    refine ⟨fun id => ?_, fun number => ?_, h.deciding⟩
    · rw [expected_upstream, hid]
      cases codec.id parsed with
      | none =>
        exact h.pending id
      | some other =>
        rw [elim_some]
        by_cases heq : other = id
        · subst heq
          rw [if_pos rfl, AList.lookup_erase]
        · rw [if_neg fun hyes => heq (some.inj hyes), AList.lookup_erase_ne (Ne.symm heq)]
          exact h.pending id
    · rw [base_upstream]
      rw [lookup_unsubscribe, lookup_subscribe, h.subscriptions]
      cases codec.answered history parsed with
      | none =>
        rw [if_neg fun hyes => some_ne_none _ hyes.1.symm]
        exact if_neg fun hyes => not_subscribes_null codec hyes.1
      | some answered =>
        dsimp only [getD_some]
        split
        · -- a result that says `true` is no number
          rename_i hends
          rw [if_neg fun hyes => ?_]
          cases (asBool_of_asU64 hyes.2).symm.trans hends.2
        · rfl

theorem Attributes.quiet {ev : WsEvent γ τ} {after : WsRelay γ τ} (hes : self.entries codec ev = [])
    (hkp : Keeps self after) : Attributes codec after (history ++ self.entries codec ev) := by
  rw [hes, append_nil]
  exact h.keeps hkp

theorem Attributes.clientFrame (frame : Message) (ans : Answer γ) : Attributes codec
    (self.clientFrame codec frame ans).relay
    (history ++ self.entries codec (.clientFrame frame ans)) := by
  have hlog : Keeps self { self with log := self.log.readClient frame } :=
    keeps_of_phase rfl rfl rfl
  cases frame with
  | close => exact h.quiet rfl (hlog.trans (keeps_leave _))
  | other bs => exact h.quiet rfl ⟨rfl, rfl, nofun⟩
  | text text =>
    cases ans with
    | decided decision => exact (h.keeps hlog).applyRequest _ _ _ _ _
    | pending gate =>
      have hes : self.entries codec (.clientFrame (.text text) (.pending gate)) = [] := rfl
      rw [hes, append_nil]
      refine ⟨h.pending, h.subscriptions, fun i other parsed request gate hp => ?_⟩
      injection hp with _ _ hpsd hreq _
      rw [← hreq, ← hpsd]

theorem Attributes.upstreamFrame (frame : Message) (ans : Answer γ) : Attributes codec
    (self.upstreamFrame codec frame ans).relay
    (history ++ self.entries codec (.upstreamFrame frame ans)) := by
  have hlog : Keeps self { self with log := self.log.readUpstream frame } :=
    keeps_of_phase rfl rfl rfl
  cases frame with
  | close => exact h.quiet rfl (hlog.trans (keeps_leave _))
  | other bs => exact h.quiet rfl (hlog.trans (keeps_pushOrLeave _ _))
  | text text =>
    rw [entries, WsRelay.upstreamFrame]
    cases codec.parse text with
    | none =>
      rw [toList_none, map_nil, append_nil]
      exact h.keeps (hlog.trans (keeps_pushOrLeave _ _))
    | some parsed =>
      have hrd := (h.keeps hlog).responseOperation parsed
      dsimp only
      generalize (WsRelay.responseOperation codec _ parsed).1 = read at hrd ⊢
      cases ans with
      | decided decision =>
        have hrep : Keeps read
            { read with log := read.log.reply self.log.upstream.length decision true } :=
          keeps_of_phase rfl rfl rfl
        exact hrd.keeps (hrep.trans ((keeps_deliver _ _ _ _ _ _).trans (keeps_resume _ _)))
      | pending gate => exact hrd.keeps (keeps_of_phase rfl rfl rfl)

/-- **Every step keeps the tables and the history together.** -/
theorem Attributes.step {ev : WsEvent γ τ} {after : WsStep γ τ}
    (hst : self.step codec ev = some after) :
    Attributes codec after.relay (history ++ self.entries codec ev) := by
  cases step_change hst with
  | clientFrame frame ans hp => exact h.clientFrame frame ans
  | upstreamFrame frame ans hp => exact h.upstreamFrame frame ans
  | decided decision holding hp =>
    rename_i i text parsed request gate
    rw [h.deciding i text parsed request gate hp, entries, hp]
    exact h.applyRequest i text parsed decision _
  | clientEnd hp | upstreamEnd hp => exact h.quiet rfl (keeps_leave self)
  | serverSent hp =>
    refine h.quiet rfl (Keeps.trans ?_ (keeps_resume _ true))
    exact keeps_of_phase rfl rfl rfl
  | sendFailed hp => exact h.quiet rfl (keeps_resume self false)
  | delivered decision holding hl ht => exact h.quiet rfl (keeps_delivered _ _ _ _ _)
  | joined hp =>
    refine h.quiet rfl (Keeps.trans ?_ (keeps_resume _ _))
    exact keeps_of_phase rfl rfl rfl
  | writerJoined hp hwr =>
    refine h.quiet rfl (Keeps.trans ?_ (keeps_leave _))
    exact keeps_of_phase rfl rfl rfl
  | aborted => exact h.quiet rfl (keeps_abort self)
  | drained hp | closed hp => exact h.quiet rfl ⟨rfl, rfl, nofun⟩
  | _ => exact h.quiet rfl (keeps_of_phase rfl rfl rfl)

end

end Step

/-- **Along a run the tables hold what the history says.** -/
theorem Recorded.attributes {relay : WsRelay γ τ} (h : Recorded codec relay history) :
    Attributes codec relay history := by
  refine Machine.Reachable.induction (P := fun s => Attributes codec s.1 s.2) h ?_ ?_
  · exact ⟨fun _ => rfl, fun _ => rfl, nofun⟩
  · intro s ev next hs hst
    obtain ⟨after, haf, rfl⟩ := map_eq_some_iff.mp hst
    exact hs.step haf

end WsRelay

/-! ### Attribution -/

namespace Codec

variable (codec : Codec) (history : List WsEntry)

/-- A request was released and not answered: no reply with its id was read since. -/
structure Unanswered (id : String) (place : ℕ) (request : Json) : Prop where
  released : history[place]? = some (.request request .release)
  sameId : codec.id request = some id
  since : ∀ later reply, place < later → history[later]? = some (.upstream reply) →
    codec.replyId reply ≠ some id

/-- A reply is attributed to a request: of those with its id that are not answered, the one released
last. -/
def AttributedTo (reply : Json) (place : ℕ) (request : Json) : Prop :=
  ∃ id, codec.replyId reply = some id ∧ codec.Unanswered history id place request ∧
    ∀ other another, codec.Unanswered history id other another → other ≤ place

/-- A subscription was acknowledged with a number, and not ended since. -/
structure Acknowledged (number : UInt64) (place source : ℕ) (request : Json) : Prop where
  acknowledged : ∃ reply, history[place]? = some (.upstream reply) ∧
    codec.AttributedTo (history.take place) reply source request ∧
    (reply.field "result").asU64 = some number
  subscribes : WsRelay.endsWith (codec.request .ws request).method "Subscribe" = true
  /-- no reply to a request to end it was `true` since -/
  since : ∀ later reply other another, place < later → history[later]? = some (.upstream reply) →
    codec.AttributedTo (history.take later) reply other another →
    codec.unsubscribes another = some number → (reply.field "result").asBool ≠ some true

/-- **What a frame of the server is attributed to**: a request, at its place in the history. -/
def Attribution (parsed : Json) (source : ℕ) (request : Json) : Prop :=
  match subscription parsed with
  | none => codec.AttributedTo history parsed source request
  | some number => ∃ place, codec.Acknowledged history number place source request ∧
    ∀ other another request, codec.Acknowledged history number other another request → other ≤ place

end Codec

section Attribution

variable {codec : Codec} {history : List WsEntry} {id : String} {number : UInt64} {place : ℕ}
  {parsed request : Json}

theorem releases_iff {e : WsEntry} : codec.releases id e = true ↔
    ∃ request, e = .request request .release ∧ codec.id request = some id := by
  constructor
  · intro h
    match e with
    | .request request .release => exact ⟨request, rfl, of_decide_eq_true h⟩
  · rintro ⟨request, rfl, hid⟩
    exact decide_eq_true hid

theorem answers_iff {e : WsEntry} : codec.answers id e = true ↔
    ∃ reply, e = .upstream reply ∧ codec.replyId reply = some id := by
  constructor
  · intro h
    match e with
    | .upstream reply => exact ⟨reply, rfl, of_decide_eq_true h⟩
  · rintro ⟨reply, rfl, hid⟩
    exact decide_eq_true hid

theorem open_unanswered :
    Latest.Open (fun _ => codec.releases id) (fun _ => codec.answers id) history place ↔
      ∃ request, codec.Unanswered history id place request := by
  constructor
  · rintro ⟨⟨e, he, hreleases⟩, hsince⟩
    obtain ⟨request, rfl, hid⟩ := releases_iff.mp hreleases
    refine ⟨request, he, hid, fun later reply hlat hrep hsm => ?_⟩
    have hanss := hsince later _ hlat hrep
    cases hanss.symm.trans (answers_iff.mpr ⟨reply, rfl, hsm⟩)
  · rintro ⟨request, hrel, hid, hsince⟩
    refine ⟨⟨_, hrel, releases_iff.mpr ⟨request, rfl, hid⟩⟩, fun later e hlat he => ?_⟩
    refine Bool.eq_false_iff.mpr fun hanss => ?_
    obtain ⟨reply, rfl, hrep⟩ := answers_iff.mp hanss
    exact hsince later reply hlat he hrep

theorem attributedTo_iff : codec.AttributedTo history parsed place request ↔
    codec.attributed history parsed = some place ∧
      history[place]? = some (.request request .release) := by
  rw [Codec.attributed, bind_eq_some_iff]
  constructor
  · rintro ⟨id, hid, hunanswered, hla⟩
    refine ⟨⟨id, hid, Latest.latest_eq_some_iff.mpr ⟨?_, fun other ho => ?_⟩⟩,
      hunanswered.released⟩
    · exact open_unanswered.mpr ⟨request, hunanswered⟩
    · obtain ⟨another, hanother⟩ := open_unanswered.mp ho
      exact hla other another hanother
  · rintro ⟨⟨id, hid, hlatest⟩, hrel⟩
    have hgrt := Latest.latest_eq_some_iff.mp hlatest
    obtain ⟨other, ho⟩ := open_unanswered.mp hgrt.1
    obtain ⟨rfl, -⟩ := WsEntry.request.inj (some.inj (ho.released.symm.trans hrel))
    refine ⟨id, hid, ho, fun place another hanother => ?_⟩
    exact hgrt.2 (open_unanswered.mpr ⟨another, hanother⟩)

theorem answered_eq_some {found : Operation × Option UInt64} :
    codec.answered history parsed = some found ↔ ∃ place request,
      codec.AttributedTo history parsed place request ∧
      found = (codec.request .ws request, codec.unsubscribes request) := by
  rw [Codec.answered, bind_eq_some_iff]
  constructor
  · rintro ⟨place, hpl, hf⟩
    obtain ⟨id, -, hlatest⟩ := bind_eq_some_iff.mp hpl
    obtain ⟨request, hreq⟩ := open_unanswered.mp (Latest.latest_eq_some_iff.mp hlatest).1
    rw [Codec.requestAt, hreq.released] at hf
    exact ⟨place, request, attributedTo_iff.mpr ⟨hpl, hreq.released⟩,
      (some.inj hf).symm⟩
  · rintro ⟨place, request, hattr, rfl⟩
    obtain ⟨hpl, hrel⟩ := attributedTo_iff.mp hattr
    exact ⟨place, hpl, by rw [Codec.requestAt, hrel]⟩

theorem any_answered {ask : Operation × Option UInt64 → Bool} :
    (codec.answered history parsed).any ask = true ↔ ∃ src request,
      codec.AttributedTo history parsed src request ∧
      ask (codec.request .ws request, codec.unsubscribes request) = true := by
  rw [Option.any_eq_true]
  constructor
  · rintro ⟨found, hf, hask⟩
    obtain ⟨src, request, hattr, rfl⟩ := answered_eq_some.mp hf
    exact ⟨src, request, hattr, hask⟩
  · rintro ⟨src, request, hattr, hask⟩
    exact ⟨_, answered_eq_some.mpr ⟨src, request, hattr, rfl⟩, hask⟩

theorem acknowledges_iff : codec.acknowledges number history (.upstream parsed) = true ↔
    ∃ src request, codec.AttributedTo history parsed src request ∧
      WsRelay.endsWith (codec.request .ws request).method "Subscribe" = true ∧
      (parsed.field "result").asU64 = some number := by
  have heq : codec.acknowledges number history (.upstream parsed) =
      (codec.answered history parsed).any fun found =>
        WsRelay.endsWith found.1.method "Subscribe" &&
          (parsed.field "result").asU64 = some number := by
    rw [Codec.acknowledges]
    cases codec.answered history parsed <;> rfl
  simp only [heq, any_answered, Bool.and_eq_true, decide_eq_true_eq]

theorem ends_iff : codec.ends number history (.upstream parsed) = true ↔
    ∃ src request, codec.AttributedTo history parsed src request ∧
      codec.unsubscribes request = some number ∧ (parsed.field "result").asBool = some true := by
  have heq : codec.ends number history (.upstream parsed) =
      (codec.answered history parsed).any fun found =>
        found.2 = some number && (parsed.field "result").asBool = some true := by
    rw [Codec.ends]
    cases codec.answered history parsed <;> rfl
  simp only [heq, any_answered, Bool.and_eq_true, decide_eq_true_eq]

theorem open_acknowledged :
    Latest.Open (codec.acknowledges number) (codec.ends number) history place ↔
      ∃ src request, codec.Acknowledged history number place src request := by
  constructor
  · rintro ⟨⟨e, he, hacks⟩, hsince⟩
    cases e with
    | request parsed decision => cases hacks
    | upstream reply =>
      obtain ⟨src, request, hattr, hmet, hres⟩ := acknowledges_iff.mp hacks
      refine ⟨src, request, ⟨reply, he, hattr, hres⟩, hmet, ?_⟩
      intro later other place another hlat ho hto hend hyes
      have hends := hsince later _ hlat ho
      cases hends.symm.trans (ends_iff.mpr ⟨place, another, hto, hend, hyes⟩)
  · rintro ⟨src, request, ⟨reply, hrep, hattr, hres⟩, hmet, hsince⟩
    have hacks := acknowledges_iff.mpr ⟨src, request, hattr, hmet, hres⟩
    refine ⟨⟨_, hrep, hacks⟩, fun later e hlat he => ?_⟩
    refine Bool.eq_false_iff.mpr fun hends => ?_
    cases e with
    | request parsed decision => cases hends
    | upstream other =>
      obtain ⟨place, another, hto, hend, hyes⟩ := ends_iff.mp hends
      exact hsince later other place another hlat he hto hend hyes

/-- **What a subscription is known for is what its notifications are attributed to.** -/
theorem base_eq_some {op : Operation} : codec.base history number = some op ↔
    ∃ src request, (∃ place, codec.Acknowledged history number place src request ∧
      ∀ other another request,
        codec.Acknowledged history number other another request → other ≤ place) ∧
      op = codec.request .ws request := by
  have hrd : ∀ {place src request}, codec.Acknowledged history number place src request →
      codec.subscriber history place = some (codec.request .ws request) := by
    intro place src request h
    obtain ⟨reply, hrep, hattr, -⟩ := h.acknowledged
    rw [Codec.subscriber, hrep]
    dsimp only
    rw [answered_eq_some.mpr ⟨src, request, hattr, rfl⟩]
    rfl
  rw [Codec.base, bind_eq_some_iff]
  constructor
  · rintro ⟨place, hpl, hop⟩
    have hgrt := Latest.latest_eq_some_iff.mp hpl
    obtain ⟨src, request, hack⟩ := open_acknowledged.mp hgrt.1
    refine ⟨src, request, ⟨place, hack, fun other another request ho => ?_⟩, ?_⟩
    · exact hgrt.2 (open_acknowledged.mpr ⟨another, request, ho⟩)
    · exact some.inj (hop.symm.trans (hrd hack))
  · rintro ⟨src, request, ⟨place, hack, hla⟩, rfl⟩
    refine ⟨place, Latest.latest_eq_some_iff.mpr ⟨?_, fun other ho => ?_⟩, hrd hack⟩
    · exact open_acknowledged.mpr ⟨src, request, hack⟩
    · obtain ⟨another, request, hanother⟩ := open_acknowledged.mp ho
      exact hla other another request hanother

theorem released_of_attribution {src : ℕ} (h : codec.Attribution history parsed src request) :
    history[src]? = some (.request request .release) := by
  rw [Codec.Attribution] at h
  split at h
  · exact (attributedTo_iff.mp h).2
  · obtain ⟨place, hack, -⟩ := h
    obtain ⟨reply, -, hattr, -⟩ := hack.acknowledged
    have hrel := (attributedTo_iff.mp hattr).2
    obtain ⟨hlt, -⟩ := List.getElem?_eq_some_iff.mp hrel
    rw [List.length_take] at hlt
    rwa [List.getElem?_take_of_lt (by omega)] at hrel

/-- The public key in a program notification. -/
def notified (parsed : Json) : List String :=
  if (parsed.field "method").asStr.getD "?" = "programNotification" then
    ((((parsed.field "params").field "result").field "value").field "pubkey").asStr.toList
  else []

theorem notification_eq (codec : Codec) (parsed : Json) (base : Option Operation) :
    codec.notification parsed base = { base.getD (codec.request .ws .null) with
      stage := .notification
      method := (parsed.field "method").asStr.getD "?"
      accounts := (base.getD (codec.request .ws .null)).accounts ++ notified parsed } := by
  rw [Codec.notification, notified]
  split
  · rfl
  · rw [append_nil]

end Attribution

namespace WsRelay

variable {γ τ : Type} {codec : Codec} {history : List WsEntry}

/-- **A frame of the server is gated with the request it is attributed to**, and as an operation
nothing is known of if there is none. What it is attributed to was released. -/
theorem gated_with_attribution {relay : WsRelay γ τ} (hrun : Recorded codec relay history)
    (hphase : relay.phase = .selecting) (text : String) (parsed : Json) (answer : Answer γ)
    (hparse : codec.parse text = some parsed) :
    ∃ operation base, relay.asked codec (.upstreamFrame (.text text) answer) = some operation ∧
      ((∃ source request, codec.Attribution history parsed source request ∧
          base = codec.request .ws request) ∨
        (∀ source request, ¬codec.Attribution history parsed source request) ∧
          base = ⟨.ws, .request, "?", [], []⟩) ∧
      (subscription parsed = none → operation = { base with stage := .response }) ∧
      (subscription parsed ≠ none → operation = { base with
        stage := .notification
        method := (parsed.field "method").asStr.getD "?"
        accounts := base.accounts ++ notified parsed }) ∧
      ∀ source request decision other, history[source]? = some (.request request decision) →
        decision ≠ .release → ¬codec.Attribution history parsed source other := by
  have h := hrun.attributes
  have hasked : relay.asked codec (.upstreamFrame (.text text) answer) =
      some (relay.responseOperation codec parsed).2 := by
    rw [asked, hphase, hparse]
    rfl
  have hreleased : ∀ source request decision other,
      history[source]? = some (.request request decision) →
      decision ≠ .release → ¬codec.Attribution history parsed source other := by
    intro source request decision other hentry hne hattribution
    have heq := hentry.symm.trans (released_of_attribution hattribution)
    exact hne (WsEntry.request.inj (some.inj heq)).2
  cases hsubscription : subscription parsed with
  | none =>
    have hattribution : codec.Attribution history parsed = codec.AttributedTo history parsed := by
      funext source request
      rw [Codec.Attribution, hsubscription]
    rw [responseOperation_reply hsubscription, h.reading_eq hsubscription] at hasked
    refine ⟨_, _, hasked, ?_, fun _ => rfl, fun hne => absurd rfl hne, hreleased⟩
    rw [hattribution]
    cases hanswered : codec.answered history parsed with
    | none =>
      refine .inr ⟨fun source request hto => ?_, rfl⟩
      cases hanswered.symm.trans (answered_eq_some.mpr ⟨source, request, hto, rfl⟩)
    | some found =>
      obtain ⟨source, request, hto, rfl⟩ := answered_eq_some.mp hanswered
      exact .inl ⟨source, request, hto, rfl⟩
  | some number =>
    have hoperation : (relay.responseOperation codec parsed).2 =
        codec.notification parsed (codec.base history number) := by
      rw [WsRelay.responseOperation, hsubscription, ← h.subscriptions]
    rw [hoperation, notification_eq] at hasked
    refine ⟨_, _, hasked, ?_, fun hnone => absurd hnone (some_ne_none number), fun _ => rfl,
      hreleased⟩
    simp only [Codec.Attribution, hsubscription]
    cases hbase : codec.base history number with
    | none =>
      refine .inr ⟨fun source request hto => ?_, rfl⟩
      cases hbase.symm.trans (base_eq_some.mpr ⟨source, request, hto, rfl⟩)
    | some operation =>
      obtain ⟨source, request, hto, rfl⟩ := base_eq_some.mp hbase
      exact .inl ⟨source, request, hto, rfl⟩

def noteCodec : Codec where
  parse text :=
    if text = "subscribe" then some (.object [("id", .number (.unsigned 7)),
      ("method", .string "programSubscribe"), ("params", .array [.string "program"])])
    else if text = "acknowledge" then
      some (.object [("id", .number (.unsigned 7)), ("result", .number (.unsigned 3))])
    else if text = "notify" then some (.object [("method", .string "programNotification"),
      ("params", .object [("subscription", .number (.unsigned 3)),
        ("result", .object [("value", .object [("pubkey", .string "account")])])])])
    else none
  render _ := "7"
  decodeTransaction _ := none

/-- A request is rejected; the next one with the same id subscribes. -/
def noteEvents : List (WsEvent Unit Unit) :=
  [.clientFrame (.text "subscribe") (.decided (.reject "no")),
    .clientFrame (.text "subscribe") (.decided .release), .serverSent true,
    .upstreamFrame (.text "acknowledge") (.decided .release)]

def noted : WsRelay Unit Unit × List WsEntry :=
  Machine.goOn (record noteCodec) (init, []) noteEvents

theorem gated_with_attribution_noted : ∃ operation,
    noted.1.asked noteCodec (.upstreamFrame (.text "notify") (.decided .release)) = some operation ∧
    operation.stage = .notification ∧ operation.accounts = ["program", "account"] := by
  have hparse : ∃ parsed, noteCodec.parse "notify" = some parsed ∧ subscription parsed = some 3 :=
    ⟨_, rfl, rfl⟩
  obtain ⟨parsed, hparse, hsubscription⟩ := hparse
  obtain ⟨operation, base, hasked, -, -, hnotification, -⟩ :=
    gated_with_attribution (Machine.reachable_goOn (init, []) noteEvents) rfl "notify" parsed
      (.decided .release) hparse
  have hoperation := hnotification (by rw [hsubscription]; exact nofun)
  refine ⟨operation, hasked, by rw [hoperation], ?_⟩
  have haccounts : (noted.1.asked noteCodec
      (.upstreamFrame (.text "notify") (.decided .release))).map Operation.accounts =
      some ["program", "account"] := by
    decide +kernel
  have hsome := congrArg (Option.map Operation.accounts) hasked
  exact some.inj (hsome.symm.trans haccounts)

end WsRelay

end Redsuite
