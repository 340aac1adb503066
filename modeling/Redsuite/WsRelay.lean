import Redsuite.Rpc
import Mathlib.Data.List.AList

/-!
# The WebSocket relay

A model of `core/src/netfault/ws.rs`.
-/

namespace Redsuite

/-- `tungstenite::Message`. -/
inductive Message : Type where
  | text (text : String)
  | close
  | other (frame : List UInt8)
  deriving DecidableEq

/-- The frame an outbound message is about, by its number. -/
inductive Source : Type where
  | upstream (index : ℕ)
  | client (index : ℕ)
  deriving DecidableEq

/-- A frame for the client, with its token. -/
structure Outbound (τ : Type) where
  message : Message
  holding : Option τ
  source : Source

/-- The task that writes to the client. It owns the receiving end of the queue. -/
inductive Writer (τ : Type) : Type where
  | receiving
  | sending (entry : Outbound τ)
  /-- a send failed; the task returned `false` -/
  | finished
  | gone

/-- The writer still takes entries from the queue. -/
def Writer.alive {τ : Type} : Writer τ → Bool
  | .receiving => true
  | .sending _ => true
  | .finished => false
  | .gone => false

def Writer.entry? {τ : Type} : Writer τ → Option (Outbound τ)
  | .sending entry => some entry
  | _ => none

/-- A task that waits for the decision about an upstream frame. -/
structure Delivery (γ : Type) where
  index : ℕ
  text : String
  parsed : Json
  gate : γ

/-- Where `serve_ws` is. -/
inductive Phase (γ τ : Type) : Type where
  /-- at the `select!` -/
  | selecting
  /-- in `request`, waiting for the gate -/
  | deciding (index : ℕ) (text : String) (parsed : Json) (request : Operation) (gate : γ)
  /-- in `request`, sending to the server -/
  | sending (index : ℕ) (message : Message) (hold : Option τ)
  /-- out of the loop, waiting for the aborted tasks -/
  | shutdown
  | closing
  | finished

def Phase.live {γ τ : Type} : Phase γ τ → Bool
  | .selecting => true
  | .deciding _ _ _ _ _ => true
  | .sending _ _ _ => true
  | .shutdown => false
  | .closing => false
  | .finished => false

/-- What a connection did. -/
structure WsLog where
  upstream : List Message
  client : List Message
  emitted : List (Source × Message)
  written : List (Source × Message)
  /-- frames sent to the server, with the number of the client frame -/
  forwarded : List (ℕ × Message)
  /-- what was decided about upstream frames, and whether on the spot -/
  replies : List (ℕ × Decision × Bool)
  requests : List (ℕ × Decision)

namespace WsLog

def empty : WsLog := ⟨[], [], [], [], [], [], []⟩

section

variable (log : WsLog)

def readUpstream (frame : Message) : WsLog :=
  { log with upstream := log.upstream ++ [frame] }

def readClient (frame : Message) : WsLog :=
  { log with client := log.client ++ [frame] }

def reply (index : ℕ) (decision : Decision) (immediate : Bool) : WsLog :=
  { log with replies := log.replies ++ [(index, decision, immediate)] }

def request (index : ℕ) (decision : Decision) : WsLog :=
  { log with requests := log.requests ++ [(index, decision)] }

def emit (source : Source) (message : Message) : WsLog :=
  { log with emitted := log.emitted ++ [(source, message)] }

def write (source : Source) (message : Message) : WsLog :=
  { log with written := log.written ++ [(source, message)] }

def forward (index : ℕ) (message : Message) : WsLog :=
  { log with forwarded := log.forwarded ++ [(index, message)] }

end

end WsLog

/-- A connection of `serve_ws`. -/
structure WsRelay (γ τ : Type) where
  phase : Phase γ τ
  /-- requests sent and not answered, with the subscription they end -/
  pending : AList fun _ : String => Operation × Option UInt64
  subscriptions : AList fun _ : UInt64 => Operation
  outbound : List (Outbound τ)
  writer : Writer τ
  deliveries : List (Delivery γ)
  /-- results of delivery tasks that were not joined yet -/
  completed : List Bool
  log : WsLog

/-- What can happen next. -/
inductive WsEvent (γ τ : Type) : Type where
  /-- a frame of the client; `answer` is what the gate says to the request in it -/
  | clientFrame (frame : Message) (answer : Answer γ)
  | clientEnd
  /-- a frame of the server; `answer` is what the gate says to the reply in it -/
  | upstreamFrame (frame : Message) (answer : Answer γ)
  /-- the server's stream ends or fails -/
  | upstreamEnd
  | decided (decision : Decision) (holding : τ)
  | serverSent (ok : Bool)
  | received
  | written (ok : Bool)
  | delivered (task : ℕ) (decision : Decision) (holding : τ)
  | joined (task : ℕ)
  | writerJoined
  | aborted
  | deliveryDropped (task : ℕ)
  | writerDropped
  | drained
  | closed

/-- A stretch of code: where it leads, and what it dropped on the way. -/
structure WsStep (γ τ : Type) where
  relay : WsRelay γ τ
  cancelled : List γ
  dropped : List τ

namespace WsRelay

variable {γ τ : Type}

/-- A connection whose handshakes are done. -/
def init : WsRelay γ τ :=
  ⟨.selecting, ∅, ∅, [], .receiving, [], [], .empty⟩

/-- `break` out of the main loop; `tasks.shutdown()` aborts all tasks. -/
def leave (self : WsRelay γ τ) : WsRelay γ τ := { self with phase := .shutdown }

/-- Go on at `select!`, or leave the loop on an error. -/
def resume (self : WsRelay γ τ) (ok : Bool) : WsRelay γ τ :=
  if ok then { self with phase := .selecting } else self.leave

/-- `outbound.send`: it fails, and drops the entry, when the writer dropped its end. -/
def push (self : WsRelay γ τ) (entry : Outbound τ) : WsRelay γ τ × Bool × List τ :=
  if self.writer.alive then
    ({ self with
        outbound := self.outbound ++ [entry]
        log := self.log.emit entry.source entry.message }, true, [])
  else (self, false, entry.holding.toList)

/-- What `deliver` sends to the client, if anything. -/
def deliverMessage (codec : Codec) (decision : Decision) (text : String) (parsed : Json) :
    Option Message :=
  match decision with
  | .discard => none
  | .reject message =>
    if (subscription parsed).isSome then none else some (.text (codec.rejection parsed message))
  | .release => some (.text text)

def deliver (codec : Codec) (self : WsRelay γ τ) (decision : Decision) (index : ℕ) (text : String)
    (parsed : Json) (holding : Option τ) : WsRelay γ τ × Bool × List τ :=
  match deliverMessage codec decision text parsed with
  | none => (self, true, holding.toList)
  | some message => self.push ⟨message, holding, .upstream index⟩

/-- `method.ends_with`. -/
def endsWith (method suffix : String) : Bool := suffix.toList.isSuffixOf method.toList

/-- What `request` remembers about a request it lets through. -/
def remember (codec : Codec) (self : WsRelay γ τ) (parsed : Json) (request : Operation) :
    WsRelay γ τ :=
  match codec.id parsed with
  | none => self
  | some id =>
    let unsubscribe :=
      if endsWith request.method "Unsubscribe" then ((parsed.field "params").item 0).asU64
      else none
    { self with pending := self.pending.insert id (request, unsubscribe) }

/-- `request` after the gate resolved. The token is dropped when `request` returns. -/
def applyRequest (codec : Codec) (self : WsRelay γ τ) (index : ℕ) (text : String) (parsed : Json)
    (request : Operation) (decision : Decision) (hold : Option τ) : WsStep γ τ :=
  let self := { self with log := self.log.request index decision }
  match decision with
  | .discard => ⟨self.leave, [], hold.toList⟩
  | .reject message =>
    let (self, ok, dropped) := self.push
      ⟨.text (codec.rejection parsed message), none, .client index⟩
    ⟨self.resume ok, [], dropped ++ hold.toList⟩
  | .release =>
    ⟨{ self.remember codec parsed request with phase := .sending index (.text text) hold }, [], []⟩

/-- `response_operation`: the operation a reply is, and what it changes. -/
def responseOperation (codec : Codec) (self : WsRelay γ τ) (parsed : Json) :
    WsRelay γ τ × Operation :=
  match subscription parsed with
  | some subscription =>
    (self, codec.notification parsed (self.subscriptions.lookup subscription))
  | none =>
    let found := (codec.id parsed).bind fun id => self.pending.lookup id
    let (request, unsubscribe) := found.getD (codec.request .ws .null, none)
    let self := { self with
      pending := match codec.id parsed with
        | some id => self.pending.erase id
        | none => self.pending }
    let self :=
      if endsWith request.method "Subscribe" then
        match (parsed.field "result").asU64 with
        | some id => { self with subscriptions := self.subscriptions.insert id request }
        | none => self
      else self
    let self :=
      if (parsed.field "result").asBool = some true then
        match unsubscribe with
        | some id => { self with subscriptions := self.subscriptions.erase id }
        | none => self
      else self
    (self, { request with stage := .response })

theorem responseOperation_frame (codec : Codec) (self : WsRelay γ τ) (parsed : Json) :
    ∃ pending subscriptions, (self.responseOperation codec parsed).1 =
      { self with pending := pending, subscriptions := subscriptions } := by
  simp only [responseOperation]
  split
  · exact ⟨_, _, rfl⟩
  · split <;> split <;> (try split) <;> (try split) <;> exact ⟨_, _, rfl⟩

/-- `request` up to its first await. -/
def clientFrame (codec : Codec) (self : WsRelay γ τ) (frame : Message) (answer : Answer γ) :
    WsStep γ τ :=
  let index := self.log.client.length
  let self := { self with log := self.log.readClient frame }
  match frame with
  | .close => ⟨self.leave, [], []⟩
  | .other _ => ⟨{ self with phase := .sending index frame none }, [], []⟩
  | .text text =>
    let parsed := codec.parseOrNull text
    let request := codec.request .ws parsed
    match answer with
    | .decided decision => self.applyRequest codec index text parsed request decision none
    | .pending gate => ⟨{ self with phase := .deciding index text parsed request gate }, [], []⟩

/-- Send to the client from the main loop, and leave the loop when that fails. -/
def pushOrLeave (self : WsRelay γ τ) (entry : Outbound τ) : WsStep γ τ :=
  let (self, ok, dropped) := self.push entry
  ⟨self.resume ok, [], dropped⟩

/-- `response`. -/
def upstreamFrame (codec : Codec) (self : WsRelay γ τ) (frame : Message) (answer : Answer γ) :
    WsStep γ τ :=
  let index := self.log.upstream.length
  let self := { self with log := self.log.readUpstream frame }
  match frame with
  | .close => ⟨self.leave, [], []⟩
  | .other _ => self.pushOrLeave ⟨frame, none, .upstream index⟩
  | .text text =>
    match codec.parse text with
    | none => self.pushOrLeave ⟨frame, none, .upstream index⟩
    | some parsed =>
      let self := (self.responseOperation codec parsed).1
      match answer with
      | .decided decision =>
        let self := { self with log := self.log.reply index decision true }
        let (self, ok, dropped) := self.deliver codec decision index text parsed none
        ⟨self.resume ok, [], dropped⟩
      -- other replies and notifications must progress while this one is held
      | .pending gate =>
        ⟨{ self with deliveries := self.deliveries ++ [⟨index, text, parsed, gate⟩] }, [], []⟩

def delivered (codec : Codec) (self : WsRelay γ τ) (task : Delivery γ) (rest : List (Delivery γ))
    (decision : Decision) (holding : τ) : WsStep γ τ :=
  let self := { self with
    deliveries := rest
    log := self.log.reply task.index decision false }
  let (self, ok, dropped) :=
    self.deliver codec decision task.index task.text task.parsed (some holding)
  ⟨{ self with completed := self.completed ++ [ok] }, [], dropped⟩

def queueTokens (self : WsRelay γ τ) : List τ := self.outbound.filterMap Outbound.holding

def writerTokens (self : WsRelay γ τ) : List τ :=
  (self.writer.entry?.bind Outbound.holding).toList

/-- The writer's task ends: its end of the queue goes, and the queue with it. -/
def endWriter (self : WsRelay γ τ) (writer : Writer τ) : WsStep γ τ :=
  ⟨{ self with writer, outbound := [] }, [], self.writerTokens ++ self.queueTokens⟩

/-- What the main loop drops when it is aborted where it stands. -/
def abort (self : WsRelay γ τ) : WsStep γ τ :=
  let relay := { self with phase := .finished }
  match self.phase with
  | .deciding _ _ _ _ gate => ⟨relay, [gate], []⟩
  | .sending _ _ hold => ⟨relay, [], hold.toList⟩
  | _ => ⟨relay, [], []⟩

/-- **One stretch of code**; `none` where the event cannot happen. -/
def step (codec : Codec) (self : WsRelay γ τ) : WsEvent γ τ → Option (WsStep γ τ)
  | .clientFrame frame answer =>
    match self.phase with
    | .selecting => some (self.clientFrame codec frame answer)
    | _ => none
  | .clientEnd =>
    match self.phase with
    | .selecting => some ⟨self.leave, [], []⟩
    | _ => none
  | .upstreamFrame frame answer =>
    match self.phase with
    | .selecting => some (self.upstreamFrame codec frame answer)
    | _ => none
  | .upstreamEnd =>
    match self.phase with
    | .selecting => some ⟨self.leave, [], []⟩
    | _ => none
  | .decided decision holding =>
    match self.phase with
    | .deciding index text parsed request _ =>
      some (self.applyRequest codec index text parsed request decision (some holding))
    | _ => none
  | .serverSent ok =>
    match self.phase with
    | .sending index message hold =>
      let log := if ok then self.log.forward index message else self.log
      some ⟨{ self with log }.resume ok, [], hold.toList⟩
    | _ => none
  | .received =>
    if self.phase.live then
      match self.writer, self.outbound with
      | .receiving, entry :: rest =>
        some ⟨{ self with writer := .sending entry, outbound := rest }, [], []⟩
      | _, _ => none
    else none
  | .written ok =>
    if self.phase.live then
      match self.writer with
      | .sending entry =>
        if ok then
          some ⟨{ self with
            writer := .receiving
            log := self.log.write entry.source entry.message }, [], entry.holding.toList⟩
        else some (self.endWriter .finished)
      | _ => none
    else none
  | .delivered task decision holding =>
    if self.phase.live then
      match self.deliveries[task]? with
      | some delivery =>
        some (self.delivered codec delivery (self.deliveries.eraseIdx task) decision holding)
      | none => none
    else none
  | .joined task =>
    match self.phase with
    | .selecting =>
      match self.completed[task]? with
      | some ok => some ⟨{ self with completed := self.completed.eraseIdx task }.resume ok, [], []⟩
      | none => none
    | _ => none
  | .writerJoined =>
    match self.phase, self.writer with
    | .selecting, .finished => some ⟨{ self with writer := .gone }.leave, [], []⟩
    | _, _ => none
  | .aborted =>
    match self.phase with
    | .finished => none
    | _ => some self.abort
  | .deliveryDropped task =>
    if self.phase.live then none
    else
      match self.deliveries[task]? with
      | some delivery =>
        some ⟨{ self with deliveries := self.deliveries.eraseIdx task }, [delivery.gate], []⟩
      | none => none
  | .writerDropped =>
    if self.phase.live then none
    else if self.writer.alive then some (self.endWriter .gone)
    else none
  | .drained =>
    match self.phase, self.deliveries with
    | .shutdown, [] =>
      if self.writer.alive then none
      else some ⟨{ self with phase := .closing, completed := [] }, [], []⟩
    | _, _ => none
  | .closed =>
    match self.phase with
    | .closing => some ⟨{ self with phase := .finished }, [], []⟩
    | _ => none

/-- **Everything a stretch of code can do**, by the event that brings it about. -/
inductive Change (codec : Codec) (self : WsRelay γ τ) : WsEvent γ τ → WsStep γ τ → Prop where
  | clientFrame (frame : Message) (answer : Answer γ) (hphase : self.phase = .selecting) :
      Change codec self (.clientFrame frame answer) (self.clientFrame codec frame answer)
  | clientEnd (hphase : self.phase = .selecting) : Change codec self .clientEnd ⟨self.leave, [], []⟩
  | upstreamFrame (frame : Message) (answer : Answer γ) (hphase : self.phase = .selecting) :
      Change codec self (.upstreamFrame frame answer) (self.upstreamFrame codec frame answer)
  | upstreamEnd (hphase : self.phase = .selecting) :
      Change codec self .upstreamEnd ⟨self.leave, [], []⟩
  | decided {index : ℕ} {text : String} {parsed : Json} {request : Operation} {gate : γ}
      (decision : Decision) (holding : τ)
      (hphase : self.phase = .deciding index text parsed request gate) :
      Change codec self (.decided decision holding)
        (self.applyRequest codec index text parsed request decision (some holding))
  | serverSent {index : ℕ} {message : Message} {hold : Option τ}
      (hphase : self.phase = .sending index message hold) :
      Change codec self (.serverSent true)
        ⟨{ self with log := self.log.forward index message }.resume true, [], hold.toList⟩
  | sendFailed {index : ℕ} {message : Message} {hold : Option τ}
      (hphase : self.phase = .sending index message hold) :
      Change codec self (.serverSent false) ⟨self.resume false, [], hold.toList⟩
  | received {entry : Outbound τ} {rest : List (Outbound τ)} (hwriter : self.writer = .receiving)
      (hqueue : self.outbound = entry :: rest) :
      Change codec self .received ⟨{ self with writer := .sending entry, outbound := rest }, [], []⟩
  | written {entry : Outbound τ} (hwriter : self.writer = .sending entry) :
      Change codec self (.written true)
        ⟨{ self with writer := .receiving, log := self.log.write entry.source entry.message }, [],
          entry.holding.toList⟩
  | writeFailed : Change codec self (.written false) (self.endWriter .finished)
  | delivered {task : ℕ} {delivery : Delivery γ} (decision : Decision) (holding : τ)
      (hlive : self.phase.live = true) (htask : self.deliveries[task]? = some delivery) :
      Change codec self (.delivered task decision holding)
        (self.delivered codec delivery (self.deliveries.eraseIdx task) decision holding)
  | joined {task : ℕ} {ok : Bool} (hphase : self.phase = .selecting) :
      Change codec self (.joined task)
        ⟨{ self with completed := self.completed.eraseIdx task }.resume ok, [], []⟩
  | writerJoined (hphase : self.phase = .selecting) (hwriter : self.writer = .finished) :
      Change codec self .writerJoined ⟨{ self with writer := .gone }.leave, [], []⟩
  | aborted : Change codec self .aborted self.abort
  | deliveryDropped {task : ℕ} {delivery : Delivery γ} (hlive : ¬ self.phase.live = true)
      (htask : self.deliveries[task]? = some delivery) :
      Change codec self (.deliveryDropped task)
        ⟨{ self with deliveries := self.deliveries.eraseIdx task }, [delivery.gate], []⟩
  | writerDropped : Change codec self .writerDropped (self.endWriter .gone)
  | drained (hphase : self.phase = .shutdown) :
      Change codec self .drained ⟨{ self with phase := .closing, completed := [] }, [], []⟩
  | closed (hphase : self.phase = .closing) :
      Change codec self .closed ⟨{ self with phase := .finished }, [], []⟩

theorem step_change {codec : Codec} {self : WsRelay γ τ} {ev : WsEvent γ τ}
    {after : WsStep γ τ} (h : self.step codec ev = some after) :
    Change codec self ev after := by
  -- an event finds the task it belongs to where it waits, or it cannot happen
  cases ev with
  | serverSent ok | written ok =>
    cases ok <;> simp only [step, if_true, Bool.false_eq_true, if_false] at h <;>
      (repeat' split at h) <;> cases h
    all_goals constructor <;> assumption
  | _ =>
    simp only [step] at h
    (repeat' split at h) <;> cases h
    all_goals constructor <;> assumption

def asked (codec : Codec) (self : WsRelay γ τ) : WsEvent γ τ → Option Operation
  | .clientFrame (.text text) _ =>
    match self.phase with
    | .selecting => some (codec.request .ws (codec.parseOrNull text))
    | _ => none
  | .upstreamFrame (.text text) _ =>
    match self.phase with
    | .selecting => (codec.parse text).map fun parsed => (self.responseOperation codec parsed).2
    | _ => none
  | _ => none

end WsRelay

end Redsuite
