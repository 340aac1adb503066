import Redsuite.HttpHead
import Redsuite.Rpc

/-!
# The HTTP relay

A model of `serve_http` in `core/src/netfault/http.rs`.
-/

namespace Redsuite

namespace Http

def maxHead : ℕ := 64 * 1024

def maxBody : ℕ := 16 * 1024 * 1024

/-- What the buffer holds of the next request. -/
inductive Reading : Type where
  | head
  | body (split : ℕ) (head : List Char) (contentLength : ℕ)
  | refused
  | request (raw : List UInt8) (head body : List Char) (rest : List UInt8)

def readBody (buffer : List UInt8) (split : ℕ) (head : List Char) (contentLength : ℕ) : Reading :=
  let bodyStart := split + 4
  if buffer.length < bodyStart + contentLength then .body split head contentLength
  else
    .request (buffer.take (bodyStart + contentLength)) head
      (Utf8.lossy ((buffer.drop bodyStart).take contentLength))
      (buffer.drop (bodyStart + contentLength))

/-- `read_request`, as far as the bytes in the buffer go. -/
def readHead (buffer : List UInt8) : Reading :=
  match findTerminator buffer with
  | some split =>
    let head := Utf8.lossy (buffer.take split)
    if contentLength head > maxBody then .refused
    else readBody buffer split head (contentLength head)
  | none => if buffer.length > maxHead then .refused else .head

/-- What `http::post_json` returns. -/
inductive Posted : Type where
  | ok (text : String)
  /-- `TransportError::Status` -/
  | status (status : Status) (body : String)
  | error (message : String)
  deriving DecidableEq

def Posted.response : Posted → Response
  | .ok text => ⟨.ok, text⟩
  | .status code body => ⟨code, body⟩
  | .error message => ⟨.badGateway, message⟩

/-- Where `write_response` is. -/
inductive Writing : Type where
  | head
  | body
  | flush

end Http

open Http (Status Response Reading Posted Writing)

/-- Where `serve_http` is. -/
inductive HttpPhase (γ τ : Type) : Type where
  | head
  | body (split : ℕ) (head : List Char) (contentLength : ℕ)
  | requestGate (keepAlive : Bool) (body : List Char) (parsed : Json) (operation : Operation)
      (gate : γ)
  | posting (keepAlive : Bool) (parsed : Json) (operation : Operation) (requestHold : Option τ)
  | responseGate (keepAlive : Bool) (parsed : Json) (response : Response)
      (requestHold : Option τ) (gate : γ)
  | writing (keepAlive : Bool) (response : Response) (stage : Writing)
      (requestHold responseHold : Option τ)
  | closed

/-- What a connection did. -/
inductive HttpEntry : Type where
  | read (raw : List UInt8)
  | gated (operation : Operation)
  | decided (stage : Stage) (decision : Decision)
  | posted (body : List UInt8)
  | answered (result : Posted)
  /-- `write_response` was called -/
  | response (response : Response)
  /-- it returned `true` -/
  | written
  deriving DecidableEq

/-- What a connection did, round by round. -/
structure HttpLog where
  past : List (List HttpEntry)
  current : List HttpEntry
  received : List UInt8
  sent : List UInt8

/-- A connection of `serve_http`. -/
structure HttpRelay (γ τ : Type) where
  buffer : List UInt8
  phase : HttpPhase γ τ
  log : HttpLog

/-- What can happen next. -/
inductive HttpEvent (γ τ : Type) : Type where
  /-- bytes of the client, none at the end of the stream; `answer` is what the gate says to the
  request they complete -/
  | received (chunk : List UInt8) (answer : Answer γ)
  | readFailed
  | requestDecided (decision : Decision) (holding : τ)
  /-- the upstream server answered; `answer` is what the gate says to that -/
  | posted (result : Posted) (answer : Answer γ)
  | responseDecided (decision : Decision) (holding : τ)
  /-- a write or the flush is done; `answer` is what the gate says to the next request, if it is
  in the buffer already -/
  | wrote (answer : Answer γ)
  | writeFailed (bytes : ℕ)
  /-- the task is aborted, in the middle of a write after this many bytes -/
  | aborted (bytes : ℕ)

/-- A stretch of code: where it leads, and what it dropped. The tokens that go at the end of a round
are not among them; see `finished`. -/
structure HttpStep (γ τ : Type) where
  relay : HttpRelay γ τ
  cancelled : List γ
  dropped : List τ

namespace HttpRelay

variable {γ τ : Type}

def init : HttpRelay γ τ := ⟨[], .head, ⟨[], [], [], []⟩⟩

section

variable (self : HttpRelay γ τ)

def note (entry : HttpEntry) : HttpRelay γ τ :=
  { self with log := { self.log with current := self.log.current ++ [entry] } }

def send (bytes : List UInt8) : HttpRelay γ τ :=
  { self with log := { self.log with sent := self.log.sent ++ bytes } }

/-- `return`. -/
def close : HttpRelay γ τ := { self with phase := .closed }

/-- `write_response` up to its first await. -/
def respond (keepAlive : Bool) (response : Response) (requestHold responseHold : Option τ) :
    HttpRelay γ τ :=
  { self.note (.response response) with
    phase := .writing keepAlive response .head requestHold responseHold }

end

def applyRequest (codec : Codec) (self : HttpRelay γ τ) (keepAlive : Bool) (body : List Char)
    (parsed : Json) (operation : Operation) (decision : Decision) (hold : Option τ) :
    HttpStep γ τ :=
  let self := self.note (.decided .request decision)
  match decision with
  | .discard => ⟨self.close, [], hold.toList⟩
  | .reject message =>
      ⟨self.respond keepAlive ⟨.ok, codec.rejection parsed message⟩ hold none, [], []⟩
  | .release =>
    ⟨{ self.note (.posted (Utf8.encode body)) with
        phase := .posting keepAlive parsed operation hold }, [], []⟩

def requestOperation (codec : Codec) (body : List Char) : Operation :=
  codec.request .http (codec.parseOrNull (String.ofList body))

/-- `serve_http` after `read_request` got as far as it could. -/
def proceed (codec : Codec) (self : HttpRelay γ τ) (reading : Reading) (answer : Answer γ) :
    HttpStep γ τ :=
  match reading with
  | .head => ⟨{ self with phase := .head }, [], []⟩
  | .body split head contentLength =>
    ⟨{ self with phase := .body split head contentLength }, [], []⟩
  | .refused => ⟨self.close, [], []⟩
  | .request raw head body rest =>
    let keepAlive := Http.keepAlive head
    let parsed := codec.parseOrNull (String.ofList body)
    let operation := requestOperation codec body
    let self := { self with buffer := rest }
    let self := (self.note (.read raw)).note (.gated operation)
    match answer with
    | .decided decision =>
      self.applyRequest codec keepAlive body parsed operation decision none
    | .pending gate =>
      ⟨{ self with phase := .requestGate keepAlive body parsed operation gate }, [], []⟩

def readOn (self : HttpRelay γ τ) (chunk : List UInt8) : Reading :=
  match self.phase with
  | .head => Http.readHead (self.buffer ++ chunk)
  | .body split head contentLength =>
    Http.readBody (self.buffer ++ chunk) split head contentLength
  | _ => .refused

def receive (self : HttpRelay γ τ) (chunk : List UInt8) : HttpRelay γ τ :=
  { self with
    buffer := self.buffer ++ chunk
    log := { self.log with received := self.log.received ++ chunk } }

def applyResponse (codec : Codec) (self : HttpRelay γ τ) (keepAlive : Bool) (parsed : Json)
    (response : Response) (decision : Decision) (requestHold responseHold : Option τ) :
    HttpStep γ τ :=
  let self := self.note (.decided .response decision)
  match decision with
  | .discard => ⟨self.close, [], requestHold.toList ++ responseHold.toList⟩
  | .reject message =>
    ⟨self.respond keepAlive ⟨.ok, codec.rejection parsed message⟩ requestHold responseHold, [], []⟩
  | .release => ⟨self.respond keepAlive response requestHold responseHold, [], []⟩

def answered (codec : Codec) (self : HttpRelay γ τ) (keepAlive : Bool) (parsed : Json)
    (operation : Operation) (requestHold : Option τ) (result : Posted) (answer : Answer γ) :
    HttpStep γ τ :=
  let operation := { operation with stage := .response }
  let self := (self.note (.answered result)).note (.gated operation)
  match answer with
  | .decided decision =>
    self.applyResponse codec keepAlive parsed result.response decision requestHold none
  | .pending gate =>
    ⟨{ self with phase := .responseGate keepAlive parsed result.response requestHold gate }, [], []⟩

def endRound (self : HttpRelay γ τ) : HttpRelay γ τ :=
  { self with
    log := { self.log with past := self.log.past ++ [self.log.current ++ [.written]], current := [] } }

def wrote (codec : Codec) (self : HttpRelay γ τ) (keepAlive : Bool) (response : Response)
    (stage : Writing) (requestHold responseHold : Option τ) (answer : Answer γ) : HttpStep γ τ :=
  match stage with
  | .head =>
    ⟨{ self.send response.head with
        phase := .writing keepAlive response .body requestHold responseHold }, [], []⟩
  | .body =>
    ⟨{ self.send response.body with
        phase := .writing keepAlive response .flush requestHold responseHold }, [], []⟩
  | .flush =>
    if keepAlive then self.endRound.proceed codec (Http.readHead self.buffer) answer
    else ⟨self.endRound.close, [], []⟩

/-- The bytes of which some may have gone out when a write is cut short. -/
def unsent (response : Response) : Writing → List UInt8
  | .head => response.head
  | .body => response.body
  | .flush => []

/-- The task ends where it stands: what it holds is dropped. -/
def abort (self : HttpRelay γ τ) (bytes : ℕ) : HttpStep γ τ :=
  match self.phase with
  | .requestGate _ _ _ _ gate => ⟨self.close, [gate], []⟩
  | .posting _ _ _ requestHold => ⟨self.close, [], requestHold.toList⟩
  | .responseGate _ _ _ requestHold gate => ⟨self.close, [gate], requestHold.toList⟩
  | .writing _ response stage requestHold responseHold =>
    ⟨(self.send ((unsent response stage).take bytes)).close, [],
      requestHold.toList ++ responseHold.toList⟩
  | _ => ⟨self.close, [], []⟩

/-- **One stretch of code**; `none` where the event cannot happen. -/
def step (codec : Codec) (self : HttpRelay γ τ) : HttpEvent γ τ → Option (HttpStep γ τ)
  | .received chunk answer =>
    match self.phase with
    | .head | .body _ _ _ =>
      if chunk = [] then some ⟨self.close, [], []⟩
      else some ((self.receive chunk).proceed codec (self.readOn chunk) answer)
    | _ => none
  | .readFailed =>
    match self.phase with
    | .head | .body _ _ _ => some ⟨self.close, [], []⟩
    | _ => none
  | .requestDecided decision holding =>
    match self.phase with
    | .requestGate keepAlive body parsed operation _ =>
      some (self.applyRequest codec keepAlive body parsed operation decision (some holding))
    | _ => none
  | .posted result answer =>
    match self.phase with
    | .posting keepAlive parsed operation requestHold =>
      some (self.answered codec keepAlive parsed operation requestHold result answer)
    | _ => none
  | .responseDecided decision holding =>
    match self.phase with
    | .responseGate keepAlive parsed response requestHold _ =>
      some (self.applyResponse codec keepAlive parsed response decision requestHold (some holding))
    | _ => none
  | .wrote answer =>
    match self.phase with
    | .writing keepAlive response stage requestHold responseHold =>
      some (self.wrote codec keepAlive response stage requestHold responseHold answer)
    | _ => none
  | .writeFailed bytes =>
    match self.phase with
    | .writing _ _ _ _ _ => some (self.abort bytes)
    | _ => none
  | .aborted bytes =>
    match self.phase with
    | .closed => none
    | _ => some (self.abort bytes)

/-- The tokens that go at the end of a round, before the gate is asked about the next request. -/
def finished (self : HttpRelay γ τ) : HttpEvent γ τ → List τ
  | .wrote _ =>
    match self.phase with
    | .writing _ _ .flush requestHold responseHold => requestHold.toList ++ responseHold.toList
    | _ => []
  | _ => []

def readingAsked (codec : Codec) : Reading → Option Operation
  | .request _ _ body _ => some (requestOperation codec body)
  | _ => none

def asked (codec : Codec) (self : HttpRelay γ τ) : HttpEvent γ τ → Option Operation
  | .received chunk _ =>
    match self.phase with
    | .head | .body _ _ _ => if chunk = [] then none else readingAsked codec (self.readOn chunk)
    | _ => none
  | .posted _ _ =>
    match self.phase with
    | .posting _ _ operation _ => some { operation with stage := .response }
    | _ => none
  | .wrote _ =>
    match self.phase with
    | .writing true _ .flush _ _ => readingAsked codec (Http.readHead self.buffer)
    | _ => none
  | _ => none

end HttpRelay

end Redsuite
