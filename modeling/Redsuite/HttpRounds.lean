import Redsuite.HttpRelay

/-!
# The rounds of an HTTP connection

A round of the loop in `serve_http` goes through a fixed sequence of entries, which its two
decisions determine.
-/

namespace Redsuite

open List Option

open Http (Status Response Reading Posted Writing)

/-! ### Requests -/

/-- The bytes of a request: a head, the empty line and as many bytes as the head announces. -/
structure IsRequest (raw head body : List UInt8) : Prop where
  parts : raw = head ++ (Http.terminator ++ body)
  ends : Http.findTerminator raw = some head.length
  announced : Http.contentLength (Utf8.lossy head) = body.length
  fits : body.length ≤ Http.maxBody

/-- How far a round came. -/
inductive Round : Type where
  | idle
  | asked (raw head body : List UInt8)
  | dropped (raw head body : List UInt8)
  | rejected (raw head body : List UInt8) (message : String)
  | posted (raw head body : List UInt8)
  | answered (raw head body : List UInt8) (result : Posted)
  | discarded (raw head body : List UInt8) (result : Posted)
  /-- the response is on its way; it is an error if the answer was rejected -/
  | replied (raw head body : List UInt8) (result : Posted) (rejection : Option String)

namespace Round

def text (body : List UInt8) : List Char := Utf8.lossy body

def parsed (codec : Codec) (body : List UInt8) : Json :=
  codec.parseOrNull (String.ofList (text body))

def operation (codec : Codec) (body : List UInt8) : Operation :=
  HttpRelay.requestOperation codec (text body)

def response? (codec : Codec) : Round → Option Response
  | .rejected _ _ body message => some ⟨.ok, codec.rejection (parsed codec body) message⟩
  | .replied _ _ _ result none => some result.response
  | .replied _ _ body _ (some message) => some ⟨.ok, codec.rejection (parsed codec body) message⟩
  | _ => none

def request? : Round → Option (List UInt8 × List UInt8 × List UInt8)
  | .idle => none
  | .asked raw head body => some (raw, head, body)
  | .dropped raw head body => some (raw, head, body)
  | .rejected raw head body _ => some (raw, head, body)
  | .posted raw head body => some (raw, head, body)
  | .answered raw head body _ => some (raw, head, body)
  | .discarded raw head body _ => some (raw, head, body)
  | .replied raw head body _ _ => some (raw, head, body)

def raw (self : Round) : List UInt8 := (self.request?.map Prod.fst).getD []

/-- The entries of a round that reads a request. -/
def opening (codec : Codec) (raw body : List UInt8) : List HttpEntry :=
  [.read raw, .gated (operation codec body)]

def posting (codec : Codec) (raw body : List UInt8) : List HttpEntry :=
  opening codec raw body ++ [.decided .request .release, .posted (Utf8.encode (text body))]

/-- The entries of a round up to the second gate. -/
def answering (codec : Codec) (raw body : List UInt8) (result : Posted) : List HttpEntry :=
  posting codec raw body ++
    [.answered result, .gated { operation codec body with stage := .response }]

def entries (codec : Codec) (self : Round) : List HttpEntry :=
  match self with
  | .idle => []
  | .asked raw _ body => opening codec raw body
  | .dropped raw _ body => opening codec raw body ++ [.decided .request .discard]
  | .rejected raw _ body message =>
    opening codec raw body ++ [.decided .request (.reject message)] ++
      (self.response? codec).toList.map .response
  | .posted raw _ body => posting codec raw body
  | .answered raw _ body result => answering codec raw body result
  | .discarded raw _ body result =>
    answering codec raw body result ++ [.decided .response .discard]
  | .replied raw _ body result rejection =>
    answering codec raw body result ++
      [.decided .response (match rejection with
        | none => .release
        | some message => .reject message)] ++ (self.response? codec).toList.map .response

/-- The round ends in a response. -/
def Responds : Round → Prop
  | .rejected _ _ _ _ => True
  | .replied _ _ _ _ _ => True
  | _ => False

/-- The round ends without a response. -/
def Discards : Round → Prop
  | .dropped _ _ _ => True
  | .discarded _ _ _ _ => True
  | _ => False

end Round

/-! ### The invariant -/

namespace HttpRelay

variable {γ τ : Type} {codec : Codec} {resp : Response}

/-- The phase is one of such a round. -/
def Fits (codec : Codec) : HttpPhase γ τ → Round → Prop
  | .head, .idle => True
  | .body _ _ _, .idle => True
  | .requestGate _ text parsed operation _, .asked _ _ body =>
    text = Round.text body ∧ parsed = Round.parsed codec body ∧
      operation = Round.operation codec body
  | .posting _ parsed operation _, .posted _ _ body =>
    parsed = Round.parsed codec body ∧ operation = Round.operation codec body
  | .responseGate _ parsed response _ _, .answered _ _ body result =>
    parsed = Round.parsed codec body ∧ response = result.response
  | .writing _ response _ _ _, round => round.response? codec = some response
  | .closed, _ => True
  | _, _ => False

/-- What the buffer has to do with the place where the task stands. -/
def Buffered (buffer : List UInt8) : HttpPhase γ τ → Prop
  | .head => Http.findTerminator buffer = none ∧ buffer.length ≤ Http.maxHead
  | .body split head contentLength =>
    Http.findTerminator buffer = some split ∧ head = Utf8.lossy (buffer.take split) ∧
      contentLength = Http.contentLength head ∧ contentLength ≤ Http.maxBody
  | _ => True

/-- What was written of the response. -/
def Sending (out : List UInt8) (codec : Codec) (round : Round) : HttpPhase γ τ → Prop
  | .writing _ _ .head _ _ => out = []
  | .writing _ response .body _ _ => out = response.head
  | .writing _ response .flush _ _ => out = response.bytes
  | .closed => out <+: ((round.response? codec).map Response.bytes).getD []
  | _ => out = []

/-- The log is the one of these rounds. -/
structure Logged (codec : Codec) (log : HttpLog) (buffer : List UInt8) (rounds : List Round)
    (round : Round) (out : List UInt8) : Prop where
  past : log.past = rounds.map fun round => round.entries codec ++ [.written]
  responded : ∀ round ∈ rounds, round.Responds
  current : log.current = round.entries codec
  request : ∀ other ∈ rounds ++ [round], ∀ raw head body,
    other.request? = some (raw, head, body) → IsRequest raw head body
  received : log.received = rounds.flatMap Round.raw ++ round.raw ++ buffer
  sent : log.sent = (rounds.filterMap (Round.response? codec)).flatMap Response.bytes ++ out

/-- What holds at every await. -/
structure Inv (codec : Codec) (relay : HttpRelay γ τ) (rounds : List Round) (round : Round)
    (out : List UInt8) : Prop where
  logged : Logged codec relay.log relay.buffer rounds round out
  fits : Fits codec relay.phase round
  buffered : Buffered relay.buffer relay.phase
  sending : Sending out codec round relay.phase

theorem inv_init : Inv codec (init : HttpRelay γ τ) [] .idle [] where
  logged := ⟨rfl, by simp, rfl, by simp [Round.request?], rfl, rfl⟩
  fits := trivial
  buffered := ⟨rfl, Nat.zero_le _⟩
  sending := rfl

namespace Logged

variable {log : HttpLog} {buffer : List UInt8} {rounds : List Round} {round : Round}
  {out : List UInt8}

theorem go (h : Logged codec log buffer rounds round out) {log' : HttpLog} {next : Round}
    (entries : List HttpEntry) (hlog : log' = { log with current := log.current ++ entries })
    (hes : next.entries codec = round.entries codec ++ entries)
    (hreq : next.request? = round.request?) : Logged codec log' buffer rounds next out := by
  subst hlog
  refine ⟨h.past, h.responded, ?_, ?_, ?_, h.sent⟩
  · rw [hes, ← h.current]
  · intro other hm raw head body ho
    rcases mem_concat.mp hm with hold | rfl
    · exact h.request other (mem_append_left _ hold) raw head body ho
    · rw [hreq] at ho
      exact h.request round (mem_concat_self) raw head body
        ho
  · rw [Round.raw, hreq]
    exact h.received

theorem read (h : Logged codec log buffer rounds .idle out) {log' : HttpLog}
    {raw head body rest : List UInt8}
    (hlog : log' = { log with current := log.current ++ Round.opening codec raw body })
    (hbuf : buffer = raw ++ rest) (hreq : IsRequest raw head body) :
    Logged codec log' rest rounds (.asked raw head body) out := by
  subst hlog
  refine ⟨h.past, h.responded, ?_, ?_, ?_, h.sent⟩
  · rw [h.current]
    rfl
  · intro other hm raw' head' body' ho
    rcases mem_concat.mp hm with hold | rfl
    · exact h.request other (mem_append_left _ hold) raw' head' body' ho
    · obtain ⟨rfl, rfl, rfl⟩ : raw = raw' ∧ head = head' ∧ body = body' := by
        simpa [Round.request?] using ho
      exact hreq
  · rw [h.received, hbuf]
    simp [Round.raw, Round.request?]

theorem receive (h : Logged codec log buffer rounds round out) (c : List UInt8) :
    Logged codec { log with received := log.received ++ c } (buffer ++ c) rounds round
      out := by
  refine ⟨h.past, h.responded, h.current, h.request, ?_, h.sent⟩
  rw [h.received, append_assoc]

theorem send (h : Logged codec log buffer rounds round out) (bs : List UInt8) :
    Logged codec { log with sent := log.sent ++ bs } buffer rounds round (out ++ bs) := by
  refine ⟨h.past, h.responded, h.current, h.request, h.received, ?_⟩
  rw [h.sent, append_assoc]

theorem responds (h : round.response? codec = some resp) : round.Responds := by
  cases round with
  | rejected raw head body msg => trivial
  | replied raw head body r rejection => trivial
  | _ => cases h

theorem finish (h : Logged codec log buffer rounds round resp.bytes)
    (hresp : round.response? codec = some resp) :
    Logged codec { log with past := log.past ++ [log.current ++ [.written]], current := [] }
      buffer (rounds ++ [round]) .idle [] := by
  refine ⟨?_, ?_, rfl, ?_, ?_, ?_⟩
  · rw [h.past, h.current]
    simp
  · intro other hm
    rcases mem_concat.mp hm with hold | rfl
    · exact h.responded other hold
    · exact responds hresp
  · intro other hm raw head body ho
    rcases mem_concat.mp hm with hold | rfl
    · exact h.request other hold raw head body ho
    · cases ho
  · rw [h.received]
    simp [Round.raw, Round.request?]
  · rw [h.sent]
    simp [hresp]

end Logged

/-! ### Reading -/

/-- What was found is in the buffer. -/
def Found (buffer : List UInt8) : Reading → Prop
  | .head => Http.findTerminator buffer = none ∧ buffer.length ≤ Http.maxHead
  | .body split head contentLength =>
    Http.findTerminator buffer = some split ∧ head = Utf8.lossy (buffer.take split) ∧
      contentLength = Http.contentLength head ∧ contentLength ≤ Http.maxBody
  | .refused => True
  | .request raw head text rest => buffer = raw ++ rest ∧
    ∃ bytes body, IsRequest raw bytes body ∧ head = Utf8.lossy bytes ∧ text = Utf8.lossy body

theorem isRequest_take {buffer : List UInt8} {split length : ℕ}
    (hsp : Http.findTerminator buffer = some split)
    (hlength : Http.contentLength (Utf8.lossy (buffer.take split)) = length)
    (hmax : length ≤ Http.maxBody) (henough : split + 4 + length ≤ buffer.length) :
    IsRequest (buffer.take (split + 4 + length)) (buffer.take split)
      ((buffer.drop (split + 4)).take length) := by
  have hfront : buffer.take (split + 4) = buffer.take split ++ Http.terminator := by
    have heq := Http.findTerminator_eq hsp
    have hlen : (buffer.take split ++ Http.terminator).length = split + 4 := by
      simp [Http.terminator]
      omega
    conv_lhs => rw [heq, ← hlen]
    exact take_left
  have hbody : ((buffer.drop (split + 4)).take length).length = length := by
    rw [length_take, length_drop]
    omega
  refine ⟨?_, ?_, ?_, ?_⟩
  · rw [take_add, hfront, append_assoc]
  · have hall : buffer.take (split + 4 + length) ++ buffer.drop (split + 4 + length) = buffer :=
      take_append_drop _ _
    rw [length_take, Nat.min_eq_left (by omega)]
    refine Http.findTerminator_front (hall.symm ▸ hsp) ?_
    rw [length_take]
    omega
  · rw [hlength, hbody]
  · rw [hbody]
    exact hmax

theorem readBody_found {buffer : List UInt8} {split length : ℕ} {head : List Char}
    (hsp : Http.findTerminator buffer = some split)
    (hhead : head = Utf8.lossy (buffer.take split)) (hlen : length = Http.contentLength head)
    (hmax : length ≤ Http.maxBody) : Found buffer (Http.readBody buffer split head length) := by
  rw [Http.readBody]
  split
  · exact ⟨hsp, hhead, hlen, hmax⟩
  · rename_i henough
    refine ⟨(take_append_drop _ _).symm, _, _, isRequest_take hsp ?_ hmax ?_, hhead, rfl⟩
    · rw [hlen, hhead]
    · exact Nat.le_of_not_lt henough

theorem readHead_found (buffer : List UInt8) : Found buffer (Http.readHead buffer) := by
  rw [Http.readHead]
  split
  · rename_i split hsp
    dsimp only
    split
    · exact trivial
    · rename_i hmax
      exact readBody_found hsp rfl rfl (Nat.le_of_not_lt hmax)
  · rename_i hn
    split
    · exact trivial
    · rename_i hmax
      exact ⟨hn, Nat.le_of_not_lt hmax⟩

theorem readOn_found {self : HttpRelay γ τ} (h : Buffered self.buffer self.phase)
    (c : List UInt8) : Found (self.buffer ++ c) (self.readOn c) := by
  rw [readOn]
  split
  · exact readHead_found _
  · rename_i split head length hp
    rw [hp] at h
    obtain ⟨hsp, hhead, hlen, hmax⟩ := h
    refine readBody_found (Http.findTerminator_append c hsp) ?_ hlen hmax
    have hle := Http.findTerminator_le hsp
    rw [hhead, take_append_of_le_length (by omega)]
  · exact trivial

/-! ### Each stretch keeps the invariant -/

def Sound (codec : Codec) (relay : HttpRelay γ τ) : Prop :=
  ∃ rounds round out, Inv codec relay rounds round out

variable {self : HttpRelay γ τ} {rounds : List Round} {round : Round} {out : List UInt8}

theorem sending_prefix {phase : HttpPhase γ τ} (hfits : Fits codec phase round)
    (h : Sending out codec round phase) :
    out <+: ((round.response? codec).map Response.bytes).getD [] := by
  cases phase with
  | writing keepAlive resp stage requestHold responseHold =>
    have hresp : round.response? codec = some resp := by
      cases round <;> exact hfits
    rw [hresp]
    cases stage with
    | head => rw [show out = [] from h]; exact nil_prefix
    | body => rw [show out = resp.head from h]; exact prefix_append _ _
    | flush => rw [show out = resp.bytes from h]; exact prefix_refl _
  | closed => exact h
  | requestGate keepAlive body parsed operation gate
  | responseGate keepAlive parsed resp hold gate =>
    rw [show out = [] from h]; exact nil_prefix
  | _ => rw [show out = [] from h]; exact nil_prefix

theorem Inv.close (h : Inv codec self rounds round out) : Inv codec self.close rounds round out :=
  ⟨h.logged, by cases round <;> exact trivial, trivial, sending_prefix h.fits h.sending⟩

theorem Logged.close (h : Logged codec self.log self.buffer rounds round []) :
    Inv codec self.close rounds round [] :=
  ⟨h, by cases round <;> exact trivial, trivial, nil_prefix⟩

theorem Logged.respond (keepAlive : Bool) (requestHold responseHold : Option τ)
    (h : Logged codec (self.note (.response resp)).log self.buffer rounds round [])
    (hresp : round.response? codec = some resp) :
    Inv codec (self.respond keepAlive resp requestHold responseHold) rounds round [] := by
  refine ⟨h, ?_, trivial, rfl⟩
  cases round <;> exact hresp

theorem Logged.two {first second : HttpEntry} {next : Round}
    (h : Logged codec self.log self.buffer rounds round out)
    (hes : next.entries codec = round.entries codec ++ [first, second])
    (hreq : next.request? = round.request?) :
    Logged codec ((self.note first).note second).log self.buffer rounds next out :=
  h.go [first, second] (by simp [note]) hes hreq

theorem Logged.applyRequest {raw head body : List UInt8} (keepAlive : Bool) (d : Decision)
    (hold : Option τ) (h : Logged codec self.log self.buffer rounds (.asked raw head body) []) :
    Sound codec (self.applyRequest codec keepAlive (Round.text body) (Round.parsed codec body)
      (Round.operation codec body) d hold).relay := by
  cases d with
  | discard =>
    have hlogged : Logged codec (self.note (.decided .request .discard)).log self.buffer rounds
        (.dropped raw head body) [] := h.go _ rfl rfl rfl
    exact ⟨rounds, _, [], hlogged.close⟩
  | reject msg =>
    have hlogged : Logged codec ((self.note (.decided .request (.reject msg))).note
        (.response ⟨.ok, codec.rejection (Round.parsed codec body) msg⟩)).log self.buffer rounds
        (.rejected raw head body msg) [] :=
      h.two rfl rfl
    exact ⟨rounds, _, [], hlogged.respond keepAlive hold none rfl⟩
  | release =>
    have hlogged : Logged codec ((self.note (.decided .request .release)).note
        (.posted (Utf8.encode (Round.text body)))).log self.buffer rounds
        (.posted raw head body) [] :=
      h.two rfl rfl
    exact ⟨rounds, _, [], hlogged, ⟨rfl, rfl⟩, trivial, rfl⟩

theorem Logged.applyResponse {raw head body : List UInt8} {r : Posted} (keepAlive : Bool)
    (d : Decision) (requestHold responseHold : Option τ)
    (h : Logged codec self.log self.buffer rounds (.answered raw head body r) []) :
    Sound codec (self.applyResponse codec keepAlive (Round.parsed codec body) r.response
      d requestHold responseHold).relay := by
  cases d with
  | discard =>
    have hlogged : Logged codec (self.note (.decided .response .discard)).log self.buffer rounds
        (.discarded raw head body r) [] := h.go _ rfl rfl rfl
    exact ⟨rounds, _, [], hlogged.close⟩
  | reject msg =>
    have hlogged : Logged codec ((self.note (.decided .response (.reject msg))).note
        (.response ⟨.ok, codec.rejection (Round.parsed codec body) msg⟩)).log self.buffer rounds
        (.replied raw head body r (some msg)) [] :=
      h.two rfl rfl
    exact ⟨rounds, _, [], hlogged.respond keepAlive requestHold responseHold rfl⟩
  | release =>
    have hlogged : Logged codec ((self.note (.decided .response .release)).note
        (.response r.response)).log self.buffer rounds
        (.replied raw head body r none) [] :=
      h.two rfl rfl
    exact ⟨rounds, _, [], hlogged.respond keepAlive requestHold responseHold rfl⟩

theorem Logged.proceed {r : Reading} (ans : Answer γ)
    (h : Logged codec self.log self.buffer rounds .idle []) (hf : Found self.buffer r) :
    Sound codec (self.proceed codec r ans).relay := by
  cases r with
  | head | body split head contentLength => exact ⟨rounds, _, [], h, trivial, hf, rfl⟩
  | refused => exact ⟨rounds, _, [], h.close⟩
  | request raw head text rest =>
    obtain ⟨hbuf, bytes, body, hreq, rfl, rfl⟩ := hf
    have hlogged : Logged codec ((self.note (.read raw)).note
        (.gated (Round.operation codec body))).log rest rounds (.asked raw bytes body) [] :=
      h.read (by simp [note, Round.opening]) hbuf hreq
    cases ans with
    | decided d => exact hlogged.applyRequest _ d none
    | pending gate => exact ⟨rounds, _, [], hlogged, ⟨rfl, rfl, rfl⟩, trivial, rfl⟩

section

variable (h : Inv codec self rounds round out)

include h

theorem Inv.reading
    (hp : self.phase = .head ∨ ∃ split head length, self.phase = .body split head length) :
    round = .idle ∧ out = [] := by
  have hfits := h.fits
  have hsnd := h.sending
  rcases hp with hp | ⟨split, head, length, hp⟩ <;>
  · rw [hp] at hfits hsnd
    refine ⟨?_, hsnd⟩
    cases round with
    | idle => rfl
    | _ => exact absurd hfits id

theorem Inv.receive (c : List UInt8) (ans : Answer γ)
    (hp : self.phase = .head ∨ ∃ split head length, self.phase = .body split head length) :
    Sound codec ((self.receive c).proceed codec (self.readOn c) ans).relay := by
  obtain ⟨rfl, rfl⟩ := h.reading hp
  have hlogged : Logged codec (self.receive c).log (self.receive c).buffer rounds .idle [] :=
    h.logged.receive c
  exact hlogged.proceed ans (readOn_found h.buffered c)

theorem Inv.answered {keepAlive : Bool} {parsed : Json} {operation : Operation} {hold : Option τ}
    (r : Posted) (ans : Answer γ) (hp : self.phase = .posting keepAlive parsed operation hold) :
    Sound codec (self.answered codec keepAlive parsed operation hold r ans).relay := by
  have hfits := h.fits
  have hsnd := h.sending
  rw [hp] at hfits hsnd
  obtain rfl : out = [] := hsnd
  cases round with
  | posted raw head body =>
    obtain ⟨rfl, rfl⟩ := hfits
    have hlogged : Logged codec ((self.note (.answered r)).note
        (.gated { Round.operation codec body with stage := .response })).log self.buffer rounds
        (.answered raw head body r) [] := h.logged.two rfl rfl
    cases ans with
    | decided d => exact hlogged.applyResponse keepAlive d hold none
    | pending gate => exact ⟨rounds, _, [], hlogged, ⟨rfl, rfl⟩, trivial, rfl⟩
  | _ => exact absurd hfits id

/-- **One of the awaits of `write_response` is over.** -/
theorem Inv.wrote {keepAlive : Bool} {stage : Writing} {requestHold responseHold : Option τ}
    (ans : Answer γ) (hp : self.phase = .writing keepAlive resp stage requestHold responseHold) :
    Sound codec (self.wrote codec keepAlive resp stage requestHold responseHold ans).relay := by
  have hsnd := h.sending
  have hresp : round.response? codec = some resp := by
    have hfits := h.fits
    rw [hp] at hfits
    cases round <;> exact hfits
  have hfits : ∀ stage, Fits codec
      (HttpPhase.writing (γ := γ) keepAlive resp stage requestHold responseHold) round := by
    intro stage
    cases round <;> exact hresp
  rw [hp] at hsnd
  cases stage with
  | head =>
    obtain rfl : out = [] := hsnd
    exact ⟨rounds, round, _, h.logged.send resp.head, hfits .body, trivial, rfl⟩
  | body =>
    obtain rfl : out = resp.head := hsnd
    exact ⟨rounds, round, _, h.logged.send resp.body, hfits .flush, trivial, rfl⟩
  | flush =>
    obtain rfl : out = resp.bytes := hsnd
    have hlogged : Logged codec self.endRound.log self.endRound.buffer (rounds ++ [round]) .idle [] :=
      h.logged.finish hresp
    cases keepAlive with
    | true => exact hlogged.proceed ans (readHead_found self.buffer)
    | false => exact ⟨_, _, _, hlogged.close⟩

theorem Inv.abort (bs : ℕ) : Sound codec (self.abort bs).relay := by
  cases hp : self.phase with
  | writing keepAlive resp stage requestHold responseHold =>
    have hsnd := h.sending
    have hresp : round.response? codec = some resp := by
      have hfits := h.fits
      rw [hp] at hfits
      cases round <;> exact hfits
    rw [hp] at hsnd
    simp only [HttpRelay.abort, hp]
    refine ⟨rounds, round, _, h.logged.send _, by cases round <;> exact trivial, trivial, ?_⟩
    change out ++ _ <+: _
    rw [hresp]
    cases stage with
    | head =>
      rw [show out = [] from hsnd]
      exact ( take_prefix _ _).trans (prefix_append _ _)
    | body =>
      rw [show out = resp.head from hsnd]
      exact (prefix_append_right_inj _).mpr ( take_prefix _ _)
    | flush =>
      rw [show out = resp.bytes from hsnd, unsent, take_nil, append_nil]
      exact prefix_refl _
  | head | body split head length
  | closed => simp only [HttpRelay.abort, hp]; exact ⟨_, _, _, h.close⟩
  | _ =>
    simp only [HttpRelay.abort, hp]; exact ⟨_, _, _, h.close⟩

end

theorem Sound.step {ev : HttpEvent γ τ} {after : HttpStep γ τ} (h : Sound codec self)
    (hst : self.step codec ev = some after) : Sound codec after.relay := by
  obtain ⟨rounds, round, out, h⟩ := h
  cases ev with
  | received c ans =>
    simp only [HttpRelay.step] at hst
    split at hst
    · rename_i hp
      split at hst <;> obtain rfl := some.inj hst
      · exact ⟨_, _, _, h.close⟩
      · exact h.receive c ans (Or.inl hp)
    · rename_i hp
      split at hst <;> obtain rfl := some.inj hst
      · exact ⟨_, _, _, h.close⟩
      · exact h.receive c ans (Or.inr ⟨_, _, _, hp⟩)
    · cases hst
  | readFailed =>
    simp only [HttpRelay.step] at hst
    split at hst <;> cases hst <;> exact ⟨_, _, _, h.close⟩
  | requestDecided d holding =>
    simp only [HttpRelay.step] at hst
    split at hst
    · rename_i keepAlive text parsed operation gate hp
      cases hst
      have hfits := h.fits
      have hsnd := h.sending
      rw [hp] at hfits hsnd
      obtain rfl : out = [] := hsnd
      cases round with
      | asked raw head body =>
        obtain ⟨rfl, rfl, rfl⟩ := hfits
        exact h.logged.applyRequest keepAlive d (some holding)
      | _ => exact absurd hfits id
    · cases hst
  | posted r ans =>
    simp only [HttpRelay.step] at hst
    split at hst
    · rename_i hp
      cases hst
      exact h.answered r ans hp
    · cases hst
  | responseDecided d holding =>
    simp only [HttpRelay.step] at hst
    split at hst
    · rename_i keepAlive parsed resp hold gate hp
      cases hst
      have hfits := h.fits
      have hsnd := h.sending
      rw [hp] at hfits hsnd
      obtain rfl : out = [] := hsnd
      cases round with
      | answered raw head body r =>
        obtain ⟨rfl, rfl⟩ := hfits
        exact h.logged.applyResponse keepAlive d hold (some holding)
      | _ => exact absurd hfits id
    · cases hst
  | wrote ans =>
    simp only [HttpRelay.step] at hst
    split at hst
    · rename_i hp
      cases hst
      exact h.wrote ans hp
    · cases hst
  | writeFailed bs =>
    simp only [HttpRelay.step] at hst
    split at hst
    · cases hst
      exact h.abort bs
    · cases hst
  | aborted bs =>
    simp only [HttpRelay.step] at hst
    split at hst
    · cases hst
    · cases hst
      exact h.abort bs

/-- The relay is one that a run passes through. -/
inductive Reachable (codec : Codec) : HttpRelay γ τ → Prop where
  | init : Reachable codec HttpRelay.init
  | step {self : HttpRelay γ τ} {event : HttpEvent γ τ} {after : HttpStep γ τ}
      (hself : Reachable codec self) (hstep : self.step codec event = some after) :
      Reachable codec after.relay

theorem Reachable.sound (h : Reachable codec self) : Sound codec self := by
  induction h with
  | init => exact ⟨_, _, _, inv_init⟩
  | step _ hst ih => exact ih.step hst

end HttpRelay

end Redsuite
