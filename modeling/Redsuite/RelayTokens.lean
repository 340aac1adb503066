import Redsuite.WsRelay
import Redsuite.HttpRelay
import Mathlib.Algebra.Order.Group.Multiset
import Mathlib.Tactic.Abel

/-!
# What the relays hold

Every token a relay got stays with it, in a waiting gate, with an operation on its way or in the
outbound queue, until the relay drops it.
-/

namespace Redsuite

open Option

variable {γ τ : Type} {op : Operation}

def Answer.gate? : Answer γ → Option γ
  | .decided _ => none
  | .pending gate => some gate

def part (value : Option γ) : Multiset γ := (value.toList : Multiset γ)

@[simp] theorem part_none : part (none : Option γ) = 0 := rfl

@[simp] theorem part_some (v : γ) : part (some v) = {v} := rfl

@[simp] theorem coe_toList (v : Option γ) : (v.toList : Multiset γ) = part v := rfl

/-! ### WebSockets -/

def Phase.gate? : Phase γ τ → Option γ
  | .deciding _ _ _ _ gate => some gate
  | _ => none

/-- The token of the frame on its way to the server. -/
def Phase.hold? : Phase γ τ → Option τ
  | .sending _ _ hold => hold
  | _ => none

namespace WsRelay

def gates (self : WsRelay γ τ) : Multiset γ :=
  part self.phase.gate? + (self.deliveries.map Delivery.gate : Multiset γ)

def clientTokens (self : WsRelay γ τ) : Multiset τ :=
  (self.writerTokens : Multiset τ) + (self.queueTokens : Multiset τ)

def tokens (self : WsRelay γ τ) : Multiset τ := part self.phase.hold? + self.clientTokens

def answer? : WsEvent γ τ → Option (Answer γ)
  | .clientFrame _ answer => some answer
  | .upstreamFrame _ answer => some answer
  | _ => none

def brought (codec : Codec) (self : WsRelay γ τ) (event : WsEvent γ τ) : Option γ :=
  if (self.asked codec event).isSome then (answer? event).bind Answer.gate? else none

def resolved (self : WsRelay γ τ) : WsEvent γ τ → Option (γ × Decision × τ)
  | .decided decision holding => self.phase.gate?.map fun gate => (gate, decision, holding)
  | .delivered task decision holding =>
    if self.phase.live then
      self.deliveries[task]?.map fun delivery => (delivery.gate, decision, holding)
    else none
  | _ => none

attribute [local simp] gates tokens clientTokens writerTokens queueTokens brought asked resolved
  answer? Answer.gate? Phase.gate? Phase.hold?

variable (codec : Codec)

/-- Gates and tokens are kept, cancelled or dropped. -/
structure Leaves (after : WsStep γ τ) (gates : Multiset γ) (tokens : Multiset τ) : Prop where
  gates : gates = after.relay.gates + (after.cancelled : Multiset γ)
  tokens : tokens = after.relay.tokens + (after.dropped : Multiset τ)

section

variable (self : WsRelay γ τ)

include self

theorem push_tokens (e : Outbound τ) : self.clientTokens + part e.holding =
    (self.push e).1.clientTokens + ((self.push e).2.2 : Multiset τ) := by
  rw [push]
  split
  · have hqu : (self.outbound ++ [e]).filterMap Outbound.holding =
        self.queueTokens ++ e.holding.toList := by
      cases hholding : e.holding <;> simp [hholding]
    simp only [clientTokens, writerTokens, queueTokens, hqu, Multiset.coe_nil, add_zero,
      ← Multiset.coe_add, coe_toList, add_assoc]
  · rfl

theorem push_frame (e : Outbound τ) :
    (self.push e).1.phase = self.phase ∧ (self.push e).1.deliveries = self.deliveries := by
  rw [push]
  split <;> exact ⟨rfl, rfl⟩

theorem deliver_parts (d : Decision) (i : ℕ) (text : String) (parsed : Json) (holding : Option τ)
    {given : WsRelay γ τ × Bool × List τ} (hgv : given = self.deliver codec d i text parsed holding)
    : given.1.phase = self.phase ∧ given.1.deliveries = self.deliveries ∧ self.clientTokens + part
    holding = given.1.clientTokens + (given.2.2 : Multiset τ) := by
  rw [deliver] at hgv
  cases hmessage : deliverMessage codec d text parsed with
  | none =>
    rw [hmessage] at hgv
    rw [hgv]
    exact ⟨rfl, rfl, rfl⟩
  | some msg =>
    rw [hmessage] at hgv
    rw [hgv]
    exact ⟨(push_frame self _).1, (push_frame self _).2,
      push_tokens self ⟨msg, holding, .upstream i⟩⟩

theorem resume_leaves (ok : Bool) (dropped : List τ) : Leaves ⟨self.resume ok, [], dropped⟩
    (self.deliveries.map Delivery.gate : Multiset γ) (self.clientTokens + (dropped : Multiset τ)) :=
    by
  cases ok <;>
  · refine ⟨?_, ?_⟩
    · exact ((add_zero _).trans (zero_add _)).symm
    · exact congrArg (· + (dropped : Multiset τ)) (zero_add _).symm

theorem pushOrLeave_leaves (e : Outbound τ) : Leaves (self.pushOrLeave e)
    (self.deliveries.map Delivery.gate : Multiset γ) (self.clientTokens + part e.holding) := by
  rw [push_tokens, ← (push_frame self e).2]
  exact resume_leaves _ _ _

theorem applyRequest_leaves (i : ℕ) (text : String) (parsed : Json) (req : Operation) (d : Decision)
    (hold : Option τ) : Leaves (self.applyRequest codec i text parsed req d hold)
    (self.deliveries.map Delivery.gate : Multiset γ) (self.clientTokens + part hold) := by
  cases d with
  | discard => exact resume_leaves { self with log := self.log.request i .discard } false _
  | reject msg =>
    have hpush := pushOrLeave_leaves { self with log := self.log.request i (.reject msg) }
      ⟨.text (codec.rejection parsed msg), none, .client i⟩
    refine ⟨hpush.gates, ?_⟩
    have htks : self.clientTokens + 0 = _ := hpush.tokens
    rw [add_zero] at htks
    rw [htks, add_assoc]
    rfl
  | release =>
    refine ⟨?_, ?_⟩ <;>
    · simp only [applyRequest, remember]
      split <;> simp [add_comm]

end

/-- The balance of one stretch: what was there and came in is what is there afterwards and went out.
A gate that is resolved becomes its token. -/
structure Balanced (before : WsRelay γ τ) (event : WsEvent γ τ) (after : WsStep γ τ) : Prop where
  gates : before.gates + part (before.brought codec event) =
    after.relay.gates + (after.cancelled : Multiset γ) +
      part ((before.resolved event).map Prod.fst)
  tokens : before.tokens + part ((before.resolved event).map fun entry => entry.2.2) =
    after.relay.tokens + (after.dropped : Multiset τ)

variable {codec}

variable {self : WsRelay γ τ} {ev : WsEvent γ τ} {after : WsStep γ τ}

theorem Leaves.balanced {gates : Multiset γ} {tokens : Multiset τ} (h : Leaves after gates tokens)
    (hgts : self.gates + part (self.brought codec ev) = gates) (htks : self.tokens = tokens)
    (hrsv : self.resolved ev = none) : Balanced codec self ev after := by
  refine ⟨?_, ?_⟩
  · rw [hgts, hrsv, h.gates]
    exact (add_zero _).symm
  · rw [htks, hrsv, ← h.tokens]
    exact add_zero _

theorem selecting_parts (hp : self.phase = .selecting) :
    self.gates = (self.deliveries.map Delivery.gate : Multiset γ) ∧
      self.tokens = self.clientTokens := by
  rw [gates, tokens, hp]
  exact ⟨zero_add _, zero_add _⟩

/-- In the main loop nothing is on its way. -/
theorem selecting_balanced (hp : self.phase = .selecting)
    (hbrought : self.brought codec ev = none) (hrsv : self.resolved ev = none)
    (h : Leaves after (self.deliveries.map Delivery.gate : Multiset γ) (self.clientTokens + 0)) :
    Balanced codec self ev after := by
  obtain ⟨hgts, htks⟩ := selecting_parts hp
  refine h.balanced ?_ (htks.trans (add_zero _).symm) hrsv
  rw [hbrought, hgts]
  exact add_zero _

theorem clientFrame_balanced (hp : self.phase = .selecting) (frame : Message)
    (ans : Answer γ) :
    Balanced codec self (.clientFrame frame ans) (self.clientFrame codec frame ans) := by
  obtain ⟨hgts, htks⟩ := selecting_parts hp
  cases frame with
  | close =>
    exact selecting_balanced hp rfl rfl
      (resume_leaves { self with log := self.log.readClient .close } false [])
  | other frame =>
    refine ⟨?_, ?_⟩
    · rw [hgts]
      simp [WsRelay.clientFrame]
    · rw [htks]
      simp [WsRelay.clientFrame]
  | text text =>
    cases ans with
    | pending gate =>
      refine ⟨?_, ?_⟩
      · simp [hp, WsRelay.clientFrame, add_comm]
      · rw [htks]
        simp [WsRelay.clientFrame]
    | decided d =>
      exact selecting_balanced hp (by simp [hp]) rfl (applyRequest_leaves codec
        { self with log := self.log.readClient (.text text) } _ _ _ _ d none)

theorem upstreamFrame_balanced (hp : self.phase = .selecting) (frame : Message)
    (ans : Answer γ) :
    Balanced codec self (.upstreamFrame frame ans) (self.upstreamFrame codec frame ans) := by
  obtain ⟨hgts, htks⟩ := selecting_parts hp
  have hraw : ∀ frame : Message, Leaves
      (pushOrLeave { self with log := self.log.readUpstream frame }
        ⟨frame, none, .upstream self.log.upstream.length⟩)
      (self.deliveries.map Delivery.gate : Multiset γ) (self.clientTokens + 0) :=
    fun frame => pushOrLeave_leaves _ _
  cases frame with
  | close =>
    exact selecting_balanced hp rfl rfl
      (resume_leaves { self with log := self.log.readUpstream .close } false [])
  | other frame => exact selecting_balanced hp rfl rfl (hraw (.other frame))
  | text text =>
    cases hpa : codec.parse text with
    | none =>
      simp only [WsRelay.upstreamFrame, hpa]
      exact selecting_balanced hp (by simp [hp, hpa]) rfl (hraw (.text text))
    | some parsed =>
      have hask : (self.asked codec (.upstreamFrame (.text text) ans)).isSome := by
        simp [hp, hpa]
      obtain ⟨pending, subscriptions, hmaps⟩ := responseOperation_frame codec
        { self with log := self.log.readUpstream (.text text) } parsed
      simp only [WsRelay.upstreamFrame, hpa, hmaps]
      cases ans with
      | decided d =>
        obtain ⟨hsm, hdels, hdlr⟩ := deliver_parts codec { self with
          pending := pending
          subscriptions := subscriptions
          log := (self.log.readUpstream (.text text)).reply self.log.upstream.length d
            true } d self.log.upstream.length text parsed none rfl
        refine (resume_leaves _ _ _).balanced ?_ ?_ rfl
        · rw [hgts, brought, if_pos hask, hdels]
          exact add_zero _
        · rw [htks, ← hdlr]
          exact (add_zero _).symm
      | pending gate =>
        refine ⟨?_, ?_⟩
        · rw [brought, if_pos hask]
          simp only [gates, List.map_append, ← Multiset.coe_add]
          simp [hp]
        · simp [hp]

theorem gates_eraseIdx {ds : List (Delivery γ)} {task : ℕ} {d : Delivery γ}
    (ht : ds[task]? = some d) :
    (ds.map Delivery.gate : Multiset γ) =
      ((ds.eraseIdx task).map Delivery.gate : Multiset γ) + {d.gate} := by
  obtain ⟨hlt, hget⟩ := List.getElem?_eq_some_iff.mp ht
  have hpm : List.Perm (d :: ds.eraseIdx task) ds :=
    hget ▸ List.getElem_cons_eraseIdx_perm hlt
  rw [← Multiset.coe_eq_coe.mpr (hpm.map Delivery.gate), add_comm]
  rfl

theorem delivered_balanced {task : ℕ} {d : Delivery γ} (decision : Decision) (holding : τ)
    (hl : self.phase.live = true) (ht : self.deliveries[task]? = some d) :
    Balanced codec self (.delivered task decision holding)
      (self.delivered codec d (self.deliveries.eraseIdx task) decision holding) := by
  obtain ⟨hp, hdels, hdlr⟩ := deliver_parts codec { self with
    deliveries := self.deliveries.eraseIdx task
    log := self.log.reply d.index decision false } decision d.index d.text
    d.parsed (some holding) rfl
  have hrsv : self.resolved (.delivered task decision holding) =
      some (d.gate, decision, holding) := by
    simp [hl, ht]
  have hsp := gates_eraseIdx ht
  refine ⟨?_, ?_⟩
  · simp only [hrsv, gates, WsRelay.delivered, hp, hdels, hsp]
    simp [add_assoc]
  · simp only [hrsv, tokens, WsRelay.delivered, hp]
    rw [add_assoc, add_assoc]
    exact congrArg (part self.phase.hold? + ·) hdlr

theorem endWriter_tokens (self : WsRelay γ τ) (writer : Writer τ) (h : writer.entry? = none) :
    self.tokens = (self.endWriter writer).relay.tokens +
      ((self.endWriter writer).dropped : Multiset τ) := by
  simp [endWriter, h]
  exact Multiset.coe_add _ _

theorem abort_leaves (self : WsRelay γ τ) : Leaves self.abort self.gates self.tokens := by
  cases hp : self.phase <;>
  · refine ⟨?_, ?_⟩ <;>
    simp [abort, hp, add_comm]

def answered (answer : Answer γ) : WsEvent γ τ → WsEvent γ τ
  | .clientFrame frame _ => .clientFrame frame answer
  | .upstreamFrame frame _ => .upstreamFrame frame answer
  | event => event

theorem asking (h : self.asked codec ev = some op) (ans : Answer γ) :
    self.brought codec (answered ans ev) = ans.gate? ∧ self.resolved ev = none := by
  cases ev with
  | clientFrame frame old | upstreamFrame frame old =>
    cases frame with
    | text text => exact ⟨if_pos (isSome_of_eq_some h), rfl⟩
    | _ => cases h
  | _ => cases h

theorem resolved_answered (self : WsRelay γ τ) (ev : WsEvent γ τ) (ans : Answer γ) :
    self.resolved (answered ans ev) = self.resolved ev := by
  cases ev <;> rfl

theorem step_of_asked (h : self.asked codec ev = some op)
    (ans : Answer γ) : (self.step codec (answered ans ev)).isSome := by
  cases ev with
  | clientFrame frame old | upstreamFrame frame old =>
    cases hp : self.phase with
    | selecting => simp [answered, step, hp]
    | _ => cases frame <;> simp [hp] at h
  | _ => cases h

/-- **A WebSocket relay loses no token.** -/
theorem step_balanced (h : self.step codec ev = some after) : Balanced codec self ev after := by
  cases step_change h with
  | clientFrame frame ans hp => exact clientFrame_balanced hp frame ans
  | upstreamFrame frame ans hp => exact upstreamFrame_balanced hp frame ans
  | clientEnd hp | upstreamEnd hp =>
    exact selecting_balanced hp rfl rfl (resume_leaves self false [])
  | decided d holding hp =>
    rename_i i text parsed req gate
    have hlv := applyRequest_leaves codec self i text parsed req d
      (some holding)
    refine ⟨?_, ?_⟩
    · rw [← hlv.gates]
      simp [hp, add_comm]
    · rw [← hlv.tokens]
      simp [hp]
  | serverSent hp | sendFailed hp =>
    refine (resume_leaves _ _ _).balanced ?_ ?_ rfl
    · simp [hp]
    · simp [hp, add_comm]
  | received hwr hqu =>
    rename_i e rest
    refine ⟨by simp, ?_⟩
    cases hholding : e.holding <;> simp [hwr, hqu, hholding, Writer.entry?]
  | written hwr =>
    refine ⟨by simp, ?_⟩
    simp [hwr, Writer.entry?, add_comm, add_assoc]
  | writeFailed | writerDropped =>
    refine ⟨by simp [endWriter], ?_⟩
    exact (add_zero _).trans (endWriter_tokens self _ rfl)
  | delivered d holding hl ht => exact delivered_balanced d holding hl ht
  | joined hp =>
    rename_i task ok
    exact selecting_balanced hp rfl rfl
      (resume_leaves { self with completed := self.completed.eraseIdx task } ok [])
  | writerJoined hp hwr =>
    refine ⟨?_, ?_⟩
    · simp [leave, hp]
    · simp [leave, hp, hwr, Writer.entry?]
  | aborted => exact (abort_leaves self).balanced (add_zero _) rfl rfl
  | deliveryDropped hl ht =>
    refine ⟨?_, by simp⟩
    simp only [gates, gates_eraseIdx ht]
    simp [add_assoc]
  | drained hp | closed hp =>
    refine ⟨?_, ?_⟩
    · simp [hp]
    · simp [hp]

end WsRelay

/-! ### HTTP -/

def HttpPhase.gate? : HttpPhase γ τ → Option γ
  | .requestGate _ _ _ _ gate => some gate
  | .responseGate _ _ _ _ gate => some gate
  | _ => none

/-- The tokens of a round: of the request and of the answer. -/
def HttpPhase.holds : HttpPhase γ τ → Multiset τ
  | .posting _ _ _ requestHold => part requestHold
  | .responseGate _ _ _ requestHold _ => part requestHold
  | .writing _ _ _ requestHold responseHold => part requestHold + part responseHold
  | _ => 0

namespace HttpRelay

def gates (self : HttpRelay γ τ) : Multiset γ := part self.phase.gate?

def tokens (self : HttpRelay γ τ) : Multiset τ := self.phase.holds

def answer? : HttpEvent γ τ → Option (Answer γ)
  | .received _ answer => some answer
  | .posted _ answer => some answer
  | .wrote answer => some answer
  | _ => none

def brought (codec : Codec) (self : HttpRelay γ τ) (event : HttpEvent γ τ) : Option γ :=
  if (self.asked codec event).isSome then (answer? event).bind Answer.gate? else none

def resolved (self : HttpRelay γ τ) : HttpEvent γ τ → Option (γ × Decision × τ)
  | .requestDecided decision holding =>
    match self.phase with
    | .requestGate _ _ _ _ gate => some (gate, decision, holding)
    | _ => none
  | .responseDecided decision holding =>
    match self.phase with
    | .responseGate _ _ _ _ gate => some (gate, decision, holding)
    | _ => none
  | _ => none

attribute [local simp] gates tokens brought asked resolved finished answer? Answer.gate?
  HttpPhase.gate? HttpPhase.holds

variable (codec : Codec)

/-- The balance of one stretch; the tokens of a round that is over go first. -/
structure Balanced (before : HttpRelay γ τ) (event : HttpEvent γ τ) (after : HttpStep γ τ) :
    Prop where
  gates : before.gates + part (before.brought codec event) =
    after.relay.gates + (after.cancelled : Multiset γ) +
      part ((before.resolved event).map Prod.fst)
  tokens : before.tokens + part ((before.resolved event).map fun entry => entry.2.2) =
    after.relay.tokens + (after.dropped : Multiset τ) + (before.finished event : Multiset τ)

/-- Gates and tokens are kept, cancelled or dropped. -/
structure Leaves (after : HttpStep γ τ) (gates : Multiset γ) (tokens : Multiset τ) : Prop where
  gates : gates = after.relay.gates + (after.cancelled : Multiset γ)
  tokens : tokens = after.relay.tokens + (after.dropped : Multiset τ)

theorem applyRequest_leaves (self : HttpRelay γ τ) (keepAlive : Bool) (body : List Char)
    (parsed : Json) (op : Operation) (d : Decision) (hold : Option τ) :
    Leaves (self.applyRequest codec keepAlive body parsed op d hold) 0 (part hold) := by
  cases d <;>
  · refine ⟨rfl, ?_⟩
    simp [applyRequest, respond, close]

theorem applyResponse_leaves (self : HttpRelay γ τ) (keepAlive : Bool) (parsed : Json)
    (resp : Http.Response) (d : Decision) (requestHold responseHold : Option τ) :
    Leaves (self.applyResponse codec keepAlive parsed resp d requestHold responseHold) 0
      (part requestHold + part responseHold) := by
  cases d with
  | discard =>
    refine ⟨rfl, ?_⟩
    simp only [applyResponse, close, tokens, HttpPhase.holds, ← Multiset.coe_add, zero_add,
      coe_toList]
  | release | reject msg => exact ⟨rfl, (add_zero _).symm⟩

theorem proceed_leaves (self : HttpRelay γ τ) (reading : Http.Reading) (answer : Answer γ) :
    Leaves (self.proceed codec reading answer)
      (part (if (readingAsked codec reading).isSome then answer.gate? else none)) 0 := by
  cases reading with
  | request raw head body rest =>
    cases answer with
    | decided d => exact applyRequest_leaves codec _ _ body _ _ d none
    | pending gate => exact ⟨(add_zero _).symm, rfl⟩
  | _ => exact ⟨rfl, rfl⟩

theorem abort_leaves (self : HttpRelay γ τ) (bs : ℕ) :
    Leaves (self.abort bs) self.gates self.tokens := by
  cases hp : self.phase <;>
  · refine ⟨?_, ?_⟩ <;>
    simp [abort, hp, close, send, ← Multiset.coe_add]

variable {codec}

variable {self : HttpRelay γ τ} {ev : HttpEvent γ τ}

theorem Leaves.balanced {after : HttpStep γ τ} {gates : Multiset γ} {tokens : Multiset τ}
    (h : Leaves after gates tokens) (hgts : self.gates + part (self.brought codec ev) = gates)
    (htks : self.tokens = tokens + (self.finished ev : Multiset τ))
    (hrsv : self.resolved ev = none) : Balanced codec self ev after := by
  refine ⟨?_, ?_⟩
  · rw [hgts, hrsv, h.gates]
    exact (add_zero _).symm
  · rw [htks, hrsv, ← h.tokens]
    exact add_zero _

def withAnswer (answer : Answer γ) : HttpEvent γ τ → HttpEvent γ τ
  | .received chunk _ => .received chunk answer
  | .posted result _ => .posted result answer
  | .wrote _ => .wrote answer
  | event => event

theorem asking (h : self.asked codec ev = some op) (ans : Answer γ) :
    self.brought codec (withAnswer ans ev) = ans.gate? ∧ self.resolved ev = none := by
  cases ev with
  | received c old | posted r old | wrote old => exact ⟨if_pos (isSome_of_eq_some h), rfl⟩
  | _ => cases h

theorem resolved_answered (self : HttpRelay γ τ) (ev : HttpEvent γ τ) (ans : Answer γ) :
    self.resolved (withAnswer ans ev) = self.resolved ev ∧
      self.finished (withAnswer ans ev) = self.finished ev := by
  cases ev <;> exact ⟨rfl, rfl⟩

theorem resolved_of_finished (h : self.finished ev ≠ []) : self.resolved ev = none := by
  cases ev with
  | wrote ans => rfl
  | _ => exact absurd rfl h

theorem step_of_asked (h : self.asked codec ev ≠ none ∨ self.finished ev ≠ [])
    (ans : Answer γ) : (self.step codec (withAnswer ans ev)).isSome := by
  cases ev with
  | received c old =>
    cases hp : self.phase with
    | head | body split head length => simp only [withAnswer, step, hp]; split <;> rfl
    | _ => simp [hp] at h
  | posted r old =>
    cases hp : self.phase with
    | posting keepAlive parsed op hold => simp [withAnswer, step, hp]
    | _ => simp [hp] at h
  | wrote old =>
    cases hp : self.phase with
    | writing keepAlive resp stage requestHold responseHold => simp [withAnswer, step, hp]
    | _ => simp [hp] at h
  | _ => simp at h

theorem step_balanced {after : HttpStep γ τ} (h : self.step codec ev = some after) :
    Balanced codec self ev after := by
  cases ev with
  | received c ans =>
    simp only [step] at h
    split at h
    any_goals cases h
    all_goals
      rename_i hp
      split at h <;> rename_i hchk <;> obtain rfl := some.inj h
      · refine ⟨?_, ?_⟩ <;>
        simp [hp, hchk, close]
      · refine (proceed_leaves codec _ _ ans).balanced ?_ ?_ rfl
        · simp [hp, hchk]
        · simp [hp]
  | readFailed =>
    simp only [step] at h
    split at h <;> cases h
    all_goals
      rename_i hp
      refine ⟨?_, ?_⟩ <;>
      simp [hp, close]
  | requestDecided d holding =>
    simp only [step] at h
    split at h
    · rename_i keepAlive body parsed op gate hp
      cases h
      have hlv := applyRequest_leaves codec self keepAlive body parsed op d
        (some holding)
      refine ⟨?_, ?_⟩
      · rw [← hlv.gates]
        simp [hp]
      · rw [← hlv.tokens]
        simp [hp]
    · cases h
  | posted r ans =>
    simp only [step] at h
    split at h
    · rename_i keepAlive parsed op requestHold hp
      cases h
      have hbrought : self.brought codec (.posted r ans) = ans.gate? := by
        simp [hp]
      cases ans with
      | decided d =>
        refine (applyResponse_leaves codec _ keepAlive parsed r.response d requestHold
          none).balanced ?_ ?_ rfl
        · rw [hbrought]
          simp [hp]
        · simp [hp]
      | pending gate =>
        refine ⟨?_, ?_⟩
        · rw [hbrought]
          simp [hp, answered]
        · simp [hp, answered]
    · cases h
  | responseDecided d holding =>
    simp only [step] at h
    split at h
    · rename_i keepAlive parsed resp requestHold gate hp
      cases h
      have hlv := applyResponse_leaves codec self keepAlive parsed resp d requestHold
        (some holding)
      refine ⟨?_, ?_⟩
      · rw [← hlv.gates]
        simp [hp]
      · rw [← hlv.tokens]
        simp [hp]
    · cases h
  | wrote ans =>
    simp only [step] at h
    split at h
    · rename_i keepAlive resp stage requestHold responseHold hp
      cases h
      cases stage with
      | flush =>
        have hfin : self.tokens = 0 + (self.finished (.wrote ans) : Multiset τ) := by
          simp only [tokens, hp, HttpPhase.holds, finished, ← Multiset.coe_add, coe_toList,
            zero_add]
        cases keepAlive with
        | true =>
          refine (proceed_leaves codec self.endRound (Http.readHead self.buffer) ans).balanced ?_
            hfin rfl
          simp [hp]
        | false =>
          refine ⟨?_, ?_⟩
          · simp [hp, wrote, close]
          · rw [hfin]
            simp [wrote, close]
      | _ =>
        refine ⟨?_, ?_⟩ <;>
        simp [hp, wrote, send]
    · cases h
  | writeFailed bs =>
    simp only [step] at h
    split at h
    · cases h
      exact (abort_leaves self bs).balanced (add_zero _) (add_zero _).symm rfl
    · cases h
  | aborted bs =>
    simp only [step] at h
    split at h
    · cases h
    · cases h
      exact (abort_leaves self bs).balanced (add_zero _) (add_zero _).symm rfl

end HttpRelay

end Redsuite
