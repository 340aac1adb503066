import Redsuite.RelayTokens
import Redsuite.Release
import Mathlib.Algebra.BigOperators.Group.List.Basic

/-!
# The whole proxy

The scenario, the shared memory and all connections together.
-/

namespace Redsuite

open List Option

def Gate.answer : Gate → Answer Gate
  | .decided decision => .decided decision
  | gate => .pending gate

/-- A connection of the proxy. -/
inductive Connection : Type where
  /-- `serve_http` -/
  | http (relay : HttpRelay Gate Holding)
  /-- `serve_ws`, after its handshakes -/
  | ws (relay : WsRelay Gate Holding)

/-- What happens to a connection. -/
inductive Occurrence : Type where
  | http (event : HttpEvent Gate Holding)
  | ws (event : WsEvent Gate Holding)

def Occurrence.answered (answer : Answer Gate) : Occurrence → Occurrence
  | .http event => .http (HttpRelay.withAnswer answer event)
  | .ws event => .ws (WsRelay.answered answer event)

/-- Where a stretch of a connection's code leads, and what it drops. -/
structure ConnectionStep where
  connection : Connection
  cancelled : List Gate
  dropped : List Holding

namespace Connection

/-- The gates a connection waits for: its operations that are held or stalled. -/
def gates : Connection → Multiset Gate
  | .http relay => relay.gates
  | .ws relay => relay.gates

/-- The other tokens of a connection: operations released and not yet forwarded. -/
def tokens : Connection → Multiset Holding
  | .http relay => relay.tokens
  | .ws relay => relay.tokens

def holdings (self : Connection) : Multiset Holding :=
  self.gates.filterMap Gate.holding + self.tokens

def step (codec : Codec) : Connection → Occurrence → Option ConnectionStep
  | .http relay, .http event =>
    (relay.step codec event).map fun after => ⟨.http after.relay, after.cancelled, after.dropped⟩
  | .ws relay, .ws event =>
    (relay.step codec event).map fun after => ⟨.ws after.relay, after.cancelled, after.dropped⟩
  | _, _ => none

def asked (codec : Codec) : Connection → Occurrence → Option Operation
  | .http relay, .http event => relay.asked codec event
  | .ws relay, .ws event => relay.asked codec event
  | _, _ => none

def finished : Connection → Occurrence → List Holding
  | .http relay, .http event => relay.finished event
  | _, _ => []

def resolved : Connection → Occurrence → Option (Gate × Decision × Holding)
  | .http relay, .http event => relay.resolved event
  | .ws relay, .ws event => relay.resolved event
  | _, _ => none

/-- The gate is resolved in this memory the way the event says. -/
def Ready (w : World) (self : Connection) (event : Occurrence) : Prop :=
  ∀ gate decision holding, self.resolved event = some (gate, decision, holding) →
    w.resolve gate = .ready decision ∧ gate.holding = some holding

instance (w : World) (self : Connection) (event : Occurrence) : Decidable (Ready w self event) :=
  match h : self.resolved event with
  | none => .isTrue fun _ _ _ heq => nomatch h.symm.trans heq
  | some (gate, decision, holding) =>
    decidable_of_iff (w.resolve gate = .ready decision ∧ gate.holding = some holding) <| by
      rw [Ready, h]
      constructor
      · rintro hready _ _ _ heq
        obtain ⟨rfl, rfl, rfl⟩ : gate = _ ∧ decision = _ ∧ holding = _ := by
          simpa using heq
        exact hready
      · intro hready
        exact hready gate decision holding rfl

end Connection

/-- A waiting task is dropped, and its token with it. -/
def Gate.cancel (self : Gate) : M Unit :=
  match self.holding with
  | some holding => holding.drop
  | none => pure ()

/-- A stretch of a connection's code, in the shared memory. -/
def serve (codec : Codec) (connection : Connection) (event : Occurrence) : M Connection := do
  (connection.finished event).forM Holding.drop
  let event ← match connection.asked codec event with
    | some operation => do
      let gate ← gate operation
      pure (event.answered gate.answer)
    | none => pure event
  match connection.step codec event with
  | none => return connection
  | some after =>
    after.cancelled.forM Gate.cancel
    after.dropped.forM Holding.drop
    return after.connection

/-- The shared memory, the values of the scenario and the connections. -/
structure Proxy where
  world : World
  /-- live `Faults` values -/
  faults : Multiset ScopeId
  /-- live `Trap` values -/
  traps : Multiset Trap
  connections : List Connection

/-- What can happen next. -/
inductive Move : Type where
  | scenario (call : Call)
  | accept (transport : Transport)
  | occur (index : ℕ) (event : Occurrence)

/-- Calls the scenario makes; the others are the connections' own. -/
def Call.byScenario : Call → Bool
  | .gate _ => false
  | .dropHolding _ => false
  | _ => true

namespace Proxy

def init : Proxy := ⟨World.init, 0, 0, []⟩

def custody (self : Proxy) : Custody :=
  ⟨self.world, self.faults, self.traps, (self.connections.map Connection.gates).sum,
    (self.connections.map Connection.tokens).sum⟩

def accepted : Transport → Connection
  | .http => .http HttpRelay.init
  | .ws => .ws WsRelay.init

/-- **One move.** A move that cannot happen changes nothing. -/
def perform (quote : String → String) (codec : Codec) (self : Proxy) : Move → Except Panic Proxy
  | .scenario call =>
    if call.byScenario = true ∧ (Action.call call).Legal self.custody then do
      let after ← act quote self.custody (.call call)
      return { self with world := after.world, faults := after.faults, traps := after.traps }
    else return self
  | .accept transport =>
      return { self with connections := self.connections ++ [accepted transport] }
  | .occur index event =>
    match self.connections[index]? with
    | none => return self
    | some connection =>
      if connection.Ready self.world event then do
        let (after, world) ← (serve codec connection event).run self.world
        return { self with world, connections := self.connections.set index after }
      else return self

def run (quote : String → String) (codec : Codec) (moves : List Move) : Except Panic Proxy :=
  moves.foldlM (perform quote codec) init

end Proxy

variable {op : Operation}

/-! ### The connections' balance -/

namespace Connection

variable {codec : Codec} {self : Connection} {ev : Occurrence} {after : ConnectionStep}

def brought (codec : Codec) : Connection → Occurrence → Option Gate
  | .http relay, .http event => relay.brought codec event
  | .ws relay, .ws event => relay.brought codec event
  | _, _ => none

theorem step_balanced (h : self.step codec ev = some after) :
    self.gates + part (self.brought codec ev) =
        after.connection.gates + (after.cancelled : Multiset Gate) +
          part ((self.resolved ev).map Prod.fst) ∧
      self.tokens + part ((self.resolved ev).map fun e => e.2.2) =
        after.connection.tokens + (after.dropped : Multiset Holding) +
          (self.finished ev : Multiset Holding) := by
  cases self with
  | http relay =>
    cases ev with
    | http ev =>
      obtain ⟨inner, hinn, rfl⟩ := map_eq_some_iff.mp h
      have hbalanced := HttpRelay.step_balanced hinn
      exact ⟨hbalanced.gates, hbalanced.tokens⟩
    | ws ev => cases h
  | ws relay =>
    cases ev with
    | http ev => cases h
    | ws ev =>
      obtain ⟨inner, hinn, rfl⟩ := map_eq_some_iff.mp h
      have hbalanced := WsRelay.step_balanced hinn
      exact ⟨hbalanced.gates, hbalanced.tokens.trans (add_zero _).symm⟩

theorem asking (h : self.asked codec ev = some op) (ans : Answer Gate) :
    self.brought codec (ev.answered ans) = ans.gate? ∧ self.resolved ev = none := by
  cases self <;> cases ev
  · exact HttpRelay.asking h ans
  · cases h
  · cases h
  · exact WsRelay.asking h ans

theorem brought_none (h : self.asked codec ev = none) : self.brought codec ev = none := by
  cases self with
  | http relay =>
    cases ev with
    | http ev =>
      refine if_neg ?_
      rw [show relay.asked codec ev = none from h]
      decide
    | ws ev => rfl
  | ws relay =>
    cases ev with
    | http ev => rfl
    | ws ev =>
      refine if_neg ?_
      rw [show relay.asked codec ev = none from h]
      decide

theorem answered_same (self : Connection) (ev : Occurrence) (ans : Answer Gate) :
    self.resolved (ev.answered ans) = self.resolved ev ∧
      self.finished (ev.answered ans) = self.finished ev := by
  cases self <;> cases ev
  · exact HttpRelay.resolved_answered _ _ ans
  · exact ⟨rfl, rfl⟩
  · exact ⟨rfl, rfl⟩
  · exact ⟨WsRelay.resolved_answered _ _ ans, rfl⟩

theorem resolved_of_finished (h : self.finished ev ≠ []) : self.resolved ev = none := by
  cases self <;> cases ev
  · exact HttpRelay.resolved_of_finished h
  · exact absurd rfl h
  · exact absurd rfl h
  · exact absurd rfl h

theorem step_of_asked (h : self.asked codec ev = some op)
    (ans : Answer Gate) : (self.step codec (ev.answered ans)).isSome := by
  cases self <;> cases ev
  · refine isSome_map.trans ?_
    exact HttpRelay.step_of_asked (Or.inl fun hn => nomatch h.symm.trans hn) ans
  · cases h
  · cases h
  · refine isSome_map.trans ?_
    exact WsRelay.step_of_asked h ans

theorem step_of_finished (codec : Codec) (h : self.finished ev ≠ []) :
    (self.step codec ev).isSome := by
  cases self with
  | http relay =>
    cases ev with
    | http ev =>
      refine isSome_map.trans ?_
      cases ev with
      | wrote ans =>
        have hfin : relay.finished (.wrote ans) ≠ [] := h
        exact HttpRelay.step_of_asked (Or.inr hfin) ans
      | _ => exact absurd rfl h
    | ws ev => exact absurd rfl h
  | ws relay => cases ev <;> exact absurd rfl h

end Connection

/-! ### Moves as actions -/

namespace Custody

variable {c : Custody} (quote : String → String)

theorem run_act (hwf : c.Wf) (a : Action) (hl : a.Legal c) :
    ∃ c', act quote c a = .ok c' ∧ Run quote c c' := by
  obtain ⟨c', hact, -⟩ := act_ok hwf hl
  exact ⟨c', hact, Run.refl.step hl hact⟩

theorem run_drops (holdings : List Holding) : ∀ {c : Custody} (tokens : Multiset Holding), c.Wf →
    c.tokens = tokens + (holdings : Multiset Holding) →
    ∃ w, (holdings.forM Holding.drop).run c.world = .ok ((), w) ∧
      Run quote c { c with world := w, tokens := tokens } := by
  induction holdings with
  | nil =>
    intro c tokens _ htks
    rw [Multiset.coe_nil, add_zero] at htks
    exact ⟨c.world, rfl, htks ▸ .refl⟩
  | cons holding rest ih =>
    intro c tokens hwf htks
    have hm : holding ∈ c.tokens := by
      rw [htks]
      exact Multiset.mem_add.mpr (Or.inr (Multiset.mem_coe.mpr mem_cons_self))
    obtain ⟨c₁, hact, hrun₁⟩ := run_act quote hwf (.call (.dropHolding holding)) hm
    obtain ⟨⟨⟨⟩, w₁⟩, hdrop, hc₁⟩ := except_bind_ok hact
    obtain rfl := Except.ok.inj hc₁
    have hr : (c.tokens.erase holding) = tokens + (rest : Multiset Holding) := by
      rw [htks, ← Multiset.cons_coe, Multiset.add_cons, Multiset.erase_cons_head]
    obtain ⟨w₂, hdrops, hrun₂⟩ := ih tokens (hrun₁.wf hwf) hr
    refine ⟨w₂, ?_, hrun₁.trans hrun₂⟩
    rw [List.forM, StateT.run_bind, hdrop]
    exact hdrops

theorem run_cancels (gates : List Gate) : ∀ {c : Custody} (pending : Multiset Gate), c.Wf →
    c.pending = pending + (gates : Multiset Gate) →
    ∃ w, (gates.forM Gate.cancel).run c.world = .ok ((), w) ∧
      Run quote c { c with world := w, pending := pending } := by
  induction gates with
  | nil =>
    intro c pending _ hpd
    rw [Multiset.coe_nil, add_zero] at hpd
    exact ⟨c.world, rfl, hpd ▸ .refl⟩
  | cons gate rest ih =>
    intro c pending hwf hpd
    have hm : gate ∈ c.pending := by
      rw [hpd]
      exact Multiset.mem_add.mpr (Or.inr (Multiset.mem_coe.mpr mem_cons_self))
    obtain ⟨scope, operation, verdict, -, hholding⟩ := hwf.pending gate hm
    obtain ⟨c₁, hact, hrun₁⟩ := run_act quote hwf (.cancel gate) hm
    simp only [act, hholding] at hact
    obtain ⟨⟨⟨⟩, w₁⟩, hdrop, hc₁⟩ := except_bind_ok hact
    obtain rfl := Except.ok.inj hc₁
    have hr : (c.pending.erase gate) = pending + (rest : Multiset Gate) := by
      rw [hpd, ← Multiset.cons_coe, Multiset.add_cons, Multiset.erase_cons_head]
    obtain ⟨w₂, hcancels, hrun₂⟩ := ih pending (hrun₁.wf hwf) hr
    refine ⟨w₂, ?_, hrun₁.trans hrun₂⟩
    rw [List.forM, StateT.run_bind, Gate.cancel, hholding]
    simp only [hdrop]
    exact hcancels

theorem run_gate (hwf : c.Wf) (op : Operation) :
    ∃ gate w, (Redsuite.gate op).run c.world = .ok (gate, w) ∧
      Run quote c { c with world := w, pending := c.pending + part gate.answer.gate? } := by
  obtain ⟨c₁, hact, hrun⟩ := run_act quote hwf (.call (.gate op)) trivial
  obtain ⟨⟨gate, w⟩, hgate, hc₁⟩ := except_bind_ok hact
  have hpd : c.pending + part gate.answer.gate? =
      if gate.holding.isSome then gate ::ₘ c.pending else c.pending := by
    cases gate with
    | decided d => exact add_zero _
    | held d reset holding => exact add_comm _ _
    | stalled resume holding => exact add_comm _ _
  refine ⟨gate, w, hgate, ?_⟩
  rw [hpd]
  obtain rfl := Except.ok.inj hc₁
  exact hrun

theorem run_resolve (pending : Multiset Gate) (hwf : c.Wf) {gate : Gate} {d : Decision}
    {holding : Holding} (hpd : c.pending = pending + {gate})
    (hready : c.world.resolve gate = .ready d) (hholding : gate.holding = some holding) :
    Run quote c { c with pending := pending, tokens := c.tokens + {holding} } := by
  have hm : gate ∈ c.pending := by
    rw [hpd]
    exact Multiset.mem_add.mpr (Or.inr (Multiset.mem_singleton_self gate))
  obtain ⟨c₁, hact, hrun⟩ := run_act quote hwf (.resolve gate)
    ⟨hm, by rw [hready]; exact fun h => nomatch h⟩
  obtain rfl := Except.ok.inj hact
  have herase : c.pending.erase gate = pending := by
    rw [hpd, add_comm, Multiset.singleton_add, Multiset.erase_cons_head]
  rw [herase, hholding, add_comm] at hrun
  exact hrun

variable {codec : Codec} {conn : Connection} {ev : Occurrence} {pending : Multiset Gate}
  {tokens : Multiset Holding}

theorem run_end (pending : Multiset Gate) (tokens : Multiset Holding) (hwf : c.Wf)
    (after : ConnectionStep)
    (hpd : c.pending = pending + after.connection.gates + (after.cancelled : Multiset Gate))
    (htks : c.tokens = tokens + after.connection.tokens + (after.dropped : Multiset Holding)) :
    ∃ w, (do after.cancelled.forM Gate.cancel
             after.dropped.forM Holding.drop
             return after.connection : M Connection).run c.world = .ok (after.connection, w) ∧
      Run quote c { c with
        world := w
        pending := pending + after.connection.gates
        tokens := tokens + after.connection.tokens } := by
  obtain ⟨w₁, hcancels, hrun₁⟩ := run_cancels quote after.cancelled _ hwf hpd
  obtain ⟨w₂, hdrops, hrun₂⟩ := run_drops quote after.dropped _ (hrun₁.wf hwf) htks
  refine ⟨w₂, ?_, hrun₁.trans hrun₂⟩
  simp only [StateT.run_bind, hcancels, except_ok_bind, hdrops]
  rfl

theorem run_asking (hwf : c.Wf) (hpd : c.pending = pending + conn.gates)
    (htks : c.tokens = tokens + conn.tokens) (hask : conn.asked codec ev = some op) : ∃ after w,
    (serve codec conn ev).run c.world = .ok (after, w) ∧ Run quote c
    { c with world := w, pending := pending + after.gates, tokens := tokens + after.tokens } := by
  have hbal : ∀ ans, ∃ after, conn.step codec (ev.answered ans) = some after ∧
      conn.gates + part ans.gate? =
        after.connection.gates + (after.cancelled : Multiset Gate) ∧
      conn.tokens = after.connection.tokens + (after.dropped : Multiset Holding) +
        (conn.finished ev : Multiset Holding) := by
    intro ans
    obtain ⟨after, hst⟩ :=
      isSome_iff_exists.mp (Connection.step_of_asked hask ans)
    obtain ⟨hgts, htks⟩ := Connection.step_balanced hst
    obtain ⟨hbrought, hn⟩ := Connection.asking hask ans
    rw [(conn.answered_same ev ans).1, hn] at hgts htks
    rw [(conn.answered_same ev ans).2] at htks
    rw [hbrought] at hgts
    exact ⟨after, hst, hgts.trans (add_zero _), (add_zero _).symm.trans htks⟩
  -- the tokens of the round go first; any answer tells how many others there are
  obtain ⟨first, -, -, hfst⟩ := hbal (.decided .release)
  obtain ⟨w₁, hdrops, hrun₁⟩ := run_drops quote (conn.finished ev)
    (tokens + (first.connection.tokens + (first.dropped : Multiset Holding))) hwf
    (by rw [htks, hfst]; abel)
  obtain ⟨gate, w₂, hgate, hrun₂⟩ := run_gate quote (hrun₁.wf hwf) op
  obtain ⟨after, hst, hgts, hsecond⟩ := hbal gate.answer
  have hsm : first.connection.tokens + (first.dropped : Multiset Holding) =
      after.connection.tokens + (after.dropped : Multiset Holding) :=
    add_right_cancel (hfst.symm.trans hsecond)
  have hrun := hrun₁.trans hrun₂
  obtain ⟨w₃, hend, hrun₃⟩ := run_end quote pending tokens (hrun.wf hwf) after
    (by
      rw [hpd, add_assoc, hgts, add_assoc])
    (by
      rw [hsm, add_assoc])
  refine ⟨after.connection, w₃, ?_, hrun.trans hrun₃⟩
  simp only [serve, StateT.run_bind, hdrops, except_ok_bind, hask, hgate, StateT.run_pure,
    except_pure, hst]
  exact hend

theorem run_silent (hwf : c.Wf) (hpd : c.pending = pending + conn.gates)
    (htks : c.tokens = tokens + conn.tokens) (hready : conn.Ready c.world ev)
    (hask : conn.asked codec ev = none) :
    ∃ after w, (serve codec conn ev).run c.world = .ok (after, w) ∧
      Run quote c { c with
        world := w, pending := pending + after.gates, tokens := tokens + after.tokens } := by
  cases hst : conn.step codec ev with
  | none =>
    have hfin : conn.finished ev = [] := by
      by_contra hne
      have hsome := Connection.step_of_finished codec hne
      rw [hst] at hsome
      cases hsome
    refine ⟨conn, c.world, ?_, ?_⟩
    · simp only [serve, hfin, hask, StateT.run_bind, StateT.run_pure, except_pure,
        except_ok_bind, hst]
      rfl
    · rw [← hpd, ← htks]
      exact .refl
  | some after =>
    obtain ⟨hgts, hhs⟩ := Connection.step_balanced hst
    rw [Connection.brought_none hask] at hgts
    cases hrsv : conn.resolved ev with
    | none =>
      rw [hrsv] at hgts hhs
      obtain ⟨w₁, hdrops, hrun₁⟩ := run_drops quote (conn.finished ev)
        (tokens + after.connection.tokens + (after.dropped : Multiset Holding)) hwf
        (by
          rw [htks, ← add_zero conn.tokens]
          refine (congrArg (tokens + ·) hhs).trans ?_
          abel)
      obtain ⟨w₂, hend, hrun₂⟩ := run_end quote pending tokens (hrun₁.wf hwf) after
        (by
          rw [hpd, ← add_zero conn.gates]
          refine (congrArg (pending + ·) hgts).trans ?_
          abel)
        rfl
      refine ⟨after.connection, w₂, ?_, hrun₁.trans hrun₂⟩
      simp only [serve, StateT.run_bind, hdrops, except_ok_bind, hask, StateT.run_pure,
        except_pure, hst]
      exact hend
    | some e =>
      obtain ⟨gate, decision, holding⟩ := e
      obtain ⟨hdcd, hholding⟩ := hready gate decision holding hrsv
      have hfin : conn.finished ev = [] := by
        by_contra hne
        rw [Connection.resolved_of_finished hne] at hrsv
        cases hrsv
      rw [hrsv] at hgts hhs
      rw [hfin] at hhs
      have hrun₁ := run_resolve quote (pending + after.connection.gates +
        (after.cancelled : Multiset Gate)) hwf
        (by
          rw [hpd, ← add_zero conn.gates]
          refine (congrArg (pending + ·) hgts).trans ?_
          abel) hdcd hholding
      obtain ⟨w₂, hend, hrun₂⟩ := run_end quote pending tokens (hrun₁.wf hwf) after rfl
        (by
          change c.tokens + {holding} = _
          rw [htks, add_assoc]
          refine (congrArg (tokens + ·) hhs).trans ?_
          abel)
      refine ⟨after.connection, w₂, ?_, hrun₁.trans hrun₂⟩
      simp only [serve, hfin, hask, StateT.run_bind, StateT.run_pure, except_pure,
        except_ok_bind, hst, List.forM]
      exact hend

end Custody

namespace Proxy

variable {quote : String → String} {codec : Codec} {self : Proxy}

theorem act_scenario {c c' : Custody} {call : Call} (hc : call.byScenario = true)
    (h : act quote c (.call call) = .ok c') : c'.pending = c.pending ∧ c'.tokens = c.tokens := by
  cases call with
  | gate op => cases hc
  | dropHolding holding => cases hc
  | waitTrap trap =>
    obtain ⟨⟨held, w⟩, -, hret⟩ := except_bind_ok h
    rcases held with held | _ <;> cases hret <;> exact ⟨rfl, rfl⟩
  | _ =>
    obtain ⟨⟨_, w⟩, -, hret⟩ := except_bind_ok h
    cases hret
    exact ⟨rfl, rfl⟩

theorem sum_split {α : Type} (f : Connection → Multiset α) {connections : List Connection}
    {i : ℕ} {conn : Connection} (h : connections[i]? = some conn) :
    (connections.map f).sum = ((connections.eraseIdx i).map f).sum + f conn ∧
      ∀ after, ((connections.set i after).map f).sum =
        ((connections.eraseIdx i).map f).sum + f after := by
  obtain ⟨hlt, hget⟩ := List.getElem?_eq_some_iff.mp h
  have hpm : List.Perm (conn :: connections.eraseIdx i) connections :=
    hget ▸ List.getElem_cons_eraseIdx_perm hlt
  refine ⟨?_, fun after => ?_⟩
  · rw [← (hpm.map f).sum_eq, map_cons, sum_cons, add_comm]
  · rw [((set_perm_cons_eraseIdx hlt after).map f).sum_eq, map_cons, sum_cons,
      add_comm]

theorem perform_run (codec : Codec) (hwf : self.custody.Wf) (move : Move) :
    ∃ after, self.perform quote codec move = .ok after ∧
      Custody.Run quote self.custody after.custody := by
  cases move with
  | scenario call =>
    simp only [perform]
    split
    · rename_i hlegal
      obtain ⟨c, hact, hrun⟩ := Custody.run_act quote hwf (.call call) hlegal.2
      obtain ⟨hpd, htks⟩ := act_scenario hlegal.1 hact
      refine ⟨_, by rw [hact]; rfl, ?_⟩
      have hsm : Proxy.custody { self with
          world := c.world, faults := c.faults, traps := c.traps } = c := by
        exact congr (congrArg (Custody.mk c.world c.faults c.traps) hpd.symm) htks.symm
      rw [hsm]
      exact hrun
    · exact ⟨self, rfl, .refl⟩
  | accept transport =>
    refine ⟨_, rfl, ?_⟩
    have hsm : Proxy.custody { self with
        connections := self.connections ++ [accepted transport] } = self.custody := by
      cases transport <;>
      · simp only [custody, map_append]
        simp [accepted, Connection.gates, Connection.tokens, HttpRelay.gates, HttpRelay.tokens,
          HttpRelay.init, HttpPhase.gate?, HttpPhase.holds, WsRelay.gates, WsRelay.tokens,
          WsRelay.init, Phase.gate?, Phase.hold?, WsRelay.clientTokens, WsRelay.writerTokens,
          WsRelay.queueTokens, Writer.entry?]
    rw [hsm]
    exact .refl
  | occur i ev =>
    simp only [perform]
    split
    · exact ⟨self, rfl, .refl⟩
    · rename_i conn hconn
      split
      · rename_i hready
        obtain ⟨hgts, hgts'⟩ := sum_split Connection.gates hconn
        obtain ⟨htks, htks'⟩ := sum_split Connection.tokens hconn
        obtain ⟨after, w, hserve, hrun⟩ : ∃ after w,
            (serve codec conn ev).run self.world = .ok (after, w) ∧
            Custody.Run quote self.custody { self.custody with
              world := w
              pending := ((self.connections.eraseIdx i).map Connection.gates).sum + after.gates
              tokens :=
                ((self.connections.eraseIdx i).map Connection.tokens).sum + after.tokens } := by
          cases hask : conn.asked codec ev with
          | none => exact Custody.run_silent quote hwf hgts htks hready hask
          | some op => exact Custody.run_asking quote hwf hgts htks hask
        refine ⟨_, by rw [hserve]; rfl, ?_⟩
        rw [← hgts' after, ← htks' after] at hrun
        exact hrun
      · exact ⟨self, rfl, .refl⟩

theorem run_custody (quote : String → String) (codec : Codec) (moves : List Move) :
    ∃ after, run quote codec moves = .ok after ∧ Custody.Run quote Custody.init after.custody := by
  induction moves using List.reverseRecOn with
  | nil => exact ⟨init, rfl, .refl⟩
  | append_singleton moves move ih =>
    obtain ⟨before, hb, hrun₁⟩ := ih
    obtain ⟨after, haf, hrun₂⟩ := perform_run codec (hrun₁.wf .init) move
    refine ⟨after, ?_, hrun₁.trans hrun₂⟩
    rw [run, foldlM_append]
    rw [run] at hb
    rw [hb]
    simp only [foldlM_cons, except_ok_bind, haf]
    rfl

def live (self : Proxy) (scope : ScopeId) : ℕ :=
  (self.connections.map fun connection => connection.holdings.count ⟨scope⟩).sum

theorem count_holdings (self : Proxy) (scope : ScopeId) :
    self.custody.holdings.count ⟨scope⟩ = self.live scope := by
  have hsum : self.custody.holdings = (self.connections.map Connection.holdings).sum := by
    rw [Custody.holdings, custody]
    induction self.connections with
    | nil => rfl
    | cons conn rest ih =>
      simp only [map_cons, sum_cons, Multiset.filterMap_add] at ih ⊢
      rw [← ih, Connection.holdings]
      abel
  rw [hsum, live]
  induction self.connections with
  | nil => rfl
  | cons conn rest ih =>
    simp only [map_cons, sum_cons, Multiset.count_add, ih]

theorem no_token {scope : ScopeId} (h : self.live scope = 0) {conn : Connection}
    (hm : conn ∈ self.connections) : ⟨scope⟩ ∉ conn.holdings := by
  have hzero := List.sum_eq_zero_iff_forall_eq_nat.mp h _ (mem_map_of_mem hm)
  exact Multiset.count_eq_zero.mp hzero

theorem pollReset_zero {w w' : World} (hq : w.Quiet) {reset : ResetId} {scope : ScopeId}
    {s : State} (hr : w.resetScope reset = some scope) (hs : w.state? scope = some s)
    (h : (pollReset reset).run w = .ok (.ready .ok, w')) : s.holding = 0 := by
  by_contra hne
  rw [pollReset_run_waiting hq hr hs hne] at h
  cases h

/-- **Tokens are counted.** Any moves of the scenario and of the connections, in any order, go
through without a panic: no count goes below zero, and no token is dropped under a borrow. The
count of a scope is the number of its live tokens, and where a reset returns `Ok` no operation of
its scope is held, stalled, or released and not yet forwarded. -/
theorem holding_counts (quote : String → String) (codec : Codec) (moves : List Move) :
    ∃ self, run quote codec moves = .ok self ∧
      (∀ scope state, self.world.state? scope = some state → state.holding = self.live scope) ∧
      ∀ reset scope w, self.world.resetScope reset = some scope →
        (pollReset reset).run self.world = .ok (.ready .ok, w) →
        ∀ connection ∈ self.connections,
          (∀ gate ∈ connection.gates, gate.holding ≠ some ⟨scope⟩) ∧
          ⟨scope⟩ ∉ connection.tokens := by
  obtain ⟨self, hself, hrun⟩ := run_custody quote codec moves
  have hwf := hrun.wf .init
  have hcount : ∀ scope state, self.world.state? scope = some state →
      state.holding = self.live scope := by
    intro scope state hs
    rw [← self.count_holdings, ← hwf.holding scope]
    exact (congrArg State.holding (World.stateD_eq hs)).symm
  refine ⟨self, hself, hcount, ?_⟩
  intro reset scope w hreset hpoll connection hmem
  obtain ⟨state, hs⟩ := isSome_iff_exists.mp (hwf.resets reset scope hreset)
  have hzero := pollReset_zero hwf.valid.quiet hreset hs hpoll
  rw [hcount scope state hs] at hzero
  have hnone := no_token hzero hmem
  refine ⟨?_, fun htoken => hnone (Multiset.mem_add.mpr (Or.inr htoken))⟩
  intro gate hgate hholding
  exact hnone (Multiset.mem_add.mpr
    (Or.inl ((Multiset.mem_filterMap _ _).mpr ⟨gate, hgate, hholding⟩)))

/-- A trap holds a request on a WebSocket connection, and a reset begins. -/
def heldMoves : List Move :=
  [.scenario .openScope, .scenario (.intercept 0 .default), .accept .ws,
    .occur 0 (.ws (.clientFrame (.text "ask") (.decided .release))), .scenario (.startReset 0)]

-- while the request waits the reset does not return; it does once the connection was aborted
example :
    let codec : Codec := ⟨fun _ => none, fun _ => "", fun _ => none⟩
    ((run id codec heldMoves).toOption.map fun self => (self.live 0,
        ((pollReset 0).run self.world).toOption.map Prod.fst)) = some (1, some .pending) ∧
      ((run id codec (heldMoves ++ [.occur 0 (.ws .aborted)])).toOption.map fun self =>
        (self.live 0, ((pollReset 0).run self.world).toOption.map Prod.fst)) =
        some (0, some (.ready .ok)) := by
  decide +kernel

end Proxy

end Redsuite
