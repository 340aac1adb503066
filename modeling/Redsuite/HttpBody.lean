import Redsuite.HttpExchange
import Redsuite.Proxy

/-!
# What goes upstream

A request that no rule and no trap matches goes upstream in the stretch of code that completes it,
whatever happened before.
-/

namespace Redsuite

open List Option Http

open Http (Reading)

/-! ### A request nobody waits for -/

/-- No rule and no trap of the active scope matches the operation. -/
def World.Unmatched (w : World) (operation : Operation) : Prop :=
  ∀ scope state, w.active = some scope → w.alive scope = true → w.state? scope = some state →
    (∀ rule ∈ state.rules, rule.selector.matches operation = false) ∧
      ∀ trap ∈ state.traps, trap.selector.matches operation = false

instance (w : World) (operation : Operation) : Decidable (w.Unmatched operation) :=
  match ha : w.active with
  | none => .isTrue fun _ _ hactive => nomatch ha.symm.trans hactive
  | some scope =>
    decidable_of_iff (w.alive scope = true → ∀ state ∈ w.state? scope,
        (∀ rule ∈ state.rules, rule.selector.matches operation = false) ∧
          ∀ trap ∈ state.traps, trap.selector.matches operation = false) <| by
      constructor
      · intro h other state hactive hl hs
        obtain rfl : scope = other := some.inj (ha.symm.trans hactive)
        exact h hl state hs
      · intro h hl state hs
        exact h scope state ha hl hs

variable {w w' : World} {op : Operation} {codec : Codec} {conn : Connection}
  {ev : Occurrence}

theorem World.Unmatched.gate_release (h : w.Unmatched op) (hv : w.Valid) :
    ∃ w', (gate op).run w = .ok (.decided .release, w') := by
  obtain ⟨g, w', hrun, hg⟩ := gate_run hv.quiet (fun _ => hv.state_isSome) op
  -- a rule that decides and a trap that is armed both match
  have hrule : ∀ {scope s rule}, w.active = some scope → w.alive scope = true →
      w.state? scope = some s → decidingRule s.rules op ≠ some rule := by
    intro scope s rule ha hl hs hr
    have hmat := find?_some hr
    rw [(h scope s ha hl hs).1 rule (mem_of_find?_eq_some hr), Bool.and_false] at hmat
    exact nomatch hmat
  have htrap : ∀ {scope s i}, w.active = some scope → w.alive scope = true →
      w.state? scope = some s → armedTrap s.traps op ≠ some i := by
    intro scope s i ha hl hs ht
    obtain ⟨hlt, hmat, -⟩ := findIdx?_eq_some_iff_getElem.mp ht
    rw [(h scope s ha hl hs).2 _ (getElem_mem hlt), Bool.and_false] at hmat
    exact nomatch hmat
  cases hg with
  | inactive hdead | released ha hl hs hr ht => exact ⟨_, hrun⟩
  | rejected ha hl hs hr he | stalled ha hl hs hr he => exact absurd hr (hrule ha hl hs)
  | held ha hl hs hr ht hd => exact absurd ht (htrap ha hl hs)

theorem borrowMut_ok {scope : ScopeId} {s : State} (h : borrowMut scope w = .ok (s, w')) :
    w.scopes[scope]? = some ⟨false, s⟩ ∧
      w' = { w with scopes := w.scopes.set scope ⟨true, s⟩ } := by
  simp only [borrowMut] at h
  split at h
  · cases h
  · rename_i cell hcell
    split at h
    · cases h
    · rename_i hfree
      cases h
      exact ⟨by rw [hcell, ← Bool.eq_false_of_not_eq_true hfree], rfl⟩

theorem Holding.drop_ok {holding : Holding} (h : holding.drop.run w = .ok ((), w')) :
    ∃ s, w.state? holding.scope = some s ∧ w' = w.tokenDropped holding.scope s := by
  obtain ⟨⟨s, w₁⟩, hborrow, -⟩ := except_bind_ok h
  obtain ⟨hcell, rfl⟩ := borrowMut_ok hborrow
  refine ⟨s, by rw [World.state?, hcell]; rfl, ?_⟩
  have hborrow : (borrowMut holding.scope).run w =
      .ok (s, { w with scopes := w.scopes.set holding.scope ⟨true, s⟩ }) := hborrow
  by_cases hzero : s.holding = 0
  · simp [Holding.drop, hborrow, hzero] at h
  · simp [Holding.drop, hborrow, hzero, endBorrow, dropRc] at h
    simp [World.tokenDropped, World.setState, ← h]

theorem World.Unmatched.tokenDropped (h : w.Unmatched op) {dropped : ScopeId} {old : State}
    (hs : w.state? dropped = some old) : (w.tokenDropped dropped old).Unmatched op := by
  intro scope s ha hl hstate
  -- a scope that lives after the drop lived before
  have hal : w.alive scope = true := by
    simp only [World.alive, World.tokenDropped, getElem?_modify] at hl ⊢
    cases hstrong : w.strong[scope]? with
    | none => simp [hstrong] at hl
    | some count =>
      simp only [hstrong, Option.map_eq_map, Option.map_some, Option.getD_some,
        decide_eq_true_eq] at hl ⊢
      split at hl <;> omega
  by_cases hsco : scope = dropped
  · subst hsco
    have hset : (w.tokenDropped scope old).state? scope = _ :=
      World.state?_setState_self (isSome_of_eq_some hs) _
    cases hset.symm.trans hstate
    exact h scope old ha hal hs
  · have hset : (w.tokenDropped dropped old).state? scope = _ :=
      World.state?_setState_ne hsco _
    exact h scope s ha hal (hset.symm.trans hstate)

theorem World.Unmatched.drops (holdings : List Holding) :
    ∀ {w w' : World}, w.Unmatched op →
      (holdings.forM Holding.drop).run w = .ok ((), w') → w'.Unmatched op := by
  induction holdings with
  | nil =>
    intro w w' h hrun
    cases hrun
    exact h
  | cons holding rest ih =>
    intro w w' h hrun
    obtain ⟨⟨⟨⟩, w₁⟩, hdrop, hr⟩ := except_bind_ok hrun
    obtain ⟨old, hs, rfl⟩ := Holding.drop_ok hdrop
    exact ih (h.tokenDropped hs) hr

/-! ### A request that is complete -/

namespace HttpRelay

variable {γ τ : Type} {codec : Codec} {raw head body rest : List UInt8}

/-- The bytes `read_request` works on. -/
def toRead (self : HttpRelay γ τ) : HttpEvent γ τ → Option (List UInt8)
  | .received chunk _ =>
    match self.phase with
    | .head | .body _ _ _ => if chunk = [] then none else some (self.buffer ++ chunk)
    | _ => none
  | .wrote _ =>
    match self.phase with
    | .writing true _ .flush _ _ => some self.buffer
    | _ => none
  | _ => none

variable {self : HttpRelay γ τ}

theorem toRead_received {c bs : List UInt8} {ans : Answer γ}
    (h : self.toRead (.received c ans) = some bs) :
    (self.phase = .head ∨ ∃ split head length, self.phase = .body split head length) ∧
      c ≠ [] ∧ self.buffer ++ c = bs := by
  simp only [toRead] at h
  cases hp : self.phase with
  | head =>
    simp only [hp, ite_none_left_eq_some, some.injEq] at h
    exact ⟨Or.inl rfl, h⟩
  | body split head length =>
    simp only [hp, ite_none_left_eq_some, some.injEq] at h
    exact ⟨Or.inr ⟨split, head, length, rfl⟩, h⟩
  | _ =>
    simp only [hp] at h
    exact nomatch h

theorem toRead_wrote {bs : List UInt8} {ans : Answer γ}
    (h : self.toRead (.wrote ans) = some bs) :
    self.buffer = bs ∧ ∃ response requestHold responseHold,
      self.phase = .writing true response .flush requestHold responseHold := by
  simp only [toRead] at h
  split at h
  · rename_i response requestHold responseHold hp
    exact ⟨some.inj h, response, requestHold, responseHold, hp⟩
  · exact nomatch h

theorem readHead_request (h : IsRequest raw head body) :
    readHead (raw ++ rest) = .request raw (Utf8.lossy head) (Utf8.lossy body) rest := by
  have hsp : findTerminator (raw ++ rest) = some head.length :=
    findTerminator_append rest h.ends
  have hraw : raw ++ rest = head ++ (terminator ++ (body ++ rest)) := by
    rw [h.parts, append_assoc, append_assoc]
  have hlen : raw.length = head.length + 4 + body.length := by
    rw [h.parts]
    simp [terminator]
    omega
  have hhead : (raw ++ rest).take head.length = head := by
    rw [hraw, take_left]
  have hbody : ((raw ++ rest).drop (head.length + 4)).take body.length = body := by
    rw [hraw, ← drop_drop, drop_left]
    exact take_left
  have hfits : ¬ maxBody < body.length := Nat.not_lt.mpr h.fits
  simp only [readHead, hsp, hhead, h.announced, gt_iff_lt, if_neg hfits, readBody,
    hbody, ← hlen, take_left, drop_left, length_append]
  exact if_neg (by omega)

theorem readOn_eq (h : Buffered self.buffer self.phase)
    (hp : self.phase = .head ∨ ∃ split head length, self.phase = .body split head length)
    (c : List UInt8) : self.readOn c = readHead (self.buffer ++ c) := by
  rcases hp with hp | ⟨split, head, length, hp⟩
  · simp only [readOn, hp]
  · rw [hp] at h
    obtain ⟨hsp, rfl, rfl, hmax⟩ := h
    have hle := findTerminator_le hsp
    have htake : (self.buffer ++ c).take split = self.buffer.take split :=
      take_append_of_le_length (by omega)
    simp only [readOn, hp, readHead, findTerminator_append c hsp, htake,
      gt_iff_lt, if_neg (Nat.not_lt.mpr hmax)]

theorem proceed_posts (self : HttpRelay γ τ) (codec : Codec) (raw head body rest : List UInt8)
    (hcurrent : self.log.current = []) :
    ∃ relay, self.proceed codec (.request raw (Utf8.lossy head) (Utf8.lossy body) rest)
        (.decided .release) = ⟨relay, [], []⟩ ∧
      relay.buffer = rest ∧ relay.log.current = Round.posting codec raw body := by
  refine ⟨_, rfl, rfl, ?_⟩
  simp only [note, hcurrent]
  rfl

/-- **The stretch that completes a request** asks the gate about it, and posts it if it may pass. -/
theorem step_posts (hsd : Sound codec self) {ev : HttpEvent γ τ}
    (hrd : self.toRead ev = some (raw ++ rest)) (hreq : IsRequest raw head body) :
    self.asked codec ev = some (Round.operation codec body) ∧
      ∃ relay, self.step codec (withAnswer (.decided .release) ev) = some ⟨relay, [], []⟩ ∧
        relay.buffer = rest ∧ relay.log.current = Round.posting codec raw body := by
  obtain ⟨rounds, round, out, hinv⟩ := hsd
  cases ev with
  | received c ans =>
    obtain ⟨hp, hne, hby⟩ := toRead_received hrd
    have hrds := readOn_eq hinv.buffered hp c
    rw [hby, readHead_request hreq] at hrds
    obtain ⟨rfl, -⟩ := hinv.reading hp
    obtain ⟨relay, hprc, haf⟩ :=
      (self.receive c).proceed_posts codec raw head body rest hinv.logged.current
    rcases hp with hp | ⟨split, head, length, hp⟩ <;>
    · simp only [asked, hp, if_neg hne, hrds, withAnswer, step]
      exact ⟨rfl, relay, congrArg some hprc, haf⟩
  | wrote ans =>
    obtain ⟨hby, response, requestHold, responseHold, hp⟩ := toRead_wrote hrd
    have hrds : readHead self.buffer = _ := hby ▸ readHead_request hreq
    obtain ⟨relay, hprc, haf⟩ := self.endRound.proceed_posts codec raw head body rest rfl
    simp only [asked, hp, hrds, withAnswer, step, wrote, if_pos]
    exact ⟨rfl, relay, congrArg some hprc, haf⟩
  | _ => cases hrd

end HttpRelay

/-! ### In the proxy -/

namespace Connection

def Sound (codec : Codec) : Connection → Prop
  | .http relay => relay.Sound codec
  | .ws _ => True

end Connection

theorem Connection.finished_tokens (h : conn.asked codec ev = some op) :
    ∃ rest, conn.tokens = rest + (conn.finished ev : Multiset Holding) := by
  obtain ⟨after, hst⟩ :=
    isSome_iff_exists.mp (Connection.step_of_asked h (.decided .release))
  have htks := (Connection.step_balanced hst).2
  rw [(conn.answered_same ev _).1, (conn.answered_same ev _).2,
    (Connection.asking h (.decided .release)).2] at htks
  exact ⟨_, (add_zero _).symm.trans htks⟩

/-- **A stretch whose operation nobody waits for** goes on as if the gate were open. -/
theorem serve_release {after : Connection} {c : Custody} {tokens : Multiset Holding} (hwf : c.Wf)
    (htks : c.tokens = tokens + conn.tokens)
    (hask : conn.asked codec ev = some op)
    (hunmatched : c.world.Unmatched op)
    (hst : conn.step codec (ev.answered (.decided .release)) = some ⟨after, [], []⟩) :
    ∃ w, (serve codec conn ev).run c.world = .ok (after, w) := by
  -- the tokens of the round before go first; that changes no rule
  obtain ⟨rest, hfin⟩ := Connection.finished_tokens hask
  obtain ⟨w₁, hdrops, hrun₁⟩ := Custody.run_drops id (conn.finished ev) (tokens + rest) hwf
    (by rw [htks, hfin, add_assoc])
  obtain ⟨w₂, hgate⟩ := (hunmatched.drops _ hdrops).gate_release (hrun₁.wf hwf).valid
  refine ⟨w₂, ?_⟩
  simp only [serve, hask, StateT.run_bind, hdrops, except_ok_bind, hgate, StateT.run_pure,
    except_pure, Gate.answer, hst]
  rfl

theorem serve_ok {after : Connection} (h : (serve codec conn ev).run w = .ok (after, w')) :
    after = conn ∨ ∃ ev step, conn.step codec ev = some step ∧
      after = step.connection := by
  -- a step is tried, and what it left over is dropped
  have hend : ∀ {ev : Occurrence} {w : World} {rest : M Connection},
      (conn.step codec ev = none → rest = pure conn) →
      (∀ step, conn.step codec ev = some step → rest = do
        step.cancelled.forM Gate.cancel
        step.dropped.forM Holding.drop
        return step.connection) →
      rest.run w = .ok (after, w') →
      after = conn ∨ ∃ ev step, conn.step codec ev = some step ∧
        after = step.connection := by
    intro ev w rest hn hsome h
    cases hst : conn.step codec ev with
    | none =>
      rw [hn hst] at h
      cases h
      exact Or.inl rfl
    | some step =>
      rw [hsome step hst] at h
      obtain ⟨⟨⟨⟩, w₃⟩, -, h⟩ := except_bind_ok h
      obtain ⟨⟨⟨⟩, w₄⟩, -, h⟩ := except_bind_ok h
      cases h
      exact Or.inr ⟨ev, step, hst, rfl⟩
  obtain ⟨⟨⟨⟩, w₁⟩, -, h⟩ := except_bind_ok h
  cases hask : conn.asked codec ev with
  | none =>
    simp only [hask, pure_bind] at h
    exact hend (fun hn => by rw [hn]) (fun step hsome => by rw [hsome]) h
  | some op =>
    simp only [hask, pure_bind] at h
    obtain ⟨⟨gate, w₂⟩, -, h⟩ := except_bind_ok h
    exact hend (fun hn => by rw [hn]) (fun step hsome => by rw [hsome]) h

theorem serve_sound {after : Connection} (hsd : conn.Sound codec)
    (h : (serve codec conn ev).run w = .ok (after, w')) : after.Sound codec := by
  rcases serve_ok h with rfl | ⟨ev, step, hst, rfl⟩
  · exact hsd
  · cases conn with
    | ws relay =>
      cases ev with
      | http ev => exact nomatch hst
      | ws ev =>
        obtain ⟨inner, -, rfl⟩ := map_eq_some_iff.mp hst
        trivial
    | http relay =>
      cases ev with
      | ws ev => exact nomatch hst
      | http ev =>
        obtain ⟨inner, hinn, rfl⟩ := map_eq_some_iff.mp hst
        exact HttpRelay.Sound.step hsd hinn

namespace Proxy

variable {quote : String → String} {codec : Codec} {self : Proxy}

theorem perform_sound {after : Proxy} {move : Move}
    (hsd : ∀ conn ∈ self.connections, conn.Sound codec)
    (h : self.perform quote codec move = .ok after) :
    ∀ conn ∈ after.connections, conn.Sound codec := by
  cases move with
  | scenario call =>
    simp only [perform] at h
    split at h
    · obtain ⟨c, -, h⟩ := except_bind_ok h
      cases h
      exact hsd
    · cases h
      exact hsd
  | accept transport =>
    cases h
    intro conn hm
    rcases mem_concat.mp hm with hold | rfl
    · exact hsd conn hold
    · cases transport with
      | http => exact ⟨[], .idle, [], HttpRelay.inv_init⟩
      | ws => trivial
  | occur i ev =>
    simp only [perform] at h
    split at h
    · cases h
      exact hsd
    · rename_i conn hconn
      split at h
      · obtain ⟨⟨next, w⟩, hserve, h⟩ := except_bind_ok h
        cases h
        intro other hm
        rcases mem_or_eq_of_mem_set hm with hold | rfl
        · exact hsd other hold
        · exact serve_sound (hsd conn (mem_of_getElem? hconn)) hserve
      · cases h
        exact hsd

theorem run_sound {moves : List Move} (h : run quote codec moves = .ok self) :
    ∀ conn ∈ self.connections, conn.Sound codec := by
  induction moves using List.reverseRecOn generalizing self with
  | nil =>
    cases h
    exact fun _ hm => nomatch hm
  | append_singleton moves move ih =>
    rw [run, foldlM_append] at h
    obtain ⟨before, hb, h⟩ := except_bind_ok h
    rw [foldlM_cons] at h
    obtain ⟨after, haf, h⟩ := except_bind_ok h
    cases h
    exact perform_sound (ih hb) haf

/-- **The posted body is the client's exactly when it is valid UTF-8.** After any moves, where an
HTTP connection goes on and the bytes it has then begin with a complete request that nothing in
the active scope matches, the request is posted at once. -/
theorem posts_body_iff {moves : List Move} (hrun : run quote codec moves = .ok self) {index : ℕ}
    {relay : HttpRelay Gate Holding} (hrelay : self.connections[index]? = some (.http relay))
    {event : HttpEvent Gate Holding} {raw head body rest : List UInt8}
    (hread : relay.toRead event = some (raw ++ rest)) (hrequest : IsRequest raw head body)
    (hunmatched : self.world.Unmatched (Round.operation codec body)) :
    ∃ after relay' posted, self.perform quote codec (.occur index (.http event)) = .ok after ∧
      after.connections[index]? = some (.http relay') ∧
      relay'.log.current = [.read raw, .gated (Round.operation codec body),
        .decided .request .release, .posted posted] ∧
      relay'.buffer = rest ∧ (posted = body ↔ Utf8.Valid body) := by
  obtain ⟨self', hself', hcustody⟩ := run_custody quote codec moves
  obtain rfl := Except.ok.inj (hrun.symm.trans hself')
  have hwf := hcustody.wf .init
  have hsound := run_sound hrun _ (mem_of_getElem? hrelay)
  obtain ⟨hasked, relay', hstep, hbuffer, hcurrent⟩ :=
    HttpRelay.step_posts hsound hread hrequest
  have hasks : (Connection.http relay).asked codec (.http event) =
    some (Round.operation codec body) := hasked
  have hsteps : (Connection.http relay).step codec
      ((Occurrence.http event).answered (.decided .release)) = some ⟨.http relay', [], []⟩ :=
    congrArg (Option.map _) hstep
  obtain ⟨w, hserve⟩ := serve_release hwf (sum_split Connection.tokens hrelay).1 hasks hunmatched
    hsteps
  have hserve : (serve codec (.http relay) (.http event)).run self.world =
    .ok (.http relay', w) := hserve
  have hready : (Connection.http relay).Ready self.world (.http event) := by
    intro gate decision holding hresolved
    rw [(Connection.asking hasks (.decided .release)).2] at hresolved
    cases hresolved
  refine ⟨{ self with world := w, connections := self.connections.set index (.http relay') },
    relay', Utf8.encode (Utf8.lossy body), ?_, ?_, hcurrent, hbuffer, Utf8.encode_lossy_iff body⟩
  · simp only [perform, hrelay, if_pos hready, hserve]
    rfl
  · exact getElem?_set_of hrelay _

def after (quote : String → String) (codec : Codec) (moves : List Move) : Proxy :=
  (run quote codec moves).toOption.getD init

theorem run_after (quote : String → String) (codec : Codec) (moves : List Move) :
    run quote codec moves = .ok (after quote codec moves) := by
  obtain ⟨self, hself, -⟩ := run_custody quote codec moves
  rw [after, hself]
  rfl

def quietMoves : List Move :=
  [.scenario .openScope, .scenario (.reject 0 { Selector.default with transport := some .ws } "no"),
    .accept .http]

def sampleHead (length : String) : List UInt8 :=
  Utf8.encode ("POST\r\ncontent-length: " ++ length).toList

theorem isRequest_valid :
    IsRequest (sampleHead "2" ++ (terminator ++ [104, 105])) (sampleHead "2") [104, 105] :=
  ⟨rfl, by decide +kernel, by decide +kernel, by decide +kernel⟩

theorem isRequest_invalid :
    IsRequest (sampleHead "1" ++ (terminator ++ [0xFF])) (sampleHead "1") [0xFF] :=
  ⟨rfl, by decide +kernel, by decide +kernel, by decide +kernel⟩

theorem posts_body_iff_sample :
    ∃ after relay posted,
      (Proxy.after id HttpRelay.sampleCodec quietMoves).perform id HttpRelay.sampleCodec
        (.occur 0 (.http (.received (sampleHead "2" ++ (terminator ++ [104, 105]))
          (.decided .release)))) = .ok after ∧
      after.connections[0]? = some (.http relay) ∧
      relay.log.current = [.read (sampleHead "2" ++ (terminator ++ [104, 105])),
        .gated (Round.operation HttpRelay.sampleCodec [104, 105]),
        .decided .request .release, .posted posted] ∧
      relay.buffer = [] ∧ (posted = [104, 105] ↔ Utf8.Valid [104, 105]) :=
  posts_body_iff (run_after id HttpRelay.sampleCodec quietMoves)
    (show (Proxy.after id HttpRelay.sampleCodec quietMoves).connections[0]? =
      some (.http HttpRelay.init) from rfl)
    (by rw [append_nil]; decide +kernel) isRequest_valid (by decide +kernel)

/-- A body of one byte that is no text goes upstream as three other bytes. -/
theorem posts_replacement :
    IsRequest (sampleHead "1" ++ (terminator ++ [0xFF])) (sampleHead "1") [0xFF] ∧
      (Proxy.after id HttpRelay.sampleCodec quietMoves).world.Unmatched
        (Round.operation HttpRelay.sampleCodec [0xFF]) ∧
      ((Proxy.after id HttpRelay.sampleCodec (quietMoves ++
          [.occur 0 (.http (.received (sampleHead "1" ++ (terminator ++ [0xFF]))
            (.decided .release)))])).connections.map fun connection =>
        match connection with
        | .http relay => relay.log.current
        | .ws _ => []) =
        [[.read (sampleHead "1" ++ (terminator ++ [0xFF])),
          .gated (Round.operation HttpRelay.sampleCodec [0xFF]),
          .decided .request .release, .posted [0xEF, 0xBF, 0xBD]]] :=
  ⟨isRequest_invalid, by decide +kernel, by decide +kernel⟩

end Proxy

end Redsuite
