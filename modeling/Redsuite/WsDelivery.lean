import Redsuite.WsLog

/-!
# What a WebSocket connection delivers

In any interleaving of the tasks of a connection exactly what is due is handed over while the
connection lives, at most that afterwards, and frames that were decided on the spot keep their
order even while others are held.
-/

namespace Redsuite

open List WsLog

namespace WsRelay

variable {γ τ : Type} {codec : Codec}

/-- The connection lives: the main loop was not left and the client takes messages. -/
def live (self : WsRelay γ τ) : Bool := self.phase.live && self.writer.alive

variable {self after given : WsRelay γ τ} {text : String} {phase : Phase γ τ}

theorem live_phase (h : self.live = true) : self.phase.live = true :=
  (Bool.and_eq_true_iff.mp h).1

theorem live_writer (h : self.live = true) : self.writer.alive = true :=
  (Bool.and_eq_true_iff.mp h).2

/-- What holds on the client's side. -/
structure Front (codec : Codec) (relay : WsRelay γ τ) (live : Bool) : Prop where
  told : Accounts relay.log.emitted (relay.log.due codec) live
  ordered : relay.log.Ordered
  queued : Queued relay.log relay.writer relay.outbound
  numbered : Numbered codec relay.log relay.deliveries live

/-- What holds at every await. -/
structure Inv (codec : Codec) (relay : WsRelay γ τ) : Prop extends
    Front codec relay relay.live where
  served : Served relay.log relay.phase.waiting relay.phase.outgoing relay.phase.live
  parsed : ∀ index text parsed request gate, relay.phase = .deciding index text parsed request gate →
    parsed = codec.parseOrNull text

theorem Inv.served_at (h : Inv codec self) (hp : self.phase = phase) :
    Served self.log phase.waiting phase.outgoing phase.live := hp ▸ h.served

theorem live_of (hp : self.phase = phase) (hl : phase.live = true)
    (hal : self.writer.alive = true) : self.live = true := by
  rw [live, hp, hl, hal]
  rfl

theorem inv_init : Inv codec (init : WsRelay γ τ) where
  told := fun src => Or.inl (by cases src <;> rfl)
  ordered := List.Pairwise.nil
  queued := ⟨ nil_prefix, fun _ => rfl⟩
  numbered := ⟨by simp [init], by simp [init, WsLog.empty], by simp [init, WsLog.empty],
    by simp [init, WsLog.empty]⟩
  served := ⟨by simp [init, Phase.waiting], by simp [init, WsLog.empty],
    by simp [init, WsLog.empty], by simp [init, WsLog.empty], fun i => Or.inl rfl⟩
  parsed := by simp [init]

/-! ### One stretch -/

/-- The relay changed neither its log nor its decisions, and the connection is over or as
before. -/
structure Quiet (before after : WsRelay γ τ) : Prop where
  log : after.log = before.log
  phase : after.phase = before.phase ∨ after.phase.live = false
  queue : after.writer = before.writer ∧ after.outbound = before.outbound ∨
    after.writer.alive = false
  /-- tasks are dropped only when the main loop is left -/
  deliveries : after.deliveries = before.deliveries ∨
    after.deliveries.Sublist before.deliveries ∧ after.phase.live = false

theorem quiet_leave (hlog : after.log = self.log) (hwr : after.writer = self.writer)
    (hqu : after.outbound = self.outbound) (hdels : after.deliveries = self.deliveries)
    (hp : after.phase.live = false) : Quiet self after :=
  ⟨hlog, Or.inr hp, Or.inl ⟨hwr, hqu⟩, Or.inl hdels⟩

/-! ### Each stretch keeps the invariant -/

theorem dead_phase (h : phase.live = false) : phase.waiting = none ∧ phase.outgoing = [] := by
  cases phase with
  | deciding i text parsed req gate => cases h
  | sending i msg hold => cases h
  | _ => exact ⟨rfl, rfl⟩

theorem Quiet.live (h : Quiet self after) (hl : after.live = true) : self.live = true := by
  have hp : after.phase = self.phase := by
    rcases h.phase with heq | hdead
    · exact heq
    · rw [live_phase hl] at hdead
      cases hdead
  have hwr : after.writer = self.writer := by
    rcases h.queue with ⟨heq, -⟩ | hdead
    · exact heq
    · rw [live_writer hl] at hdead
      cases hdead
  rwa [WsRelay.live, hp, hwr] at hl

theorem Inv.quiet (h : Inv codec self) (hq : Quiet self after) : Inv codec after := by
  refine ⟨⟨?_, ?_, ?_, ?_⟩, ?_, ?_⟩
  · rw [hq.log]
    exact h.told.mono hq.live
  · rw [hq.log]
    exact h.ordered
  · rw [hq.log]
    rcases hq.queue with ⟨hwr, hqu⟩ | hdead
    · rw [hwr, hqu]
      exact h.queued
    · exact h.queued.finish hdead
  · rw [hq.log]
    rcases hq.deliveries with heq | ⟨hsub, hdead⟩
    · rw [heq]
      exact h.numbered.mono hq.live
    · refine (h.numbered.drop hsub).mono ?_
      intro hl
      rw [live_phase hl] at hdead
      cases hdead
  · rw [hq.log]
    rcases hq.phase with heq | hdead
    · rw [heq]
      exact h.served
    · rw [(dead_phase hdead).1, (dead_phase hdead).2, hdead]
      exact h.served.leave
  · intro i text parsed req gate hp
    rcases hq.phase with heq | hdead
    · exact h.parsed i text parsed req gate (heq ▸ hp)
    · rw [hp] at hdead
      cases hdead

/-- After a message was handed to the client, or none was due: the relay and whether the client
took it. -/
structure Given (codec : Codec) (relay : WsRelay γ τ) (live : Bool) (given : WsRelay γ τ)
    (ok : Bool) : Prop where
  phase : given.phase = relay.phase
  writer : given.writer = relay.writer
  deliveries : given.deliveries = relay.deliveries
  log : ∃ entries, given.log = { relay.log with emitted := entries }
  ok : ok = true ∨ relay.writer.alive = false
  told : Accounts given.log.emitted (given.log.due codec) (live && relay.writer.alive)
  ordered : given.log.Ordered
  queued : Queued given.log given.writer given.outbound

/-- **Handing over what is due.** One frame is at hand; `message?` is due on its account. -/
theorem give (self : WsRelay γ τ) {before : WsLog} {live : Bool} {src : Source}
    (message? : Option Message) (holding : Option τ)
    (htold : Accounts before.emitted (before.due codec) live)
    (hgro : Grows (before.due codec) (self.log.due codec) src)
    (hemt : self.log.emitted = before.emitted)
    (hdue : self.log.due codec src = message?.toList) (hordered : self.log.Ordered)
    (hla : ∀ j, src = .upstream j → ¬ self.log.WasHeld j →
      ∀ i m, (.upstream i, m) ∈ self.log.emitted → i < j)
    (hqd : Queued self.log self.writer self.outbound) {given : WsRelay γ τ × Bool × List τ}
    (hgv : given = match message? with
      | none => (self, true, holding.toList)
      | some msg => self.push ⟨msg, holding, src⟩) :
    Given codec self live given.1 given.2.1 := by
  cases message? with
  | none =>
    obtain rfl := hgv
    refine ⟨rfl, rfl, rfl, ⟨_, rfl⟩, Or.inl rfl, ?_, hordered, hqd⟩
    refine Accounts.mono ?_ fun hl => (Bool.and_eq_true_iff.mp hl).1
    rw [hemt]
    exact htold.silent hgro hdue
  | some msg =>
    cases hal : self.writer.alive with
    | true =>
      obtain rfl : given = ({ self with
        outbound := self.outbound ++ [⟨msg, holding, src⟩]
        log := self.log.emit src msg }, true, []) := by
        rw [hgv]
        simp only [push, hal, if_true]
      refine ⟨rfl, rfl, rfl, ⟨_, rfl⟩, Or.inl rfl, ?_, hordered.emit hla,
        hqd.emit ⟨msg, holding, src⟩⟩
      rw [← hemt] at htold
      rw [hal, Bool.and_true]
      exact htold.give hgro hdue
    | false =>
      obtain rfl : given = (self, false, holding.toList) := by
        rw [hgv]
        simp [push, hal]
      refine ⟨rfl, rfl, rfl, ⟨_, rfl⟩, Or.inr hal, ?_, hordered, hqd⟩
      rw [← hemt] at htold
      rw [hal, Bool.and_false]
      exact htold.lost hgro

theorem Given.front {live ok : Bool} (h : Given codec self live given ok)
    (hnum : Numbered codec self.log self.deliveries live) :
    Front codec given (live && self.writer.alive) := by
  obtain ⟨es, hlog⟩ := h.log
  refine ⟨h.told, h.ordered, h.queued, ?_⟩
  rw [h.deliveries]
  exact (hnum.congr (by rw [hlog]) (by rw [hlog])).mono
    fun hl => (Bool.and_eq_true_iff.mp hl).1

theorem Front.mono {live live' : Bool} (h : Front codec self live)
    (hl : live' = true → live = true) : Front codec self live' :=
  ⟨h.told.mono hl, h.ordered, h.queued, h.numbered.mono hl⟩

theorem Front.leave {live : Bool} {waiting : Option (ℕ × String)} {outgoing : List (ℕ × Message)}
    {running : Bool} (h : Front codec self live)
    (hsv : Served self.log waiting outgoing running) : Inv codec self.leave := by
  have h' : Front codec self false := h.mono fun hl => (nomatch hl)
  exact ⟨⟨h'.told, h'.ordered, h'.queued, h'.numbered⟩, hsv.leave,
    fun _ _ _ _ _ hp => nomatch hp⟩

theorem Front.goOn {live : Bool} (h : Front codec self live)
    (hl : self.writer.alive = true → live = true) (phase : Phase γ τ)
    (hsv : Served self.log phase.waiting phase.outgoing phase.live)
    (hpsd : ∀ i text parsed req gate, phase = .deciding i text parsed req gate →
      parsed = codec.parseOrNull text) : Inv codec { self with phase := phase } := by
  have h' : Front codec self (phase.live && self.writer.alive) :=
    h.mono fun haf => hl (Bool.and_eq_true_iff.mp haf).2
  exact ⟨⟨h'.told, h'.ordered, h'.queued, h'.numbered⟩, hsv, hpsd⟩

theorem Given.resume {live ok : Bool} (h : Given codec self live given ok)
    (hl : self.writer.alive = true → live = true)
    (hnum : Numbered codec self.log self.deliveries live)
    (hsv : Served self.log none [] true) : Inv codec (given.resume ok) := by
  obtain ⟨es, hlog⟩ := h.log
  have hsv' : Served given.log none [] true := hsv.congr (by rw [hlog]) (by rw [hlog])
    (by rw [hlog])
  cases ok with
  | true =>
    refine (h.front hnum).goOn ?_ .selecting hsv' fun _ _ _ _ _ hp => nomatch hp
    intro hal
    rw [h.writer] at hal
    rw [hl hal, hal]
    rfl
  | false => exact (h.front hnum).leave hsv'

theorem Given.keep {live ok : Bool} (h : Given codec self live given ok)
    (hl : self.live = true → live = true)
    (hnum : Numbered codec self.log self.deliveries live)
    (hsv : Served self.log self.phase.waiting self.phase.outgoing self.phase.live)
    (hpsd : ∀ i text parsed req gate,
      self.phase = .deciding i text parsed req gate → parsed = codec.parseOrNull text)
    (completed : List Bool) : Inv codec { given with completed := completed } := by
  obtain ⟨es, hlog⟩ := h.log
  have hsv' : Served given.log given.phase.waiting given.phase.outgoing given.phase.live := by
    rw [h.phase]
    exact hsv.congr (by rw [hlog]) (by rw [hlog]) (by rw [hlog])
  have hfront : Front codec given (given.phase.live && given.writer.alive) := by
    refine (h.front hnum).mono fun haf => ?_
    rw [h.phase, h.writer] at haf
    rw [hl haf, (Bool.and_eq_true_iff.mp haf).2]
    rfl
  refine ⟨⟨hfront.told, hfront.ordered, hfront.queued, hfront.numbered⟩, hsv', ?_⟩
  intro i text parsed req gate hp
  exact hpsd i text parsed req gate (h.phase ▸ hp)

theorem Front.silent {log : WsLog} {src : Source} {live : Bool} (h : Front codec self live)
    (hgro : Grows (self.log.due codec) (log.due codec) src) (hdue : log.due codec src = [])
    (hemt : log.emitted = self.log.emitted) (hwrt : log.written = self.log.written)
    (hreplies : self.log.replies ⊆ log.replies) {deliveries : List (Delivery γ)}
    (hnum : Numbered codec log deliveries live) :
    Front codec { self with log := log, deliveries := deliveries } live := by
  refine ⟨?_, h.ordered.grow hemt hreplies, h.queued.congr hemt hwrt, hnum⟩
  rw [hemt]
  exact h.told.silent hgro hdue

theorem Front.applyRequest {live : Bool} {i : ℕ} (req : Operation) (d : Decision)
    (hold : Option τ) (h : Front codec self live) (hl : self.writer.alive = true → live = true)
    (hsv : Served self.log (some (i, text)) [] true) :
    Inv codec (self.applyRequest codec i text (codec.parseOrNull text) req d
      hold).relay := by
  obtain ⟨hfr, hnew⟩ := hsv.pending i text rfl
  have hgro : Grows (self.log.due codec) ((self.log.request i d).due codec)
      (.client i) := grows_request d hnew
  have hdue : (self.log.request i d).due codec (.client i) =
      clientDue codec (some d) (.text text) :=
    due_request d hfr hnew
  have hnum : Numbered codec (self.log.request i d) self.deliveries live :=
    h.numbered.congr rfl rfl
  have hsv' := hsv.request d
  cases d with
  | discard =>
    exact (h.silent hgro hdue rfl rfl (List.Subset.refl _) hnum).leave hsv'
  | release =>
    have hfront := h.silent hgro hdue rfl rfl (List.Subset.refl _) hnum
    have hinv := hfront.goOn hl (.sending i (.text text) hold) hsv'
      fun _ _ _ _ _ hp => nomatch hp
    simp only [WsRelay.applyRequest, remember]
    split
    · exact hinv
    · exact ⟨⟨hinv.told, hinv.ordered, hinv.queued, hinv.numbered⟩, hinv.served, hinv.parsed⟩
  | reject msg =>
    have hgv := give { self with log := self.log.request i (.reject msg) }
      (some (.text (codec.rejection (codec.parseOrNull text) msg))) none h.told hgro rfl hdue
      (h.ordered.grow rfl (List.Subset.refl _)) (fun j hsource => nomatch hsource)
      (h.queued.congr rfl rfl) rfl
    exact hgv.resume hl hnum hsv'

theorem Inv.clientFrame (h : Inv codec self) (frame : Message) (ans : Answer γ)
    (hp : self.phase = .selecting) : Inv codec (self.clientFrame codec frame ans).relay := by
  have hsv : Served self.log none [] true := h.served_at hp
  have hl : self.writer.alive = true → self.live = true := live_of hp rfl
  have hgro := self.log.grows_readClient codec frame
  have hnew : self.log.client.length ∉ (self.log.readClient frame).requests.map Prod.fst :=
    hsv.fresh
  have hfront := h.silent hgro (due_unasked hnew) rfl rfl (List.Subset.refl _)
    (h.numbered.congr rfl rfl)
  cases frame with
  | close =>
    exact hfront.leave (hsv.read_frame fun text hfr => nomatch hfr)
  | other frame =>
    exact hfront.goOn hl _ (hsv.read_frame fun text hfr => nomatch hfr)
      fun _ _ _ _ _ hp => nomatch hp
  | text text =>
    cases ans with
    | decided d =>
      exact hfront.applyRequest _ d none hl hsv.read_text
    | pending gate =>
      refine hfront.goOn hl (.deciding self.log.client.length text (codec.parseOrNull text)
        (codec.request .ws (codec.parseOrNull text)) gate) hsv.read_text ?_
      intro i text' parsed req gate' heq
      obtain ⟨-, htext, hpsd, -, -⟩ := Phase.deciding.inj heq
      rw [← hpsd, ← htext]

theorem Front.emitted_lt {live : Bool} (h : Front codec self live) {i : ℕ} {msg : Message}
    (hm : (.upstream i, msg) ∈ self.log.emitted) : i < self.log.upstream.length :=
  read_of_emitted h.told hm

section

variable (h : Inv codec self)

include h

theorem Inv.upstream_raw {frame : Message}
    (hsv : Served self.log none [] true) (hl : self.writer.alive = true → self.live = true)
    (hdue : upstreamDue codec none frame = [frame])
    (hfr : ∀ text, frame = .text text → codec.parse text = none) :
    Inv codec (pushOrLeave { self with log := self.log.readUpstream frame }
      ⟨frame, none, .upstream self.log.upstream.length⟩).relay := by
  have hla : (self.log.readUpstream frame).upstream[self.log.upstream.length]? = some frame :=
    getElem?_concat_length
  have hnew : self.log.upstream.length ∉ self.log.replies.map Prod.fst :=
    fun hm => h.numbered.fresh (mem_append_left _ hm)
  have hgv := give { self with log := self.log.readUpstream frame } (some frame) none h.told
    (self.log.grows_readUpstream codec frame) rfl
    (by
      have hlk : (self.log.readUpstream frame).replies.lookup self.log.upstream.length = none :=
        lookup_none hnew
      simp only [WsLog.due, hla, hlk]
      exact hdue)
    (h.ordered.grow rfl (List.Subset.refl _))
    (by
      intro j hsource hfree i msg hm
      rw [← Source.upstream.inj hsource]
      exact h.emitted_lt hm)
    (h.queued.congr rfl rfl) rfl
  exact hgv.resume hl (h.numbered.read hfr) (hsv.congr rfl rfl rfl)

theorem Inv.upstream_decided {parsed : Json} (d : Decision)
    (hsv : Served self.log none [] true) (hl : self.writer.alive = true → self.live = true)
    (hpa : codec.parse text = some parsed) {given : WsRelay γ τ × Bool × List τ}
    (hgv : given = deliver codec { self with
      log := (self.log.readUpstream (.text text)).reply self.log.upstream.length d true }
      d self.log.upstream.length text parsed none) :
    Inv codec (given.1.resume given.2.1) := by
  have hla : (self.log.readUpstream (.text text)).upstream[self.log.upstream.length]? =
      some (.text text) := getElem?_concat_length
  have hnew : self.log.upstream.length ∉
      (self.log.readUpstream (.text text)).replies.map Prod.fst :=
    fun hm => h.numbered.fresh (mem_append_left _ hm)
  have hgro := (self.log.grows_readUpstream codec (.text text)).trans
    (grows_reply d true hla hpa hnew)
  have hgive := give { self with
      log := (self.log.readUpstream (.text text)).reply self.log.upstream.length d true }
    (deliverMessage codec d text parsed) none h.told hgro rfl
    (due_reply d true hla hpa hnew)
    (h.ordered.grow rfl (subset_append_left _ _))
    (by
      intro j hsource hfree i msg hm
      rw [← Source.upstream.inj hsource]
      exact h.emitted_lt hm)
    (h.queued.congr rfl rfl) hgv
  have hnum := h.numbered.read_reply d (by rw [hpa]; rfl)
  exact hgive.resume hl hnum (hsv.congr rfl rfl rfl)

theorem Inv.maps (pending : AList fun _ : String => Operation × Option UInt64)
    (subscriptions : AList fun _ : UInt64 => Operation) :
    Inv codec { self with pending := pending, subscriptions :=
    subscriptions } :=
  ⟨⟨h.told, h.ordered, h.queued, h.numbered⟩, h.served, h.parsed⟩

theorem Inv.upstreamFrame (frame : Message) (ans : Answer γ) (hp : self.phase = .selecting) :
    Inv codec (self.upstreamFrame codec frame ans).relay := by
  have hsv : Served self.log none [] true := h.served_at hp
  have hl : self.writer.alive = true → self.live = true := live_of hp rfl
  have hla : (self.log.readUpstream frame).upstream[self.log.upstream.length]? = some frame :=
    getElem?_concat_length
  have hgro := self.log.grows_readUpstream codec frame
  cases frame with
  | close =>
    have hfront := h.silent hgro (by simp [WsLog.due, hla, upstreamDue]) rfl rfl
      (List.Subset.refl _) (h.numbered.read fun text hfr => by cases hfr)
    exact hfront.leave (hsv.congr rfl rfl rfl)
  | other frame =>
    exact h.upstream_raw hsv hl rfl fun text hfr => by cases hfr
  | text text =>
    cases hpa : codec.parse text with
    | none =>
      simp only [WsRelay.upstreamFrame, hpa]
      refine h.upstream_raw hsv hl (by simp [upstreamDue, hpa]) ?_
      rintro text' heq
      rwa [← Message.text.inj heq]
    | some parsed =>
      obtain ⟨pending, subscriptions, hmaps⟩ := responseOperation_frame codec
        { self with log := self.log.readUpstream (.text text) } parsed
      simp only [WsRelay.upstreamFrame, hpa, hmaps]
      cases ans with
      | decided d =>
        exact (h.maps pending subscriptions).upstream_decided d hsv hl hpa rfl
      | pending gate =>
        have hnew : self.log.upstream.length ∉
            (self.log.readUpstream (.text text)).replies.map Prod.fst :=
          fun hm => h.numbered.fresh (mem_append_left _ hm)
        have hfront := h.silent hgro (due_undecided hla hpa hnew) rfl rfl
          (List.Subset.refl _) (h.numbered.read_hold gate hpa)
        have hinv := hfront.goOn hl self.phase (by rw [hp]; exact hsv.congr rfl rfl rfl)
          h.parsed
        exact hinv.maps pending subscriptions

theorem Inv.delivered {task : ℕ} {delivery : Delivery γ} (d : Decision) (holding : τ)
    (ht : self.deliveries[task]? = some delivery) :
    Inv codec (self.delivered codec delivery (self.deliveries.eraseIdx task) d holding).relay := by
  have hm := mem_of_getElem? ht
  obtain ⟨hfr, hpa⟩ := h.numbered.held delivery hm
  have hnew := h.numbered.undecided hm
  have hgv := give { self with
      deliveries := self.deliveries.eraseIdx task
      log := self.log.reply delivery.index d false }
    (deliverMessage codec d delivery.text delivery.parsed) (some holding) h.told
    (grows_reply d false hfr hpa hnew) rfl
    (due_reply d false hfr hpa hnew)
    (h.ordered.grow rfl (subset_append_left _ _))
    (by
      -- nothing is promised about the place of a frame that was held
      intro j hsource hfree
      rw [← Source.upstream.inj hsource] at hfree
      exact absurd ⟨d, mem_concat_self⟩ hfree)
    (h.queued.congr rfl rfl) rfl
  exact hgv.keep id (h.numbered.reply d ht) (h.served.congr rfl rfl rfl) h.parsed _

theorem Inv.step {ev : WsEvent γ τ} {next : WsStep γ τ} (hst : self.step codec ev = some next) :
    Inv codec next.relay := by
  cases step_change hst with
  | clientFrame frame ans hp => exact h.clientFrame frame ans hp
  | upstreamFrame frame ans hp => exact h.upstreamFrame frame ans hp
  | @decided i text parsed req gate d holding hp =>
    rw [h.parsed i text parsed req gate hp]
    exact h.toFront.applyRequest req d _ (live_of hp rfl) (h.served_at hp)
  | serverSent hp =>
    refine ⟨⟨h.told.mono ?_, h.ordered, ⟨h.queued.inOrder, h.queued.complete⟩,
      (h.numbered.mono ?_).congr rfl rfl⟩, (h.served_at hp).sent, fun _ _ _ _ _ heq => nomatch heq⟩ <;>
    · intro hl
      rw [WsRelay.live, hp]
      exact hl
  | received hwr hqu =>
    have hqd := h.queued
    rw [hwr, hqu] at hqd
    refine ⟨⟨h.told.mono ?_, h.ordered, hqd.receive, h.numbered.mono ?_⟩, h.served,
      h.parsed⟩ <;>
    · intro hl
      rw [WsRelay.live, hwr]
      exact hl
  | written hwr =>
    have hqd := h.queued
    rw [hwr] at hqd
    refine ⟨⟨h.told.mono ?_, h.ordered, hqd.write, (h.numbered.mono ?_).congr rfl rfl⟩,
      h.served.congr rfl rfl rfl, h.parsed⟩ <;>
    · intro hl
      rw [WsRelay.live, hwr]
      exact hl
  | delivered d holding hl ht => exact h.delivered d holding ht
  | @joined task ok hp =>
    cases ok with
    | true => exact h.quiet ⟨rfl, Or.inl hp.symm, Or.inl ⟨rfl, rfl⟩, Or.inl rfl⟩
    | false => exact h.quiet (quiet_leave rfl rfl rfl rfl rfl)
  | writerJoined hp hwr => exact h.quiet ⟨rfl, Or.inr rfl, Or.inr rfl, Or.inl rfl⟩
  | aborted =>
    refine h.quiet ?_
    simp only [abort]
    split <;> exact quiet_leave rfl rfl rfl rfl rfl
  | deliveryDropped hl ht =>
    exact h.quiet ⟨rfl, Or.inl rfl, Or.inl ⟨rfl, rfl⟩,
      Or.inr ⟨eraseIdx_sublist _ _, by simpa using hl⟩⟩
  | writeFailed | writerDropped => exact h.quiet ⟨rfl, Or.inl rfl, Or.inr rfl, Or.inl rfl⟩
  | _ => exact h.quiet (quiet_leave rfl rfl rfl rfl rfl)

end

/-! ### Whole connections -/

/-- The relay is one that a run passes through. -/
inductive Reachable (codec : Codec) : WsRelay γ τ → Prop where
  | init : Reachable codec WsRelay.init
  | step {self : WsRelay γ τ} {event : WsEvent γ τ} {after : WsStep γ τ}
      (hself : Reachable codec self) (hstep : self.step codec event = some after) :
      Reachable codec after.relay

theorem Reachable.inv (h : Reachable codec self) : Inv codec self := by
  induction h with
  | init => exact inv_init
  | step _ hst ih => exact ih.step hst

/-- The writer's own steps, its sends to the client going through. -/
inductive Writes (codec : Codec) : WsRelay γ τ → WsRelay γ τ → Prop where
  | refl (self : WsRelay γ τ) : Writes codec self self
  | step {self after : WsRelay γ τ} {event : WsEvent γ τ} {next : WsStep γ τ}
      (hevent : event = .received ∨ event = .written true)
      (hstep : self.step codec event = some next) (hrest : Writes codec next.relay after) :
      Writes codec self after

theorem writes_queue (queue : List (Outbound τ)) :
    ∀ (self : WsRelay γ τ), self.phase.live = true → self.writer = .receiving →
      self.outbound = queue → Inv codec self →
      ∃ after, Writes codec self after ∧ after.log.written = self.log.emitted := by
  induction queue with
  | nil =>
    intro self _ hwr hqu hinv
    have hall := hinv.queued.complete (by rw [hwr]; rfl)
    refine ⟨self, .refl self, ?_⟩
    rw [hall, hwr, hqu]
    exact (append_nil _).symm
  | cons e rest ih =>
    intro self hp hwr hqu hinv
    -- the entry is taken, then written; then the writer receives again
    let taken : WsRelay γ τ := { self with writer := .sending e, outbound := rest }
    let wrote : WsRelay γ τ :=
      { taken with writer := .receiving, log := self.log.write e.source e.message }
    have htake : self.step codec .received = some ⟨taken, [], []⟩ := by
      simp [step, hp, hwr, hqu, taken]
    have hwrite : taken.step codec (.written true) = some ⟨wrote, [], e.holding.toList⟩ := by
      simp [step, hp, taken, wrote]
    have hinv' : Inv codec wrote :=
      (hinv.step htake).step hwrite
    obtain ⟨after, haf, hwrt⟩ := ih wrote hp rfl rfl hinv'
    exact ⟨after, .step (Or.inl rfl) htake (.step (Or.inr rfl) hwrite haf), hwrt⟩

/-- **Nothing on the queue waits for the gate.** While the connection lives, the writer alone can
bring everything on the queue to the client. -/
theorem Inv.writes (h : Inv codec self) (hl : self.live = true) :
    ∃ after, Writes codec self after ∧ after.log.written = self.log.emitted := by
  have hp := live_phase hl
  have hal := live_writer hl
  cases hwr : self.writer with
  | receiving => exact writes_queue self.outbound self hp hwr rfl h
  | sending e =>
    let wrote : WsRelay γ τ :=
      { self with writer := .receiving, log := self.log.write e.source e.message }
    have hwrite : self.step codec (.written true) = some ⟨wrote, [], e.holding.toList⟩ := by
      simp [WsRelay.step, hp, hwr, wrote]
    have hinv' : Inv codec wrote := h.step hwrite
    obtain ⟨after, haf, hwrt⟩ := writes_queue self.outbound wrote hp rfl rfl hinv'
    exact ⟨after, .step (Or.inr rfl) hwrite haf, hwrt⟩
  | finished | gone => rw [hwr] at hal; cases hal

/-! ### What the client and the server get -/

/-- The messages the client gets, or is going to get, on account of a frame. -/
def toClient (self : WsRelay γ τ) (source : Source) : List Message := about source self.log.emitted

/-- The messages the server gets, or is getting, on account of a client frame. -/
def toServer (self : WsRelay γ τ) (index : ℕ) : List Message :=
  about index (self.log.forwarded ++ self.phase.outgoing)

/-- What a decision makes of a reply. -/
def Decided (codec : Codec) (text : String) (parsed : Json) (messages : List Message) :
    Decision → Prop
  | .release => messages = [.text text]
  | .discard => messages = []
  | .reject message =>
    if (subscription parsed).isSome then messages = []
    else ∃ object, messages = [.text (codec.render object)] ∧
      object.field "id" = parsed.field "id" ∧
      (object.field "error").field "message" = .string message

/-- A connection hands over what the decisions say. -/
structure Delivers (codec : Codec) (relay : WsRelay γ τ) : Prop where
  replies : (relay.log.replies.map Prod.fst).Nodup
  atMostOnce : ∀ index, (relay.toClient (.upstream index)).length ≤ 1
  inOrder : relay.log.written <+: relay.log.emitted
  /-- a frame that is not JSON reaches the client as it is -/
  raw : relay.live = true → ∀ index text, relay.log.upstream[index]? = some (.text text) →
    codec.parse text = none → relay.toClient (.upstream index) = [.text text]
  /-- a reply or a notification reaches the client as it was decided -/
  decided : relay.live = true → ∀ index text parsed decision immediate,
    relay.log.upstream[index]? = some (.text text) → codec.parse text = some parsed →
    (index, decision, immediate) ∈ relay.log.replies →
    Decided codec text parsed (relay.toClient (.upstream index)) decision
  /-- one that is not decided is held, and the client got nothing yet -/
  held : relay.live = true → ∀ index text parsed, relay.log.upstream[index]? = some (.text text) →
    codec.parse text = some parsed → index ∉ relay.log.replies.map Prod.fst →
    relay.toClient (.upstream index) = [] ∧
      ∃ task ∈ relay.deliveries, task.index = index ∧ task.text = text
  /-- a frame decided on the spot comes after all frames that were there before it -/
  order : relay.log.emitted.Pairwise fun first second => ∀ i j, first.1 = .upstream i →
    second.1 = .upstream j → ¬ relay.log.WasHeld j → i < j
  /-- held frames do not keep the others from the client -/
  progress : relay.live = true →
    ∃ after, Writes codec relay after ∧ after.log.written = relay.log.emitted
  requests : (relay.log.requests.map Prod.fst).Nodup
  /-- the server gets a request as it is, and once, exactly when it was let through -/
  released : relay.phase.live = true → ∀ index text,
    relay.log.client[index]? = some (.text text) →
    ((index, .release) ∈ relay.log.requests → relay.toServer index = [.text text]) ∧
    ((index, .release) ∉ relay.log.requests → relay.toServer index = [])
  /-- also when the connection is over it got nothing else -/
  forwarded : ∀ index text, relay.log.client[index]? = some (.text text) →
    ∀ message, (index, message) ∈ relay.log.forwarded →
      message = .text text ∧ (index, .release) ∈ relay.log.requests ∧
      (about index relay.log.forwarded).length = 1

theorem decided_deliver (codec : Codec) (text : String) (parsed : Json) (d : Decision) :
    Decided codec text parsed (deliverMessage codec d text parsed).toList d := by
  cases d with
  | release => rfl
  | discard => rfl
  | reject msg =>
    simp only [Decided, deliverMessage]
    split
    · rfl
    · exact ⟨Codec.rejectionObject parsed msg, rfl, rejectionObject_id parsed msg, rfl⟩

theorem owed_text {log : WsLog} (hnd : (log.requests.map Prod.fst).Nodup) {i : ℕ}
    (hget : log.client[i]? = some (.text text)) :
    ((i, .release) ∈ log.requests → log.owed i = [.text text]) ∧
    ((i, .release) ∉ log.requests → log.owed i = []) := by
  constructor
  · intro hm
    simp [owed, hget, serverDue, lookup_of_mem hnd hm]
  · intro hnot
    simp only [owed, hget, Option.elim_some, serverDue]
    split
    · rename_i hlk
      exact absurd (mem_of_lookup hlk) hnot
    · rfl

/-- **A proxied connection is faithful.** Whatever the order of frames, decisions and tasks. -/
theorem reachable_delivers {self : WsRelay γ τ} (h : Reachable codec self) :
    Delivers codec self := by
  have hinv := h.inv
  have hreplies : (self.log.replies.map Prod.fst).Nodup :=
    (nodup_append.mp hinv.numbered.once).1
  have hexact : self.live = true → ∀ index, self.toClient (.upstream index) =
      self.log.due codec (.upstream index) := by
    intro hlive index
    have htold := hinv.told
    rw [hlive] at htold
    exact htold.exact _
  constructor
  case replies => exact hreplies
  case atMostOnce =>
    intro index
    exact (hinv.told.sublist _).length_le.trans (self.log.due_length codec _)
  case inOrder => exact hinv.queued.inOrder
  case raw =>
    intro hlive index text hget hparse
    rw [hexact hlive index]
    simp [WsLog.due, hget, upstreamDue, hparse]
  case decided =>
    intro hlive index text parsed decision immediate hget hparse hmem
    have hdue : self.log.due codec (.upstream index) =
        (deliverMessage codec decision text parsed).toList := by
      simp [WsLog.due, hget, upstreamDue, hparse, lookup_of_mem hreplies hmem]
    rw [hexact hlive index, hdue]
    exact decided_deliver codec text parsed decision
  case held =>
    intro hlive index text parsed hget hparse hnew
    refine ⟨?_, ?_⟩
    · rw [hexact hlive index]
      exact due_undecided hget hparse hnew
    · have hin := hinv.numbered.complete hlive index text hget (by rw [hparse]; rfl)
      obtain ⟨task, htask, hindex⟩ := mem_map.mp ((mem_append.mp hin).resolve_left hnew)
      have htext := (hinv.numbered.held task htask).1
      rw [hindex, hget] at htext
      exact ⟨task, htask, hindex, (Message.text.inj (Option.some.inj htext)).symm⟩
  case order => exact hinv.ordered
  case progress => exact hinv.writes
  case requests => exact hinv.served.once
  case released =>
    intro hlive index text hget
    have hhanded := hinv.served.handed
    rw [hlive] at hhanded
    rw [toServer, hhanded.exact index]
    exact owed_text hinv.served.once hget
  case forwarded =>
    intro index text hget message hmem
    have hsub : (about index self.log.forwarded).Sublist (self.log.owed index) :=
      (about_sublist index (sublist_append_left _ _)).trans (hinv.served.handed.sublist index)
    have hin := mem_about.mpr hmem
    obtain ⟨hyes, hno⟩ := owed_text hinv.served.once hget
    by_cases hreleased : (index, .release) ∈ self.log.requests
    · rw [hyes hreleased] at hsub
      refine ⟨mem_singleton.mp (hsub.subset hin), hreleased, ?_⟩
      exact Nat.le_antisymm hsub.length_le (length_pos_of_mem hin)
    · rw [hno hreleased] at hsub
      exact absurd (hsub.subset hin) not_mem_nil

def connection (codec : Codec) (events : List (WsEvent γ τ)) : WsRelay γ τ :=
  events.foldl (fun self event => ((self.step codec event).map WsStep.relay).getD self) init

theorem reachable_connection (codec : Codec) (evs : List (WsEvent γ τ)) :
    Reachable codec (connection codec evs) := by
  induction evs using List.reverseRecOn with
  | nil => exact .init
  | append_singleton evs ev ih =>
    simp only [connection, foldl_append, foldl_cons] at ih ⊢
    cases hst : WsRelay.step codec _ ev with
    | none => exact ih
    | some after => exact .step ih hst

def sampleCodec : Codec where
  parse text :=
    if text = "reply" then some (.object [("id", .number (.unsigned 7))])
    else if text = "note" then
      some (.object [("params", .object [("subscription", .number (.unsigned 3))])])
    else none
  render value := if (value.get? "error").isSome then "error" else "value"
  decodeTransaction _ := none

/-- A client asks and is let through; the reply is held, a notification and a raw frame pass it, and
the reply is rejected. -/
def sampleEvents : List (WsEvent Unit Unit) :=
  [.clientFrame (.text "ask") (.decided .release), .serverSent true,
    .upstreamFrame (.text "reply") (.pending ()),
    .upstreamFrame (.text "note") (.decided .release),
    .upstreamFrame (.text "raw") (.decided .discard),
    .received, .written true, .delivered 0 (.reject "no") (), .received, .written true,
    .received, .written true]

theorem reachable_delivers_sample :
    (connection sampleCodec sampleEvents).live = true ∧
      (connection sampleCodec sampleEvents).log.written =
        [(.upstream 1, .text "note"), (.upstream 2, .text "raw"), (.upstream 0, .text "error")] ∧
      (connection sampleCodec sampleEvents).log.forwarded = [(0, .text "ask")] ∧
      Delivers sampleCodec (connection sampleCodec sampleEvents) :=
  ⟨by decide +kernel, by decide +kernel, by decide +kernel,
    reachable_delivers (reachable_connection sampleCodec sampleEvents)⟩

end WsRelay

end Redsuite
