import Redsuite.WsRelay
import Redsuite.Account
import Mathlib.Data.List.Infix

/-!
# What is due on a WebSocket connection

The frames of each side are numbered as they are read.
-/

namespace Redsuite

open List

namespace WsLog

/-- What the client is due for a server frame. -/
def upstreamDue (codec : Codec) (decision : Option Decision) : Message → List Message
  | .text text =>
    match codec.parse text, decision with
    | none, _ => [.text text]
    | some parsed, some decision => (WsRelay.deliverMessage codec decision text parsed).toList
    | some _, none => []
  | .other frame => [.other frame]
  | .close => []

/-- What the client is due for its own frame. -/
def clientDue (codec : Codec) (decision : Option Decision) : Message → List Message
  | .text text =>
    match decision with
    | some (.reject message) => [.text (codec.rejection (codec.parseOrNull text) message)]
    | _ => []
  | _ => []

/-- What the server is due for a client frame. -/
def serverDue (decision : Option Decision) : Message → List Message
  | .text text =>
    match decision with
    | some .release => [.text text]
    | _ => []
  | .other frame => [.other frame]
  | .close => []

/-- What the client is due, by its source. -/
def due (codec : Codec) (log : WsLog) : Source → List Message
  | .upstream index =>
    (log.upstream[index]?).elim [] (upstreamDue codec ((log.replies.lookup index).map Prod.fst))
  | .client index => (log.client[index]?).elim [] (clientDue codec (log.requests.lookup index))

/-- What the server is to get on account of a client frame. -/
def owed (log : WsLog) (index : ℕ) : List Message :=
  (log.client[index]?).elim [] (serverDue (log.requests.lookup index))

theorem upstreamDue_length (codec : Codec) (d : Option Decision) (frame : Message) :
    (upstreamDue codec d frame).length ≤ 1 := by
  cases frame with
  | text text =>
    simp only [upstreamDue]
    split
    · exact le_refl 1
    · cases WsRelay.deliverMessage codec _ text _ <;> simp
    · exact Nat.zero_le 1
  | close => exact Nat.zero_le 1
  | other frame => exact le_refl 1

theorem clientDue_length (codec : Codec) (d : Option Decision) (frame : Message) :
    (clientDue codec d frame).length ≤ 1 := by
  cases frame with
  | text text => simp only [clientDue]; split <;> simp
  | close | other frame => exact Nat.zero_le 1

theorem serverDue_length (d : Option Decision) (frame : Message) :
    (serverDue d frame).length ≤ 1 := by
  cases frame with
  | text text => simp only [serverDue]; split <;> simp
  | close => exact Nat.zero_le 1
  | other frame => exact le_refl 1

theorem due_length (codec : Codec) (log : WsLog) (src : Source) :
    (log.due codec src).length ≤ 1 := by
  cases src with
  | upstream index =>
    simp only [due]
    cases log.upstream[index]? with
    | none => exact Nat.zero_le 1
    | some frame => exact upstreamDue_length codec _ frame
  | client index =>
    simp only [due]
    cases log.client[index]? with
    | none => exact Nat.zero_le 1
    | some frame => exact clientDue_length codec _ frame

theorem owed_length (log : WsLog) (index : ℕ) : (log.owed index).length ≤ 1 := by
  simp only [owed]
  cases log.client[index]? with
  | none => exact Nat.zero_le 1
  | some frame => exact serverDue_length _ frame

/-! ### One frame at a time -/

variable {codec : Codec} {log log' : WsLog}

theorem grows_readUpstream (codec : Codec) (log : WsLog) (frame : Message) :
    Grows (log.due codec) ((log.readUpstream frame).due codec) (.upstream log.upstream.length) := by
  refine ⟨?_, by simp [due]⟩
  intro other hne
  cases other with
  | client index => rfl
  | upstream index =>
    have hi : index ≠ log.upstream.length := fun heq => hne (heq ▸ rfl)
    simp only [due, readUpstream, getElem?_concat_ne frame hi]

theorem grows_readClient (codec : Codec) (log : WsLog) (frame : Message) :
    Grows (log.due codec) ((log.readClient frame).due codec) (.client log.client.length) := by
  refine ⟨?_, by simp [due]⟩
  intro other hne
  cases other with
  | upstream index => rfl
  | client index =>
    have hi : index ≠ log.client.length := fun heq => hne (heq ▸ rfl)
    simp only [due, readClient, getElem?_concat_ne frame hi]

variable {index : ℕ} {text : String} {parsed : Json}

theorem due_undecided (hfr : log.upstream[index]? = some (.text text))
    (hpa : codec.parse text = some parsed) (hnew : index ∉ log.replies.map Prod.fst) :
    log.due codec (.upstream index) = [] := by
  simp [due, hfr, upstreamDue, hpa, lookup_none hnew]

theorem due_reply (d : Decision) (immediate : Bool)
    (hfr : log.upstream[index]? = some (.text text)) (hpa : codec.parse text = some parsed)
    (hnew : index ∉ log.replies.map Prod.fst) :
    (log.reply index d immediate).due codec (.upstream index) =
      (WsRelay.deliverMessage codec d text parsed).toList := by
  simp [due, reply, hfr, upstreamDue, hpa, lookup_concat_self _ hnew]

theorem grows_reply (d : Decision) (immediate : Bool)
    (hfr : log.upstream[index]? = some (.text text)) (hpa : codec.parse text = some parsed)
    (hnew : index ∉ log.replies.map Prod.fst) :
    Grows (log.due codec) ((log.reply index d immediate).due codec) (.upstream index) := by
  refine ⟨?_, due_undecided hfr hpa hnew⟩
  intro other hne
  cases other with
  | client index => rfl
  | upstream other =>
    have hi : other ≠ index := fun heq => hne (heq ▸ rfl)
    simp only [due, reply, lookup_concat_ne log.replies _ hi]

theorem due_unasked (hnew : index ∉ log.requests.map Prod.fst) :
    log.due codec (.client index) = [] := by
  simp only [due, lookup_none hnew]
  cases log.client[index]? with
  | none => rfl
  | some frame => cases frame <;> rfl

theorem due_request (d : Decision) (hfr : log.client[index]? = some (.text text))
    (hnew : index ∉ log.requests.map Prod.fst) :
    (log.request index d).due codec (.client index) =
      clientDue codec (some d) (.text text) := by
  simp [due, request, hfr, lookup_concat_self _ hnew]

theorem grows_request (d : Decision) (hnew : index ∉ log.requests.map Prod.fst) :
    Grows (log.due codec) ((log.request index d).due codec) (.client index) := by
  refine ⟨?_, due_unasked hnew⟩
  intro other hne
  cases other with
  | upstream index => rfl
  | client other =>
    have hi : other ≠ index := fun heq => hne (heq ▸ rfl)
    simp only [due, request, lookup_concat_ne log.requests _ hi]

/-! ### What is owed to the server -/

theorem owes_readClient (log : WsLog) (frame : Message) :
    Grows log.owed (log.readClient frame).owed log.client.length := by
  refine ⟨?_, by simp [owed]⟩
  intro index hi
  simp only [owed, readClient, getElem?_concat_ne frame hi]

theorem owed_unasked (hfr : log.client[index]? = some (.text text))
    (hnew : index ∉ log.requests.map Prod.fst) : log.owed index = [] := by
  simp [owed, hfr, lookup_none hnew, serverDue]

theorem owed_request (d : Decision) (hfr : log.client[index]? = some (.text text))
    (hnew : index ∉ log.requests.map Prod.fst) :
    (log.request index d).owed index = serverDue (some d) (.text text) := by
  simp [owed, request, hfr, lookup_concat_self _ hnew]

theorem owes_request (d : Decision) (hfr : log.client[index]? = some (.text text))
    (hnew : index ∉ log.requests.map Prod.fst) :
    Grows log.owed (log.request index d).owed index := by
  refine ⟨?_, owed_unasked hfr hnew⟩
  intro other hi
  simp only [owed, request, lookup_concat_ne log.requests _ hi]

/-! ### The order on the queue -/

theorem read_of_emitted {live : Bool} (h : Accounts log.emitted (log.due codec) live)
    {msg : Message} (hm : (.upstream index, msg) ∈ log.emitted) :
    index < log.upstream.length := by
  by_contra hge
  have hdue : log.due codec (.upstream index) = [] := by
    simp [due, getElem?_eq_none (Nat.le_of_not_lt hge)]
  have hin := mem_about.mpr hm
  rw [h.nothing hdue] at hin
  exact absurd hin not_mem_nil

/-- The reply was decided after a wait. -/
def WasHeld (log : WsLog) (index : ℕ) : Prop := ∃ decision, (index, decision, false) ∈ log.replies

/-- A frame that was not held is behind no later one. -/
def Ordered (log : WsLog) : Prop :=
  log.emitted.Pairwise fun first second => ∀ i j, first.1 = .upstream i → second.1 = .upstream j →
    ¬ log.WasHeld j → i < j

theorem Ordered.grow (h : Ordered log) (hemt : log'.emitted = log.emitted)
    (hreplies : log.replies ⊆ log'.replies) : Ordered log' := by
  rw [Ordered, hemt]
  refine h.imp ?_
  intro first second hpair i j hfst hsecond hfree
  refine hpair i j hfst hsecond ?_
  rintro ⟨d, hm⟩
  exact hfree ⟨d, hreplies hm⟩

theorem Ordered.emit {src : Source} {msg : Message} (h : Ordered log)
    (hla : ∀ j, src = .upstream j → ¬ log.WasHeld j →
      ∀ i m, (.upstream i, m) ∈ log.emitted → i < j) : Ordered (log.emit src msg) := by
  refine pairwise_append.mpr ⟨h, pairwise_singleton _ _, ?_⟩
  rintro ⟨first, m⟩ hfst second hsecond i j hi hj hfree
  obtain rfl := mem_singleton.mp hsecond
  obtain rfl : first = .upstream i := hi
  exact hla j hj hfree i m hfst

end WsLog

/-! ### Replies and their numbers -/

/-- Every reply has one number, and is held or decided, not both. -/
structure Numbered {γ : Type} (codec : Codec) (log : WsLog) (deliveries : List (Delivery γ))
    (live : Bool) : Prop where
  /-- a delivery task works on the frame of its number -/
  held : ∀ task ∈ deliveries, log.upstream[task.index]? = some (.text task.text) ∧
    codec.parse task.text = some task.parsed
  decided : ∀ reply ∈ log.replies, ∃ text, log.upstream[reply.1]? = some (.text text) ∧
    (codec.parse text).isSome
  /-- no frame is decided twice, or decided and held -/
  once : (log.replies.map Prod.fst ++ deliveries.map Delivery.index).Nodup
  complete : live = true → ∀ index text, log.upstream[index]? = some (.text text) →
    (codec.parse text).isSome →
    index ∈ log.replies.map Prod.fst ++ deliveries.map Delivery.index

namespace Numbered

variable {γ : Type} {codec : Codec} {log log' : WsLog} {deliveries : List (Delivery γ)}
  {live live' : Bool}

section

variable (h : Numbered codec log deliveries live)

include h

theorem mono (hl : live' = true → live = true) : Numbered codec log deliveries live' :=
  ⟨h.held, h.decided, h.once, fun hl' => h.complete (hl hl')⟩

theorem drop {deliveries' : List (Delivery γ)} (hsub : deliveries'.Sublist deliveries) :
    Numbered codec log deliveries' false := by
  refine ⟨fun task hm => h.held task (hsub.subset hm), h.decided, ?_, fun h => nomatch h⟩
  exact h.once.sublist (List.Sublist.append_left (hsub.map _) _)

theorem fresh : log.upstream.length ∉ log.replies.map Prod.fst ++ deliveries.map Delivery.index :=
    by
  intro hm
  rcases mem_append.mp hm with hrep | ht
  · obtain ⟨reply, hrep, heq⟩ := mem_map.mp hrep
    obtain ⟨text, hfr, -⟩ := h.decided reply hrep
    rw [heq, getElem?_eq_none (le_refl _)] at hfr
    cases hfr
  · obtain ⟨task, ht, heq⟩ := mem_map.mp ht
    have hfr := (h.held task ht).1
    rw [heq, getElem?_eq_none (le_refl _)] at hfr
    cases hfr

theorem read {frame : Message} (hfr : ∀ text, frame = .text text → codec.parse text = none) :
    Numbered codec (log.readUpstream frame) deliveries live := by
  refine ⟨fun task hm => ⟨getElem?_append_of (h.held task hm).1 _, (h.held task hm).2⟩, ?_,
    h.once, ?_⟩
  · intro reply hm
    obtain ⟨text, hget, hpa⟩ := h.decided reply hm
    exact ⟨text, getElem?_append_of hget _, hpa⟩
  · intro hl index text hget hpa
    rcases of_getElem?_concat hget with ⟨-, hla⟩ | ⟨-, hold⟩
    · rw [hfr text hla.symm] at hpa
      exact absurd hpa (by decide)
    · exact h.complete hl index text hold hpa

end

variable {text : String}

theorem read_text {deliveries' : List (Delivery γ)} (h : Numbered codec log deliveries live)
    (hup : log'.upstream = (log.readUpstream (.text text)).upstream)
    (hnums : List.Perm (log'.replies.map Prod.fst ++ deliveries'.map Delivery.index)
      (log.upstream.length :: (log.replies.map Prod.fst ++ deliveries.map Delivery.index)))
    (hheld : ∀ task ∈ deliveries', task ∈ deliveries ∨
      task.index = log.upstream.length ∧ task.text = text ∧ codec.parse text = some task.parsed)
    (hdcd : ∀ reply ∈ log'.replies, reply ∈ log.replies ∨
      reply.1 = log.upstream.length ∧ (codec.parse text).isSome) :
    Numbered codec log' deliveries' live := by
  have hla : log'.upstream[log.upstream.length]? = some (.text text) := by
    rw [hup]
    exact getElem?_concat_length
  refine ⟨?_, ?_, ?_, ?_⟩
  · intro task hm
    rcases hheld task hm with hold | ⟨hi, htext, hpa⟩
    · rw [hup]
      exact ⟨getElem?_append_of (h.held task hold).1 _, (h.held task hold).2⟩
    · rw [hi, htext]
      exact ⟨hla, hpa⟩
  · intro reply hm
    rcases hdcd reply hm with hold | ⟨hi, hpa⟩
    · obtain ⟨text', hget, hpa⟩ := h.decided reply hold
      rw [hup]
      exact ⟨text', getElem?_append_of hget _, hpa⟩
    · exact ⟨text, hi ▸ hla, hpa⟩
  · exact hnums.nodup_iff.mpr (nodup_cons.mpr ⟨h.fresh, h.once⟩)
  · intro hl index text' hget hpa
    rw [hnums.mem_iff]
    rw [hup] at hget
    rcases of_getElem?_concat hget with ⟨hi, -⟩ | ⟨-, hold⟩
    · exact hi ▸ mem_cons_self
    · exact mem_cons_of_mem _ (h.complete hl index text' hold hpa)

theorem read_reply (d : Decision) (h : Numbered codec log deliveries live)
    (hpa : (codec.parse text).isSome) :
    Numbered codec ((log.readUpstream (.text text)).reply log.upstream.length d true)
      deliveries live := by
  refine h.read_text rfl ?_ (fun task hm => Or.inl hm) ?_
  · simp only [WsLog.reply, WsLog.readUpstream, map_append, map_cons, map_nil,
      append_assoc]
    exact perm_middle
  · intro reply hm
    rcases mem_concat.mp hm with hold | rfl
    · exact Or.inl hold
    · exact Or.inr ⟨rfl, hpa⟩

theorem read_hold {parsed : Json} (gate : γ) (h : Numbered codec log deliveries live)
    (hpa : codec.parse text = some parsed) :
    Numbered codec (log.readUpstream (.text text))
      (deliveries ++ [⟨log.upstream.length, text, parsed, gate⟩]) live := by
  refine h.read_text rfl ?_ ?_ (fun reply hm => Or.inl hm)
  · simp only [WsLog.readUpstream, map_append, map_cons, map_nil,
      ← append_assoc]
    exact perm_append_singleton _ _
  · intro task hm
    rcases mem_concat.mp hm with hold | rfl
    · exact Or.inl hold
    · exact Or.inr ⟨rfl, rfl, hpa⟩

theorem reply {task : ℕ} {d : Delivery γ} (decision : Decision)
    (h : Numbered codec log deliveries live) (ht : deliveries[task]? = some d) :
    Numbered codec (log.reply d.index decision false) (deliveries.eraseIdx task) live := by
  obtain ⟨hlt, hget⟩ := List.getElem?_eq_some_iff.mp ht
  have hpm : List.Perm
      ((log.replies ++ [(d.index, decision, false)]).map Prod.fst ++
        (deliveries.eraseIdx task).map Delivery.index)
      (log.replies.map Prod.fst ++ deliveries.map Delivery.index) := by
    have hsp : List.Perm (d :: deliveries.eraseIdx task) deliveries :=
      hget ▸ getElem_cons_eraseIdx_perm hlt
    simp only [map_append, map_cons, map_nil, append_assoc,
      singleton_append]
    exact (hsp.map Delivery.index).append_left _
  have hdelivery := h.held d (mem_of_getElem? ht)
  refine ⟨fun other hm => h.held other (mem_of_mem_eraseIdx hm), ?_,
    hpm.nodup_iff.mpr h.once, ?_⟩
  · intro reply hm
    rcases mem_concat.mp hm with hold | rfl
    · exact h.decided reply hold
    · exact ⟨d.text, hdelivery.1, by rw [hdelivery.2]; rfl⟩
  · intro hl index text hget hpa
    exact hpm.mem_iff.mpr (h.complete hl index text hget hpa)

theorem undecided {d : Delivery γ} (h : Numbered codec log deliveries live)
    (hm : d ∈ deliveries) : d.index ∉ log.replies.map Prod.fst := by
  intro hrep
  have hdisjoint := (nodup_append.mp h.once).2.2
  exact hdisjoint _ hrep _ (mem_map_of_mem hm) rfl

theorem congr (h : Numbered codec log deliveries live) (hup : log'.upstream = log.upstream)
    (hreplies : log'.replies = log.replies) : Numbered codec log' deliveries live := by
  refine ⟨?_, ?_, ?_, ?_⟩
  · rw [hup]; exact h.held
  · rw [hup, hreplies]; exact h.decided
  · rw [hreplies]; exact h.once
  · rw [hup, hreplies]; exact h.complete

end Numbered

/-! ### The way to the server -/

/-- The request that waits for the gate, by its number and text. -/
def Phase.waiting {γ τ : Type} : Phase γ τ → Option (ℕ × String)
  | .deciding index text _ _ _ => some (index, text)
  | _ => none

def Phase.outgoing {γ τ : Type} : Phase γ τ → List (ℕ × Message)
  | .sending index message _ => [(index, message)]
  | _ => []

/-- Every request has one number, and is decided or waits; the server gets what it is owed. -/
structure Served (log : WsLog) (waiting : Option (ℕ × String)) (outgoing : List (ℕ × Message))
    (live : Bool) : Prop where
  /-- the waiting request is the frame of its number, and is not decided -/
  pending : ∀ index text, waiting = some (index, text) →
    log.client[index]? = some (.text text) ∧ index ∉ log.requests.map Prod.fst
  asked : ∀ request ∈ log.requests, ∃ text, log.client[request.1]? = some (.text text)
  once : (log.requests.map Prod.fst).Nodup
  complete : live = true → ∀ index text, log.client[index]? = some (.text text) →
    index ∈ log.requests.map Prod.fst ∨ waiting = some (index, text)
  handed : Accounts (log.forwarded ++ outgoing) log.owed live

namespace Served

variable {log : WsLog} {waiting : Option (ℕ × String)} {outgoing : List (ℕ × Message)}
  {live : Bool}

theorem leave (h : Served log waiting outgoing live) : Served log none [] false := by
  refine ⟨fun _ _ hn => (nomatch hn), h.asked, h.once, fun hl => (nomatch hl), ?_⟩
  rw [append_nil]
  exact h.handed.retract log.owed_length

theorem read_frame {frame : Message} (h : Served log none [] live)
    (hfr : ∀ text, frame ≠ .text text) :
    Served (log.readClient frame) none
      ((WsLog.serverDue none frame).map fun msg => (log.client.length, msg)) live := by
  refine ⟨fun _ _ hn => (nomatch hn), ?_, h.once, ?_, ?_⟩
  · intro request hm
    obtain ⟨text, hget⟩ := h.asked request hm
    exact ⟨text, getElem?_append_of hget _⟩
  · intro hl index text hget
    rcases of_getElem?_concat hget with ⟨-, hla⟩ | ⟨-, hold⟩
    · exact absurd hla.symm (hfr text)
    · exact h.complete hl index text hold
  · have hgro := log.owes_readClient frame
    have hla : (log.readClient frame).client[log.client.length]? = some frame :=
      getElem?_concat_length
    have hfwd := h.handed
    rw [append_nil] at hfwd
    cases frame with
    | text text => exact absurd rfl (hfr text)
    | close =>
      refine (append_nil _).symm ▸ hfwd.silent hgro ?_
      simp [WsLog.owed, hla, WsLog.serverDue]
    | other frame =>
      refine hfwd.give hgro ?_
      simp [WsLog.owed, hla, WsLog.serverDue]

theorem fresh (h : Served log waiting outgoing live) :
    log.client.length ∉ log.requests.map Prod.fst := by
  intro hm
  obtain ⟨request, hreq, heq⟩ := mem_map.mp hm
  obtain ⟨text, hget⟩ := h.asked request hreq
  rw [heq, getElem?_eq_none (le_refl _)] at hget
  cases hget

theorem read_text {text : String} (h : Served log none [] live) :
    Served (log.readClient (.text text)) (some (log.client.length, text)) [] live := by
  have hla : (log.readClient (.text text)).client[log.client.length]? = some (.text text) :=
    getElem?_concat_length
  have hnew := h.fresh
  refine ⟨?_, ?_, h.once, ?_, ?_⟩
  · rintro index text' heq
    obtain ⟨rfl, rfl⟩ := Prod.mk.inj (Option.some.inj heq)
    exact ⟨hla, hnew⟩
  · intro request hm
    obtain ⟨text', hget⟩ := h.asked request hm
    exact ⟨text', getElem?_append_of hget _⟩
  · intro hl index text' hget
    rcases of_getElem?_concat hget with ⟨hi, hla⟩ | ⟨-, hold⟩
    · obtain rfl := Message.text.inj hla
      exact Or.inr (by rw [hi])
    · rcases h.complete hl index text' hold with hin | hwait
      · exact Or.inl hin
      · cases hwait
  · refine h.handed.silent (log.owes_readClient _) ?_
    exact WsLog.owed_unasked hla hnew

theorem request {index : ℕ} {text : String} (d : Decision)
    (h : Served log (some (index, text)) [] live) :
    Served (log.request index d) none
      ((WsLog.serverDue (some d) (.text text)).map fun msg => (index, msg))
      live := by
  obtain ⟨hfr, hnew⟩ := h.pending index text rfl
  have hkeys : (log.request index d).requests.map Prod.fst =
      log.requests.map Prod.fst ++ [index] := by
    simp [WsLog.request]
  refine ⟨fun _ _ hn => (nomatch hn), ?_, ?_, ?_, ?_⟩
  · intro request hm
    rcases mem_concat.mp hm with hold | rfl
    · exact h.asked request hold
    · exact ⟨text, hfr⟩
  · rw [hkeys]
    exact nodup_append.mpr ⟨h.once, nodup_singleton _, by
      rintro a ha b hb rfl
      exact hnew (mem_singleton.mp hb ▸ ha)⟩
  · intro hl other text' hget
    rw [hkeys]
    rcases h.complete hl other text' hget with hin | hwait
    · exact Or.inl (mem_append_left _ hin)
    · obtain ⟨rfl, -⟩ := Prod.mk.inj (Option.some.inj hwait)
      exact Or.inl (mem_concat_self)
  · have hgro := WsLog.owes_request d hfr hnew
    have howed := WsLog.owed_request d hfr hnew
    have hfwd := h.handed
    rw [append_nil] at hfwd
    cases d with
    | release => exact hfwd.give hgro howed
    | discard | reject msg => exact (append_nil _).symm ▸ hfwd.silent hgro howed

theorem sent {index : ℕ} {msg : Message} (h : Served log none [(index, msg)] live) :
    Served (log.forward index msg) none [] live := by
  refine ⟨fun _ _ hn => (nomatch hn), h.asked, h.once, h.complete, ?_⟩
  rw [append_nil]
  exact h.handed

theorem congr {log' : WsLog} (h : Served log waiting outgoing live)
    (hcli : log'.client = log.client) (hreqs : log'.requests = log.requests)
    (hfwd : log'.forwarded = log.forwarded) : Served log' waiting outgoing live := by
  have howed : log'.owed = log.owed := by
    funext index
    simp only [WsLog.owed, hcli, hreqs]
  refine ⟨?_, ?_, ?_, ?_, ?_⟩
  · rw [hcli, hreqs]; exact h.pending
  · rw [hcli, hreqs]; exact h.asked
  · rw [hreqs]; exact h.once
  · rw [hcli, hreqs]; exact h.complete
  · rw [hfwd, howed]; exact h.handed

end Served

/-! ### The queue and its writer -/

def Outbound.logged {τ : Type} (entry : Outbound τ) : Source × Message :=
  (entry.source, entry.message)

/-- The writer writes what was emitted, in order. -/
structure Queued {τ : Type} (log : WsLog) (writer : Writer τ) (outbound : List (Outbound τ)) :
    Prop where
  inOrder : log.written <+: log.emitted
  complete : writer.alive = true →
    log.emitted = log.written ++ (writer.entry?.toList ++ outbound).map Outbound.logged

namespace Queued

variable {τ : Type} {log : WsLog} {writer : Writer τ} {outbound : List (Outbound τ)}

theorem emit (e : Outbound τ) (h : Queued log writer outbound) :
    Queued (log.emit e.source e.message) writer (outbound ++ [e]) := by
  refine ⟨h.inOrder.trans (prefix_append _ _), ?_⟩
  intro hal
  have hall := h.complete hal
  simp only [WsLog.emit, hall, map_append, append_assoc]
  rfl

theorem receive {e : Outbound τ} (h : Queued log .receiving (e :: outbound)) :
    Queued log (.sending e) outbound :=
  ⟨h.inOrder, fun _ => h.complete rfl⟩

theorem write {e : Outbound τ} (h : Queued log (.sending e) outbound) :
    Queued (log.write e.source e.message) .receiving outbound := by
  have hall : log.emitted = (log.written ++ [(e.source, e.message)]) ++
      outbound.map Outbound.logged := by
    rw [h.complete rfl]
    simp [Writer.entry?, Outbound.logged]
  exact ⟨⟨_, hall.symm⟩, fun _ => hall⟩

theorem finish {writer' : Writer τ} {outbound' : List (Outbound τ)}
    (h : Queued log writer outbound) (hdead : writer'.alive = false) :
    Queued log writer' outbound' := by
  refine ⟨h.inOrder, fun hal => ?_⟩
  rw [hdead] at hal
  cases hal

theorem congr {log' : WsLog} (h : Queued log writer outbound)
    (hemt : log'.emitted = log.emitted) (hwrt : log'.written = log.written) :
    Queued log' writer outbound := by
  refine ⟨?_, ?_⟩
  · rw [hemt, hwrt]; exact h.inOrder
  · rw [hemt, hwrt]; exact h.complete

end Queued

end Redsuite
