import Redsuite.HttpRounds
import Mathlib.Data.List.Chain

/-!
# What an HTTP connection exchanges

The log of a connection read as one trace.
-/

namespace Redsuite

open List HttpEntry

open Http (Status Response Reading Posted Writing)

/-! ### Reading the trace -/

/-- What counts in the alternation of requests and responses. -/
inductive Mark : Type where
  | request
  | response
  deriving DecidableEq

namespace HttpEntry

def mark : HttpEntry → Option Mark
  | .read _ => some .request
  | .response _ => some .response
  | _ => none

def response? : HttpEntry → Option Response
  | .response answer => some answer
  | _ => none

def raw? : HttpEntry → Option (List UInt8)
  | .read raw => some raw
  | _ => none

/-- An entry and the next: a post comes right after the release of a request, and nowhere else. -/
def Linked (entry next : HttpEntry) : Prop :=
  entry = .decided .request .release ↔ ∃ body, next = .posted body

/-- Every release of a request is followed by its post, and every post has its release. -/
structure Paired (entries : List HttpEntry) : Prop where
  chain : entries.IsChain Linked
  first : ∀ body, entries.head? ≠ some (.posted body)
  last : entries.getLast? ≠ some (.decided .request .release)

theorem Paired.append {left right : List HttpEntry} (hleft : Paired left) (hrt : Paired right) :
    Paired (left ++ right) := by
  refine ⟨?_, ?_, ?_⟩
  · refine isChain_append.mpr ⟨hleft.chain, hrt.chain, ?_⟩
    intro entry he next hnx
    refine ⟨?_, ?_⟩
    · rintro rfl
      exact absurd he hleft.last
    · rintro ⟨body, rfl⟩
      exact absurd hnx (hrt.first body)
  · intro body hhead
    cases left with
    | nil => exact hrt.first body hhead
    | cons entry rest => exact hleft.first body hhead
  · intro hla
    rcases eq_nil_or_concat right with rfl | ⟨init, entry, rfl⟩
    · rw [append_nil] at hla
      exact hleft.last hla
    · rw [getLast?_append_of_ne_nil _ (by simp)] at hla
      exact hrt.last hla

theorem Paired.nil : Paired [] :=
  ⟨isChain_nil, fun _ h => (nomatch h), fun h => (nomatch h)⟩

theorem Paired.flatten {rounds : List (List HttpEntry)} (h : ∀ round ∈ rounds, Paired round) :
    Paired rounds.flatten := by
  induction rounds with
  | nil => exact Paired.nil
  | cons round rounds ih =>
    exact (h round mem_cons_self).append
      (ih fun other hm => h other (mem_cons_of_mem _ hm))

theorem Paired.written : Paired [.written] :=
  ⟨isChain_singleton _, fun _ h => (nomatch h), fun h => (nomatch h)⟩

/-- Nothing was discarded. -/
def Keeps (entries : List HttpEntry) : Prop := ∀ stage, .decided stage .discard ∉ entries

theorem Keeps.append {left right : List HttpEntry} (hleft : Keeps left) (hrt : Keeps right) :
    Keeps (left ++ right) := by
  intro stage hm
  rcases mem_append.mp hm with h | h
  · exact hleft stage h
  · exact hrt stage h

end HttpEntry

namespace Round

open HttpEntry

variable (codec : Codec)

theorem paired (round : Round) : Paired (round.entries codec) := by
  cases round with
  | idle => exact Paired.nil
  | replied raw head body r rejection =>
    cases rejection <;>
    · refine ⟨?_, ?_, ?_⟩ <;>
      simp [entries, answering, posting, opening, response?, Linked]
  | _ =>
    refine ⟨?_, ?_, ?_⟩ <;>
    simp [entries, answering, posting, opening, response?, Linked]

theorem marks_responds {round : Round} (h : round.Responds) :
    (round.entries codec).filterMap mark = [.request, .response] := by
  cases round with
  | rejected raw head body msg => rfl
  | replied raw head body r rejection => cases rejection <;> rfl
  | _ => exact absurd h id

theorem marks_discards {round : Round} (h : round.Discards) :
    (round.entries codec).filterMap mark = [.request] := by
  cases round with
  | dropped raw head body => rfl
  | discarded raw head body r => rfl
  | _ => exact absurd h id

theorem marks (round : Round) :
    (round.entries codec).filterMap mark = [] ∨
      (round.entries codec).filterMap mark = [.request] ∨
      (round.entries codec).filterMap mark = [.request, .response] := by
  cases round with
  | idle => exact Or.inl rfl
  | rejected raw head body msg => exact Or.inr (Or.inr rfl)
  | replied raw head body r rejection => cases rejection <;> exact Or.inr (Or.inr rfl)
  | _ => exact Or.inr (Or.inl rfl)

theorem responses (round : Round) :
    (round.entries codec).filterMap HttpEntry.response? = (round.response? codec).toList := by
  cases round with
  | replied raw head body r rejection => cases rejection <;> rfl
  | _ => rfl

theorem raws (round : Round) :
    ((round.entries codec).filterMap raw?).flatten = round.raw := by
  cases round with
  | idle => rfl
  | replied raw head body r rejection => cases rejection <;> exact append_nil _
  | _ => exact append_nil _

theorem discards (round : Round) :
    Keeps (round.entries codec) ∨ round.Discards ∧
      ∃ front stage, round.entries codec = front ++ [.decided stage .discard] ∧ Keeps front := by
  cases round with
  | idle => exact Or.inl fun stage h => nomatch h
  | asked raw head body => left; intro stage; simp [entries, opening]
  | posted raw head body => left; intro stage; simp [entries, posting, opening]
  | answered raw head body result =>
    left; intro stage; simp [entries, answering, posting, opening]
  | rejected raw head body msg => left; intro stage; simp [entries, opening, response?]
  | replied raw head body result rejection =>
    left
    intro stage
    cases rejection <;> simp [entries, answering, posting, opening, response?]
  | dropped raw head body =>
    exact Or.inr ⟨trivial, _, .request, rfl, fun stage => by simp [opening]⟩
  | discarded raw head body result =>
    exact Or.inr ⟨trivial, _, .response, rfl, fun stage => by simp [answering, posting, opening]⟩

theorem keeps_responds {round : Round} (h : round.Responds) : Keeps (round.entries codec) := by
  rcases round.discards codec with hkp | ⟨hdis, -⟩
  · exact hkp
  · cases round with
    | rejected raw head body msg => exact absurd hdis id
    | replied raw head body r rejection => exact absurd hdis id
    | _ => exact absurd h id

end Round

/-- Everything that happened on a connection, in order. -/
def HttpLog.trace (log : HttpLog) : List HttpEntry := log.past.flatten ++ log.current

def HttpLog.responses (log : HttpLog) : List Response := log.trace.filterMap HttpEntry.response?

/-- The number of bytes that follow its head stands in the head of a response. -/
def Http.Response.Announces (response : Response) : Prop :=
  ∃ split, Http.findTerminator response.bytes = some split ∧
    response.bytes.drop (split + 4) = response.body ∧
    (Http.lines (Utf8.lossy (response.bytes.take split))).findSome?
      (Http.header "content-length") = some (Nat.toDigits 10 response.body.length)

/-- A connection answers requests in order, one by one. -/
structure OneForOne {γ τ : Type} (codec : Codec) (relay : HttpRelay γ τ) : Prop where
  /-- every round of the loop goes through the entries its decisions ask for -/
  rounds : ∃ (rounds : List Round) (round : Round), (∀ other ∈ rounds, other.Responds) ∧
    relay.log.past = (rounds.map fun other => other.entries codec ++ [.written]) ∧
    relay.log.current = round.entries codec ∧
    ∀ other ∈ rounds ++ [round], ∀ raw head body,
      other.request? = some (raw, head, body) → IsRequest raw head body
  /-- the requests are the bytes of the client, in order -/
  stream : relay.log.received =
    (relay.log.trace.filterMap raw?).flatten ++ relay.buffer
  alternate : ∃ n, ∃ open' : List Mark, (open' = [] ∨ open' = [.request]) ∧
    relay.log.trace.filterMap mark =
      (List.replicate n [Mark.request, Mark.response]).flatten ++ open'
  /-- a request is posted right after its release, and no other one is posted -/
  posted : Paired relay.log.trace
  /-- a discard is the last thing that happens, and its request has no response -/
  discarded : ∀ front stage rest, relay.log.trace = front ++ .decided stage .discard :: rest →
    rest = [] ∧ relay.phase = .closed ∧
    ∃ n, relay.log.trace.filterMap mark =
      (List.replicate n [Mark.request, Mark.response]).flatten ++ [.request]
  ended : relay.phase = .closed → ∀ event, relay.step codec event = none
  /-- what was sent are the responses, the last of them perhaps not to its end -/
  sent : relay.log.sent <+: relay.log.responses.flatMap Response.bytes ∧
    (relay.log.responses.take relay.log.past.length).flatMap Response.bytes <+: relay.log.sent
  announces : ∀ response ∈ relay.log.responses, response.Announces

namespace HttpRelay

variable {γ τ : Type} {codec : Codec} {self : HttpRelay γ τ} {rounds : List Round} {round : Round}
  {out : List UInt8}

theorem Logged.trace {log : HttpLog} {buf : List UInt8}
    (h : Logged codec log buf rounds round out) :
    log.trace = (rounds.map fun other => other.entries codec ++ [.written]).flatten ++
      round.entries codec := by
  rw [HttpLog.trace, h.past, h.current]

theorem filterMap_rounds {β : Type} (f : HttpEntry → Option β) (hwrt : f .written = none)
    (rounds : List Round) :
    ((rounds.map fun other => other.entries codec ++ [.written]).flatten).filterMap f =
      rounds.flatMap fun other => (other.entries codec).filterMap f := by
  induction rounds with
  | nil => rfl
  | cons first rest ih => simp [filterMap_append, hwrt, ← ih]

theorem flatten_flatMap {α β : Type} (f : α → List (List β)) (xs : List α) :
    (xs.flatMap f).flatten = xs.flatMap fun item => (f item).flatten := by
  induction xs with
  | nil => rfl
  | cons first rest ih => rw [flatMap_cons, flatMap_cons, flatten_append, ih]

theorem length_responses (h : ∀ other ∈ rounds, other.Responds) :
    rounds.length = (rounds.filterMap (Round.response? codec)).length := by
  induction rounds with
  | nil => rfl
  | cons first rest ih =>
    obtain ⟨resp, hresp⟩ : ∃ resp, first.response? codec = some resp := by
      have hfst := h first mem_cons_self
      cases first with
      | rejected raw head body msg => exact ⟨_, rfl⟩
      | replied raw head body r rejection => cases rejection <;> exact ⟨_, rfl⟩
      | _ => exact absurd hfst id
    rw [filterMap_cons_some hresp, length_cons, length_cons,
      ih fun other hm => h other (mem_cons_of_mem _ hm)]

theorem marks_past (h : ∀ other ∈ rounds, other.Responds) :
    ((rounds.map fun other => other.entries codec ++ [.written]).flatten).filterMap
        mark =
      (List.replicate rounds.length [Mark.request, Mark.response]).flatten := by
  rw [filterMap_rounds _ rfl]
  induction rounds with
  | nil => rfl
  | cons first rest ih =>
    rw [flatMap_cons, Round.marks_responds codec (h first mem_cons_self),
      ih fun other hm => h other (mem_cons_of_mem _ hm)]
    rfl

theorem replicate_pair_succ (n : ℕ) :
    (List.replicate n [Mark.request, Mark.response]).flatten ++ [Mark.request, Mark.response] =
      (List.replicate (n + 1) [Mark.request, Mark.response]).flatten ++ [] := by
  rw [replicate_succ', flatten_append, append_nil]
  rfl

theorem keeps_past (codec : Codec) (h : ∀ other ∈ rounds, other.Responds) :
    HttpEntry.Keeps (rounds.map fun other => other.entries codec ++ [.written]).flatten := by
  intro stage hm
  obtain ⟨es, hes, hin⟩ := mem_flatten.mp hm
  obtain ⟨other, ho, rfl⟩ := mem_map.mp hes
  rcases mem_concat.mp hin with hround | hwrt
  · exact Round.keeps_responds codec (h other ho) stage hround
  · cases hwrt

theorem last_of_append {α : Type} {front rest known : List α} {e last : α}
    (h : front ++ e :: rest = known ++ [last]) : rest = [] ∨ e ∈ known := by
  rcases eq_nil_or_concat rest with hnil | ⟨init, final, rfl⟩
  · exact Or.inl hnil
  · right
    have hsp : (front ++ e :: init) ++ [final] = known ++ [last] := by
      rw [← h]
      simp
    rw [← (append_inj' hsp rfl).1]
    exact mem_append_right _ mem_cons_self

theorem Inv.discarded (h : Inv codec self rounds round out) {front rest : List HttpEntry}
    {stage : Stage} (htrace : self.log.trace = front ++ .decided stage .discard :: rest) :
    rest = [] ∧ self.phase = .closed ∧ round.Discards := by
  have hall := h.logged.trace
  have hpast := keeps_past codec h.logged.responded
  have hm : .decided stage .discard ∈ self.log.trace :=
    htrace ▸ mem_append_right _ mem_cons_self
  rcases round.discards codec with hkp | ⟨hdis, before, stage', hes, hb⟩
  · rw [hall] at hm
    exact absurd hm (hpast.append hkp stage)
  · refine ⟨?_, ?_, hdis⟩
    · rw [hall, hes, ← append_assoc] at htrace
      rcases last_of_append htrace.symm with hnil | hin
      · exact hnil
      · exact absurd hin (hpast.append hb stage)
    · have hfits := h.fits
      cases hp : self.phase with
      | closed => rfl
      | _ =>
        rw [hp] at hfits
        cases round with
        | dropped raw head body => cases hfits
        | discarded raw head body r => cases hfits
        | _ => exact absurd hdis id

/-- **The exchanges of a proxied connection.** -/
theorem reachable_oneForOne (h : Reachable codec self) : OneForOne codec self := by
  obtain ⟨rounds, round, out, hinv⟩ := h.sound
  have hlogged := hinv.logged
  have htrace := hlogged.trace
  have hmarks : self.log.trace.filterMap mark =
      (List.replicate rounds.length [Mark.request, Mark.response]).flatten ++
        (round.entries codec).filterMap mark := by
    rw [htrace, filterMap_append, marks_past hlogged.responded]
  have hresponses : self.log.responses =
      rounds.filterMap (Round.response? codec) ++ (round.response? codec).toList := by
    rw [HttpLog.responses, htrace, filterMap_append, filterMap_rounds _ rfl,
      round.responses codec, filterMap_eq_flatMap_toList]
    simp only [Round.responses]
  constructor
  case rounds =>
    exact ⟨rounds, round, hlogged.responded, hlogged.past, hlogged.current, hlogged.request⟩
  case stream =>
    rw [hlogged.received, htrace, filterMap_append, filterMap_rounds _ rfl,
      flatten_append, round.raws codec, flatten_flatMap]
    simp only [Round.raws]
  case alternate =>
    rw [hmarks]
    rcases round.marks codec with hnone | hrequest | hboth
    · exact ⟨rounds.length, [], Or.inl rfl, by rw [hnone]⟩
    · exact ⟨rounds.length, [.request], Or.inr rfl, by rw [hrequest]⟩
    · exact ⟨rounds.length + 1, [], Or.inl rfl, by rw [hboth]; exact replicate_pair_succ _⟩
  case posted =>
    rw [htrace]
    refine (Paired.flatten ?_).append (round.paired codec)
    intro entries hmem
    obtain ⟨other, -, rfl⟩ := mem_map.mp hmem
    exact (other.paired codec).append Paired.written
  case discarded =>
    intro front stage rest heq
    obtain ⟨hrest, hclosed, hdiscards⟩ := hinv.discarded heq
    refine ⟨hrest, hclosed, rounds.length, ?_⟩
    rw [hmarks, Round.marks_discards codec hdiscards]
  case ended =>
    intro hclosed event
    cases event <;> simp [HttpRelay.step, hclosed]
  case sent =>
    have hcount : self.log.past.length = (rounds.filterMap (Round.response? codec)).length := by
      rw [hlogged.past, length_map, length_responses hlogged.responded]
    have hout := sending_prefix hinv.fits hinv.sending
    rw [hresponses, hcount, take_left, hlogged.sent, flatMap_append]
    refine ⟨(prefix_append_right_inj _).mpr ?_, prefix_append _ _⟩
    cases hresponse : round.response? codec with
    | none => rw [hresponse] at hout; exact hout
    | some response => rw [hresponse] at hout; simpa using hout
  case announces =>
    intro response _
    exact response.announces

def connection (codec : Codec) (events : List (HttpEvent γ τ)) : HttpRelay γ τ :=
  events.foldl (fun self event => ((self.step codec event).map HttpStep.relay).getD self) init

theorem reachable_connection (codec : Codec) (evs : List (HttpEvent γ τ)) :
    Reachable codec (connection codec evs) := by
  induction evs using List.reverseRecOn with
  | nil => exact .init
  | append_singleton evs ev ih =>
    simp only [connection, foldl_append, foldl_cons] at ih ⊢
    cases hst : HttpRelay.step codec _ ev with
    | none => exact ih
    | some after => exact .step ih hst

def sampleCodec : Codec := ⟨fun _ => none, fun _ => "error", fun _ => none⟩

def sampleRequest : List UInt8 := Utf8.encode "POST\r\ncontent-length: 2\r\n\r\n{}".toList

/-- Three requests in one piece: the first is rejected, the second answered, the third discarded. -/
def sampleEvents : List (HttpEvent Unit Unit) :=
  [.received (sampleRequest ++ sampleRequest ++ sampleRequest) (.decided (.reject "no")),
    .wrote (.decided .release), .wrote (.decided .release), .wrote (.decided .release),
    .posted (.ok "pong") (.decided .release),
    .wrote (.decided .release), .wrote (.decided .release), .wrote (.decided .discard)]

theorem reachable_oneForOne_sample :
    (connection sampleCodec sampleEvents).log.trace.filterMap mark =
        [.request, .response, .request, .response, .request] ∧
      (connection sampleCodec sampleEvents).log.responses = [⟨.ok, "error"⟩, ⟨.ok, "pong"⟩] ∧
      OneForOne sampleCodec (connection sampleCodec sampleEvents) :=
  ⟨by decide +kernel, by decide +kernel,
    reachable_oneForOne (reachable_connection sampleCodec sampleEvents)⟩

end HttpRelay

end Redsuite
