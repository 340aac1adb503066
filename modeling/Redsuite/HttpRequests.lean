import Redsuite.Framing
import Redsuite.HttpBody

/-!
# Reading the requests of a connection

`read_request` of `core/src/netfault/http.rs` with its own loops, and the calls `serve_http` makes
of it.
-/

namespace Redsuite.Http

open List Utf8 Framing

open Framing (Reads Found)

/-- What `read_request` returns: the texts of the head and of the body. -/
abbrev Texts : Type := List Char × List Char

/-- The inner loop of `read_request`: reads until the buffer has so many bytes. -/
def fill (length : ℕ) (reads : Reads UInt8) (buffer : List UInt8) :
    Option (Reads UInt8 × List UInt8) :=
  if buffer.length < length then
    match reads with
    | some (byte :: chunk) :: reads => fill length reads (buffer ++ byte :: chunk)
    | _ => none
  else some (reads, buffer)

/-- `read_request`, with the reads that are left and the bytes that stay in the buffer. -/
def readRequest (reads : Reads UInt8) (buffer : List UInt8) :
    Option (Texts × Reads UInt8 × List UInt8) :=
  match findTerminator buffer with
  | some split =>
    let head := lossy (buffer.take split)
    if contentLength head > maxBody then none
    else
      let bodyStart := split + 4
      match fill (bodyStart + contentLength head) reads buffer with
      | none => none
      | some (reads, buffer) =>
        let body := lossy ((buffer.drop bodyStart).take (contentLength head))
        some ((head, body), reads, buffer.drop (bodyStart + contentLength head))
  | none =>
    if buffer.length > maxHead then none
    else
      match reads with
      | some (byte :: chunk) :: reads => readRequest reads (buffer ++ byte :: chunk)
      | _ => none

/-- The calls of `read_request` in the loop of `serve_http`, up to the first that returns nothing.
-/
def readRequests : ℕ → Reads UInt8 → List UInt8 → List Texts × Reads UInt8 × List UInt8
  | 0, reads, buffer => ([], reads, buffer)
  | calls + 1, reads, buffer =>
    match readRequest reads buffer with
    | none => ([], reads, buffer)
    | some (texts, reads, buffer) =>
      let (requests, reads, buffer) := readRequests calls reads buffer
      (texts :: requests, reads, buffer)

/-! ### A scan of the whole buffer -/

def scan (buffer : List UInt8) : Found UInt8 Texts :=
  match readHead buffer with
  | .head => .more
  | .body _ _ _ => .more
  | .refused => .refused
  | .request _ head body rest => .frame (head, body) rest

theorem scan_nil : scan [] = .more := by decide

variable {buf : List UInt8} {split : ℕ}

theorem scan_open (h : findTerminator buf = none) :
    scan buf = if buf.length > maxHead then .refused else .more := by
  simp only [scan, readHead, h]
  by_cases hlong : buf.length > maxHead
  · simp only [if_pos hlong]
  · simp only [if_neg hlong]

theorem scan_refused (h : findTerminator buf = some split)
    (hlen : contentLength (lossy (buf.take split)) > maxBody) :
    scan buf = .refused := by
  simp only [scan, readHead, h, if_pos hlen]

theorem scan_headed (h : findTerminator buf = some split)
    (hlen : ¬ contentLength (lossy (buf.take split)) > maxBody) :
    scan buf = let head := lossy (buf.take split)
      if buf.length < split + 4 + contentLength head then .more
      else .frame (head, lossy ((buf.drop (split + 4)).take (contentLength head)))
        (buf.drop (split + 4 + contentLength head)) := by
  simp only [scan, readHead, h, if_neg hlen, readBody]
  by_cases hsho : buf.length < split + 4 + contentLength (lossy (buf.take split))
  · simp only [if_pos hsho]
  · simp only [if_neg hsho]

theorem next_scan_headed (reads : Reads UInt8) {head : List Char}
    (h : findTerminator buf = some split) (hhead : lossy (buf.take split) = head)
    (hlen : ¬ contentLength head > maxBody) :
    Framing.next scan reads buf =
      match fill (split + 4 + contentLength head) reads buf with
      | none => none
      | some (reads, buf) =>
        some ((head, lossy ((buf.drop (split + 4)).take (contentLength head))), reads,
          buf.drop (split + 4 + contentLength head)) := by
  have hscan := scan_headed h (hhead ▸ hlen)
  rw [hhead] at hscan
  fun_induction fill with
  | case1 buf hsho byte c reads ih =>
    rw [if_pos hsho] at hscan
    rw [next_more hscan (cons_ne_nil byte c)]
    -- the head stays where it is
    have hle : split ≤ buf.length :=
      Nat.le_trans (Nat.le_add_right split 4) (findTerminator_le h)
    have hsp := findTerminator_append (byte :: c) h
    have hhead' : lossy ((buf ++ byte :: c).take split) = head := by
      rw [take_append_of_le_length hle]
      exact hhead
    refine ih hsp hhead' ?_
    rw [scan_headed hsp (hhead' ▸ hlen), hhead']
  | case2 reads buf hsho hrds =>
    rw [if_pos hsho] at hscan
    exact next_stuck hscan hrds
  | case3 reads buf hlong =>
    rw [if_neg hlong] at hscan
    exact next_found hscan

/-- **`read_request` finds what a scan after every read would find.** -/
theorem readRequest_eq (reads : Reads UInt8) (buf : List UInt8) :
    readRequest reads buf = Framing.next scan reads buf := by
  fun_induction readRequest with
  | case1 reads buf split hsp head hlen =>
    exact (next_refused (scan_refused hsp hlen)).symm
  | case2 reads buf split hsp head hlen bodyStart hfill
  | case3 reads buf split hsp head hlen bodyStart later filled hfill body =>
    rw [next_scan_headed reads hsp rfl hlen, hfill]
  | case4 reads buf hsp hlong =>
    have hscan := scan_open hsp
    rw [if_pos hlong] at hscan
    exact (next_refused hscan).symm
  | case5 buf hsp hsho byte c reads ih =>
    have hscan := scan_open hsp
    rw [if_neg hsho] at hscan
    rw [next_more hscan (cons_ne_nil byte c)]
    exact ih
  | case6 reads buf hsp hsho hrds =>
    have hscan := scan_open hsp
    rw [if_neg hsho] at hscan
    exact (next_stuck hscan hrds).symm

theorem readRequests_eq (calls : ℕ) (reads : Reads UInt8) (buf : List UInt8) :
    readRequests calls reads buf = frames scan calls reads buf := by
  induction calls generalizing reads buf with
  | zero => rfl
  | succ calls ih =>
    rw [readRequests, frames, readRequest_eq]
    cases Framing.next scan reads buf with
    | none => rfl
    | some found => simp only [ih]

/-! ### Requests within the limits -/

/-- A request on the wire, whose head and body are no longer than the proxy allows. -/
structure WireRequest where
  head : List UInt8
  body : List UInt8
  ends : findTerminator (head ++ terminator) = some head.length
  announced : contentLength (lossy head) = body.length
  /-- with the empty line it is not too long -/
  headFits : head.length + terminator.length ≤ maxHead
  bodyFits : contentLength (lossy head) ≤ maxBody

namespace WireRequest

def raw (self : WireRequest) : List UInt8 := self.head ++ (terminator ++ self.body)

def texts (self : WireRequest) : Texts := (lossy self.head, lossy self.body)

variable (self : WireRequest)

theorem isRequest : IsRequest self.raw self.head self.body where
  parts := rfl
  ends := by
    rw [raw, ← append_assoc]
    exact findTerminator_append self.body self.ends
  announced := self.announced
  fits := self.announced ▸ self.bodyFits

theorem raw_length : self.raw.length = self.head.length + 4 + self.body.length := by
  simp only [raw, length_append, terminator, length_cons, length_nil]
  omega

theorem scan_part {front back : List UInt8} (h : self.raw = front ++ back) (hback : back ≠ []) :
    scan front = .more := by
  have hends : findTerminator (front ++ back) = some self.head.length := h ▸ self.isRequest.ends
  cases hsp : findTerminator front with
  | none =>
    -- with the whole head the part would have its end
    have hsho : front.length < self.head.length + 4 := by
      refine Nat.lt_of_not_le fun hle => ?_
      rw [findTerminator_front hends hle] at hsp
      exact Option.some_ne_none _ hsp
    have hfits : self.head.length + 4 ≤ maxHead := self.headFits
    rw [scan_open hsp, if_neg (by omega)]
  | some split =>
    obtain rfl : split = self.head.length :=
      Option.some.inj ((findTerminator_append back hsp).symm.trans hends)
    have hhead : front.take self.head.length = self.head := by
      have hle : self.head.length ≤ front.length :=
        Nat.le_trans (Nat.le_add_right _ 4) (findTerminator_le hsp)
      rw [← take_append_of_le_length hle, ← h, raw, take_left]
    have hlength : front.length < self.head.length + 4 + self.body.length := by
      have hlen := congrArg List.length h
      have hpos := length_pos_of_ne_nil hback
      rw [raw_length, length_append] at hlen
      omega
    rw [scan_headed hsp (by rw [hhead]; exact Nat.not_lt.mpr self.bodyFits)]
    dsimp only
    rw [hhead, self.announced, if_pos hlength]

theorem isFrame : IsFrame scan self.raw self.texts where
  complete rest := by rw [scan, HttpRelay.readHead_request self.isRequest]; rfl
  patient _ _ := self.scan_part

end WireRequest

/-- **Requests are read alike from any pieces of their stream.** For every list of requests within
the limits and every way to cut their bytes into reads that are not empty, the calls of
`read_request` on the connection return, one by one, the texts of each head and of the bytes its
head announced, and then nothing. After any number of calls the bytes of the requests that were
not returned yet are all there, in the buffer and in the reads to come. The texts of the bodies are
the bytes that were sent exactly when each of these bodies is valid UTF-8. -/
theorem readRequests_any_split (requests : List WireRequest) {reads : List (List UInt8)}
    (hne : ∀ chunk ∈ reads, chunk ≠ [])
    (hstream : reads.flatten = requests.flatMap WireRequest.raw) (calls : ℕ) :
    ∃ (later : List (List UInt8)) (buffer : List UInt8),
      readRequests calls (reads.map some) [] =
        ((requests.map WireRequest.texts).take calls, later.map some, buffer) ∧
      buffer ++ later.flatten = (requests.drop calls).flatMap WireRequest.raw ∧
      (((requests.map WireRequest.texts).take calls).map (fun texts => Utf8.encode texts.2) =
        (requests.take calls).map WireRequest.body ↔
          ∀ request ∈ requests.take calls, Utf8.Valid request.body) := by
  have hstream' : [] ++ reads.flatten =
      (requests.map fun request => (request.raw, request.texts)).flatMap Prod.fst := by
    rw [nil_append, hstream, flatMap_map]
  obtain ⟨later, buffer, hframes, hrest⟩ := frames_any_split scan_nil (by
    intro frame hmem
    obtain ⟨request, -, rfl⟩ := mem_map.mp hmem
    exact request.isFrame) calls hne hstream'
  rw [map_map] at hframes
  rw [← map_drop, flatMap_map] at hrest
  refine ⟨later, buffer, (readRequests_eq calls _ []).trans hframes, hrest, ?_⟩
  rw [← map_take, map_map, map_inj_left]
  exact forall₂_congr fun request _ => encode_lossy_iff request.body

/-- A request with the text `hi`. -/
def sampleText : WireRequest :=
  ⟨Proxy.sampleHead "2", [104, 105], by decide +kernel, by decide +kernel, by decide +kernel,
    by decide +kernel⟩

/-- A request whose body is no text. -/
def sampleByte : WireRequest :=
  ⟨Proxy.sampleHead "1", [0xFF], by decide +kernel, by decide +kernel, by decide +kernel,
    by decide +kernel⟩

/-- The two in a row, cut inside the first empty line and between the bytes of the first body. -/
def sampleReads : List (List UInt8) :=
  [sampleText.raw.take 25, (sampleText.raw.drop 25).take 3,
    (sampleText.raw ++ sampleByte.raw).drop 28]

theorem readRequests_any_split_two :
    ∃ (later : List (List UInt8)) (buffer : List UInt8),
      readRequests 1 (sampleReads.map some) [] = ([sampleText.texts], later.map some, buffer) ∧
      buffer ++ later.flatten = sampleByte.raw ∧
      Utf8.encode sampleText.texts.2 = sampleText.body := by
  obtain ⟨later, buffer, hread, hlater, hbodies⟩ :=
    readRequests_any_split [sampleText, sampleByte] (by decide +kernel : ∀ chunk ∈ sampleReads, _)
      (by decide +kernel) 1
  have hvalid : ∀ request ∈ [sampleText], Utf8.Valid request.body :=
    forall_mem_singleton.mpr ⟨"hi".toList, by decide +kernel⟩
  exact ⟨later, buffer, hread, hlater, (cons.inj (hbodies.mpr hvalid)).1⟩

/-- A body that is no text is not returned as it was sent: one byte was announced and sent, and
the text that is returned for it has three other ones. -/
theorem readRequests_replacement :
    sampleByte.body = [0xFF] ∧ contentLength (lossy sampleByte.head) = 1 ∧
      ∃ head body, readRequests 1 [some sampleByte.raw] [] = ([(head, body)], [], []) ∧
        Utf8.encode body = [0xEF, 0xBF, 0xBD] :=
  ⟨rfl, by decide +kernel, lossy sampleByte.head, [Utf8.replacement], by decide +kernel,
    by decide +kernel⟩

end Redsuite.Http
