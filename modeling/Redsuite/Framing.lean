import Mathlib.Data.List.TakeDrop

/-!
# Frames in a stream

A reader takes frames out of a stream that comes in pieces.
-/

namespace Redsuite.Framing

open List

variable {β ρ : Type}

/-- What is found at the front of a buffer. -/
inductive Found (β ρ : Type) : Type where
  | more
  | refused
  | frame (value : ρ) (rest : List β)
  deriving DecidableEq

/-- The reads a connection has to offer: a failed read is `none`, an empty one is the end. -/
abbrev Reads (β : Type) : Type := List (Option (List β))

/-- The next frame, with the reads that are left and the bytes in the buffer. -/
def next (scan : List β → Found β ρ) (reads : Reads β) (buffer : List β) :
    Option (ρ × Reads β × List β) :=
  match scan buffer with
  | .frame value rest => some (value, reads, rest)
  | .refused => none
  | .more =>
    match reads with
    | some (byte :: chunk) :: reads => next scan reads (buffer ++ byte :: chunk)
    | _ => none

/-- Up to so many frames, one after another, until there is none. -/
def frames (scan : List β → Found β ρ) : ℕ → Reads β → List β → List ρ × Reads β × List β
  | 0, reads, buffer => ([], reads, buffer)
  | calls + 1, reads, buffer =>
    match next scan reads buffer with
    | none => ([], reads, buffer)
    | some (value, reads, buffer) =>
      let (values, reads, buffer) := frames scan calls reads buffer
      (value :: values, reads, buffer)

/-- The bytes of a frame: the scan finds it whatever follows, and waits for its last byte. -/
structure IsFrame (scan : List β → Found β ρ) (raw : List β) (value : ρ) : Prop where
  complete : ∀ rest, scan (raw ++ rest) = .frame value rest
  patient : ∀ front back, raw = front ++ back → back ≠ [] → scan front = .more

variable {scan : List β → Found β ρ} {raw : List β} {v : ρ}

variable {reads : Reads β} {buffer : List β}

theorem next_found {rest : List β} (h : scan buffer = .frame v rest) :
    next scan reads buffer = some (v, reads, rest) := by
  unfold next
  rw [h]

theorem next_more {chunk : List β} (h : scan buffer = .more) (hne : chunk ≠ []) :
    next scan (some chunk :: reads) buffer = next scan reads (buffer ++ chunk) := by
  obtain ⟨byte, chunk, rfl⟩ := exists_cons_of_ne_nil hne
  rw [next, h]

theorem next_refused (h : scan buffer = .refused) : next scan reads buffer = none := by
  unfold next
  rw [h]

theorem next_stuck (h : scan buffer = .more)
    (hrds : ∀ byte c later, reads ≠ some (byte :: c) :: later) :
    next scan reads buffer = none := by
  unfold next
  rw [h]
  rcases reads with _ | ⟨_ | _ | ⟨byte, c⟩, later⟩
  · rfl
  · rfl
  · rfl
  · exact absurd rfl (hrds byte c later)

/-- **A frame is read from any pieces**, and the bytes after it are kept. -/
theorem IsFrame.read (h : IsFrame scan raw v) {reads : List (List β)} {rest : List β}
    (hne : ∀ chunk ∈ reads, chunk ≠ []) (hstr : buffer ++ reads.flatten = raw ++ rest) :
    ∃ (later : List (List β)) (buffer' : List β),
      next scan (reads.map some) buffer = some (v, later.map some, buffer') ∧
      (∀ chunk ∈ later, chunk ≠ []) ∧ buffer' ++ later.flatten = rest := by
  induction reads generalizing buffer with
  | nil =>
    rw [flatten_nil, append_nil] at hstr
    refine ⟨[], rest, next_found ?_, hne, append_nil rest⟩
    rw [hstr]
    exact h.complete rest
  | cons chunk reads ih =>
    have hchk := hne chunk mem_cons_self
    have hrds := fun c hc => hne c (mem_cons_of_mem chunk hc)
    -- the buffer holds the whole frame, or only a part of it
    rcases append_eq_append_iff.mp hstr with ⟨back, hraw, hback⟩ | ⟨front, hbuf, hfront⟩
    · by_cases hem : back = []
      · subst hem
        rw [append_nil] at hraw
        rw [nil_append] at hback
        refine ⟨chunk :: reads, [], next_found ?_, hne, hback⟩
        rw [← hraw, ← append_nil raw]
        exact h.complete []
      · have hmore := h.patient buffer back hraw hem
        rw [flatten_cons, ← append_assoc] at hstr
        obtain ⟨later, buffer', hnx, hlat, hr⟩ := ih hrds hstr
        exact ⟨later, buffer', (next_more hmore hchk).trans hnx, hlat, hr⟩
    · refine ⟨chunk :: reads, front, next_found ?_, hne, hfront.symm⟩
      rw [hbuf]
      exact h.complete front

/-- **Frames are read one by one from any pieces of their stream.** After some calls the rest of the
stream is in the buffer and in the reads to come. -/
theorem frames_any_split (hsr : scan [] = .more) {stream : List (List β × ρ)}
    (hframes : ∀ frame ∈ stream, IsFrame scan frame.1 frame.2) (calls : ℕ) {reads : List (List β)}
    (hne : ∀ c ∈ reads, c ≠ [])
    (hstr : buffer ++ reads.flatten = stream.flatMap Prod.fst) :
    ∃ (later : List (List β)) (buffer' : List β), frames scan calls (reads.map some) buffer =
        ((stream.map Prod.snd).take calls, later.map some, buffer') ∧
      buffer' ++ later.flatten = (stream.drop calls).flatMap Prod.fst := by
  induction calls generalizing stream reads buffer with
  | zero => exact ⟨reads, buffer, rfl, hstr⟩
  | succ calls ih =>
    cases stream with
    | nil =>
      -- the stream is over: no byte is left to read
      obtain ⟨rfl, hrds⟩ := append_eq_nil_iff.mp hstr
      obtain rfl : reads = [] := by
        refine eq_nil_iff_forall_not_mem.mpr fun c hm => hne c hm ?_
        exact flatten_eq_nil_iff.mp hrds c hm
      refine ⟨[], [], ?_, rfl⟩
      rw [map_nil, frames, next_stuck hsr (by simp)]
      rfl
    | cons frame stream =>
      rw [flatMap_cons] at hstr
      obtain ⟨later, buffer', hnx, hlat, hr⟩ :=
        (hframes frame mem_cons_self).read hne hstr
      obtain ⟨last, buffer'', hframes', hr'⟩ :=
        ih (fun other hm => hframes other (mem_cons_of_mem frame hm)) hlat hr
      refine ⟨last, buffer'', ?_, hr'⟩
      rw [frames, hnx]
      simp only [hframes']
      rfl

end Redsuite.Framing
