import Redsuite.Machine
import Mathlib.Data.List.Range
import Mathlib.Order.Nat

/-!
# Leases of ports

A model of `PortLease` in `core/src/topology/process.rs`.
-/

namespace Redsuite.Ports

open List

/-- `PORT_BAND`. -/
def BAND_START : ℕ := 20000

def BAND_END : ℕ := 30000

def BAND_ATTEMPTS : ℕ := 512

/-- A call of `claim`, with the ports that are left. -/
structure Attempt where
  want : ℕ
  firsts : List ℕ
  taken : ℕ

def Attempt.ports (self : Attempt) : List ℕ :=
  match self.firsts with
  | [] => []
  | first :: _ => range' first self.taken

/-- `PortLease`. -/
structure PortLease where
  holders : List ℕ
  claims : List ℕ
  /-- the call of `claim`, if there is one -/
  attempt : Option Attempt
  /-- how many ports were wanted, and what `claim` has returned; not in the source -/
  returned : List (ℕ × Option ℕ)

def PortLease.default : PortLease := ⟨[], [], none, []⟩

def PortLease.locks (self : PortLease) : List ℕ :=
  self.claims ++ self.attempt.elim [] Attempt.ports

/-- What can happen next. -/
inductive Event : Type where
  | new
  /-- `claim` begins, with a random start -/
  | claim (lease want start : ℕ)
  /-- `claim` goes on; the file of the next port cannot be opened or locked at all, or the sockets
  can be bound or not -/
  | next (lease : ℕ) (failed tcp udp : Bool)
  | release (lease : ℕ)
  | dropped (lease : ℕ)

/-- A file is locked: a `try_lock` would block. -/
def Locked (leases : List PortLease) (port : ℕ) : Prop := ∃ lease ∈ leases, port ∈ lease.locks

instance (leases : List PortLease) (port : ℕ) : Decidable (Locked leases port) :=
  inferInstanceAs (Decidable (∃ lease ∈ leases, port ∈ lease.locks))

def PortLease.finish (self : PortLease) (want : ℕ) (result : Option ℕ) : PortLease :=
  { self with attempt := none, returned := self.returned ++ [(want, result)] }

/-- `claim` goes on. -/
def PortLease.advance (self : PortLease) (leases : List PortLease) (attempt : Attempt)
    (failed tcp udp : Bool) : PortLease :=
  let ⟨want, firsts, taken⟩ := attempt
  match firsts with
  | [] => self.finish want none
  | first :: rest =>
    if first + want > BAND_END then { self with attempt := some ⟨want, rest, 0⟩ }
    else if taken = want then
      { self with
        holders := self.holders ++ range' first want
        claims := self.claims ++ range' first want }.finish want (some first)
    else if failed then self.finish want none
    else if Locked leases (first + taken) || !tcp || !udp then
      { self with attempt := some ⟨want, rest, 0⟩ }
    else { self with attempt := some ⟨want, firsts, taken + 1⟩ }

def step (leases : List PortLease) : Event → Option (List PortLease)
  | .new => some (leases ++ [.default])
  | .claim index want start => do
    let lease ← leases[index]?
    guard (lease.attempt.isNone ∧ BAND_START ≤ start ∧ start < BAND_END)
    let firsts := range' start (BAND_END - start) ++ range' BAND_START (start - BAND_START)
    some (leases.set index { lease with
      attempt := some ⟨want, firsts.take BAND_ATTEMPTS, 0⟩ })
  | .next index failed tcp udp => do
    let lease ← leases[index]?
    let attempt ← lease.attempt
    some (leases.set index (lease.advance leases attempt failed tcp udp))
  | .release index => do
    let lease ← leases[index]?
    guard (lease.attempt.isNone = true)
    some (leases.set index { lease with holders := [] })
  | .dropped index => do
    guard (index < leases.length)
    some (leases.set index .default)

/-- What holds of a lease. -/
structure PortLease.Sound (lease : PortLease) : Prop where
  returned : ∀ want first, (want, some first) ∈ lease.returned →
    BAND_START ≤ first ∧ first + want ≤ BAND_END ∧ ∀ port ∈ range' first want, port ∈ lease.claims
  claimed : ∀ port ∈ lease.claims, ∃ want first, (want, some first) ∈ lease.returned ∧
    port ∈ range' first want
  firsts : ∀ attempt ∈ lease.attempt, ∀ first ∈ attempt.firsts, BAND_START ≤ first

/-- No two leases hold a port. -/
structure Inv (leases : List PortLease) : Prop where
  sound : ∀ lease ∈ leases, lease.Sound
  apart : ∀ (i j : ℕ) (one two : PortLease), leases[i]? = some one → leases[j]? = some two →
    ∀ port ∈ one.locks, port ∈ two.locks → i = j

variable {leases after : List PortLease} {lease other : PortLease} {index : ℕ}

theorem Inv.set (h : Inv leases) (hls : leases[index]? = some lease) (hsd : other.Sound)
    (hlocks : ∀ port ∈ other.locks, port ∈ lease.locks ∨ ¬Locked leases port) :
    Inv (leases.set index other) := by
  have hfree : ∀ j two, j ≠ index → leases[j]? = some two → ∀ port ∈ other.locks,
      port ∉ two.locks := by
    intro j two hne htwo port hport hm
    rcases hlocks port hport with hold | hnew
    · exact hne (h.apart j index two lease htwo hls port hm hold)
    · exact hnew ⟨two, mem_of_getElem? htwo, hm⟩
  refine ⟨fun found hm => ?_, fun i j one two hone htwo port hport hm => ?_⟩
  · rcases mem_or_eq_of_mem_set hm with hm | rfl
    · exact h.sound found hm
    · exact hsd
  · rcases of_getElem?_set hone with ⟨rfl, rfl⟩ | ⟨hi, hold⟩
    · rcases of_getElem?_set htwo with ⟨rfl, -⟩ | ⟨hj, htwo⟩
      · rfl
      · exact absurd hm (hfree j two hj htwo port hport)
    · rcases of_getElem?_set htwo with ⟨rfl, rfl⟩ | ⟨-, htwo⟩
      · exact absurd hport (hfree i one hi hold port hm)
      · exact h.apart i j one two hold htwo port hport hm

theorem PortLease.Sound.failed (h : lease.Sound) (want : ℕ) : (lease.finish want none).Sound := by
  refine ⟨fun wanted first hm => ?_, fun port hport => ?_, fun _ hn => by cases hn⟩
  · rcases mem_concat.mp hm with hm | heq
    · exact h.returned wanted first hm
    · cases heq
  · obtain ⟨wanted, first, hm, hin⟩ := h.claimed port hport
    exact ⟨wanted, first, mem_append_left _ hm, hin⟩

theorem PortLease.Sound.finished (h : lease.Sound) {want first : ℕ} (hsr : BAND_START ≤ first)
    (hend : first + want ≤ BAND_END) (holders : List ℕ) :
    PortLease.Sound ({ lease with
      holders, claims := lease.claims ++ range' first want }.finish want (some first)) := by
  refine ⟨fun wanted other hm => ?_, fun port hport => ?_, fun _ hn => by cases hn⟩
  · rcases mem_concat.mp hm with hm | heq
    · obtain ⟨hlow, hhigh, hall⟩ := h.returned wanted other hm
      exact ⟨hlow, hhigh, fun port hport => mem_append_left _ (hall port hport)⟩
    · cases heq
      exact ⟨hsr, hend, fun port hport => mem_append_right _ hport⟩
  · rcases mem_append.mp hport with hport | hport
    · obtain ⟨wanted, other, hm, hin⟩ := h.claimed port hport
      exact ⟨wanted, other, mem_append_left _ hm, hin⟩
    · exact ⟨want, first, mem_append_right _ (mem_singleton_self _), hport⟩

/-- `claim` goes on: the lease locks what it has locked before, and at most one file more that
nobody had. -/
theorem PortLease.Sound.advance (h : lease.Sound) {attempt : Attempt}
    (hattempt : lease.attempt = some attempt) (failed tcp udp : Bool) :
    (lease.advance leases attempt failed tcp udp).Sound ∧
      ∀ port ∈ (lease.advance leases attempt failed tcp udp).locks,
        port ∈ lease.locks ∨ ¬Locked leases port := by
  obtain ⟨want, firsts, taken⟩ := attempt
  have hfirsts := h.firsts _ hattempt
  have hclaims : ∀ port ∈ lease.claims, port ∈ lease.locks ∨ ¬Locked leases port :=
    fun port hport => .inl (mem_append_left _ hport)
  have hmvs : ∀ rest, (∀ first ∈ rest, BAND_START ≤ first) → ∀ want taken,
      PortLease.Sound { lease with attempt := some ⟨want, rest, taken⟩ } := by
    intro rest hr want taken
    refine ⟨h.returned, h.claimed, fun _ hsome => ?_⟩
    cases hsome
    exact hr
  unfold PortLease.advance
  cases firsts with
  | nil => exact ⟨h.failed want, fun port hport => hclaims port (by simpa [locks, finish] using hport)⟩
  | cons first rest =>
    have hr : ∀ other ∈ rest, BAND_START ≤ other :=
      fun other hm => hfirsts other (mem_cons_of_mem _ hm)
    have hgv : ∀ port ∈ PortLease.locks { lease with attempt := some ⟨want, rest, 0⟩ },
        port ∈ lease.locks ∨ ¬Locked leases port := by
      intro port hport
      refine hclaims port ?_
      cases rest <;> simpa [locks, Attempt.ports] using hport
    dsimp only
    split
    · exact ⟨hmvs rest hr want 0, hgv⟩
    · rename_i hend
      split
      · rename_i htk
        subst htk
        refine ⟨h.finished (hfirsts first mem_cons_self) (Nat.not_lt.mp hend) _,
          fun port hport => ?_⟩
        left
        simpa [locks, finish, hattempt, Attempt.ports] using hport
      · split
        · exact ⟨h.failed want, fun port hport => hclaims port (by simpa [locks, finish] using hport)⟩
        · split
          · exact ⟨hmvs rest hr want 0, hgv⟩
          · rename_i hfree
            refine ⟨hmvs (first :: rest) hfirsts want (taken + 1), fun port hport => ?_⟩
            simp only [locks, Option.elim_some, Attempt.ports, range'_concat, mem_append,
              mem_singleton, Nat.one_mul, hattempt] at hport ⊢
            rcases hport with hport | hport | rfl
            · exact .inl (.inl hport)
            · exact .inl (.inr hport)
            · refine .inr fun hlocked => hfree ?_
              simp [hlocked]

theorem Inv.step (h : Inv leases) {ev : Event} (hst : step leases ev = some after) :
    Inv after := by
  cases ev with
  | new =>
    cases hst
    refine ⟨fun found hm => ?_, fun i j one two hone htwo port hport hm => ?_⟩
    · rcases mem_concat.mp hm with hm | rfl
      · exact h.sound found hm
      · exact ⟨by rintro _ _ ⟨⟩, by rintro _ ⟨⟩, by rintro _ ⟨⟩⟩
    · rcases of_getElem?_concat hone with ⟨-, rfl⟩ | ⟨-, hone⟩
      · cases hport
      · rcases of_getElem?_concat htwo with ⟨-, rfl⟩ | ⟨-, htwo⟩
        · cases hm
        · exact h.apart i j one two hone htwo port hport hm
  | claim index want start =>
    obtain ⟨lease, hls, hst⟩ := Option.bind_eq_some_iff.mp hst
    obtain ⟨⟨hn, hlow, -⟩, hst⟩ := of_guard hst
    cases hst
    have hsd := h.sound lease (mem_of_getElem? hls)
    refine h.set hls ⟨hsd.returned, hsd.claimed, fun _ hsome first hfst => ?_⟩
      fun port hport => .inl ?_
    · cases hsome
      rcases mem_append.mp (mem_of_mem_take hfst) with hm | hm
      · exact Nat.le_trans hlow (mem_range'_1.mp hm).1
      · exact (mem_range'_1.mp hm).1
    · refine mem_append_left _ ?_
      revert hport
      generalize (range' start (BAND_END - start) ++ range' BAND_START (start - BAND_START)).take
        BAND_ATTEMPTS = firsts
      cases firsts <;> simp [PortLease.locks, Attempt.ports]
  | next index failed tcp udp =>
    obtain ⟨lease, hls, hst⟩ := Option.bind_eq_some_iff.mp hst
    obtain ⟨a, hattempt, hst⟩ := Option.bind_eq_some_iff.mp hst
    cases hst
    obtain ⟨hsd, hlocks⟩ :=
      (h.sound lease (mem_of_getElem? hls)).advance hattempt failed tcp udp
    exact h.set hls hsd hlocks
  | release index =>
    obtain ⟨lease, hls, hst⟩ := Option.bind_eq_some_iff.mp hst
    obtain ⟨-, hst⟩ := of_guard hst
    cases hst
    have hsd := h.sound lease (mem_of_getElem? hls)
    exact h.set hls ⟨hsd.returned, hsd.claimed, hsd.firsts⟩ fun _ => .inl
  | dropped index =>
    obtain ⟨hlt, hst⟩ := of_guard hst
    cases hst
    exact h.set (getElem?_eq_getElem hlt) ⟨by rintro _ _ ⟨⟩, by rintro _ ⟨⟩, by rintro _ ⟨⟩⟩
      (by rintro _ ⟨⟩)

/-- **No port is claimed twice.** In every run of any number of leases, two that are live never claim
the same port, whether their sockets are still open or not; a block that `claim` has returned is a
run of as many ports of the band as were wanted, all claimed by the lease; and every file that is
locked belongs to such a block, or to a call of `claim` that has not ended. -/
theorem ports_apart (h : Machine.Reachable step [] leases) :
    (∀ (i j : ℕ) (one two : PortLease), leases[i]? = some one → leases[j]? = some two →
      ∀ port ∈ one.claims, port ∈ two.claims → i = j) ∧
    ∀ lease ∈ leases,
      (∀ want first, (want, some first) ∈ lease.returned →
        BAND_START ≤ first ∧ first + want ≤ BAND_END ∧
          ∀ port, first ≤ port → port < first + want → port ∈ lease.claims) ∧
      ∀ port ∈ lease.locks,
        (∃ want first, (want, some first) ∈ lease.returned ∧ first ≤ port ∧ port < first + want) ∨
        ∃ attempt, lease.attempt = some attempt ∧ port ∈ attempt.ports := by
  have hinv : Inv leases := h.induction ⟨by rintro _ ⟨⟩, by rintro _ _ _ _ ⟨⟩⟩
    fun _ _ _ hinv hstep => hinv.step hstep
  refine ⟨fun i j one two hone htwo port hport hmem => hinv.apart i j one two hone htwo port
    (mem_append_left _ hport) (mem_append_left _ hmem), fun lease hlease => ⟨?_, ?_⟩⟩
  · intro want first hmem
    obtain ⟨hlow, hhigh, hall⟩ := (hinv.sound lease hlease).returned want first hmem
    exact ⟨hlow, hhigh, fun port hle hlt => hall port (mem_range'_1.mpr ⟨hle, hlt⟩)⟩
  · intro port hport
    rcases mem_append.mp hport with hport | hport
    · obtain ⟨want, first, hmem, hin⟩ := (hinv.sound lease hlease).claimed port hport
      exact .inl ⟨want, first, hmem, mem_range'_1.mp hin⟩
    · cases hattempt : lease.attempt with
      | none =>
        rw [hattempt] at hport
        cases hport
      | some attempt =>
        rw [hattempt] at hport
        exact .inr ⟨attempt, rfl, hport⟩

def twoLeases : List PortLease :=
  Machine.goOn step [] ([.new, .new, .claim 0 2 29998] ++ replicate 3 (.next 0 false true true) ++
    [.claim 1 1 29998] ++ replicate 4 (.next 1 false true true) ++ [.release 0])

theorem ports_apart_two : twoLeases.map (·.claims) = [[29998, 29999], [20000]] ∧
    ∀ (i j : ℕ) (one two : PortLease), twoLeases[i]? = some one → twoLeases[j]? = some two →
      ∀ port ∈ one.claims, port ∈ two.claims → i = j :=
  ⟨by decide +kernel, (ports_apart (Machine.reachable_goOn _ _)).1⟩

end Redsuite.Ports
