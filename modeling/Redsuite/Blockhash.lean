import Redsuite.Machine
import Mathlib.Order.Nat

/-!
# The cached blockhash

A model of `BlockhashCache` in `core/src/context/transaction.rs`.
-/

namespace Redsuite.Blockhash

open List Option

variable {η : Type}

/-- An answer, with the time its request was sent. -/
structure Answer (η : Type) where
  hash : η
  issued : ℕ
  deriving DecidableEq

/-- Where a call of `get` is. -/
inductive Phase (η : Type) : Type where
  | awaiting (issued : ℕ)
  | returned (answer : Answer η)
  /-- the request has failed, or the call was dropped -/
  | ended
  deriving DecidableEq

/-- A call of `get`. -/
structure Call (η : Type) where
  started : ℕ
  phase : Phase η
  deriving DecidableEq

/-- `BlockhashCache` with its callers. -/
structure BlockhashCache (η : Type) where
  ttl : ℕ
  cached : Option (Answer η × ℕ)
  now : ℕ
  resets : ℕ
  calls : List (Call η)

/-- What can happen next. -/
inductive Event (η : Type) : Type where
  | elapsed (time : ℕ)
  | reset
  /-- a call of `get` begins -/
  | get
  | answered (call : ℕ) (hash : Option η)
  | dropped (call : ℕ)

namespace BlockhashCache

def new (ttl : ℕ) : BlockhashCache η := ⟨ttl, none, 0, 0, []⟩

section

variable (self : BlockhashCache η)

/-- The hash that `get` finds in the cache. -/
def fresh : Option (Answer η) :=
  (self.cached.filter fun (_, since) => self.now - since < self.ttl).map (·.1)

def move (call : ℕ) (next : ℕ → Phase η) : Option (BlockhashCache η) :=
  match self.calls[call]? with
  | some ⟨started, .awaiting issued⟩ =>
    some { self with calls := self.calls.set call ⟨started, next issued⟩ }
  | _ => none

def step : Event η → Option (BlockhashCache η)
  | .elapsed time => some { self with now := self.now + time }
  | .reset => some { self with cached := none, resets := self.resets + 1 }
  | .get =>
    let phase := match self.fresh with
      | some answer => .returned answer
      | none => .awaiting self.resets
    some { self with calls := self.calls ++ [⟨self.resets, phase⟩] }
  | .answered call none | .dropped call => self.move call fun _ => .ended
  | .answered call (some hash) =>
    match self.calls[call]? with
    | some ⟨_, .awaiting issued⟩ =>
      { self with cached := some (⟨hash, issued⟩, self.now) }.move call fun issued =>
        .returned ⟨hash, issued⟩
    | _ => none

/-- The event brings no hash requested before a reset that came since. -/
def timely : Event η → Bool
  | .answered call (some _) =>
    match self.calls[call]? with
    | some ⟨_, .awaiting issued⟩ => issued = self.resets
    | _ => true
  | _ => true

def timelyStep (event : Event η) : Option (BlockhashCache η) :=
  if self.timely event then self.step event else none

end

end BlockhashCache

/-- When the request was issued that a call waits for, or has the answer of. -/
def Phase.issued : Phase η → Option ℕ
  | .awaiting issued => some issued
  | .returned answer => some answer.issued
  | .ended => none

/-- No call has a request that is older than the last reset before it. -/
structure Inv (cache : BlockhashCache η) : Prop where
  cached : ∀ answer since, cache.cached = some (answer, since) → answer.issued = cache.resets
  calls : ∀ call ∈ cache.calls, ∀ issued ∈ call.phase.issued, call.started ≤ issued

variable {cache after : BlockhashCache η}

theorem Inv.fresh (h : Inv cache) {ans : Answer η} (hfr : cache.fresh = some ans) :
    ans.issued = cache.resets := by
  obtain ⟨⟨found, since⟩, hf, rfl⟩ := map_eq_some_iff.mp hfr
  exact h.cached found since (filter_eq_some_iff.mp hf).1

theorem Inv.move (h : Inv cache) {call : ℕ} {next : ℕ → Phase η}
    (hnx : ∀ issued, ∀ other ∈ (next issued).issued, other = issued)
    (hmove : cache.move call next = some after) : Inv after := by
  rw [BlockhashCache.move] at hmove
  split at hmove
  · rename_i started issued hc
    cases hmove
    refine ⟨h.cached, fun other hm when hwhen => ?_⟩
    rcases mem_or_eq_of_mem_set hm with hm | rfl
    · exact h.calls other hm when hwhen
    · rw [hnx issued when hwhen]
      exact h.calls _ (mem_of_getElem? hc) issued rfl
  · cases hmove

theorem Inv.step (h : Inv cache) {ev : Event η} (hst : cache.timelyStep ev = some after) :
    Inv after := by
  rw [BlockhashCache.timelyStep] at hst
  split at hst
  · rename_i htimely
    cases ev with
    | elapsed time =>
      cases hst
      exact ⟨h.cached, h.calls⟩
    | reset =>
      cases hst
      exact ⟨(fun _ _ hcached => by cases hcached), h.calls⟩
    | get =>
      cases hst
      refine ⟨h.cached, fun call hm issued hissued => ?_⟩
      rcases mem_concat.mp hm with hm | rfl
      · exact h.calls call hm issued hissued
      · cases hfr : cache.fresh with
        | none =>
          rw [hfr] at hissued
          exact (some.inj hissued).le
        | some ans =>
          rw [hfr] at hissued
          exact ((h.fresh hfr).symm.trans (some.inj hissued)).le
    | dropped call => exact h.move (fun _ _ hn => by cases hn) hst
    | answered call hash =>
      cases hash with
      | none => exact h.move (fun _ _ hn => by cases hn) hst
      | some hash =>
        simp only [BlockhashCache.step] at hst
        split at hst
        · rename_i started issued hc
          -- only here a hash comes into the cache, and the answer is timely
          have hissued : issued = cache.resets := by
            simpa [BlockhashCache.timely, hc] using htimely
          have hcached : Inv { cache with cached := some (⟨hash, issued⟩, cache.now) } := by
            refine ⟨fun ans since heq => ?_, h.calls⟩
            cases heq
            exact hissued
          refine hcached.move (fun issued other ho => ?_) hst
          exact (some.inj ho).symm
        · cases hst
  · cases hst

/-- **A call that begins after a reset returns no hash from before it**, if no answer comes to a
request that was issued before a reset, once that is done. -/
theorem no_stale_hash {ttl : ℕ}
    (h : Machine.Reachable BlockhashCache.timelyStep (.new ttl) cache) :
    ∀ call ∈ cache.calls, ∀ answer, call.phase = .returned answer →
      call.started ≤ answer.issued := by
  have hinv : Inv cache := h.induction
    ⟨(fun _ _ hcached => by cases hcached), fun _ hmem => by cases hmem⟩
    fun _ _ _ hinv hstep => hinv.step hstep
  intro call hmem answer hphase
  refine hinv.calls call hmem answer.issued ?_
  rw [hphase]
  rfl

def askedAgain : List (Event ℕ) :=
  [.get, .answered 0 (some 1), .reset, .get, .answered 1 (some 2), .elapsed 3, .get]

theorem no_stale_hash_askedAgain :
    let cache := Machine.goOn BlockhashCache.timelyStep (.new 10) askedAgain
    cache.calls[2]? = some ⟨1, .returned ⟨2, 1⟩⟩ ∧
      ∀ call ∈ cache.calls, ∀ answer, call.phase = .returned answer →
        call.started ≤ answer.issued :=
  ⟨by decide, no_stale_hash (Machine.reachable_goOn _ _)⟩

/-- **An answer that comes after the reset is cached.** The next call begins after the reset and
returns the hash of a request from before it. -/
theorem stale_hash_returned :
    ∃ cache : BlockhashCache ℕ, Machine.run BlockhashCache.step (.new 10)
        [.get, .reset, .answered 0 (some 1), .get] = some cache ∧
      cache.calls[1]? = some ⟨1, .returned ⟨1, 0⟩⟩ :=
  ⟨_, rfl, by decide⟩

end Redsuite.Blockhash
