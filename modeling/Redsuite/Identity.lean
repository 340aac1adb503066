import Redsuite.Table

/-!
# The identities of private ERs

A model of `identity_for_label` in `core/src/topology/identity.rs`.
-/

namespace Redsuite.Identity

open List Option

variable {κ φ : Type}

/-- The slots of the pool, by label. -/
abbrev Assignments : Type := Table String ℕ

/-- The stack, the JSON library, whose texts are of type `φ`, and `Keypair::try_from`. -/
structure Stack (κ φ : Type) where
  /-- `er_identity_pool` -/
  pool : List (List UInt8)
  keypair : List UInt8 → Option κ
  toString : Assignments → φ
  fromStr : φ → Option Assignments

/-- What is written is read again: the same labels with the same slots, in whatever order they
stand in the file. -/
def Stack.RoundTrip (self : Stack κ φ) : Prop :=
  ∀ assignments, ∃ read, self.fromStr (self.toString assignments) = some read ∧
    ∀ label, read.lookup label = assignments.lookup label

/-- Why there is no identity. -/
inductive Failure : Type where
  | predates
  | exhausted
  | unwritten
  /-- `bad pool identity` -/
  | corrupt (slot : ℕ)
  /-- there is no such slot: the call panics -/
  | panicked

/-- A call of `identity_for_label`. -/
structure Call where
  label : String
  /-- the file can be written -/
  writes : Bool

variable (self : Stack κ φ)

/-- The map in the file. A file that is not there yet is an empty map. -/
def Stack.assignments (file : Option φ) : Assignments := (file.bind self.fromStr).getD ∅

/-- The keypair of a slot. -/
def Stack.identity (slot : ℕ) : Except Failure (ℕ × κ) :=
  match self.pool[slot]? with
  | some bytes =>
    match self.keypair bytes with
    | some keypair => .ok (slot, keypair)
    | none => .error (.corrupt slot)
  | none => .error .panicked

/-- `identity_for_label`: the identity with its slot, and the file after the call. -/
def Stack.identityForLabel (file : Option φ) (call : Call) :
    Except Failure (ℕ × κ) × Option φ :=
  if self.pool.isEmpty then (.error .predates, file)
  else
    let assignments := self.assignments file
    match assignments.lookup call.label with
    | some slot => (self.identity slot, file)
    | none =>
      let slot := assignments.keys.length
      if slot < self.pool.length then
        if call.writes then
          (self.identity slot, some (self.toString (assignments.insert call.label slot)))
        else (.error .unwritten, file)
      else (.error .exhausted, file)

/-- The file after calls, of whatever processes. -/
def Stack.after (file : Option φ) (calls : List Call) : Option φ :=
  calls.foldl (fun file call => (self.identityForLabel file call).2) file

/-- The labels are bound to the first slots of the pool, each to one of its own. -/
structure Bound (size : ℕ) (assignments : Assignments) : Prop where
  injective : ∀ label other slot, assignments.lookup label = some slot →
    assignments.lookup other = some slot → label = other
  slots : ∀ slot, slot < assignments.keys.length ↔ ∃ label, assignments.lookup label = some slot
  fits : assignments.keys.length ≤ size

/-- Of the map only what is found in it matters. -/
theorem Bound.congr {size : ℕ} {assignments read : Assignments} (h : Bound size assignments)
    (hsame : ∀ label, read.lookup label = assignments.lookup label) : Bound size read := by
  have hkeys : read.keys.length = assignments.keys.length := by
    refine ((perm_ext_iff_of_nodup read.keys_nodup assignments.keys_nodup).mpr ?_).length_eq
    intro label
    change label ∈ read ↔ label ∈ assignments
    rw [← AList.lookup_isSome, ← AList.lookup_isSome, hsame]
  obtain ⟨hinjective, hslots, hfits⟩ := h
  refine ⟨?_, ?_, hkeys ▸ hfits⟩
  · simpa only [hsame] using hinjective
  · simpa only [hsame, hkeys] using hslots

theorem Bound.insert {size : ℕ} {assignments : Assignments} {label : String}
    (h : Bound size assignments) (hnew : assignments.lookup label = none)
    (hlt : assignments.keys.length < size) :
    Bound size (assignments.insert label assignments.keys.length) := by
  have hlen : (assignments.insert label assignments.keys.length).keys.length =
      assignments.keys.length + 1 := by
    have hnot : label ∉ assignments := AList.lookup_eq_none.mp hnew
    rw [AList.keys_insert, length_cons, erase_of_not_mem hnot]
  have hold : ∀ other, assignments.lookup other ≠ some assignments.keys.length := by
    intro other ho
    exact Nat.lt_irrefl _ ((h.slots _).mpr ⟨other, ho⟩)
  refine ⟨fun one two slot hone htwo => ?_, fun slot => ?_, hlen ▸ hlt⟩
  · rcases Table.of_lookup_insert hone with ⟨rfl, rfl⟩ | ⟨-, hone⟩
    · rcases Table.of_lookup_insert htwo with ⟨rfl, -⟩ | ⟨-, htwo⟩
      · rfl
      · exact absurd htwo (hold two)
    · rcases Table.of_lookup_insert htwo with ⟨-, rfl⟩ | ⟨-, htwo⟩
      · exact absurd hone (hold one)
      · exact h.injective one two slot hone htwo
  · rw [hlen, Nat.lt_succ_iff_lt_or_eq, h.slots]
    constructor
    · rintro (⟨other, ho⟩ | rfl)
      · refine ⟨other, ?_⟩
        have hne : other ≠ label := by
          rintro rfl
          cases hnew.symm.trans ho
        rw [AList.lookup_insert_ne hne, ho]
      · exact ⟨label, AList.lookup_insert _⟩
    · rintro ⟨other, ho⟩
      rcases Table.of_lookup_insert ho with ⟨-, rfl⟩ | ⟨-, ho⟩
      · exact .inr rfl
      · exact .inl ⟨other, ho⟩

/-- What a call can come to. -/
inductive Stack.Called (file : Option φ) (call : Call) :
    Except Failure (ℕ × κ) × Option φ → Prop where
  | refused (failure : Failure)
      (h : failure = .predates ∨ failure = .exhausted ∨ failure = .unwritten) :
      Called file call (.error failure, file)
  | found (slot : ℕ) (h : (self.assignments file).lookup call.label = some slot) :
      Called file call (self.identity slot, file)
  | bound (h : (self.assignments file).lookup call.label = none)
      (hlt : (self.assignments file).keys.length < self.pool.length) :
      Called file call (self.identity (self.assignments file).keys.length,
        some (self.toString ((self.assignments file).insert call.label
          (self.assignments file).keys.length)))

variable {self} {file : Option φ}

theorem Stack.called (file : Option φ) (call : Call) :
    self.Called file call (self.identityForLabel file call) := by
  rw [identityForLabel]
  split
  · exact .refused _ (.inl rfl)
  · dsimp only
    cases hlk : (self.assignments file).lookup call.label with
    | some slot => exact .found slot hlk
    | none =>
      dsimp only
      split
      · rename_i hlt
        split
        · exact .bound hlk hlt
        · exact .refused _ (.inr (.inr rfl))
      · exact .refused _ (.inr (.inl rfl))

theorem Stack.RoundTrip.written (hround : self.RoundTrip) (assignments : Assignments)
    (label : String) : (self.assignments (some (self.toString assignments))).lookup label =
      assignments.lookup label := by
  obtain ⟨read, hread, hsame⟩ := hround assignments
  rw [Stack.assignments, bind_some, hread, getD_some, hsame]

/-- **One call** keeps the labels bound, and every label in its slot. -/
theorem Bound.call (hround : self.RoundTrip)
    (h : Bound self.pool.length (self.assignments file)) (call : Call) :
    Bound self.pool.length (self.assignments (self.identityForLabel file call).2) ∧
      ∀ label slot, (self.assignments file).lookup label = some slot →
        (self.assignments (self.identityForLabel file call).2).lookup label = some slot := by
  have hcalled := self.called file call
  generalize self.identityForLabel file call = outcome at hcalled ⊢
  cases hcalled with
  | refused | found => exact ⟨h, fun _ _ => id⟩
  | bound hnew hlt =>
    refine ⟨(h.insert hnew hlt).congr (hround.written _), fun label slot hlab => ?_⟩
    have hne : label ≠ call.label := by
      rintro rfl
      cases hnew.symm.trans hlab
    rw [hround.written, AList.lookup_insert_ne hne, hlab]

theorem Bound.after (hround : self.RoundTrip)
    (h : Bound self.pool.length (self.assignments file)) (calls : List Call) :
    Bound self.pool.length (self.assignments (self.after file calls)) ∧
      ∀ label slot, (self.assignments file).lookup label = some slot →
        (self.assignments (self.after file calls)).lookup label = some slot := by
  induction calls generalizing file with
  | nil => exact ⟨h, fun _ _ => id⟩
  | cons call calls ih =>
    obtain ⟨hbd, hkpt⟩ := h.call hround call
    obtain ⟨hr, hsty⟩ := ih hbd
    exact ⟨hr, fun label slot hlab => hsty label slot (hkpt label slot hlab)⟩

theorem bound_empty (size : ℕ) : Bound size ∅ :=
  ⟨(fun _ _ _ hlab => by cases hlab), fun _ => ⟨(fun hlt => by cases hlt),
    fun ⟨_, hlab⟩ => by cases hlab⟩, Nat.zero_le _⟩

theorem Stack.identity_of_lt {slot : ℕ} (h : slot < self.pool.length) :
    self.identity slot ≠ .error .panicked ∧
      ∀ p keypair, self.identity slot = .ok (p, keypair) → p = slot := by
  rw [Stack.identity, getElem?_eq_getElem h]
  dsimp only
  cases self.keypair self.pool[slot] with
  | none => exact ⟨by rintro ⟨⟩, by rintro _ _ ⟨⟩⟩
  | some keypair =>
    refine ⟨by rintro ⟨⟩, ?_⟩
    rintro _ _ ⟨⟩
    rfl

/-- **Every label has a slot of its own, for ever.** After any calls the labels are bound one to one
to the first slots of the pool. A further call returns the slot its label is then bound to, which is
one of the pool, and for a new label the number of labels there were; whatever it and any later
calls do, no label changes its slot, and a call that finds the pool exhausted changes nothing. -/
theorem labels_keep_slots (self : Stack κ φ) (hround : self.RoundTrip) (calls later : List Call)
    (call : Call) :
    let file := self.after none calls
    let (result, next) := self.identityForLabel file call
    Bound self.pool.length (self.assignments next) ∧
    (∀ label slot, (self.assignments file).lookup label = some slot →
      (self.assignments (self.after next later)).lookup label = some slot) ∧
    (∀ slot keypair, result = .ok (slot, keypair) →
      slot < self.pool.length ∧ (self.assignments next).lookup call.label = some slot ∧
      ((self.assignments file).lookup call.label = none →
        slot = (self.assignments file).keys.length)) ∧
    result ≠ .error .panicked ∧ (result = .error .exhausted → next = file) := by
  have hbound : Bound self.pool.length (self.assignments (self.after none calls)) :=
    (Bound.after hround (bound_empty _) calls).1
  generalize self.after none calls = file at hbound
  obtain ⟨hnext, hkept⟩ := hbound.call hround call
  have hcalled := self.called file call
  dsimp only
  generalize self.identityForLabel file call = outcome at *
  obtain ⟨-, hstays⟩ := hnext.after hround later
  refine ⟨hnext, fun label slot hlabel => hstays label slot (hkept label slot hlabel), ?_⟩
  cases hcalled with
  | refused failure hfailure =>
    refine ⟨by rintro _ _ ⟨⟩, ?_, fun _ => rfl⟩
    rintro ⟨⟩
    rcases hfailure with hpanicked | hpanicked | hpanicked <;> cases hpanicked
  | found slot hslot =>
    have hlt := Nat.lt_of_lt_of_le ((hbound.slots slot).mpr ⟨_, hslot⟩) hbound.fits
    obtain ⟨hsome, hplace⟩ := Stack.identity_of_lt hlt
    refine ⟨fun place keypair hok => ?_, hsome, fun _ => rfl⟩
    cases hplace place keypair hok
    exact ⟨hlt, hslot, fun hnone => by cases hnone.symm.trans hslot⟩
  | bound hnew hlt =>
    obtain ⟨hsome, hplace⟩ := Stack.identity_of_lt hlt
    refine ⟨fun place keypair hok => ?_, hsome, fun hexhausted => ?_⟩
    · cases hplace place keypair hok
      rw [hround.written]
      exact ⟨hlt, AList.lookup_insert _, fun _ => rfl⟩
    · rw [Stack.identity, getElem?_eq_getElem hlt] at hexhausted
      dsimp only at hexhausted
      split at hexhausted <;> cases hexhausted

/-- A stack with two identities, whose file lists the labels in their order. -/
def sortedStack : Stack (List UInt8) (List (Sigma fun _ : String => ℕ)) where
  pool := [[1], [2]]
  keypair := some
  toString assignments := assignments.entries.mergeSort fun one two => one.1 ≤ two.1
  fromStr entries := some entries.toAList

theorem sortedStack_roundTrip : sortedStack.RoundTrip := by
  refine fun assignments => ⟨_, rfl, fun label => ?_⟩
  have hperm := mergeSort_perm assignments.entries fun one two => decide (one.1 ≤ two.1)
  rw [AList.lookup_to_alist]
  exact perm_dlookup label ((perm_nodupKeys hperm).mpr assignments.nodupKeys) hperm

theorem labels_keep_slots_two :
    let file := sortedStack.after none [⟨"load", true⟩]
    let next := (sortedStack.identityForLabel file ⟨"fanout", true⟩).2
    Bound 2 (sortedStack.assignments next) ∧ ∀ slot,
      (sortedStack.assignments file).lookup "load" = some slot →
        (sortedStack.assignments (sortedStack.after next [⟨"load", true⟩])).lookup "load" =
          some slot := by
  obtain ⟨hbound, hstays, -⟩ := labels_keep_slots sortedStack sortedStack_roundTrip
    [⟨"load", true⟩] [⟨"load", true⟩] ⟨"fanout", true⟩
  exact ⟨hbound, hstays "load"⟩

end Redsuite.Identity
