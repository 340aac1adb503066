import Redsuite.Cell
import Redsuite.Machine
import Mathlib.Algebra.Group.Int.Defs

/-!
# Operations on cells

A model of `update`, `adjust`, `each`, `write_payload`, `run` and `apply` in
`programs/fixture/src/execute/mod.rs` for the operations that write cells.
-/

namespace Redsuite.Fixture

open List CellHeader

/-- `ProgramError`, as far as it is returned. -/
inductive ProgramError : Type where
  | notEnoughAccountKeys
  | missingRequiredSignature
  | invalidInstructionData
  | invalidArgument
  | invalidAccountData
  | accountDataTooSmall
  | insufficientFunds
  | arithmeticOverflow

def okOr {α : Type} (error : ProgramError) : Option α → Except ProgramError α
  | some a => .ok a
  | none => .error error

/-- What an account holds. -/
structure Contents where
  lamports : UInt64
  data : List UInt8

/-- All accounts, by key. -/
abbrev Memory (κ : Type) := κ → Contents

/-- `AccountInfo`: where its contents are, and whether it signed. -/
structure AccountInfo (κ : Type) where
  key : κ
  isSigner : Bool

def checkedAdd (a b : UInt64) : Option UInt64 :=
  if a.toNat + b.toNat < 2 ^ 64 then some (a + b) else none

def checkedAddSigned (a : UInt64) (change : Int64) : Option UInt64 :=
  let sum := (a.toNat : ℤ) + change.toInt
  if 0 ≤ sum ∧ sum < 2 ^ 64 then some (UInt64.ofNat sum.toNat) else none

/-- `CellHeader::payload` and `CellHeader::payload_mut`. -/
def CellHeader.payload (data : List UInt8) : Except ProgramError (List UInt8) :=
  okOr .accountDataTooSmall (if SIZE ≤ data.length then some (data.drop SIZE) else none)

def CellHeader.write (self : CellHeader) (data : List UInt8) : Except ProgramError (List UInt8) :=
  okOr .accountDataTooSmall
    (if SIZE ≤ data.length then some (self.encode ++ data.drop SIZE) else none)

def CellHeader.fill (payload : List UInt8) (seed step : UInt64) : List UInt8 :=
  (range payload.length).map fun place =>
    (toLeBytes (seed + UInt64.ofNat (place / 8) * step)).getD (place % 8) 0

/-- What `update` is called with: it may change the header and the payload. -/
abbrev Edit := CellHeader → List UInt8 → Except ProgramError (CellHeader × List UInt8)

def Edit.run (f : Edit) (data : List UInt8) : Except ProgramError (List UInt8) := do
  let cell ← okOr .invalidAccountData (tryDecode data)
  let payload ← CellHeader.payload data
  let (cell, payload) ← f cell payload
  let revision ← okOr .arithmeticOverflow (checkedAdd cell.revision 1)
  CellHeader.write { cell with revision } (data.take SIZE ++ payload)

def writePayload (bytes : List UInt8) : Edit := fun cell payload =>
  if bytes.length ≤ payload.length then .ok (cell, bytes ++ payload.drop bytes.length)
  else .error .accountDataTooSmall

/-- `HashState::chain`, over `Sha256`. -/
def HashState.chain (sha256 : List UInt8 → List UInt8) (hash : List UInt8) (rounds : UInt32) :
    List UInt8 :=
  (range rounds.toNat).foldl (fun hash round => sha256 (hash ++ leBytes 4 round)) hash

def HashState.fold (sha256 : List UInt8 → List UInt8) (salt : UInt64) (hashes : List (List UInt8))
    (rounds : UInt32) : List UInt8 :=
  chain sha256 (sha256 (toLeBytes salt ++ hashes.flatten)) rounds

/-- `Operation`, as far as it writes cells. -/
inductive Operation : Type where
  | set (cells : List UInt16) (value : UInt64)
  | add (cells : List UInt16) (change : Int64)
  | fill (cells : List UInt16) (seed step : UInt64)
  | hash (cells : List UInt16) (initial : List UInt8) (rounds : UInt32)
  | foldHashes (cells : List UInt16) (salt : UInt64) (rounds : UInt32)
  | copy (sources destinations : List UInt16)
  | sumSizes (output : UInt16) (inputs : List UInt16)
  | undelegation (cells : List UInt16) (outcome : UndelegationOutcome)

section Run

variable {κ : Type} [DecidableEq κ]

def info (accounts : List (AccountInfo κ)) (index : UInt16) : Except ProgramError κ :=
  okOr .notEnoughAccountKeys (accounts[index.toNat]?.map AccountInfo.key)

def update (memory : Memory κ) (account : κ) (f : Edit) : Except ProgramError (Memory κ) := do
  let data ← f.run (memory account).data
  return Function.update memory account { memory account with data }

def adjustBy (change : Int64) : Edit := fun cell payload => do
  let value ← okOr .arithmeticOverflow (checkedAddSigned cell.value change)
  return ({ cell with value }, payload)

def adjust (memory : Memory κ) (account : κ) (change : Int64) : Except ProgramError (Memory κ) :=
  update memory account (adjustBy change)

/-- `each`, where every account is updated in the same way. -/
def each (accounts : List (AccountInfo κ)) (cells : List UInt16) (memory : Memory κ) (f : Edit) :
    Except ProgramError (Memory κ) :=
  cells.foldlM (fun memory index => do update memory (← info accounts index) f) memory

/-- The first bytes of the payload of a cell, as `FoldHashes` reads them. -/
def firstHash (accounts : List (AccountInfo κ)) (memory : Memory κ) (index : UInt16) :
    Except ProgramError (List UInt8) := do
  let payload ← CellHeader.payload (memory (← info accounts index)).data
  if 32 ≤ payload.length then .ok (payload.take 32) else .error .accountDataTooSmall

def copyOne (accounts : List (AccountInfo κ)) (sources : List UInt16) (memory : Memory κ)
    (destination : UInt16 × ℕ) : Except ProgramError (Memory κ) := do
  let source ← info accounts (sources.getD (destination.2 % sources.length) 0)
  let destination ← info accounts destination.1
  if source = destination then update memory destination fun cell payload => .ok (cell, payload)
  else
    let source ← CellHeader.payload (memory source).data
    update memory destination fun cell payload =>
      .ok (cell, source.take payload.length ++ payload.drop source.length)

def apply (sha256 : List UInt8 → List UInt8) (accounts : List (AccountInfo κ)) (memory : Memory κ) :
    Operation → Except ProgramError (Memory κ)
  | .set cells value =>
    each accounts cells memory fun cell payload => .ok ({ cell with value }, payload)
  | .add cells change => each accounts cells memory (adjustBy change)
  | .fill cells seed step =>
    each accounts cells memory fun cell payload => .ok (cell, CellHeader.fill payload seed step)
  | .hash cells initial rounds =>
    each accounts cells memory (writePayload (HashState.chain sha256 initial rounds))
  | .foldHashes cells salt rounds => do
    let hashes ← cells.mapM (firstHash accounts memory)
    each accounts cells memory (writePayload (HashState.fold sha256 salt hashes rounds))
  | .copy sources destinations =>
    if sources.isEmpty then .error .notEnoughAccountKeys
    else destinations.zipIdx.foldlM (copyOne accounts sources) memory
  | .sumSizes output inputs => do
    let sizes ← inputs.mapM fun index => do
      return UInt64.ofNat (memory (← info accounts index)).data.length
    update memory (← info accounts output) (writePayload (toLeBytes (sizes.foldl (· + ·) 0)))
  | .undelegation cells outcome =>
    each accounts cells memory fun cell payload =>
      .ok ({ cell with undelegation := outcome }, payload)

def run (sha256 : List UInt8 → List UInt8) (accounts : List (AccountInfo κ)) (memory : Memory κ)
    (operations : List Operation) : Except ProgramError (Memory κ) :=
  operations.foldlM (apply sha256 accounts) memory

end Run

/-! ### What an edit leaves alone -/

/-- The part of a cell that is written. -/
inductive Part : Type where
  | header
  | payload
  | whole

/-- What stays as it is when a part of a cell is written, besides its id. -/
def Part.Keeps : Part → CellHeader × List UInt8 → CellHeader × List UInt8 → Prop
  | .header, before, after => after.2 = before.2
  | .payload, before, after =>
    after.1.value = before.1.value ∧ after.1.undelegation = before.1.undelegation
  | .whole, _, _ => True

theorem Part.Keeps.refl (part : Part) (cell : CellHeader × List UInt8) : part.Keeps cell cell := by
  cases part <;> simp [Keeps]

theorem Part.Keeps.trans {part : Part} {first second third : CellHeader × List UInt8}
    (h : part.Keeps first second) (h' : part.Keeps second third) : part.Keeps first third := by
  cases part with
  | header => exact Eq.trans h' h
  | payload => exact ⟨h'.1.trans h.1, h'.2.trans h.2⟩
  | whole => trivial

/-- The edit writes this part only. -/
def Edit.Writes (f : Edit) (part : Part) : Prop :=
  ∀ {cell payload cell' payload'}, f cell payload = .ok (cell', payload') →
    cell'.id = cell.id ∧ cell'.revision = cell.revision ∧ payload'.length = payload.length ∧
      part.Keeps (cell, payload) (cell', payload')

/-- What so many edits of a part make of an account. -/
structure Written (part : Part) (times : ℕ) (before after : Contents) : Prop where
  length : after.data.length = before.data.length
  untouched : times = 0 → after = before
  cell : ∀ header, tryDecode before.data = some header →
    ∃ header', tryDecode after.data = some header' ∧ header'.id = header.id ∧
      header'.revision.toNat = header.revision.toNat + times ∧
      part.Keeps (header, before.data.drop SIZE)
        (header', after.data.drop SIZE)

section Written

variable {part : Part} {first second third : Contents} {m n : ℕ}

theorem Written.refl (part : Part) (contents : Contents) : Written part 0 contents contents :=
  ⟨rfl, fun _ => rfl, fun header h => ⟨header, h, rfl, rfl, .refl part _⟩⟩

theorem Written.trans (h : Written part m first second) (h' : Written part n second third) :
    Written part (m + n) first third := by
  refine ⟨h'.length.trans h.length, fun hz => ?_, fun header hd => ?_⟩
  · rw [h'.untouched (by omega), h.untouched (by omega)]
  · obtain ⟨mid, hmid, hid, hrev, hk⟩ := h.cell header hd
    obtain ⟨last, hlast, hid', hrev', hk'⟩ := h'.cell mid hmid
    exact ⟨last, hlast, hid'.trans hid, by omega, hk.trans hk'⟩

theorem Written.whole (h : Written part n first second) : Written .whole n first second := by
  refine ⟨h.length, h.untouched, fun header hd => ?_⟩
  obtain ⟨header', hd', hid, hrev, -⟩ := h.cell header hd
  exact ⟨header', hd', hid, hrev, trivial⟩

end Written

theorem of_okOr {α : Type} {error : ProgramError} {o : Option α} {a : α}
    (h : okOr error o = .ok a) : o = some a := by
  cases o with
  | none => cases h
  | some b => exact congrArg some (Except.ok.inj h)

theorem of_checkedAdd {a b sum : UInt64} (h : checkedAdd a b = some sum) :
    sum.toNat = a.toNat + b.toNat := by
  rw [checkedAdd] at h
  split at h
  · rename_i hlt
    cases h
    rw [UInt64.toNat_add, Nat.mod_eq_of_lt hlt]
  · cases h

theorem of_payload {data payload : List UInt8} (h : CellHeader.payload data = .ok payload) :
    payload = data.drop SIZE := by
  have h := of_okOr h
  split at h
  · exact (Option.some.inj h).symm
  · cases h

theorem Edit.run_ok {f : Edit} {data data' : List UInt8} (h : f.run data = .ok data') :
    ∃ cell cell' payload revision, tryDecode data = some cell ∧
      f cell (data.drop SIZE) = .ok (cell', payload) ∧
      revision.toNat = cell'.revision.toNat + 1 ∧
      (cell'.id = cell.id → tryDecode data' = some { cell' with revision } ∧
        data'.drop SIZE = payload ∧
        data'.length = SIZE + payload.length) := by
  obtain ⟨cell, hcell, h⟩ := except_bind_ok h
  obtain ⟨payload, hp, h⟩ := except_bind_ok h
  obtain rfl := of_payload hp
  obtain ⟨⟨cell', payload'⟩, hedit, h⟩ := except_bind_ok h
  obtain ⟨revision, hrev, h⟩ := except_bind_ok h
  have hcell := of_okOr hcell
  have hrev := of_checkedAdd (of_okOr hrev)
  refine ⟨cell, cell', payload', revision, hcell, hedit, hrev, fun hid => ?_⟩
  obtain ⟨hsize, hauthority⟩ := size_le hcell
  have hauthority' : ({ cell' with revision } : CellHeader).id.authority.length = 32 := by
    rw [← hauthority, ← hid]
  have htake : (data.take SIZE).length = SIZE := by
    rw [length_take, Nat.min_eq_left hsize]
  have h := of_okOr h
  rw [if_pos (by rw [length_append, htake]; omega), drop_left' htake] at h
  cases h
  have henc := encode_length hauthority'
  exact ⟨tryDecode_encode hauthority' payload', drop_left' henc,
    by rw [length_append, henc]⟩

theorem Edit.Writes.run {f : Edit} {part : Part} (hf : f.Writes part) {contents : Contents}
    {data : List UInt8} (h : f.run contents.data = .ok data) :
    Written part 1 contents { contents with data } := by
  obtain ⟨cell, cell', payload, revision, hcell, hedit, hrev, hout⟩ := Edit.run_ok h
  obtain ⟨hid, hsame, hlen, hk⟩ := hf hedit
  obtain ⟨hd, rfl, hsize⟩ := hout hid
  have hle := (size_le hcell).1
  refine ⟨?_, by rintro ⟨⟩, fun header hheader => ?_⟩
  · simp only [length_drop] at hlen hsize ⊢
    omega
  · obtain rfl := Option.some.inj (hcell.symm.trans hheader)
    refine ⟨_, hd, hid, by rw [hrev, hsame], ?_⟩
    cases part <;> exact hk

def Operation.targets : Operation → List UInt16
  | .set cells _ | .add cells _ | .fill cells _ _ | .hash cells _ _ | .foldHashes cells _ _
  | .undelegation cells _ => cells
  | .copy _ destinations => destinations
  | .sumSizes output _ => [output]

def Operation.part : Operation → Part
  | .set _ _ | .add _ _ | .undelegation _ _ => .header
  | _ => .payload

section Runs

variable {κ : Type} [DecidableEq κ] {memory memory' : Memory κ} {part : Part} {f : Edit}
  {accs : List (AccountInfo κ)}

theorem update_written (hf : f.Writes part) {account : κ}
    (h : update memory account f = .ok memory') (key : κ) :
    Written part ([account].count key) (memory key) (memory' key) := by
  obtain ⟨data, hdata, h⟩ := except_bind_ok h
  cases h
  by_cases hk : account = key
  · subst hk
    rw [count_singleton_self, Function.update_self]
    exact hf.run hdata
  · rw [count_singleton, if_neg (by simpa using hk), Function.update_of_ne (Ne.symm hk)]
    exact .refl part _

/-- **A loop over updates** comes to an account as often as its items do. -/
theorem foldlM_written {α : Type} {step : Memory κ → α → Except ProgramError (Memory κ)}
    (targets : α → List κ)
    (hst : ∀ {memory a memory'}, step memory a = .ok memory' →
      ∀ key, Written part ((targets a).count key) (memory key) (memory' key))
    {l : List α} (h : l.foldlM step memory = .ok memory') (key : κ) :
    Written part ((l.flatMap targets).count key) (memory key) (memory' key) := by
  induction l generalizing memory with
  | nil =>
    cases h
    exact .refl part _
  | cons a l ih =>
    rw [foldlM_cons] at h
    obtain ⟨next, hnx, h⟩ := except_bind_ok h
    rw [flatMap_cons, count_append]
    exact (hst hnx key).trans (ih h)

def keyAt (accounts : List (AccountInfo κ)) (index : UInt16) : List κ :=
  (accounts[index.toNat]?.map AccountInfo.key).toList

omit [DecidableEq κ] in
theorem keyAt_of_info {index : UInt16} {key : κ} (h : info accs index = .ok key) :
    keyAt accs index = [key] := by
  rw [keyAt, of_okOr h, Option.toList_some]

theorem each_written (hf : f.Writes part) {cells : List UInt16}
    (h : each accs cells memory f = .ok memory') (key : κ) :
    Written part ((cells.flatMap (keyAt accs)).count key) (memory key) (memory' key) := by
  refine foldlM_written (keyAt accs) (fun {memory a memory'} hst key => ?_) h key
  obtain ⟨account, ha, hst⟩ := except_bind_ok hst
  rw [keyAt_of_info ha]
  exact update_written hf hst key

theorem writePayload_writes (bytes : List UInt8) : (writePayload bytes).Writes .payload := by
  intro cell payload cell' payload' h
  rw [writePayload] at h
  split at h
  · cases h
    refine ⟨rfl, rfl, ?_, rfl, rfl⟩
    rw [length_append, length_drop]
    omega
  · cases h

theorem adjustBy_writes (change : Int64) : (adjustBy change).Writes .header := by
  intro cell payload cell' payload' h
  obtain ⟨value, -, h⟩ := except_bind_ok h
  cases h
  exact ⟨rfl, rfl, rfl, rfl⟩

theorem copyOne_written {sources : List UInt16} {destination : UInt16 × ℕ}
    (h : copyOne accs sources memory destination = .ok memory') (key : κ) :
    Written .payload ((keyAt accs destination.1).count key) (memory key) (memory' key) := by
  obtain ⟨source, -, h⟩ := except_bind_ok h
  obtain ⟨account, ha, h⟩ := except_bind_ok h
  rw [keyAt_of_info ha]
  split at h
  · refine update_written ?_ h key
    rintro cell payload _ _ ⟨⟩
    exact ⟨rfl, rfl, rfl, rfl, rfl⟩
  · obtain ⟨bytes, -, h⟩ := except_bind_ok h
    refine update_written ?_ h key
    rintro cell payload _ _ ⟨⟩
    refine ⟨rfl, rfl, ?_, rfl, rfl⟩
    rw [length_append, length_take, length_drop]
    omega

theorem apply_written {sha256 : List UInt8 → List UInt8} {operation : Operation}
    (h : apply sha256 accs memory operation = .ok memory') (key : κ) :
    Written operation.part ((operation.targets.flatMap (keyAt accs)).count key) (memory key)
      (memory' key) := by
  cases operation with
  | set cells value =>
    refine each_written ?_ h key
    rintro cell payload _ _ ⟨⟩
    exact ⟨rfl, rfl, rfl, rfl⟩
  | add cells change => exact each_written (adjustBy_writes change) h key
  | fill cells seed step =>
    refine each_written ?_ h key
    rintro cell payload _ _ ⟨⟩
    exact ⟨rfl, rfl, by rw [CellHeader.fill, length_map, length_range], rfl, rfl⟩
  | hash cells initial rounds => exact each_written (writePayload_writes _) h key
  | foldHashes cells salt rounds =>
    obtain ⟨hashes, -, h⟩ := except_bind_ok h
    exact each_written (writePayload_writes _) h key
  | copy sources destinations =>
    simp only [apply] at h
    split at h
    · cases h
    · have hwritten := foldlM_written (fun d => keyAt accs d.1) copyOne_written h key
      rwa [← flatMap_map, zipIdx_map_fst] at hwritten
  | sumSizes output inputs =>
    obtain ⟨sizes, -, h⟩ := except_bind_ok h
    obtain ⟨account, ha, h⟩ := except_bind_ok h
    have hwritten := update_written (writePayload_writes _) h key
    rw [← keyAt_of_info ha] at hwritten
    rwa [Operation.targets, flatMap_singleton]
  | undelegation cells outcome =>
    refine each_written ?_ h key
    rintro cell payload _ _ ⟨⟩
    exact ⟨rfl, rfl, rfl, rfl⟩

/-- The cells so many operations write, each as often as they come to it. -/
def written (accounts : List (AccountInfo κ)) (operations : List Operation) : List κ :=
  operations.flatMap fun operation => operation.targets.flatMap (keyAt accounts)

theorem run_append {sha256 : List UInt8 → List UInt8} {before after : List Operation}
    (h : run sha256 accs memory (before ++ after) = .ok memory') :
    ∃ mid, run sha256 accs memory before = .ok mid ∧
      run sha256 accs mid after = .ok memory' := by
  rw [run, foldlM_append] at h
  exact except_bind_ok h

end Runs

/-- **What operations leave alone.** Every cell keeps its id and its length, and its revision grows
by as much as the operations come to it; an account that none of them comes to is unchanged. Each
operation of the run leaves the payload as it was, or value and undelegation outcome. -/
theorem run_frames {κ : Type} [DecidableEq κ] (sha256 : List UInt8 → List UInt8)
    (accs : List (AccountInfo κ)) (operations : List Operation) (memory memory' : Memory κ)
    (h : run sha256 accs memory operations = .ok memory') :
    (∀ key header, tryDecode (memory key).data = some header →
      (memory' key).data.length = (memory key).data.length ∧
      ∃ header', tryDecode (memory' key).data = some header' ∧
        header'.id = header.id ∧ header'.revision.toNat =
          header.revision.toNat + (written accs operations).count key) ∧
    (∀ key, key ∉ written accs operations → memory' key = memory key) ∧
    ∀ before operation after, operations = before ++ operation :: after →
      ∃ mid next, run sha256 accs memory before = .ok mid ∧
        apply sha256 accs mid operation = .ok next ∧
        run sha256 accs next after = .ok memory' ∧
        ∀ key header, tryDecode (mid key).data = some header →
          ∃ header', tryDecode (next key).data = some header' ∧
            (operation.part = .header →
              (next key).data.drop SIZE = (mid key).data.drop SIZE) ∧
            (operation.part = .payload →
              header'.value = header.value ∧ header'.undelegation = header.undelegation) := by
  have hall := foldlM_written (fun operation => operation.targets.flatMap (keyAt accs))
    (fun hone key => (apply_written hone key).whole) h
  refine ⟨fun key header hd => ?_, fun key hnot => ?_, fun before operation after heq => ?_⟩
  · obtain ⟨header', hd', hid, hrev, -⟩ := (hall key).cell header hd
    exact ⟨(hall key).length, header', hd', hid, hrev⟩
  · exact (hall key).untouched (count_eq_zero.mpr hnot)
  · subst heq
    obtain ⟨mid, hmid, h⟩ := run_append h
    rw [run, foldlM_cons] at h
    obtain ⟨next, hone, h⟩ := except_bind_ok h
    refine ⟨mid, next, hmid, hone, h, fun key header hd => ?_⟩
    obtain ⟨header', hd', -, -, hk⟩ := (apply_written hone key).cell header hd
    refine ⟨header', hd', fun hpart => ?_, fun hpart => ?_⟩
    · rw [hpart] at hk
      exact hk
    · rw [hpart] at hk
      exact hk

def sampleMemory : Memory Unit := fun _ =>
  ⟨0, CellHeader.encode ⟨⟨replicate 32 0, 0⟩, 5, 7, .accept⟩ ++ [1, 2]⟩

theorem run_frames_sample : ∃ memory' header',
    run id [⟨(), false⟩, ⟨(), false⟩] sampleMemory [.add [0, 1] 2, .copy [0] [1]] = .ok memory' ∧
    tryDecode (memory' ()).data = some header' ∧ header'.revision.toNat = 10 := by
  obtain ⟨memory', hrun⟩ : ∃ memory', run id [⟨(), false⟩, ⟨(), false⟩] sampleMemory
    [.add [0, 1] 2, .copy [0] [1]] = .ok memory' := ⟨_, rfl⟩
  obtain ⟨-, header', hd, -, hrev⟩ := (run_frames _ _ _ _ _ hrun).1 () _
    (tryDecode_encode rfl [1, 2])
  exact ⟨memory', header', hrun, hd, hrev⟩

end Redsuite.Fixture
