import Redsuite.Execute
import Mathlib.Data.List.Induction

/-!
# Pairs of cells and their model

A model of `CausalPair` and `PairModel` in `core/src/redline/causal.rs`, and of `Batch` in
`programs/fixture/src/build.rs` as far as `fold_hashes` needs it.
-/

namespace Redsuite.Fixture

open List

/-- `AccountMeta`: an account of an instruction. -/
structure AccountMeta (κ : Type) where
  pubkey : κ
  isSigner : Bool
  isWritable : Bool

/-- `Batch`: the accounts and the operations of an instruction that is being built. -/
structure Batch (κ : Type) where
  accounts : List (AccountMeta κ) := []
  operations : List Operation := []

/-- `Step`: what a transaction of a pair folds. -/
inductive Step : Type where
  | x
  | y
  | z

/-- `Step::accounts`. -/
def Step.accounts {κ : Type} (a b : κ) : Step → List κ
  | .x => [a]
  | .y => [a, b]
  | .z => [b]

/-- `PairModel`: the hashes and the values that the cells of a pair should have. -/
structure PairModel where
  a : List UInt8 := replicate 32 0
  b : List UInt8 := replicate 32 0
  aId : UInt64 := 0
  bId : UInt64 := 0

/-- `CausalPair`: two cells with their model. -/
structure CausalPair (κ : Type) where
  a : κ
  b : κ
  model : PairModel := {}

/-- The instructions of a step. -/
inductive Ix (κ : Type) : Type where
  | computeUnitLimit (limit : UInt32)
  | fixture (batch : Batch κ)

/-- What the repository does not say of the chain: how much work a batch is. -/
structure Runtime (κ : Type) where
  /-- the compute units that a batch takes -/
  units : Memory κ → Batch κ → ℕ
  /-- the limit of a transaction that sets none -/
  limit : ℕ

/-- Why a transaction is not executed. -/
inductive SendError : Type where
  /-- `Batch::account` has no index left -/
  | panicked
  /-- more compute units than the limit -/
  | units
  | program (error : ProgramError)

section Send

variable {κ ι : Type} [DecidableEq κ] [DecidableEq ι] (sha256 : List UInt8 → List UInt8)
  (runtime : Runtime κ)

/-- `PairModel::apply`. -/
def PairModel.apply (self : PairModel) (step : Step) (id : UInt64) (iters : UInt32) : PairModel :=
  match step with
  | .x => { self with a := HashState.fold sha256 id [self.a] iters, aId := id }
  | .y =>
    let merged := HashState.fold sha256 id [self.a, self.b] iters
    { a := merged, b := merged, aId := id, bId := id }
  | .z => { self with b := HashState.fold sha256 id [self.b] iters, bId := id }

/-- `Batch::account`: an account that is there already keeps its index. -/
def Batch.account (self : Batch κ) (m : AccountMeta κ) : Option (UInt16 × Batch κ) :=
  match self.accounts.findIdx? fun entry => entry.pubkey = m.pubkey with
  | some index =>
    let merge (entry : AccountMeta κ) : AccountMeta κ :=
      ⟨entry.pubkey, entry.isSigner || m.isSigner, entry.isWritable || m.isWritable⟩
    some (UInt16.ofNat index, { self with accounts := self.accounts.modify index merge })
  | none =>
    if self.accounts.length < 2 ^ 16 then
      some (UInt16.ofNat self.accounts.length, { self with accounts := self.accounts ++ [m] })
    else none

/-- `Batch::cells`, for cells that are written. -/
def Batch.cells : List κ → Batch κ → Option (List UInt16 × Batch κ)
  | [], self => some ([], self)
  | pubkey :: keys, self => do
    let (index, self) ← self.account ⟨pubkey, false, true⟩
    let (indices, self) ← cells keys self
    return (index :: indices, self)

/-- `Batch::set`. -/
def Batch.set (self : Batch κ) (keys : List κ) (value : UInt64) : Option (Batch κ) := do
  let (cells, self) ← self.cells keys
  return { self with operations := self.operations ++ [.set cells value] }

/-- `Batch::fold_hashes`. -/
def Batch.foldHashes (self : Batch κ) (keys : List κ) (salt : UInt64) (rounds : UInt32) :
    Option (Batch κ) := do
  let (cells, self) ← self.cells keys
  return { self with operations := self.operations ++ [.foldHashes cells salt rounds] }

/-- `Program::fold_hashes`. -/
def foldHashes (value : UInt64) (rounds : UInt32) (keys : List κ) : Option (Batch κ) := do
  (← Batch.set {} keys value).foldHashes keys value rounds

/-- `chain_ixs`, with `CU_LIMIT`. -/
def chainIxs (id : UInt64) (iters : UInt32) (accounts : List κ) : Option (List (Ix κ)) := do
  let fold ← foldHashes id iters accounts
  return if 0 < iters then [.computeUnitLimit 1400000, .fixture fold] else [.fixture fold]

/-- An instruction on the chain, with the limit of its transaction. -/
def Ix.execute (state : Memory κ × ℕ) : Ix κ → Except SendError (Memory κ × ℕ)
  | .computeUnitLimit limit => .ok (state.1, limit.toNat)
  | .fixture batch =>
    if state.2 < runtime.units state.1 batch then .error .units
    else
      let accounts := batch.accounts.map fun m => ⟨m.pubkey, m.isSigner⟩
      match run sha256 accounts state.1 batch.operations with
      | .ok memory => .ok (memory, state.2)
      | .error error => .error (.program error)

/-- The transaction of a step, executed on the chain. -/
def executeStep (a b : κ) (memory : Memory κ) (step : Step) (id : UInt64) (iters : UInt32) :
    Except SendError (Memory κ) :=
  match chainIxs id iters (step.accounts a b) with
  | some ixs => (ixs.foldlM (Ix.execute sha256 runtime) (memory, runtime.limit)).map Prod.fst
  | none => .error .panicked

/-- `CausalPair::send`. -/
def CausalPair.send (memory : Memory κ) (self : CausalPair κ) (step : Step) (id : UInt64)
    (iters : UInt32) : Except SendError (Memory κ × CausalPair κ) := do
  let memory ← executeStep sha256 runtime self.a self.b memory step id iters
  return (memory, { self with model := self.model.apply sha256 step id iters })

end Send

/-- What is compared of a cell. -/
def observed (contents : Contents) : Option (UInt64 × List UInt8) := do
  let header ← CellHeader.tryDecode contents.data
  let payload := contents.data.drop CellHeader.SIZE
  if payload.length < 32 then none else some (header.value, payload.take 32)

/-- A cell with a value and a hash, which has room for so many updates. -/
def Ready (left : ℕ) (data : List UInt8) (id : UInt64) (hash : List UInt8) : Prop :=
  ∃ (header : CellHeader) (payload : List UInt8), header.id.authority.length = 32 ∧
    data = header.encode ++ payload ∧ header.value = id ∧ header.revision.toNat + left < 2 ^ 64 ∧
    32 ≤ payload.length ∧ payload.take 32 = hash

section Steps

variable {κ : Type} [DecidableEq κ] {memory : Memory κ} {left : ℕ} {key : κ} {id : UInt64}
  {hash : List UInt8}

theorem Ready.observed {contents : Contents} (h : Ready left contents.data id hash) :
    observed contents = some (id, hash) := by
  obtain ⟨header, payload, ha, hd, rfl, -, hlen, rfl⟩ := h
  have henc := CellHeader.encode_length ha
  simp [Fixture.observed, hd, CellHeader.tryDecode_encode ha, drop_left' henc, hlen]

omit [DecidableEq κ] in
theorem Ready.firstHash (h : Ready left (memory key).data id hash) {accs : List (AccountInfo κ)}
    {index : UInt16} (hi : info accs index = .ok key) : firstHash accs memory index = .ok hash := by
  obtain ⟨header, payload, ha, hd, -, -, hlen, rfl⟩ := h
  have henc := CellHeader.encode_length ha
  simp [Fixture.firstHash, hi, hd, CellHeader.payload, henc, okOr, drop_left' henc, hlen, bind,
    Except.bind]

/-- An update leaves a cell with this value and hash, and the others as they are. -/
def Updates (memory : Memory κ) (key : κ) (f : Edit) (left : ℕ) (id : UInt64) (hash : List UInt8) :
    Prop :=
  ∃ memory', update memory key f = .ok memory' ∧ Ready left (memory' key).data id hash ∧
    ∀ other, other ≠ key → memory' other = memory other

section

variable (h : Ready (left + 1) (memory key).data id hash)

include h

theorem Ready.update {f : Edit} {id' : UInt64} {hash' : List UInt8}
    (hf : ∀ {header payload}, header.value = id → 32 ≤ payload.length → payload.take 32 = hash →
      ∃ payload', f header payload = .ok ({ header with value := id' }, payload') ∧
        32 ≤ payload'.length ∧ payload'.take 32 = hash') :
    Updates memory key f left id' hash' := by
  obtain ⟨header, payload, ha, hd, hid, hrev, hlen, hh⟩ := h
  obtain ⟨payload', hf, hlen', hh'⟩ := hf hid hlen hh
  have henc := CellHeader.encode_length ha
  have hlt : header.revision.toNat + 1 < 2 ^ 64 := by omega
  have hadd : checkedAdd header.revision 1 = some (header.revision + 1) := if_pos hlt
  have hrun : f.run (memory key).data = .ok (CellHeader.encode
      ⟨header.id, id', header.revision + 1, header.undelegation⟩ ++ payload') := by
    simp [Edit.run, hd, CellHeader.tryDecode_encode ha, okOr, CellHeader.payload, CellHeader.write,
      henc, drop_left' henc, take_left' henc, bind, Except.bind, hf, hadd]
  refine ⟨_, by rw [Fixture.update, hrun]; rfl, ?_, fun _ hne => Function.update_of_ne hne _ _⟩
  rw [Function.update_self]
  refine ⟨_, payload', by exact ha, rfl, rfl, ?_, hlen', hh'⟩
  rw [UInt64.toNat_add, UInt64.toNat_one, Nat.mod_eq_of_lt hlt]
  omega

theorem Ready.set (value : UInt64) :
    Updates memory key (fun cell payload => .ok ({ cell with value }, payload)) left value hash :=
  h.update fun _ hlen hh => ⟨_, rfl, hlen, hh⟩

theorem Ready.write {bytes : List UInt8} (hb : bytes.length = 32) :
    Updates memory key (writePayload bytes) left id bytes := by
  refine h.update fun {header payload} hid hlen _ => ⟨bytes ++ payload.drop 32, ?_, ?_, ?_⟩
  · subst hid
    rw [writePayload, hb, if_pos hlen]
  · simp [hb]
  · rw [← hb, take_left]

end

omit [DecidableEq κ] in
theorem Ready.mono {more : ℕ} (h : Ready more (memory key).data id hash) (hle : left ≤ more) :
    Ready left (memory key).data id hash := by
  obtain ⟨header, payload, ha, hd, hid, hrev, hp⟩ := h
  exact ⟨header, payload, ha, hd, hid, by omega, hp⟩

/-- The cells of a pair are as its model says. -/
def Tracks (left : ℕ) (memory : Memory κ) (pair : CausalPair κ) : Prop :=
  Ready left (memory pair.a).data pair.model.aId pair.model.a ∧
    Ready left (memory pair.b).data pair.model.bId pair.model.b

/-- The transaction of `chain_ixs` changes the memory so. -/
def Folds (sha256 : List UInt8 → List UInt8) (id : UInt64) (iters : UInt32) (keys : List κ)
    (memory memory' : Memory κ) : Prop :=
  ∃ batch, foldHashes id iters keys = some batch ∧
    run sha256 (batch.accounts.map fun m => ⟨m.pubkey, m.isSigner⟩) memory batch.operations =
      .ok memory'

variable {sha256 : List UInt8 → List UInt8} {iters : UInt32}

theorem Folds.execute {a b : κ} {step : Step} {memory' : Memory κ}
    (h : Folds sha256 id iters (step.accounts a b) memory memory') (runtime : Runtime κ) :
    executeStep sha256 runtime a b memory step id iters = .error .units ∨
      executeStep sha256 runtime a b memory step id iters = .ok memory' := by
  obtain ⟨batch, hb, hrun⟩ := h
  rw [executeStep, chainIxs, hb]
  by_cases hi : 0 < iters
  · by_cases hunits : 1400000 < runtime.units memory batch <;>
      simp [hi, Ix.execute, hunits, hrun, bind, Except.bind, pure, Except.pure, Except.map]
  · by_cases hunits : runtime.limit < runtime.units memory batch <;>
      simp [hi, Ix.execute, hunits, hrun, bind, Except.bind, pure, Except.pure, Except.map]

variable (hsha : ∀ bytes, (sha256 bytes).length = 32)

include hsha

variable {ι : Type} [DecidableEq ι]

end Steps

/-- A cell with the value 0 before zeros; one that `CellHeader::new` made has the revision 0. -/
def Zeroed (revision : UInt64) (contents : Contents) : Prop :=
  ∃ id undelegation n, id.authority.length = 32 ∧ 32 ≤ n ∧
    contents.data = CellHeader.encode ⟨id, 0, revision, undelegation⟩ ++ replicate n 0

theorem Zeroed.ready {revision : UInt64} {contents : Contents} {left : ℕ}
    (h : Zeroed revision contents) (hroom : revision.toNat + left < 2 ^ 64) :
    Ready left contents.data 0 (replicate 32 0) := by
  obtain ⟨id, undelegation, n, ha, hn, hd⟩ := h
  exact ⟨_, _, ha, hd, rfl, hroom, by simpa using hn, by simp [hn]⟩

end Redsuite.Fixture
