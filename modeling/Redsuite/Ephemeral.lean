import Redsuite.Table
import Mathlib.Data.Fintype.Basic

/-!
# The oracle of ephemeral accounts

A model of the oracle in `redhat/src/scenarios/magicblock/ephemeral_account_security.rs`.
-/

namespace Redsuite.Redhat

open Option

/-! ### Accounts -/

/-- `Pubkey`, as a number. -/
abbrev Pubkey : Type := ℕ

def systemId : Pubkey := 0

/-- `Account`. -/
structure Account where
  lamports : ℕ
  data : List UInt8
  owner : Pubkey
  executable : Bool
  rentEpoch : ℕ
  deriving DecidableEq

def u64Max : ℕ := 2 ^ 64 - 1

def empty : Account := ⟨0, [], systemId, false, u64Max⟩

def Account.present (self : Account) : Bool := self.owner ≠ systemId

/-- The places of the accounts in a transaction. -/
abbrev PAYER : Fin 6 := 0
abbrev SPONSOR : Fin 6 := 1
abbrev TARGET : Fin 6 := 2
abbrev VAULT : Fin 6 := 3
abbrev SUBSTITUTE : Fin 6 := 4
abbrev VICTIM : Fin 6 := 5

/-- The keys at those places. -/
abbrev Keys : Type := Fin 6 → Pubkey

/-- The accounts at those places. -/
abbrev Images : Type := Fin 6 → Account

def Images.setLamports (self : Images) (index : Fin 6) (lamports : ℕ) : Images :=
  Function.update self index { self index with lamports }

def checkedAdd (left right : ℕ) : Option ℕ :=
  if left + right < 2 ^ 64 then some (left + right) else none

def checkedSub (left right : ℕ) : Option ℕ := if right ≤ left then some (left - right) else none

/-- What the chain computes. -/
structure Chain where
  rent : UInt32 → UInt64
  display : Pubkey → String
  /-- `content_hash`, printed -/
  contentHash : List UInt8 → String

/-- The rent of an account, by its length as a `u32`. -/
def Chain.rentOf (chain : Chain) (data : List UInt8) : ℕ :=
  (chain.rent (UInt32.ofNat data.length)).toNat

/-! ### Actions -/

/-- What an action does to the ephemeral account. -/
inductive Operation : Type where
  | create (dataLen : UInt32)
  | resize (newDataLen : UInt32)
  | close

/-- The errors of instructions; those that no action expects are told apart by a number. -/
inductive InstructionError : Type where
  | invalidAccountData
  | invalidAccountOwner
  | insufficientFunds
  | other (code : ℕ)
  deriving DecidableEq

/-- `UiTransactionError`. -/
inductive UiTransactionError : Type where
  | instruction (index : ℕ) (error : InstructionError)
  | other (code : ℕ)
  deriving DecidableEq

/-- An operation, the program that calls it, and who pays the rent. -/
structure Action where
  operation : Operation
  caller : Pubkey
  fill : UInt8
  sponsor : Fin 6

namespace Action

def newRent (self : Action) (chain : Chain) (account : Account) : Except InstructionError ℕ :=
  match self.operation with
  | .create dataLen =>
    if account.present || account.lamports ≠ 0 then .error .invalidAccountData
    else .ok (chain.rent dataLen).toNat
  | .resize newDataLen =>
    if !account.present then .error .invalidAccountData
    else if account.owner ≠ self.caller then .error .invalidAccountOwner
    else .ok (chain.rent newDataLen).toNat
  | .close =>
    if !account.present then .error .invalidAccountData
    else if account.owner ≠ self.caller then .error .invalidAccountOwner
    else .ok 0

def changed (self : Action) (account : Account) : Account :=
  match self.operation with
  | .create dataLen =>
    { account with
      owner := self.caller
      rentEpoch := u64Max
      data := List.replicate dataLen.toNat 0 }
  | .resize newDataLen =>
    { account with
      data := account.data.take newDataLen.toNat ++
        List.replicate (newDataLen.toNat - account.data.length) 0 }
  | .close => empty

def effect (self : Action) (account : Account) : Account :=
  let account := self.changed account
  if self.fill ≠ 0 then { account with data := account.data.map fun _ => self.fill } else account

def oldRent (chain : Chain) (account : Account) : ℕ :=
  if account.present then chain.rentOf account.data else 0

/-- `Action::apply`: the accounts after it, and the error that is expected. -/
def apply (self : Action) (chain : Chain) (state : Images) (deposit : ℕ) :
    Images × Option InstructionError :=
  let oldRent := oldRent chain (state TARGET)
  match self.newRent chain (state TARGET) with
  | .error error => (state, some error)
  | .ok newRent =>
    let refund := min (oldRent - newRent) deposit
    let payment := newRent - oldRent
    match (checkedAdd (state self.sponsor).lamports refund).bind (checkedSub · payment) with
    | none => (state, some .insufficientFunds)
    | some sponsor =>
      match (checkedAdd (state VAULT).lamports payment).bind (checkedSub · refund) with
      | none => (state, some .insufficientFunds)
      | some vault =>
        let state : Images := Function.update state TARGET (self.effect (state TARGET))
        let state := state.setLamports self.sponsor sponsor
        (state.setLamports VAULT vault, none)

end Action

/-! ### Records -/

/-- The status of a transaction. -/
structure StatusMeta where
  err : Option UiTransactionError
  fee : ℕ
  preBalances : List ℕ
  postBalances : List ℕ
  logMessages : Option (List String)

/-- A transaction as the chain recorded it. -/
structure Record where
  accountKeys : List Pubkey
  info : StatusMeta

def position (keys : Keys) (key : Pubkey) : Option (Fin 6) :=
  (List.finRange 6).find? (keys · = key)

def observation (chain : Chain) (state : Images) : List String :=
  [TARGET, SPONSOR, VAULT].map fun index =>
    let account := state index
    chain.display account.owner ++ " " ++ toString account.data.length ++ " " ++
      toString account.lamports ++ " " ++ chain.contentHash account.data

def observed (line : String) : Option String :=
  ("Program log: CellObservation: ".toList.isPrefixOf? line.toList).map String.ofList

namespace Record

/-- The balances after a transaction, from those before; nothing if one of these is not as expected.
-/
def expectedBalances (keys : Keys) (before after : Images) : List Pubkey → List ℕ → Option (List ℕ)
  | key :: accountKeys, balance :: balances =>
    match position keys key with
    | some index =>
      if balance = (before index).lamports then
        (expectedBalances keys before after accountKeys balances).map ((after index).lamports :: ·)
      else none
    | none => (expectedBalances keys before after accountKeys balances).map (balance :: ·)
  | _, _ => some []

def checkBalances (self : Record) (keys : Keys) (before after : Images) : Bool :=
  self.info.preBalances.sum = self.info.postBalances.sum + self.info.fee &&
  self.info.preBalances.length = self.accountKeys.length &&
  expectedBalances keys before after self.accountKeys self.info.preBalances =
    some self.info.postBalances

def check (self : Record) (chain : Chain) (keys : Keys) (before after : Images)
    (expectedError : Option UiTransactionError) : Bool :=
  self.info.err = expectedError && self.checkBalances keys before after &&
  (self.info.err.isSome ||
    (self.info.logMessages.getD []).filterMap observed =
      observation chain before ++ observation chain after)

end Record

/-! ### The ledger -/

/-- `RentLedger`. -/
structure RentLedger where
  deposits : Table Pubkey ℕ
  sponsors : Table Pubkey (ℕ × ℕ)
  openingSponsors : Table Pubkey ℕ
  floor : ℕ
  surplus : ℕ

namespace RentLedger

section

variable (self : RentLedger)

def expected (keys : Keys) (key : Pubkey) (paid refunded : ℕ) : Option ℕ :=
  let surplus := if key = keys PAYER then self.surplus else 0
  (self.openingSponsors.lookup key).bind fun opening =>
    ((checkedAdd opening refunded).bind (checkedSub · paid)).bind (checkedSub · surplus)

def checkSponsors (keys : Keys) (images : Images) : Bool :=
  Table.all self.sponsors fun key charges =>
    match position keys key with
    | some index => self.expected keys key charges.1 charges.2 = some (images index).lamports
    | none => false

def check (vault : ℕ) : Bool :=
  self.floor ≤ vault &&
  Table.total self.deposits + self.surplus ≤ vault - self.floor

def pay (target sponsor : Pubkey) (paid : ℕ) : RentLedger :=
  let deposit := (self.deposits.lookup target).getD 0
  let charges := (self.sponsors.lookup sponsor).getD (0, 0)
  { self with
    deposits := self.deposits.insert target ((deposit + paid) % 2 ^ 64)
    sponsors := self.sponsors.insert sponsor ((charges.1 + paid) % 2 ^ 64, charges.2) }

def refund (target sponsor : Pubkey) (refund : ℕ) : Option RentLedger :=
  let deposit := (self.deposits.lookup target).getD 0
  let charges := (self.sponsors.lookup sponsor).getD (0, 0)
  if refund ≤ deposit then
    some { self with
      deposits := self.deposits.insert target (deposit - refund)
      sponsors := self.sponsors.insert sponsor (charges.1, (charges.2 + refund) % 2 ^ 64) }
  else none

/-- The ledger after the vault's balance changed. -/
def moved (target sponsor : Pubkey) (old new : ℕ) : Option RentLedger :=
  if new = old then some self
  else if old ≤ new then some (self.pay target sponsor (new - old))
  else self.refund target sponsor (old - new)

/-- `RentLedger::apply`: the ledger after it, or nothing if it fails. -/
def apply (keys : Keys) (sponsor : Pubkey) (before after : Images) : Option RentLedger :=
  (self.moved (keys TARGET) sponsor (before VAULT).lamports (after VAULT).lamports).bind fun next =>
    if next.check (after VAULT).lamports && next.checkSponsors keys after then some next else none

end

end RentLedger

/-! ### Serial orders -/

def countOnes (used : BitVec 32) : ℕ := ((List.range 32).filter used.getLsbD).length

def unused (records : List (Action × Record)) (used : BitVec 32) : List ((Action × Record) × ℕ) :=
  records.zipIdx.filter fun entry => used &&& (1#32 <<< entry.2) = 0#32

/-- The `for` loop of `find_serialization`. -/
def tryRecords (chain : Chain) (keys : Keys)
    (recurse : BitVec 32 → Images → RentLedger → Option RentLedger)
    (used : BitVec 32) (before : Images) (ledger : RentLedger) :
    List ((Action × Record) × ℕ) → Option RentLedger
  | [] => none
  | ((action, record), index) :: rest =>
    match ledger.deposits.lookup (keys TARGET) with
    | none => none
    | some deposit =>
      let applied := action.apply chain before deposit
      let outcome := applied.2.map (UiTransactionError.instruction 0)
      match checkedSub (applied.1 PAYER).lamports record.info.fee with
      | none => none
      | some lamports =>
        let after := applied.1.setLamports PAYER lamports
        if record.check chain keys before after outcome then
          match ledger.apply keys (keys action.sponsor) before after with
          | some next =>
            match recurse (used ||| (1#32 <<< index)) after next with
            | some found => some found
            | none => tryRecords chain keys recurse used before ledger rest
          | none => tryRecords chain keys recurse used before ledger rest
        else tryRecords chain keys recurse used before ledger rest

/-- `find_serialization`, nested at most to a depth. -/
def findFrom (chain : Chain) (keys : Keys) (finalState : Images)
    (records : List (Action × Record)) :
    ℕ → BitVec 32 → Images → RentLedger → Option RentLedger
  | 0, _, _, _ => none
  | depth + 1, used, before, ledger =>
    if countOnes used = records.length then
      if before = finalState then some ledger else none
    else
      tryRecords chain keys (findFrom chain keys finalState records depth) used before ledger
        (unused records used)

/-- `find_serialization`. Every nested call sets another of 32 bits. -/
def findSerialization (chain : Chain) (keys : Keys) (before finalState : Images)
    (records : List (Action × Record)) (used : BitVec 32) (ledger : RentLedger) :
    Option RentLedger :=
  findFrom chain keys finalState records 33 used before ledger

/-! ### What an action does -/

/-- The accounts after an action and its fee, with the error expected; nothing if the target has no
deposit in the ledger, or the payer cannot pay the fee. -/
def charged (chain : Chain) (keys : Keys) (state : Images × RentLedger) (action : Action)
    (fee : ℕ) : Option (Images × Option UiTransactionError) :=
  (state.2.deposits.lookup (keys TARGET)).bind fun deposit =>
    let applied := action.apply chain state.1 deposit
    (checkedSub (applied.1 PAYER).lamports fee).map fun lamports =>
      (applied.1.setLamports PAYER lamports, applied.2.map (UiTransactionError.instruction 0))

section Charged

variable {chain : Chain} {keys : Keys} {s : Images × RentLedger} {a : Action} {fee : ℕ}

theorem Images.setLamports_ne (images : Images) {i other : Fin 6} (lamports : ℕ)
    (h : other ≠ i) : images.setLamports i lamports other = images other :=
  Function.update_of_ne h _ _

theorem Images.setLamports_self (images : Images) (i : Fin 6) (lamports : ℕ) :
    (images.setLamports i lamports i).lamports = lamports := by
  rw [setLamports, Function.update_self]

theorem checkedSub_some {left right difference : ℕ} :
    checkedSub left right = some difference ↔ left = difference + right := by
  rw [checkedSub]
  split
  · rw [some.injEq]
    omega
  · exact ⟨nofun, fun h => by omega⟩

theorem charged_some {after : Images} {out : Option UiTransactionError}
    (h : charged chain keys s a fee = some (after, out)) :
    ∃ deposit lamports, s.2.deposits.lookup (keys TARGET) = some deposit ∧
      checkedSub ((a.apply chain s.1 deposit).1 PAYER).lamports fee =
        some lamports ∧
      after = (a.apply chain s.1 deposit).1.setLamports PAYER lamports ∧
      out = (a.apply chain s.1 deposit).2.map (UiTransactionError.instruction 0) := by
  obtain ⟨deposit, hdep, haf⟩ := bind_eq_some_iff.mp h
  obtain ⟨lamports, hlam, hpair⟩ := map_eq_some_iff.mp haf
  obtain ⟨rfl, rfl⟩ := Prod.mk.inj hpair
  exact ⟨deposit, lamports, hdep, hlam, rfl, rfl⟩

theorem charged_isSome (htgt : (s.2.deposits.lookup (keys TARGET)).isSome = true)
    (hfee : ∀ deposit, fee ≤ ((a.apply chain s.1 deposit).1 PAYER).lamports) :
    (charged chain keys s a fee).isSome = true := by
  obtain ⟨deposit, hdep⟩ := isSome_iff_exists.mp htgt
  rw [charged, hdep, bind_some]
  rw [isSome_map, checkedSub, if_pos (hfee deposit)]
  rfl

end Charged

/-! ### A small instance -/

def sampleChain : Chain := ⟨fun _ => 100, fun key => toString key, fun data => toString data.length⟩

def sampleKeys : Keys := fun index => 10 + index.val

def sampleImages (payer sponsor vault : ℕ) (target : Account) : Images := fun index =>
  if index = PAYER then { empty with lamports := payer }
  else if index = SPONSOR then { empty with lamports := sponsor }
  else if index = VAULT then { empty with lamports := vault }
  else if index = TARGET then target
  else empty

def sampleLedger : RentLedger :=
  ⟨(AList.insert 12 0 ∅).insert 15 0, ∅, ((AList.insert 10 100 ∅).insert 11 500).insert 14 0, 1000,
    0⟩

end Redsuite.Redhat
