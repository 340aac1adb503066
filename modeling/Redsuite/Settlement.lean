import Redsuite.Execute
import Mathlib.Algebra.BigOperators.Group.Finset.Basic

/-!
# Results of actions

A model of `handle_result` in `programs/fixture/src/execute/settlement.rs`.
-/

namespace Redsuite.Fixture

open List

/-- `Refund`: what is given back if the action failed. -/
structure Refund (κ : Type) where
  recipient : κ
  amount : UInt64

/-- `ResultCallback`, without its compute units. -/
structure ResultCallback (κ : Type) where
  cell : κ
  refund : Option (Refund κ)

/-- `MagicResponse`, whether it is `ok` and its `data`. -/
structure MagicResponse where
  ok : Bool
  data : List UInt8

/-- `bincode::deserialize`, `wincode::deserialize_exact` and `CALLBACK_SIGNER`. -/
structure Formats (κ : Type) where
  response : List UInt8 → Option MagicResponse
  effect : List UInt8 → Option (ResultCallback κ)
  callbackSigner : κ

/-- `checked_sub`. -/
def checkedSub (a b : UInt64) : Option UInt64 := if b.toNat ≤ a.toNat then some (a - b) else none

variable {κ : Type} [DecidableEq κ]

/-- `set_lamports`. -/
def setLamports (memory : Memory κ) (account : κ) (lamports : UInt64) : Memory κ :=
  Function.update memory account { memory account with lamports }

/-- The refund of `handle_result`: both balances are read before either is written. -/
def payBack (memory : Memory κ) (cell : κ) :
    Bool → Option (Refund κ) → List (AccountInfo κ) → Except ProgramError (Memory κ)
  | true, some refund, [recipient] =>
    if recipient.key ≠ refund.recipient then .error .invalidArgument
    else do
      let debit ← okOr .insufficientFunds (checkedSub (memory cell).lamports refund.amount)
      let credit ← okOr .arithmeticOverflow
        (checkedAdd (memory recipient.key).lamports refund.amount)
      return setLamports (setLamports memory cell debit) recipient.key credit
  | true, some _, _ => .error .notEnoughAccountKeys
  | _, _, _ => .ok memory

/-- `handle_result`. -/
def handleResult (formats : Formats κ) (accounts : List (AccountInfo κ)) (memory : Memory κ)
    (data : List UInt8) : Except ProgramError (Memory κ) :=
  match accounts with
  | signer :: cell :: remaining =>
    if signer.key ≠ formats.callbackSigner ∨ signer.isSigner = false then
      .error .missingRequiredSignature
    else do
      let response ← okOr .invalidInstructionData (formats.response data)
      let effect ← okOr .invalidInstructionData (formats.effect response.data)
      if cell.key ≠ effect.cell then .error .invalidArgument
      else
        let memory ← payBack memory cell.key (!response.ok) effect.refund remaining
        adjust memory cell.key (if !response.ok then 1 else 0)
  | _ => .error .notEnoughAccountKeys

/-! ### What a result does -/

variable {memory memory' : Memory κ} {cell : κ}

theorem of_checkedSub {a b difference : UInt64} (h : checkedSub a b = some difference) :
    difference.toNat + b.toNat = a.toNat := by
  rw [checkedSub] at h
  split at h
  · rename_i hle
    cases h
    rw [UInt64.toNat_sub_of_le _ _ hle]
    omega
  · cases h

theorem of_checkedAddSigned {a sum : UInt64} {change : Int64}
    (h : checkedAddSigned a change = some sum) : (sum.toNat : ℤ) = a.toNat + change.toInt := by
  simp only [checkedAddSigned, Option.ite_none_right_eq_some, Option.some.injEq] at h
  obtain ⟨⟨hpos, hlt⟩, rfl⟩ := h
  rw [UInt64.toNat_ofNat', Nat.mod_eq_of_lt (by omega), Int.toNat_of_nonneg hpos]

theorem update_lamports {f : Edit} (h : update memory cell f = .ok memory') (key : κ) :
    (memory' key).lamports = (memory key).lamports := by
  obtain ⟨data, -, h⟩ := except_bind_ok h
  cases h
  by_cases hk : key = cell
  · rw [hk, Function.update_self]
  · rw [Function.update_of_ne hk]

/-- The record of a result on a cell: its revision grows by one, and its value if the action
failed. -/
def Recorded (failed : Bool) (before after : List UInt8) : Prop :=
  ∃ header header', CellHeader.tryDecode before = some header ∧
    CellHeader.tryDecode after = some header' ∧
    header'.value.toNat = header.value.toNat + failed.toNat ∧
    header'.revision.toNat = header.revision.toNat + 1

theorem adjust_recorded {failed : Bool}
    (h : adjust memory cell (if failed then 1 else 0) = .ok memory') :
    Recorded failed (memory cell).data (memory' cell).data := by
  obtain ⟨data, hdata, h⟩ := except_bind_ok h
  cases h
  obtain ⟨header, header', payload, revision, hcell, hedit, hrev, hout⟩ := Edit.run_ok hdata
  obtain ⟨value, hval, hedit⟩ := except_bind_ok hedit
  cases hedit
  refine ⟨header, _, hcell, by rw [Function.update_self]; exact (hout rfl).1, ?_, hrev⟩
  have hsum := of_checkedAddSigned (of_okOr hval)
  cases failed <;> exact Int.ofNat_inj.mp hsum

theorem setLamports_data (memory : Memory κ) (account : κ) (lamports : UInt64) (key : κ) :
    (setLamports memory account lamports key).data = (memory key).data := by
  by_cases hk : key = account
  · rw [setLamports, hk, Function.update_self]
  · rw [setLamports, Function.update_of_ne hk]

theorem payBack_ok {failed : Bool} {refund : Option (Refund κ)} {remaining : List (AccountInfo κ)}
    (h : payBack memory cell failed refund remaining = .ok memory') :
    memory' = memory ∧ (failed = false ∨ refund = none) ∨
    ∃ back debit credit, failed = true ∧ refund = some back ∧
      back.recipient ∈ remaining.map AccountInfo.key ∧
      debit.toNat + back.amount.toNat = (memory cell).lamports.toNat ∧
      credit.toNat = (memory back.recipient).lamports.toNat + back.amount.toNat ∧
      memory' = setLamports (setLamports memory cell debit) back.recipient credit := by
  unfold payBack at h
  split at h
  · rename_i back recipient
    split at h
    · cases h
    · rename_i heq
      have heq := not_not.mp heq
      rw [heq] at h
      obtain ⟨debit, hdebit, h⟩ := except_bind_ok h
      obtain ⟨credit, hcredit, h⟩ := except_bind_ok h
      cases h
      exact .inr ⟨back, debit, credit, rfl, rfl, by simp [heq], of_checkedSub (of_okOr hdebit),
        of_checkedAdd (of_okOr hcredit), rfl⟩
  · cases h
  · rename_i hnot _
    cases h
    refine .inl ⟨rfl, ?_⟩
    rcases failed with _ | _
    · exact .inl rfl
    · rcases refund with _ | back
      · exact .inr rfl
      · exact (hnot back rfl rfl).elim

/-- The lamports of the accounts, each counted once. -/
def total (accounts : List (AccountInfo κ)) (memory : Memory κ) : ℕ :=
  ∑ key ∈ (accounts.map AccountInfo.key).toFinset, (memory key).lamports.toNat

theorem total_setLamports {accounts : List (AccountInfo κ)} {account : κ}
    (h : account ∈ accounts.map AccountInfo.key) (memory : Memory κ) (lamports : UInt64) :
    total accounts (setLamports memory account lamports) + (memory account).lamports.toNat =
      total accounts memory + lamports.toNat := by
  have hm := mem_toFinset.mpr h
  have hrest : ∀ key ∈ (accounts.map AccountInfo.key).toFinset.erase account,
      (setLamports memory account lamports key).lamports.toNat =
        (memory key).lamports.toNat := by
    intro key hk
    rw [setLamports, Function.update_of_ne (Finset.ne_of_mem_erase hk)]
  rw [total, total, ← Finset.add_sum_erase _ _ hm, ← Finset.add_sum_erase _ _ hm,
    Finset.sum_congr rfl hrest, setLamports, Function.update_self]
  dsimp only
  omega

theorem handleResult_ok {formats : Formats κ} {accounts : List (AccountInfo κ)} {data : List UInt8}
    {response : MagicResponse} {effect : ResultCallback κ}
    (hresp : formats.response data = some response)
    (heff : formats.effect response.data = some effect)
    (h : handleResult formats accounts memory data = .ok memory') :
    effect.cell ∈ accounts.map AccountInfo.key ∧ ∃ paid remaining,
      remaining ⊆ accounts ∧
      payBack memory effect.cell (!response.ok) effect.refund remaining = .ok paid ∧
      adjust paid effect.cell (if !response.ok then 1 else 0) = .ok memory' := by
  unfold handleResult at h
  split at h
  · rename_i signer cell remaining
    split at h
    · cases h
    · rw [hresp] at h
      obtain ⟨_, ⟨⟩, h⟩ := except_bind_ok h
      rw [heff] at h
      obtain ⟨_, ⟨⟩, h⟩ := except_bind_ok h
      split at h
      · cases h
      · rename_i hcell
        rw [not_not.mp hcell] at h
        obtain ⟨paid, hpaid, h⟩ := except_bind_ok h
        exact ⟨by simp [not_not.mp hcell], paid, remaining, by simp, hpaid, h⟩
  · cases h

/-- **What an accepted result does.** It is recorded on the cell. A balance changes only if the
action failed and there is a refund; then the cell pays the amount and the recipient gets it, if
they differ. If the recipient is the cell, its balance grows by the amount: lamports are won exactly
if that is not nothing. -/
theorem result_handled (formats : Formats κ) (accounts : List (AccountInfo κ))
    (memory memory' : Memory κ) (data : List UInt8) (response : MagicResponse)
    (effect : ResultCallback κ) (hresp : formats.response data = some response)
    (heff : formats.effect response.data = some effect)
    (h : handleResult formats accounts memory data = .ok memory') :
    Recorded (!response.ok) (memory effect.cell).data (memory' effect.cell).data ∧
    (response.ok = true ∨ effect.refund = none →
      ∀ key, (memory' key).lamports = (memory key).lamports) ∧
    (∀ refund, response.ok = false → effect.refund = some refund →
      refund.recipient ≠ effect.cell →
        (memory' effect.cell).lamports.toNat + refund.amount.toNat =
          (memory effect.cell).lamports.toNat ∧
        (memory' refund.recipient).lamports.toNat =
          (memory refund.recipient).lamports.toNat + refund.amount.toNat ∧
        ∀ key, key ≠ effect.cell → key ≠ refund.recipient →
          (memory' key).lamports = (memory key).lamports) ∧
    (total accounts memory' = total accounts memory ↔
      ∀ refund, response.ok = false → effect.refund = some refund →
        refund.recipient ≠ effect.cell ∨ refund.amount = 0) ∧
    ∀ refund, response.ok = false → effect.refund = some refund → refund.recipient = effect.cell →
      (memory' effect.cell).lamports.toNat =
        (memory effect.cell).lamports.toNat + refund.amount.toNat := by
  obtain ⟨hcell, paid, remaining, hsub, hpaid, h⟩ := handleResult_ok hresp heff h
  have hlam := update_lamports h
  have hrec := adjust_recorded h
  have htotal : total accounts memory' = total accounts paid :=
    Finset.sum_congr rfl fun key _ => by rw [hlam]
  rcases payBack_ok hpaid with ⟨rfl, hnone⟩ |
    ⟨back, debit, credit, hfailed, hback, hin, hdebit, hcredit, rfl⟩
  · have hno : ∀ refund, response.ok = false → effect.refund ≠ some refund := by
      intro refund hok hsome
      rcases hnone with hok' | hnone
      · rw [hok] at hok'
        cases hok'
      · cases hnone.symm.trans hsome
    refine ⟨hrec, fun _ => hlam, fun refund hok hsome => absurd hsome (hno refund hok),
      iff_of_true htotal fun refund hok hsome => absurd hsome (hno refund hok),
      fun refund hok hsome => absurd hsome (hno refund hok)⟩
  · rw [setLamports_data, setLamports_data] at hrec
    have hrecipient : back.recipient ∈ accounts.map AccountInfo.key := map_subset _ hsub hin
    have hok : response.ok = false := by simpa using hfailed
    refine ⟨hrec, ?_, ?_, ?_, ?_⟩
    · rintro (htrue | hnone)
      · cases hok.symm.trans htrue
      · cases hback.symm.trans hnone
    · intro refund _ hsome hne
      obtain rfl := Option.some.inj (hback.symm.trans hsome)
      refine ⟨?_, ?_, fun key hone htwo => ?_⟩
      · rw [hlam, setLamports, Function.update_of_ne hne.symm, setLamports, Function.update_self]
        exact hdebit
      · rw [hlam, setLamports, Function.update_self]
        exact hcredit
      · rw [hlam, setLamports, Function.update_of_ne htwo, setLamports, Function.update_of_ne hone]
    · have hone := total_setLamports hcell memory debit
      have htwo := total_setLamports hrecipient (setLamports memory effect.cell debit) credit
      have hbetween : (setLamports memory effect.cell debit back.recipient).lamports.toNat =
          if back.recipient = effect.cell then debit.toNat
          else (memory back.recipient).lamports.toNat := by
        rw [setLamports, Function.update_apply]
        split <;> rfl
      have hzero : back.amount = 0 ↔ back.amount.toNat = 0 := UInt64.toNat_inj.symm
      rw [htotal]
      constructor
      · intro heq refund _ hsome
        obtain rfl := Option.some.inj (hback.symm.trans hsome)
        refine or_iff_not_imp_left.mpr fun hsame => hzero.mpr ?_
        rw [hbetween, if_pos (not_not.mp hsame)] at htwo
        rw [not_not.mp hsame] at hcredit
        omega
      · intro hcond
        by_cases hsame : back.recipient = effect.cell
        · have hnothing := hzero.mp ((hcond back hok hback).resolve_left (not_not.mpr hsame))
          rw [hbetween, if_pos hsame] at htwo
          rw [hsame] at hcredit
          omega
        · rw [hbetween, if_neg hsame] at htwo
          omega
    · intro refund _ hsome heq
      obtain rfl := Option.some.inj (hback.symm.trans hsome)
      rw [hlam, ← heq, setLamports, Function.update_self]
      exact hcredit

/-- A response is a byte for `ok` and its data; an effect the cell, the recipient and the amount. -/
def sampleFormats : Formats ℕ where
  response data := data.head?.map fun ok => ⟨ok ≠ 0, data.tail⟩
  effect
    | [cell, recipient, amount] => some ⟨cell.toNat, some ⟨recipient.toNat, amount.toUInt64⟩⟩
    | _ => none
  callbackSigner := 0

/-- Every account is a cell with ten lamports. -/
def sampleBalances : Memory ℕ := fun _ => { sampleMemory () with lamports := 10 }

theorem result_handled_sample : ∃ memory',
    handleResult sampleFormats [⟨0, true⟩, ⟨1, false⟩, ⟨2, false⟩] sampleBalances [0, 1, 2, 3] =
      .ok memory' ∧ (memory' 2).lamports.toNat = 13 := by
  obtain ⟨memory', h⟩ : ∃ memory', handleResult sampleFormats
    [⟨0, true⟩, ⟨1, false⟩, ⟨2, false⟩] sampleBalances [0, 1, 2, 3] = .ok memory' := ⟨_, rfl⟩
  have hmoved := (result_handled _ _ _ _ _ _ _ rfl rfl h).2.2.1 ⟨2, 3⟩ rfl rfl (by decide)
  exact ⟨memory', h, hmoved.2.1⟩

theorem refund_to_itself : ∃ memory',
    handleResult sampleFormats [⟨0, true⟩, ⟨1, false⟩, ⟨1, false⟩] sampleBalances [0, 1, 1, 3] =
      .ok memory' ∧ (memory' 1).lamports = 13 ∧
    total [⟨0, true⟩, ⟨1, false⟩, ⟨1, false⟩] memory' =
      total [⟨0, true⟩, ⟨1, false⟩, ⟨1, false⟩] sampleBalances + 3 :=
  ⟨_, rfl, by decide, by decide⟩

end Redsuite.Fixture
