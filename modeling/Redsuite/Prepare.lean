import Redsuite.Machine
import Mathlib.Algebra.BigOperators.Group.List.Basic
import Mathlib.Algebra.GroupWithZero.Nat
import Mathlib.Data.List.Range
import Mathlib.Data.List.Nodup
import Mathlib.Data.Option.Basic

/-!
# Creating cells

A model of `Accounts::prepare` and `Accounts::init_batched` in `core/src/redline/mod.rs` and of
`bounded` in `core/src/prep.rs`.
-/

namespace Redsuite.Redline

open List

variable {κ α : Type}

/-- The instructions of `prepare`, with the owner and the seed of their cell. -/
inductive Instruction (κ : Type) : Type where
  | create (owner : κ) (seed : ℕ)
  | delegate (owner : κ) (seed : ℕ)
  deriving DecidableEq

/-- The cell that an instruction creates. -/
def Instruction.creates : Instruction κ → Option (κ × ℕ)
  | .create owner seed => some (owner, seed)
  | .delegate _ _ => none

/-- What is given to `submit_and_confirm`. -/
structure Transaction (κ : Type) where
  payer : κ
  instructions : List (Instruction κ)
  deriving DecidableEq

/-- The cells that a transaction creates. -/
def Transaction.cells (self : Transaction κ) : List (κ × ℕ) :=
  self.instructions.filterMap Instruction.creates

/-- `per_tx`. -/
def perTx (delegated : Bool) : ℕ := if delegated then 2 else 4

/-- The instructions for one cell. -/
def cellInstructions (delegated : Bool) (owner : κ) (seed : ℕ) : List (Instruction κ) :=
  .create owner seed :: if delegated then [.delegate owner seed] else []

/-- The transactions of `prepare`, one for every turn of its loop. -/
def prepare (delegated : Bool) (owner : κ) (start stop : ℕ) : List (Transaction κ) :=
  (range ((stop - start + perTx delegated - 1) / perTx delegated)).map fun turn =>
    let first := start + turn * perTx delegated
    let last := min (first + perTx delegated) stop
    ⟨owner, (range' first (last - first)).flatMap (cellInstructions delegated owner)⟩

/-- `per_payer`. -/
def perPayer (payers count : ℕ) : ℕ := (count + payers - 1) / payers

/-- The `len` of a payer. -/
def share (payers count index : ℕ) : ℕ :=
  min (perPayer payers count) (count - index * perPayer payers count)

/-- What the payers send, in order: no more of them than there are cells. -/
def plans (payers : List κ) (count : ℕ) (delegated : Bool) : List (List (Transaction κ)) :=
  (payers.take count).zipIdx.map fun (payer, index) =>
    prepare delegated payer 0 (share payers.length count index)

/-- A run of `init_batched`. -/
structure Run (κ α : Type) where
  /-- for every payer that has begun the transactions that it has not sent yet -/
  left : List (List (Transaction κ))
  /-- the addresses of the payers that are finished and collected -/
  batches : List (List α)
  /-- the confirmed transactions -/
  log : List (Transaction κ)

/-- What happens in a run. -/
inductive Event : Type where
  /-- `buffered` begins with another payer -/
  | start
  /-- the next transaction of a payer is confirmed -/
  | confirmed (payer : ℕ)
  /-- the next payer in order is finished -/
  | collected

/-- The cells that transactions create. -/
def cellsOf (plan : List (Transaction κ)) : List (κ × ℕ) := plan.flatMap Transaction.cells

/-- One step of `init_batched`. A transaction that fails has no step: the run ends without a
result. -/
def step [DecidableEq κ] (pda : κ × ℕ → α) (plans : List (List (Transaction κ))) (run : Run κ α) :
    Event → Option (Run κ α)
  | .start => do
    guard (run.left.length < run.batches.length + 32)
    let plan ← plans[run.left.length]?
    some { run with left := run.left ++ [plan] }
  | .confirmed payer =>
    match run.left[payer]? with
    | some (transaction :: rest) =>
      some { run with left := run.left.set payer rest, log := run.log ++ [transaction] }
    | _ => none
  | .collected => do
    guard (run.left[run.batches.length]? = some [])
    let plan ← plans[run.batches.length]?
    some { run with batches := run.batches ++ [(cellsOf plan).map pda] }

/-! ### The plans -/

theorem cells_flatMap (delegated : Bool) (owner : κ) (seeds : List ℕ) :
    (seeds.flatMap (cellInstructions delegated owner)).filterMap Instruction.creates =
      seeds.map (owner, ·) := by
  induction seeds with
  | nil => rfl
  | cons seed seeds ih =>
    rw [flatMap_cons, filterMap_append, ih]
    cases delegated <;> rfl

theorem range'_chunks (start stop size turns : ℕ) :
    ((range turns).flatMap fun turn => range' (start + turn * size)
      (min (start + turn * size + size) stop - (start + turn * size))) =
      range' start (min (turns * size) (stop - start)) := by
  induction turns with
  | zero => simp
  | succ turns ih =>
    rw [range_succ, flatMap_append, ih, flatMap_singleton, Nat.succ_mul]
    rcases Nat.le_total (turns * size) (stop - start) with hle | hle
    · have hall : min (turns * size + size) (stop - start) =
          turns * size + (min (start + turns * size + size) stop - (start + turns * size)) := by
        omega
      rw [Nat.min_eq_left hle, hall, ← range'_append_1]
    · have hn : min (start + turns * size + size) stop - (start + turns * size) = 0 := by omega
      have hsm : min (turns * size + size) (stop - start) =
          min (turns * size) (stop - start) := by omega
      rw [hn, hsm, range'_zero, append_nil]

theorem le_ceil_mul (n : ℕ) {size : ℕ} (h : 0 < size) : n ≤ (n + size - 1) / size * size := by
  have hdiv := Nat.div_add_mod (n + size - 1) size
  have hmod := Nat.mod_lt (n + size - 1) h
  rw [Nat.mul_comm] at hdiv
  omega

theorem cellsOf_prepare (delegated : Bool) (owner : κ) (start stop : ℕ) :
    cellsOf (prepare delegated owner start stop) =
      (range' start (stop - start)).map (owner, ·) := by
  have hpos : 0 < perTx delegated := by cases delegated <;> decide
  have hall := le_ceil_mul (stop - start) hpos
  rw [cellsOf, prepare, flatMap_map]
  simp only [Transaction.cells, cells_flatMap]
  rw [← map_flatMap, range'_chunks, Nat.min_eq_right hall]

theorem mem_prepare {delegated : Bool} {owner : κ} {start stop : ℕ} {tx : Transaction κ}
    (h : tx ∈ prepare delegated owner start stop) :
    tx.cells.length ≤ perTx delegated ∧
      ∀ cell ∈ tx.cells, cell.1 = tx.payer := by
  obtain ⟨turn, -, rfl⟩ := mem_map.mp h
  rw [Transaction.cells, cells_flatMap, length_map, length_range']
  refine ⟨by omega, fun cell hcell => ?_⟩
  obtain ⟨seed, -, rfl⟩ := mem_map.mp hcell
  rfl

/-- The cells in the order of the payers and then of the seeds. -/
def cells (payers : List κ) (count : ℕ) : List (κ × ℕ) :=
  (payers.take count).zipIdx.flatMap fun (payer, index) =>
    (range (share payers.length count index)).map (payer, ·)

theorem sum_share (payers count n : ℕ) :
    ((range n).map (share payers count)).sum = min (n * perPayer payers count) count := by
  induction n with
  | zero => rw [Nat.zero_mul, Nat.zero_min]; rfl
  | succ n ih =>
    rw [range_succ, map_append, sum_append, ih, Nat.succ_mul, map_singleton, sum_singleton, share]
    omega

theorem cells_length {payers : List κ} (hpayers : payers ≠ []) (count : ℕ) :
    (cells payers count).length = count := by
  have hpos : 0 < payers.length := length_pos_iff.mpr hpayers
  have hlen : (cells payers count).length =
      ((range (payers.take count).length).map (share payers.length count)).sum := by
    rw [cells, length_flatMap, range_eq_range', ← zipIdx_map_snd 0 (payers.take count), map_map]
    simp [Function.comp_def]
  rw [hlen, sum_share, length_take]
  refine Nat.min_eq_right ?_
  rcases Nat.le_total payers.length count with hle | hle
  · rw [Nat.min_eq_right hle, Nat.mul_comm]
    exact le_ceil_mul count hpos
  · rw [Nat.min_eq_left hle]
    rcases Nat.eq_zero_or_pos count with rfl | hct
    · exact Nat.zero_le _
    · have hone : 0 < perPayer payers.length count := Nat.div_pos (by omega) hpos
      exact Nat.le_mul_of_pos_right count hone

theorem cells_nodup {payers : List κ} (h : payers.Nodup) (count : ℕ) :
    (cells payers count).Nodup := by
  rw [cells, nodup_flatMap]
  refine ⟨fun entry _ => nodup_range.map fun _ _ heq => congrArg Prod.snd heq, ?_⟩
  have hpayers : ((payers.take count).zipIdx.map Prod.fst).Nodup := by
    rw [zipIdx_map_fst]
    exact h.sublist (take_sublist _ _)
  refine (pairwise_map.mp hpayers).imp fun hne cell hone htwo => hne ?_
  obtain ⟨_, -, rfl⟩ := mem_map.mp hone
  obtain ⟨_, -, heq⟩ := mem_map.mp htwo
  exact (congrArg Prod.fst heq).symm

theorem cellsOf_flatten (all : List (List (Transaction κ))) :
    cellsOf all.flatten = all.flatMap cellsOf := by
  induction all with
  | nil => rfl
  | cons plan all ih =>
    rw [flatten_cons, cellsOf, flatMap_append, flatMap_cons, ← ih]
    rfl

theorem cellsOf_plans (payers : List κ) (count : ℕ) (delegated : Bool) :
    cellsOf (plans payers count delegated).flatten = cells payers count := by
  rw [cellsOf_flatten, plans, flatMap_map, cells]
  simp only [cellsOf_prepare, Nat.sub_zero, range_eq_range']

/-! ### The runs -/

variable {all : List (List (Transaction κ))} {pda : κ × ℕ → α}

/-- What holds in every run: the confirmed transactions and those to come are those of the plans,
and the batches are the addresses of the plans that are finished. -/
structure Inv (pda : κ × ℕ → α) (all : List (List (Transaction κ))) (run : Run κ α) : Prop where
  started : run.left.length ≤ all.length
  sent : run.log ++ (run.left.flatten ++ (all.drop run.left.length).flatten) ~ all.flatten
  finished : ∀ i < run.batches.length, run.left[i]? = some []
  batches : run.batches = (all.take run.batches.length).map fun plan => (cellsOf plan).map pda

theorem flatten_set_perm {β : Type} {l : List (List β)} {i : ℕ} {first : β} {rest : List β}
    (h : l[i]? = some (first :: rest)) : first :: (l.set i rest).flatten ~ l.flatten := by
  induction l generalizing i with
  | nil => cases h
  | cons x l ih =>
    cases i with
    | zero =>
      cases h
      exact .refl _
    | succ i =>
      rw [set_cons_succ, flatten_cons, flatten_cons]
      exact perm_middle.symm.trans ((ih h).append_left x)

theorem Inv.step [DecidableEq κ] {run after : Run κ α} {ev : Event} (h : Inv pda all run)
    (hst : step pda all run ev = some after) : Inv pda all after := by
  cases ev with
  | start =>
    obtain ⟨-, hst⟩ := of_guard hst
    obtain ⟨plan, hplan, hst⟩ := Option.bind_eq_some_iff.mp hst
    cases hst
    obtain ⟨hlt, rfl⟩ := List.getElem?_eq_some_iff.mp hplan
    refine ⟨?_, ?_, fun i hi => ?_, h.batches⟩
    · rw [length_append, length_singleton]
      exact hlt
    · have hsent := h.sent
      rw [drop_eq_getElem_cons hlt, flatten_cons] at hsent
      simpa using hsent
    · exact getElem?_append_of (h.finished i hi) _
  | confirmed payer =>
    simp only [Redline.step] at hst
    split at hst
    · rename_i tx rest hleft
      cases hst
      refine ⟨by rw [length_set]; exact h.started, ?_, fun i hi => ?_, h.batches⟩
      · rw [append_assoc, singleton_append, length_set, ← cons_append]
        exact (((flatten_set_perm hleft).append_right _).append_left _).trans h.sent
      · have hne : payer ≠ i := by
          rintro rfl
          cases hleft.symm.trans (h.finished _ hi)
        rw [getElem?_set_ne hne]
        exact h.finished i hi
    · cases hst
  | collected =>
    obtain ⟨hem, hst⟩ := of_guard hst
    obtain ⟨plan, hplan, hst⟩ := Option.bind_eq_some_iff.mp hst
    cases hst
    refine ⟨h.started, h.sent, fun i hi => ?_, ?_⟩
    · rw [length_append, length_singleton, Nat.lt_succ_iff_lt_or_eq] at hi
      rcases hi with hi | rfl
      · exact h.finished i hi
      · exact hem
    · rw [length_append, length_singleton, take_add_one, hplan, map_append, ← h.batches]
      rfl

/-- **Every cell is created once.** A run that has collected all payers has created as many cells
as were asked for, each by its owner and at most two or four in a transaction, all different if no
payer is listed twice; and it returns their addresses in the order of the payers and then of the
seeds. -/
theorem cells_created [DecidableEq κ] (pda : κ × ℕ → α) {payers : List κ} (hpayers : payers ≠ [])
    (count : ℕ) (delegated : Bool) {run : Run κ α}
    (h : Machine.Reachable (step pda (plans payers count delegated)) ⟨[], [], []⟩ run)
    (hdone : run.batches.length = (plans payers count delegated).length) :
    let created := cellsOf run.log
    created.length = count ∧ (payers.Nodup → created.Nodup) ∧
    (∀ transaction ∈ run.log, transaction.cells.length ≤ (if delegated then 2 else 4) ∧
      ∀ cell ∈ transaction.cells, cell.1 = transaction.payer) ∧
    created ~ cells payers count ∧ run.batches.flatten = (cells payers count).map pda := by
  have hinv : Inv pda (plans payers count delegated) run :=
    h.induction ⟨Nat.zero_le _, .refl _, by simp, rfl⟩
      fun _ _ _ hinv hstep => hinv.step hstep
  have hlength : (plans payers count delegated).length ≤ run.left.length := by
    by_contra hlt
    have hnone := hinv.finished run.left.length (by omega)
    rw [getElem?_eq_none (Nat.le_refl _)] at hnone
    cases hnone
  have hnothing : ∀ plan ∈ run.left, plan = [] := by
    intro plan hplan
    obtain ⟨i, hi, rfl⟩ := mem_iff_getElem.mp hplan
    have hempty := hinv.finished i (hi.trans_le (hinv.started.trans_eq hdone.symm))
    rwa [getElem?_eq_getElem hi, Option.some_inj] at hempty
  have hlog : run.log ~ (plans payers count delegated).flatten := by
    have hsent := hinv.sent
    rw [flatten_eq_nil_iff.mpr hnothing, drop_eq_nil_of_le hlength] at hsent
    simpa using hsent
  have hcreated : cellsOf run.log ~ cells payers count := by
    rw [← cellsOf_plans payers count delegated]
    exact hlog.flatMap_right _
  refine ⟨hcreated.length_eq.trans (cells_length hpayers count),
    fun hdistinct => hcreated.nodup_iff.mpr (cells_nodup hdistinct count), ?_, hcreated, ?_⟩
  · intro transaction hmem
    obtain ⟨plan, hplan, hin⟩ := mem_flatten.mp (hlog.subset hmem)
    obtain ⟨entry, -, rfl⟩ := mem_map.mp hplan
    exact mem_prepare hin
  · rw [hinv.batches, hdone, take_length, ← cellsOf_plans payers count delegated, cellsOf_flatten,
      map_flatMap, flatMap_def]

/-- Two payers create five cells. -/
def fiveCells : Run ℕ (ℕ × ℕ) :=
  Machine.goOn (step id (plans [7, 9] 5 true)) ⟨[], [], []⟩
    [.start, .start, .confirmed 1, .confirmed 0, .collected, .confirmed 0, .collected, .collected]

theorem cells_created_five : fiveCells.log.map (·.payer) = [9, 7, 7] ∧
    (cellsOf fiveCells.log).length = 5 ∧ (cellsOf fiveCells.log).Nodup ∧
    fiveCells.batches.flatten = [(7, 0), (7, 1), (7, 2), (9, 0), (9, 1)] := by
  obtain ⟨hlength, hnodup, -, -, hbatches⟩ :=
    cells_created id (by decide) 5 true (Machine.reachable_goOn _ _)
      (by decide : fiveCells.batches.length = (plans [7, 9] 5 true).length)
  exact ⟨by decide, hlength, hnodup (by decide), hbatches.trans (by decide)⟩

/-- **A payer that is listed twice creates the same cell twice**, in two equal transactions. -/
theorem payer_listed_twice :
    let run : Run ℕ (ℕ × ℕ) := Machine.goOn (step id (plans [7, 7] 2 false)) ⟨[], [], []⟩
      [.start, .start, .confirmed 0, .confirmed 1, .collected, .collected]
    run.batches.length = (plans [7, 7] 2 false).length ∧
      run.log = [⟨7, [.create 7 0]⟩, ⟨7, [.create 7 0]⟩] ∧ run.batches = [[(7, 0)], [(7, 0)]] := by
  decide

end Redsuite.Redline
