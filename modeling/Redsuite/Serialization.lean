import Redsuite.Backtrack
import Redsuite.Ephemeral
import Mathlib.Algebra.Order.BigOperators.Group.List
import Mathlib.Algebra.Order.Group.Nat

/-!
# Serial orders that explain records

`find_serialization` looks for an order of all records that explains them.
-/

namespace Redsuite.Redhat

open List Option Backtrack

/-! ### Explanations -/

section Explain

variable (chain : Chain) (keys : Keys)

/-- The accounts and the ledger after a record, if the record is as expected and the ledger
agrees. -/
def explain (state : Images × RentLedger) (entry : Action × Record) :
    Option (Images × RentLedger) :=
  (charged chain keys state entry.1 entry.2.info.fee).bind fun after =>
    if entry.2.check chain keys state.1 after.1 after.2 then
      (state.2.apply keys (keys entry.1.sponsor) state.1 after.1).map (after.1, ·)
    else none

def attempt (state : Images × RentLedger) (entry : Action × Record) :
    Backtrack.Verdict (Images × RentLedger) :=
  match charged chain keys state entry.1 entry.2.info.fee, explain chain keys state entry with
  | none, _ => .abandon
  | some _, none => .reject
  | some _, some next => .accept next

def reaches (finalState : Images) (state : Images × RentLedger) : Option RentLedger :=
  if state.1 = finalState then some state.2 else none

end Explain

section Attempt

variable {chain : Chain} {keys : Keys} {s next : Images × RentLedger} {e : Action × Record}

theorem attempt_accept : attempt chain keys s e = .accept next ↔
    explain chain keys s e = some next := by
  rw [attempt]
  cases hchgd : charged chain keys s e.1 e.2.info.fee with
  | none =>
    rw [explain, hchgd]
    exact ⟨nofun, nofun⟩
  | some after =>
    cases explain chain keys s e with
    | none => exact ⟨nofun, nofun⟩
    | some found =>
      exact ⟨fun h => congrArg some (Backtrack.Verdict.accept.inj h),
        fun h => congrArg Backtrack.Verdict.accept (some.inj h)⟩

theorem attempt_abandon : attempt chain keys s e = .abandon ↔
    charged chain keys s e.1 e.2.info.fee = none := by
  rw [attempt]
  cases charged chain keys s e.1 e.2.info.fee with
  | none => exact ⟨fun _ => rfl, fun _ => rfl⟩
  | some after => cases explain chain keys s e <;> exact ⟨nofun, nofun⟩

end Attempt

/-! ### The search -/

section Mask

variable {used : BitVec 32} {i other : ℕ}

theorem mask_clear (h : i < 32) :
    used &&& (1#32 <<< i) = 0#32 ↔ used.getLsbD i = false := by
  constructor
  · intro hzero
    have hbit := congrArg (·.getLsbD i) hzero
    simpa [h] using hbit
  · intro hclear
    refine BitVec.eq_of_getLsbD_eq fun p hpl => ?_
    by_cases hpl : p = i
    · simp [hpl, hclear]
    · have hshift : p - i = 0 → p < i := by omega
      grind

theorem mask_set (h : other < 32) : (used ||| (1#32 <<< i)).getLsbD other =
    (used.getLsbD other || decide (other = i)) := by
  grind

end Mask

/-- The bits that are set are the path. -/
structure Marks (used : BitVec 32) (path : List ℕ) : Prop where
  nodup : path.Nodup
  bound : ∀ index ∈ path, index < 32
  bits : ∀ index < 32, used.getLsbD index = decide (index ∈ path)

section Marks

variable {used : BitVec 32} {path : List ℕ} {i : ℕ}

theorem marks_zero : Marks 0#32 [] :=
  ⟨.nil, forall_mem_nil _, fun i _ => by simp⟩

theorem Marks.set (h : Marks used path) (hi : i < 32) (hfr : i ∉ path) :
    Marks (used ||| (1#32 <<< i)) (i :: path) := by
  refine ⟨nodup_cons.mpr ⟨hfr, h.nodup⟩, List.forall_mem_cons.mpr ⟨hi, h.bound⟩,
    fun other ho => ?_⟩
  rw [mask_set ho, h.bits other ho, ← Bool.decide_or]
  exact decide_eq_decide.mpr (by rw [mem_cons]; exact or_comm)

theorem Marks.countOnes_eq (h : Marks used path) : countOnes used = path.length := by
  refine List.Perm.length_eq ((perm_ext_iff_of_nodup (nodup_range.filter _) h.nodup).mpr ?_)
  intro i
  rw [mem_filter, List.mem_range]
  constructor
  · rintro ⟨hi, hbit⟩
    rw [h.bits i hi] at hbit
    exact of_decide_eq_true hbit
  · intro hm
    exact ⟨h.bound i hm, by rw [h.bits i (h.bound i hm)]; exact decide_eq_true hm⟩

theorem Marks.unused_eq (h : Marks used path) {records : List (Action × Record)}
    (hlen : records.length ≤ 32) : unused records used = Backtrack.free records path := by
  refine List.filter_congr fun e he => ?_
  obtain ⟨hi, -⟩ := List.getElem?_eq_some_iff.mp (List.mem_zipIdx_iff_getElem?.mp he)
  rw [decide_eq_decide, mask_clear (Nat.lt_of_lt_of_le hi hlen),
    h.bits _ (Nat.lt_of_lt_of_le hi hlen), decide_eq_false_iff_not]

end Marks

section Find

variable {chain : Chain} {keys : Keys} {rs : List (Action × Record)}

theorem tryRecords_eq {recurse : BitVec 32 → Images → RentLedger → Option RentLedger}
    {descend : ℕ → Images × RentLedger → Option RentLedger} {used : BitVec 32} {before : Images}
    {ledger : RentLedger} {es : List ((Action × Record) × ℕ)}
    (h : ∀ e ∈ es, ∀ after next,
      recurse (used ||| (1#32 <<< e.2)) after next = descend e.2 (after, next)) :
    tryRecords chain keys recurse used before ledger es =
      firstOf (attempt chain keys) descend (before, ledger) es := by
  induction es with
  | nil => rfl
  | cons e es ih =>
    obtain ⟨⟨a, r⟩, i⟩ := e
    obtain ⟨he, hr⟩ := List.forall_mem_cons.mp h
    specialize ih hr
    rw [tryRecords, firstOf, attempt, explain, charged]
    cases ledger.deposits.lookup (keys TARGET) with
    | none => rfl
    | some deposit =>
      dsimp only [bind_some]
      cases checkedSub ((a.apply chain before deposit).1 PAYER).lamports r.info.fee with
      | none => rfl
      | some lamports =>
        dsimp only [map_some, bind_some]
        split
        · cases ledger.apply keys (keys a.sponsor) before
            ((a.apply chain before deposit).1.setLamports PAYER lamports) with
          | none => exact ih
          | some next =>
            dsimp only [map_some]
            rw [he]
            cases descend i ((a.apply chain before deposit).1.setLamports PAYER lamports, next) with
            | none => exact ih
            | some found => rfl
        · exact ih

/-- **`find_serialization` is the search**, with a mask for the indices that are used. -/
theorem findFrom_eq {finalState : Images} (hlen : rs.length ≤ 32) {left depth : ℕ}
    {used : BitVec 32} {path : List ℕ} (hmarks : Marks used path)
    (hbd : ∀ i ∈ path, i < rs.length)
    (hleft : left + path.length = rs.length) (hdepth : left < depth) (before : Images)
    (ledger : RentLedger) :
    findFrom chain keys finalState rs depth used before ledger =
      explore (attempt chain keys) (reaches finalState) rs left path
        (before, ledger) := by
  induction left generalizing depth used path before ledger with
  | zero =>
    obtain ⟨depth, rfl⟩ := Nat.exists_eq_add_one_of_ne_zero (Nat.ne_of_gt hdepth)
    rw [findFrom, if_pos (by rw [hmarks.countOnes_eq]; omega)]
    rfl
  | succ left ih =>
    obtain ⟨depth, rfl⟩ := Nat.exists_eq_add_one_of_ne_zero (Nat.ne_zero_of_lt hdepth)
    rw [findFrom, if_neg (by rw [hmarks.countOnes_eq]; omega), hmarks.unused_eq hlen,
      explore]
    refine tryRecords_eq fun e he after next => ?_
    obtain ⟨hget, hfr⟩ := mem_free.mp he
    obtain ⟨hi, -⟩ := List.getElem?_eq_some_iff.mp hget
    exact ih (hmarks.set (Nat.lt_of_lt_of_le hi hlen) hfr)
      (List.forall_mem_cons.mpr ⟨hi, hbd⟩) (by rw [List.length_cons]; omega) (by omega) _ _

theorem findSerialization_eq (hlen : rs.length ≤ 32) (before finalState : Images)
    (ledger : RentLedger) :
    findSerialization chain keys before finalState rs 0#32 ledger =
      explore (attempt chain keys) (reaches finalState) rs rs.length []
        (before, ledger) :=
  findFrom_eq hlen marks_zero (forall_mem_nil _) rfl (Nat.lt_succ_of_le hlen) before ledger

end Find

/-! ### Orders of records -/

def inOrder (records : List (Action × Record)) (order : List ℕ) : List (Action × Record) :=
  order.filterMap (records[·]?)
variable {es : List (Action × Record)}


section Orders

variable {chain : Chain} {keys : Keys} {rs : List (Action × Record)} {order : List ℕ}
  {s final : Images × RentLedger}

theorem inOrder_cons {i : ℕ} {e : Action × Record} (h : rs[i]? = some e) :
    inOrder rs (i :: order) = e :: inOrder rs order :=
  filterMap_cons_some h

theorem forall₂_range (rs : List (Action × Record)) :
    List.Forall₂ (fun e i => rs[i]? = some e) rs
      (List.range rs.length) := by
  refine forall₂_iff_get.mpr ⟨length_range.symm, fun i hi hrange => ?_⟩
  rw [get_eq_getElem, getElem_range]
  exact getElem?_eq_getElem hi

theorem inOrder_of_forall₂ (h : List.Forall₂ (fun e i => rs[i]? = some e) es order) :
    inOrder rs order = es := by
  induction h with
  | nil => rfl
  | cons hget _ ih => rw [inOrder_cons hget, ih]

theorem exists_inOrder (h : es.Perm rs) :
    ∃ order, order.Perm (List.range rs.length) ∧ inOrder rs order = es := by
  obtain ⟨order, horder, hpm⟩ := perm_comp_forall₂ h (forall₂_range rs)
  exact ⟨order, hpm, inOrder_of_forall₂ horder⟩

theorem perm_inOrder (h : order.Perm (List.range rs.length)) :
    (inOrder rs order).Perm rs := by
  have hpm := h.filterMap (rs[·]?)
  rwa [← inOrder, ← inOrder, inOrder_of_forall₂ (forall₂_range rs)] at hpm

theorem leads_iff (hbd : ∀ i ∈ order, i < rs.length) :
    Leads (attempt chain keys) rs s order final ↔
      (inOrder rs order).foldlM (explain chain keys) s = some final := by
  induction order generalizing s with
  | nil => exact ⟨congrArg some, some.inj⟩
  | cons i order ih =>
    obtain ⟨hi, hr⟩ := List.forall_mem_cons.mp hbd
    have hget := getElem?_eq_getElem hi
    rw [inOrder_cons hget, foldlM_cons, bind_eq_bind, bind_eq_some_iff]
    constructor
    · rintro ⟨e, next, he, haccept, hleads⟩
      cases hget.symm.trans he
      exact ⟨next, attempt_accept.mp haccept, (ih hr).mp hleads⟩
    · rintro ⟨next, hexplain, hfold⟩
      exact ⟨_, next, hget, attempt_accept.mpr hexplain, (ih hr).mpr hfold⟩

/-- At every point of an order, the fee of each record can be paid that is not used and stands
before the next one in the list. -/
def Uncut (chain : Chain) (keys : Keys) (records : List (Action × Record)) :
    List ℕ → Images × RentLedger → List ℕ → Prop
  | _, _, [] => True
  | used, state, index :: order =>
    (∀ other entry, other < index → other ∉ used → records[other]? = some entry →
      (charged chain keys state entry.1 entry.2.info.fee).isSome = true) ∧
    ∀ entry next, records[index]? = some entry → explain chain keys state entry = some next →
      Uncut chain keys records (index :: used) next order

theorem uncut_iff {used : List ℕ} : Uncut chain keys rs used s order ↔
    Backtrack.Reached (attempt chain keys) rs used s order := by
  induction order generalizing used s with
  | nil => exact Iff.rfl
  | cons i order ih =>
    have hpaid (e : Action × Record) :
        (charged chain keys s e.1 e.2.info.fee).isSome = true ↔
          attempt chain keys s e ≠ .abandon := by
      rw [Ne, attempt_abandon, ← not_isSome_iff_eq_none, not_not]
    rw [Uncut, Backtrack.Reached]
    simp only [hpaid, ih, attempt_accept]

end Orders

theorem reaches_some {finalState : Images} {s : Images × RentLedger} {found : RentLedger} :
    reaches finalState s = some found ↔ s = (finalState, found) := by
  rw [reaches]
  split
  · rename_i h
    rw [some.injEq, Prod.ext_iff]
    exact ⟨fun hf => ⟨h, hf⟩, And.right⟩
  · rename_i h
    exact ⟨nofun, fun heq => absurd (congrArg Prod.fst heq) h⟩

/-! ### What is found -/

def sampleTarget : Account := ⟨0, List.replicate 2 0, 77, false, u64Max⟩

def sampleBefore : Images := sampleImages 100 500 1000 empty

def sampleFinal : Images := sampleImages 95 400 1100 sampleTarget

def sampleMade : Action × Record :=
  (⟨.create 2, 77, 0, SPONSOR⟩, ⟨[11, 13, 12], ⟨none, 0, [500, 1000, 0], [400, 1100, 0],
    some ((observation sampleChain sampleBefore ++
      observation sampleChain (sampleImages 100 400 1100 sampleTarget)).map
      ("Program log: CellObservation: " ++ ·))⟩⟩)

def sampleLate : Action × Record :=
  (⟨.create 2, 77, 0, PAYER⟩,
    ⟨[10], ⟨some (.instruction 0 .invalidAccountData), 5, [100], [95], none⟩⟩)

/-- **What `find_serialization` finds is an explanation.** There is an order of all records in
which each is as the oracle predicts, the ledger agrees with each, the accounts end as they are,
and the ledger ends as the one that is returned. -/
theorem serialization_sound (chain : Chain) (keys : Keys) (before finalState : Images)
    (records : List (Action × Record)) (ledger found : RentLedger) (hlength : records.length ≤ 32)
    (h : findSerialization chain keys before finalState records 0#32 ledger = some found) :
    ∃ order : List (Action × Record), order.Perm records ∧
      order.foldlM (explain chain keys) (before, ledger) = some (finalState, found) := by
  rw [findSerialization_eq hlength] at h
  obtain ⟨order, final, hperm, hleads, hgoal, -⟩ :=
    explore_sound .nil (forall_mem_nil _) rfl h
  rw [append_nil] at hperm
  refine ⟨inOrder records order, perm_inOrder hperm, ?_⟩
  rw [← reaches_some.mp hgoal]
  exact (leads_iff fun index hindex => List.mem_range.mp (hperm.mem_iff.mp hindex)).mp hleads

theorem serialization_sound_sample :
    ∃ (order : List (Action × Record)) (found : RentLedger), order.Perm [sampleMade, sampleLate] ∧
      order.foldlM (explain sampleChain sampleKeys) (sampleBefore, sampleLedger) =
        some (sampleFinal, found) := by
  have hsome : (findSerialization sampleChain sampleKeys sampleBefore sampleFinal
      [sampleMade, sampleLate] 0#32 sampleLedger).isSome = true := by
    decide +kernel
  obtain ⟨found, hfound⟩ := isSome_iff_exists.mp hsome
  obtain ⟨order, horder, hfold⟩ := serialization_sound sampleChain sampleKeys sampleBefore
    sampleFinal [sampleMade, sampleLate] sampleLedger found (by decide) hfound
  exact ⟨order, found, horder, hfold⟩

/-! ### Fees that can be paid -/

section Fees

variable {chain : Chain} {keys : Keys} {s next : Images × RentLedger} {e : Action × Record}

theorem Action.apply_payer (a : Action) (chain : Chain) (images : Images) (deposit : ℕ)
    (h : a.sponsor ≠ PAYER) : (a.apply chain images deposit).1 PAYER = images PAYER := by
  rw [apply]
  dsimp only
  split
  · rfl
  · split
    · rfl
    · split
      · rfl
      · dsimp only
        rw [Images.setLamports_ne _ _ (by decide), Images.setLamports_ne _ _ h.symm,
          Function.update_of_ne (by decide)]

theorem RentLedger.apply_target {ledger after : RentLedger} {sponsor : Pubkey}
    {before images : Images} (h : ledger.apply keys sponsor before images = some after)
    (htgt : (ledger.deposits.lookup (keys TARGET)).isSome = true) :
    (after.deposits.lookup (keys TARGET)).isSome = true := by
  obtain ⟨moved, hmv, hchecked⟩ := bind_eq_some_iff.mp h
  split at hchecked
  · cases hchecked
    rw [RentLedger.moved] at hmv
    split at hmv
    · rwa [← some.inj hmv]
    · split at hmv
      · rw [← some.inj hmv, pay]
        rw [AList.lookup_insert]
        rfl
      · rw [refund] at hmv
        split at hmv
        · rw [← some.inj hmv, AList.lookup_insert]
          rfl
        · cases hmv
  · cases hchecked

theorem explain_some (h : explain chain keys s e = some next) :
    ∃ out, charged chain keys s e.1 e.2.info.fee = some (next.1, out) ∧
      e.2.check chain keys s.1 next.1 out = true ∧
      s.2.apply keys (keys e.1.sponsor) s.1 next.1 = some next.2 := by
  obtain ⟨⟨after, out⟩, hchgd, haf⟩ := bind_eq_some_iff.mp h
  split at haf
  · rename_i hcheck
    obtain ⟨ledger, hldg, rfl⟩ := map_eq_some_iff.mp haf
    exact ⟨out, hchgd, hcheck, hldg⟩
  · cases haf

theorem explain_fee (hspn : e.1.sponsor ≠ PAYER)
    (h : explain chain keys s e = some next) :
    (next.1 PAYER).lamports + e.2.info.fee = (s.1 PAYER).lamports := by
  obtain ⟨out, hchgd, -, -⟩ := explain_some h
  obtain ⟨deposit, lamports, -, hlam, haf, -⟩ := charged_some hchgd
  rw [e.1.apply_payer chain s.1 deposit hspn] at hlam
  rw [haf]
  exact (checkedSub_some.mp hlam).symm

theorem fees_le {final : Images × RentLedger} (hspn : ∀ e ∈ es, e.1.sponsor ≠ PAYER)
    (h : es.foldlM (explain chain keys) s = some final) :
    (es.map (·.2.info.fee)).sum ≤ (s.1 PAYER).lamports := by
  induction es generalizing s with
  | nil => exact Nat.zero_le _
  | cons e es ih =>
    obtain ⟨he, hr⟩ := List.forall_mem_cons.mp hspn
    rw [foldlM_cons, bind_eq_bind, bind_eq_some_iff] at h
    obtain ⟨next, hexplain, hfold⟩ := h
    have hfee := explain_fee he hexplain
    have hfees := ih hr hfold
    rw [map_cons, sum_cons]
    omega

theorem uncut_of_fees {rs : List (Action × Record)} {order used : List ℕ}
    {final : Images × RentLedger}
    (hfees : (∀ e ∈ rs, e.2.info.fee = 0) ∨ ∀ e ∈ rs, e.1.sponsor ≠ PAYER)
    (hpm : (order ++ used).Perm (List.range rs.length))
    (htgt : (s.2.deposits.lookup (keys TARGET)).isSome = true)
    (h : (inOrder rs order).foldlM (explain chain keys) s = some final) :
    Uncut chain keys rs used s order := by
  induction order generalizing used s with
  | nil => exact trivial
  | cons i order ih =>
    refine ⟨fun other e _ hunused hget => charged_isSome htgt fun deposit => ?_,
      fun e next hget hexplain => ih (.trans perm_middle hpm) ?_ ?_⟩
    · have he := mem_of_getElem? hget
      rcases hfees with hzero | hspn
      · rw [hzero e he]
        exact Nat.zero_le _
      · rw [e.1.apply_payer chain s.1 deposit (hspn e he)]
        -- the record is one of those that are to come, and all of them are paid for
        have ho : other ∈ i :: order := by
          obtain ⟨hlt, -⟩ := List.getElem?_eq_some_iff.mp hget
          rcases List.mem_append.mp (hpm.mem_iff.mpr (List.mem_range.mpr hlt)) with hm | hused
          · exact hm
          · exact absurd hused hunused
        have hm : e ∈ inOrder rs (i :: order) :=
          mem_filterMap.mpr ⟨other, ho, hget⟩
        refine Nat.le_trans (le_sum_of_mem (mem_map_of_mem (f := (·.2.info.fee)) hm))
          (fees_le ?_ h)
        intro e he
        obtain ⟨p, -, hpl⟩ := mem_filterMap.mp he
        exact hspn e (mem_of_getElem? hpl)
    · obtain ⟨out, -, -, hldg⟩ := explain_some hexplain
      exact RentLedger.apply_target hldg htgt
    · rw [inOrder_cons hget, foldlM_cons, hexplain] at h
      exact h

end Fees

/-- **`find_serialization` finds an explanation unless all of them are cut off.** It returns one
exactly if there is an order that explains the records and at none of whose points the payer cannot
pay the fee of an unused record that stands before the next one in the list. In particular it finds
every explanation if there are no fees, or if the payer sponsors none of the records. -/
theorem serialization_found_iff (chain : Chain) (keys : Keys) (before finalState : Images)
    (records : List (Action × Record)) (ledger : RentLedger) (hlength : records.length ≤ 32)
    (htarget : (ledger.deposits.lookup (keys TARGET)).isSome = true) :
    ((findSerialization chain keys before finalState records 0#32 ledger).isSome = true ↔
      ∃ order, order.Perm (List.range records.length) ∧
        (∃ found, (inOrder records order).foldlM (explain chain keys) (before, ledger) =
          some (finalState, found)) ∧
        Uncut chain keys records [] (before, ledger) order) ∧
    ((∀ entry ∈ records, entry.2.info.fee = 0) ∨ (∀ entry ∈ records, entry.1.sponsor ≠ PAYER) →
      ∀ (order : List (Action × Record)) (found : RentLedger), order.Perm records →
        order.foldlM (explain chain keys) (before, ledger) = some (finalState, found) →
        (findSerialization chain keys before finalState records 0#32 ledger).isSome = true) := by
  have hfound : (findSerialization chain keys before finalState records 0#32 ledger).isSome = true ↔
      ∃ order, order.Perm (List.range records.length) ∧
        (∃ found, (inOrder records order).foldlM (explain chain keys) (before, ledger) =
          some (finalState, found)) ∧
        Uncut chain keys records [] (before, ledger) order := by
    rw [findSerialization_eq hlength]
    constructor
    · intro h
      obtain ⟨found, hfound⟩ := isSome_iff_exists.mp h
      obtain ⟨order, final, hperm, hleads, hgoal, hreached⟩ :=
        explore_sound .nil (forall_mem_nil _) rfl hfound
      rw [append_nil] at hperm
      refine ⟨order, hperm, ⟨found, ?_⟩, uncut_iff.mpr hreached⟩
      rw [← reaches_some.mp hgoal]
      exact (leads_iff fun index hindex => List.mem_range.mp (hperm.mem_iff.mp hindex)).mp hleads
    · rintro ⟨order, hperm, ⟨found, hfold⟩, huncut⟩
      have hleads := (leads_iff fun index hindex =>
        List.mem_range.mp (hperm.mem_iff.mp hindex)).mpr hfold
      have hgoal : (reaches finalState (finalState, found)).isSome = true := by
        rw [reaches_some.mpr rfl]
        rfl
      have hlen : order.length = records.length := hperm.length_eq.trans length_range
      rw [← hlen]
      exact explore_complete (by rwa [append_nil]) hleads hgoal (uncut_iff.mp huncut)
  refine ⟨hfound, fun hfees entries found hentries hfold => hfound.mpr ?_⟩
  obtain ⟨order, hperm, rfl⟩ := exists_inOrder hentries
  refine ⟨order, hperm, ⟨found, hfold⟩, uncut_of_fees hfees ?_ htarget hfold⟩
  rwa [append_nil]

theorem serialization_found_iff_sample :
    ∃ order, order.Perm (List.range 2) ∧
      (∃ found, (inOrder [sampleMade, sampleLate] order).foldlM (explain sampleChain sampleKeys)
        (sampleBefore, sampleLedger) = some (sampleFinal, found)) ∧
      Uncut sampleChain sampleKeys [sampleMade, sampleLate] [] (sampleBefore, sampleLedger) order :=
  (serialization_found_iff sampleChain sampleKeys sampleBefore sampleFinal [sampleMade, sampleLate]
    sampleLedger (by decide) (by decide)).1.mp (by decide +kernel)

/-- The same records in the other order of the list: the payer's is tried first. Had it made the
target, the payer could not pay the fee, and the sponsor's is not tried any more. -/
theorem explanation_cut_off :
    (sampleLedger.deposits.lookup (sampleKeys TARGET)).isSome = true ∧
    [sampleMade, sampleLate].Perm [sampleLate, sampleMade] ∧
    ([sampleMade, sampleLate].foldlM (explain sampleChain sampleKeys)
      (sampleBefore, sampleLedger)).map Prod.fst = some sampleFinal ∧
    findSerialization sampleChain sampleKeys sampleBefore sampleFinal [sampleLate, sampleMade] 0#32
      sampleLedger = none :=
  ⟨by decide, .swap _ _ [], by decide +kernel, by decide +kernel⟩

end Redsuite.Redhat
