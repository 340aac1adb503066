import Redsuite.Grouping
import Mathlib.Data.List.Sort
import Mathlib.Order.Nat

/-!
# Records after a restart

A model of `settle_after_restart` in `redshift/src/scenarios/lifecycle/restart_under_load.rs`.
-/

namespace Redsuite.Redshift

open List

/-- How the validator is stopped. -/
inductive Mode : Type where
  | graceful
  | sigkill

def Mode.hardKill : Mode → Bool
  | .graceful => false
  | .sigkill => true

/-- What became of a transaction. -/
inductive Outcome : Type where
  | unresolved
  | confirmed
  | failed
  | dropped
  deriving DecidableEq

/-- A transaction that was sent. -/
structure Record where
  id : ℕ
  lane : ℕ
  signature : String
  outcome : Outcome

/-- A transaction as the API returns it: its metadata, if any, with its error, if any. -/
structure Transaction where
  info : Option (Option String)

/-- `get_transaction` of the API. -/
abbrev GetTransaction : Type := String → Except String (Option Transaction)

def Record.drop (self : Record) : Record := { self with outcome := .dropped }

/-- A lane, from its latest record back: the records after it, and whether it is in order. -/
def settleLane (api : GetTransaction) (mode : Mode) :
    Bool → List (Record × ℕ) → List Record → List Record × Except String Unit
  | _, [], records => (records, .ok ())
  | recovered, (record, index) :: lane, records =>
    match api record.signature with
    | .error error => (records, .error error)
    | .ok tx =>
      if tx.isNone && mode.hardKill && !recovered then
        settleLane api mode recovered lane (records.modify index Record.drop)
      else
        match tx with
        | none =>
          (records, .error ("confirmed transaction " ++ record.signature ++ " missing after restart"))
        | some tx =>
          match tx.info with
          | none => (records, .error "transaction has no execution metadata")
          | some (some _) =>
            (records, .error ("confirmed transaction " ++ record.signature ++ " failed after restart"))
          | some none => settleLane api mode true lane records

def sortById (lane : List (Record × ℕ)) : List (Record × ℕ) :=
  lane.insertionSort fun left right => left.1.id ≤ right.1.id

def settleLanes (api : GetTransaction) (mode : Mode) :
    List (ℕ × List (Record × ℕ)) → List Record → List Record × Except String Unit
  | [], records => (records, .ok ())
  | lane :: lanes, records =>
    match settleLane api mode false (sortById lane.2).reverse records with
    | (records, .ok ()) => settleLanes api mode lanes records
    | (records, .error error) => (records, .error error)

def confirmed (records : List Record) : List (Record × ℕ) :=
  records.zipIdx.filter fun entry => entry.1.outcome = .confirmed

def settleAfterRestart (api : GetTransaction) (mode : Mode) (records : List Record) :
    List Record × Except String Unit :=
  settleLanes api mode (Grouping.groups (·.1.lane) (confirmed records)) records

/-! ### Lanes in order -/

/-- The transaction is there. -/
def retained (api : GetTransaction) (record : Record) : Bool :=
  match api record.signature with
  | .ok (some _) => true
  | _ => false

/-- It is there without an error. -/
def clean (api : GetTransaction) (record : Record) : Bool :=
  match api record.signature with
  | .ok (some tx) => tx.info = some none
  | _ => false

def Answers (api : GetTransaction) : Prop :=
  ∀ signature, ∃ answer, api signature = .ok answer ∧ ∀ tx ∈ answer, tx.info ≠ none

def dropAll (lost : List (Record × ℕ)) (records : List Record) : List Record :=
  lost.foldl (fun records entry => records.modify entry.2 Record.drop) records

/-- From its latest record back, a lane has lost some records, if it may, and none of the others. -/
def InOrder (api : GetTransaction) (lossy : Bool) (lane : List Record) : Prop :=
  ∃ lost kept, lane = lost ++ kept ∧ (lossy = false → lost = []) ∧
    (∀ record ∈ lost, retained api record = false) ∧ ∀ record ∈ kept, clean api record = true

section Lanes

variable {api : GetTransaction} {lossy : Bool} {record : Record} {lane : List Record}

theorem retained_of_clean (h : clean api record = true) : retained api record = true := by
  rw [clean] at h
  rw [retained]
  split at h
  · rfl
  · cases h

theorem inOrder_clean (h : clean api record = true) :
    InOrder api lossy (record :: lane) ↔ InOrder api false lane := by
  constructor
  · rintro ⟨lost, kept, heq, -, hlost, hkpt⟩
    cases lost with
    | nil =>
      rw [nil_append] at heq
      refine ⟨[], lane, rfl, fun _ => rfl, forall_mem_nil _, fun other ho => ?_⟩
      exact hkpt other (heq ▸ mem_cons_of_mem _ ho)
    | cons first lost =>
      obtain ⟨rfl, -⟩ := List.cons.inj heq
      exact nomatch (hlost record mem_cons_self).symm.trans (retained_of_clean h)
  · rintro ⟨lost, kept, rfl, hn, -, hkpt⟩
    refine ⟨[], record :: (lost ++ kept), rfl, fun _ => rfl, forall_mem_nil _, ?_⟩
    rw [hn rfl]
    exact forall_mem_cons.mpr ⟨h, hkpt⟩

theorem inOrder_lost (h : retained api record = false) :
    InOrder api lossy (record :: lane) ↔ lossy = true ∧ InOrder api true lane := by
  constructor
  · rintro ⟨lost, kept, heq, hlossy, hlost, hkpt⟩
    cases lost with
    | nil =>
      rw [nil_append] at heq
      have hcl := hkpt record (heq ▸ mem_cons_self)
      cases h.symm.trans (retained_of_clean hcl)
    | cons first lost =>
      obtain ⟨rfl, rfl⟩ := List.cons.inj heq
      have hmay : lossy = true := by
        cases lossy with
        | true => rfl
        | false => exact nomatch hlossy rfl
      exact ⟨hmay, lost, kept, rfl, nofun, (forall_mem_cons.mp hlost).2, hkpt⟩
  · rintro ⟨rfl, lost, kept, rfl, -, hlost, hkpt⟩
    exact ⟨record :: lost, kept, rfl, nofun, forall_mem_cons.mpr ⟨h, hlost⟩, hkpt⟩

theorem not_inOrder_failed (hretd : retained api record = true) (h : clean api record = false) :
    ¬InOrder api lossy (record :: lane) := by
  rintro ⟨lost, kept, heq, -, hlost, hkpt⟩
  cases lost with
  | nil =>
    rw [nil_append] at heq
    cases h.symm.trans (hkpt record (heq ▸ mem_cons_self))
  | cons first lost =>
    obtain ⟨rfl, -⟩ := List.cons.inj heq
    cases hretd.symm.trans (hlost record mem_cons_self)

/-- **A lane is settled if it is in order**, and then what it lost is dropped. -/
theorem settleLane_ok (hapi : Answers api) (mode : Mode) (recovered : Bool)
    (xs : List (Record × ℕ)) (records : List Record) :
    ((settleLane api mode recovered xs records).2 = .ok () ↔
      InOrder api (mode.hardKill && !recovered) (xs.map Prod.fst)) ∧
    ((settleLane api mode recovered xs records).2 = .ok () →
      (settleLane api mode recovered xs records).1 =
        dropAll (xs.filter fun e => !retained api e.1) records) := by
  induction xs generalizing recovered records with
  | nil => exact ⟨⟨fun _ => ⟨[], [], rfl, fun _ => rfl, forall_mem_nil _, forall_mem_nil _⟩,
      fun _ => rfl⟩, fun _ => rfl⟩
  | cons e xs ih =>
    obtain ⟨record, i⟩ := e
    obtain ⟨ans, hans, hinfo⟩ := hapi record.signature
    rw [settleLane, hans, map_cons]
    dsimp only
    cases ans with
    | none =>
      have hlost : retained api record = false := by rw [retained, hans]
      rw [inOrder_lost hlost]
      split
      · -- the record is dropped
        rename_i hmay
        obtain ⟨hok, hdrop⟩ := ih recovered (records.modify i Record.drop)
        have hlossy : (mode.hardKill && !recovered) = true := hmay
        rw [hlossy] at hok ⊢
        refine ⟨hok.trans ⟨fun h => ⟨rfl, h⟩, And.right⟩, fun h => (hdrop h).trans ?_⟩
        rw [filter_cons_of_pos (by rw [hlost]; rfl)]
        rfl
      · rename_i hmay
        exact ⟨⟨nofun, fun h => absurd h.1 hmay⟩, nofun⟩
    | some tx =>
      have hretd : retained api record = true := by rw [retained, hans]
      rw [if_neg (by simp)]
      dsimp only
      split
      · rename_i hn
        exact absurd hn (hinfo tx rfl)
      · rename_i error hfl
        have hcl : clean api record = false := by
          rw [clean, hans]
          exact decide_eq_false (by rw [hfl]; exact nofun)
        exact ⟨⟨nofun, fun h => absurd h (not_inOrder_failed hretd hcl)⟩, nofun⟩
      · rename_i hfine
        have hcl : clean api record = true := by
          rw [clean, hans]
          exact decide_eq_true hfine
        obtain ⟨hok, hdrop⟩ := ih true records
        rw [Bool.not_true, Bool.and_false] at hok
        refine ⟨hok.trans (inOrder_clean hcl).symm, fun h => (hdrop h).trans ?_⟩
        rw [filter_cons_of_neg (by rw [hretd]; exact nofun)]

/-- **The lanes are settled if each is in order**, and then what they lost is dropped. -/
theorem settleLanes_ok (hapi : Answers api) (mode : Mode) (lanes : List (ℕ × List (Record × ℕ)))
    (records : List Record) :
    ((settleLanes api mode lanes records).2 = .ok () ↔
      ∀ lane ∈ lanes, InOrder api mode.hardKill ((sortById lane.2).reverse.map Prod.fst)) ∧
    ((settleLanes api mode lanes records).2 = .ok () →
      (settleLanes api mode lanes records).1 = dropAll (lanes.flatMap fun lane =>
        (sortById lane.2).reverse.filter fun e => !retained api e.1) records) := by
  induction lanes generalizing records with
  | nil => exact ⟨⟨fun _ => forall_mem_nil _, fun _ => rfl⟩, fun _ => rfl⟩
  | cons lane lanes ih =>
    obtain ⟨hok, hdrop⟩ := settleLane_ok hapi mode false (sortById lane.2).reverse records
    rw [Bool.not_false, Bool.and_true] at hok
    rw [settleLanes, forall_mem_cons, ← hok, flatMap_cons, dropAll, foldl_append]
    split
    · rename_i after haf
      rw [haf] at hdrop ⊢
      obtain ⟨hr, hdrops⟩ := ih after
      exact ⟨hr.trans ⟨fun h => ⟨rfl, h⟩, And.right⟩,
        fun h => (hdrops h).trans (congrArg (dropAll _) (hdrop rfl))⟩
    · rename_i after error haf
      rw [haf]
      exact ⟨⟨nofun, fun h => nomatch h.1⟩, nofun⟩

theorem inOrder_lossless : InOrder api false lane ↔ ∀ record ∈ lane, clean api record = true := by
  constructor
  · rintro ⟨lost, kept, rfl, hn, -, hkpt⟩
    rw [hn rfl]
    exact hkpt
  · intro h
    exact ⟨[], lane, rfl, fun _ => rfl, forall_mem_nil _, h⟩

/-- **A lane that may lose records is in order if those it has left come first and are clean.** -/
theorem inOrder_lossy : InOrder api true lane.reverse ↔
    (∀ record ∈ lane, retained api record = true → clean api record = true) ∧
      lane.filter (retained api) <+: lane := by
  constructor
  · rintro ⟨lost, kept, heq, -, hlost, hkpt⟩
    obtain rfl : lane = kept.reverse ++ lost.reverse := by
      rw [← reverse_append, ← heq, reverse_reverse]
    have hfilter : (kept.reverse ++ lost.reverse).filter (retained api) = kept.reverse := by
      rw [filter_append, filter_eq_self.mpr, filter_eq_nil_iff.mpr, append_nil]
      · intro record hrec
        rw [hlost record (mem_reverse.mp hrec)]
        exact nofun
      · intro record hrec
        exact retained_of_clean (hkpt record (mem_reverse.mp hrec))
    refine ⟨fun record hrec hretd => ?_, ?_⟩
    · rcases mem_append.mp hrec with hm | hm
      · exact hkpt record (mem_reverse.mp hm)
      · exact nomatch (hlost record (mem_reverse.mp hm)).symm.trans hretd
    · rw [hfilter]
      exact prefix_append _ _
  · rintro ⟨hcl, rest, hr⟩
    -- nothing that is left comes after the others
    have hn : rest.filter (retained api) = [] := by
      have h := congrArg (List.filter (retained api)) hr
      rw [filter_append, filter_filter] at h
      simp only [Bool.and_self] at h
      exact append_right_eq_self.mp h
    refine ⟨rest.reverse, (lane.filter (retained api)).reverse, ?_, nofun, ?_, ?_⟩
    · rw [← reverse_append, hr]
    · intro record hrec
      exact Bool.eq_false_iff.mpr
        (filter_eq_nil_iff.mp hn record (mem_reverse.mp hrec))
    · intro record hrec
      obtain ⟨hm, hretd⟩ := mem_filter.mp (mem_reverse.mp hrec)
      exact hcl record hm hretd

end Lanes

/-! ### What the records are afterwards -/

def laneOf (records : List Record) (lane : ℕ) : List Record :=
  (records.filter fun record => record.outcome = .confirmed ∧ record.lane = lane).insertionSort
    fun left right => left.id ≤ right.id

/-- A record afterwards: dropped, if it was confirmed and is not there. -/
def Record.settled (api : GetTransaction) (self : Record) : Record :=
  if self.outcome = .confirmed ∧ retained api self = false then self.drop else self

section Records

variable {api : GetTransaction} {mode : Mode} {rs : List Record}

theorem map_sortById (rs : List Record) (lane : ℕ) :
    (sortById ((confirmed rs).filter (·.1.lane = lane))).map Prod.fst = laneOf rs lane := by
  have hsort := map_insertionSort (fun left right : Record × ℕ => left.1.id ≤ right.1.id)
    (fun left right : Record => left.id ≤ right.id) Prod.fst
    ((confirmed rs).filter (·.1.lane = lane)) fun _ _ _ _ => Iff.rfl
  rw [sortById, hsort, confirmed, filter_filter]
  have hfilter := filter_map (p := fun record : Record =>
    decide (record.lane = lane) && decide (record.outcome = .confirmed)) (f := Prod.fst)
    (l := rs.zipIdx)
  rw [zipIdx_map_fst] at hfilter
  refine congrArg _ (hfilter.symm.trans (filter_congr fun record _ => ?_))
  rw [Bool.and_comm, Bool.decide_and]

theorem getElem?_dropAll (lost : List (Record × ℕ)) (rs : List Record) (i : ℕ) :
    (dropAll lost rs)[i]? =
      if i ∈ lost.map Prod.snd then rs[i]?.map Record.drop else rs[i]? := by
  induction lost generalizing rs with
  | nil => simp [dropAll]
  | cons e lost ih =>
    have hst : dropAll (e :: lost) rs =
      dropAll lost (rs.modify e.2 Record.drop) := rfl
    rw [hst, ih, getElem?_modify]
    have hdrop : ∀ record : Record, record.drop.drop = record.drop := fun _ => rfl
    by_cases he : e.2 = i
    · cases rs[i]? <;> simp [he, hdrop]
    · have hm : i ∈ (e :: lost).map Prod.snd ↔ i ∈ lost.map Prod.snd :=
        mem_cons.trans (or_iff_right (Ne.symm he))
      rw [if_congr hm rfl rfl]
      simp [he]

theorem mem_confirmed {record : Record} {i : ℕ} :
    (record, i) ∈ confirmed rs ↔
      rs[i]? = some record ∧ record.outcome = .confirmed := by
  rw [confirmed, mem_filter, mem_zipIdx_iff_getElem?, decide_eq_true_eq]

theorem dropAll_lost (api : GetTransaction) (rs : List Record) :
    dropAll ((Grouping.groups (·.1.lane) (confirmed rs)).flatMap fun lane =>
      (sortById lane.2).reverse.filter fun e => !retained api e.1) rs =
    rs.map (Record.settled api) := by
  refine ext_getElem? fun i => ?_
  rw [getElem?_dropAll, getElem?_map]
  cases hrec : rs[i]? with
  | none => split <;> rfl
  | some record =>
    have hlost : i ∈ ((Grouping.groups (·.1.lane) (confirmed rs)).flatMap fun lane =>
        (sortById lane.2).reverse.filter fun e => !retained api e.1).map Prod.snd ↔
        record.outcome = .confirmed ∧ retained api record = false := by
      constructor
      · intro hi
        obtain ⟨⟨other, i⟩, he, rfl⟩ := mem_map.mp hi
        obtain ⟨lane, hln, hm⟩ := mem_flatMap.mp he
        obtain ⟨hsrt, hretd⟩ := mem_filter.mp hm
        have hitem : (other, i) ∈ lane.2 :=
          (mem_insertionSort _).mp (mem_reverse.mp hsrt)
        obtain ⟨ho, hconf⟩ := mem_confirmed.mp
          ((Grouping.mem_groups (·.1.lane)).mp ⟨lane, hln, hitem⟩)
        cases hrec.symm.trans ho
        exact ⟨hconf, Bool.not_eq_eq_eq_not.mp hretd⟩
      · rintro ⟨hconf, hretd⟩
        have hm := mem_confirmed.mpr ⟨hrec, hconf⟩
        obtain ⟨lane, hln, hitem⟩ := (Grouping.mem_groups (·.1.lane)).mpr hm
        refine mem_map.mpr ⟨(record, i), mem_flatMap.mpr ⟨lane, hln, ?_⟩, rfl⟩
        refine mem_filter.mpr ⟨?_, ?_⟩
        · exact mem_reverse.mpr ((mem_insertionSort _).mpr hitem)
        · exact Bool.not_eq_eq_eq_not.mpr hretd
    simp only [hlost, Option.map_some, Record.settled]
    split <;> rfl

theorem settleAfterRestart_ok (hapi : Answers api) (mode : Mode) (rs : List Record) :
    (settleAfterRestart api mode rs).2 = .ok () ↔
      ∀ lane, InOrder api mode.hardKill (laneOf rs lane).reverse := by
  rw [settleAfterRestart, (settleLanes_ok hapi mode _ rs).1]
  simp only [← map_sortById, ← map_reverse]
  exact Grouping.forall_groups_iff (P := fun xs =>
    InOrder api mode.hardKill ((sortById xs).reverse.map Prod.fst))
    ⟨[], [], rfl, fun _ => rfl, forall_mem_nil _, forall_mem_nil _⟩

theorem mem_laneOf {record : Record} {lane : ℕ} : record ∈ laneOf rs lane ↔
    record ∈ rs ∧ record.outcome = .confirmed ∧ record.lane = lane := by
  rw [laneOf, mem_insertionSort, mem_filter, decide_eq_true_eq]

/-- **After a graceful restart the records are settled if every confirmed one is there without an
error; after a hard kill, if in each lane those that are there have no error and come first. Then
the confirmed records that are not there, and no others, are dropped.** -/
theorem settled_after_restart (api : GetTransaction) (hapi : Answers api) (records : List Record) :
    ((settleAfterRestart api .graceful records).2 = .ok () ↔
      ∀ record ∈ records, record.outcome = .confirmed → clean api record = true) ∧
    ((settleAfterRestart api .sigkill records).2 = .ok () ↔ ∀ lane,
      (∀ record ∈ laneOf records lane, retained api record = true → clean api record = true) ∧
      (laneOf records lane).filter (retained api) <+: laneOf records lane) ∧
    ∀ mode, (settleAfterRestart api mode records).2 = .ok () →
      (settleAfterRestart api mode records).1 = records.map (Record.settled api) := by
  refine ⟨?_, ?_, fun mode h => ?_⟩
  · rw [settleAfterRestart_ok hapi]
    constructor
    · intro h record hrecord hconfirmed
      refine inOrder_lossless.mp (h record.lane) record (mem_reverse.mpr ?_)
      exact mem_laneOf.mpr ⟨hrecord, hconfirmed, rfl⟩
    · intro h lane
      refine inOrder_lossless.mpr fun record hrecord => ?_
      obtain ⟨hmem, hconfirmed, -⟩ := mem_laneOf.mp (mem_reverse.mp hrecord)
      exact h record hmem hconfirmed
  · rw [settleAfterRestart_ok hapi]
    exact forall_congr' fun lane => inOrder_lossy
  · exact ((settleLanes_ok hapi mode _ records).2 h).trans (dropAll_lost api records)

def sampleApi : GetTransaction := fun signature =>
  .ok (if signature = "a" ∨ signature = "b" then some ⟨some none⟩ else none)

theorem sampleApi_answers : Answers sampleApi := by
  intro sig
  refine ⟨_, rfl, fun tx htx => ?_⟩
  split at htx
  · cases htx
    exact nofun
  · cases htx

def sampleRecords : List Record :=
  [⟨4, 0, "c", .confirmed⟩, ⟨1, 0, "a", .confirmed⟩, ⟨2, 1, "b", .confirmed⟩, ⟨3, 0, "d", .failed⟩]

theorem settled_after_restart_sample :
    (settleAfterRestart sampleApi .sigkill sampleRecords).1 =
      [⟨4, 0, "c", .dropped⟩, ⟨1, 0, "a", .confirmed⟩, ⟨2, 1, "b", .confirmed⟩,
        ⟨3, 0, "d", .failed⟩] :=
  (settled_after_restart sampleApi sampleApi_answers sampleRecords).2.2 .sigkill (by decide +kernel)

end Records

end Redsuite.Redshift
