import Redsuite.HttpHead

/-!
# Commit receipts

A model of `core/src/receipt.rs`.
-/

namespace Redsuite.Receipt

open List Option

/-- What is not of this file: how public keys and signatures are read, and the address of the outbox
program. -/
structure Reading (κ ς : Type) where
  /-- `str::parse::<Pubkey>` -/
  pubkey : List Char → Option κ
  /-- `str::parse::<Signature>` -/
  signature : List Char → Option ς
  /-- `topology::OUTBOX_INTENT_ID` -/
  outboxIntentId : κ

/-- `CommitReceipt`. -/
structure CommitReceipt (κ ς : Type) where
  signature : ς
  commitId : Option ℕ
  payer : Option κ
  included : List κ
  excluded : List κ
  baseSignatures : List ς
  requestedUndelegation : Bool
  errorMessage : Option (List Char)
  receiptErrCode : Option ℕ

/-- What a receipt is looked for by. -/
inductive Target (κ ς : Type) : Type where
  | signature (signature : ς)
  | outbox (address : κ) (intentId minSlot : ℕ)

/-- `TransactionError`, as far as it is told apart. -/
inductive TransactionError : Type where
  | custom (index code : ℕ)
  | other

def customErrorCode : TransactionError → Option ℕ
  | .custom _ code => some code
  | .other => none

/-- `UiTransactionStatusMeta`. -/
structure Meta where
  err : Option TransactionError
  /-- the logs; nothing if the node sent none -/
  logMessages : Option (List (List Char))

def transactionLogs (status : Meta) : List (List Char) := status.logMessages.getD []

/-- The message of a decoded transaction: its static keys, and which of them its instructions
call. -/
structure Message (κ : Type) where
  staticAccountKeys : List κ
  programIdIndexes : List ℕ

/-- `EncodedConfirmedTransactionWithStatusMeta`. -/
structure Transaction (κ : Type) where
  slot : ℕ
  status : Option Meta
  decoded : Option (Message κ)

def transactionMeta {κ : Type} (transaction : Transaction κ) : Except String Meta :=
  match transaction.status with
  | some status => .ok status
  | none => .error "transaction has no execution metadata"

/-! ### Texts -/

/-- `str::split_once`, of a separator that is a text. -/
def splitOnce (separator : List Char) : List Char → Option (List Char × List Char)
  | [] => ([].dropPrefix? separator).map fun rest => ([], rest)
  | c :: text =>
    match (c :: text).dropPrefix? separator with
    | some rest => some ([], rest)
    | none => (splitOnce separator text).map fun parts => (c :: parts.1, parts.2)

def stripProgramPrefix (line : List Char) : List Char :=
  (line.dropPrefix? "Program log: ".toList).getD line

def logMarker : List Char := "ScheduledCommitSent ".toList

variable {κ ς : Type} (reading : Reading κ ς)

def pubkeyList (list : List Char) : List κ :=
  let opened := (Http.trim list).dropWhile (· = '[')
  let closed := (opened.reverse.dropWhile (· = ']')).reverse
  (closed.splitOn ',').filterMap fun token => reading.pubkey (Http.trim token)

/-- One round of the loop of `parse_logs`. -/
def parseLine (receipt : CommitReceipt κ ς) (line : List Char) : CommitReceipt κ ς :=
  match (stripProgramPrefix line).dropPrefix? logMarker with
  | none => receipt
  | some rest =>
    match rest.dropPrefix? "id: ".toList with
    | some idPart =>
      -- `u64` and `usize` are read alike
      { receipt with
        commitId := (idPart.splitOn ',').head?.bind fun token => Http.parseUsize (Http.trim token) }
    | none =>
    match rest.dropPrefix? "payer: ".toList with
    | some payer => { receipt with payer := reading.pubkey (Http.trim payer) }
    | none =>
    match rest.dropPrefix? "included: ".toList with
    | some list => { receipt with included := pubkeyList reading list }
    | none =>
    match rest.dropPrefix? "excluded: ".toList with
    | some list => { receipt with excluded := pubkeyList reading list }
    | none =>
    match rest.dropPrefix? "signature[".toList with
    | some indexed =>
      match (splitOnce "]: ".toList indexed).bind fun parts =>
          reading.signature (Http.trim parts.2) with
      | some chainSignature =>
        { receipt with baseSignatures := receipt.baseSignatures ++ [chainSignature] }
      | none => receipt
    | none =>
    if Http.trim rest = "requested undelegation".toList then
      { receipt with requestedUndelegation := true }
    else
      match rest.dropPrefix? "error message: ".toList with
      | some message => { receipt with errorMessage := some message }
      | none => receipt

def parseLogs (signature : ς) (logs : List (List Char)) (receiptErrCode : Option ℕ) :
    CommitReceipt κ ς :=
  logs.foldl (parseLine reading)
    { signature := signature
      commitId := none
      payer := none
      included := []
      excluded := []
      baseSignatures := []
      requestedUndelegation := false
      errorMessage := none
      receiptErrCode := receiptErrCode }

def parseReceipt (signature : ς) (receiptTx : Meta) : CommitReceipt κ ς :=
  parseLogs reading signature (transactionLogs receiptTx) (receiptTx.err.bind customErrorCode)

/-! ### Completions -/

variable [DecidableEq κ]

def Message.callsOutbox (message : Message κ) : Bool :=
  message.programIdIndexes.any fun index =>
    message.staticAccountKeys[index]? = some reading.outboxIntentId

/-- `parse_outbox_completion`, which never fails. -/
def parseOutboxCompletion (signature : ς) (transaction : Transaction κ) :
    Option (CommitReceipt κ ς) :=
  match transaction.status with
  | none => none
  | some status =>
    if status.err.isSome then none
    else
      match transaction.decoded with
      | none => none
      | some decoded =>
        if decoded.callsOutbox reading then
          let receipt := parseReceipt reading signature status
          receipt.commitId.map fun _ => receipt
        else none

/-- **A completion** is of a transaction without an error that calls the outbox program, as its logs
tell. -/
theorem parseOutboxCompletion_some {signature : ς} {tx : Transaction κ}
    {receipt : CommitReceipt κ ς}
    (h : parseOutboxCompletion reading signature tx = some receipt) :
    ∃ status message, tx.status = some status ∧ status.err = none ∧
      tx.decoded = some message ∧ message.callsOutbox reading = true ∧
      receipt = parseReceipt reading signature status := by
  rw [parseOutboxCompletion] at h
  cases hstatus : tx.status with
  | none =>
    rw [hstatus] at h
    cases h
  | some status =>
    rw [hstatus] at h
    dsimp only at h
    split_ifs at h with herr
    cases hdecoded : tx.decoded with
    | none =>
      rw [hdecoded] at h
      cases h
    | some message =>
      rw [hdecoded] at h
      dsimp only at h
      split_ifs at h with hcls
      obtain ⟨_, _, hreceipt⟩ := map_eq_some_iff.mp h
      exact ⟨status, message, rfl, not_isSome_iff_eq_none.mp herr, rfl, hcls, hreceipt.symm⟩

/-! ### Looking for a completion -/

/-- What a node answers to one call: the listings of the outbox, one for each pass over its history,
and in a pass a transaction or nothing for each place of the listing. -/
structure Answers (κ ς : Type) where
  listing : ℕ → Except String (List ς)
  body : ℕ → ℕ → Except String (Option (Transaction κ))

/-- The loop of `receipt_for_target_if_present`, from a place of the listing on. -/
def findCompletion (body : ℕ → Except String (Option (Transaction κ))) (intentId minSlot : ℕ) :
    List ς → ℕ → Except String (Option (CommitReceipt κ ς))
  | [], _ => .ok none
  | signature :: signatures, place => do
    match ← body place with
    | none => findCompletion body intentId minSlot signatures (place + 1)
    | some transaction =>
      if transaction.slot < minSlot then findCompletion body intentId minSlot signatures (place + 1)
      else
        match parseOutboxCompletion reading signature transaction with
        | none => findCompletion body intentId minSlot signatures (place + 1)
        | some receipt =>
          if receipt.commitId = some intentId then .ok (some receipt)
          else findCompletion body intentId minSlot signatures (place + 1)

/-- `receipt_for_target_if_present`, with the answers of a first pass. -/
def receiptForTargetIfPresent (answers : Answers κ ς) :
    Target κ ς → Except String (Option (CommitReceipt κ ς))
  | .signature signature => do
    match ← answers.body 0 0 with
    | none => .ok none
    | some transaction =>
        .ok (some (parseReceipt reading signature (← transactionMeta transaction)))
  | .outbox _ intentId minSlot => do
    findCompletion reading (answers.body 0) intentId minSlot (← answers.listing 0) 0

/-- The transaction completes the intent. -/
def Wanted (intentId minSlot : ℕ) (payer : κ) (signature : ς)
    (transaction : Transaction κ) : Prop :=
  minSlot ≤ transaction.slot ∧
    ∃ receipt, parseOutboxCompletion reading signature transaction = some receipt ∧
      receipt.commitId = some intentId ∧ receipt.payer = some payer

/-- What `ensure_receipt_absent` does with a transaction. -/
def inspect (intentId minSlot : ℕ) (payer : κ) (signature : ς) (transaction : Transaction κ) :
    Except String Unit :=
  if transaction.slot < minSlot then .ok ()
  else
    match parseOutboxCompletion reading signature transaction with
    | none => .ok ()
    | some receipt =>
      if receipt.commitId ≠ some intentId ∨ receipt.payer ≠ some payer then .ok ()
      else .error s!"completion for intent {intentId} is visible"

/-- The loop over the signatures of a listing, from a place on. It gives the answers it read, which
the source does not keep, and if one of them was nothing. -/
def examine (body : ℕ → Except String (Option (Transaction κ))) (intentId minSlot : ℕ) (payer : κ) :
    List ς → ℕ → Bool → List (ς × Option (Transaction κ)) × Except String Bool
  | [], _, unreadableBody => ([], .ok unreadableBody)
  | signature :: signatures, place, unreadableBody =>
    match body place with
    | .error error => ([], .error error)
    | .ok none =>
      let rest := examine body intentId minSlot payer signatures (place + 1) true
      ((signature, none) :: rest.1, rest.2)
    | .ok (some transaction) =>
      match inspect reading intentId minSlot payer signature transaction with
      | .error error => ([(signature, some transaction)], .error error)
      | .ok () =>
        let rest := examine body intentId minSlot payer signatures (place + 1) unreadableBody
        ((signature, some transaction) :: rest.1, rest.2)

/-- A pass over the history, not in the source: what was listed, and what was read of it. -/
structure Pass (κ ς : Type) where
  listed : List ς
  read : List (ς × Option (Transaction κ))

def attempts : ℕ := 5

/-- The loop of `ensure_receipt_absent`, with the attempts that are left and the number of the
next one. -/
def passes (answers : Answers κ ς) (intentId minSlot : ℕ) (payer : κ) :
    ℕ → ℕ → List (Pass κ ς) × Except String Unit
  | 0, _ =>
    ([], .error ("outbox history lists a signature whose transaction body is unreadable; " ++
      "receipt absence is unresolved"))
  | left + 1, attempt =>
    match answers.listing attempt with
    | .error error => ([], .error error)
    | .ok signatures =>
      match examine reading (answers.body attempt) intentId minSlot payer signatures 0 false with
      | (read, .error error) => ([⟨signatures, read⟩], .error error)
      | (read, .ok false) => ([⟨signatures, read⟩], .ok ())
      | (read, .ok true) =>
        let rest := passes answers intentId minSlot payer left (attempt + 1)
        (⟨signatures, read⟩ :: rest.1, rest.2)

/-- `ensure_receipt_absent`, with the passes it made. -/
def ensureReceiptAbsent (answers : Answers κ ς) (target : Target κ ς) (payer : κ) :
    List (Pass κ ς) × Except String Unit :=
  match target with
  | .outbox _ intentId minSlot => passes reading answers intentId minSlot payer attempts 0
  | .signature _ =>
    match receiptForTargetIfPresent reading answers target with
    | .error error => ([], .error error)
    | .ok none => ([], .ok ())
    | .ok (some _) => ([], .error "receipt is visible for the rejected target")

section

variable {reading} {intentId minSlot : ℕ} {payer : κ}

theorem inspect_ok {signature : ς} {tx : Transaction κ}
    (h : inspect reading intentId minSlot payer signature tx = .ok ()) :
    ¬ Wanted reading intentId minSlot payer signature tx := by
  rintro ⟨hslot, receipt, hreceipt, hid, hpay⟩
  rw [inspect, if_neg (Nat.not_lt.mpr hslot), hreceipt] at h
  dsimp only at h
  rw [if_neg (by simp [hid, hpay])] at h
  cases h

/-- What a loop over a listing shows: it read the answers of the first places, and if it came to the
end, all of them, and none is a completion that is wanted. -/
structure Examined (want : ς → Transaction κ → Prop)
    (body : ℕ → Except String (Option (Transaction κ))) (signatures : List ς) (place : ℕ)
    (unreadableBody : Bool) (read : List (ς × Option (Transaction κ)))
    (result : Except String Bool) : Prop where
  listed : read.map Prod.fst <+: signatures
  answered : ∀ i entry, read[i]? = some entry → body (place + i) = .ok entry.2
  complete : ∀ unreadable, result = .ok unreadable → read.map Prod.fst = signatures
  readable : result = .ok false → unreadableBody = false ∧ ∀ entry ∈ read, entry.2.isSome = true
  absent : ∀ unreadable, result = .ok unreadable → ∀ signature transaction,
    (signature, some transaction) ∈ read →
      ¬ want signature transaction

variable {want : ς → Transaction κ → Prop} {body : ℕ → Except String (Option (Transaction κ))}
  {signature : ς} {sigs : List ς}
  {p : ℕ} {unreadableBody : Bool} {read : List (ς × Option (Transaction κ))}
  {r : Except String Bool}

omit [DecidableEq κ] in
theorem Examined.cons {ans : Option (Transaction κ)} (hbody : body p = .ok ans)
    (hans : ∀ tx, ans = some tx →
      ¬ want signature tx)
    (h : Examined want body sigs (p + 1)
      (unreadableBody || ans.isNone) read r) :
    Examined want body (signature :: sigs) p unreadableBody
      ((signature, ans) :: read) r where
  listed := prefix_cons_inj signature |>.mpr h.listed
  answered := by
    intro i e he
    cases i with
    | zero =>
      cases he
      exact hbody
    | succ i =>
      rw [← h.answered i e he]
      congr 1
      omega
  complete := by
    intro unreadable hres
    rw [map_cons, h.complete unreadable hres]
  readable := by
    intro hres
    obtain ⟨hflag, hrd⟩ := h.readable hres
    rw [Bool.or_eq_false_iff, isNone_eq_false_iff] at hflag
    refine ⟨hflag.1, fun e he => ?_⟩
    rcases mem_cons.mp he with rfl | hr
    · exact hflag.2
    · exact hrd e hr
  absent := by
    intro unreadable hres other tx hm
    rcases mem_cons.mp hm with hfst | hr
    · cases hfst
      exact hans tx rfl
    · exact h.absent unreadable hres other tx hr

omit [DecidableEq κ] in
theorem Examined.error {ans : Option (Transaction κ)} {error : String}
    (hbody : body p = .ok ans) :
    Examined want body (signature :: sigs) p unreadableBody
      [(signature, ans)] (.error error) where
  listed := ⟨sigs, rfl⟩
  answered := by
    intro i e he
    cases i with
    | zero =>
      cases he
      exact hbody
    | succ i => cases he
  complete := fun _ hres => by cases hres
  readable := fun hres => by cases hres
  absent := fun _ hres => by cases hres

variable (reading intentId minSlot payer body) in
theorem examine_spec (sigs : List ς) (p : ℕ) (unreadableBody : Bool) :
    Examined (Wanted reading intentId minSlot payer) body sigs p unreadableBody
      (examine reading body intentId minSlot payer sigs p unreadableBody).1
      (examine reading body intentId minSlot payer sigs p unreadableBody).2 := by
  induction sigs generalizing p unreadableBody with
  | nil =>
    refine ⟨ nil_prefix, fun i e he => ?_, fun _ _ => rfl, fun hres => ?_, ?_⟩
    · cases he
    · exact ⟨Except.ok.inj hres, forall_mem_nil _⟩
    · exact fun _ _ _ _ hm => absurd hm not_mem_nil
  | cons signature sigs ih =>
    rw [examine]
    cases hbody : body p with
    | error error =>
      refine ⟨ nil_prefix, fun i e he => ?_, fun _ hres => ?_, fun hres => ?_,
        fun _ hres => ?_⟩
      · cases he
      all_goals cases hres
    | ok ans =>
      cases ans with
      | none =>
        refine .cons hbody (fun _ hsome => by cases hsome) ?_
        rw [isNone_none, Bool.or_true]
        exact ih (p + 1) true
      | some tx =>
        dsimp only
        cases hinspect : inspect reading intentId minSlot payer signature tx with
        | error error => exact .error hbody
        | ok _ =>
          refine .cons hbody (fun other ho => ?_) ?_
          · cases ho
            exact inspect_ok hinspect
          · rw [isNone_some, Bool.or_false]
            exact ih (p + 1) unreadableBody

/-- What one attempt read. -/
structure Pass.Of (answers : Answers κ ς) (attempt : ℕ) (pass : Pass κ ς) : Prop where
  listing : answers.listing attempt = .ok pass.listed
  listed : pass.read.map Prod.fst <+: pass.listed
  answered : ∀ i entry, pass.read[i]? = some entry → answers.body attempt i = .ok entry.2

/-- A pass that read a transaction for everything that was listed. -/
def Pass.Full (pass : Pass κ ς) : Prop :=
  pass.read.map Prod.fst = pass.listed ∧ ∀ entry ∈ pass.read, entry.2.isSome = true

/-- The pass read what is wanted. -/
def Pass.Saw (want : ς → Transaction κ → Prop) (pass : Pass κ ς) : Prop :=
  ∃ signature transaction, (signature, some transaction) ∈ pass.read ∧ want signature transaction

/-- What all attempts read. -/
structure Passed (want : ς → Transaction κ → Prop) (answers : Answers κ ς)
    (left attempt : ℕ) (done : List (Pass κ ς)) (result : Except String Unit) : Prop where
  bounded : done.length ≤ left
  made : ∀ (i : ℕ) (pass : Pass κ ς), done[i]? = some pass → pass.Of answers (attempt + i)
  full : result = .ok () → ∃ pass ∈ done, pass.Full
  absent : result = .ok () → ∀ pass ∈ done, ¬ pass.Saw want

section

variable {answers : Answers κ ς} {left a : ℕ} {done : List (Pass κ ς)} {pass : Pass κ ς}
  {out : Except String Unit}

omit [DecidableEq κ]

theorem Passed.error (error : String) :
    Passed want answers left a [] (.error error) where
  bounded := Nat.zero_le left
  made := fun _ _ hpass => by cases hpass
  full := fun hres => by cases hres
  absent := fun hres => by cases hres

theorem Passed.cons (hpass : pass.Of answers a)
    (habsent : out = .ok () → ¬ pass.Saw want)
    (h : Passed want answers left (a + 1) done out) :
    Passed want answers (left + 1) a (pass :: done) out where
  bounded := Nat.succ_le_succ h.bounded
  made := by
    intro i other ho
    cases i with
    | zero =>
      cases ho
      exact hpass
    | succ i =>
      have hmade := h.made i other ho
      rwa [Nat.add_right_comm, Nat.add_assoc] at hmade
  full := fun hres => (h.full hres).imp fun _ ho => ho.imp_left (mem_cons_of_mem _)
  absent := by
    intro hres other ho
    rcases mem_cons.mp ho with rfl | hr
    · exact habsent hres
    · exact h.absent hres other hr

theorem Passed.last (hpass : pass.Of answers a)
    (hres : out = .ok () → pass.Full ∧ ¬ pass.Saw want) :
    Passed want answers (left + 1) a [pass] out where
  bounded := Nat.succ_le_succ (Nat.zero_le left)
  made := by
    intro i other ho
    cases i with
    | zero =>
      cases ho
      exact hpass
    | succ i => cases ho
  full := fun hok => ⟨pass, mem_singleton_self pass, (hres hok).1⟩
  absent := by
    intro hok other ho
    rw [mem_singleton.mp ho]
    exact (hres hok).2

end

variable (reading intentId minSlot payer) in
theorem passes_spec (answers : Answers κ ς) (left a : ℕ) :
    Passed (Wanted reading intentId minSlot payer) answers left a
      (passes reading answers intentId minSlot payer left a).1
      (passes reading answers intentId minSlot payer left a).2 := by
  induction left generalizing a with
  | zero => exact .error _
  | succ left ih =>
    rw [passes]
    cases hlisting : answers.listing a with
    | error error => exact .error error
    | ok sigs =>
      have hexa := examine_spec reading intentId minSlot payer (answers.body a)
        sigs 0 false
      dsimp only
      rcases hexamine : examine reading (answers.body a) intentId minSlot payer sigs 0
        false with ⟨read, r⟩
      rw [hexamine] at hexa
      have hpass : Pass.Of answers a ⟨sigs, read⟩ := by
        refine ⟨hlisting, hexa.listed, fun i e he => ?_⟩
        rw [← hexa.answered i e he, Nat.zero_add]
      have habsent : ∀ unreadable, r = .ok unreadable →
          ¬ Pass.Saw (Wanted reading intentId minSlot payer) ⟨sigs, read⟩ := by
        rintro unreadable hres ⟨signature, transaction, hm, hwanted⟩
        exact hexa.absent unreadable hres signature transaction hm hwanted
      match r with
      | .error error => exact .last hpass fun hok => by cases hok
      | .ok false =>
        exact .last hpass fun _ =>
          ⟨⟨hexa.complete false rfl, (hexa.readable rfl).2⟩, habsent false rfl⟩
      | .ok true => exact .cons hpass (fun _ => habsent true rfl) (ih (a + 1))

end

/-- **The absence of a receipt** is confirmed only by a pass that read everything that was listed,
a completion that is read is an error, and there are five passes at most, whatever is answered. -/
theorem receipt_absent (answers : Answers κ ς) (address : κ) (intentId minSlot : ℕ) (payer : κ)
    (done : List (Pass κ ς)) (result : Except String Unit)
    (h : ensureReceiptAbsent reading answers (.outbox address intentId minSlot) payer =
      (done, result)) :
    (∀ i pass, done[i]? = some pass → answers.listing i = .ok pass.listed ∧
        pass.read.map Prod.fst <+: pass.listed ∧
        ∀ j entry, pass.read[j]? = some entry → answers.body i j = .ok entry.2) ∧
      (result = .ok () → ∃ pass ∈ done, pass.read.map Prod.fst = pass.listed ∧
        ∀ signature answer, (signature, answer) ∈ pass.read → ∃ transaction,
          answer = some transaction ∧
            ¬ Wanted reading intentId minSlot payer signature transaction) ∧
      (∀ pass ∈ done, ∀ signature transaction, (signature, some transaction) ∈ pass.read →
        Wanted reading intentId minSlot payer signature transaction →
          ∃ error, result = .error error) ∧
      done.length ≤ 5 := by
  have hpassed := passes_spec reading intentId minSlot payer answers attempts 0
  rw [show passes reading answers intentId minSlot payer attempts 0 = (done, result) from h]
    at hpassed
  refine ⟨fun i pass hpass => ?_, fun hok => ?_,
    fun pass hpass signature transaction hmem hwanted =>
    ?_, hpassed.bounded⟩
  · have hmade := hpassed.made i pass hpass
    rw [Nat.zero_add] at hmade
    exact ⟨hmade.listing, hmade.listed, hmade.answered⟩
  · obtain ⟨pass, hpass, hlisted, hfull⟩ := hpassed.full hok
    refine ⟨pass, hpass, hlisted, fun signature answer hmem => ?_⟩
    obtain ⟨transaction, hsome⟩ := isSome_iff_exists.mp (hfull _ hmem)
    refine ⟨transaction, hsome, fun hwanted => hpassed.absent hok pass hpass ?_⟩
    exact ⟨signature, transaction, hsome ▸ hmem, hwanted⟩
  · cases result with
    | error error => exact ⟨error, rfl⟩
    | ok _ => exact absurd ⟨signature, transaction, hmem, hwanted⟩ (hpassed.absent rfl pass hpass)

/-- Keys and signatures that are numbers, and an outbox program with the number 9. -/
def numbers : Reading ℕ ℕ :=
  { pubkey := Http.parseUsize, signature := Http.parseUsize, outboxIntentId := 9 }

def completion : Transaction ℕ :=
  { slot := 3
    status := some
      { err := none
        logMessages := some
          ["ScheduledCommitSent id: 42, slot: 3".toList,
            "Program log: ScheduledCommitSent payer: 7".toList] }
    decoded := some { staticAccountKeys := [7, 9], programIdIndexes := [1] } }

/-- An outbox with two transactions, of which the second is readable from the second pass on. -/
def published : Answers ℕ ℕ :=
  { listing := fun _ => .ok [1, 2]
    body := fun attempt place => .ok (if attempt = 0 ∧ place = 1 then none else some completion) }

example : (ensureReceiptAbsent numbers published (.outbox 5 42 0) 7).2 =
    .error "completion for intent 42 is visible" := by
  rfl

theorem receipt_absent_published :
    ∃ done, ensureReceiptAbsent numbers published (.outbox 5 42 0) 8 = (done, .ok ()) ∧
      done.length ≤ 5 ∧ done.length = 2 := by
  refine ⟨_, rfl, ?_, rfl⟩
  exact (receipt_absent numbers published 5 42 0 8 _ _ rfl).2.2.2

end Redsuite.Receipt
