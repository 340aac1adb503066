import Redsuite.Receipt
import Mathlib.Data.List.Perm.Basic

/-!
# Receipts in logs

What `parse_logs` of `core/src/receipt.rs` makes of the log lines of a receipt.
-/

namespace Redsuite.Receipt

open List Option

variable {κ ς : Type}

/-- A character of base 58 is none of these. -/
def Plain (c : Char) : Prop := Http.isWhitespace c = false ∧ c ≠ ',' ∧ c ≠ '[' ∧ c ≠ ']'

/-- How public keys or signatures are printed: the inverse of how they are read. -/
structure Printed {α : Type} (read : List Char → Option α) where
  print : α → List Char
  read_iff : ∀ text value, read text = some value ↔ text = print value
  nonempty : ∀ value, print value ≠ []
  plain : ∀ value, ∀ c ∈ print value, Plain c

/-- What a line of the log says. -/
inductive Field (κ ς : Type) : Type where
  /-- the commit id, and the text that may follow it after a comma -/
  | commitId (id : Fin (2 ^ 64)) (more : Option (List Char))
  | payer (key : κ)
  | included (keys : List κ)
  | excluded (keys : List κ)
  | signature (index : ℕ) (key : ς)
  | undelegation
  | error (message : List Char)
  deriving DecidableEq

/-- A line of a log: a field with or without the prefix, or a line that is not about a receipt. -/
inductive Line (κ ς : Type) : Type where
  | entry (logged : Bool) (field : Field κ ς)
  | other (text : List Char) (unmarked : (stripProgramPrefix text).dropPrefix? logMarker = none)

def Line.field? : Line κ ς → Option (Field κ ς)
  | .entry _ field => some field
  | .other _ _ => none

section Rendering

variable {reading : Reading κ ς} (keys : Printed reading.pubkey)
  (signatures : Printed reading.signature)

def joined : List (List Char) → List Char
  | [] => []
  | first :: rest => first ++ rest.flatMap (',' :: ' ' :: ·)

def listText (list : List κ) : List Char := '[' :: (joined (list.map keys.print) ++ [']'])

def Field.text : Field κ ς → List Char
  | .commitId id more => "id: ".toList ++ (Nat.toDigits 10 id ++ more.elim [] (',' :: ·))
  | .payer key => "payer: ".toList ++ keys.print key
  | .included list => "included: ".toList ++ listText keys list
  | .excluded list => "excluded: ".toList ++ listText keys list
  | .signature index key =>
    "signature[".toList ++ (Nat.toDigits 10 index ++ ("]: ".toList ++ signatures.print key))
  | .undelegation => "requested undelegation".toList
  | .error message => "error message: ".toList ++ message

def Line.text : Line κ ς → List Char
  | .entry logged field =>
    (if logged then "Program log: ".toList else []) ++ (logMarker ++ field.text keys signatures)
  | .other text _ => text

end Rendering

/-! ### Texts -/

theorem digits_plain (n : ℕ) : ∀ c ∈ Nat.toDigits 10 n, c ≠ ',' ∧ c ≠ ']' := by
  intro c hc
  have hdigit : c.isDigit = true := Nat.isDigit_of_mem_toDigits (by decide) (by decide) hc
  constructor <;>
  · rintro rfl
    revert hdigit
    decide

theorem parseUsize_digits {n : ℕ} (h : n < 2 ^ 64) :
    Http.parseUsize (Nat.toDigits 10 n) = some n := by
  have hdig : ∀ c ∈ Nat.toDigits 10 n, c.isDigit = true :=
    fun c hc => Nat.isDigit_of_mem_toDigits (by decide) (by decide) hc
  have hplus : ∀ rest, Nat.toDigits 10 n ≠ '+' :: rest := by
    intro rest heq
    exact absurd (hdig '+' (heq ▸ mem_cons_self)) (by decide)
  have hpa : Http.parseDigits (Nat.toDigits 10 n) = some n := by
    rw [Http.parseDigits, if_pos (all_eq_true.mpr hdig),
      Nat.ofDigitChars_toDigits (by decide) (by decide), if_pos h]
  unfold Http.parseUsize
  split
  · rename_i hnil
    exact absurd hnil Nat.toDigits_ne_nil
  · rename_i heq
    exact absurd heq (hplus _)
  · rename_i heq
    exact absurd heq (hplus _)
  · exact hpa

theorem splitOnce_digits (n : ℕ) (text : List Char) :
    splitOnce "]: ".toList (Nat.toDigits 10 n ++ ("]: ".toList ++ text)) =
      some (Nat.toDigits 10 n, text) := by
  have hplain : ∀ c ∈ Nat.toDigits 10 n, c ≠ ']' := fun c hc => (digits_plain n c hc).2
  generalize Nat.toDigits 10 n = digits at hplain ⊢
  induction digits with
  | nil => simp [splitOnce, dropPrefix?]
  | cons c digits ih =>
    have hc : c ≠ ']' := hplain c mem_cons_self
    have hr := ih fun d hd => hplain d (mem_cons_of_mem _ hd)
    rw [cons_append, splitOnce, hr]
    simp [dropPrefix?, hc]

theorem head_splitOn_digits (n : ℕ) (more : Option (List Char)) :
    ((Nat.toDigits 10 n ++ more.elim [] (',' :: ·)).splitOn ',').head? =
      some (Nat.toDigits 10 n) := by
  have hplain : ∀ c ∈ Nat.toDigits 10 n, (c == ',') = false :=
    fun c hc => beq_false_of_ne (digits_plain n c hc).1
  rw [splitOn_eq_splitOnP]
  cases more with
  | none => rw [elim_none, append_nil, splitOnP_eq_singleton hplain, head?_cons]
  | some text =>
    rw [elim_some, splitOnP_append_cons_of_forall_mem hplain _ (beq_self_eq_true _), head?_cons]

theorem head_trim {c : Char} (text : List Char) (h : Http.isWhitespace c = false) :
    (Http.trim (c :: text)).head? = some c := by
  rw [Http.trim, dropWhile_cons, if_neg (by simp [h]), reverse_cons, dropWhile_append]
  split
  · simp [dropWhile, h]
  · simp

theorem Printed.trim {α : Type} {read : List Char → Option α} (self : Printed read) (v : α) :
    Http.trim (self.print v) = self.print v :=
  Http.trim_plain fun c hc => (self.plain v c hc).1

theorem Printed.read_print {α : Type} {read : List Char → Option α} (self : Printed read)
    (v : α) : read (self.print v) = some v :=
  (self.read_iff _ v).mpr rfl

theorem trim_brackets (text : List Char) :
    Http.trim ('[' :: (text ++ [']'])) = '[' :: (text ++ [']']) := by
  have hopen : Http.isWhitespace '[' = false := by decide
  have hclose : Http.isWhitespace ']' = false := by decide
  rw [Http.trim, dropWhile_cons, if_neg (by simp [hopen])]
  simp [hclose]

theorem dropWhile_not_mem {c : Char} {text : List Char} (h : c ∉ text) :
    text.dropWhile (· = c) = text := by
  cases text with
  | nil => rfl
  | cons d rest => simp [dropWhile, (ne_of_not_mem_cons h).symm]

theorem splitOn_joined {first : List Char} {rest : List (List Char)} (hfst : ',' ∉ first)
    (hr : ∀ text ∈ rest, ',' ∉ text) :
    (joined (first :: rest)).splitOn ',' = first :: rest.map (' ' :: ·) := by
  have hplain : ∀ {text : List Char}, ',' ∉ text → ∀ c ∈ text, (c == ',') = false :=
    fun htext c hc => beq_false_of_ne fun heq => htext (heq ▸ hc)
  rw [splitOn_eq_splitOnP]
  induction rest generalizing first with
  | nil => rw [joined, flatMap_nil, append_nil, splitOnP_eq_singleton (hplain hfst), map_nil]
  | cons next rest ih =>
    have hnx : ',' ∉ ' ' :: next := by simpa using hr next mem_cons_self
    rw [joined, flatMap_cons, cons_append, splitOnP_append_cons_of_forall_mem (hplain hfst) _
      (beq_self_eq_true _), map_cons]
    exact congrArg (first :: ·) (ih hnx fun text htext => hr text (mem_cons_of_mem _ htext))

variable {reading : Reading κ ς} {keys : Printed reading.pubkey}
  {signatures : Printed reading.signature}

theorem bracket_not_mem (list : List κ) {c : Char} (h : c = '[' ∨ c = ']') :
    c ∉ joined (list.map keys.print) := by
  have hk : ∀ key, c ∉ keys.print key := fun key hc =>
    h.elim (keys.plain key c hc).2.2.1 (keys.plain key c hc).2.2.2
  have hcomma : c ≠ ',' ∧ c ≠ ' ' := by rcases h with rfl | rfl <;> decide
  cases list with
  | nil => exact not_mem_nil
  | cons key list => simp [joined, hk, hcomma]

theorem pubkeyList_listText (list : List κ) :
    pubkeyList reading (listText keys list) = list := by
  have hop : (listText keys list).dropWhile (· = '[') =
      joined (list.map keys.print) ++ [']'] := by
    rw [listText, dropWhile_cons, if_pos (by simp), dropWhile_not_mem]
    rw [mem_append, mem_singleton]
    exact fun h => h.elim (bracket_not_mem list (.inl rfl)) (by decide)
  have hcld : (joined (list.map keys.print) ++ [']']).reverse.dropWhile (· = ']') =
      (joined (list.map keys.print)).reverse := by
    rw [reverse_append, reverse_singleton, singleton_append, dropWhile_cons, if_pos (by simp),
      dropWhile_not_mem]
    rw [mem_reverse]
    exact bracket_not_mem list (.inr rfl)
  rw [pubkeyList, listText, trim_brackets, ← listText]
  simp only [hop, hcld, reverse_reverse]
  cases list with
  | nil =>
    have hem : reading.pubkey [] = none := by
      rw [Option.eq_none_iff_forall_ne_some]
      intro key hk
      exact keys.nonempty key ((keys.read_iff [] key).mp hk).symm
    simp [joined, Http.trim, hem]
  | cons key list =>
    have hspace : ∀ key : κ, Http.trim (' ' :: keys.print key) = keys.print key :=
      fun key => Http.trim_space fun c hc => (keys.plain key c hc).1
    have hcomma : ∀ key : κ, ',' ∉ keys.print key := fun key hc => (keys.plain key _ hc).2.1 rfl
    rw [map_cons, splitOn_joined (hcomma key) (by simpa using fun key _ => hcomma key)]
    simp [filterMap_map, Function.comp_def, hspace, keys.read_print, keys.trim]

/-! ### Lines -/

def Field.apply (receipt : CommitReceipt κ ς) : Field κ ς → CommitReceipt κ ς
  | .commitId id _ => { receipt with commitId := some id }
  | .payer key => { receipt with payer := some key }
  | .included keys => { receipt with included := keys }
  | .excluded keys => { receipt with excluded := keys }
  | .signature _ key => { receipt with baseSignatures := receipt.baseSignatures ++ [key] }
  | .undelegation => { receipt with requestedUndelegation := true }
  | .error message => { receipt with errorMessage := some message }

theorem dropPrefix?_self (tag text : List Char) : (tag ++ text).dropPrefix? tag = some text :=
  dropPrefix?_append_of_beq text (beq_self_eq_true _)

theorem dropPrefix?_apart {tag other : List Char} (text : List Char)
    (h : (tag.isPrefixOf other || other.isPrefixOf tag) = false) :
    (tag ++ text).dropPrefix? other = none := by
  rw [Option.eq_none_iff_forall_ne_some]
  intro rest hr
  obtain ⟨found, heq, hf⟩ := dropPrefix?_eq_some_iff.mp hr
  obtain rfl : found = other := eq_of_beq hf
  have hboth := prefix_or_prefix_of_prefix (⟨text, rfl⟩ : tag <+: _) ⟨rest, heq.symm⟩
  rw [Bool.or_eq_false_iff, Bool.eq_false_iff, Bool.eq_false_iff] at h
  rcases hboth with hpre | hpre
  · exact h.1 ( isPrefixOf_iff_prefix.mpr hpre)
  · exact h.2 ( isPrefixOf_iff_prefix.mpr hpre)

theorem strip_entry (logged : Bool) (field : Field κ ς) :
    (stripProgramPrefix ((Line.entry logged field).text keys signatures)).dropPrefix? logMarker =
      some (field.text keys signatures) := by
  cases logged with
  | false =>
    rw [stripProgramPrefix, Line.text, if_neg Bool.false_ne_true, nil_append, dropPrefix?_apart,
      getD_none, dropPrefix?_self]
    decide +kernel
  | true =>
    rw [stripProgramPrefix, Line.text, if_pos rfl, dropPrefix?_self, getD_some, dropPrefix?_self]

theorem parseLine_entry (receipt : CommitReceipt κ ς) (logged : Bool) (field : Field κ ς) :
    parseLine reading receipt ((Line.entry logged field).text keys signatures) =
      field.apply receipt := by
  have hmessage : ∀ message, Http.trim ("error message: ".toList ++ message) ≠
      "requested undelegation".toList := by
    intro message heq
    have hsp : "error message: ".toList = 'e' :: "rror message: ".toList := by decide +kernel
    have hwhite : Http.isWhitespace 'e' = false := by decide
    have hhead := head_trim ("rror message: ".toList ++ message) hwhite
    rw [← cons_append, ← hsp, heq] at hhead
    exact absurd hhead (by decide +kernel)
  rw [parseLine, strip_entry]
  dsimp only
  cases field with
  | commitId id more =>
    unfold Field.text
    rw [dropPrefix?_self]
    simp only [head_splitOn_digits, Option.bind_some, Http.trim_plain (Http.digits_not_white id),
      parseUsize_digits id.isLt, Field.apply]
  | payer key =>
    unfold Field.text
    rw [dropPrefix?_apart, dropPrefix?_self]
    · simp only [keys.trim, keys.read_print, Field.apply]
    · decide +kernel
  | included list =>
    unfold Field.text
    rw [dropPrefix?_apart, dropPrefix?_apart, dropPrefix?_self]
    · simp only [pubkeyList_listText, Field.apply]
    all_goals decide +kernel
  | excluded list =>
    unfold Field.text
    rw [dropPrefix?_apart, dropPrefix?_apart, dropPrefix?_apart, dropPrefix?_self]
    · simp only [pubkeyList_listText, Field.apply]
    all_goals decide +kernel
  | signature i key =>
    unfold Field.text
    rw [dropPrefix?_apart, dropPrefix?_apart, dropPrefix?_apart, dropPrefix?_apart,
      dropPrefix?_self]
    · simp only [splitOnce_digits, Option.bind_some, signatures.trim, signatures.read_print,
        Field.apply]
    all_goals decide +kernel
  | undelegation =>
    unfold Field.text
    dsimp only
    rw [← append_nil "requested undelegation".toList, dropPrefix?_apart, dropPrefix?_apart,
      dropPrefix?_apart, dropPrefix?_apart, dropPrefix?_apart]
    · rw [append_nil]
      exact if_pos (by decide +kernel)
    all_goals decide +kernel
  | error message =>
    unfold Field.text
    rw [dropPrefix?_apart, dropPrefix?_apart, dropPrefix?_apart, dropPrefix?_apart,
      dropPrefix?_apart, dropPrefix?_self]
    · exact if_neg (hmessage message)
    all_goals decide +kernel

/-! ### Logs -/

def Field.signature? : Field κ ς → Option ς
  | .signature _ key => some key
  | _ => none

/-- The fields of a receipt; the signatures with the indexes that they are logged with. -/
def fields (id : Fin (2 ^ 64)) (more : Option (List Char)) (payer : κ) (included excluded : List κ)
    (indexed : List (ℕ × ς)) (undelegation : Bool) (message : Option (List Char)) :
    List (Field κ ς) :=
  [.commitId id more, .payer payer, .included included, .excluded excluded] ++
    indexed.map (fun entry => .signature entry.1 entry.2) ++
    (if undelegation then [.undelegation] else []) ++ message.toList.map .error

/-- A receipt without its base signatures: all but these come in any order. -/
def CommitReceipt.unsigned (self : CommitReceipt κ ς) : CommitReceipt κ ς :=
  { self with baseSignatures := [] }

def Field.applyUnsigned (receipt : CommitReceipt κ ς) (field : Field κ ς) : CommitReceipt κ ς :=
  (field.apply receipt).unsigned

theorem foldl_parseLine (lines : List (Line κ ς)) (receipt : CommitReceipt κ ς) :
    (lines.map (Line.text keys signatures)).foldl (parseLine reading) receipt =
      (lines.filterMap Line.field?).foldl Field.apply receipt := by
  induction lines generalizing receipt with
  | nil => rfl
  | cons line lines ih =>
    rw [map_cons, foldl_cons, ih]
    cases line with
    | entry logged field => rw [parseLine_entry, filterMap_cons, Line.field?, foldl_cons]
    | other text unmarked =>
      rw [filterMap_cons, Line.field?, Line.text, parseLine, unmarked]

theorem foldl_apply_signatures (fields : List (Field κ ς)) (receipt : CommitReceipt κ ς) :
    (fields.foldl Field.apply receipt).baseSignatures =
      receipt.baseSignatures ++ fields.filterMap Field.signature? := by
  induction fields generalizing receipt with
  | nil => simp
  | cons field fields ih =>
    rw [foldl_cons, ih]
    cases field <;> simp [filterMap_cons, Field.apply, Field.signature?]

theorem foldl_apply_unsigned (fields : List (Field κ ς)) (receipt : CommitReceipt κ ς) :
    (fields.foldl Field.apply receipt).unsigned =
      fields.foldl Field.applyUnsigned receipt.unsigned := by
  refine (foldl_hom CommitReceipt.unsigned fun receipt field => ?_).symm
  cases field <;> rfl

section Receipt

variable {id : Fin (2 ^ 64)} {more message : Option (List Char)} {payer : κ}
  {included excluded : List κ} {indexed : List (ℕ × ς)} {undelegation : Bool} {x y : Field κ ς}

theorem mem_fields (h : x ∈ fields id more payer included excluded indexed undelegation message) :
    x = .commitId id more ∨ x = .payer payer ∨ x = .included included ∨ x = .excluded excluded ∨
    (∃ i key, x = .signature i key) ∨ x = .undelegation ∨
    ∃ text, message = some text ∧ x = .error text := by
  simp only [fields, mem_append, mem_cons, not_mem_nil, or_false, List.mem_map,
    Option.mem_toList] at h
  rcases h with ((h | ⟨e, -, rfl⟩) | h) | ⟨text, htext, rfl⟩
  · rcases h with rfl | rfl | rfl | rfl <;> simp
  · simp
  · cases undelegation
    · cases h
    · simp [mem_singleton.mp h]
  · simp [htext]

theorem eq_of_unsigned {one two : CommitReceipt κ ς} (h : one.unsigned = two.unsigned)
    (hbase : one.baseSignatures = two.baseSignatures) : one = two := by
  cases one
  cases two
  cases hbase
  cases h
  rfl

theorem applyUnsigned_comm
    (hx : x ∈ fields id more payer included excluded indexed undelegation message)
    (hy : y ∈ fields id more payer included excluded indexed undelegation message)
    (receipt : CommitReceipt κ ς) :
    Field.applyUnsigned (Field.applyUnsigned receipt x) y =
      Field.applyUnsigned (Field.applyUnsigned receipt y) x := by
  rcases mem_fields hx with rfl | rfl | rfl | rfl | ⟨_, _, rfl⟩ | rfl | ⟨one, hone, rfl⟩ <;>
    rcases mem_fields hy with rfl | rfl | rfl | rfl | ⟨_, _, rfl⟩ | rfl | ⟨two, htwo, rfl⟩ <;>
    first
      | rfl
      | cases hone.symm.trans htwo
        rfl

theorem foldl_signatures (indexed : List (ℕ × ς)) {receipt : CommitReceipt κ ς}
    (h : receipt.baseSignatures = []) :
    (indexed.map fun e => .signature e.1 e.2).foldl Field.applyUnsigned receipt =
      receipt := by
  induction indexed with
  | nil => rfl
  | cons e indexed ih =>
    have hsm : Field.applyUnsigned receipt (.signature e.1 e.2) = receipt := by
      cases receipt
      cases h
      rfl
    rw [map_cons, foldl_cons, hsm, ih]

theorem foldl_fields (signature : ς) (code : Option ℕ) :
    (fields id more payer included excluded indexed undelegation message).foldl
      Field.applyUnsigned ⟨signature, none, none, [], [], [], false, none, code⟩ =
    ⟨signature, some id.val, some payer, included, excluded, [], undelegation, message, code⟩ := by
  rw [fields, foldl_append, foldl_append, foldl_append, foldl_signatures indexed rfl]
  cases undelegation <;> cases message <;> rfl

end Receipt

/-- **A receipt is read from its logs.** The lines of the fields come in any order and among other
lines; the fields that are read are those of the receipt, with the base signatures in the order of
their lines. -/
theorem receipt_of_logs (keys : Printed reading.pubkey)
    (signatures : Printed reading.signature) (signature : ς) (code : Option ℕ)
    (id : Fin (2 ^ 64)) (more : Option (List Char)) (payer : κ) (included excluded : List κ)
    (indexed : List (ℕ × ς)) (undelegation : Bool) (message : Option (List Char))
    (lines : List (Line κ ς)) (h : lines.filterMap Line.field? ~
      fields id more payer included excluded indexed undelegation message) :
    let base := (lines.filterMap Line.field?).filterMap Field.signature?
    base ~ indexed.map (·.2) ∧
    parseLogs reading signature (lines.map (Line.text keys signatures)) code =
      { signature := signature
        commitId := some id.val
        payer := some payer
        included := included
        excluded := excluded
        baseSignatures := base
        requestedUndelegation := undelegation
        errorMessage := message
        receiptErrCode := code } := by
  refine ⟨?_, ?_⟩
  · refine (h.filterMap _).trans (.of_eq ?_)
    rw [fields, filterMap_append, filterMap_append, filterMap_append, filterMap_map]
    cases undelegation <;> cases message <;>
      simp [filterMap_cons, Field.signature?, Function.comp_def]
  · rw [parseLogs, foldl_parseLine]
    refine eq_of_unsigned ?_ ?_
    · rw [foldl_apply_unsigned, h.foldl_eq' fun x hx y hy receipt =>
        applyUnsigned_comm (h.subset hx) (h.subset hy) receipt]
      exact foldl_fields signature code
    · rw [foldl_apply_signatures]
      rfl

def readLetter (text : List Char) : Option Unit := if text = ['K'] then some () else none

def letterReading : Reading Unit Unit := ⟨readLetter, readLetter, ()⟩

def letter : Printed readLetter where
  print _ := ['K']
  read_iff text _ := by simp [readLetter]
  nonempty _ := cons_ne_nil _ _
  plain _ c hc := by
    rw [mem_singleton.mp hc]
    exact ⟨by decide, by decide, by decide, by decide⟩

def letterLines : List (Line Unit Unit) :=
  [.entry true (.signature 1 ()), .other "Program log: done".toList (by decide +kernel),
    .entry false (.commitId 5 (some " slot: 7".toList)), .entry true (.excluded [(), ()]),
    .entry false (.included []), .entry true .undelegation, .entry false (.signature 0 ()),
    .entry false (.payer ())]

theorem receipt_of_logs_letters :
    parseLogs letterReading () (letterLines.map (@Line.text _ _ letterReading letter letter)) none =
      ⟨(), some 5, some (), [], [(), ()], [(), ()], true, none, none⟩ :=
  (@receipt_of_logs _ _ letterReading letter letter () none 5 (some " slot: 7".toList) () []
    [(), ()] [(0, ()), (1, ())] true none letterLines (by decide +kernel)).2

end Redsuite.Receipt
