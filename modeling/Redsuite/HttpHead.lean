import Redsuite.Utf8
import Mathlib.Algebra.Group.Nat.Defs
import Mathlib.Data.List.Infix

/-!
# Heads of HTTP messages

How `core/src/netfault/http.rs` reads the head of a request and writes the head of a response.
-/

namespace Redsuite

open List Option Utf8

namespace Http

/-! ### The end of the head -/

/-- `\r\n\r\n`. -/
def terminator : List UInt8 := [13, 10, 13, 10]

/-- `buffer.windows(4).position(..)`: where the head ends. -/
def findTerminator : List UInt8 → Option ℕ
  | [] => none
  | byte :: rest =>
    if terminator.isPrefixOf (byte :: rest) then some 0 else (findTerminator rest).map (· + 1)

variable {split : ℕ} {c : Char} {line text : List Char} {bs : List UInt8}

theorem findTerminator_eq (h : findTerminator bs = some split) :
    bs = bs.take split ++ terminator ++ bs.drop (split + 4) := by
  induction bs generalizing split with
  | nil => cases h
  | cons byte rest ih =>
    simp only [findTerminator] at h
    split at h
    · rename_i hprefix
      cases h
      obtain ⟨tail, htail⟩ := isPrefixOf_iff_prefix.mp hprefix
      rw [← htail]
      rfl
    · obtain ⟨inner, hinn, rfl⟩ := map_eq_some_iff.mp h
      have hr := ih hinn
      exact congrArg (byte :: ·) hr

theorem findTerminator_le (h : findTerminator bs = some split) : split + 4 ≤ bs.length := by
  have hlen := congrArg List.length (findTerminator_eq h)
  simp only [length_append, length_take, length_drop, terminator,
    length_cons, length_nil] at hlen
  omega

theorem findTerminator_append (more : List UInt8)
    (h : findTerminator bs = some split) : findTerminator (bs ++ more) = some split := by
  induction bs generalizing split with
  | nil => cases h
  | cons byte rest ih =>
    simp only [findTerminator, cons_append] at h ⊢
    split at h
    · rename_i hprefix
      have hlong : terminator.isPrefixOf (byte :: (rest ++ more)) = true :=
        isPrefixOf_iff_prefix.mpr
          (( isPrefixOf_iff_prefix.mp hprefix).trans (prefix_append (byte :: rest) more))
      rw [if_pos hlong]
      exact h
    · rename_i hprefix
      obtain ⟨inner, hinn, rfl⟩ := map_eq_some_iff.mp h
      have hlong : ¬ terminator.isPrefixOf (byte :: (rest ++ more)) = true := by
        intro hlong
        -- four bytes are there already, so a terminator in front would have been seen
        have hle := findTerminator_le hinn
        have hsho : terminator <+: byte :: rest :=
          prefix_of_prefix_length_le ( isPrefixOf_iff_prefix.mp hlong)
            (prefix_append (byte :: rest) more) (by simp [terminator]; omega)
        exact hprefix ( isPrefixOf_iff_prefix.mpr hsho)
      rw [if_neg hlong, ih hinn]
      rfl

theorem findTerminator_front {more : List UInt8} (h : findTerminator (bs ++ more) = some split)
    (hle : split + 4 ≤ bs.length) : findTerminator bs = some split := by
  induction bs generalizing split with
  | nil => exact absurd hle (by simp)
  | cons byte rest ih =>
    simp only [findTerminator, cons_append] at h ⊢
    split at h
    · rename_i hlong
      have hsho : terminator <+: byte :: rest :=
        prefix_of_prefix_length_le ( isPrefixOf_iff_prefix.mp hlong)
          (prefix_append (byte :: rest) more) (by simp [terminator] at hle ⊢; omega)
      rw [if_pos ( isPrefixOf_iff_prefix.mpr hsho)]
      exact h
    · rename_i hlong
      obtain ⟨inner, hinn, rfl⟩ := map_eq_some_iff.mp h
      have hsho : ¬ terminator.isPrefixOf (byte :: rest) = true := by
        intro hfront
        exact hlong ( isPrefixOf_iff_prefix.mpr
          (( isPrefixOf_iff_prefix.mp hfront).trans (prefix_append (byte :: rest) more)))
      rw [if_neg hsho, ih hinn (by simp only [length_cons] at hle; omega)]
      rfl

theorem findTerminator_skip {front : List UInt8} (rest : List UInt8) (h : 13 ∉ front) :
    findTerminator (front ++ rest) = (findTerminator rest).map (· + front.length) := by
  induction front with
  | nil => simp
  | cons byte front ih =>
    have hbyte : byte ≠ 13 := fun heq => h (heq ▸ mem_cons_self)
    have hno : ¬ terminator.isPrefixOf (byte :: (front ++ rest)) = true := by
      intro hprefix
      simp only [terminator, isPrefixOf, Bool.and_eq_true, beq_iff_eq] at hprefix
      exact hbyte hprefix.1.symm
    rw [cons_append, findTerminator, if_neg hno,
      ih fun hm => h (mem_cons_of_mem _ hm), Option.map_map]
    rfl

theorem findTerminator_line {byte : UInt8} (rest : List UInt8) (h : byte ≠ 13) :
    findTerminator (13 :: 10 :: byte :: rest) = (findTerminator (byte :: rest)).map (· + 2) := by
  have hfst : ¬ terminator.isPrefixOf (13 :: 10 :: byte :: rest) = true := by
    intro hprefix
    simp only [terminator, isPrefixOf, Bool.and_eq_true, beq_iff_eq] at hprefix
    exact h hprefix.2.2.1.symm
  have hsecond : ¬ terminator.isPrefixOf (10 :: byte :: rest) = true := by
    simp [terminator]
  rw [findTerminator, if_neg hfst, findTerminator, if_neg hsecond, Option.map_map]
  rfl

/-! ### Text -/

/-- `str::split_inclusive('\n')`. -/
def splitInclusive : List Char → List (List Char)
  | [] => []
  | c :: rest =>
    if c = '\n' then [c] :: splitInclusive rest
    else
      match splitInclusive rest with
      | [] => [[c]]
      | line :: lines => (c :: line) :: lines

/-- A line without its end; a carriage return goes only with a line feed. -/
def lineText (line : List Char) : List Char :=
  if line.getLast? = some '\n' then
    if line.dropLast.getLast? = some '\r' then line.dropLast.dropLast else line.dropLast
  else line

def lines (text : List Char) : List (List Char) := (splitInclusive text).map lineText

def splitOnce (separator : Char) : List Char → Option (List Char × List Char)
  | [] => none
  | c :: rest =>
    if c = separator then some ([], rest)
    else (splitOnce separator rest).map fun parts => (c :: parts.1, parts.2)

def isWhitespace (c : Char) : Bool :=
  let n := c.toNat
  9 ≤ n && n ≤ 13 || n = 32 || n = 0x85 || n = 0xA0 || n = 0x1680 || 0x2000 ≤ n && n ≤ 0x200A ||
    n = 0x2028 || n = 0x2029 || n = 0x202F || n = 0x205F || n = 0x3000

def trim (text : List Char) : List Char :=
  ((text.dropWhile isWhitespace).reverse.dropWhile isWhitespace).reverse

def eqIgnoreAsciiCase (left right : List Char) : Bool :=
  left.map Char.toLower = right.map Char.toLower

/-- The digits of `str::parse::<usize>`, on a machine of 64 bits. -/
def parseDigits (digits : List Char) : Option ℕ :=
  if digits.all Char.isDigit then
    let n := Nat.ofDigitChars 10 digits 0
    if n < 2 ^ 64 then some n else none
  else none

/-- `str::parse::<usize>`. -/
def parseUsize : List Char → Option ℕ
  | [] => none
  | ['+'] => none
  | '+' :: digits => parseDigits digits
  | digits => parseDigits digits

def header (name : String) (line : List Char) : Option (List Char) :=
  match splitOnce ':' line with
  | none => none
  | some (key, value) =>
      if eqIgnoreAsciiCase (trim key) name.toList then some (trim value) else none

/-- The announced length of the body: of the first header that has a number. -/
def contentLength (head : List Char) : ℕ :=
  ((lines head).findSome? fun line => (header "content-length" line).bind parseUsize).getD 0

/-- The connection stays open after the response. -/
def keepAlive (head : List Char) : Bool :=
  !(lines head).any fun line =>
    match header "connection" line with
    | none => false
    | some value => eqIgnoreAsciiCase value "close".toList

/-! ### Responses -/

/-- A `StatusCode`. -/
structure Status where
  code : ℕ
  valid : 100 ≤ code ∧ code < 1000
  deriving DecidableEq

def Status.ok : Status := ⟨200, by decide⟩

def Status.badGateway : Status := ⟨502, by decide⟩

def statusLine (status : Status) : List Char :=
  "HTTP/1.1 ".toList ++ Nat.toDigits 10 status.code ++
    (if status = .ok then " OK".toList else " Error".toList)

/-- The header lines of a response whose body has `length` bytes. -/
def lengthLine (length : ℕ) : List Char := "content-length: ".toList ++ Nat.toDigits 10 length

def responseHead (status : Status) (length : ℕ) : List Char :=
  statusLine status ++ "\r\n".toList ++ "content-type: application/json".toList ++ "\r\n".toList ++
    lengthLine length ++ "\r\n\r\n".toList

/-- A response of the upstream. -/
structure Response where
  status : Status
  text : String
  deriving DecidableEq

def Response.body (self : Response) : List UInt8 := Utf8.encode self.text.toList

def Response.head (self : Response) : List UInt8 :=
  Utf8.encode (responseHead self.status self.body.length)

def Response.bytes (self : Response) : List UInt8 := self.head ++ self.body

/-! ### A response announces its body -/

/-- ASCII text on one line. -/
def Plain (text : List Char) : Prop := ∀ c ∈ text, c.toNat < 128 ∧ c ≠ '\r' ∧ c ≠ '\n'

instance (text : List Char) : Decidable (Plain text) :=
  decidable_of_iff (text.all fun c => c.toNat < 128 ∧ c ≠ '\r' ∧ c ≠ '\n')
    (all_eq_true.trans (forall₂_congr fun _ _ => decide_eq_true_iff))

theorem Plain.append {left right : List Char} (hleft : Plain left) (hrt : Plain right) :
    Plain (left ++ right) := by
  intro c hm
  rcases mem_append.mp hm with h | h
  · exact hleft c h
  · exact hrt c h

theorem digit_plain (h : c.isDigit = true) : c.toNat < 128 ∧ c ≠ '\r' ∧ c ≠ '\n' := by
  have hrange : 48 ≤ c.toNat ∧ c.toNat ≤ 57 := by
    simpa [Char.isDigit, UInt32.le_iff_toNat_le] using h
  refine ⟨by omega, ?_, ?_⟩
  · rintro rfl
    exact absurd hrange (by decide)
  · rintro rfl
    exact absurd hrange (by decide)

theorem plain_digits (n : ℕ) : Plain (Nat.toDigits 10 n) :=
  fun _ hm => digit_plain (Nat.isDigit_of_mem_toDigits (by decide) (by decide) hm)

theorem plain_statusLine (status : Status) : Plain (statusLine status) := by
  refine ((by decide +kernel : Plain "HTTP/1.1 ".toList).append (plain_digits _)).append ?_
  split <;> decide +kernel

theorem plain_lengthLine (length : ℕ) : Plain (lengthLine length) :=
  (by decide +kernel : Plain "content-length: ".toList).append (plain_digits _)

theorem encodeChar_ascii (h : c.toNat < 128) : String.utf8EncodeChar c = [UInt8.ofNat c.toNat] := by
  exact if_pos (Nat.le_of_lt_succ h)

theorem encode_plain (h : Plain text) : 13 ∉ Utf8.encode text := by
  intro hm
  obtain ⟨c, hc, hbyte⟩ := mem_flatMap.mp hm
  obtain ⟨hascii, hcr, -⟩ := h c hc
  rw [encodeChar_ascii hascii, mem_singleton] at hbyte
  have hnat := congrArg UInt8.toNat hbyte
  rw [UInt8.toNat_ofNat'] at hnat
  have hthirteen : c.toNat = 13 := by
    have : c.toNat % 2 ^ 8 = c.toNat := Nat.mod_eq_of_lt (by omega)
    rw [this] at hnat
    exact hnat.symm
  exact hcr (Char.ext (UInt32.toNat_inj.mp hthirteen))

theorem splitInclusive_line (rest : List Char) (h : Plain line) :
    splitInclusive (line ++ '\r' :: '\n' :: rest) =
      (line ++ ['\r', '\n']) :: splitInclusive rest := by
  induction line with
  | nil => simp [splitInclusive]
  | cons c line ih =>
    have hc : c ≠ '\n' := (h c mem_cons_self).2.2
    have hline := ih fun d hd => h d (mem_cons_of_mem _ hd)
    simp only [cons_append, splitInclusive, if_neg hc, hline]

theorem splitInclusive_last (hne : line ≠ []) (h : Plain line) : splitInclusive line = [line] := by
  induction line with
  | nil => exact absurd rfl hne
  | cons c line ih =>
    have hc : c ≠ '\n' := (h c mem_cons_self).2.2
    cases line with
    | nil => simp [splitInclusive, hc]
    | cons d line =>
      have hline := ih (by simp) fun e he => h e (mem_cons_of_mem _ he)
      rw [splitInclusive, if_neg hc, hline]

theorem lineText_line (line : List Char) : lineText (line ++ ['\r', '\n']) = line := by
  have hfst : (line ++ ['\r', '\n']).getLast? = some '\n' := by simp
  have hdrop : (line ++ ['\r', '\n']).dropLast = line ++ ['\r'] := by
    rw [dropLast_append_of_ne_nil (by simp)]
    rfl
  have hsecond : (line ++ ['\r']).getLast? = some '\r' := by simp
  simp [lineText, hfst, hdrop]

theorem lineText_last (h : Plain line) : lineText line = line := by
  have hla : line.getLast? ≠ some '\n' := by
    intro hla
    exact (h _ (mem_of_getLast? hla)).2.2 rfl
  simp [lineText, hla]

theorem lines_three {first second third : List Char} (hfst : Plain first)
    (hsecond : Plain second) (hthird : Plain third) (hne : third ≠ []) :
    lines (first ++ '\r' :: '\n' :: (second ++ '\r' :: '\n' :: third)) =
      [first, second, third] := by
  rw [lines, splitInclusive_line _ hfst, splitInclusive_line _ hsecond,
    splitInclusive_last hne hthird]
  simp only [map_cons, map_nil, lineText_line, lineText_last hthird]

theorem splitOnce_none {separator : Char} (h : separator ∉ text) :
    splitOnce separator text = none := by
  induction text with
  | nil => rfl
  | cons c rest ih =>
    have hc : c ≠ separator := fun heq => h (heq ▸ mem_cons_self)
    rw [splitOnce, if_neg hc, ih fun hm => h (mem_cons_of_mem _ hm)]
    rfl

theorem splitOnce_append {separator : Char} {key : List Char} (v : List Char)
    (h : separator ∉ key) : splitOnce separator (key ++ separator :: v) = some (key, v) := by
  induction key with
  | nil => simp [splitOnce]
  | cons c rest ih =>
    have hc : c ≠ separator := fun heq => h (heq ▸ mem_cons_self)
    rw [cons_append, splitOnce, if_neg hc, ih fun hm => h (mem_cons_of_mem _ hm)]
    rfl

theorem digit_not_white (h : c.isDigit = true) : isWhitespace c = false := by
  have hrange : 48 ≤ c.toNat ∧ c.toNat ≤ 57 := by
    simpa [Char.isDigit, UInt32.le_iff_toNat_le] using h
  simp only [isWhitespace, Bool.or_eq_false_iff, Bool.and_eq_false_iff, decide_eq_false_iff_not]
  omega

theorem trim_plain (h : ∀ c ∈ text, isWhitespace c = false) : trim text = text := by
  have hdrop : ∀ text : List Char, (∀ c ∈ text, isWhitespace c = false) →
      text.dropWhile isWhitespace = text := by
    intro text htext
    cases text with
    | nil => rfl
    | cons c rest => simp [dropWhile, htext c mem_cons_self]
  rw [trim, hdrop text h, hdrop text.reverse (by simpa using h), reverse_reverse]

theorem trim_space (h : ∀ c ∈ text, isWhitespace c = false) : trim (' ' :: text) = text := by
  have hspace : isWhitespace ' ' = true := by decide
  rw [trim, dropWhile_cons, if_pos hspace]
  exact trim_plain h

theorem digits_not_white (n : ℕ) : ∀ c ∈ Nat.toDigits 10 n, isWhitespace c = false :=
  fun _ hm => digit_not_white (Nat.isDigit_of_mem_toDigits (by decide) (by decide) hm)

theorem header_lengthLine (length : ℕ) :
    header "content-length" (lengthLine length) = some (Nat.toDigits 10 length) := by
  have hline : lengthLine length =
      "content-length".toList ++ ':' :: ' ' :: Nat.toDigits 10 length := rfl
  have hnm : eqIgnoreAsciiCase (trim "content-length".toList) "content-length".toList = true := by
    decide +kernel
  rw [header, hline, splitOnce_append _ (by decide +kernel)]
  simp only [hnm, if_true, trim_space (digits_not_white length)]

theorem colon_not_mem_digits (n : ℕ) : ':' ∉ Nat.toDigits 10 n := by
  intro hm
  have hdigit : ':'.isDigit = true := Nat.isDigit_of_mem_toDigits (by decide) (by decide) hm
  exact absurd hdigit (by decide)

theorem colon_not_mem_statusLine (status : Status) : ':' ∉ statusLine status := by
  intro hm
  rcases mem_append.mp hm with hfront | hreason
  · rcases mem_append.mp hfront with hversion | hcode
    · exact absurd hversion (by decide +kernel)
    · exact colon_not_mem_digits _ hcode
  · split at hreason
    · exact absurd hreason (by decide +kernel)
    · exact absurd hreason (by decide +kernel)

theorem header_statusLine (name : String) (status : Status) :
    header name (statusLine status) = none := by
  rw [header, splitOnce_none (colon_not_mem_statusLine status)]

/-- The head of a response without the empty line at its end. -/
def headText (status : Status) (length : ℕ) : List Char :=
  statusLine status ++ '\r' :: '\n' :: ("content-type: application/json".toList ++
    '\r' :: '\n' :: lengthLine length)

theorem header_headText (status : Status) (length : ℕ) :
    (lines (headText status length)).findSome? (header "content-length") =
      some (Nat.toDigits 10 length) := by
  have hne : lengthLine length ≠ [] := append_ne_nil_of_right_ne_nil _ Nat.toDigits_ne_nil
  have htype : header "content-length" "content-type: application/json".toList = none := by
    decide +kernel
  rw [headText, lines_three (plain_statusLine status) (by decide +kernel) (plain_lengthLine length)
    hne]
  simp only [findSome?_cons, header_statusLine, htype, header_lengthLine]

theorem encode_headText (status : Status) (length : ℕ) :
    Utf8.encode (responseHead status length) =
      Utf8.encode (headText status length) ++ terminator := by
  have hsp : responseHead status length = headText status length ++ "\r\n\r\n".toList := by
    simp [responseHead, headText]
  have hterminator : Utf8.encode "\r\n\r\n".toList = terminator := by decide +kernel
  rw [hsp, encode_append, hterminator]

theorem encode_line (line rest : List Char) :
    Utf8.encode (line ++ '\r' :: '\n' :: rest) =
      Utf8.encode line ++ 13 :: 10 :: Utf8.encode rest := by
  rw [encode_append, encode_cons]
  rfl

theorem findTerminator_plain {next : List Char} {byte : UInt8} {tail : List UInt8}
    (rest : List UInt8) (hline : Plain line) (hnx : Utf8.encode next = byte :: tail)
    (hbyte : byte ≠ 13) :
    findTerminator (Utf8.encode (line ++ '\r' :: '\n' :: next) ++ rest) =
      (findTerminator (Utf8.encode next ++ rest)).map
        (· + ((Utf8.encode line).length + 2)) := by
  rw [encode_line, hnx, append_assoc, findTerminator_skip _ (encode_plain hline)]
  simp only [cons_append]
  rw [findTerminator_line _ hbyte, Option.map_map]
  congr 1
  funext n
  simp only [Function.comp_apply]
  omega

theorem findTerminator_headText (status : Status) (length : ℕ) (rest : List UInt8) :
    findTerminator (Utf8.encode (headText status length) ++ (terminator ++ rest)) =
      some (Utf8.encode (headText status length)).length := by
  have htype : Utf8.encode ("content-type: application/json".toList ++
      '\r' :: '\n' :: lengthLine length) = 99 :: (Utf8.encode
        ("ontent-type: application/json".toList ++ '\r' :: '\n' :: lengthLine length)) := rfl
  have hlen : Utf8.encode (lengthLine length) =
      99 :: Utf8.encode ("ontent-length: ".toList ++ Nat.toDigits 10 length) := rfl
  have hend : findTerminator (terminator ++ rest) = some 0 := by
    simp [terminator, findTerminator]
  rw [headText, findTerminator_plain _ (plain_statusLine status) htype (by decide),
    findTerminator_plain _ (by decide +kernel) hlen (by decide),
    findTerminator_skip _ (encode_plain (plain_lengthLine length)), hend, encode_line, encode_line]
  simp only [map_some, length_append, length_cons, some.injEq]
  omega

theorem Response.announces (self : Response) :
    ∃ split, findTerminator self.bytes = some split ∧ self.bytes.drop (split + 4) = self.body ∧
      (lines (lossy (self.bytes.take split))).findSome? (header "content-length") =
        some (Nat.toDigits 10 self.body.length) := by
  have hby : self.bytes = Utf8.encode (headText self.status self.body.length) ++
      (terminator ++ self.body) := by
    rw [Response.bytes, Response.head, encode_headText, append_assoc]
  refine ⟨_, hby ▸ findTerminator_headText _ _ _, ?_, ?_⟩
  · rw [hby, ← append_assoc]
    exact drop_left' (by simp [terminator])
  · rw [hby, take_left, lossy_encode]
    exact header_headText _ _

end Http

end Redsuite
