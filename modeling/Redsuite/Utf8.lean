import Mathlib.Data.Nat.Notation

/-!
# UTF-8 and its lossy decoder

Bytes are decoded as `String::from_utf8_lossy` does it.
-/

namespace Redsuite

open List

namespace Utf8

def encode (text : List Char) : List UInt8 := text.flatMap String.utf8EncodeChar

/-- The bytes are the encoding of a text. -/
def Valid (bytes : List UInt8) : Prop := ∃ text, encode text = bytes

theorem encode_cons (c : Char) (text : List Char) :
    encode (c :: text) = String.utf8EncodeChar c ++ encode text :=
  flatMap_cons

theorem encode_append (left right : List Char) :
    encode (left ++ right) = encode left ++ encode right :=
  flatMap_append

def decodeChar? (bytes : List UInt8) : Option Char := bytes.toByteArray.utf8DecodeChar? 0

theorem decodeChar?_encode (c : Char) (rest : List UInt8) :
    decodeChar? (String.utf8EncodeChar c ++ rest) = some c := by
  rw [decodeChar?, toByteArray_append]
  exact ByteArray.utf8DecodeChar?_utf8EncodeChar_append

def isTail (byte : UInt8) : Bool := 0x80 ≤ byte && byte ≤ 0xBF

/-- The second byte fits the first one of a sequence of three or four. -/
def isSecond (first second : UInt8) : Bool :=
  if first = 0xE0 then 0xA0 ≤ second && second ≤ 0xBF
  else if first = 0xED then 0x80 ≤ second && second ≤ 0x9F
  else if first = 0xF0 then 0x90 ≤ second && second ≤ 0xBF
  else if first = 0xF4 then 0x80 ≤ second && second ≤ 0x8F
  else isTail second

/-- How many bytes one replacement character stands for, at the front of a byte string that begins
with no character. -/
def invalidLength : List UInt8 → ℕ
  | first :: second :: rest =>
    if 0xE0 ≤ first && first ≤ 0xF4 && isSecond first second then
      match rest with
      | third :: _ => if 0xF0 ≤ first && isTail third then 3 else 2
      | [] => 2
    else 1
  | _ => 1

def replacement : Char := '\uFFFD'

/-- Decode at most `fuel` pieces. -/
def decodePieces : ℕ → List UInt8 → List Char
  | 0, _ => []
  | _, [] => []
  | fuel + 1, byte :: rest =>
    match decodeChar? (byte :: rest) with
    | some c => c :: decodePieces fuel ((byte :: rest).drop c.utf8Size)
    | none =>
      replacement :: decodePieces fuel ((byte :: rest).drop (invalidLength (byte :: rest)))

/-- `String::from_utf8_lossy`. Every piece has a byte, so there are no more pieces than bytes. -/
def lossy (bytes : List UInt8) : List Char := decodePieces bytes.length bytes

theorem decodePieces_nil (fuel : ℕ) : decodePieces fuel [] = [] := by
  cases fuel <;> rfl

theorem encodeChar_ne_nil (c : Char) : String.utf8EncodeChar c ≠ [] := by
  intro hnil
  have hlen := String.length_utf8EncodeChar c
  rw [hnil] at hlen
  exact absurd c.utf8Size_pos (by rw [← hlen]; exact Nat.lt_irrefl 0)

theorem decodePieces_encode (text : List Char) :
    ∀ fuel, (encode text).length ≤ fuel → decodePieces fuel (encode text) = text := by
  induction text with
  | nil => intro fuel _; exact decodePieces_nil fuel
  | cons c text ih =>
    intro fuel hfuel
    have hsize := String.length_utf8EncodeChar c
    have hpos := c.utf8Size_pos
    rw [encode_cons, length_append, hsize] at hfuel
    obtain ⟨fuel, rfl⟩ : ∃ n, fuel = n + 1 := ⟨fuel - 1, by omega⟩
    rw [encode_cons]
    cases hby : String.utf8EncodeChar c with
    | nil => exact absurd hby (encodeChar_ne_nil c)
    | cons byte tail =>
      have hdec := decodeChar?_encode c (encode text)
      have hdrop : (String.utf8EncodeChar c ++ encode text).drop c.utf8Size = encode text := by
        rw [← hsize, drop_left]
      rw [hby] at hdec hdrop
      simp only [cons_append] at hdec hdrop ⊢
      simp only [decodePieces, hdec, hdrop]
      rw [ih fuel (by omega)]

theorem lossy_encode (text : List Char) : lossy (encode text) = text :=
  decodePieces_encode text _ (Nat.le_refl _)

theorem encode_lossy_iff (bs : List UInt8) : encode (lossy bs) = bs ↔ Valid bs := by
  constructor
  · intro h
    exact ⟨lossy bs, h⟩
  · rintro ⟨text, rfl⟩
    rw [lossy_encode]

example : lossy [0x61, 0xF0, 0x90, 0x62, 0xFF] = ['a', replacement, 'b', replacement] := by
  decide +kernel

end Utf8

end Redsuite
