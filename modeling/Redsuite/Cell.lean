import Mathlib.Data.List.Basic
import Mathlib.Algebra.Group.Nat.Defs
import Mathlib.Order.Nat

/-!
# The header of a cell

A model of `CellHeader` in `programs/fixture/src/state.rs`.
-/

namespace Redsuite.Fixture

open List Option

def fromLe (bytes : List UInt8) : ℕ :=
  bytes.foldr (fun byte rest => byte.toNat + 256 * rest) 0

/-- So many bytes of a number, the lowest first. -/
def leBytes : ℕ → ℕ → List UInt8
  | 0, _ => []
  | width + 1, n => UInt8.ofNat n :: leBytes width (n / 256)

def toLeBytes (n : UInt64) : List UInt8 := leBytes 8 n.toNat

theorem leBytes_length (width n : ℕ) : (leBytes width n).length = width := by
  induction width generalizing n with
  | zero => rfl
  | succ width ih => rw [leBytes, length_cons, ih]

theorem fromLe_leBytes {width n : ℕ} (h : n < 256 ^ width) : fromLe (leBytes width n) = n := by
  induction width generalizing n with
  | zero => exact (Nat.lt_one_iff.mp h).symm
  | succ width ih =>
    have hr : fromLe (leBytes width (n / 256)) = n / 256 :=
      ih (Nat.div_lt_of_lt_mul (Nat.pow_succ' ▸ h))
    rw [leBytes, fromLe, foldr_cons, ← fromLe, hr, UInt8.toNat_ofNat']
    exact Nat.mod_add_div n 256

theorem fromLe_toLeBytes (n : UInt64) : fromLe (toLeBytes n) = n.toNat :=
  fromLe_leBytes n.toNat_lt

/-- Who a cell belongs to, and which one it is. -/
structure CellId where
  authority : List UInt8
  index : UInt64

/-- What its program says to an undelegation. -/
inductive UndelegationOutcome : Type where
  | accept
  | reject

def UndelegationOutcome.ofTag : ℕ → Option UndelegationOutcome
  | 0 => some .accept
  | 1 => some .reject
  | _ => none

def UndelegationOutcome.tag : UndelegationOutcome → UInt64
  | .accept => 0
  | .reject => 1

/-- The head of a cell. -/
structure CellHeader where
  id : CellId
  value : UInt64
  revision : UInt64
  undelegation : UndelegationOutcome

def CellHeader.SIZE : ℕ := 32 + 4 * 8

def CellHeader.VALUE_OFFSET : ℕ := 32 + 8

def readBytes (size : ℕ) (data : List UInt8) : Option (List UInt8 × List UInt8) :=
  if size ≤ data.length then some (data.take size, data.drop size) else none

def readU64 (data : List UInt8) : Option (UInt64 × List UInt8) :=
  (readBytes 8 data).map fun (bytes, data) => (UInt64.ofNat (fromLe bytes), data)

def CellHeader.tryDecode (data : List UInt8) : Option CellHeader := do
  let (authority, data) ← readBytes 32 data
  let (index, data) ← readU64 data
  let (value, data) ← readU64 data
  let (revision, data) ← readU64 data
  let (tag, _) ← readU64 data
  let undelegation ← UndelegationOutcome.ofTag tag.toNat
  return ⟨⟨authority, index⟩, value, revision, undelegation⟩

def CellHeader.encode (self : CellHeader) : List UInt8 :=
  self.id.authority ++ (toLeBytes self.id.index ++ (toLeBytes self.value ++
    (toLeBytes self.revision ++ toLeBytes self.undelegation.tag)))

section Read

variable {size : ℕ} {data bs rest : List UInt8} {v : UInt64} {header : CellHeader}

theorem readBytes_length (h : readBytes size data = some (bs, rest)) :
    size + rest.length = data.length ∧ bs.length = size := by
  rw [readBytes] at h
  split at h
  · obtain ⟨rfl, rfl⟩ := Prod.mk.inj (some.inj h)
    rw [length_drop, length_take]
    omega
  · cases h

theorem readU64_length (h : readU64 data = some (v, rest)) : 8 + rest.length = data.length := by
  obtain ⟨⟨bs, after⟩, hrd, heq⟩ := map_eq_some_iff.mp h
  obtain ⟨-, rfl⟩ := Prod.mk.inj heq
  exact (readBytes_length hrd).1

theorem CellHeader.size_le (h : CellHeader.tryDecode data = some header) :
    SIZE ≤ data.length ∧ header.id.authority.length = 32 := by
  rw [tryDecode] at h
  obtain ⟨⟨authority, one⟩, hauthority, h⟩ := bind_eq_some_iff.mp h
  obtain ⟨⟨index, two⟩, hi, h⟩ := bind_eq_some_iff.mp h
  obtain ⟨⟨v, three⟩, hval, h⟩ := bind_eq_some_iff.mp h
  obtain ⟨⟨revision, four⟩, hrevision, h⟩ := bind_eq_some_iff.mp h
  obtain ⟨⟨tag, five⟩, htag, h⟩ := bind_eq_some_iff.mp h
  obtain ⟨undelegation, -, h⟩ := bind_eq_some_iff.mp h
  cases h
  have hone := readBytes_length hauthority
  have htwo := readU64_length hi
  have hthree := readU64_length hval
  have hfour := readU64_length hrevision
  have hfive := readU64_length htag
  rw [SIZE]
  dsimp only at *
  omega

theorem readBytes_append (bs rest : List UInt8) :
    readBytes bs.length (bs ++ rest) = some (bs, rest) := by
  rw [readBytes, if_pos (by simp), take_left, drop_left]

theorem readU64_append (v : UInt64) (rest : List UInt8) :
    readU64 (toLeBytes v ++ rest) = some (v, rest) := by
  have hread := readBytes_append (toLeBytes v) rest
  rw [toLeBytes, leBytes_length, ← toLeBytes] at hread
  rw [readU64, hread]
  change some (UInt64.ofNat (fromLe (toLeBytes v)), rest) = _
  rw [fromLe_toLeBytes, UInt64.ofNat_toNat]

theorem CellHeader.tryDecode_encode (h : header.id.authority.length = 32)
    (rest : List UInt8) : tryDecode (header.encode ++ rest) = some header := by
  have hread := readBytes_append header.id.authority
  rw [h] at hread
  simp only [encode, append_assoc, tryDecode, hread, readU64_append, bind_eq_bind, bind_some]
  cases header with
  | mk id v revision undelegation => cases undelegation <;> rfl

theorem CellHeader.encode_length (h : header.id.authority.length = 32) :
    header.encode.length = SIZE := by
  simp only [encode, length_append, h, toLeBytes, leBytes_length, SIZE]

end Read

end Redsuite.Fixture
