import Redsuite.Cell
import Redsuite.Utf8

/-!
# Random streams

A model of `rng` in `core/src/random.rs`.
-/

namespace Redsuite.Random

open List
open Fixture (fromLe toLeBytes leBytes_length fromLe_toLeBytes)

/-- A `str`, which has no more than `isize::MAX` bytes. -/
structure Text where
  text : List Char
  fits : (Utf8.encode text).length < 2 ^ 63

/-- `as_bytes`. -/
def Text.asBytes (self : Text) : List UInt8 := Utf8.encode self.text

/-- `key.len() as u64`. -/
def Text.len (self : Text) : UInt64 := UInt64.ofNat self.asBytes.length

/-- What is hashed of a key. -/
def framed (key : Text) : List UInt8 := toLeBytes key.len ++ key.asBytes

/-- What is hashed after the seed. -/
def keyed (keys : List Text) (index : UInt64) : List UInt8 :=
  keys.flatMap framed ++ toLeBytes index

/-- All that is hashed. -/
def hashed (seed : UInt64) (keys : List Text) (index : UInt64) : List UInt8 :=
  Utf8.encode "redsuite.random.v1".toList ++ (toLeBytes seed ++ keyed keys index)

/-- `rng`: the seed of the generator, with the hash function `Sha256`. -/
def rng {δ : Type} (sha256 : List UInt8 → δ) (seed : UInt64) (keys : List Text) (index : UInt64) :
    δ := sha256 (hashed seed keys index)

theorem toLeBytes_append {m n : UInt64} {left right : List UInt8}
    (h : toLeBytes m ++ left = toLeBytes n ++ right) : m = n ∧ left = right := by
  obtain ⟨hby, hr⟩ := append_inj h ((leBytes_length 8 _).trans (leBytes_length 8 _).symm)
  refine ⟨UInt64.toNat_inj.mp ?_, hr⟩
  rw [← fromLe_toLeBytes, ← fromLe_toLeBytes, hby]

theorem framed_append {key other : Text} {left right : List UInt8}
    (h : framed key ++ left = framed other ++ right) : key = other ∧ left = right := by
  rw [framed, framed, append_assoc, append_assoc] at h
  obtain ⟨hlen, hr⟩ := toLeBytes_append h
  have hlength : key.asBytes.length = other.asBytes.length := by
    have hk := key.fits
    have ho := other.fits
    have hnat := congrArg UInt64.toNat hlen
    rw [Text.len, Text.len, UInt64.toNat_ofNat', UInt64.toNat_ofNat'] at hnat
    rw [Text.asBytes, Text.asBytes] at hnat ⊢
    omega
  obtain ⟨hby, hr⟩ := append_inj hr hlength
  refine ⟨?_, hr⟩
  have htext : key.text = other.text := by
    rw [← Utf8.lossy_encode key.text, ← Utf8.lossy_encode other.text]
    exact congrArg Utf8.lossy hby
  cases key
  cases other
  cases htext
  rfl

theorem keyed_nil_ne (key : Text) (keys : List Text) (i i' : UInt64) :
    keyed [] i ≠ keyed (key :: keys) i' := by
  intro h
  have hlen := congrArg length h
  simp only [keyed, framed, flatMap_nil, flatMap_cons, nil_append, length_append, toLeBytes,
    leBytes_length] at hlen
  omega

theorem keyed_inj {keys keys' : List Text} {i i' : UInt64}
    (h : keyed keys i = keyed keys' i') : keys = keys' ∧ i = i' := by
  induction keys generalizing keys' with
  | nil =>
    cases keys' with
    | nil =>
      rw [keyed, keyed, ← append_nil (toLeBytes i), ← append_nil (toLeBytes i')] at h
      exact ⟨rfl, (toLeBytes_append h).1⟩
    | cons key' keys' => exact absurd h (keyed_nil_ne key' keys' i i')
  | cons key keys ih =>
    cases keys' with
    | nil => exact absurd h.symm (keyed_nil_ne key keys i' i)
    | cons key' keys' =>
      rw [keyed, keyed, flatMap_cons, flatMap_cons, append_assoc, append_assoc] at h
      obtain ⟨rfl, hr⟩ := framed_append h
      obtain ⟨rfl, hi⟩ := ih hr
      exact ⟨rfl, hi⟩

/-- **What is hashed says for whom.** Different arguments have different byte strings, whatever
their keys are and however many, and with a hash without collisions different streams. -/
theorem stream_determines_arguments (seed seed' : UInt64) (keys keys' : List Text)
    (index index' : UInt64) :
    (hashed seed keys index = hashed seed' keys' index' ↔
      seed = seed' ∧ keys = keys' ∧ index = index') ∧
    ∀ {δ : Type} {sha256 : List UInt8 → δ}, Function.Injective sha256 →
      (rng sha256 seed keys index = rng sha256 seed' keys' index' ↔
        seed = seed' ∧ keys = keys' ∧ index = index') := by
  have hbytes : hashed seed keys index = hashed seed' keys' index' ↔
      seed = seed' ∧ keys = keys' ∧ index = index' := by
    constructor
    · intro h
      obtain ⟨rfl, hrest⟩ := toLeBytes_append (append_cancel_left h)
      exact ⟨rfl, keyed_inj hrest⟩
    · rintro ⟨rfl, rfl, rfl⟩
      rfl
  exact ⟨hbytes, fun hinj => hinj.eq_iff.trans hbytes⟩

theorem stream_determines_arguments_id : rng id 1 [] 2 ≠ rng id 1 [] 3 := by
  intro h
  obtain ⟨-, -, hindex⟩ :=
    ((stream_determines_arguments 1 1 [] [] 2 3).2 Function.injective_id).mp h
  exact absurd hindex (by decide)

end Redsuite.Random
