import Redsuite.Occurrences
import Redsuite.Cell

/-!
# A fault in the payload of a cell

A model of `PayloadFault` in `redhat/src/scenarios/aperture/signals/storage.rs`.
-/

namespace Redsuite.Redhat

open List Occurrences

open Fixture (CellHeader fromLe)

/-- The files of the ledger. -/
structure Files where
  isDir : String → Bool
  file : String → Option (List UInt8)

def Files.write (self : Files) (path : String) (bytes : List UInt8) : Files :=
  { self with file := fun other => if other = path then some bytes else self.file other }

/-- Why a fault cannot be made. -/
inductive StorageError : Type where
  | io
  | decode
  | message (text : String)

def readExactAt (bytes : List UInt8) (size offset : ℕ) : Option (List UInt8) :=
  let read := (bytes.drop offset).take size
  if read.length = size then some read else none

/-- A byte of the file that changes: `(u64, u8, u8)`. -/
structure Change where
  offset : ℕ
  original : UInt8
  replacement : UInt8

/-- A fault that was made. -/
structure PayloadFault where
  file : String
  changes : List Change
  restored : Bool

namespace PayloadFault

def CHUNK : ℕ := 1024 * 1024

/-- The offsets of the image from one on: the loop over the chunks. -/
def scan (bytes image : List UInt8) : ℕ → ℕ → List ℕ → Except StorageError (List ℕ)
  | 0, _, found => .ok found
  | fuel + 1, start, found =>
    if start < bytes.length then
      match readExactAt bytes (min (bytes.length - start) (CHUNK + image.length - 1)) start with
      | none => .error .io
      | some buffer =>
        let windows := (Occurrences.windows image.length buffer).take CHUNK
        scan bytes image fuel (start + CHUNK) (found ++ Occurrences.found image start windows)
    else .ok found

def flip (bit : ℕ) (byte : UInt8) : UInt8 := byte ^^^ (1 <<< UInt8.ofNat bit)

def notExercised (count : ℕ) : StorageError :=
  .message ("payload fault not exercised: expected one or two exact cell images, found " ++
    toString count)

def prepare (bytes image : List UInt8) (bit : ℕ) : Except StorageError (List Change) :=
  match readExactAt bytes 8 0 with
  | none => .error .io
  | some version =>
    if fromLe version ≠ 1 then
      .error (.message ("payload fault requires accountsdb format 1; " ++
        "route another format to accountsdb's owning tests"))
    else if 1024 * 1024 * 1024 < bytes.length then
      .error (.message "fixture account store exceeds fault scan limit")
    else
      match scan bytes image bytes.length 256 [] with
      | .error error => .error error
      | .ok found =>
        if found.length < 1 ∨ 2 < found.length then
          .error (notExercised found.length)
        else
          -- the image is long enough to have this byte
          let byte := image.getD CellHeader.VALUE_OFFSET 0
          .ok (found.map fun offset => ⟨offset + CellHeader.VALUE_OFFSET, byte, flip bit byte⟩)

/-- A loop over the changes: each byte is read, must be one that is accepted, and is written. -/
def overwrite (accepts : Change → UInt8 → Bool) (refusal : Change → String)
    (value : Change → UInt8) : List Change → List UInt8 → List UInt8 × Except StorageError Unit
  | [], bytes => (bytes, .ok ())
  | change :: changes, bytes =>
    match readExactAt bytes 1 change.offset with
    | some [actual] =>
      if accepts change actual then
        overwrite accepts refusal value changes (bytes.set change.offset (value change))
      else (bytes, .error (.message (refusal change)))
    | _ => (bytes, .error .io)

/-- The loop of `PayloadFault::inject`. -/
def exercise : List Change → List UInt8 → List UInt8 × Except StorageError Unit :=
  overwrite (fun change actual => actual = change.original)
    (fun _ => "cell moved while preparing the storage fault") Change.replacement

/-- The loop of `PayloadFault::restore`. -/
def undo : List Change → List UInt8 → List UInt8 × Except StorageError Unit :=
  overwrite (fun change actual => actual = change.replacement ∨ actual = change.original)
    (fun change => "account payload changed during fault; refusing to overwrite a new value at " ++
      toString change.offset) Change.original

def restore (self : PayloadFault) (files : Files) :
    PayloadFault × Files × Except StorageError Unit :=
  if self.restored then (self, files, .ok ())
  else
    match files.file self.file with
    | none => (self, files, .error .io)
    | some bytes =>
      match undo self.changes bytes with
      | (bytes, .ok ()) => ({ self with restored := true }, files.write self.file bytes, .ok ())
      | (bytes, .error error) => (self, files.write self.file bytes, .error error)

/-- `drop` of a fault: an error is only logged. -/
def drop (self : PayloadFault) (files : Files) : Files := (self.restore files).2.1

def storagePath (files : Files) (directory : String) : String :=
  if files.isDir (directory ++ "/CURRENT") then directory ++ "/CURRENT/storage.db"
  else directory ++ "/storage.db"

def inject (files : Files) (directory : String) (image : List UInt8) (bit : ℕ) :
    Files × Except StorageError PayloadFault :=
  if ¬(CellHeader.SIZE ≤ image.length ∧ bit < 8) then
    (files, .error (.message "invalid payload fault"))
  else if (CellHeader.tryDecode image).isNone then (files, .error .decode)
  else
    let path := storagePath files directory
    match files.file path with
    | none => (files, .error (.message ("opening owned account storage " ++ path)))
    | some bytes =>
      match prepare bytes image bit with
      | .error error => (files, .error error)
      | .ok changes =>
        let fault : PayloadFault := ⟨path, changes, false⟩
        match exercise changes bytes with
        | (bytes, .ok ()) => (files.write path bytes, .ok fault)
        -- the fault is dropped
        | (bytes, .error error) => (fault.drop (files.write path bytes), .error error)

/-! ### The search -/

section Scan

variable {bs image : List UInt8}

theorem readExactAt_eq {size off : ℕ} (h : off + size ≤ bs.length) :
    readExactAt bs size off = some ((bs.drop off).take size) := by
  rw [readExactAt, if_pos]
  rw [length_take, length_drop]
  omega

theorem scan_eq (hne : image ≠ []) (fuel start : ℕ) (found : List ℕ)
    (hfuel : bs.length ≤ start + fuel) :
    scan bs image fuel start found =
      .ok (found ++ among image bs start (bs.length - start)) := by
  induction fuel generalizing start found with
  | zero =>
    rw [scan, among_beyond hne (by omega), append_nil]
  | succ fuel ih =>
    rw [scan]
    split
    · rw [readExactAt_eq (by omega)]
      dsimp only
      have hchk : 0 < CHUNK := by decide
      rw [found_windows hne, ih _ _ (by omega), append_assoc,
        ← among_add, among_of_le hne (by omega)]
    · rw [among_beyond hne (by omega), append_nil]

end Scan

/-! ### The bytes that change -/

def putAll (value : UInt8) (offsets : List ℕ) (bytes : List UInt8) : List UInt8 :=
  offsets.foldl (fun bytes offset => bytes.set offset value) bytes

section Overwrite

variable {v : UInt8} {offsets : List ℕ} {bs : List UInt8}

theorem getElem?_putAll (i : ℕ) : (putAll v offsets bs)[i]? =
    if i ∈ offsets then bs[i]?.map fun _ => v else bs[i]? := by
  induction offsets generalizing bs with
  | nil => rfl
  | cons off offsets ih =>
    have hst : putAll v (off :: offsets) bs =
      putAll v offsets (bs.set off v) := rfl
    rw [hst, ih]
    by_cases hoff : off = i
    · subst hoff
      rw [getElem?_set_self']
      cases bs[off]? <;> simp
    · rw [getElem?_set_ne hoff]
      exact (if_congr (mem_cons.trans (or_iff_right (Ne.symm hoff))) rfl rfl).symm

/-- **A loop over changes writes them all**, if the bytes that are there are accepted. -/
theorem overwrite_ok {accepts : Change → UInt8 → Bool} {refusal : Change → String}
    {values : Change → UInt8} {changes : List Change} (hnd : (changes.map Change.offset).Nodup)
    (hvalues : ∀ change ∈ changes, values change = v)
    (haccepts : ∀ change ∈ changes,
      ∃ byte, bs[change.offset]? = some byte ∧ accepts change byte = true) :
    overwrite accepts refusal values changes bs =
      (putAll v (changes.map Change.offset) bs, .ok ()) := by
  induction changes generalizing bs with
  | nil => rfl
  | cons change changes ih =>
    obtain ⟨hnew, hnd⟩ := nodup_cons.mp hnd
    obtain ⟨hval, hvalues⟩ := forall_mem_cons.mp hvalues
    obtain ⟨⟨byte, hbyte, hfst⟩, hr⟩ := forall_mem_cons.mp haccepts
    have hrd : readExactAt bs 1 change.offset = some [byte] := by
      obtain ⟨hlt, heq⟩ := List.getElem?_eq_some_iff.mp hbyte
      rw [readExactAt_eq hlt, List.drop_eq_getElem_cons hlt, heq]
      rfl
    rw [overwrite, hrd]
    dsimp only
    rw [if_pos hfst, hval, ih hnd hvalues]
    · rfl
    · -- the byte just written is none of the others
      intro other ho
      have hne : change.offset ≠ other.offset :=
        fun heq => hnew (heq ▸ mem_map_of_mem ho)
      rw [getElem?_set_ne hne]
      exact hr other ho

end Overwrite

/-- Just this bit is another one. -/
def Flipped (bit : ℕ) (old new : UInt8) : Prop :=
  ∀ place, new.toNat.testBit place = (old.toNat.testBit place ^^ decide (place = bit))

variable {bit : ℕ} {files : Files} {bs : List UInt8}

theorem flipped_flip (hbit : bit < 8) (byte : UInt8) : Flipped bit byte (flip bit byte) := by
  have hmasks : ∀ bit : Fin 8, (1 <<< UInt8.ofNat bit : UInt8).toNat = 2 ^ bit.val := by decide
  have hmask : (1 <<< UInt8.ofNat bit : UInt8).toNat = 2 ^ bit := hmasks ⟨bit, hbit⟩
  intro p
  rw [flip, UInt8.toNat_xor, hmask, Nat.testBit_xor, Nat.testBit_two_pow]
  simp only [eq_comm]

/-! ### A fault -/

theorem write_self {path : String} (h : files.file path = some bs) :
    files.write path bs = files := by
  obtain ⟨isDir, file⟩ := files
  refine congrArg (Files.mk isDir) (funext fun other => ?_)
  split
  · rename_i heq
    rw [heq]
    exact h.symm
  · rfl

theorem write_write (files : Files) (path : String) (first second : List UInt8) :
    (files.write path first).write path second = files.write path second := by
  refine congrArg (Files.mk files.isDir) (funext fun other => ?_)
  split
  · rfl
  · rename_i hne
    exact if_neg hne

theorem write_file (files : Files) (path : String) (bs : List UInt8) :
    (files.write path bs).file path = some bs := if_pos rfl

section Fault

variable {bs image : List UInt8} {offsets : List ℕ}

theorem getElem?_of_occurs {off i : ℕ} (h : image <+: bs.drop off)
    (hi : i < image.length) : bs[off + i]? = image[i]? := by
  obtain ⟨rest, hr⟩ := h
  rw [← getElem?_drop, ← hr, getElem?_append_left hi]

def changesAt (offsets : List ℕ) (original replacement : UInt8) : List Change :=
  offsets.map fun offset => ⟨offset + CellHeader.VALUE_OFFSET, original, replacement⟩

theorem map_offset_changesAt (offsets : List ℕ) (original replacement : UInt8) :
    (changesAt offsets original replacement).map Change.offset =
      offsets.map (· + CellHeader.VALUE_OFFSET) := by
  rw [changesAt, map_map]
  rfl

/-- **A loop over the changes of a fault writes one byte wherever the image is.** -/
theorem overwrite_changesAt {accepts : Change → UInt8 → Bool} {refusal : Change → String}
    {values : Change → UInt8} {original replacement actual : UInt8} (v : UInt8)
    (hnd : offsets.Nodup)
    (hactual : ∀ off ∈ offsets, bs[off + CellHeader.VALUE_OFFSET]? = some actual)
    (hval : ∀ off, values ⟨off, original, replacement⟩ = v)
    (haccepts : ∀ off, accepts ⟨off, original, replacement⟩ actual = true) :
    overwrite accepts refusal values (changesAt offsets original replacement) bs =
      (putAll v (offsets.map (· + CellHeader.VALUE_OFFSET)) bs, .ok ()) := by
  rw [← map_offset_changesAt offsets original replacement]
  refine overwrite_ok ?_ ?_ ?_
  · rw [map_offset_changesAt]
    exact hnd.map fun first second heq => Nat.add_right_cancel heq
  · intro change hch
    obtain ⟨off, -, rfl⟩ := mem_map.mp hch
    exact hval _
  · intro change hch
    obtain ⟨off, hoff, rfl⟩ := mem_map.mp hch
    exact ⟨actual, hactual off hoff, haccepts _⟩

theorem getElem?_putAll_self {old new : UInt8} (h : ∀ off ∈ offsets, bs[off]? = some old)
    {off : ℕ} (hoff : off ∈ offsets) : (putAll new offsets bs)[off]? = some new := by
  rw [getElem?_putAll, if_pos hoff, h off hoff]
  rfl

theorem putAll_putAll {old new : UInt8} (h : ∀ off ∈ offsets, bs[off]? = some old) :
    putAll old offsets (putAll new offsets bs) = bs := by
  refine ext_getElem? fun i => ?_
  rw [getElem?_putAll, getElem?_putAll]
  split
  · rename_i hi
    rw [h i hi]
    rfl
  · rfl

theorem exercise_undo {original : UInt8} (replacement : UInt8) (hnd : offsets.Nodup)
    (h : ∀ off ∈ offsets, bs[off + CellHeader.VALUE_OFFSET]? = some original) :
    exercise (changesAt offsets original replacement) bs =
      (putAll replacement (offsets.map (· + CellHeader.VALUE_OFFSET)) bs, .ok ()) ∧
    undo (changesAt offsets original replacement)
      (putAll replacement (offsets.map (· + CellHeader.VALUE_OFFSET)) bs) = (bs, .ok ()) := by
  have hold : ∀ i ∈ offsets.map (· + CellHeader.VALUE_OFFSET), bs[i]? = some original :=
    forall_mem_map.mpr h
  constructor
  · exact overwrite_changesAt replacement hnd h (fun _ => rfl) fun _ => decide_eq_true rfl
  · have hnew : ∀ off ∈ offsets,
        (putAll replacement (offsets.map (· + CellHeader.VALUE_OFFSET)) bs)[
          off + CellHeader.VALUE_OFFSET]? = some replacement :=
      fun off hoff => getElem?_putAll_self hold (mem_map_of_mem hoff)
    have hundo : undo (changesAt offsets original replacement)
        (putAll replacement (offsets.map (· + CellHeader.VALUE_OFFSET)) bs) = _ :=
      overwrite_changesAt original hnd hnew (fun _ => rfl) fun _ => decide_eq_true (.inl rfl)
    rwa [putAll_putAll hold] at hundo

end Fault

theorem prepare_eq {image : List UInt8} (hlen : bs.length ≤ 1024 * 1024 * 1024)
    (hsize : 8 ≤ bs.length) (hversion : fromLe (bs.take 8) = 1) (hne : image ≠ []) :
    prepare bs image bit =
      if (among image bs 256 (bs.length - 256)).length < 1 ∨
          2 < (among image bs 256 (bs.length - 256)).length then
        .error (notExercised (among image bs 256 (bs.length - 256)).length)
      else .ok (changesAt (among image bs 256 (bs.length - 256))
        (image.getD CellHeader.VALUE_OFFSET 0) (flip bit (image.getD CellHeader.VALUE_OFFSET 0))) := by
  rw [prepare, readExactAt_eq (by omega)]
  dsimp only
  rw [drop_zero, if_neg (not_not.mpr hversion), if_neg (by omega),
    scan_eq hne _ _ _ (by omega), nil_append]
  rfl

theorem inject_eq {directory : String} {image : List UInt8}
    (hfile : files.file (storagePath files directory) = some bs)
    (himage : CellHeader.SIZE ≤ image.length)
    (hdecodes : (CellHeader.tryDecode image).isSome = true) (hbit : bit < 8) :
    inject files directory image bit =
      match prepare bs image bit with
      | .error error => (files, .error error)
      | .ok changes =>
        let fault : PayloadFault := ⟨storagePath files directory, changes, false⟩
        match exercise changes bs with
        | (bs, .ok ()) => (files.write (storagePath files directory) bs, .ok fault)
        | (bs, .error error) =>
          (fault.drop (files.write (storagePath files directory) bs), .error error) := by
  have hsome : ¬(CellHeader.tryDecode image).isNone = true := by
    rw [← Option.not_isSome, hdecodes]
    exact nofun
  rw [inject, if_neg (not_not.mpr ⟨himage, hbit⟩), if_neg hsome]
  dsimp only
  rw [hfile]

theorem restore_eq {path : String} {changes : List Change} {after : List UInt8}
    (hfile : files.file path = some bs) (hundo : undo changes after = (bs, .ok ())) :
    restore ⟨path, changes, false⟩ (files.write path after) =
      (⟨path, changes, true⟩, files, .ok ()) := by
  rw [restore, if_neg nofun]
  rw [write_file]
  dsimp only
  rw [hundo]
  dsimp only
  rw [write_write, write_self hfile]

/-- **A fault flips one bit wherever the image is, if it is there once or twice, and is undone by
restoring or dropping it; otherwise it is an error, and nothing changes.** -/
theorem injected_and_undone (files : Files) (directory : String) (image bytes : List UInt8)
    (bit : ℕ)
    (hfile : files.file (storagePath files directory) = some bytes)
    (hlength : bytes.length ≤ 1024 * 1024 * 1024) (hsize : 8 ≤ bytes.length)
    (hversion : fromLe (bytes.take 8) = 1) (himage : CellHeader.SIZE ≤ image.length)
    (hdecodes : (CellHeader.tryDecode image).isSome = true) (hbit : bit < 8) :
    ∃ offsets : List ℕ, scan bytes image bytes.length 256 [] = .ok offsets ∧ offsets.Nodup ∧
      (∀ offset, offset ∈ offsets ↔ 256 ≤ offset ∧ image <+: bytes.drop offset) ∧
      (offsets.length = 1 ∨ offsets.length = 2 → ∃ fault after,
        inject files directory image bit =
          (files.write (storagePath files directory) after, .ok fault) ∧
        fault.changes.map Change.offset = offsets.map (· + CellHeader.VALUE_OFFSET) ∧
        (∀ index ∉ offsets.map (· + CellHeader.VALUE_OFFSET), after[index]? = bytes[index]?) ∧
        (∀ index ∈ offsets.map (· + CellHeader.VALUE_OFFSET), ∃ old new,
          bytes[index]? = some old ∧ after[index]? = some new ∧ Flipped bit old new) ∧
        fault.restore (files.write (storagePath files directory) after) =
          ({ fault with restored := true }, files, .ok ()) ∧
        fault.drop (files.write (storagePath files directory) after) = files ∧
        drop { fault with restored := true } files = files) ∧
      (¬(offsets.length = 1 ∨ offsets.length = 2) →
        inject files directory image bit = (files, .error (notExercised offsets.length))) := by
  have hlong : CellHeader.VALUE_OFFSET < image.length := lt_of_lt_of_le (by decide) himage
  have hne : image ≠ [] := ne_nil_of_length_pos (lt_of_le_of_lt (Nat.zero_le _) hlong)
  have hmem : ∀ offset, offset ∈ among image bytes 256 (bytes.length - 256) ↔
      256 ≤ offset ∧ image <+: bytes.drop offset := fun offset => mem_among hne (by omega)
  have hnodup : (among image bytes 256 (bytes.length - 256)).Nodup :=
    nodup_among
  have hscan := scan_eq hne bytes.length 256 [] (show bytes.length ≤ _ by omega)
  have hinject := inject_eq hfile himage hdecodes hbit
  rw [prepare_eq hlength hsize hversion hne] at hinject
  generalize among image bytes 256 (bytes.length - 256) = offsets at *
  generalize hbyte : image.getD CellHeader.VALUE_OFFSET 0 = byte at hinject
  have hoccurs : ∀ offset ∈ offsets, bytes[offset + CellHeader.VALUE_OFFSET]? = some byte := by
    intro offset hoffset
    rw [getElem?_of_occurs ((hmem offset).mp hoffset).2 hlong, ← hbyte,
      getD_eq_getElem?_getD, getElem?_eq_getElem hlong]
    rfl
  obtain ⟨hexercise, hundo⟩ := exercise_undo (flip bit byte) hnodup hoccurs
  have hold : ∀ index ∈ offsets.map (· + CellHeader.VALUE_OFFSET), bytes[index]? = some byte :=
    forall_mem_map.mpr hoccurs
  refine ⟨offsets, hscan, hnodup, hmem, fun hcount => ?_, fun hcount => ?_⟩
  · rw [if_neg (by omega)] at hinject
    dsimp only at hinject
    rw [hexercise] at hinject
    have hrestore := restore_eq hfile hundo
    refine ⟨_, _, hinject, map_offset_changesAt _ _ _, fun index hindex => ?_,
      fun index hindex => ?_, hrestore, congrArg (·.2.1) hrestore, rfl⟩
    · rw [getElem?_putAll, if_neg hindex]
    · exact ⟨byte, flip bit byte, hold index hindex, getElem?_putAll_self hold hindex,
        flipped_flip hbit byte⟩
  · rw [hinject, if_pos (by omega)]

def sampleImage : List UInt8 :=
  List.replicate 40 7 ++ 5 :: List.replicate 23 0

def sampleStore : List UInt8 := 1 :: List.replicate 255 0 ++ sampleImage

def sampleFiles : Files :=
  ⟨fun _ => false, fun path => if path = "db/storage.db" then some sampleStore else none⟩

theorem injected_and_undone_sample : ∃ fault after,
    inject sampleFiles "db" sampleImage 0 = (sampleFiles.write "db/storage.db" after, .ok fault) ∧
    fault.drop (sampleFiles.write "db/storage.db" after) = sampleFiles := by
  have hpath : storagePath sampleFiles "db" = "db/storage.db" := by decide
  have h := injected_and_undone sampleFiles "db" sampleImage sampleStore 0
    (by rw [hpath]; rfl) (by decide +kernel) (by decide +kernel) (by decide +kernel)
    (by decide +kernel) (by decide +kernel) (by decide)
  obtain ⟨offsets, -, hnodup, hmem, hok, -⟩ := h
  have hperm : offsets.Perm (among sampleImage sampleStore 256 64) :=
    (perm_ext_iff_of_nodup hnodup nodup_among).mpr fun offset =>
      (hmem offset).trans (mem_among (by decide) (by decide +kernel)).symm
  have hone : offsets.length = 1 := hperm.length_eq.trans (by decide +kernel)
  obtain ⟨fault, after, hinject, -, -, -, -, hdrop, -⟩ := hok (.inl hone)
  exact ⟨fault, after, hinject, hdrop⟩

end PayloadFault

end Redsuite.Redhat
