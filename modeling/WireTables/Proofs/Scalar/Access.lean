import Mathlib.Algebra.Group.Nat.Defs
import WireTables.Proofs.Bytes.Overwriting

namespace WireTables

/-- No index of the first range is in the second. -/
def Apart (start size place width : Nat) : Prop :=
  ∀ index, start ≤ index → index < start + size → index < place ∨ place + width ≤ index

/-- The bytes once what was read from them is written back. -/
def rewritten (type : ScalarType) (bytes : Bytes) (index : Nat) : Bytes :=
  if type = .bool then bytes.modify index fun byte => if byte = 0 then 0 else 1 else bytes

/-- Writes either value to the front of eight zeros and compares as many bytes as a value has. -/
def ScalarType.comparePadded (type : ScalarType) (left right : type.Value) : Except Fault Bool := do
  let first ← overwriteScalar type (zeros 8) 0 left
  let second ← overwriteScalar type (zeros 8) 0 right
  let first ← slice first 0 type.width
  let second ← slice second 0 type.width
  pure (first == second)

/-- What a scalar that is written where there is room for it changes, and what is read then. -/
structure ScalarWritten (type : ScalarType) (bytes : Bytes) (index : Nat) (value : type.Value)
    (changed : Bytes) : Prop where
  beside : AgreeOff index type.width bytes changed
  littleEndian : ∀ place < type.width,
    changed[index + place]? = some (UInt8.ofNat (type.toBits value / 256 ^ place))
  loaded : loadScalar type changed index = .ok value
  ranges : ∀ start size, Apart start size index type.width →
    slice changed start size = slice bytes start size
  scalars : ∀ (other : ScalarType) (place : Nat), Apart place other.width index type.width →
    loadScalar other changed place = loadScalar other bytes place
  same : ∀ other, type.sameEncoding value other = true ↔
    overwriteScalar type bytes index other = .ok changed

section Ranges

variable {bytes changed : Bytes} {start size place width : Nat}

theorem apart_iff : Apart start size place width ↔
    size = 0 ∨ width = 0 ∨ start + size ≤ place ∨ place + width ≤ start := by
  constructor
  · intro apart
    have later := apart (max start place)
    omega
  · intro off index reached inside
    omega

theorem AgreeOff.slice_of_apart (agree : AgreeOff place width bytes changed) (wide : 0 < width)
    (apart : Apart start size place width) :
    slice changed start size = slice bytes start size := by
  rcases apart_iff.mp apart with rfl | none | off
  · rw [slice, slice, agree.length, List.take_zero, List.take_zero]
  · exact absurd none (Nat.ne_of_gt wide)
  · exact agree.slice_eq off

end Ranges

section Codec

theorem getElem?_encodeWord {width place : Nat} (inside : place < width) (value : Nat) :
    (encodeWord width value)[place]? = some (UInt8.ofNat (value / 256 ^ place)) := by
  induction width generalizing place value with
  | zero => exact absurd inside (Nat.not_lt_zero place)
  | succ width ih =>
      cases place with
      | zero => simp [encodeWord]
      | succ place =>
          rw [encodeWord, List.getElem?_cons_succ, ih (Nat.lt_of_succ_lt_succ inside),
            Nat.div_div_eq_div_mul, Nat.pow_succ']

theorem encode_decode_bool (byte : UInt8) :
    ScalarType.encode .bool (ScalarType.decode .bool [byte]) = [if byte = 0 then 0 else 1] := by
  by_cases clear : byte = 0
  · subst clear
    rfl
  · have some : byte.toNat ≠ 0 := fun none => clear (UInt8.toNat_inj.mp none)
    have read : ScalarType.decode .bool [byte] = true := by
      simp [ScalarType.decode, ScalarType.ofBits, decodeWord, some]
    rw [read, if_neg clear]
    rfl

end Codec

section Access

variable {type other : ScalarType} {bytes changed : Bytes} {index place : Nat}
  {value found : type.Value}

theorem loadScalar_eq_error_iff : (∃ fault, loadScalar type bytes index = .error fault) ↔
    bytes.length < index + type.width := by
  rcases Nat.lt_or_ge bytes.length (index + type.width) with outside | fits
  · simp [loadScalar_outside outside, outside]
  · simpa [loadScalar, slice_ok fits, Except.map] using fits

theorem overwriteScalar_eq_error_iff :
    (∃ fault, overwriteScalar type bytes index value = .error fault) ↔
      bytes.length < index + type.width := by
  rw [overwriteScalar, store, type.length_encode]
  split
  case isTrue fits => simpa using fits
  case isFalse past => simpa using past

theorem overwriteScalar_eq_ok_iff : overwriteScalar type bytes index value = .ok changed ↔
    index + type.width ≤ bytes.length ∧ overwrite bytes index (type.encode value) = changed := by
  rw [overwriteScalar, store, type.length_encode]
  split
  case isTrue fits => simp [fits]
  case isFalse past => simp [past]

theorem loadScalar_overwrite (fits : index + type.width ≤ bytes.length) :
    loadScalar type (overwrite bytes index (type.encode value)) index = .ok value := by
  rw [← type.length_encode value] at fits
  rw [loadScalar_eq_ok_iff]
  exact ⟨type.encode value, type.length_encode value ▸ slice_overwrite fits, type.decode_encode value⟩

theorem sameEncoding_iff (fits : index + type.width ≤ bytes.length) (left right : type.Value) :
    type.sameEncoding left right = true ↔
      overwrite bytes index (type.encode right) = overwrite bytes index (type.encode left) := by
  rw [ScalarType.sameEncoding, beq_iff_eq]
  constructor
  · intro same
    rw [same]
  · intro same
    have loaded := congrArg (loadScalar type · index) same
    rw [loadScalar_overwrite fits, loadScalar_overwrite fits] at loaded
    cases loaded
    rfl

theorem scalarWritten (written : overwriteScalar type bytes index value = .ok changed) :
    ScalarWritten type bytes index value changed := by
  obtain ⟨fits, rfl⟩ := overwriteScalar_eq_ok_iff.mp written
  have length := type.length_encode value
  have agree := agreeOff_overwrite (length.symm ▸ fits)
  rw [length] at agree
  refine ⟨agree, fun place inside => ?_, loadScalar_overwrite fits,
    fun _ _ => agree.slice_of_apart type.width_pos, fun other place apart => ?_, fun other => ?_⟩
  · rw [getElem?_overwrite (length.symm ▸ fits), if_pos (by omega), Nat.add_sub_cancel_left]
    exact getElem?_encodeWord inside _
  · rw [loadScalar, loadScalar, agree.slice_of_apart type.width_pos apart]
  · rw [sameEncoding_iff fits, overwriteScalar_eq_ok_iff]
    exact (and_iff_right fits).symm

theorem modify_eq_overwrite {byte : UInt8} (present : bytes[index]? = some byte)
    (change : UInt8 → UInt8) : bytes.modify index change = overwrite bytes index [change byte] := by
  obtain ⟨inside, -⟩ := List.getElem?_eq_some_iff.mp present
  apply List.ext_getElem?
  intro place
  rw [getElem?_overwrite inside, List.getElem?_modify]
  by_cases here : index = place
  · subst here
    simp [present]
  · simp only [List.length_singleton]
    rw [if_neg (by omega)]
    simp [here]

theorem overwriteScalar_loaded (loaded : loadScalar type bytes index = .ok found) :
    overwriteScalar type bytes index found = .ok (rewritten type bytes index) := by
  obtain ⟨block, taken, rfl⟩ := loadScalar_eq_ok_iff.mp loaded
  have length := length_of_slice taken
  obtain ⟨fits, same⟩ := slice_eq_ok_iff.mp taken
  refine overwriteScalar_eq_ok_iff.mpr ⟨fits, ?_⟩
  by_cases boolean : type = .bool
  · subst boolean
    obtain ⟨byte, rfl⟩ := List.length_eq_one_iff.mp length
    have present : bytes[index]? = some byte := by
      have first : [byte][0]? = ((bytes.drop index).take 1)[0]? := congrArg (·[0]?) same
      rw [List.getElem?_take, if_pos Nat.one_pos, List.getElem?_drop] at first
      exact first.symm
    rw [encode_decode_bool, rewritten, if_pos rfl, modify_eq_overwrite present]
  · rw [ScalarType.encode_decode boolean length, overwrite_slice taken, rewritten, if_neg boolean]

theorem ScalarType.comparePadded_eq (type : ScalarType) (left right : type.Value) :
    type.comparePadded left right = .ok (type.sameEncoding left right) := by
  have fits (value : type.Value) : 0 + (type.encode value).length ≤ (zeros 8).length := by
    rw [type.length_encode, length_zeros, Nat.zero_add]
    exact type.width_le
  have written (value : type.Value) : ∃ padded,
      overwriteScalar type (zeros 8) 0 value = .ok padded ∧
        slice padded 0 type.width = .ok (type.encode value) :=
    ⟨_, if_pos (fits value), type.length_encode value ▸ slice_overwrite (fits value)⟩
  obtain ⟨first, firstWritten, firstTaken⟩ := written left
  obtain ⟨second, secondWritten, secondTaken⟩ := written right
  exact read_bind.mpr ⟨_, firstWritten, read_bind.mpr ⟨_, secondWritten,
    read_bind.mpr ⟨_, firstTaken, read_bind.mpr ⟨_, secondTaken, rfl⟩⟩⟩⟩

theorem overwriteScalar_comm (apart : Apart place other.width index type.width)
    (value : type.Value) (later : other.Value) :
    (overwriteScalar type bytes index value >>= (overwriteScalar other · place later)) =
      (overwriteScalar other bytes place later >>= (overwriteScalar type · index value)) := by
  apply store_comm
  rw [type.length_encode, other.length_encode]
  have wide := type.width_pos
  have otherWide := other.width_pos
  have off := apart_iff.mp apart
  omega

/-- A scalar is read and written at an index just where all its bytes are there. What was written is
read again, bit for bit, and nothing apart from it is changed or read differently; two values have
the same encoding just where they leave the same bytes. What was read can be written back, and
writes that are apart can be made in either order. -/
theorem scalar_access_exact (type : ScalarType) (bytes : Bytes) (index : Nat) (value : type.Value) :
    ((∃ fault, loadScalar type bytes index = .error fault) ↔
        bytes.length < index + type.width) ∧
      ((∃ fault, overwriteScalar type bytes index value = .error fault) ↔
        bytes.length < index + type.width) ∧
      (∀ changed, overwriteScalar type bytes index value = .ok changed →
        ScalarWritten type bytes index value changed) ∧
      (∀ found, loadScalar type bytes index = .ok found →
        overwriteScalar type bytes index found = .ok (rewritten type bytes index)) ∧
      (∀ (other : ScalarType) (place : Nat) (later : other.Value),
        Apart place other.width index type.width →
          (overwriteScalar type bytes index value >>= (overwriteScalar other · place later)) =
            (overwriteScalar other bytes place later >>= (overwriteScalar type · index value))) ∧
      ∀ other, type.comparePadded value other = .ok (type.sameEncoding value other) :=
  ⟨loadScalar_eq_error_iff, overwriteScalar_eq_error_iff, fun _ => scalarWritten,
    fun _ => overwriteScalar_loaded, fun _ _ later apart => overwriteScalar_comm apart value later,
    type.comparePadded_eq value⟩

end Access

end WireTables
