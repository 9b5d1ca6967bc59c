import WireTables.Bytes.Word

/-!
The scalar types of the format and their values. Every value is a fixed number of bytes, least
significant first; a floating point value is its bit pattern, so that nothing about it is lost on
the way through a buffer.
-/

namespace WireTables

inductive ScalarType
  | bool | int8 | uint8 | int16 | uint16 | int32 | uint32 | int64 | uint64 | float32 | float64
  deriving DecidableEq, Repr

structure Binary32 where
  bits : UInt32
  deriving DecidableEq, Repr

structure Binary64 where
  bits : UInt64
  deriving DecidableEq, Repr

namespace ScalarType

def all : List ScalarType :=
  [.bool, .int8, .uint8, .int16, .uint16, .int32, .uint32, .int64, .uint64, .float32, .float64]

def width : ScalarType → Nat
  | .bool | .int8 | .uint8 => 1
  | .int16 | .uint16 => 2
  | .int32 | .uint32 | .float32 => 4
  | .int64 | .uint64 | .float64 => 8

abbrev Value : ScalarType → Type
  | .bool => Bool
  | .int8 => Int8
  | .uint8 => UInt8
  | .int16 => Int16
  | .uint16 => UInt16
  | .int32 => Int32
  | .uint32 => UInt32
  | .int64 => Int64
  | .uint64 => UInt64
  | .float32 => Binary32
  | .float64 => Binary64

def toBits : (type : ScalarType) → type.Value → Nat
  | .bool, value => value.toNat
  | .int8, value => value.toBitVec.toNat
  | .uint8, value => value.toNat
  | .int16, value => value.toBitVec.toNat
  | .uint16, value => value.toNat
  | .int32, value => value.toBitVec.toNat
  | .uint32, value => value.toNat
  | .int64, value => value.toBitVec.toNat
  | .uint64, value => value.toNat
  | .float32, value => value.bits.toNat
  | .float64, value => value.bits.toNat

/-- Bits that no value needs are dropped, and a boolean is true for any bits but zero. -/
def ofBits : (type : ScalarType) → Nat → type.Value
  | .bool, bits => bits != 0
  | .int8, bits => Int8.ofBitVec (BitVec.ofNat 8 bits)
  | .uint8, bits => UInt8.ofNat bits
  | .int16, bits => Int16.ofBitVec (BitVec.ofNat 16 bits)
  | .uint16, bits => UInt16.ofNat bits
  | .int32, bits => Int32.ofBitVec (BitVec.ofNat 32 bits)
  | .uint32, bits => UInt32.ofNat bits
  | .int64, bits => Int64.ofBitVec (BitVec.ofNat 64 bits)
  | .uint64, bits => UInt64.ofNat bits
  | .float32, bits => ⟨UInt32.ofNat bits⟩
  | .float64, bits => ⟨UInt64.ofNat bits⟩

def encode (type : ScalarType) (value : type.Value) : Bytes :=
  encodeWord type.width (type.toBits value)

def decode (type : ScalarType) (bytes : Bytes) : type.Value :=
  type.ofBits (decodeWord bytes)

/-- Tells a negative zero from a positive one, and finds a NaN equal to itself. -/
def sameEncoding (type : ScalarType) (left right : type.Value) : Bool :=
  type.encode left == type.encode right

def zero (type : ScalarType) : type.Value := type.ofBits 0

theorem width_pos (type : ScalarType) : 0 < type.width := by
  cases type <;> decide

theorem width_le (type : ScalarType) : type.width ≤ 8 := by
  cases type <;> decide

theorem toBits_lt (type : ScalarType) (value : type.Value) :
    type.toBits value < Nat.pow 256 type.width := by
  cases type
  case bool => cases value <;> decide
  case int8 => exact value.toBitVec.isLt
  case uint8 => exact value.toNat_lt
  case int16 => exact value.toBitVec.isLt
  case uint16 => exact value.toNat_lt
  case int32 => exact value.toBitVec.isLt
  case uint32 => exact value.toNat_lt
  case int64 => exact value.toBitVec.isLt
  case uint64 => exact value.toNat_lt
  case float32 => exact value.bits.toNat_lt
  case float64 => exact value.bits.toNat_lt

theorem ofBits_toBits (type : ScalarType) (value : type.Value) :
    type.ofBits (type.toBits value) = value := by
  cases type
  case bool => cases value <;> rfl
  all_goals simp [ofBits, toBits]

@[simp] theorem length_encode (type : ScalarType) (value : type.Value) :
    (type.encode value).length = type.width :=
  length_encodeWord ..

@[simp] theorem decode_encode (type : ScalarType) (value : type.Value) :
    type.decode (type.encode value) = value := by
  rw [decode, encode, decodeWord_encodeWord, Nat.mod_eq_of_lt (toBits_lt type value), ofBits_toBits]

theorem toBits_ofBits {type : ScalarType} (exact : type ≠ .bool) {bits : Nat}
    (small : bits < Nat.pow 256 type.width) : type.toBits (type.ofBits bits) = bits := by
  cases type
  case bool => exact absurd rfl exact
  all_goals
    simp only [toBits, ofBits, Int8.toBitVec_ofBitVec, Int16.toBitVec_ofBitVec,
      Int32.toBitVec_ofBitVec, Int64.toBitVec_ofBitVec, BitVec.toNat_ofNat, UInt8.toNat_ofNat',
      UInt16.toNat_ofNat', UInt32.toNat_ofNat', UInt64.toNat_ofNat']
    exact Nat.mod_eq_of_lt small

theorem encode_decode {type : ScalarType} (exact : type ≠ .bool) {bytes : Bytes}
    (length : bytes.length = type.width) : type.encode (type.decode bytes) = bytes := by
  have small := decodeWord_lt bytes
  rw [length] at small
  rw [encode, decode, toBits_ofBits exact small, ← length, encodeWord_decodeWord]

end ScalarType

def loadScalar (type : ScalarType) (bytes : Bytes) (index : Nat) : Except Fault type.Value :=
  (slice bytes index type.width).map type.decode

def overwriteScalar (type : ScalarType) (bytes : Bytes) (index : Nat) (value : type.Value) :
    Except Fault Bytes :=
  store bytes index (type.encode value)

end WireTables
