import WireTables.Scalar.Basic

namespace WireTables

/-- The bits below the sign bit grow with the distance from zero, up to those of infinity; above
them lie the NaNs. Both zeros have rank 0. -/
def floatRank (signBit infinity bits : Nat) : Option Int :=
  let distance := bits % signBit
  if infinity < distance then none
  else some (if bits < signBit then (distance : Int) else -(distance : Int))

def Binary32.rank (value : Binary32) : Option Int :=
  floatRank 0x80000000 0x7f800000 value.bits.toNat

def Binary64.rank (value : Binary64) : Option Int :=
  floatRank 0x8000000000000000 0x7ff0000000000000 value.bits.toNat

def ScalarType.rank : (type : ScalarType) → type.Value → Option Int
  | .bool, value => some value.toInt
  | .int8, value => some value.toInt
  | .uint8, value => some value.toNat
  | .int16, value => some value.toInt
  | .uint16, value => some value.toNat
  | .int32, value => some value.toInt
  | .uint32, value => some value.toNat
  | .int64, value => some value.toInt
  | .uint64, value => some value.toNat
  | .float32, value => value.rank
  | .float64, value => value.rank

def ScalarType.order (type : ScalarType) (left right : type.Value) : Ordering :=
  match type.rank left, type.rank right with
  | some left, some right => compare left right
  | _, _ => .eq

def orderBytes : Bytes → Bytes → Ordering
  | [], [] => .eq
  | [], _ :: _ => .lt
  | _ :: _, [] => .gt
  | left :: lefts, right :: rights => (compare left right).then (orderBytes lefts rights)

def orderOptional {α : Type} (order : α → α → Ordering) : Option α → Option α → Ordering
  | none, none => .eq
  | none, some _ => .lt
  | some _, none => .gt
  | some left, some right => order left right

end WireTables
