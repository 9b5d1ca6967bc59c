/-!
The ways in which an operation can be misused beyond any error it reports: touching bytes that are
not there, writing into room that was never prepared, or asking for sizes that cannot be had.
-/

namespace WireTables

inductive Fault
  | outOfRange
  | indexPastEnd (index length : Nat)
  | vtableBeforeStart (table : Nat)
  | padWithoutRoom (count : Nat)
  | putWithoutRoom (count : Nat)
  | irregularAlignment (alignment : Nat)
  | sumPastAddresses
  | countPastLimit (count : Nat)
  deriving DecidableEq, Repr

/-- Ranges, sums and counts that are too large have no wording of their own. -/
def Fault.message : Fault → Option String
  | .outOfRange | .sumPastAddresses | .countPastLimit _ => none
  | .indexPastEnd index length =>
      some s!"index {index} out of bounds for vector of length {length}"
  | .vtableBeforeStart table =>
      some s!"vtable of table at {table} resolves before the start of the buffer"
  | .padWithoutRoom count => some s!"pad of {count} bytes without prep"
  | .putWithoutRoom count => some s!"put of {count} bytes without prep"
  | .irregularAlignment alignment => some s!"alignment {alignment} is not a power of two"

end WireTables
