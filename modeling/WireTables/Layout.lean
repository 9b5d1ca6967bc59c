import WireTables.Scalar.Basic

/-!
The fixed sizes of the format, and the numbering of fields. A vtable opens with its own size and the
inline size of its tables, two bytes each; then comes one two-byte entry a field. A field is
addressed by its slot, the position of its entry in the vtable.
-/

namespace WireTables

/-- The largest size to which a buffer grows: what a signed 32-bit distance can span, less eight. -/
def maxBufferSize : Nat := 2147483639

/-- Sizes and positions in memory stay below this number. -/
def addressLimit : Nat := UInt64.size

def referenceWidth : Nat := 4

def identifierLength : Nat := 4

def vtableHeaderWidth : Nat := 4

def entryWidth : Nat := 2

/-- The largest number that a vtable entry holds. -/
def maxEntry : Nat := 65535

abbrev Slot := UInt16

def slotOfIndex (index : UInt16) : Slot := 4 + index * 2

def indexOfSlot (slot : Slot) : Option Nat :=
  if slot.toNat < vtableHeaderWidth ∨ slot.toNat % entryWidth ≠ 0 then none
  else some ((slot.toNat - vtableHeaderWidth) / entryWidth)

theorem toNat_of_indexOfSlot {slot : Slot} {index : Nat} (place : indexOfSlot slot = some index) :
    slot.toNat = vtableHeaderWidth + index * entryWidth := by
  unfold indexOfSlot at place
  split at place
  case isTrue => cases place
  case isFalse valid =>
    cases place
    unfold vtableHeaderWidth entryWidth at valid ⊢
    omega

def validIdentifier (identifier : Bytes) : Bool :=
  identifier.length == identifierLength && identifier.all (· < 128)

end WireTables
