import WireTables.Layout

/-!
Vtables as they lie in a buffer. A table opens with the signed distance to its vtable, which is
found by going that far back from the table; a slot at or past the vtable's size, or an entry of
zero, means that the field is absent.
-/

namespace WireTables

def locateVTable (buffer : Bytes) (table : Nat) : Except Fault Nat := do
  let distance ← loadScalar .int32 buffer table
  let position := (table : Int) - distance.toInt
  if position < 0 then throw (.vtableBeforeStart table) else pure position.toNat

structure VTable where
  buffer : Bytes
  position : Nat
  deriving DecidableEq, Repr

namespace VTable

def ofTable (buffer : Bytes) (table : Nat) : Except Fault VTable := do
  let position ← locateVTable buffer table
  pure ⟨buffer, position⟩

def size (vtable : VTable) : Except Fault Nat := do
  let size ← loadScalar .uint16 vtable.buffer vtable.position
  pure size.toNat

def fieldCount (vtable : VTable) : Except Fault Nat := do
  let size ← vtable.size
  pure ((size - vtableHeaderWidth) / entryWidth)

def tableSize (vtable : VTable) : Except Fault Nat := do
  let size ← loadScalar .uint16 vtable.buffer (vtable.position + entryWidth)
  pure size.toNat

def entry (vtable : VTable) (slot : Slot) : Except Fault UInt16 := do
  let size ← vtable.size
  if size ≤ slot.toNat then pure 0
  else loadScalar .uint16 vtable.buffer (vtable.position + slot.toNat)

def bytes (vtable : VTable) : Except Fault Bytes := do
  let size ← vtable.size
  slice vtable.buffer vtable.position size

def entries (vtable : VTable) : Except Fault (List UInt16) := do
  let count ← vtable.fieldCount
  readEach (fun index => vtable.entry (slotOfIndex (UInt16.ofNat index))) 0 count

end VTable

def resolveField (buffer : Bytes) (table : Nat) (slot : Slot) : Except Fault UInt16 := do
  let vtable ← VTable.ofTable buffer table
  vtable.entry slot

end WireTables
