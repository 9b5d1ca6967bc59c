import WireTables.View.Vector

namespace WireTables

structure UnionValue where
  tag : UInt8
  table : TableView
  deriving DecidableEq, Repr

/-- A vector of tags beside a vector of tables. -/
structure UnionVectorView where
  tags : VectorView (.scalar .uint8)
  tables : VectorView .table
  deriving DecidableEq, Repr

namespace TableView

def vtable (table : TableView) : VTable := ⟨table.buffer, table.vtableBase⟩

def entry (table : TableView) (slot : Slot) : Except Fault UInt16 :=
  if table.vtableSize ≤ slot.toNat then pure 0
  else loadScalar .uint16 table.buffer (table.vtableBase + slot.toNat)

def has (table : TableView) (slot : Slot) : Except Fault Bool := do
  let offset ← table.entry slot
  pure (offset != 0)

def lookup {α : Type} (table : TableView) (slot : Slot) (absent : α)
    (read : Nat → Except Fault α) : Except Fault α := do
  let offset ← table.entry slot
  if offset = 0 then pure absent else read (table.position + offset.toNat)

def positionOf (table : TableView) (slot : Slot) : Except Fault (Option Nat) :=
  table.lookup slot none fun position => pure (some position)

def valueAt (table : TableView) (slot : Slot) (kind : Kind) : Except Fault (Option kind.View) :=
  table.lookup slot none fun position => some <$> kind.follow table.buffer position

def scalarAt (table : TableView) (slot : Slot) (type : ScalarType) (default : type.Value) :
    Except Fault type.Value :=
  table.lookup slot default fun position => loadScalar type table.buffer position

def scalarAt? (table : TableView) (slot : Slot) (type : ScalarType) :
    Except Fault (Option type.Value) :=
  table.valueAt slot (.scalar type)

def stringAt (table : TableView) (slot : Slot) : Except Fault (Option Bytes) :=
  table.valueAt slot .string

def vectorAt (table : TableView) (slot : Slot) (element : Kind) :
    Except Fault (Option (VectorView element)) :=
  table.valueAt slot (.vector element)

def lengthAt (table : TableView) (slot : Slot) : Except Fault Nat :=
  table.lookup slot 0 fun position => do
    let length ← loadScalar .uint32 table.buffer (← followReference table.buffer position)
    pure length.toNat

def tableAt (table : TableView) (slot : Slot) : Except Fault (Option TableView) :=
  table.valueAt slot .table

def structAt (table : TableView) (slot : Slot) : Except Fault (Option StructView) :=
  table.lookup slot none fun position => pure (some ⟨table.buffer, position⟩)

/-- A tag of zero, or none at all, means that the union is empty; its table is then not looked at.
-/
def unionAt (table : TableView) (tagSlot tableSlot : Slot) : Except Fault (Option UnionValue) := do
  let tag ← table.scalarAt tagSlot .uint8 0
  if tag = 0 then pure none
  else do
    let found ← table.tableAt tableSlot
    pure (found.map (⟨tag, ·⟩))

def unionVectorAt (table : TableView) (tagSlot tableSlot : Slot) :
    Except Fault (Option UnionVectorView) := do
  match ← table.vectorAt tagSlot (.scalar .uint8) with
  | none => pure none
  | some tags => do
      let tables ← table.vectorAt tableSlot .table
      pure (tables.map (⟨tags, ·⟩))

end TableView

namespace UnionVectorView

def length (vector : UnionVectorView) : Nat := vector.tags.length

def isEmpty (vector : UnionVectorView) : Bool := vector.tags.isEmpty

def tag (vector : UnionVectorView) (index : Nat) : Except Fault UInt8 := vector.tags.get index

def get (vector : UnionVectorView) (index : Nat) : Except Fault (Option UnionValue) := do
  let tag ← vector.tag index
  if tag = 0 then pure none
  else do
    let table ← vector.tables.get index
    pure (some ⟨tag, table⟩)

end UnionVectorView

/-- Vtables are the same when they stand at one position of equal buffers. -/
def TableView.sameVTable (left right : TableView) : Bool := left.vtable == right.vtable

end WireTables
