import WireTables.View.VTable

/-!
Views into a buffer, and the kinds of value that can stand in a field or a vector. A kind says how
many bytes its values take where they are stored, what view a reader gets, and how to go from a
position to that view: scalars and structs lie in place, all else is referred to.
-/

namespace WireTables

inductive Kind
  | scalar (type : ScalarType)
  | string
  | table
  | struct (size : Nat)
  | vector (element : Kind)
  deriving DecidableEq, Repr

structure TableView where
  buffer : Bytes
  position : Nat
  vtableBase : Nat
  vtableSize : Nat
  deriving DecidableEq, Repr

structure StructView where
  buffer : Bytes
  position : Nat
  deriving DecidableEq, Repr

structure VectorView (element : Kind) where
  buffer : Bytes
  position : Nat
  length : Nat
  deriving DecidableEq, Repr

def followReference (buffer : Bytes) (position : Nat) : Except Fault Nat := do
  let distance ← loadScalar .uint32 buffer position
  pure (position + distance.toNat)

def TableView.load (buffer : Bytes) (position : Nat) : Except Fault TableView := do
  let vtable ← VTable.ofTable buffer position
  let size ← vtable.size
  pure ⟨buffer, position, vtable.position, size⟩

def VectorView.load {element : Kind} (buffer : Bytes) (position : Nat) :
    Except Fault (VectorView element) := do
  let length ← loadScalar .uint32 buffer position
  pure ⟨buffer, position, length.toNat⟩

def readString (buffer : Bytes) (position : Nat) : Except Fault Bytes := do
  let length ← loadScalar .uint32 buffer position
  slice buffer (position + referenceWidth) length.toNat

namespace Kind

def width : Kind → Nat
  | .scalar type => type.width
  | .struct size => size
  | .string | .table | .vector _ => referenceWidth

abbrev View : Kind → Type
  | .scalar type => type.Value
  | .string => Bytes
  | .table => TableView
  | .struct _ => StructView
  | .vector element => VectorView element

def follow : (kind : Kind) → Bytes → Nat → Except Fault kind.View
  | .scalar type, buffer, position => loadScalar type buffer position
  | .string, buffer, position => do readString buffer (← followReference buffer position)
  | .table, buffer, position => do TableView.load buffer (← followReference buffer position)
  | .struct _, buffer, position => .ok ⟨buffer, position⟩
  | .vector _, buffer, position => do VectorView.load buffer (← followReference buffer position)

end Kind

namespace StructView

def scalarAt (view : StructView) (type : ScalarType) (displacement : Nat) :
    Except Fault type.Value :=
  loadScalar type view.buffer (view.position + displacement)

def structAt (view : StructView) (displacement : Nat) : StructView :=
  ⟨view.buffer, view.position + displacement⟩

end StructView

end WireTables
