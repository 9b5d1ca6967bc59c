import WireTables.Buffer.Growth
import WireTables.Bytes.Text
import WireTables.Listing

/-!
A buffer of zeros that grows when it is written past its end, with a cursor behind the bytes that
were appended. Storage never shrinks, and an operation that cannot grow the storage changes nothing.
-/

namespace WireTables

structure GrowableBuffer where
  storage : Bytes
  cursor : Nat
  deriving DecidableEq, Repr

namespace GrowableBuffer

def empty : GrowableBuffer := ⟨[], 0⟩

def ofCapacity (capacity : Nat) : GrowableBuffer := ⟨zeros capacity, 0⟩

def ofBytes (bytes : Bytes) : GrowableBuffer := ⟨bytes, bytes.length⟩

def capacity (buffer : GrowableBuffer) : Nat := buffer.storage.length

def contents (buffer : GrowableBuffer) : Bytes := buffer.storage.take buffer.cursor

/-- Makes room for `requested` bytes. New storage is zero; the old bytes stay at its start, or move
to its end where `atEnd` says so. -/
def reserve (buffer : GrowableBuffer) (requested : Nat) (atEnd : Bool) :
    Except GrowthError GrowableBuffer :=
  if requested ≤ buffer.capacity then .ok buffer
  else do
    let capacity ← capacityFor requested
    let added := zeros (capacity - buffer.capacity)
    pure { buffer with
      storage := if atEnd then added ++ buffer.storage else buffer.storage ++ added }

def moveCursor (buffer : GrowableBuffer) (position : Nat) :
    Except GrowthError GrowableBuffer := do
  let grown ← buffer.reserve position false
  pure { grown with cursor := position }

def write (buffer : GrowableBuffer) (index : Nat) (bytes : Bytes) :
    Except GrowthError GrowableBuffer :=
  let stop := index + bytes.length
  if addressLimit ≤ stop then .error ⟨addressLimit - 1⟩
  else do
    let grown ← buffer.reserve stop false
    pure { grown with storage := overwrite grown.storage index bytes }

def append (buffer : GrowableBuffer) (bytes : Bytes) : Except GrowthError GrowableBuffer := do
  let written ← buffer.write buffer.cursor bytes
  pure { written with cursor := buffer.cursor + bytes.length }

def writeScalar (buffer : GrowableBuffer) (index : Nat) (type : ScalarType) (value : type.Value) :
    Except GrowthError GrowableBuffer :=
  buffer.write index (type.encode value)

def appendScalar (buffer : GrowableBuffer) (type : ScalarType) (value : type.Value) :
    Except GrowthError GrowableBuffer :=
  buffer.append (type.encode value)

def appendText (buffer : GrowableBuffer) (text : String) :
    Except GrowthError (Nat × GrowableBuffer) := do
  let bytes := encodeText text
  let written ← buffer.append bytes
  pure (bytes.length, written)

def loadScalar (buffer : GrowableBuffer) (type : ScalarType) (index : Nat) :
    Except Fault type.Value :=
  WireTables.loadScalar type buffer.storage index

/-- Writes one byte inside the storage, which does not grow for it. -/
def setByte (buffer : GrowableBuffer) (index : Nat) (value : UInt8) :
    Except Fault GrowableBuffer := do
  let storage ← store buffer.storage index [value]
  pure { buffer with storage }

def rewind (buffer : GrowableBuffer) : GrowableBuffer := { buffer with cursor := 0 }

def text (buffer : GrowableBuffer) : String :=
  openRecordText "ByteBuf"
    [("capacity", toString buffer.capacity), ("write_position", toString buffer.cursor)]

end GrowableBuffer

end WireTables
