import WireTables.Builder.Basic

/-!
The smallest steps of a builder: making room and aligning the head, and writing zeros, scalars and
references before it. A value is aligned when its distance from the end is a multiple of its width,
so the finished buffer is padded at its start to a multiple of every alignment that was asked for.
-/

namespace WireTables

namespace Build

def makeRoom (needed : Nat) : Build Unit := do
  let storage := (← state).storage
  if storage.room < needed then do
    let wanted := storage.capacity + (needed - storage.room)
    if addressLimit ≤ wanted then refuse (.capacity ⟨addressLimit - 1⟩)
    else
      match capacityFor wanted with
      | .error cause => refuse (.capacity cause)
      | .ok capacity =>
          update fun builder =>
            { builder with storage := storage.grow (capacity - storage.capacity) }

def pad (count : Nat) : Build Unit := fun builder =>
  if builder.storage.room < count then .fault (.padWithoutRoom count)
  else .done () { builder with storage := builder.storage.push (zeros count) }

def put (bytes : Bytes) : Build Unit := fun builder =>
  if builder.storage.room < bytes.length then .fault (.putWithoutRoom bytes.length)
  else .done () { builder with storage := builder.storage.push bytes }

def putScalar (type : ScalarType) (value : type.Value) : Build Unit := put (type.encode value)

/-- The fewest bytes that take `written` to a multiple of `alignment`. -/
def paddingTo (alignment written : Nat) : Nat := (alignment - written % alignment) % alignment

/-- Pads so that the head is a multiple of `size` once `additional` bytes more are written, and
makes room for those and for `size` bytes after them. The alignment of the buffer is raised even
when that fails. -/
def prepare (size additional : Nat) : Build Unit := do
  demand size.isPowerOfTwo (.irregularAlignment size)
  requireUnfinished
  update fun builder => { builder with alignment := max builder.alignment size }
  let written := (← state).storage.size + additional
  if addressLimit ≤ written then refuse (.capacity ⟨addressLimit - 1⟩)
  else do
    let padding := paddingTo size written
    demand (padding + size + additional < addressLimit) .sumPastAddresses
    makeRoom (padding + size + additional)
    pad padding

def addScalar (type : ScalarType) (value : type.Value) : Build Unit := do
  prepare type.width 0
  putScalar type value

/-- Writes the distance from here to the target, which must not lie past the head. -/
def addReference {kind : Kind} (target : Offset kind) : Build Unit := do
  prepare referenceWidth 0
  let head ← head
  if head < target.value then refuse (.dangling target.value head)
  else putScalar .uint32 (head - target.value + 4)

end Build

end WireTables
