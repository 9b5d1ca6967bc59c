import WireTables.Bytes.Text
import WireTables.Error
import WireTables.View.Table

/-!
From bytes to the table at their root. These are the only reads that report what is wrong with the
bytes: the reference to the root, its vtable distance and its vtable are looked at before a view is
handed out. A buffer may stand behind its own size, and buffers that do may follow one another as
frames of a stream.
-/

namespace WireTables

def reporting {α : Type} (error : OpenError) (read : Except Fault α) : Except OpenError α :=
  read.mapError fun _ => error

def openRoot (buffer : Bytes) : Except OpenError TableView := do
  let outside (position : Nat) : OpenError := .outside position buffer.length
  let reference ← reporting (.tooShort referenceWidth buffer.length)
    (loadScalar .uint32 buffer 0)
  let root := reference.toNat
  let distance ← reporting (outside root) (loadScalar .int32 buffer root)
  let vtable := (root : Int) - distance.toInt
  if vtable < 0 then throw (outside 0)
  let position := vtable.toNat
  let _ ← reporting (outside position) (slice buffer position vtableHeaderWidth)
  let size ← reporting (outside position) (loadScalar .uint16 buffer position)
  let _ ← reporting (outside position) (slice buffer position size.toNat)
  pure ⟨buffer, root, position, size.toNat⟩

/-- The bytes that the size in front of them announces. What follows them is left alone. -/
def framePayload (bytes : Bytes) : Except OpenError Bytes := do
  let size ← reporting (.tooShort referenceWidth bytes.length) (loadScalar .uint32 bytes 0)
  reporting (.tooShort (referenceWidth + size.toNat) bytes.length)
    (slice bytes referenceWidth size.toNat)

def openSizedRoot (bytes : Bytes) : Except OpenError TableView := do
  openRoot (← framePayload bytes)

def hasIdentifier (bytes : Bytes) (identifier : String) (sized : Bool) : Except OpenError Bool := do
  let expected := encodeText identifier
  if validIdentifier expected then do
    let start := if sized then 2 * referenceWidth else referenceWidth
    let found ← reporting (.tooShort (start + identifierLength) bytes.length)
      (slice bytes start identifierLength)
    pure (found == expected)
  else throw (.badIdentifier expected.length)

def TableView.nestedRoot (table : TableView) (slot : Slot) :
    Except Fault (Except OpenError (Option TableView)) := do
  match ← table.vectorAt slot (.scalar .uint8) with
  | none => pure (.ok none)
  | some vector => do
      let bytes ← vector.bytes
      pure (some <$> openRoot bytes)

structure FrameStream where
  rest : Bytes
  deriving DecidableEq, Repr

/-- A frame keeps its size in front. One that is cut short is reported once and ends the stream. -/
def FrameStream.next (stream : FrameStream) : Option (Except OpenError Bytes) × FrameStream :=
  if stream.rest.isEmpty then (none, stream)
  else
    match framePayload stream.rest with
    | .ok payload =>
        let width := referenceWidth + payload.length
        (some (.ok (stream.rest.take width)), ⟨stream.rest.drop width⟩)
    | .error error => (some (.error error), ⟨[]⟩)

theorem FrameStream.length_of_next {stream after : FrameStream} {item : Except OpenError Bytes}
    (found : stream.next = (some item, after)) : after.rest.length < stream.rest.length := by
  unfold next at found
  split at found
  · simp at found
  next nonempty =>
    have positive : 0 < stream.rest.length := by
      cases bytes : stream.rest <;> simp_all
    split at found <;> cases found
    · simp only [List.length_drop, referenceWidth]
      omega
    · exact positive

def FrameStream.drain (stream : FrameStream) : List (Except OpenError Bytes) × FrameStream :=
  match _found : stream.next with
  | (none, after) => ([], after)
  | (some item, after) =>
      let (items, last) := FrameStream.drain after
      (item :: items, last)
termination_by stream.rest.length
decreasing_by exact FrameStream.length_of_next _found

def splitFrames (bytes : Bytes) : List (Except OpenError Bytes) := (FrameStream.drain ⟨bytes⟩).1

end WireTables
