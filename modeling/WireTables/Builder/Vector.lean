import WireTables.Builder.Write
import WireTables.Bytes.Text

namespace WireTables

namespace Build

def openVector (elementSize count alignment : Nat) : Build Unit := do
  requireNothingOpen
  let payload := elementSize * count
  if addressLimit ≤ payload then refuse (.capacity ⟨addressLimit - 1⟩)
  else do
    prepare referenceWidth payload
    prepare alignment payload
    update fun builder => { builder with openObject := .vector count }

def closeVector {element : Kind} : Build (Offset (.vector element)) := do
  match (← state).openObject with
  | .vector count => do
      demand (count ≤ maxBufferSize) (.countPastLimit count)
      putScalar .uint32 (UInt32.ofNat count)
      update fun builder => { builder with openObject := .nothing }
      pure ⟨← head⟩
  | _ => refuse .nothingOpen

/-- Leaves the vector open over elements of zeros, which it answers with, and then lays `filling`
over their start. -/
def openFilledVector (elementSize count alignment : Nat) (filling : Bytes) : Build Bytes := do
  openVector elementSize count alignment
  let blank := zeros (elementSize * count)
  put (filling.take blank.length ++ blank.drop filling.length)
  pure blank

def writeScalars (type : ScalarType) (items : List type.Value) :
    Build (Offset (.vector (.scalar type))) := do
  openVector type.width items.length type.width
  put (items.flatMap type.encode)
  closeVector

def writeBytes (bytes : Bytes) : Build (Offset (.vector (.scalar .uint8))) := do
  openVector 1 bytes.length 1
  put bytes
  closeVector

def writeReferences {kind : Kind} (items : List (Offset kind)) :
    Build (Offset (.vector kind)) := do
  openVector referenceWidth items.length referenceWidth
  items.reverse.forM addReference
  closeVector

/-- The bytes are followed by a zero, which the length does not count. -/
def writeByteString (bytes : Bytes) : Build (Offset .string) := do
  requireNothingOpen
  addScalar .uint8 0
  let vector ← writeBytes bytes
  pure ⟨vector.value⟩

def writeString (text : String) : Build (Offset .string) := writeByteString (encodeText text)

/-- A string that was shared before is not written again, whatever is open. -/
def shareString (text : String) : Build (Offset .string) := do
  requireUnfinished
  let bytes := encodeText text
  match (← state).strings.lookup bytes with
  | some offset => pure offset
  | none => do
      let offset ← writeString text
      update fun builder => { builder with strings := (bytes, offset) :: builder.strings }
      pure offset

def writeStrings (texts : List String) : Build (Offset (.vector .string)) := do
  let items ← texts.mapM writeString
  writeReferences items

end Build

end WireTables
