import WireTables.Builder.Write
import WireTables.Bytes.Text
import WireTables.Listing

namespace WireTables

namespace Build

def finish (root : Offset .table) (identifier : Option String) (sized : Bool) : Build Unit := do
  let mark := identifier.map encodeText
  match mark.filter (!validIdentifier ·) with
  | some invalid => refuse (.badIdentifier invalid.length)
  | none => do
      requireNothingOpen
      let behind := mark.getD []
      let trailer := referenceWidth + behind.length + if sized then referenceWidth else 0
      prepare (max (← state).alignment referenceWidth) trailer
      put behind
      addReference root
      if sized then putScalar .uint32 (← head)
      update fun builder => { builder with finished := true }

end Build

def Builder.copiedBytes (builder : Builder) : Except Refusal Bytes := builder.finishedBytes

def Builder.detachedBytes (builder : Builder) : Except Refusal Bytes :=
  if builder.finished then .ok (builder.storage.contents.drop builder.storage.room)
  else .error .notFinished

namespace OpenObject

def text : OpenObject → String
  | .nothing => "Nothing"
  | .table .. => "Table"
  | .vector _ => "Vector"

end OpenObject

def Builder.text (builder : Builder) : String :=
  openRecordText "Builder"
    [("capacity", toString builder.capacity),
      ("offset", toString builder.head.toNat),
      ("minalign", toString builder.alignment),
      ("vtables", toString builder.vtables.length),
      ("shared_strings", toString builder.strings.length),
      ("open", builder.openObject.text),
      ("finished", boolText builder.finished)]

def Offset.text {kind : Kind} (offset : Offset kind) : String :=
  "Offset(" ++ toString offset.value.toNat ++ ")"

def finishedText (bytes : Bytes) : String :=
  openRecordText "FinishedBuffer" [("len", toString bytes.length)]

end WireTables
