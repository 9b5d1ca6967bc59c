import WireTables.Listing
import WireTables.View.Table

namespace WireTables

def ScalarType.text? : (type : ScalarType) → Option (type.Value → String)
  | .bool => some fun value => if value then "true" else "false"
  | .int8 => some fun value => toString value.toInt
  | .uint8 => some fun value => toString value.toNat
  | .int16 => some fun value => toString value.toInt
  | .uint16 => some fun value => toString value.toNat
  | .int32 => some fun value => toString value.toInt
  | .uint32 => some fun value => toString value.toNat
  | .int64 => some fun value => toString value.toInt
  | .uint64 => some fun value => toString value.toNat
  | .float32 | .float64 => none

def VTable.text (vtable : VTable) : Except Fault String := do
  let entries ← vtable.entries
  pure (listText (entries.map fun entry => toString entry.toNat))

def TableView.text (table : TableView) : Except Fault String := do
  let vtable ← table.vtable.text
  pure (recordText "Table" [("position", toString table.position), ("vtable", vtable)])

def StructView.text (view : StructView) : String :=
  openRecordText "Struct" [("position", toString view.position)]

/-- A string has no text form either, since its bytes need not be text. -/
def Kind.text? : (kind : Kind) → Option (kind.View → Except Fault String)
  | .scalar type => type.text?.map fun text value => pure (text value)
  | .string => none
  | .table => some TableView.text
  | .struct _ => some fun view => pure view.text
  | .vector element => element.text?.map fun text vector => do
      let items ← readEach (fun index => do text (← vector.followElement index)) 0 vector.length
      pure (listText items)

def updatableTableText (position : Nat) : String :=
  openRecordText "TableMut" [("position", toString position)]

def readOnlyText (bytes : Bytes) : String :=
  openRecordText "ReadBuf" [("limit", toString bytes.length)]

end WireTables
