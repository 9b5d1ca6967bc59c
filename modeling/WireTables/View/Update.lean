import WireTables.View.Table

namespace WireTables

def updateScalar (buffer : Bytes) (position : Nat) (slot : Slot) (type : ScalarType)
    (value : type.Value) : Except Fault (Option Bytes) := do
  let table ← TableView.load buffer position
  match ← table.positionOf slot with
  | none => pure none
  | some field => some <$> overwriteScalar type buffer field value

end WireTables
