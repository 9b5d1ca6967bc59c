import WireTables.Builder.Write
import WireTables.View.Table

namespace WireTables

namespace Build

def openTable (fields : Nat) : Build Unit := do
  requireNothingOpen
  update fun builder =>
    { builder with openObject := .table builder.head (List.replicate fields 0) }

def openField (slot : Slot) : Build Nat := do
  match (← state).openObject with
  | .table _ fields =>
      match indexOfSlot slot with
      | some index =>
          if index < fields.length then pure index else refuse (.noSuchField slot fields.length)
      | none => refuse (.noSuchField slot fields.length)
  | _ => refuse .nothingOpen

def recordField (index : Nat) : Build Unit :=
  update fun builder =>
    match builder.openObject with
    | .table start fields =>
        { builder with openObject := .table start (fields.set index builder.head) }
    | _ => builder

/-- A value with the encoding of its default is left out, unless defaults are forced. -/
def storeScalar (slot : Slot) (type : ScalarType) (value default : type.Value) : Build Unit := do
  let index ← openField slot
  if type.sameEncoding value default && !(← state).forceDefaults then pure ()
  else do
    addScalar type value
    recordField index

def storeOptional (slot : Slot) (type : ScalarType) (value : Option type.Value) : Build Unit := do
  let index ← openField slot
  match value with
  | none => pure ()
  | some value => do
      addScalar type value
      recordField index

def storeReference {kind : Kind} (slot : Slot) (target : Offset kind) : Build Unit := do
  let index ← openField slot
  addReference target
  recordField index

/-- A struct lies inside its table, so it must have been written right before. -/
def storeStruct {kind : Kind} (slot : Slot) (target : Offset kind) : Build Unit := do
  let index ← openField slot
  let head ← head
  if target.value ≠ head then refuse (.structApart target.value head)
  else recordField index

/-- The fields up to the last one that was stored. -/
def storedFields (fields : List UInt32) : List UInt32 :=
  (fields.reverse.dropWhile (· == 0)).reverse

def addEntry (entry : Nat) : Build Unit :=
  if maxEntry < entry then refuse (.tableTooLarge entry)
  else addScalar .uint16 (UInt16.ofNat entry)

/-- The entry of the field at `location` in the vtable of the table at `table`. -/
def fieldEntry (table location : UInt32) : Nat :=
  if location = 0 then 0 else (table - location).toNat

/-- The signed distance from a vtable to its table, which may lie on either side of it. -/
def vtableDistance (vtable table : UInt32) : Int32 := (vtable - table).toInt32

def pointToVTable (vtable table : UInt32) : Build Unit :=
  update fun builder =>
    { builder with storage :=
        builder.storage.patch table.toNat (ScalarType.int32.encode (vtableDistance vtable table)) }

/-- The vtable just written, or an earlier one with the same bytes, in which case the head goes back
to the table. -/
def shareVTable (size : Nat) (table : UInt32) : Build Unit := do
  let builder ← state
  let candidate := builder.storage.written.take size
  let same (vtable : UInt32) : Bool := (builder.storage.suffix vtable.toNat).take size == candidate
  match builder.vtables.find? same with
  | some vtable => do
      update fun builder =>
        { builder with storage := builder.storage.retract (builder.storage.size - table.toNat) }
      pointToVTable vtable table
  | none => do
      let vtable := builder.head
      update fun builder => { builder with vtables := builder.vtables ++ [vtable] }
      pointToVTable vtable table

/-- On a refusal the table stays open, with whatever was written of its vtable before the head. -/
def closeTable : Build (Offset .table) := do
  match (← state).openObject with
  | .table start fields => do
      addScalar .int32 0
      let table ← head
      let stored := storedFields fields
      stored.reverse.forM fun location => addEntry (fieldEntry table location)
      addEntry (table - start).toNat
      let size := stored.length * entryWidth + vtableHeaderWidth
      addEntry size
      shareVTable size table
      update fun builder => { builder with openObject := .nothing }
      pure ⟨table⟩
  | _ => refuse .nothingOpen

def requireField (table : Offset .table) (slot : Slot) : Build Unit := do
  requireWritten table
  let view ← ofRead ((← state).viewTable table)
  if ← ofRead (view.has slot) then pure () else refuse (.missingField slot)

end Build

end WireTables
