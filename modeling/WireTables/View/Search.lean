import WireTables.Scalar.Order
import WireTables.View.Table

namespace WireTables

inductive KeyField
  | string (slot : Slot)
  | scalar (type : ScalarType) (slot : Slot)
  deriving DecidableEq, Repr

namespace KeyField

abbrev Value : KeyField → Type
  | .string _ => Bytes
  | .scalar type _ => type.Value

/-- An absent key reads as the empty string, or as zero. -/
def read : (key : KeyField) → TableView → Except Fault key.Value
  | .string slot, table => do pure ((← table.stringAt slot).getD [])
  | .scalar type slot, table => table.scalarAt slot type type.zero

def order : (key : KeyField) → key.Value → key.Value → Ordering
  | .string _, left, right => orderBytes left right
  | .scalar type _, left, right => type.order left right

def orderTables (key : KeyField) (left right : TableView) : Except Fault Ordering := do
  let leftValue ← key.read left
  let rightValue ← key.read right
  pure (key.order leftValue rightValue)

def orderWith (key : KeyField) (value : key.Value) (table : TableView) :
    Except Fault Ordering := do
  let found ← key.read table
  pure (key.order found value)

end KeyField

def orderOptionalStrings (slot : Slot) (left right : TableView) : Except Fault Ordering := do
  let leftString ← left.stringAt slot
  let rightString ← right.stringAt slot
  pure (orderOptional orderBytes leftString rightString)

/-- What a search came to, and the tables it looked at on the way, in order. -/
structure Search where
  found : Option TableView
  probed : List TableView
  deriving DecidableEq, Repr

def Search.after (search : Search) (table : TableView) : Search :=
  { search with probed := table :: search.probed }

namespace VectorView

def searchFrom (vector : VectorView .table) (probe : TableView → Except Fault Ordering)
    (start span : Nat) : Except Fault Search :=
  if span = 0 then pure ⟨none, []⟩
  else do
    let middle := span / 2
    let table ← vector.get (start + middle)
    match ← probe table with
    | .gt => do
        let search ← searchFrom vector probe start middle
        pure (search.after table)
    | .lt => do
        let search ← searchFrom vector probe (start + (middle + 1)) (span - (middle + 1))
        pure (search.after table)
    | .eq => pure ⟨some table, [table]⟩
termination_by span

def search (vector : VectorView .table) (probe : TableView → Except Fault Ordering) :
    Except Fault Search :=
  vector.searchFrom probe 0 vector.length

/-- The vector must be sorted by the key. Of several tables with the key, any one may be found. -/
def find (vector : VectorView .table) (key : KeyField) (value : key.Value) :
    Except Fault (Option TableView) := do
  let search ← vector.search (key.orderWith value)
  pure search.found

end VectorView

def orderStrings (buffer : Bytes) (left right : Nat) : Except Fault Ordering := do
  let leftString ← Kind.string.follow buffer left
  let rightString ← Kind.string.follow buffer right
  pure (orderBytes leftString rightString)

def orderStringWith (buffer : Bytes) (position : Nat) (value : Bytes) :
    Except Fault Ordering := do
  let found ← Kind.string.follow buffer position
  pure (orderBytes found value)

end WireTables
