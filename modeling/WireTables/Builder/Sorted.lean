import WireTables.Builder.Vector
import WireTables.View.Search

namespace WireTables

variable {α : Type}

/-- Puts an item into a list that is sorted with its greatest item first, in front of all that it
does not come before. -/
def insertSorted (compare : α → α → Except Fault Ordering) (item : α) :
    List α → Except Fault (List α)
  | [] => pure [item]
  | last :: rest => do
      match ← compare item last with
      | .lt => do
          let inserted ← insertSorted compare item rest
          pure (last :: inserted)
      | _ => pure (item :: last :: rest)

def insertionSort (compare : α → α → Except Fault Ordering) (items : List α) :
    Except Fault (List α) := do
  let sorted ← items.foldlM (fun sorted item => insertSorted compare item sorted) []
  pure sorted.reverse

/-- The tables in the order in which they were left, and the vector of them, if it was written. -/
structure SortedTables where
  order : List (Offset .table)
  vector : Except Refusal (Offset (.vector .table))
  deriving Repr

namespace Build

def writeSortedBy (compare : TableView → TableView → Except Fault Ordering)
    (tables : List (Offset .table)) : Build SortedTables := do
  match ← attempt (tables.forM requireWritten) with
  | .error error => pure ⟨tables, .error error⟩
  | .ok () => do
      let builder ← state
      let order ← ofRead (insertionSort (fun left right => do
        compare (← builder.viewTable left) (← builder.viewTable right)) tables)
      let vector ← attempt (writeReferences order)
      pure ⟨order, vector⟩

def writeSorted (key : KeyField) (tables : List (Offset .table)) : Build SortedTables :=
  writeSortedBy key.orderTables tables

end Build

end WireTables
