import WireTables.View.Basic

namespace WireTables

namespace VectorView

variable {element : Kind}

def isEmpty (vector : VectorView element) : Bool := vector.length == 0

def elementStart (vector : VectorView element) (index : Nat) : Nat :=
  vector.position + referenceWidth + index * element.width

def followElement (vector : VectorView element) (index : Nat) : Except Fault element.View :=
  element.follow vector.buffer (vector.elementStart index)

def get (vector : VectorView element) (index : Nat) : Except Fault element.View :=
  if index < vector.length then vector.followElement index
  else .error (.indexPastEnd index vector.length)

def get? (vector : VectorView element) (index : Nat) : Except Fault (Option element.View) :=
  if index < vector.length then some <$> vector.followElement index else pure none

def bytes (vector : VectorView element) : Except Fault Bytes :=
  slice vector.buffer (vector.position + referenceWidth) (vector.length * element.width)

def toList (vector : VectorView element) : Except Fault (List element.View) :=
  readEach vector.followElement 0 vector.length

end VectorView

/-- A walk over a vector. The elements from `front` up to `back` are still to come. -/
structure VectorCursor (element : Kind) where
  vector : VectorView element
  front : Nat
  back : Nat

def VectorView.cursor {element : Kind} (vector : VectorView element) : VectorCursor element :=
  ⟨vector, 0, vector.length⟩

namespace VectorCursor

variable {element : Kind}

def remaining (cursor : VectorCursor element) : Nat := cursor.back - cursor.front

def next (cursor : VectorCursor element) :
    Except Fault (Option element.View × VectorCursor element) :=
  if cursor.front = cursor.back then pure (none, cursor)
  else do
    let view ← cursor.vector.followElement cursor.front
    pure (some view, { cursor with front := cursor.front + 1 })

def nextLast (cursor : VectorCursor element) :
    Except Fault (Option element.View × VectorCursor element) :=
  if cursor.front = cursor.back then pure (none, cursor)
  else do
    let view ← cursor.vector.followElement (cursor.back - 1)
    pure (some view, { cursor with back := cursor.back - 1 })

def nth (cursor : VectorCursor element) (count : Nat) :
    Except Fault (Option element.View × VectorCursor element) :=
  next { cursor with front := min (cursor.front + count) cursor.back }

end VectorCursor

end WireTables
