import WireTables.Error

namespace WireTables

def smallestCapacity : Nat := 8

def capacities : List Nat :=
  (List.range 28).map (smallestCapacity <<< ·) ++ [maxBufferSize]

def capacityFor (requested : Nat) : Except GrowthError Nat :=
  match capacities.find? (requested ≤ ·) with
  | some capacity => .ok capacity
  | none => .error ⟨requested⟩

end WireTables
