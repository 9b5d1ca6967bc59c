import WireTables.Buffer.Growth

namespace WireTables

theorem capacityFor_ok {requested capacity : Nat} (found : capacityFor requested = .ok capacity) :
    requested ≤ capacity ∧ capacity ≤ maxBufferSize := by
  simp only [capacityFor] at found
  split at found
  case h_1 sizes size first =>
    cases found
    have covers : requested ≤ capacity := by simpa using List.find?_some first
    have bounded : ∀ size ∈ capacities, size ≤ maxBufferSize := by decide
    exact ⟨covers, bounded capacity (List.mem_of_find?_eq_some first)⟩
  case h_2 => cases found

theorem capacityFor_of_le {requested : Nat} (fits : requested ≤ maxBufferSize) :
    ∃ capacity, capacityFor requested = .ok capacity := by
  simp only [capacityFor]
  split
  case h_1 capacity first => exact ⟨capacity, rfl⟩
  case h_2 missing =>
    have largest : maxBufferSize ∈ capacities := by decide
    have uncovered := List.find?_eq_none.mp missing maxBufferSize largest
    simp [fits] at uncovered

theorem capacityFor_of_lt {requested : Nat} (exceeds : maxBufferSize < requested) :
    capacityFor requested = .error ⟨requested⟩ := by
  cases found : capacityFor requested with
  | ok capacity =>
      have bounds := capacityFor_ok found
      omega
  | error cause =>
      simp only [capacityFor] at found
      split at found
      case h_1 => cases found
      case h_2 =>
        cases found
        rfl

end WireTables
