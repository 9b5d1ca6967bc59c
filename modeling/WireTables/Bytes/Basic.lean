import WireTables.Fault

namespace WireTables

abbrev Bytes := List UInt8

/-- The range may end exactly at the end of the bytes. A range that starts past it is a fault even
when it is empty. -/
def slice (bytes : Bytes) (start size : Nat) : Except Fault Bytes :=
  if start + size ≤ bytes.length then .ok ((bytes.drop start).take size) else .error .outOfRange

def overwrite (bytes : Bytes) (start : Nat) (patch : Bytes) : Bytes :=
  bytes.take start ++ patch ++ bytes.drop (start + patch.length)

def store (bytes : Bytes) (start : Nat) (patch : Bytes) : Except Fault Bytes :=
  if start + patch.length ≤ bytes.length then .ok (overwrite bytes start patch)
  else .error .outOfRange

def zeros (count : Nat) : Bytes := List.replicate count 0

/-- The end is clamped to the bytes, and a start at or past it finds nothing. -/
def findByte (bytes : Bytes) (value : UInt8) (start stop : Nat) : Option Nat :=
  (((bytes.take stop).drop start).findIdx? (· == value)).map (start + ·)

def readEach {α : Type} (read : Nat → Except Fault α) (index : Nat) :
    Nat → Except Fault (List α)
  | 0 => pure []
  | count + 1 => do
      let item ← read index
      let items ← readEach read (index + 1) count
      pure (item :: items)

theorem slice_eq_ok_iff {bytes found : Bytes} {start size : Nat} :
    slice bytes start size = .ok found ↔
      start + size ≤ bytes.length ∧ found = (bytes.drop start).take size := by
  unfold slice
  split
  · simp_all [eq_comm]
  · simp only [reduceCtorEq, false_iff, not_and]
    intro fits
    contradiction

theorem length_of_slice {bytes found : Bytes} {start size : Nat}
    (taken : slice bytes start size = .ok found) : found.length = size := by
  obtain ⟨fits, rfl⟩ := slice_eq_ok_iff.1 taken
  simp only [List.length_take, List.length_drop]
  omega

theorem length_overwrite {bytes patch : Bytes} {start : Nat}
    (fits : start + patch.length ≤ bytes.length) :
    (overwrite bytes start patch).length = bytes.length := by
  simp only [overwrite, List.length_append, List.length_take, List.length_drop]
  omega

@[simp] theorem length_zeros (count : Nat) : (zeros count).length = count := by
  simp [zeros]

end WireTables
