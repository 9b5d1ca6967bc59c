import Mathlib.Data.List.GetD
import WireTables.Proofs.Bytes.Standing

namespace WireTables

/-- The same bytes but for `size` of them, from `start` on. -/
structure AgreeOff (start size : Nat) (bytes changed : Bytes) : Prop where
  length : changed.length = bytes.length
  same : ∀ index, index < start ∨ start + size ≤ index → changed[index]? = bytes[index]?

section Overwrite

variable {bytes patch : Bytes} {start : Nat}

theorem length_take_of_fits (fits : start + patch.length ≤ bytes.length) :
    (bytes.take start).length = start := by
  rw [List.length_take]
  omega

theorem getElem?_overwrite (fits : start + patch.length ≤ bytes.length) (index : Nat) :
    (overwrite bytes start patch)[index]? =
      if start ≤ index ∧ index < start + patch.length then patch[index - start]?
      else bytes[index]? := by
  have front := length_take_of_fits fits
  rw [overwrite, List.append_assoc]
  rcases Nat.lt_or_ge index start with early | reached
  · rw [if_neg (by omega), List.getElem?_append_left (by omega), List.getElem?_take, if_pos early]
  · rw [List.getElem?_append_right (by omega), front]
    rcases Nat.lt_or_ge index (start + patch.length) with inside | late
    · rw [if_pos ⟨reached, inside⟩, List.getElem?_append_left (by omega)]
    · rw [if_neg (by omega), List.getElem?_append_right (by omega), List.getElem?_drop]
      congr 1
      omega

theorem getD_overwrite (fits : start + patch.length ≤ bytes.length) (index : Nat) :
    (overwrite bytes start patch).getD index 0 =
      if start ≤ index ∧ index < start + patch.length then patch.getD (index - start) 0
      else bytes.getD index 0 := by
  simp only [List.getD_eq_getElem?_getD, getElem?_overwrite fits]
  split <;> rfl

theorem agreeOff_overwrite (fits : start + patch.length ≤ bytes.length) :
    AgreeOff start patch.length bytes (overwrite bytes start patch) where
  length := length_overwrite fits
  same index off := by rw [getElem?_overwrite fits, if_neg (by omega)]

theorem slice_overwrite (fits : start + patch.length ≤ bytes.length) :
    slice (overwrite bytes start patch) start patch.length = .ok patch := by
  refine slice_eq_ok_iff.mpr ⟨(length_overwrite fits).symm ▸ fits, ?_⟩
  rw [overwrite, List.append_assoc, List.drop_left' (length_take_of_fits fits), List.take_left]

theorem overwrite_slice {size : Nat} (taken : slice bytes start size = .ok patch) :
    overwrite bytes start patch = bytes := by
  have length := length_of_slice taken
  obtain ⟨-, same⟩ := slice_eq_ok_iff.mp taken
  calc
    overwrite bytes start patch =
        bytes.take start ++ ((bytes.drop start).take size ++ (bytes.drop start).drop size) := by
      rw [overwrite, length, List.append_assoc, List.drop_drop, same]
    _ = bytes.take start ++ bytes.drop start := by rw [List.take_append_drop]
    _ = bytes := List.take_append_drop _ _

theorem overwrite_comm {other : Bytes} {place : Nat} (fits : start + patch.length ≤ bytes.length)
    (otherFits : place + other.length ≤ bytes.length)
    (apart : start + patch.length ≤ place ∨ place + other.length ≤ start) :
    overwrite (overwrite bytes start patch) place other =
      overwrite (overwrite bytes place other) start patch := by
  apply List.ext_getElem?
  intro index
  rw [getElem?_overwrite (by rwa [length_overwrite fits]), getElem?_overwrite fits,
    getElem?_overwrite (by rwa [length_overwrite otherFits]), getElem?_overwrite otherFits]
  by_cases first : start ≤ index ∧ index < start + patch.length
  · rw [if_neg (by omega), if_pos first, if_pos first]
  · rw [if_neg first, if_neg first]

theorem store_store (bytes : Bytes) (start : Nat) (patch : Bytes) (place : Nat) (other : Bytes) :
    (store bytes start patch >>= (store · place other)) =
      if start + patch.length ≤ bytes.length ∧ place + other.length ≤ bytes.length then
        .ok (overwrite (overwrite bytes start patch) place other)
      else .error .outOfRange := by
  rw [store]
  split
  case isTrue fits =>
    change store _ _ _ = _
    rw [store, length_overwrite fits]
    simp only [fits, true_and]
  case isFalse past =>
    rw [if_neg (past ∘ And.left)]
    rfl

theorem store_comm {other : Bytes} {place : Nat}
    (apart : start + patch.length ≤ place ∨ place + other.length ≤ start) :
    (store bytes start patch >>= (store · place other)) =
      (store bytes place other >>= (store · start patch)) := by
  rw [store_store, store_store]
  by_cases fits : start + patch.length ≤ bytes.length ∧ place + other.length ≤ bytes.length
  · rw [if_pos fits, if_pos fits.symm, overwrite_comm fits.1 fits.2 apart]
  · rw [if_neg fits, if_neg (fits ∘ And.symm)]

end Overwrite

theorem store_zeros {capacity : Nat} {bytes : Bytes} (fits : bytes.length ≤ capacity) :
    store (zeros capacity) 0 bytes = .ok (bytes ++ zeros (capacity - bytes.length)) := by
  rw [store, if_pos (by simpa using fits)]
  simp [overwrite, zeros]

theorem store_zeros_end {capacity : Nat} {bytes : Bytes} (fits : bytes.length ≤ capacity) :
    store (zeros capacity) (capacity - bytes.length) bytes =
      .ok (zeros (capacity - bytes.length) ++ bytes) := by
  have whole : capacity - bytes.length + bytes.length = capacity := Nat.sub_add_cancel fits
  rw [store, if_pos (Nat.le_of_eq (by rw [whole, length_zeros])), overwrite, whole]
  simp [zeros]

theorem StandsAt.of_slice {bytes block : Bytes} {distance : Nat} (room : block.length ≤ distance)
    (inside : distance ≤ bytes.length)
    (taken : slice bytes (bytes.length - distance) block.length = .ok block) :
    StandsAt bytes distance block := by
  obtain ⟨-, same⟩ := slice_eq_ok_iff.mp taken
  have reached := List.take_append_drop block.length (bytes.drop (bytes.length - distance))
  rw [← same] at reached
  refine ⟨bytes.take (bytes.length - distance),
    (bytes.drop (bytes.length - distance)).drop block.length, ?_, ?_⟩
  · rw [reached, List.take_append_drop]
  · rw [List.length_drop, List.length_drop]
    omega

theorem overwrite_append {front old new behind : Bytes} (same : new.length = old.length) :
    overwrite (front ++ (old ++ behind)) front.length new = front ++ (new ++ behind) := by
  simp only [overwrite]
  rw [List.take_left, List.drop_append, List.drop_eq_nil_of_le (by omega), Nat.add_sub_cancel_left,
    same, List.drop_left, List.nil_append, List.append_assoc]

theorem store_of_stands {bytes old new : Bytes} {distance : Nat} (stands : StandsAt bytes distance old)
    (same : new.length = old.length) :
    ∃ changed, store bytes (bytes.length - distance) new = .ok changed ∧
      AgreeOff (bytes.length - distance) new.length bytes changed ∧
      StandsAt changed distance new := by
  rcases stands with ⟨front, behind, rfl, rfl⟩
  have place : (front ++ (old ++ behind)).length - (old.length + behind.length) = front.length := by
    simp only [List.length_append]
    omega
  have fits : front.length + new.length ≤ (front ++ (old ++ behind)).length := by
    simp only [List.length_append]
    omega
  have changed : overwrite (front ++ (old ++ behind)) front.length new = front ++ (new ++ behind) :=
    overwrite_append same
  rw [place]
  refine ⟨front ++ (new ++ behind), ?_, changed ▸ agreeOff_overwrite fits, ?_⟩
  · rw [store, if_pos fits, changed]
  · rw [← same]
    exact .of_append front new behind

namespace AgreeOff

variable {bytes changed block : Bytes} {start size distance location : Nat}

theorem slice_eq (agree : AgreeOff start size bytes changed) {place count : Nat}
    (off : place + count ≤ start ∨ start + size ≤ place) :
    slice changed place count = slice bytes place count := by
  have taken : (changed.drop place).take count = (bytes.drop place).take count := by
    apply List.ext_getElem?
    intro index
    rw [List.getElem?_take, List.getElem?_take]
    split
    case isTrue inside =>
      rw [List.getElem?_drop, List.getElem?_drop]
      exact agree.same (place + index) (by omega)
    case isFalse => rfl
  rw [slice, slice, agree.length, taken]

theorem loadScalar_eq (agree : AgreeOff start size bytes changed) {type : ScalarType} {place : Nat}
    (off : place + type.width ≤ start ∨ start + size ≤ place) :
    loadScalar type changed place = loadScalar type bytes place := by
  rw [loadScalar, agree.slice_eq off, loadScalar]

theorem standsAt (agree : AgreeOff (bytes.length - distance) size bytes changed)
    (inside : distance ≤ bytes.length)
    (off : distance + block.length ≤ location ∨ location + size ≤ distance)
    (stands : StandsAt bytes location block) : StandsAt changed location block := by
  have reached := stands.distance_le
  apply StandsAt.of_slice stands.length_le (agree.length.symm ▸ reached)
  rw [agree.length, agree.slice_eq (by omega)]
  exact stands.slice_eq

theorem behind {front : Bytes} (agree : AgreeOff start size (front ++ bytes) changed)
    (late : front.length ≤ start) :
    ∃ rest, changed = front ++ rest ∧ AgreeOff (start - front.length) size bytes rest := by
  have length := agree.length
  rw [List.length_append] at length
  have kept : changed.take front.length = front := by
    apply List.ext_getElem?
    intro index
    rw [List.getElem?_take]
    split
    case isTrue inside =>
      rw [agree.same index (by omega), List.getElem?_append_left inside]
    case isFalse outside => rw [List.getElem?_eq_none (by omega)]
  refine ⟨changed.drop front.length, ?_, ⟨?_, fun index off => ?_⟩⟩
  · rw [← kept, List.length_take, Nat.min_eq_left (by omega), List.take_append_drop]
  · rw [List.length_drop]
    omega
  · rw [List.getElem?_drop, agree.same _ (by omega), List.getElem?_append_right (by omega),
      Nat.add_sub_cancel_left]

end AgreeOff

end WireTables
