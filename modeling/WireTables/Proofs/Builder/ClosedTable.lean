import Mathlib.Algebra.Group.Nat.Defs
import WireTables.Proofs.Builder.Closing
import WireTables.Proofs.View.Relocation

namespace WireTables

theorem toInt_vtableDistance {vtable table : UInt32} (vtableSmall : vtable.toNat < 2 ^ 31)
    (tableSmall : table.toNat < 2 ^ 31) :
    (Build.vtableDistance vtable table).toInt = (vtable.toNat : Int) - table.toNat := by
  have bits : (Build.vtableDistance vtable table).toInt =
      (vtable.toBitVec - table.toBitVec).toInt := rfl
  have vtableBits : vtable.toBitVec.toNat = vtable.toNat := rfl
  have tableBits : table.toBitVec.toNat = table.toNat := rfl
  rw [bits, BitVec.toInt_sub, BitVec.toInt_eq_toNat_of_lt (by omega),
    BitVec.toInt_eq_toNat_of_lt (by omega), vtableBits, tableBits]
  apply Int.bmod_eq_of_le <;> omega

/-- The distance to a vtable stands in front of the table, and the vtable where it leads. -/
structure TableStands (bytes : Bytes) (start table vtable : UInt32) (fields : List UInt32) :
    Prop where
  small : bytes.length ≤ maxBufferSize
  link : StandsAt bytes table.toNat
    (ScalarType.int32.encode (Build.vtableDistance vtable table))
  vtable : StandsAt bytes vtable.toNat (vtableBytes table start fields)
  entries : ∀ location ∈ fields, vtableEntry table location ≤ maxEntry
  vtableSize : vtableWidth fields ≤ maxEntry

theorem Closed.stands {before after : Builder} {start table vtable : UInt32} {fields : List UInt32}
    (closed : Closed before after start fields table vtable)
    (small : after.storage.size ≤ maxBufferSize) :
    TableStands after.storage.written start table vtable fields where
  small := after.storage.size_eq ▸ small
  link := by
    rcases closed.written with ⟨front, written, -⟩
    have stands := StandsAt.of_append front
      (ScalarType.int32.encode (Build.vtableDistance vtable table))
      (zeros (Build.paddingTo referenceWidth before.storage.size) ++ before.storage.written)
    rw [← written, List.length_append, length_zeros, ← before.storage.size_eq,
      ScalarType.length_encode, ← Nat.add_assoc] at stands
    rw [closed.place]
    exact stands
  vtable := closed.standing
  entries := closed.entries
  vtableSize := closed.vtableSize

namespace TableStands

variable {bytes : Bytes} {start table vtable : UInt32} {fields : List UInt32}

def view (bytes : Bytes) (table vtable : UInt32) (fields : List UInt32) : TableView :=
  ⟨bytes, bytes.length - table.toNat, bytes.length - vtable.toNat, vtableWidth fields⟩

theorem load (stands : TableStands bytes start table vtable fields) :
    TableView.load bytes (bytes.length - table.toNat) = .ok (view bytes table vtable fields) := by
  have small := stands.small
  have limit : maxBufferSize < 2 ^ 31 := by decide
  have tableInside := stands.link.distance_le
  have vtableInside := stands.vtable.distance_le
  have place : ((bytes.length - table.toNat : Nat) : Int) -
      (Build.vtableDistance vtable table).toInt = (bytes.length - vtable.toNat : Nat) := by
    rw [toInt_vtableDistance (by omega) (by omega)]
    omega
  have located := locateVTable_eq_ok_iff.mpr ⟨_, stands.link.load_eq, place⟩
  have sized : loadScalar .uint16 bytes (bytes.length - vtable.toNat) =
      .ok (UInt16.ofNat (vtableWidth fields)) := stands.vtable.beginning.load_shortWord
  apply TableView.load_eq_ok_iff.mpr
  refine ⟨_, _, located, sized, ?_⟩
  rw [toNat_ofNat_of_entry stands.vtableSize]
  rfl

theorem entry_stands (stands : TableStands bytes start table vtable fields) {index : Nat}
    (reached : index < usedFields fields) :
    StandsAt bytes (vtable.toNat - (vtableHeaderWidth + index * entryWidth))
      (shortWord (vtableEntry table (fields.getD index 0))) := by
  have entry := StandsAt.block_at (fun location => length_shortWord _)
    (getElem?_take_usedFields reached) stands.vtable.rest.rest
  rw [length_shortWord, length_shortWord, Nat.sub_sub, Nat.sub_sub, ← Nat.add_assoc] at entry
  exact entry

theorem entry_eq (stands : TableStands bytes start table vtable fields) {slot : Slot} {index : Nat}
    (place : indexOfSlot slot = some index) :
    (view bytes table vtable fields).entry slot =
      .ok (UInt16.ofNat (vtableEntry table (fields.getD index 0))) := by
  have slotValue := toNat_of_indexOfSlot place
  simp only [TableView.entry]
  by_cases reached : index < usedFields fields
  · have entry := stands.entry_stands reached
    have before : ¬ vtableWidth fields ≤ slot.toNat := by
      rw [slotValue, vtableWidth, vtableHeaderWidth, entryWidth]
      omega
    have whole := stands.vtable.length_le
    have vtableInside := stands.vtable.distance_le
    have position : bytes.length - vtable.toNat + slot.toNat =
        bytes.length - (vtable.toNat - (vtableHeaderWidth + index * entryWidth)) := by
      rw [length_vtableBytes] at whole
      omega
    refine (if_neg before).trans ?_
    change loadScalar .uint16 bytes (bytes.length - vtable.toNat + slot.toNat) = _
    rw [position]
    exact entry.load_shortWord
  · have past : vtableWidth fields ≤ slot.toNat := by
      rw [slotValue, vtableWidth, vtableHeaderWidth, entryWidth]
      omega
    rw [(lastRecorded_usedFields fields).behind index (Nat.le_of_not_lt reached)]
    exact if_pos past

end TableStands

end WireTables
