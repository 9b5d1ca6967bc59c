import Mathlib.Data.List.GetD
import WireTables.Builder.Table
import WireTables.Proofs.Bytes.Standing

namespace WireTables

def shortWord (value : Nat) : Bytes := [UInt8.ofNat value, UInt8.ofNat (value / 256)]

theorem shortWord_eq (value : Nat) :
    shortWord value = ScalarType.uint16.encode (UInt16.ofNat value) := by
  change _ = [UInt8.ofNat (UInt16.ofNat value).toNat, UInt8.ofNat ((UInt16.ofNat value).toNat / 256)]
  rw [UInt16.toNat_ofNat', shortWord]
  congr 1
  · apply UInt8.toNat_inj.mp
    simp only [UInt8.toNat_ofNat']
    omega
  · congr 1
    apply UInt8.toNat_inj.mp
    simp only [UInt8.toNat_ofNat']
    omega

@[simp] theorem length_shortWord (value : Nat) : (shortWord value).length = 2 := rfl

theorem toNat_ofNat_of_entry {entry : Nat} (small : entry ≤ maxEntry) :
    (UInt16.ofNat entry).toNat = entry :=
  UInt16.toNat_ofNat_of_lt' (Nat.lt_succ_of_le small)

theorem shortWord_inj {left right : Nat} (leftSmall : left ≤ maxEntry) (rightSmall : right ≤ maxEntry)
    (same : shortWord left = shortWord right) : left = right := by
  rw [shortWord_eq, shortWord_eq] at same
  have words := congrArg ScalarType.uint16.decode same
  rw [ScalarType.decode_encode, ScalarType.decode_encode] at words
  rw [← toNat_ofNat_of_entry leftSmall, words, toNat_ofNat_of_entry rightSmall]

theorem StandsAt.load_shortWord {bytes : Bytes} {distance value : Nat}
    (stands : StandsAt bytes distance (shortWord value)) :
    loadScalar .uint16 bytes (bytes.length - distance) = .ok (UInt16.ofNat value) := by
  rw [shortWord_eq] at stands
  exact stands.load_eq

/-- One past the index of the last field that was recorded, or zero. -/
structure LastRecorded (fields : List UInt32) (used : Nat) : Prop where
  behind : ∀ index, used ≤ index → fields.getD index 0 = 0
  last : used ≠ 0 → fields.getD (used - 1) 0 ≠ 0

theorem LastRecorded.unique {fields : List UInt32} {used other : Nat}
    (recorded : LastRecorded fields used) (again : LastRecorded fields other) : used = other := by
  have le {fewer more : Nat} (low : LastRecorded fields fewer) (high : LastRecorded fields more) :
      more ≤ fewer := by
    refine Nat.le_of_not_lt fun beyond => ?_
    exact high.last (by omega) (low.behind (more - 1) (by omega))
  exact Nat.le_antisymm (le again recorded) (le recorded again)

def usedFields : List UInt32 → Nat
  | [] => 0
  | location :: later =>
      if usedFields later = 0 ∧ location = 0 then 0 else usedFields later + 1

theorem lastRecorded_usedFields (fields : List UInt32) :
    LastRecorded fields (usedFields fields) := by
  induction fields with
  | nil => exact ⟨fun _ _ => rfl, fun some => absurd rfl some⟩
  | cons location later ih =>
      rw [usedFields]
      split
      case isTrue none =>
        refine ⟨fun index _ => ?_, fun some => absurd rfl some⟩
        cases index with
        | zero => exact none.2
        | succ index => exact ih.behind index (none.1 ▸ Nat.zero_le _)
      case isFalse some =>
        constructor
        case behind =>
          intro index past
          cases index with
          | zero => cases past
          | succ index => exact ih.behind index (Nat.le_of_succ_le_succ past)
        case last =>
          intro _
          cases used : usedFields later with
          | zero => exact fun blank => some ⟨used, blank⟩
          | succ last =>
              rw [used] at ih
              exact ih.last (Nat.succ_ne_zero last)

/-- The entry of a field that was stored at `location`. -/
def vtableEntry (table location : UInt32) : Nat :=
  if location = 0 then 0 else table.toNat - location.toNat

def vtableWidth (fields : List UInt32) : Nat := 4 + 2 * usedFields fields

/-- The vtable of a table whose fields were stored at the given heads. -/
def vtableBytes (table start : UInt32) (fields : List UInt32) : Bytes :=
  shortWord (vtableWidth fields) ++ (shortWord (table.toNat - start.toNat) ++
    (fields.take (usedFields fields)).flatMap fun location =>
      shortWord (vtableEntry table location))

section Stored

open Build

variable {fields : List UInt32} {table location : UInt32}

theorem storedFields_cons (location : UInt32) (later : List UInt32) :
    storedFields (location :: later) =
      if storedFields later = [] ∧ location = 0 then [] else location :: storedFields later := by
  simp only [storedFields, List.reverse_cons, List.dropWhile_append, List.isEmpty_iff,
    List.reverse_eq_nil_iff]
  by_cases blank : later.reverse.dropWhile (· == 0) = []
  · by_cases none : location = 0 <;> simp [blank, none]
  · simp [blank]

theorem storedFields_eq (fields : List UInt32) :
    storedFields fields = fields.take (usedFields fields) := by
  induction fields with
  | nil => rfl
  | cons location later ih =>
      have blank : storedFields later = [] ↔ usedFields later = 0 := by
        rw [ih, List.take_eq_nil_iff]
        refine ⟨fun none => none.elim id ?_, .inl⟩
        rintro rfl
        rfl
      rw [storedFields_cons, usedFields]
      simp only [blank]
      split
      · rfl
      · rw [List.take_succ_cons, ih]

theorem usedFields_le (fields : List UInt32) : usedFields fields ≤ fields.length := by
  induction fields with
  | nil => exact Nat.le_refl _
  | cons location later ih =>
      rw [usedFields, List.length_cons]
      split <;> omega

theorem length_take_usedFields (fields : List UInt32) :
    (fields.take (usedFields fields)).length = usedFields fields := by
  rw [List.length_take, Nat.min_eq_left (usedFields_le fields)]

theorem width_storedFields (fields : List UInt32) :
    (storedFields fields).length * entryWidth + vtableHeaderWidth = vtableWidth fields := by
  rw [storedFields_eq, length_take_usedFields, vtableWidth, entryWidth, vtableHeaderWidth]
  omega

theorem fieldEntry_eq (below : location.toNat ≤ table.toNat) :
    fieldEntry table location = vtableEntry table location := by
  rw [fieldEntry, vtableEntry, UInt32.toNat_sub_of_le _ _ (UInt32.le_iff_toNat_le.mpr below)]

theorem length_vtableBytes (table start : UInt32) (fields : List UInt32) :
    (vtableBytes table start fields).length = vtableWidth fields := by
  simp only [vtableBytes, List.length_append, length_shortWord,
    length_flatMap_of_width fun _ => length_shortWord _, length_take_usedFields, vtableWidth]
  omega

theorem mem_of_getD {index : Nat} (recorded : fields.getD index 0 = location)
    (present : location ≠ 0) : location ∈ fields := by
  rw [List.getD_eq_getElem?_getD] at recorded
  cases found : fields[index]? with
  | none =>
      rw [found] at recorded
      exact absurd recorded.symm present
  | some other =>
      rw [found] at recorded
      cases recorded
      exact List.mem_of_getElem? found

theorem mem_take_usedFields (recorded : location ∈ fields) (present : location ≠ 0) :
    location ∈ fields.take (usedFields fields) := by
  obtain ⟨index, inside, rfl⟩ := List.getElem_of_mem recorded
  have reached : index < usedFields fields := by
    refine Nat.lt_of_not_le fun past => ?_
    have blank := (lastRecorded_usedFields fields).behind index past
    rw [List.getD_eq_getElem _ _ inside] at blank
    exact present blank
  exact List.mem_take_iff_getElem.mpr ⟨index, Nat.lt_min.mpr ⟨reached, inside⟩, rfl⟩

theorem getElem?_take_usedFields {index : Nat} (reached : index < usedFields fields) :
    (fields.take (usedFields fields))[index]? = some (fields.getD index 0) := by
  have inside := Nat.lt_of_lt_of_le reached (usedFields_le fields)
  rw [List.getElem?_take_of_lt reached, List.getElem?_eq_getElem inside,
    List.getD_eq_getElem _ _ inside]

end Stored

end WireTables
