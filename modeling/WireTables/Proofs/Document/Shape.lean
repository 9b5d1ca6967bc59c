import Mathlib.Data.List.GetD
import Mathlib.Data.Nat.ModEq
import WireTables.Proofs.Builder.VTables
import WireTables.Proofs.Document.Table

/-!
The shape of a table: the slots of its additions, and how each field lies in the table unless it is
left out. Fields are aligned by the head, and so is the table itself behind them. Starting a table
further on by a multiple of all alignments moves everything in it by as much; and where its widest
alignment is met, all that was different about the start is forgotten.
-/

namespace WireTables

open Build

theorem paddingTo_congr {alignment written other : Nat} (same : written ≡ other [MOD alignment]) :
    paddingTo alignment written = paddingTo alignment other := by
  rw [paddingTo, same, paddingTo]

namespace Inline

variable {inline : Inline} {first second head shift modulus : Nat}

theorem reach_shift (multiple : inline.alignment ∣ shift) :
    inline.reach (head + shift) = inline.reach head + shift := by
  have same : head + shift + inline.width ≡ head + inline.width [MOD inline.alignment] := by
    have moved := (Nat.modEq_zero_iff_dvd.mpr multiple).add_left (head + inline.width)
    rwa [Nat.add_zero, Nat.add_right_comm] at moved
  rw [reach, reach, paddingTo_congr same]
  omega

theorem reach_congr (divides : inline.alignment ∣ modulus) (same : first ≡ second [MOD modulus]) :
    inline.reach first ≡ inline.reach second [MOD modulus] := by
  have aligned := (same.of_dvd divides).add_right inline.width
  rw [reach, reach, paddingTo_congr aligned]
  exact (same.add_left _).add_left _

theorem reach_modEq_zero (positive : 0 < inline.alignment) (head : Nat) :
    inline.reach head ≡ 0 [MOD inline.alignment] := by
  have aligned := add_paddingTo_mod positive (head + inline.width)
  rw [reach, Nat.ModEq, Nat.zero_mod, ← aligned]
  congr 1
  omega

theorem reach_modEq (regular : inline.alignment.isPowerOfTwo) (power : modulus.isPowerOfTwo)
    (same : first ≡ second [MOD modulus]) :
    inline.reach first ≡ inline.reach second [MOD max modulus inline.alignment] := by
  rcases Nat.le_total inline.alignment modulus with below | above
  · rw [Nat.max_eq_left below]
    exact reach_congr (dvd_of_isPowerOfTwo regular power below) same
  · rw [Nat.max_eq_right above]
    have positive : 0 < inline.alignment := Nat.pos_of_isPowerOfTwo regular
    exact (reach_modEq_zero positive first).trans (reach_modEq_zero positive second).symm

end Inline

/-- What an addition is to the layout of its table, whatever value it brings. -/
structure FieldShape where
  slot : Slot
  inline : Option Inline
  deriving DecidableEq, Repr

abbrev TableShape := List FieldShape

def Addition.shape (forced : Bool) (addition : Addition) : FieldShape where
  slot := addition.slot
  inline := if addition.field.stored forced then some addition.field.inline else none

namespace FieldShape

def alignment (field : FieldShape) : Nat := field.inline.elim 1 Inline.alignment

def reach (field : FieldShape) (head : Nat) : Nat := field.inline.elim head (·.reach head)

def locate (field : FieldShape) (head : Nat) (known : Nat → Option Nat) (index : Nat) : Option Nat :=
  if field.inline.isSome ∧ indexOfSlot field.slot = some index then some (field.reach head)
  else known index

variable {field : FieldShape} {first second head shift modulus : Nat} {known : Nat → Option Nat}

theorem reach_shift (multiple : field.alignment ∣ shift) :
    field.reach (head + shift) = field.reach head + shift := by
  rcases field with ⟨slot, _ | inline⟩
  · rfl
  · exact Inline.reach_shift multiple

theorem reach_modEq (regular : field.alignment.isPowerOfTwo) (power : modulus.isPowerOfTwo)
    (same : first ≡ second [MOD modulus]) :
    field.reach first ≡ field.reach second [MOD max modulus field.alignment] := by
  rcases field with ⟨slot, _ | inline⟩
  · change first ≡ second [MOD max modulus 1]
    rwa [Nat.max_eq_left (Nat.pos_of_isPowerOfTwo power)]
  · exact Inline.reach_modEq regular power same

theorem locate_shift (multiple : field.alignment ∣ shift) :
    field.locate (head + shift) (fun index => (known index).map (· + shift)) =
      fun index => (field.locate head known index).map (· + shift) := by
  funext index
  simp only [locate, reach_shift multiple]
  split <;> rfl

end FieldShape

namespace TableShape

def reach : TableShape → Nat → Nat
  | [], head => head
  | field :: shape, head => reach shape (field.reach head)

def locate : TableShape → Nat → (Nat → Option Nat) → Nat → Option Nat
  | [], _, known => known
  | field :: shape, head, known => locate shape (field.reach head) (field.locate head known)

def place (shape : TableShape) (start : Nat) : Nat :=
  Inline.reach ⟨referenceWidth, referenceWidth⟩ (reach shape start)

def widest : TableShape → Nat → Nat
  | [], least => least
  | field :: shape, least => widest shape (max least field.alignment)

/-- The widest alignment in the table, which is that of the distance to its vtable at least. -/
def alignment (shape : TableShape) : Nat := max (widest shape 1) referenceWidth

def Regular (shape : TableShape) : Prop := ∀ field ∈ shape, field.alignment.isPowerOfTwo

theorem regular_of_additions {additions : List Addition}
    (structs : ∀ addition ∈ additions, ∀ alignment members sized,
      addition.field = .struct alignment members sized → alignment.isPowerOfTwo) (forced : Bool) :
    Regular (additions.map (Addition.shape forced)) := by
  intro shape member
  obtain ⟨⟨slot, field, source⟩, known, rfl⟩ := List.mem_map.mp member
  have aligned := structs _ known
  rw [FieldShape.alignment, Addition.shape]
  split
  case isFalse => exact ⟨0, rfl⟩
  case isTrue =>
    cases field with
    | scalar type value default => exact type.isPowerOfTwo_width
    | optional type value => exact type.isPowerOfTwo_width
    | struct alignment members sized => exact aligned alignment members sized rfl
    | string | scalars | strings | table | tables => exact ⟨2, rfl⟩

variable {shape : TableShape} {first second head shift least modulus : Nat}
  {known : Nat → Option Nat}

theorem reach_shift (multiple : ∀ field ∈ shape, field.alignment ∣ shift) :
    shape.reach (head + shift) = shape.reach head + shift := by
  induction shape generalizing head with
  | nil => rfl
  | cons field shape ih =>
      rw [List.forall_mem_cons] at multiple
      rw [reach, FieldShape.reach_shift multiple.1, ih multiple.2, reach]

theorem locate_shift (multiple : ∀ field ∈ shape, field.alignment ∣ shift) (head : Nat)
    (known : Nat → Option Nat) :
    shape.locate (head + shift) (fun index => (known index).map (· + shift)) =
      fun index => (shape.locate head known index).map (· + shift) := by
  induction shape generalizing head known with
  | nil => rfl
  | cons field shape ih =>
      rw [List.forall_mem_cons] at multiple
      rw [locate, FieldShape.reach_shift multiple.1, FieldShape.locate_shift multiple.1,
        ih multiple.2]
      rfl

theorem isPowerOfTwo_widest (regular : shape.Regular) (power : least.isPowerOfTwo) :
    (shape.widest least).isPowerOfTwo := by
  induction shape generalizing least with
  | nil => exact power
  | cons field shape ih =>
      obtain ⟨first, rest⟩ := List.forall_mem_cons.mp regular
      exact ih rest (isPowerOfTwo_max power first)

theorem isPowerOfTwo_alignment (regular : shape.Regular) : shape.alignment.isPowerOfTwo :=
  isPowerOfTwo_max (isPowerOfTwo_widest regular ⟨0, rfl⟩) ⟨2, rfl⟩

theorem reach_modEq (regular : shape.Regular) (power : least.isPowerOfTwo)
    (same : first ≡ second [MOD least]) :
    shape.reach first ≡ shape.reach second [MOD shape.widest least] := by
  induction shape generalizing first second least with
  | nil => exact same
  | cons field shape ih =>
      obtain ⟨aligned, rest⟩ := List.forall_mem_cons.mp regular
      exact ih rest (isPowerOfTwo_max power aligned) (FieldShape.reach_modEq aligned power same)

theorem place_modEq (regular : shape.Regular) (first second : Nat) :
    shape.place first ≡ shape.place second [MOD shape.alignment] := by
  have fields := reach_modEq regular ⟨0, rfl⟩ (Nat.modEq_one : first ≡ second [MOD 1])
  exact Inline.reach_modEq ⟨2, rfl⟩ (isPowerOfTwo_widest regular ⟨0, rfl⟩) fields

theorem le_widest : least ≤ shape.widest least := by
  induction shape generalizing least with
  | nil => exact Nat.le_refl _
  | cons field shape ih => exact Nat.le_trans (Nat.le_max_left _ _) ih

theorem alignment_le_widest {field : FieldShape} (member : field ∈ shape) :
    field.alignment ≤ shape.widest least := by
  induction shape generalizing least with
  | nil => exact absurd member List.not_mem_nil
  | cons other shape ih =>
      rcases List.mem_cons.mp member with rfl | member
      · exact Nat.le_trans (Nat.le_max_right _ _) le_widest
      · exact ih member

theorem alignment_dvd (regular : shape.Regular) :
    ∀ field ∈ shape, field.alignment ∣ shape.alignment := fun field member =>
  dvd_of_isPowerOfTwo (regular field member) (isPowerOfTwo_alignment regular)
    (Nat.le_trans (alignment_le_widest member) (Nat.le_max_left _ _))

theorem referenceWidth_dvd (regular : shape.Regular) : referenceWidth ∣ shape.alignment :=
  dvd_of_isPowerOfTwo ⟨2, rfl⟩ (isPowerOfTwo_alignment regular) (Nat.le_max_right _ _)

theorem place_shift (regular : shape.Regular) (multiple : shape.alignment ∣ shift) :
    shape.place (head + shift) = shape.place head + shift := by
  rw [place, reach_shift fun field member => (alignment_dvd regular field member).trans multiple]
  exact Inline.reach_shift ((referenceWidth_dvd regular).trans multiple)

end TableShape

section Vtables

variable {record first second : TableRecord}

theorem take_usedFields (fields : List UInt32) :
    fields.take (usedFields fields) =
      (List.range (usedFields fields)).map fun index => fields.getD index 0 := by
  apply List.ext_getElem?
  intro index
  by_cases reached : index < usedFields fields
  · rw [getElem?_take_usedFields reached, List.getElem?_map, List.getElem?_range reached]
    rfl
  · have past := Nat.le_of_not_lt reached
    rw [List.getElem?_eq_none (by rwa [length_take_usedFields]),
      List.getElem?_eq_none (by rwa [List.length_map, List.length_range])]

namespace TableRecord.Exact

theorem vtableEntry_eq_zero_iff (exact : record.Exact) (index : Nat) :
    vtableEntry record.table (record.fields.getD index 0) = 0 ↔ record.fields.getD index 0 = 0 := by
  refine ⟨fun none => ?_, fun blank => if_pos blank⟩
  by_contra present
  have below := UInt32.lt_iff_toNat_lt.mp (exact.stored _ (mem_of_getD rfl present))
  rw [vtableEntry, if_neg present] at none
  omega

theorem vtable_congr (left : first.Exact) (right : second.Exact)
    (inlineSize : first.table.toNat - first.start.toNat = second.table.toNat - second.start.toNat)
    (entries : ∀ index, vtableEntry first.table (first.fields.getD index 0) =
      vtableEntry second.table (second.fields.getD index 0)) : first.vtable = second.vtable := by
  have blank (index : Nat) : first.fields.getD index 0 = 0 ↔ second.fields.getD index 0 = 0 := by
    rw [← left.vtableEntry_eq_zero_iff, entries, right.vtableEntry_eq_zero_iff]
  have recorded := lastRecorded_usedFields first.fields
  have used : usedFields second.fields = usedFields first.fields :=
    (lastRecorded_usedFields second.fields).unique
      ⟨fun index past => (blank index).mp (recorded.behind index past),
        fun some => mt (blank _).mpr (recorded.last some)⟩
  rw [vtable, vtable, vtableBytes, vtableBytes, vtableWidth, vtableWidth, take_usedFields,
    take_usedFields, List.flatMap_map, List.flatMap_map, used, inlineSize]
  simp only [entries]

theorem inlineSize_eq (left : first.Exact) (right : second.Exact)
    (same : first.vtable = second.vtable) :
    first.table.toNat - first.start.toNat = second.table.toNat - second.start.toNat := by
  rw [vtable, vtable, vtableBytes, vtableBytes] at same
  have behind := (List.append_inj same (by simp)).2
  exact shortWord_inj left.inlineSize right.inlineSize (List.append_inj behind (by simp)).1

end TableRecord.Exact

end Vtables

def Located : Option Nat → UInt32 → Prop
  | none, location => location = 0
  | some place, location => location ≠ 0 ∧ location.toNat = place

structure Laid (record : TableRecord) (shape : TableShape) (start : Nat) : Prop where
  exact : record.Exact
  started : record.start.toNat = start
  placed : record.table.toNat = shape.place start
  located : ∀ index,
    Located (shape.locate start (fun _ => none) index) (record.fields.getD index 0)

namespace Laid

variable {first second record : TableRecord} {shape : TableShape} {start other shift : Nat}

theorem inlineSize (laid : Laid record shape start) :
    record.table.toNat - record.start.toNat = shape.place start - start := by
  rw [laid.placed, laid.started]

theorem entry_eq (laid : Laid record shape start) (index : Nat) :
    vtableEntry record.table (record.fields.getD index 0) =
      (shape.locate start (fun _ => none) index).elim 0 (shape.place start - ·) := by
  have located := laid.located index
  cases found : shape.locate start (fun _ => none) index with
  | none =>
      rw [found] at located
      change record.fields.getD index 0 = 0 at located
      rw [located]
      rfl
  | some place =>
      rw [found] at located
      obtain ⟨present, here⟩ := located
      rw [vtableEntry, if_neg present, here, laid.placed]
      rfl

/-- Tables of one shape have one vtable if they were started in step with their alignments. -/
theorem vtable_shift (regular : shape.Regular) (multiple : shape.alignment ∣ shift)
    (left : Laid first shape start) (right : Laid second shape (start + shift)) :
    first.vtable = second.vtable := by
  have placed : shape.place (start + shift) = shape.place start + shift :=
    TableShape.place_shift regular multiple
  apply left.exact.vtable_congr right.exact
  · rw [left.inlineSize, right.inlineSize, placed]
    omega
  · intro index
    have divides : ∀ field ∈ shape, field.alignment ∣ shift := fun field member =>
      (TableShape.alignment_dvd regular field member).trans multiple
    have located : shape.locate (start + shift) (fun _ => none) index =
        (shape.locate start (fun _ => none) index).map (· + shift) :=
      congrFun (TableShape.locate_shift divides start fun _ => none) index
    rw [left.entry_eq, right.entry_eq, placed, located]
    cases shape.locate start (fun _ => none) index with
    | none => rfl
    | some place => exact (Nat.add_sub_add_right ..).symm

/-- Tables of one shape have one vtable just when they were started in step with their
alignments: how wide the padding is between the start and the fields goes into the vtable, and the
end of the table is in step with them in any case. -/
theorem vtable_eq_iff (regular : shape.Regular) (left : Laid first shape start)
    (right : Laid second shape other) :
    first.vtable = second.vtable ↔ start ≡ other [MOD shape.alignment] := by
  constructor
  · intro same
    -- one inline size means that start and end are equally far apart, and the ends are in step
    have sizes := left.exact.inlineSize_eq right.exact same
    rw [left.inlineSize, right.inlineSize] at sizes
    have leftAbove := UInt32.lt_iff_toNat_lt.mp left.exact.started
    have rightAbove := UInt32.lt_iff_toNat_lt.mp right.exact.started
    rw [left.started, left.placed] at leftAbove
    rw [right.started, right.placed] at rightAbove
    have ends := TableShape.place_modEq regular start other
    have leftWhole : (shape.place start - start) + start = shape.place start := by omega
    have rightWhole : (shape.place start - start) + other = shape.place other := by omega
    rw [← leftWhole, ← rightWhole] at ends
    exact Nat.ModEq.add_left_cancel' _ ends
  · intro same
    rcases Nat.le_total start other with below | above
    · obtain ⟨shift, rfl⟩ := Nat.exists_eq_add_of_le below
      have multiple := (Nat.modEq_iff_dvd' below).mp same
      rw [Nat.add_sub_cancel_left] at multiple
      exact vtable_shift regular multiple left right
    · obtain ⟨shift, rfl⟩ := Nat.exists_eq_add_of_le above
      have multiple := (Nat.modEq_iff_dvd' above).mp same.symm
      rw [Nat.add_sub_cancel_left] at multiple
      exact (vtable_shift regular multiple right left).symm

end Laid

end WireTables
