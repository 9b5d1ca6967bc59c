import Mathlib.Algebra.Group.Nat.Defs
import WireTables.Proofs.View.Accepted

/-!
Which bytes open as a root. The conditions are put as inequalities between numbers that the bytes
spell, without a view and without a read that could fault. Opening a buffer is then the same as
asking each condition before the read that relies on it, and what it hands out is what the
unchecked `TableView.load` makes of the position of the root.
-/

namespace WireTables

/-- The number that `width` bytes spell, least significant first. -/
def numberAt (buffer : Bytes) (position width : Nat) : Nat :=
  decodeWord ((buffer.drop position).take width)

def rootOf (buffer : Bytes) : Nat := numberAt buffer 0 referenceWidth

/-- The same number with a sign, in two's complement. -/
def signedAt (buffer : Bytes) (position width : Nat) : Int :=
  (numberAt buffer position width : Int).bmod (256 ^ width)

/-- Where the vtable of the root would begin, which may be before the buffer. -/
def vtableOf (buffer : Bytes) : Int :=
  rootOf buffer - signedAt buffer (rootOf buffer) referenceWidth

def vtableSizeOf (buffer : Bytes) : Nat := numberAt buffer (vtableOf buffer).toNat entryWidth

def rootView (buffer : Bytes) : TableView :=
  ⟨buffer, rootOf buffer, (vtableOf buffer).toNat, vtableSizeOf buffer⟩

structure RootInside (buffer : Bytes) : Prop where
  reference : referenceWidth ≤ buffer.length
  table : rootOf buffer + referenceWidth ≤ buffer.length
  start : 0 ≤ vtableOf buffer
  header : vtableOf buffer + vtableHeaderWidth ≤ buffer.length
  vtable : vtableOf buffer + vtableSizeOf buffer ≤ buffer.length

/-- The first condition that does not hold, and what is reported about it. -/
inductive RootOutside (buffer : Bytes) : OpenError → Prop
  | reference (short : buffer.length < referenceWidth) :
      RootOutside buffer (.tooShort referenceWidth buffer.length)
  | table (reference : referenceWidth ≤ buffer.length)
      (outside : buffer.length < rootOf buffer + referenceWidth) :
      RootOutside buffer (.outside (rootOf buffer) buffer.length)
  | start (reference : referenceWidth ≤ buffer.length)
      (table : rootOf buffer + referenceWidth ≤ buffer.length) (before : vtableOf buffer < 0) :
      RootOutside buffer (.outside 0 buffer.length)
  | header (reference : referenceWidth ≤ buffer.length)
      (table : rootOf buffer + referenceWidth ≤ buffer.length) (start : 0 ≤ vtableOf buffer)
      (outside : buffer.length < vtableOf buffer + vtableHeaderWidth) :
      RootOutside buffer (.outside (vtableOf buffer).toNat buffer.length)
  | vtable (reference : referenceWidth ≤ buffer.length)
      (table : rootOf buffer + referenceWidth ≤ buffer.length) (start : 0 ≤ vtableOf buffer)
      (header : vtableOf buffer + vtableHeaderWidth ≤ buffer.length)
      (outside : buffer.length < vtableOf buffer + vtableSizeOf buffer) :
      RootOutside buffer (.outside (vtableOf buffer).toNat buffer.length)

def requireInside (buffer : Bytes) (position size : Nat) (error : OpenError) :
    ExceptT OpenError (Except Fault) Unit :=
  if position + size ≤ buffer.length then pure () else throw error

/-- A root opened by a check before each read. The reads are the ones that can fault, and the view
comes from reading everything once more. -/
def openRootByChecks (buffer : Bytes) : ExceptT OpenError (Except Fault) TableView := do
  let outside (position : Nat) : OpenError := .outside position buffer.length
  requireInside buffer 0 referenceWidth (.tooShort referenceWidth buffer.length)
  let reference ← (loadScalar .uint32 buffer 0 : Except Fault UInt32)
  let root := reference.toNat
  requireInside buffer root referenceWidth (outside root)
  let distance ← (loadScalar .int32 buffer root : Except Fault Int32)
  let vtable := (root : Int) - distance.toInt
  if vtable < 0 then throw (outside 0)
  let position := vtable.toNat
  requireInside buffer position vtableHeaderWidth (outside position)
  let size ← (loadScalar .uint16 buffer position : Except Fault UInt16)
  requireInside buffer position size.toNat (outside position)
  TableView.load buffer root

section Reads

variable {buffer : Bytes} {position width : Nat}

theorem numberAt_lt (inside : position + width ≤ buffer.length) :
    numberAt buffer position width < Nat.pow 256 width := by
  have small := decodeWord_lt ((buffer.drop position).take width)
  rwa [length_of_slice (slice_ok inside)] at small

theorem loadScalar_inside {type : ScalarType} (inside : position + type.width ≤ buffer.length) :
    loadScalar type buffer position = .ok (type.ofBits (numberAt buffer position type.width)) := by
  rw [loadScalar, slice_ok inside]
  rfl

theorem load_root (inside : referenceWidth ≤ buffer.length) :
    ∃ reference, loadScalar .uint32 buffer 0 = .ok reference ∧
      reference.toNat = rootOf buffer := by
  have fits : 0 + ScalarType.uint32.width ≤ buffer.length := by
    rw [Nat.zero_add]
    exact inside
  refine ⟨_, loadScalar_inside fits, ?_⟩
  exact UInt32.toNat_ofNat_of_lt' (numberAt_lt fits)

theorem toInt_ofBits (bits : Nat) :
    (ScalarType.int32.ofBits bits).toInt = (bits : Int).bmod (256 ^ referenceWidth) := by
  have size : 256 ^ referenceWidth = 2 ^ 32 := rfl
  rw [size]
  exact BitVec.toInt_ofNat' bits

theorem load_distance (inside : rootOf buffer + referenceWidth ≤ buffer.length) :
    ∃ distance, loadScalar .int32 buffer (rootOf buffer) = .ok distance ∧
      (rootOf buffer : Int) - distance.toInt = vtableOf buffer := by
  have wide : ScalarType.int32.width = referenceWidth := rfl
  refine ⟨_, loadScalar_inside inside, ?_⟩
  rw [wide, toInt_ofBits, vtableOf, signedAt]

theorem load_size (inside : position + vtableHeaderWidth ≤ buffer.length) :
    ∃ size, loadScalar .uint16 buffer position = .ok size ∧
      size.toNat = numberAt buffer position entryWidth := by
  have fits : position + ScalarType.uint16.width ≤ buffer.length :=
    Nat.le_trans (Nat.add_le_add_left (by decide) position) inside
  refine ⟨_, loadScalar_inside fits, ?_⟩
  exact UInt16.toNat_ofNat_of_lt' (numberAt_lt fits)

theorem reporting_bind {α β : Type} {error : OpenError} {read : Except Fault α} {value : α}
    {next : α → Except OpenError β} (loaded : read = .ok value) :
    (reporting error read >>= next) = next value := by
  rw [loaded]
  rfl

theorem reporting_bind_fault {α β : Type} {error : OpenError} {read : Except Fault α}
    {cause : Fault} {next : α → Except OpenError β} (cut : read = .error cause) :
    (reporting error read >>= next) = .error error := by
  rw [cut]
  rfl

theorem requireInside_bind {β : Type} {error : OpenError}
    {next : Unit → ExceptT OpenError (Except Fault) β}
    (inside : position + width ≤ buffer.length) :
    (requireInside buffer position width error >>= next) = next () := by
  rw [requireInside, if_pos inside]
  rfl

theorem requireInside_bind_outside {β : Type} {error : OpenError}
    {next : Unit → ExceptT OpenError (Except Fault) β}
    (outside : buffer.length < position + width) :
    (requireInside buffer position width error >>= next) = throw error := by
  rw [requireInside, if_neg (Nat.not_le.mpr outside)]
  rfl

theorem read_lift {α β : Type} {read : Except Fault α} {value : α}
    {next : α → ExceptT OpenError (Except Fault) β} (loaded : read = .ok value) :
    ((liftM read : ExceptT OpenError (Except Fault) α) >>= next) = next value := by
  rw [loaded]
  rfl

end Reads

inductive DecidedByBounds (buffer : Bytes) :
    Except OpenError TableView → ExceptT OpenError (Except Fault) TableView → Prop
  | opened (inside : RootInside buffer)
      (loaded : TableView.load buffer (rootOf buffer) = .ok (rootView buffer)) :
      DecidedByBounds buffer (.ok (rootView buffer)) (pure (rootView buffer))
  | declined {error : OpenError} (outside : RootOutside buffer error) :
      DecidedByBounds buffer (.error error) (throw error)

/-- Either condition by condition, along both forms at once. -/
theorem openRoot_decided (buffer : Bytes) :
    DecidedByBounds buffer (openRoot buffer) (openRootByChecks buffer) := by
  rw [openRoot, openRootByChecks]
  rcases Nat.lt_or_ge buffer.length referenceWidth with short | reference
  · have none : buffer.length < 0 + referenceWidth := by rwa [Nat.zero_add]
    have cut : loadScalar .uint32 buffer 0 = .error .outOfRange := loadScalar_outside none
    rw [reporting_bind_fault cut, requireInside_bind_outside none]
    exact .declined (.reference short)
  have first : 0 + referenceWidth ≤ buffer.length := by rwa [Nat.zero_add]
  obtain ⟨root, loaded, same⟩ := load_root reference
  rw [reporting_bind loaded, requireInside_bind first, read_lift loaded, same]
  rcases Nat.lt_or_ge buffer.length (rootOf buffer + referenceWidth) with outside | table
  · have cut : loadScalar .int32 buffer (rootOf buffer) = .error .outOfRange :=
      loadScalar_outside outside
    rw [reporting_bind_fault cut, requireInside_bind_outside outside]
    exact .declined (.table reference outside)
  obtain ⟨distance, linked, apart⟩ := load_distance table
  rw [reporting_bind linked, requireInside_bind table, read_lift linked, apart]
  rcases Int.lt_or_le (vtableOf buffer) 0 with before | start
  · rw [if_pos before, if_pos before]
    exact .declined (.start reference table before)
  rw [if_neg (Int.not_lt.mpr start), if_neg (Int.not_lt.mpr start)]
  have place := Int.toNat_of_nonneg start
  rcases Int.lt_or_le buffer.length (vtableOf buffer + vtableHeaderWidth) with outside | header
  · have cut : buffer.length < (vtableOf buffer).toNat + vtableHeaderWidth := by omega
    rw [reporting_bind_fault (slice_outside cut), requireInside_bind_outside cut]
    exact .declined (.header reference table start outside)
  have headed : (vtableOf buffer).toNat + vtableHeaderWidth ≤ buffer.length := by omega
  obtain ⟨size, sized, wide⟩ := load_size headed
  rw [← vtableSizeOf] at wide
  rw [reporting_bind (slice_ok headed), reporting_bind sized, requireInside_bind headed,
    read_lift sized, wide]
  rcases Int.lt_or_le buffer.length (vtableOf buffer + vtableSizeOf buffer) with outside | vtable
  · have cut : buffer.length < (vtableOf buffer).toNat + vtableSizeOf buffer := by omega
    rw [reporting_bind_fault (slice_outside cut), requireInside_bind_outside cut]
    exact .declined (.vtable reference table start header outside)
  have whole : (vtableOf buffer).toNat + vtableSizeOf buffer ≤ buffer.length := by omega
  have located : locateVTable buffer (rootOf buffer) = .ok (vtableOf buffer).toNat :=
    locateVTable_eq_ok_iff.mpr ⟨distance, linked, by omega⟩
  have view : TableView.load buffer (rootOf buffer) = .ok (rootView buffer) := by
    rw [rootView, ← wide]
    exact TableView.load_eq_ok_iff.mpr ⟨_, size, located, sized, rfl⟩
  rw [reporting_bind (slice_ok whole), requireInside_bind whole, view]
  exact .opened ⟨reference, table, start, header, vtable⟩ view

theorem RootInside.not_outside {buffer : Bytes} {error : OpenError} (inside : RootInside buffer) :
    ¬ RootOutside buffer error := by
  obtain ⟨reference, table, start, header, vtable⟩ := inside
  intro outside
  cases outside <;> omega

theorem RootOutside.unique {buffer : Bytes} {error other : OpenError}
    (outside : RootOutside buffer error) (again : RootOutside buffer other) : error = other := by
  -- two different conditions cannot both be the first to fail
  cases outside <;> cases again <;> first | omega | rfl

/-- Opening never faults, even with reads that rely on the checks before them. A buffer is accepted
just when the reference to its root, the root's vtable distance, the vtable's start, its header and
the size it declares all lie inside, and the view is then the one found from the root's position.
Otherwise the first of these that fails is reported: too few bytes only for the reference itself,
and else the position of the root, zero, or the position of the vtable. -/
theorem openRoot_bounds (buffer : Bytes) :
    openRootByChecks buffer = ExceptT.mk (.ok (openRoot buffer)) ∧
      (∀ view, openRoot buffer = .ok view ↔ RootInside buffer ∧ view = rootView buffer) ∧
      (∀ error, openRoot buffer = .error error ↔ RootOutside buffer error) ∧
      ((∃ needed length, openRoot buffer = .error (.tooShort needed length)) ↔
        buffer.length < referenceWidth) := by
  have decided := openRoot_decided buffer
  generalize openRoot buffer = opened, openRootByChecks buffer = checked at decided ⊢
  cases decided with
  | opened inside =>
      refine ⟨rfl, fun view => ?_, fun error => ?_, ?_⟩
      · simp only [inside, true_and, Except.ok.injEq, eq_comm]
      · simp only [reduceCtorEq, inside.not_outside]
      · simp only [reduceCtorEq, exists_false, false_iff, Nat.not_lt, inside.reference]
  | declined outside =>
      refine ⟨rfl, fun view => ?_, fun error => ?_, ?_⟩
      · have refused : ¬ RootInside buffer := fun inside => inside.not_outside outside
        simp only [reduceCtorEq, refused, false_and]
      · rw [Except.error.injEq]
        exact ⟨fun same => same ▸ outside, outside.unique⟩
      · cases outside with
        | reference short => simp [short]
        | table reference => simp [Nat.not_lt.mpr reference]
        | start reference => simp [Nat.not_lt.mpr reference]
        | header reference => simp [Nat.not_lt.mpr reference]
        | vtable reference => simp [Nat.not_lt.mpr reference]

example : openRoot [4, 0, 0, 0, 0xF0, 0xFF, 0xFF, 0xFF] = .error (.outside 20 8) := by rfl

end WireTables
