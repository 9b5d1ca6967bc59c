import WireTables.Proofs.View.Chain

/-!
Reading a buffer that stands in the middle of a longer one. Every reader goes by distances and looks
only at bytes that it has checked to be there, so a chain of reads that comes to an end in a buffer,
whatever the buffer holds, comes to the same end with any bytes in front of it and behind it. The
views then stand in the longer buffer, as much further on as there are bytes in front.

A read that fails may do so for want of bytes, so only reads that come to an end are compared.
-/

namespace WireTables

def Carries {α β : Type} (carry : α → β) (read : Except Fault α) (other : Except Fault β) : Prop :=
  ∀ found, read = .ok found → other = .ok (carry found)

namespace Carries

variable {α β γ δ : Type} {carry : α → β} {carryNext : γ → δ}
  {read : Except Fault α} {other : Except Fault β}

theorem of_pure {value : α} {carried : β} (same : carry value = carried) :
    Carries carry (pure value) (pure carried) := by
  intro found ended
  cases ended
  exact congrArg Except.ok same.symm

theorem of_error (cause : Fault) : Carries carry (.error cause) other := nofun

theorem bind {next : α → Except Fault γ} {otherNext : β → Except Fault δ}
    (first : Carries carry read other)
    (rest : ∀ found, Carries carryNext (next found) (otherNext (carry found))) :
    Carries carryNext (read >>= next) (other >>= otherNext) := by
  intro result ended
  rcases read_bind.mp ended with ⟨found, ran, ended⟩
  exact read_bind.mpr ⟨carry found, first found ran, rest found result ended⟩

theorem map {change : α → γ} {otherChange : β → δ} (first : Carries carry read other)
    (agrees : ∀ found, carryNext (change found) = otherChange (carry found)) :
    Carries carryNext (change <$> read) (otherChange <$> other) := by
  intro result ended
  rcases read_map.mp ended with ⟨found, ran, rfl⟩
  exact read_map.mpr ⟨carry found, first found ran, (agrees found).symm⟩

theorem choose {condition : Prop} [Decidable condition] {read' : Except Fault α}
    {other' : Except Fault β} (yes : condition → Carries carry read other)
    (no : ¬condition → Carries carry read' other') :
    Carries carry (if condition then read else read') (if condition then other else other') := by
  split
  case isTrue holds => exact yes holds
  case isFalse fails => exact no fails

end Carries

section Bytes

variable (front behind : Bytes) {buffer : Bytes}

theorem slice_surrounded (start size : Nat) :
    Carries id (slice buffer start size)
      (slice (front ++ buffer ++ behind) (front.length + start) size) := by
  intro found taken
  obtain ⟨fits, rfl⟩ := slice_eq_ok_iff.mp taken
  rw [List.append_assoc, slice_append_front, slice_eq_ok_iff]
  constructor
  · rw [List.length_append]
    omega
  · have room : size ≤ (buffer.drop start).length := by
      rw [List.length_drop]
      omega
    rw [List.drop_append_of_le_length (by omega), List.take_append_of_le_length room]
    rfl

theorem loadScalar_surrounded (type : ScalarType) (position : Nat) :
    Carries id (loadScalar type buffer position)
      (loadScalar type (front ++ buffer ++ behind) (front.length + position)) :=
  (slice_surrounded front behind position type.width).map fun _ => rfl

theorem followReference_surrounded (position : Nat) :
    Carries (front.length + ·) (followReference buffer position)
      (followReference (front ++ buffer ++ behind) (front.length + position)) :=
  (loadScalar_surrounded front behind .uint32 position).bind fun _ =>
    .of_pure (Nat.add_assoc ..).symm

theorem readString_surrounded (position : Nat) :
    Carries id (readString buffer position)
      (readString (front ++ buffer ++ behind) (front.length + position)) := by
  apply (loadScalar_surrounded front behind .uint32 position).bind
  intro length
  rw [Nat.add_assoc]
  exact slice_surrounded front behind _ _

theorem locateVTable_surrounded (table : Nat) :
    Carries (front.length + ·) (locateVTable buffer table)
      (locateVTable (front ++ buffer ++ behind) (front.length + table)) := by
  intro vtable located
  rcases locateVTable_eq_ok_iff.mp located with ⟨distance, loaded, place⟩
  refine locateVTable_eq_ok_iff.mpr
    ⟨distance, loadScalar_surrounded front behind .int32 table distance loaded, ?_⟩
  change (front.length + table : Nat) - distance.toInt = ((front.length + vtable : Nat) : Int)
  omega

end Bytes

def TableView.surrounded (front behind : Bytes) (view : TableView) : TableView :=
  ⟨front ++ view.buffer ++ behind, front.length + view.position, front.length + view.vtableBase,
    view.vtableSize⟩

def StructView.surrounded (front behind : Bytes) (view : StructView) : StructView :=
  ⟨front ++ view.buffer ++ behind, front.length + view.position⟩

def VectorView.surrounded {element : Kind} (front behind : Bytes) (view : VectorView element) :
    VectorView element :=
  ⟨front ++ view.buffer ++ behind, front.length + view.position, view.length⟩

def UnionValue.surrounded (front behind : Bytes) (union : UnionValue) : UnionValue :=
  ⟨union.tag, union.table.surrounded front behind⟩

def UnionVectorView.surrounded (front behind : Bytes) (view : UnionVectorView) : UnionVectorView :=
  ⟨view.tags.surrounded front behind, view.tables.surrounded front behind⟩

def Kind.surrounded (front behind : Bytes) : (kind : Kind) → kind.View → kind.View
  | .scalar _, value => value
  | .string, bytes => bytes
  | .table, view => view.surrounded front behind
  | .struct _, view => view.surrounded front behind
  | .vector _, view => view.surrounded front behind

def Search.surrounded (front behind : Bytes) (search : Search) : Search :=
  ⟨search.found.map (TableView.surrounded front behind),
    search.probed.map (TableView.surrounded front behind)⟩

section Objects

variable (front behind : Bytes) {buffer : Bytes}

theorem TableView.load_surrounded (position : Nat) :
    Carries (TableView.surrounded front behind) (TableView.load buffer position)
      (TableView.load (front ++ buffer ++ behind) (front.length + position)) := by
  intro view loaded
  rcases TableView.load_eq_ok_iff.mp loaded with ⟨base, size, located, sized, rfl⟩
  exact TableView.load_eq_ok_iff.mpr ⟨_, size,
    locateVTable_surrounded front behind position base located,
    loadScalar_surrounded front behind .uint16 base size sized, rfl⟩

theorem VectorView.load_surrounded {element : Kind} (position : Nat) :
    Carries (VectorView.surrounded front behind)
      (VectorView.load buffer position : Except Fault (VectorView element))
      (VectorView.load (front ++ buffer ++ behind) (front.length + position)) :=
  (loadScalar_surrounded front behind .uint32 position).bind fun _ => .of_pure rfl

theorem Kind.follow_surrounded (kind : Kind) (position : Nat) :
    Carries (kind.surrounded front behind) (kind.follow buffer position)
      (kind.follow (front ++ buffer ++ behind) (front.length + position)) := by
  cases kind with
  | scalar type => exact loadScalar_surrounded front behind type position
  | struct size => exact .of_pure rfl
  | string =>
      exact (followReference_surrounded front behind position).bind
        (readString_surrounded front behind)
  | table =>
      exact (followReference_surrounded front behind position).bind
        (TableView.load_surrounded front behind)
  | vector element =>
      exact (followReference_surrounded front behind position).bind
        (VectorView.load_surrounded front behind)

end Objects

namespace TableView

variable (front behind : Bytes) (table : TableView) (slot : Slot)

theorem entry_surrounded :
    Carries id (table.entry slot) ((table.surrounded front behind).entry slot) := by
  refine .choose (fun _ => .of_pure rfl) fun _ => ?_
  change Carries id _ (loadScalar .uint16 (front ++ table.buffer ++ behind)
    (front.length + table.vtableBase + slot.toNat))
  rw [Nat.add_assoc]
  exact loadScalar_surrounded front behind .uint16 _

theorem has_surrounded :
    Carries id (table.has slot) ((table.surrounded front behind).has slot) :=
  (table.entry_surrounded front behind slot).bind fun _ => .of_pure rfl

theorem lookup_surrounded {α β : Type} {carry : α → β} {absent : α} {otherAbsent : β}
    {read : Nat → Except Fault α} {otherRead : Nat → Except Fault β}
    (none : carry absent = otherAbsent)
    (reads : ∀ position, Carries carry (read position) (otherRead (front.length + position))) :
    Carries carry (table.lookup slot absent read)
      ((table.surrounded front behind).lookup slot otherAbsent otherRead) := by
  apply (table.entry_surrounded front behind slot).bind
  intro offset
  refine .choose (fun _ => .of_pure none) fun _ => ?_
  change Carries carry _ (otherRead (front.length + table.position + offset.toNat))
  rw [Nat.add_assoc]
  exact reads _

theorem scalarAt_surrounded (type : ScalarType) (default : type.Value) :
    Carries id (table.scalarAt slot type default)
      ((table.surrounded front behind).scalarAt slot type default) :=
  table.lookup_surrounded front behind slot rfl (loadScalar_surrounded front behind type)

theorem positionOf_surrounded :
    Carries (Option.map (front.length + ·)) (table.positionOf slot)
      ((table.surrounded front behind).positionOf slot) :=
  table.lookup_surrounded front behind slot rfl fun _ => .of_pure rfl

theorem valueAt_surrounded (kind : Kind) :
    Carries (Option.map (kind.surrounded front behind)) (table.valueAt slot kind)
      ((table.surrounded front behind).valueAt slot kind) :=
  table.lookup_surrounded front behind slot rfl fun position =>
    (kind.follow_surrounded front behind position).map fun _ => rfl

theorem lengthAt_surrounded :
    Carries id (table.lengthAt slot) ((table.surrounded front behind).lengthAt slot) := by
  apply table.lookup_surrounded front behind slot rfl
  intro position
  apply (followReference_surrounded front behind position).bind
  intro target
  exact (loadScalar_surrounded front behind .uint32 target).bind fun _ => .of_pure rfl

theorem structAt_surrounded :
    Carries (Option.map (StructView.surrounded front behind)) (table.structAt slot)
      ((table.surrounded front behind).structAt slot) :=
  table.lookup_surrounded front behind slot rfl fun _ => .of_pure rfl

theorem unionAt_surrounded (tagSlot tableSlot : Slot) :
    Carries (Option.map (UnionValue.surrounded front behind)) (table.unionAt tagSlot tableSlot)
      ((table.surrounded front behind).unionAt tagSlot tableSlot) := by
  apply (table.scalarAt_surrounded front behind tagSlot .uint8 0).bind
  intro tag
  refine .choose (fun _ => .of_pure rfl) fun _ => ?_
  apply (table.valueAt_surrounded front behind tableSlot .table).bind
  intro found
  exact .of_pure (by cases found <;> rfl)

theorem unionVectorAt_surrounded (tagSlot tableSlot : Slot) :
    Carries (Option.map (UnionVectorView.surrounded front behind))
      (table.unionVectorAt tagSlot tableSlot)
      ((table.surrounded front behind).unionVectorAt tagSlot tableSlot) := by
  apply (table.valueAt_surrounded front behind tagSlot (.vector (.scalar .uint8))).bind
  intro tags
  cases tags with
  | none => exact .of_pure rfl
  | some tags =>
      apply (table.valueAt_surrounded front behind tableSlot (.vector .table)).bind
      intro tables
      exact .of_pure (by cases tables <;> rfl)

end TableView

namespace VectorView

variable (front behind : Bytes) {element : Kind} (vector : VectorView element)

theorem bytes_surrounded : Carries id vector.bytes (vector.surrounded front behind).bytes := by
  change Carries id _ (slice (front ++ vector.buffer ++ behind)
    (front.length + vector.position + referenceWidth) (vector.length * element.width))
  rw [Nat.add_assoc]
  exact slice_surrounded front behind _ _

theorem get_surrounded (index : Nat) :
    Carries (element.surrounded front behind) (vector.get index)
      ((vector.surrounded front behind).get index) := by
  refine .choose (fun _ => ?_) fun _ => .of_error _
  have start : (vector.surrounded front behind).elementStart index =
      front.length + vector.elementStart index := by
    simp only [elementStart, surrounded, Nat.add_assoc]
  simp only [followElement, start]
  exact element.follow_surrounded front behind _

end VectorView

theorem StructView.scalarAt_surrounded (front behind : Bytes) (view : StructView)
    (type : ScalarType) (displacement : Nat) :
    Carries id (view.scalarAt type displacement)
      ((view.surrounded front behind).scalarAt type displacement) := by
  change Carries id _ (loadScalar type (front ++ view.buffer ++ behind)
    (front.length + view.position + displacement))
  rw [Nat.add_assoc]
  exact loadScalar_surrounded front behind type _

theorem UnionVectorView.get_surrounded (front behind : Bytes) (vector : UnionVectorView)
    (index : Nat) :
    Carries (Option.map (UnionValue.surrounded front behind)) (vector.get index)
      ((vector.surrounded front behind).get index) := by
  apply (vector.tags.get_surrounded front behind index).bind
  intro tag
  refine .choose (fun _ => .of_pure rfl) fun _ => ?_
  exact (vector.tables.get_surrounded front behind index).bind fun _ => .of_pure rfl

theorem TableView.nestedRoot_surrounded (front behind : Bytes) (table : TableView) (slot : Slot) :
    Carries id (table.nestedRoot slot) ((table.surrounded front behind).nestedRoot slot) := by
  apply (table.valueAt_surrounded front behind slot (.vector (.scalar .uint8))).bind
  intro vector
  cases vector with
  | none => exact .of_pure rfl
  | some vector => exact (vector.bytes_surrounded front behind).bind fun _ => .of_pure rfl

section Search

variable (front behind : Bytes)

theorem KeyField.orderWith_surrounded (key : KeyField) (value : key.Value) (table : TableView) :
    Carries id (key.orderWith value table) (key.orderWith value (table.surrounded front behind)) := by
  have reads : Carries id (key.read table) (key.read (table.surrounded front behind)) := by
    cases key with
    | string slot =>
        apply (table.valueAt_surrounded front behind slot .string).bind
        intro found
        exact .of_pure (by cases found <;> rfl)
    | scalar type slot => exact table.scalarAt_surrounded front behind slot type type.zero
  exact reads.bind fun _ => .of_pure rfl

namespace VectorView

theorem searchFrom_surrounded (vector : VectorView .table)
    {probe : TableView → Except Fault Ordering}
    (steady : ∀ table, Carries id (probe table) (probe (table.surrounded front behind)))
    (start span : Nat) :
    Carries (Search.surrounded front behind) (vector.searchFrom probe start span)
      ((vector.surrounded front behind).searchFrom probe start span) := by
  induction span using Nat.strongRecOn generalizing start with
  | ind span ih =>
      rw [searchFrom, searchFrom]
      refine .choose (fun _ => .of_pure rfl) fun nonempty => ?_
      apply (vector.get_surrounded front behind (start + span / 2)).bind
      intro table
      apply (steady table).bind
      intro order
      cases order with
      | eq => exact .of_pure rfl
      | gt => exact (ih (span / 2) (by omega) start).bind fun _ => .of_pure rfl
      | lt =>
          exact (ih (span - (span / 2 + 1)) (by omega) (start + (span / 2 + 1))).bind
            fun _ => .of_pure rfl

theorem find_surrounded (vector : VectorView .table) (key : KeyField) (value : key.Value) :
    Carries (Option.map (TableView.surrounded front behind)) (vector.find key value)
      ((vector.surrounded front behind).find key value) :=
  (vector.searchFrom_surrounded front behind (key.orderWith_surrounded front behind value) 0
    vector.length).bind fun _ => .of_pure rfl

end VectorView

end Search

def Reading.surrounded (front behind : Bytes) : Reading → Reading
  | table view => table (view.surrounded front behind)
  | struct view => struct (view.surrounded front behind)
  | vector element view => vector element (view.surrounded front behind)
  | union value => union (value.surrounded front behind)
  | unionVector view => unionVector (view.surrounded front behind)
  | position value => position (front.length + value)
  | other => other

def Read.opensNested : Read → Bool
  | table (.nestedRoot _) => true
  | _ => false

section Chain

variable (front behind : Bytes)

theorem Reading.surrounded_ofView (kind : Kind) (view : kind.View) :
    (ofView kind view).surrounded front behind = ofView kind (kind.surrounded front behind view) := by
  cases kind <;> rfl

theorem Reading.surrounded_ofOption {α : Type} {ofView : α → Reading} {carry : α → α}
    (carries : ∀ view, (ofView view).surrounded front behind = ofView (carry view))
    (found : Option α) :
    (ofOption ofView found).surrounded front behind = ofOption ofView (found.map carry) := by
  cases found with
  | none => rfl
  | some view => exact carries view

theorem TableRead.on_surrounded (read : TableRead) (view : TableView) :
    Carries (if (Read.table read).opensNested then id else Reading.surrounded front behind)
      (read.on view) (read.on (view.surrounded front behind)) := by
  cases read with
  | entry slot => exact (view.entry_surrounded front behind slot).map fun _ => rfl
  | has slot => exact (view.has_surrounded front behind slot).map fun _ => rfl
  | length slot => exact (view.lengthAt_surrounded front behind slot).map fun _ => rfl
  | scalar slot type default =>
      exact (view.scalarAt_surrounded front behind slot type default).map fun _ => rfl
  | position slot =>
      exact (view.positionOf_surrounded front behind slot).map
        (Reading.surrounded_ofOption front behind fun _ => rfl)
  | value slot kind =>
      exact (view.valueAt_surrounded front behind slot kind).map
        (Reading.surrounded_ofOption front behind (Reading.surrounded_ofView front behind kind))
  | struct slot =>
      exact (view.structAt_surrounded front behind slot).map
        (Reading.surrounded_ofOption front behind fun _ => rfl)
  | union tagSlot tableSlot =>
      exact (view.unionAt_surrounded front behind tagSlot tableSlot).map
        (Reading.surrounded_ofOption front behind fun _ => rfl)
  | unionVector tagSlot tableSlot =>
      exact (view.unionVectorAt_surrounded front behind tagSlot tableSlot).map
        (Reading.surrounded_ofOption front behind fun _ => rfl)
  | nestedRoot slot => exact (view.nestedRoot_surrounded front behind slot).map fun _ => rfl

theorem StructRead.on_surrounded (read : StructRead) (view : StructView) :
    Carries (Reading.surrounded front behind) (read.on view)
      (read.on (view.surrounded front behind)) := by
  cases read with
  | scalar type displacement =>
      exact (view.scalarAt_surrounded front behind type displacement).map fun _ => rfl
  | struct displacement =>
      apply Carries.of_pure
      simp only [Reading.surrounded, StructView.structAt, StructView.surrounded, Nat.add_assoc]

theorem VectorRead.on_surrounded {element : Kind} (read : VectorRead) (view : VectorView element) :
    Carries (Reading.surrounded front behind) (read.on view)
      (read.on (view.surrounded front behind)) := by
  cases read with
  | length => exact .of_pure rfl
  | bytes => exact (view.bytes_surrounded front behind).map fun _ => rfl
  | element index =>
      exact (view.get_surrounded front behind index).map
        (Reading.surrounded_ofView front behind element)

theorem UnionVectorRead.on_surrounded (read : UnionVectorRead) (view : UnionVectorView) :
    Carries (Reading.surrounded front behind) (read.on view)
      (read.on (view.surrounded front behind)) := by
  cases read with
  | length => exact .of_pure rfl
  | tag index => exact (view.tags.get_surrounded front behind index).map fun _ => rfl
  | element index =>
      exact (view.get_surrounded front behind index).map
        (Reading.surrounded_ofOption front behind fun _ => rfl)

theorem Read.on_surrounded (read : Read) (start : Reading) :
    Carries (if read.opensNested then id else Reading.surrounded front behind) (read.on start)
      (read.on (start.surrounded front behind)) := by
  have nothing : Carries (if read.opensNested then id else Reading.surrounded front behind)
      (pure .nothing) (pure .nothing) := by
    apply Carries.of_pure
    split <;> rfl
  cases read with
  | table read =>
      cases start with
      | table view => exact read.on_surrounded front behind view
      | _ => exact nothing
  | struct read =>
      cases start with
      | struct view => exact read.on_surrounded front behind view
      | _ => exact nothing
  | vector read =>
      cases start with
      | vector element view => exact read.on_surrounded front behind view
      | _ => exact nothing
  | lookup key value =>
      cases start with
      | vector element view =>
          cases element with
          | table =>
              exact (view.find_surrounded front behind key value).map
                (Reading.surrounded_ofOption front behind fun _ => rfl)
          | _ => exact nothing
      | _ => exact nothing
  | union read =>
      cases start with
      | union value => exact .of_pure (by cases read <;> rfl)
      | _ => exact nothing
  | unionVector read =>
      cases start with
      | unionVector view => exact read.on_surrounded front behind view
      | _ => exact nothing

theorem readOn_surrounded (reads : List Read) (start : Reading) :
    Carries (if reads.any Read.opensNested then id else Reading.surrounded front behind)
      (readOn start reads) (readOn (start.surrounded front behind) reads) := by
  induction reads generalizing start with
  | nil => exact .of_pure rfl
  | cons read reads ih =>
      apply (read.on_surrounded front behind start).bind
      intro next
      rw [List.any_cons]
      cases read.opensNested with
      | false => exact ih next
      | true =>
          -- From here on both chains are the same one, in the nested buffer.
          intro found ended
          exact ended

theorem openObject_surrounded (kind : Kind) (buffer : Bytes) (position : Nat) :
    Carries (Reading.surrounded front behind) (openObject kind buffer position)
      (openObject kind (front ++ buffer ++ behind) (front.length + position)) := by
  cases kind with
  | scalar type => exact (loadScalar_surrounded front behind type position).map fun _ => rfl
  | string => exact (readString_surrounded front behind position).map fun _ => rfl
  | table => exact (TableView.load_surrounded front behind position).map fun _ => rfl
  | struct size => exact .of_pure rfl
  | vector element => exact (VectorView.load_surrounded front behind position).map fun _ => rfl

end Chain

/-- A chain of reads that comes to an end in a buffer comes to the same end wherever the buffer
stands: the same values, presence answers and search results, and the same views, moved with it. A
nested buffer is read on its own, so what is reached in one does not move. -/
theorem readObject_surrounded (front behind : Bytes) {kind : Kind} {buffer : Bytes}
    {position : Nat} {reads : List Read} {reading : Reading}
    (ran : readObject kind buffer position reads = .ok reading) :
    readObject kind (front ++ buffer ++ behind) (front.length + position) reads =
      .ok (if reads.any Read.opensNested then reading else reading.surrounded front behind) := by
  have chain : Carries (if reads.any Read.opensNested then id else Reading.surrounded front behind)
      (readObject kind buffer position reads)
      (readObject kind (front ++ buffer ++ behind) (front.length + position) reads) :=
    (openObject_surrounded front behind kind buffer position).bind
      (readOn_surrounded front behind reads)
  rw [chain reading ran]
  split <;> rfl

theorem readObject_surrounded_field :
    readObject .table [6, 0, 8, 0, 4, 0, 0, 0, 8, 0, 0, 0, 5, 0, 0, 0] 8
        [.table (.position 4)] = .ok (.position 12) ∧
      readObject .table
        ([1, 2, 3] ++ [6, 0, 8, 0, 4, 0, 0, 0, 8, 0, 0, 0, 5, 0, 0, 0] ++ [9, 9])
        ([1, 2, 3].length + 8) [.table (.position 4)] = .ok (.position 15) := by
  have alone : readObject .table [6, 0, 8, 0, 4, 0, 0, 0, 8, 0, 0, 0, 5, 0, 0, 0] 8
      [.table (.position 4)] = .ok (.position 12) := rfl
  exact ⟨alone, readObject_surrounded [1, 2, 3] [9, 9] alone⟩

end WireTables
