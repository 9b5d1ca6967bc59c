import WireTables.Proofs.Document.Basic

namespace WireTables

namespace VectorShown

variable {element : Kind} {vector : VectorView element} {items : List element.View}

theorem moved (front : Bytes) (shown : VectorShown vector items) :
    VectorShown (vector.moved front) (items.map (element.moved front)) := by
  apply of_follow
  · rw [List.length_map]
    exact shown.length
  · intro index item reached
    rw [List.getElem?_map, Option.map_eq_some_iff] at reached
    rcases reached with ⟨original, reached, rfl⟩
    have start : (vector.moved front).elementStart index =
        front.length + vector.elementStart index := by
      simp only [VectorView.elementStart, VectorView.moved, Nat.add_assoc]
    rw [VectorView.followElement, start]
    exact element.follow_append_front front (shown.follow reached)

theorem moved_values (front : Bytes) (shown : VectorShown vector items)
    (still : ∀ item, element.moved front item = item) : VectorShown (vector.moved front) items := by
  have moved := shown.moved front
  rwa [List.map_id'' still] at moved

end VectorShown

theorem StructShown.moved (front : Bytes) {view : StructView} {displacement : Nat}
    {members : List Member} (shown : StructShown view displacement members) :
    StructShown (view.moved front) displacement members := by
  induction members generalizing displacement with
  | nil => trivial
  | cons member members ih =>
      cases member with
      | scalar type value =>
          rcases shown with ⟨read, rest⟩
          exact ⟨(view.scalarAt_moved front type displacement).trans read, ih rest⟩
      | padding count => exact ih shown

variable (front : Bytes) {view : TableView}

theorem Lacks.moved {slot : Slot} (lacks : Lacks view slot) : Lacks (view.moved front) slot where
  has := (view.has_moved front slot).trans lacks.has
  scalarAt type default :=
    (view.scalarAt_moved front slot type default).trans (lacks.scalarAt type default)
  valueAt kind := TableView.valueAt_moved front kind (lacks.valueAt kind)
  structAt := TableView.structAt_moved front lacks.structAt
  lengthAt := (view.lengthAt_moved front slot).trans lacks.lengthAt
  unionAt tableSlot := TableView.unionAt_moved front (lacks.unionAt tableSlot)
  unionVectorAt tableSlot := TableView.unionVectorAt_moved front (lacks.unionVectorAt tableSlot)

theorem UnionValue.moved_choice (tag : UInt8) (child : TableView) :
    Option.map (UnionValue.moved front) (if tag = 0 then none else some ⟨tag, child⟩) =
      if tag = 0 then none else some ⟨tag, child.moved front⟩ := by
  split <;> rfl

theorem Outline.moved {document : Document} (outline : Outline view document) :
    Outline (view.moved front) document where
  lacks slot index place missing := (outline.lacks slot index place missing).moved front
  union tagSlot tableSlot tag inner tagged held := by
    obtain ⟨child, read, found⟩ := outline.union tagSlot tableSlot tag inner tagged held
    refine ⟨child.moved front, TableView.valueAt_moved front .table read, ?_⟩
    rw [← UnionValue.moved_choice]
    exact TableView.unionAt_moved front found
  unionVector tagSlot tableSlot tags inner tagged held := by
    obtain ⟨vector, children, found, read, shown, length, each⟩ :=
      outline.unionVector tagSlot tableSlot tags inner tagged held
    refine ⟨vector.moved front, children.map (TableView.moved front),
      TableView.unionVectorAt_moved front found,
      TableView.valueAt_moved front (.vector .table) read, shown.moved front, length, ?_⟩
    intro index tag child taggedAt reached
    rw [List.getElem?_map, Option.map_eq_some_iff] at reached
    rcases reached with ⟨original, reached, rfl⟩
    rw [← UnionValue.moved_choice]
    exact UnionVectorView.get_moved front (each index tag original taggedAt reached)

section Shown

variable (forced : Bool)

mutual

theorem Field.shownAt_moved {view : TableView} {slot : Slot} :
    (field : Field) → field.ShownAt forced view slot → field.ShownAt forced (view.moved front) slot
  | .scalar type _ default, ⟨read, found⟩ =>
      ⟨(view.scalarAt_moved front slot type default).trans read,
        (view.scalarAt?_moved front slot type).trans found⟩
  | .optional type _, ⟨found, read⟩ =>
      ⟨(view.scalarAt?_moved front slot type).trans found,
        fun default => (view.scalarAt_moved front slot type default).trans (read default)⟩
  | .string _, ⟨read, length⟩ =>
      ⟨(view.stringAt_moved front slot).trans read, (view.lengthAt_moved front slot).trans length⟩
  | .scalars type _, ⟨vector, read, length, shown, bytes⟩ =>
      ⟨vector.moved front, TableView.valueAt_moved front (.vector (.scalar type)) read,
        (view.lengthAt_moved front slot).trans length, shown.moved_values front (fun _ => rfl),
        (vector.bytes_moved front).trans bytes⟩
  | .strings _, ⟨vector, read, length, shown⟩ =>
      ⟨vector.moved front, TableView.valueAt_moved front (.vector .string) read,
        (view.lengthAt_moved front slot).trans length, shown.moved_values front (fun _ => rfl)⟩
  | .struct _ _ _, ⟨struct, read, shown⟩ =>
      ⟨struct.moved front, TableView.structAt_moved front read, shown.moved front⟩
  | .table document, ⟨child, read, outline, fields⟩ =>
      ⟨child.moved front, TableView.valueAt_moved front .table read, outline.moved front,
        fieldsShown_moved document fields⟩
  | .tables documents, ⟨vector, children, read, length, shown, tables⟩ =>
      ⟨vector.moved front, children.map (TableView.moved front),
        TableView.valueAt_moved front (.vector .table) read,
        (view.lengthAt_moved front slot).trans length, shown.moved front,
        tablesShown_moved documents tables⟩

theorem fieldsShown_moved {view : TableView} :
    (document : List (Slot × Field)) → FieldsShown forced view document →
      FieldsShown forced (view.moved front) document
  | [], _ => trivial
  | (slot, field) :: fields, ⟨⟨has, shown⟩, rest⟩ =>
      ⟨⟨(view.has_moved front slot).trans has, field.shownAt_moved shown⟩,
        fieldsShown_moved fields rest⟩

theorem tablesShown_moved {views : List TableView} :
    (documents : List (List (Slot × Field))) → TablesShown forced views documents →
      TablesShown forced (views.map (TableView.moved front)) documents
  | [], shown => by
      cases views with
      | nil => trivial
      | cons view views => exact shown.elim
  | document :: documents, shown => by
      cases views with
      | nil => exact shown.elim
      | cons view views =>
          rcases shown with ⟨⟨outline, fields⟩, rest⟩
          exact ⟨⟨outline.moved front, fieldsShown_moved document fields⟩,
            tablesShown_moved documents rest⟩

end

theorem TableShown.moved {document : Document} (shown : TableShown forced view document) :
    TableShown forced (view.moved front) document :=
  ⟨shown.1.moved front, fieldsShown_moved front forced document shown.2⟩

end Shown

end WireTables
