import Mathlib.Algebra.Ring.Nat
import WireTables.Proofs.View.Elements

/-!
Documents, and what it means that a table shows one. A document gives a field to each of some slots;
its tables and vectors of tables are documents again. A union is a tag with the default zero in one
slot beside a table in another, and a vector of unions is a vector of tags beside one of tables.
-/

namespace WireTables

inductive Member
  | scalar (type : ScalarType) (value : type.Value)
  | padding (count : Nat)

namespace Member

def width : Member → Nat
  | scalar type _ => type.width
  | padding count => count

def bytes : Member → Bytes
  | scalar type value => type.encode value
  | padding count => zeros count

theorem length_bytes (member : Member) : member.bytes.length = member.width := by
  cases member with
  | scalar type value => exact type.length_encode value
  | padding count => exact length_zeros count

def widthOf (members : List Member) : Nat := (members.map width).sum

end Member

/-- A struct takes some bytes. One of no bytes, stored before anything was written, could not be
told from a field that is absent (`Account.ShownBy.of_struct`). -/
inductive Field
  | scalar (type : ScalarType) (value default : type.Value)
  | optional (type : ScalarType) (value : Option type.Value)
  | string (bytes : Bytes)
  | scalars (type : ScalarType) (items : List type.Value)
  | strings (items : List Bytes)
  | struct (alignment : Nat) (members : List Member) (sized : Member.widthOf members ≠ 0)
  | table (document : List (Slot × Field))
  | tables (documents : List (List (Slot × Field)))

abbrev Document := List (Slot × Field)

/-- Whether the field takes a place in its table: a scalar that equals its default does so only when
defaults are forced, and an optional scalar when it has a value. -/
def Field.stored (forced : Bool) : Field → Bool
  | .scalar type value default => forced || !type.sameEncoding value default
  | .optional _ value => value.isSome
  | _ => true

def StructShown (view : StructView) : Nat → List Member → Prop
  | _, [] => True
  | displacement, .scalar type value :: members =>
      view.scalarAt type displacement = .ok value ∧
        StructShown view (displacement + type.width) members
  | displacement, .padding count :: members => StructShown view (displacement + count) members

/-- Every reader finds that the table has nothing at the slot. -/
structure Lacks (view : TableView) (slot : Slot) : Prop where
  has : view.has slot = .ok false
  scalarAt : ∀ (type : ScalarType) (default : type.Value),
    view.scalarAt slot type default = .ok default
  valueAt : ∀ kind : Kind, view.valueAt slot kind = .ok none
  structAt : view.structAt slot = .ok none
  lengthAt : view.lengthAt slot = .ok 0
  unionAt : ∀ tableSlot : Slot, view.unionAt slot tableSlot = .ok none
  unionVectorAt : ∀ tableSlot : Slot, view.unionVectorAt slot tableSlot = .ok none

/-- What a table shows beside its fields: that it has no others, and the unions among them. -/
structure Outline (view : TableView) (document : Document) : Prop where
  lacks : ∀ (slot : Slot) (index : Nat), indexOfSlot slot = some index →
    (∀ field : Field, (slot, field) ∉ document) → Lacks view slot
  union : ∀ (tagSlot tableSlot : Slot) (tag : UInt8) (inner : Document),
    (tagSlot, .scalar .uint8 tag (0 : UInt8)) ∈ document → (tableSlot, .table inner) ∈ document →
      ∃ child, view.tableAt tableSlot = .ok (some child) ∧
        view.unionAt tagSlot tableSlot = .ok (if tag = 0 then none else some ⟨tag, child⟩)
  unionVector : ∀ (tagSlot tableSlot : Slot) (tags : List UInt8) (inner : List Document),
    (tagSlot, .scalars .uint8 tags) ∈ document → (tableSlot, .tables inner) ∈ document →
      ∃ (vector : UnionVectorView) (children : List TableView),
        view.unionVectorAt tagSlot tableSlot = .ok (some vector) ∧
        view.vectorAt tableSlot .table = .ok (some vector.tables) ∧
        VectorShown vector.tables children ∧ vector.length = tags.length ∧
        ∀ (index : Nat) (tag : UInt8) (child : TableView), tags[index]? = some tag →
          children[index]? = some child →
            vector.get index = .ok (if tag = 0 then none else some ⟨tag, child⟩)

section Shown

variable (forced : Bool)

mutual

/-- The readers of the field's kind find the field at the slot. -/
def Field.ShownAt (view : TableView) (slot : Slot) : Field → Prop
  | .scalar type value default =>
      view.scalarAt slot type default = .ok value ∧
        view.scalarAt? slot type =
          .ok (if (Field.scalar type value default).stored forced then some value else none)
  | .optional type value =>
      view.scalarAt? slot type = .ok value ∧
        ∀ default, view.scalarAt slot type default = .ok (value.getD default)
  | .string bytes =>
      view.stringAt slot = .ok (some bytes) ∧ view.lengthAt slot = .ok bytes.length
  | .scalars type items =>
      ∃ vector, view.vectorAt slot (.scalar type) = .ok (some vector) ∧
        view.lengthAt slot = .ok items.length ∧ VectorShown vector items ∧
        vector.bytes = .ok (items.flatMap type.encode)
  | .strings items =>
      ∃ vector, view.vectorAt slot .string = .ok (some vector) ∧
        view.lengthAt slot = .ok items.length ∧ VectorShown vector items
  | .struct _ members _ =>
      ∃ struct, view.structAt slot = .ok (some struct) ∧ StructShown struct 0 members
  | .table document =>
      ∃ child, view.tableAt slot = .ok (some child) ∧ Outline child document ∧
        FieldsShown child document
  | .tables documents =>
      ∃ vector children, view.vectorAt slot .table = .ok (some vector) ∧
        view.lengthAt slot = .ok documents.length ∧ VectorShown vector children ∧
        TablesShown children documents
termination_by structural field => field

def FieldsShown (view : TableView) : List (Slot × Field) → Prop
  | [] => True
  | (slot, field) :: fields =>
      (view.has slot = .ok (field.stored forced) ∧ field.ShownAt view slot) ∧
        FieldsShown view fields
termination_by structural fields => fields

def TablesShown : List TableView → List (List (Slot × Field)) → Prop
  | [], [] => True
  | view :: views, document :: documents =>
      (Outline view document ∧ FieldsShown view document) ∧ TablesShown views documents
  | _, _ => False
termination_by structural _ documents => documents

end

/-- All that can be read through the table, down to the last of the tables below it, is the
document. -/
def TableShown (view : TableView) (document : Document) : Prop :=
  Outline view document ∧ FieldsShown forced view document

end Shown

end WireTables
