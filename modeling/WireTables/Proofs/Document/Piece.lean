import WireTables.Proofs.Builder.Object
import WireTables.Proofs.Document.Moved

namespace WireTables

inductive Piece
  | string (text : Bytes)
  | scalars (type : ScalarType) (items : List type.Value)
  | strings (items : List Bytes)
  | table (document : Document)
  | tables (documents : List Document)

def TableView.Contained (view : TableView) : Prop :=
  vtableHeaderWidth ≤ view.vtableSize ∧ view.vtableBase + view.vtableSize ≤ view.buffer.length

theorem TableView.Contained.moved {view : TableView} (front : Bytes) (contained : view.Contained) :
    (view.moved front).Contained := by
  refine ⟨contained.1, ?_⟩
  have inside := contained.2
  simp only [TableView.moved, List.length_append]
  omega

section Stored

variable (forced : Bool)

def Piece.ReadAt (bytes : Bytes) (position : Nat) : Piece → Prop
  | .string text =>
      readString bytes position = .ok text ∧
        (·.toNat) <$> loadScalar .uint32 bytes position = .ok text.length
  | .scalars type items =>
      ∃ vector : VectorView (.scalar type), VectorView.load bytes position = .ok vector ∧
        VectorShown vector items ∧ vector.bytes = .ok (items.flatMap type.encode)
  | .strings items =>
      ∃ vector : VectorView .string, VectorView.load bytes position = .ok vector ∧
        VectorShown vector items
  | .table document =>
      ∃ view, TableView.load bytes position = .ok view ∧ view.Contained ∧
        TableShown forced view document
  | .tables documents =>
      ∃ (vector : VectorView .table) (children : List TableView),
        VectorView.load bytes position = .ok vector ∧ VectorShown vector children ∧
        TablesShown forced children documents

structure Stored (bytes : Bytes) (distance : Nat) (piece : Piece) : Prop where
  inside : distance ≤ bytes.length
  read : piece.ReadAt forced bytes (bytes.length - distance)

variable {forced}

theorem Piece.readAt_append_front {bytes : Bytes} {position : Nat} (front : Bytes)
    {piece : Piece} (read : piece.ReadAt forced bytes position) :
    piece.ReadAt forced (front ++ bytes) (front.length + position) := by
  cases piece with
  | string text =>
      rcases read with ⟨read, length⟩
      refine ⟨(readString_append_front front bytes position).trans read, ?_⟩
      rw [loadScalar_append_front]
      exact length
  | scalars type items =>
      rcases read with ⟨vector, loaded, shown, payload⟩
      refine ⟨vector.moved front, ?_, shown.moved_values front (fun _ => rfl),
        (vector.bytes_moved front).trans payload⟩
      rw [VectorView.load_append_front, loaded]
      rfl
  | strings items =>
      rcases read with ⟨vector, loaded, shown⟩
      refine ⟨vector.moved front, ?_, shown.moved_values front (fun _ => rfl)⟩
      rw [VectorView.load_append_front, loaded]
      rfl
  | table document =>
      rcases read with ⟨view, loaded, contained, shown⟩
      exact ⟨view.moved front, TableView.load_append_front front loaded, contained.moved front,
        shown.moved front forced⟩
  | tables documents =>
      rcases read with ⟨vector, children, loaded, shown, tables⟩
      refine ⟨vector.moved front, children.map (TableView.moved front), ?_, shown.moved front,
        tablesShown_moved front forced documents tables⟩
      rw [VectorView.load_append_front, loaded]
      rfl

theorem Stored.append_front {bytes : Bytes} {distance : Nat} {piece : Piece} (front : Bytes)
    (stored : Stored forced bytes distance piece) : Stored forced (front ++ bytes) distance piece := by
  constructor
  · rw [List.length_append]
    exact Nat.le_add_left_of_le stored.inside
  · rw [length_append_sub front stored.inside]
    exact Piece.readAt_append_front front stored.read

theorem Stored.of_suffix {bytes whole : Bytes} {distance : Nat} {piece : Piece}
    (suffix : bytes <:+ whole) (stored : Stored forced bytes distance piece) :
    Stored forced whole distance piece := by
  rcases suffix with ⟨front, rfl⟩
  exact stored.append_front front

end Stored

section Written

variable {forced : Bool} {bytes : Bytes} {distance : Nat}

theorem loadScalar_of_count {count : Nat} {payload : Bytes} (small : bytes.length ≤ maxBufferSize)
    (covered : count ≤ payload.length)
    (stands : StandsAt bytes distance (ScalarType.uint32.encode (UInt32.ofNat count) ++ payload)) :
    loadScalar .uint32 bytes (bytes.length - distance) = .ok (UInt32.ofNat count) ∧
      (UInt32.ofNat count).toNat = count := by
  have enough := stands.length_le
  have inside := stands.distance_le
  rw [List.length_append] at enough
  have bounded : count ≤ maxBufferSize := by omega
  exact ⟨stands.beginning.load_eq, toNat_ofNat_of_size bounded⟩

theorem payload_of_count {count : Nat} {payload : Bytes}
    (stands : StandsAt bytes distance (ScalarType.uint32.encode (UInt32.ofNat count) ++ payload)) :
    StandsAt bytes (distance - referenceWidth) payload ∧
      bytes.length - distance + referenceWidth = bytes.length - (distance - referenceWidth) := by
  have enough := stands.length_le
  have inside := stands.distance_le
  rw [List.length_append, ScalarType.length_encode] at enough
  have wide : ScalarType.uint32.width = referenceWidth := rfl
  refine ⟨?_, by omega⟩
  have rest := stands.rest
  rwa [ScalarType.length_encode] at rest

theorem stored_string {text : Bytes} (small : bytes.length ≤ maxBufferSize)
    (stands : StandsAt bytes distance
      (ScalarType.uint32.encode (UInt32.ofNat text.length) ++ text)) :
    Stored forced bytes distance (.string text) := by
  obtain ⟨loaded, count⟩ := loadScalar_of_count small (Nat.le_refl _) stands
  obtain ⟨payload, start⟩ := payload_of_count stands
  refine ⟨stands.distance_le, ?_, ?_⟩
  · refine read_bind.mpr ⟨_, loaded, ?_⟩
    rw [count, start]
    exact payload.slice_eq
  · rw [loaded]
    exact congrArg Except.ok count

theorem load_of_count {element : Kind} {count : Nat} {payload : Bytes}
    (small : bytes.length ≤ maxBufferSize) (covered : count ≤ payload.length)
    (stands : StandsAt bytes distance (ScalarType.uint32.encode (UInt32.ofNat count) ++ payload)) :
    VectorView.load bytes (bytes.length - distance) =
      .ok (⟨bytes, bytes.length - distance, count⟩ : VectorView element) := by
  obtain ⟨loaded, same⟩ := loadScalar_of_count small covered stands
  refine read_bind.mpr ⟨_, loaded, ?_⟩
  rw [same]
  rfl

theorem stored_scalars {type : ScalarType} {items : List type.Value}
    (small : bytes.length ≤ maxBufferSize)
    (stands : StandsAt bytes distance
      (ScalarType.uint32.encode (UInt32.ofNat items.length) ++ items.flatMap type.encode)) :
    Stored forced bytes distance (.scalars type items) := by
  have covered : items.length ≤ (items.flatMap type.encode).length := by
    rw [length_flatMap_of_width type.length_encode]
    exact Nat.le_mul_of_pos_right _ type.width_pos
  obtain ⟨payload, start⟩ := payload_of_count stands
  refine ⟨stands.distance_le, _, load_of_count small covered stands, ?_, ?_⟩
  · refine VectorShown.of_follow rfl fun index item reached => ?_
    have block := payload.block_at type.length_encode reached
    have blockEnough := block.length_le
    have inside := payload.distance_le
    rw [ScalarType.length_encode] at blockEnough
    have width := type.width_pos
    have place : bytes.length - distance + referenceWidth + index * type.width =
        bytes.length - (distance - referenceWidth - index * type.width) := by omega
    change loadScalar type bytes (bytes.length - distance + referenceWidth + index * type.width) = _
    rw [place]
    exact block.load_eq
  · change slice bytes (bytes.length - distance + referenceWidth) (items.length * type.width) = _
    rw [start, ← length_flatMap_of_width type.length_encode]
    exact payload.slice_eq

theorem vector_of_references {kind : Kind} (wide : kind.width = referenceWidth) {count : Nat}
    {payload : Bytes} {views : List kind.View} (small : bytes.length ≤ maxBufferSize)
    (length : payload.length = count * referenceWidth) (counted : count = views.length)
    (stands : StandsAt bytes distance (ScalarType.uint32.encode (UInt32.ofNat count) ++ payload))
    (each : ∀ (index : Nat) (view : kind.View), views[index]? = some view →
      kind.follow bytes
        (bytes.length - (distance - (referenceWidth + index * referenceWidth))) = .ok view) :
    ∃ vector : VectorView kind, VectorView.load bytes (bytes.length - distance) = .ok vector ∧
      VectorShown vector views := by
  have covered : count ≤ payload.length := by
    rw [length]
    exact Nat.le_mul_of_pos_right _ (by decide)
  refine ⟨_, load_of_count small covered stands, VectorShown.of_follow counted ?_⟩
  intro index view reached
  obtain ⟨inside, -⟩ := List.getElem?_eq_some_iff.mp reached
  have enough := stands.length_le
  have within := stands.distance_le
  rw [List.length_append, ScalarType.length_encode, length] at enough
  have before : (index + 1) * referenceWidth ≤ count * referenceWidth :=
    Nat.mul_le_mul_right _ (counted ▸ inside)
  rw [Nat.succ_mul] at before
  have place : bytes.length - distance + referenceWidth + index * kind.width =
      bytes.length - (distance - (referenceWidth + index * referenceWidth)) := by
    have counter : ScalarType.uint32.width = 4 := rfl
    rw [wide]
    simp only [referenceWidth] at enough before ⊢
    omega
  change kind.follow bytes
    (bytes.length - distance + referenceWidth + index * kind.width) = _
  rw [place]
  exact each index view reached

theorem stored_strings {items : List (Offset .string × Bytes)} {payload : Bytes}
    (small : bytes.length ≤ maxBufferSize)
    (length : payload.length = items.length * referenceWidth)
    (stands : StandsAt bytes distance
      (ScalarType.uint32.encode (UInt32.ofNat items.length) ++ payload))
    (refers : ∀ (index : Nat) (item : Offset .string × Bytes), items[index]? = some item →
      RefersTo bytes (distance - (referenceWidth + index * referenceWidth)) item.1.value.toNat)
    (stored : ∀ item ∈ items, Stored forced bytes item.1.value.toNat (.string item.2)) :
    Stored forced bytes distance (.strings (items.map Prod.snd)) := by
  refine ⟨stands.distance_le,
    vector_of_references rfl small length (List.length_map _).symm stands ?_⟩
  intro index view reached
  rw [List.getElem?_map, Option.map_eq_some_iff] at reached
  rcases reached with ⟨item, reached, rfl⟩
  exact read_bind.mpr ⟨_, (refers index item reached).follow,
    (stored item (List.mem_of_getElem? reached)).read.1⟩

theorem exists_children {items : List (Offset .table × Document)}
    (stored : ∀ item ∈ items, Stored forced bytes item.1.value.toNat (.table item.2)) :
    ∃ children : List TableView, TablesShown forced children (items.map Prod.snd) ∧
      items.length = children.length ∧
      ∀ (index : Nat) (item : Offset .table × Document) (child : TableView),
        items[index]? = some item → children[index]? = some child →
          TableView.load bytes (bytes.length - item.1.value.toNat) = .ok child := by
  induction items with
  | nil => exact ⟨[], trivial, rfl, fun index item child reached => by cases reached⟩
  | cons item items ih =>
      rw [List.forall_mem_cons] at stored
      obtain ⟨children, shown, length, loads⟩ := ih stored.2
      rcases stored.1.read with ⟨child, loaded, -, table⟩
      refine ⟨child :: children, ⟨table, shown⟩, congrArg Nat.succ length, ?_⟩
      intro index found view reached at_
      cases index with
      | zero =>
          cases reached
          cases at_
          exact loaded
      | succ index => exact loads index found view reached at_

theorem stored_tables {items : List (Offset .table × Document)} {payload : Bytes}
    (small : bytes.length ≤ maxBufferSize)
    (length : payload.length = items.length * referenceWidth)
    (stands : StandsAt bytes distance
      (ScalarType.uint32.encode (UInt32.ofNat items.length) ++ payload))
    (refers : ∀ (index : Nat) (item : Offset .table × Document), items[index]? = some item →
      RefersTo bytes (distance - (referenceWidth + index * referenceWidth)) item.1.value.toNat)
    (stored : ∀ item ∈ items, Stored forced bytes item.1.value.toNat (.table item.2)) :
    Stored forced bytes distance (.tables (items.map Prod.snd)) := by
  obtain ⟨children, shown, counted, loads⟩ := exists_children stored
  have each : ∀ (index : Nat) (view : TableView), children[index]? = some view →
      Kind.table.follow bytes
        (bytes.length - (distance - (referenceWidth + index * referenceWidth))) = .ok view := by
    intro index view reached
    obtain ⟨inside, -⟩ := List.getElem?_eq_some_iff.mp reached
    have itemAt := List.getElem?_eq_getElem (counted ▸ inside)
    exact read_bind.mpr ⟨_, (refers index _ itemAt).follow, loads index _ view itemAt reached⟩
  obtain ⟨vector, loaded, listed⟩ : ∃ vector : VectorView .table,
      VectorView.load bytes (bytes.length - distance) = .ok vector ∧ VectorShown vector children :=
    vector_of_references rfl small length counted stands each
  exact ⟨stands.distance_le, vector, children, loaded, listed, shown⟩

end Written

end WireTables
