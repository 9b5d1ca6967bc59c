import WireTables.Proofs.Bytes.Standing
import WireTables.View.Root
import WireTables.View.Search

/-!
Reading a buffer that stands at the end of a longer one. No position is absolute, so what comes in
front of a buffer moves its views and changes nothing that is read through them. Only a vtable may
lie before its table, so a table that reads to an end in the shorter buffer is the same table in the
longer one, while the reads that lead upwards agree even in their faults.
-/

namespace WireTables

theorem ok_of_toOption {ε α : Type} {result : Except ε α} {value : α}
    (ended : result.toOption = some value) : result = .ok value := by
  cases result with
  | error cause => cases ended
  | ok found =>
      cases ended
      rfl

theorem read_map {ε α β : Type} {read : Except ε α} {change : α → β} {result : β} :
    (change <$> read) = .ok result ↔ ∃ value, read = .ok value ∧ change value = result := by
  cases read with
  | error cause => simp [Functor.map, Except.map]
  | ok value => simp [Functor.map, Except.map]

def TableView.moved (front : Bytes) (view : TableView) : TableView :=
  ⟨front ++ view.buffer, front.length + view.position, front.length + view.vtableBase,
    view.vtableSize⟩

def StructView.moved (front : Bytes) (view : StructView) : StructView :=
  ⟨front ++ view.buffer, front.length + view.position⟩

def VectorView.moved {element : Kind} (front : Bytes) (view : VectorView element) :
    VectorView element :=
  ⟨front ++ view.buffer, front.length + view.position, view.length⟩

def UnionValue.moved (front : Bytes) (union : UnionValue) : UnionValue :=
  ⟨union.tag, union.table.moved front⟩

def UnionVectorView.moved (front : Bytes) (view : UnionVectorView) : UnionVectorView :=
  ⟨view.tags.moved front, view.tables.moved front⟩

def Kind.moved (front : Bytes) : (kind : Kind) → kind.View → kind.View
  | .scalar _, value => value
  | .string, bytes => bytes
  | .table, view => view.moved front
  | .struct _, view => view.moved front
  | .vector _, view => view.moved front

section Buffers

variable (front : Bytes) {buffer : Bytes} {position : Nat}

theorem followReference_append_front (buffer : Bytes) (position : Nat) :
    followReference (front ++ buffer) (front.length + position) =
      (front.length + ·) <$> followReference buffer position := by
  simp only [followReference]
  rw [loadScalar_append_front]
  cases loadScalar .uint32 buffer position with
  | error cause => rfl
  | ok distance => exact congrArg Except.ok (Nat.add_assoc ..)

theorem readString_append_front (buffer : Bytes) (position : Nat) :
    readString (front ++ buffer) (front.length + position) = readString buffer position := by
  simp only [readString]
  rw [loadScalar_append_front]
  simp only [Nat.add_assoc, slice_append_front]

theorem VectorView.load_append_front {element : Kind} (buffer : Bytes) (position : Nat) :
    (VectorView.load (front ++ buffer) (front.length + position) : Except Fault (VectorView element)) =
      VectorView.moved front <$> VectorView.load buffer position := by
  simp only [VectorView.load]
  rw [loadScalar_append_front]
  cases loadScalar .uint32 buffer position <;> rfl

theorem locateVTable_eq_ok_iff {vtable : Nat} :
    locateVTable buffer position = .ok vtable ↔
      ∃ distance, loadScalar .int32 buffer position = .ok distance ∧
        (position : Int) - distance.toInt = vtable := by
  constructor
  · intro located
    rcases read_bind.mp located with ⟨distance, loaded, checked⟩
    dsimp only at checked
    split at checked
    case isTrue => cases checked
    case isFalse inside =>
      cases checked
      exact ⟨distance, loaded, (Int.toNat_of_nonneg (Int.not_lt.mp inside)).symm⟩
  · rintro ⟨distance, loaded, place⟩
    refine read_bind.mpr ⟨distance, loaded, ?_⟩
    dsimp only
    rw [place, if_neg (Int.not_lt.mpr (Int.natCast_nonneg vtable))]
    rfl

theorem locateVTable_append_front {vtable : Nat} (located : locateVTable buffer position = .ok vtable) :
    locateVTable (front ++ buffer) (front.length + position) = .ok (front.length + vtable) := by
  rw [locateVTable_eq_ok_iff, loadScalar_append_front]
  rcases locateVTable_eq_ok_iff.mp located with ⟨distance, loaded, place⟩
  exact ⟨distance, loaded, by omega⟩

theorem TableView.load_eq_ok_iff {view : TableView} :
    load buffer position = .ok view ↔ ∃ base size, locateVTable buffer position = .ok base ∧
      loadScalar .uint16 buffer base = .ok size ∧ view = ⟨buffer, position, base, size.toNat⟩ := by
  simp only [load, VTable.ofTable, VTable.size, bind_assoc, pure_bind]
  constructor
  · intro loaded
    rcases read_bind.mp loaded with ⟨base, located, loaded⟩
    rcases read_bind.mp loaded with ⟨size, sized, same⟩
    cases same
    exact ⟨base, size, located, sized, rfl⟩
  · rintro ⟨base, size, located, sized, rfl⟩
    exact read_bind.mpr ⟨base, located, read_bind.mpr ⟨size, sized, rfl⟩⟩

theorem TableView.load_append_front {view : TableView} (loaded : load buffer position = .ok view) :
    load (front ++ buffer) (front.length + position) = .ok (view.moved front) := by
  rcases load_eq_ok_iff.mp loaded with ⟨base, size, located, sized, rfl⟩
  apply load_eq_ok_iff.mpr
  refine ⟨_, size, locateVTable_append_front front located, ?_, rfl⟩
  rw [loadScalar_append_front, sized]

theorem Kind.follow_append_front (kind : Kind) {found : kind.View}
    (followed : kind.follow buffer position = .ok found) :
    kind.follow (front ++ buffer) (front.length + position) = .ok (kind.moved front found) := by
  cases kind with
  | scalar type =>
      exact (loadScalar_append_front type front buffer position).trans followed
  | struct size =>
      cases followed
      rfl
  | string =>
      rcases read_bind.mp followed with ⟨target, led, read⟩
      simp only [follow, followReference_append_front, led]
      exact (readString_append_front front buffer target).trans read
  | table =>
      rcases read_bind.mp followed with ⟨target, led, read⟩
      simp only [follow, followReference_append_front, led]
      exact TableView.load_append_front front read
  | vector element =>
      rcases read_bind.mp followed with ⟨target, led, read⟩
      simp only [follow, followReference_append_front, led]
      change VectorView.load (front ++ buffer) (front.length + target) = _
      rw [VectorView.load_append_front, read]
      rfl

end Buffers

namespace TableView

variable (front : Bytes) {table : TableView} {slot : Slot}

theorem entry_moved (table : TableView) (slot : Slot) :
    (table.moved front).entry slot = table.entry slot := by
  simp only [entry, moved, Nat.add_assoc, loadScalar_append_front]

theorem has_moved (table : TableView) (slot : Slot) :
    (table.moved front).has slot = table.has slot := by
  rw [has, entry_moved, has]

theorem lookup_moved {α : Type} {absent result : α} {read movedRead : Nat → Except Fault α}
    (move : α → α) (reads : ∀ position result, read position = .ok result →
      movedRead (front.length + position) = .ok (move result))
    (looked : table.lookup slot absent read = .ok result) :
    (table.moved front).lookup slot (move absent) movedRead = .ok (move result) := by
  simp only [lookup] at looked ⊢
  rw [entry_moved]
  rcases read_bind.mp looked with ⟨offset, entered, looked⟩
  rw [entered]
  change (if offset = 0 then _ else _) = _
  split at looked
  case isTrue missing =>
    cases looked
    rw [if_pos missing]
    rfl
  case isFalse present =>
    rw [if_neg present]
    change movedRead (front.length + table.position + offset.toNat) = _
    rw [Nat.add_assoc]
    exact reads _ _ looked

theorem lookup_moved_eq {α : Type} {absent : α} {read movedRead : Nat → Except Fault α}
    (reads : ∀ position, movedRead (front.length + position) = read position) :
    (table.moved front).lookup slot absent movedRead = table.lookup slot absent read := by
  simp only [lookup]
  rw [entry_moved]
  cases table.entry slot with
  | error cause => rfl
  | ok offset =>
      change (if offset = 0 then _ else movedRead (front.length + table.position + _)) =
        (if offset = 0 then _ else _)
      rw [Nat.add_assoc, reads]

theorem scalarAt_moved (table : TableView) (slot : Slot) (type : ScalarType)
    (default : type.Value) :
    (table.moved front).scalarAt slot type default = table.scalarAt slot type default :=
  lookup_moved_eq front fun position => loadScalar_append_front type front table.buffer position

theorem scalarAt?_moved (table : TableView) (slot : Slot) (type : ScalarType) :
    (table.moved front).scalarAt? slot type = table.scalarAt? slot type := by
  simp only [scalarAt?, valueAt]
  apply lookup_moved_eq front
  intro position
  exact congrArg (some <$> ·) (loadScalar_append_front type front table.buffer position)

theorem stringAt_moved (table : TableView) (slot : Slot) :
    (table.moved front).stringAt slot = table.stringAt slot := by
  simp only [stringAt, valueAt]
  apply lookup_moved_eq front
  intro position
  change some <$> (followReference (front ++ table.buffer) _ >>=
    readString (front ++ table.buffer)) =
      some <$> (followReference table.buffer position >>= readString table.buffer)
  rw [followReference_append_front]
  cases followReference table.buffer position with
  | error cause => rfl
  | ok target => exact congrArg (some <$> ·) (readString_append_front front table.buffer target)

theorem lengthAt_moved (table : TableView) (slot : Slot) :
    (table.moved front).lengthAt slot = table.lengthAt slot := by
  simp only [lengthAt]
  apply lookup_moved_eq front
  intro position
  change (do
    let length ← loadScalar .uint32 (front ++ table.buffer)
      (← followReference (front ++ table.buffer) _)
    pure length.toNat) = _
  rw [followReference_append_front]
  cases followReference table.buffer position with
  | error cause => rfl
  | ok target =>
      change (loadScalar .uint32 (front ++ table.buffer) (front.length + target) >>= _) = _
      rw [loadScalar_append_front]
      rfl

theorem positionOf_moved {found : Option Nat} (looked : table.positionOf slot = .ok found) :
    (table.moved front).positionOf slot = .ok (found.map (front.length + ·)) := by
  apply lookup_moved front (Option.map (front.length + ·)) _ looked
  intro position result read
  cases read
  rfl

theorem valueAt_moved (kind : Kind) {found : Option kind.View}
    (looked : table.valueAt slot kind = .ok found) :
    (table.moved front).valueAt slot kind = .ok (found.map (kind.moved front)) := by
  apply lookup_moved front (Option.map (kind.moved front)) _ looked
  intro position result read
  rcases read_map.mp read with ⟨value, followed, rfl⟩
  exact read_map.mpr ⟨_, kind.follow_append_front front followed, rfl⟩

theorem structAt_moved {found : Option StructView} (looked : table.structAt slot = .ok found) :
    (table.moved front).structAt slot = .ok (found.map (StructView.moved front)) := by
  apply lookup_moved front (Option.map (StructView.moved front)) _ looked
  intro position result read
  cases read
  rfl

theorem unionAt_moved {tagSlot tableSlot : Slot} {found : Option UnionValue}
    (looked : table.unionAt tagSlot tableSlot = .ok found) :
    (table.moved front).unionAt tagSlot tableSlot = .ok (found.map (UnionValue.moved front)) := by
  simp only [unionAt] at looked ⊢
  rcases read_bind.mp looked with ⟨tag, tagged, looked⟩
  refine read_bind.mpr ⟨tag, (scalarAt_moved front table tagSlot .uint8 0).trans tagged, ?_⟩
  split at looked
  case isTrue empty =>
    cases looked
    rw [if_pos empty]
    rfl
  case isFalse full =>
    rw [if_neg full]
    rcases read_bind.mp looked with ⟨value, read, same⟩
    cases same
    refine read_bind.mpr ⟨_, valueAt_moved front .table read, ?_⟩
    cases value <;> rfl

theorem unionVectorAt_moved {tagSlot tableSlot : Slot} {found : Option UnionVectorView}
    (looked : table.unionVectorAt tagSlot tableSlot = .ok found) :
    (table.moved front).unionVectorAt tagSlot tableSlot =
      .ok (found.map (UnionVectorView.moved front)) := by
  simp only [unionVectorAt] at looked ⊢
  rcases read_bind.mp looked with ⟨tags, tagged, looked⟩
  refine read_bind.mpr ⟨_, valueAt_moved front (.vector (.scalar .uint8)) tagged, ?_⟩
  cases tags with
  | none =>
      cases looked
      rfl
  | some tags =>
      rcases read_bind.mp looked with ⟨tables, read, same⟩
      cases same
      refine read_bind.mpr ⟨_, valueAt_moved front (.vector .table) read, ?_⟩
      cases tables <;> rfl

end TableView

theorem StructView.scalarAt_moved (front : Bytes) (view : StructView) (type : ScalarType)
    (displacement : Nat) :
    (view.moved front).scalarAt type displacement = view.scalarAt type displacement := by
  simp only [scalarAt, moved, Nat.add_assoc, loadScalar_append_front]

theorem StructView.structAt_moved (front : Bytes) (view : StructView) (displacement : Nat) :
    (view.moved front).structAt displacement = (view.structAt displacement).moved front := by
  simp only [structAt, moved, Nat.add_assoc]

namespace VectorView

variable (front : Bytes) {element : Kind}

theorem bytes_moved (vector : VectorView element) :
    (vector.moved front).bytes = vector.bytes := by
  simp only [bytes, moved, Nat.add_assoc, slice_append_front]

theorem get_moved {vector : VectorView element} {index : Nat} {found : element.View}
    (got : vector.get index = .ok found) :
    (vector.moved front).get index = .ok (element.moved front found) := by
  simp only [get] at got ⊢
  split at got
  case isFalse => cases got
  case isTrue inside =>
    have moved := element.follow_append_front front got
    have start : (vector.moved front).elementStart index =
        front.length + vector.elementStart index := by
      simp only [elementStart, VectorView.moved, Nat.add_assoc]
    rw [if_pos (show index < (vector.moved front).length from inside), followElement, start]
    exact moved

end VectorView

theorem UnionVectorView.get_moved (front : Bytes) {vector : UnionVectorView} {index : Nat}
    {found : Option UnionValue} (got : vector.get index = .ok found) :
    (vector.moved front).get index = .ok (found.map (UnionValue.moved front)) := by
  simp only [get] at got ⊢
  rcases read_bind.mp got with ⟨tag, tagged, got⟩
  refine read_bind.mpr ⟨tag, VectorView.get_moved front tagged, ?_⟩
  split at got
  case isTrue empty =>
    cases got
    rw [if_pos empty]
    rfl
  case isFalse full =>
    rw [if_neg full]
    rcases read_bind.mp got with ⟨table, read, same⟩
    cases same
    exact read_bind.mpr ⟨_, VectorView.get_moved front read, rfl⟩

theorem TableView.nestedRoot_moved (front : Bytes) {table : TableView} {slot : Slot}
    {found : Except OpenError (Option TableView)} (looked : table.nestedRoot slot = .ok found) :
    (table.moved front).nestedRoot slot = .ok found := by
  simp only [nestedRoot] at looked ⊢
  rcases read_bind.mp looked with ⟨vector, read, looked⟩
  refine read_bind.mpr ⟨_, valueAt_moved front (.vector (.scalar .uint8)) read, ?_⟩
  cases vector with
  | none => exact looked
  | some vector =>
      rcases read_bind.mp looked with ⟨bytes, taken, looked⟩
      exact read_bind.mpr ⟨bytes, (VectorView.bytes_moved front vector).trans taken, looked⟩

namespace KeyField

variable (front : Bytes)

theorem read_moved (key : KeyField) (table : TableView) :
    key.read (table.moved front) = key.read table := by
  cases key with
  | string slot =>
      simp only [read]
      rw [TableView.stringAt_moved]
  | scalar type slot => exact TableView.scalarAt_moved front table slot type type.zero

theorem orderWith_moved (key : KeyField) (value : key.Value) (table : TableView) :
    key.orderWith value (table.moved front) = key.orderWith value table := by
  simp only [orderWith]
  rw [read_moved]

theorem orderTables_moved (key : KeyField) (other : Bytes) (left right : TableView) :
    key.orderTables (left.moved front) (right.moved other) = key.orderTables left right := by
  simp only [orderTables]
  rw [read_moved, read_moved]

end KeyField

def Search.moved (front : Bytes) (search : Search) : Search :=
  ⟨search.found.map (TableView.moved front), search.probed.map (TableView.moved front)⟩

namespace VectorView

variable (front : Bytes)

theorem searchFrom_moved {vector : VectorView .table} {probe : TableView → Except Fault Ordering}
    (steady : ∀ table, probe (table.moved front) = probe table) {start span : Nat} {search : Search}
    (searched : vector.searchFrom probe start span = .ok search) :
    (vector.moved front).searchFrom probe start span = .ok (search.moved front) := by
  induction span using Nat.strongRecOn generalizing start search with
  | ind span ih =>
      rw [searchFrom] at searched ⊢
      split at searched
      case isTrue empty =>
        cases searched
        rw [if_pos empty]
        rfl
      case isFalse nonempty =>
        rw [if_neg nonempty]
        rcases read_bind.mp searched with ⟨table, got, searched⟩
        rcases read_bind.mp searched with ⟨order, probed, searched⟩
        refine read_bind.mpr ⟨_, get_moved front got, ?_⟩
        refine read_bind.mpr ⟨order, (steady table).trans probed, ?_⟩
        cases order with
        | eq =>
            cases searched
            rfl
        | gt =>
            rcases read_bind.mp searched with ⟨rest, below, same⟩
            cases same
            exact read_bind.mpr ⟨_, ih (span / 2) (by omega) below, rfl⟩
        | lt =>
            rcases read_bind.mp searched with ⟨rest, above, same⟩
            cases same
            exact read_bind.mpr ⟨_, ih (span - (span / 2 + 1)) (by omega) above, rfl⟩

theorem find_moved {vector : VectorView .table} {key : KeyField} {value : key.Value}
    {found : Option TableView} (looked : vector.find key value = .ok found) :
    (vector.moved front).find key value = .ok (found.map (TableView.moved front)) := by
  simp only [find, search] at looked ⊢
  rcases read_bind.mp looked with ⟨result, searched, same⟩
  cases same
  exact read_bind.mpr
    ⟨_, searchFrom_moved front (key.orderWith_moved front value) searched, rfl⟩

end VectorView

end WireTables
