import WireTables.Proofs.View.Relocation

namespace WireTables

/-- What a chain of reads has come to. A read that finds no field comes to `nothing`. -/
inductive Reading
  | nothing
  | table (view : TableView)
  | struct (view : StructView)
  | vector (element : Kind) (view : VectorView element)
  | union (value : UnionValue)
  | unionVector (view : UnionVectorView)
  | scalar (type : ScalarType) (value : type.Value)
  | bytes (value : Bytes)
  | flag (value : Bool)
  | number (value : Nat)
  | position (value : Nat)
  | unreadable (error : OpenError)

namespace Reading

def ofOption {α : Type} (reading : α → Reading) : Option α → Reading
  | none => nothing
  | some value => reading value

def ofView : (kind : Kind) → kind.View → Reading
  | .scalar type, value => scalar type value
  | .string, value => bytes value
  | .table, view => table view
  | .struct _, view => struct view
  | .vector element, view => vector element view

def ofNested : Except OpenError (Option TableView) → Reading
  | .ok root => ofOption table root
  | .error error => unreadable error

def moved (front : Bytes) : Reading → Reading
  | table view => table (view.moved front)
  | struct view => struct (view.moved front)
  | vector element view => vector element (view.moved front)
  | union value => union (value.moved front)
  | unionVector view => unionVector (view.moved front)
  | position value => position (front.length + value)
  | other => other

/-- Readings agree when one is the other moved. Inside a nested buffer nothing moves. -/
def Agrees (front : Bytes) (before after : Reading) : Prop :=
  after = before.moved front ∨ after = before

end Reading

inductive TableRead
  | entry (slot : Slot)
  | has (slot : Slot)
  | position (slot : Slot)
  | length (slot : Slot)
  | scalar (slot : Slot) (type : ScalarType) (default : type.Value)
  | value (slot : Slot) (kind : Kind)
  | struct (slot : Slot)
  | union (tagSlot tableSlot : Slot)
  | unionVector (tagSlot tableSlot : Slot)
  | nestedRoot (slot : Slot)

inductive StructRead
  | scalar (type : ScalarType) (displacement : Nat)
  | struct (displacement : Nat)

inductive VectorRead
  | length
  | bytes
  | element (index : Nat)

inductive UnionRead
  | tag
  | table

inductive UnionVectorRead
  | length
  | tag (index : Nat)
  | element (index : Nat)

inductive Read
  | table (read : TableRead)
  | struct (read : StructRead)
  | vector (read : VectorRead)
  | lookup (key : KeyField) (value : key.Value)
  | union (read : UnionRead)
  | unionVector (read : UnionVectorRead)

open Reading in
def TableRead.on : TableRead → TableView → Except Fault Reading
  | entry slot, view => (fun entry => number entry.toNat) <$> view.entry slot
  | has slot, view => flag <$> view.has slot
  | position slot, view => ofOption Reading.position <$> view.positionOf slot
  | length slot, view => number <$> view.lengthAt slot
  | scalar slot type default, view => Reading.scalar type <$> view.scalarAt slot type default
  | value slot kind, view => ofOption (ofView kind) <$> view.valueAt slot kind
  | struct slot, view => ofOption Reading.struct <$> view.structAt slot
  | union tagSlot tableSlot, view => ofOption Reading.union <$> view.unionAt tagSlot tableSlot
  | unionVector tagSlot tableSlot, view =>
      ofOption Reading.unionVector <$> view.unionVectorAt tagSlot tableSlot
  | nestedRoot slot, view => ofNested <$> view.nestedRoot slot

def StructRead.on : StructRead → StructView → Except Fault Reading
  | scalar type displacement, view => Reading.scalar type <$> view.scalarAt type displacement
  | struct displacement, view => pure (.struct (view.structAt displacement))

def VectorRead.on {element : Kind} : VectorRead → VectorView element → Except Fault Reading
  | length, view => pure (.number view.length)
  | bytes, view => Reading.bytes <$> view.bytes
  | .element index, view => Reading.ofView element <$> view.get index

def UnionRead.on : UnionRead → UnionValue → Reading
  | tag, value => .scalar .uint8 value.tag
  | table, value => .table value.table

def UnionVectorRead.on : UnionVectorRead → UnionVectorView → Except Fault Reading
  | length, view => pure (.number view.length)
  | tag index, view => Reading.scalar .uint8 <$> view.tag index
  | element index, view => Reading.ofOption Reading.union <$> view.get index

def Read.on : Read → Reading → Except Fault Reading
  | table read, .table view => read.on view
  | struct read, .struct view => read.on view
  | vector read, .vector _ view => read.on view
  | lookup key value, .vector .table view => Reading.ofOption Reading.table <$> view.find key value
  | union read, .union value => pure (read.on value)
  | unionVector read, .unionVector view => read.on view
  | _, _ => pure .nothing

def readOn (reading : Reading) : List Read → Except Fault Reading
  | [] => pure reading
  | read :: reads => do
      let next ← read.on reading
      readOn next reads

def openObject (kind : Kind) (buffer : Bytes) (position : Nat) : Except Fault Reading :=
  match kind with
  | .scalar type => Reading.scalar type <$> loadScalar type buffer position
  | .string => Reading.bytes <$> readString buffer position
  | .table => Reading.table <$> TableView.load buffer position
  | .struct _ => pure (.struct ⟨buffer, position⟩)
  | .vector element => Reading.vector element <$> VectorView.load buffer position

def readObject (kind : Kind) (buffer : Bytes) (position : Nat) (reads : List Read) :
    Except Fault Reading := do
  let start ← openObject kind buffer position
  readOn start reads

theorem Reading.moved_ofView (front : Bytes) (kind : Kind) (view : kind.View) :
    (ofView kind view).moved front = ofView kind (kind.moved front view) := by
  cases kind <;> rfl

section Moved

variable (front : Bytes) {reading : Reading}

theorem agrees_value {α : Type} {read movedRead : Except Fault α} (ofValue : α → Reading)
    (unmoved : ∀ value, (ofValue value).moved front = ofValue value) (same : movedRead = read)
    (ran : ofValue <$> read = .ok reading) :
    ∃ after, ofValue <$> movedRead = .ok after ∧ reading.Agrees front after := by
  rcases read_map.mp ran with ⟨found, looked, rfl⟩
  exact ⟨_, read_map.mpr ⟨found, same.trans looked, rfl⟩, .inl (unmoved found).symm⟩

theorem agrees_view {α : Type} {read movedRead : Except Fault (Option α)} (ofView : α → Reading)
    (move : α → α) (moves : ∀ view, (ofView view).moved front = ofView (move view))
    (relocates : ∀ found, read = .ok found → movedRead = .ok (found.map move))
    (ran : Reading.ofOption ofView <$> read = .ok reading) :
    ∃ after, Reading.ofOption ofView <$> movedRead = .ok after ∧ reading.Agrees front after := by
  rcases read_map.mp ran with ⟨found, looked, rfl⟩
  refine ⟨_, read_map.mpr ⟨_, relocates found looked, rfl⟩, .inl ?_⟩
  cases found with
  | none => rfl
  | some view => exact (moves view).symm

theorem TableRead.on_moved {read : TableRead} {view : TableView}
    (ran : read.on view = .ok reading) :
    ∃ after, read.on (view.moved front) = .ok after ∧ reading.Agrees front after := by
  cases read with
  | entry slot => exact agrees_value front _ (fun _ => rfl) (view.entry_moved front slot) ran
  | has slot => exact agrees_value front _ (fun _ => rfl) (view.has_moved front slot) ran
  | length slot => exact agrees_value front _ (fun _ => rfl) (view.lengthAt_moved front slot) ran
  | scalar slot type default =>
      exact agrees_value front _ (fun _ => rfl) (view.scalarAt_moved front slot type default) ran
  | position slot =>
      exact agrees_view front Reading.position _ (fun _ => rfl)
        (fun _ => TableView.positionOf_moved front) ran
  | value slot kind =>
      exact agrees_view front (Reading.ofView kind) _ (Reading.moved_ofView front kind)
        (fun _ => TableView.valueAt_moved front kind) ran
  | struct slot =>
      exact agrees_view front Reading.struct _ (fun _ => rfl)
        (fun _ => TableView.structAt_moved front) ran
  | union tagSlot tableSlot =>
      exact agrees_view front Reading.union _ (fun _ => rfl)
        (fun _ => TableView.unionAt_moved front) ran
  | unionVector tagSlot tableSlot =>
      exact agrees_view front Reading.unionVector _ (fun _ => rfl)
        (fun _ => TableView.unionVectorAt_moved front) ran
  | nestedRoot slot =>
      rcases read_map.mp ran with ⟨found, looked, rfl⟩
      exact ⟨_, read_map.mpr ⟨_, TableView.nestedRoot_moved front looked, rfl⟩, .inr rfl⟩

theorem StructRead.on_moved {read : StructRead} {view : StructView}
    (ran : read.on view = .ok reading) :
    ∃ after, read.on (view.moved front) = .ok after ∧ reading.Agrees front after := by
  cases read with
  | scalar type displacement =>
      exact agrees_value front _ (fun _ => rfl) (view.scalarAt_moved front type displacement) ran
  | struct displacement =>
      cases ran
      refine ⟨_, rfl, .inl ?_⟩
      rw [StructView.structAt_moved]
      rfl

theorem VectorRead.on_moved {element : Kind} {read : VectorRead} {view : VectorView element}
    (ran : read.on view = .ok reading) :
    ∃ after, read.on (view.moved front) = .ok after ∧ reading.Agrees front after := by
  cases read with
  | length =>
      cases ran
      exact ⟨_, rfl, .inl rfl⟩
  | bytes => exact agrees_value front _ (fun _ => rfl) (view.bytes_moved front) ran
  | element index =>
      rcases read_map.mp ran with ⟨found, looked, rfl⟩
      exact ⟨_, read_map.mpr ⟨_, VectorView.get_moved front looked, rfl⟩,
        .inl (Reading.moved_ofView front element found).symm⟩

theorem UnionVectorRead.on_moved {read : UnionVectorRead} {view : UnionVectorView}
    (ran : read.on view = .ok reading) :
    ∃ after, read.on (view.moved front) = .ok after ∧ reading.Agrees front after := by
  cases read with
  | length =>
      cases ran
      exact ⟨_, rfl, .inl rfl⟩
  | tag index =>
      rcases read_map.mp ran with ⟨found, looked, rfl⟩
      exact ⟨_, read_map.mpr ⟨_, VectorView.get_moved front looked, rfl⟩, .inl rfl⟩
  | element index =>
      exact agrees_view front Reading.union _ (fun _ => rfl)
        (fun _ => UnionVectorView.get_moved front) ran

theorem Read.on_moved {read : Read} {start : Reading} (ran : read.on start = .ok reading) :
    ∃ after, read.on (start.moved front) = .ok after ∧ reading.Agrees front after := by
  cases start with
  | table view =>
      cases read with
      | table read => exact TableRead.on_moved front ran
      | _ =>
          cases ran
          exact ⟨.nothing, rfl, .inl rfl⟩
  | struct view =>
      cases read with
      | struct read => exact StructRead.on_moved front ran
      | _ =>
          cases ran
          exact ⟨.nothing, rfl, .inl rfl⟩
  | vector element view =>
      cases read with
      | vector read => exact VectorRead.on_moved front ran
      | lookup key value =>
          cases element with
          | table =>
              exact agrees_view front Reading.table _ (fun _ => rfl)
                (fun _ => VectorView.find_moved front) ran
          | _ =>
              cases ran
              exact ⟨.nothing, rfl, .inl rfl⟩
      | _ =>
          cases ran
          exact ⟨.nothing, rfl, .inl rfl⟩
  | union value =>
      cases read with
      | union read =>
          cases ran
          refine ⟨_, rfl, .inl ?_⟩
          cases read <;> rfl
      | _ =>
          cases ran
          exact ⟨.nothing, rfl, .inl rfl⟩
  | unionVector view =>
      cases read with
      | unionVector read => exact UnionVectorRead.on_moved front ran
      | _ =>
          cases ran
          exact ⟨.nothing, rfl, .inl rfl⟩
  | _ =>
      cases read <;>
        · cases ran
          exact ⟨.nothing, rfl, .inl rfl⟩

theorem readOn_agrees {start movedStart : Reading} (reads : List Read)
    (same : start.Agrees front movedStart) (ran : readOn start reads = .ok reading) :
    ∃ after, readOn movedStart reads = .ok after ∧ reading.Agrees front after := by
  induction reads generalizing start movedStart with
  | nil =>
      cases ran
      exact ⟨movedStart, rfl, same⟩
  | cons read reads ih =>
      rcases same with rfl | rfl
      · rcases read_bind.mp ran with ⟨next, first, rest⟩
        obtain ⟨movedNext, movedFirst, agrees⟩ := Read.on_moved front first
        obtain ⟨after, movedRest, last⟩ := ih agrees rest
        exact ⟨after, read_bind.mpr ⟨movedNext, movedFirst, movedRest⟩, last⟩
      · exact ⟨reading, ran, .inr rfl⟩

theorem openObject_append_front {kind : Kind} {buffer : Bytes} {position : Nat}
    (opened : openObject kind buffer position = .ok reading) :
    openObject kind (front ++ buffer) (front.length + position) = .ok (reading.moved front) := by
  cases kind with
  | scalar type =>
      rcases read_map.mp opened with ⟨value, loaded, rfl⟩
      exact read_map.mpr ⟨value, (loadScalar_append_front ..).trans loaded, rfl⟩
  | string =>
      rcases read_map.mp opened with ⟨value, loaded, rfl⟩
      exact read_map.mpr ⟨value, (readString_append_front ..).trans loaded, rfl⟩
  | table =>
      rcases read_map.mp opened with ⟨view, loaded, rfl⟩
      exact read_map.mpr ⟨_, TableView.load_append_front front loaded, rfl⟩
  | struct size =>
      cases opened
      rfl
  | vector element =>
      rcases read_map.mp opened with ⟨view, loaded, rfl⟩
      refine read_map.mpr ⟨view.moved front, ?_, rfl⟩
      rw [VectorView.load_append_front, loaded]
      rfl

theorem readObject_append_front {kind : Kind} {buffer : Bytes} {position : Nat} {reads : List Read}
    (ran : readObject kind buffer position reads = .ok reading) :
    ∃ after, readObject kind (front ++ buffer) (front.length + position) reads = .ok after ∧
      reading.Agrees front after := by
  rcases read_bind.mp ran with ⟨start, opened, rest⟩
  obtain ⟨after, movedRest, agrees⟩ := readOn_agrees front reads (.inl rfl) rest
  exact ⟨after, read_bind.mpr ⟨_, openObject_append_front front opened, movedRest⟩, agrees⟩

end Moved

end WireTables
