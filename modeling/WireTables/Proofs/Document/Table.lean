import WireTables.Proofs.Builder.ClosedTable
import WireTables.Proofs.Document.Fields

namespace WireTables

open Build

namespace TableView

variable {view : TableView} {slot : Slot} {position : Nat}

/-- The readers of the slot are led to the position. -/
def Finds (view : TableView) (slot : Slot) (position : Nat) : Prop :=
  ∃ entry : UInt16, view.entry slot = .ok entry ∧ entry ≠ 0 ∧
    view.position + entry.toNat = position

theorem Finds.lookup {α : Type} (finds : view.Finds slot position) (absent : α)
    (read : Nat → Except Fault α) : view.lookup slot absent read = read position := by
  rcases finds with ⟨entry, entered, present, rfl⟩
  rw [TableView.lookup, entered]
  exact if_neg present

theorem Finds.has (finds : view.Finds slot position) : view.has slot = .ok true := by
  rcases finds with ⟨entry, entered, present, -⟩
  rw [TableView.has, entered]
  exact congrArg Except.ok (bne_iff_ne.mpr present)

theorem lookup_of_zero {α : Type} (missing : view.entry slot = .ok 0) (absent : α)
    (read : Nat → Except Fault α) : view.lookup slot absent read = .ok absent := by
  rw [lookup, missing]
  rfl

theorem lacks_of_zero (missing : view.entry slot = .ok 0) : Lacks view slot where
  has := by
    rw [has, missing]
    rfl
  scalarAt type default := lookup_of_zero missing default _
  valueAt kind := lookup_of_zero missing none _
  structAt := lookup_of_zero missing none _
  lengthAt := lookup_of_zero missing 0 _
  unionAt tableSlot := by
    rw [unionAt, scalarAt, lookup_of_zero missing]
    rfl
  unionVectorAt tableSlot := by
    rw [unionVectorAt, vectorAt, valueAt, lookup_of_zero missing]
    rfl

end TableView

namespace TableStands

variable {bytes : Bytes} {start table vtable : UInt32} {fields : List UInt32} {slot : Slot}
  {index : Nat}

theorem finds (stands : TableStands bytes start table vtable fields)
    (place : indexOfSlot slot = some index) {location : UInt32}
    (recorded : fields.getD index 0 = location) (present : location ≠ 0)
    (below : location.toNat < table.toNat) :
    (view bytes table vtable fields).Finds slot (bytes.length - location.toNat) := by
  have entered := stands.entry_eq place
  rw [recorded] at entered
  have stored : location ∈ fields := mem_of_getD recorded present
  have small := stands.entries location stored
  rw [vtableEntry, if_neg present] at entered small
  have value := toNat_ofNat_of_entry small
  refine ⟨_, entered, ?_, ?_⟩
  · intro zero
    rw [zero] at value
    change 0 = _ at value
    omega
  · have inside := stands.link.distance_le
    rw [value]
    change bytes.length - table.toNat + _ = _
    omega

theorem entry_eq_zero (stands : TableStands bytes start table vtable fields)
    (place : indexOfSlot slot = some index) (blank : fields.getD index 0 = 0) :
    (view bytes table vtable fields).entry slot = .ok 0 := by
  have entered := stands.entry_eq place
  rw [blank] at entered
  exact entered

theorem contained (stands : TableStands bytes start table vtable fields) :
    (view bytes table vtable fields).Contained := by
  have enough := stands.vtable.length_le
  have inside := stands.vtable.distance_le
  rw [length_vtableBytes] at enough
  refine ⟨Nat.le_add_right _ _, ?_⟩
  change bytes.length - vtable.toNat + vtableWidth fields ≤ bytes.length
  omega

end TableStands

section Fields

variable {forced : Bool} {view : TableView} {slot : Slot}

theorem eq_of_sameEncoding {type : ScalarType} {value default : type.Value}
    (same : type.sameEncoding value default = true) : value = default := by
  have equal := congrArg type.decode (eq_of_beq same)
  rwa [ScalarType.decode_encode, ScalarType.decode_encode] at equal

theorem shownAt_of_zero {field : Field} (omitted : field.stored forced = false)
    (missing : view.entry slot = .ok 0) : field.ShownAt forced view slot := by
  have lacks := TableView.lacks_of_zero missing
  cases field with
  | scalar type value default =>
      have same : value = default := by
        rw [Field.stored, Bool.or_eq_false_iff, Bool.not_eq_false'] at omitted
        exact eq_of_sameEncoding omitted.2
      refine ⟨same ▸ lacks.scalarAt type default, ?_⟩
      rw [omitted]
      exact lacks.valueAt (.scalar type)
  | optional type value =>
      cases value with
      | none => exact ⟨lacks.valueAt (.scalar type), lacks.scalarAt type⟩
      | some value => cases omitted
  | string | scalars | strings | struct | table | tables => cases omitted

theorem structShown_of_stands {bytes : Bytes} {members : List Member} {location displacement : Nat}
    (whole : location ≤ bytes.length) (inside : displacement ≤ location)
    (stands : StandsAt bytes (location - displacement) (members.flatMap Member.bytes)) :
    StructShown ⟨bytes, bytes.length - location⟩ displacement members := by
  induction members generalizing displacement with
  | nil => trivial
  | cons member members ih =>
      rw [List.flatMap_cons] at stands
      have enough := stands.beginning.length_le
      rw [member.length_bytes] at enough
      have rest := stands.rest
      rw [member.length_bytes, Nat.sub_sub] at rest
      cases member with
      | scalar type value =>
          change type.width ≤ _ at enough
          refine ⟨?_, ih (by omega) rest⟩
          have place : bytes.length - location + displacement =
              bytes.length - (location - displacement) := by omega
          change loadScalar type bytes (bytes.length - location + displacement) = _
          rw [place]
          exact stands.beginning.load_eq
      | padding count =>
          change count ≤ _ at enough
          exact ih (by omega) rest

theorem length_of_tablesShown {views : List TableView} {documents : List Document}
    (shown : TablesShown forced views documents) : views.length = documents.length := by
  induction documents generalizing views with
  | nil =>
      cases views with
      | nil => rfl
      | cons view views => exact shown.elim
  | cons document documents ih =>
      cases views with
      | nil => exact shown.elim
      | cons view views => exact congrArg Nat.succ (ih shown.2)

theorem lengthAt_of_follow {position target : Nat} {length : UInt32}
    (finds : view.Finds slot position) (led : followReference view.buffer position = .ok target)
    (loaded : loadScalar .uint32 view.buffer target = .ok length) :
    view.lengthAt slot = .ok length.toNat := by
  rw [TableView.lengthAt, finds.lookup]
  exact read_bind.mpr ⟨target, led, read_bind.mpr ⟨length, loaded, rfl⟩⟩

theorem valueAt_of_follow {position : Nat} (kind : Kind) {found : kind.View}
    (finds : view.Finds slot position) (followed : kind.follow view.buffer position = .ok found) :
    view.valueAt slot kind = .ok (some found) := by
  rw [TableView.valueAt, finds.lookup, followed]
  rfl

theorem vectorAt_of_load {position target : Nat} {element : Kind} {vector : VectorView element}
    (finds : view.Finds slot position) (led : followReference view.buffer position = .ok target)
    (loaded : VectorView.load view.buffer target = .ok vector) :
    view.vectorAt slot element = .ok (some vector) ∧ view.lengthAt slot = .ok vector.length := by
  refine ⟨valueAt_of_follow (.vector element) finds (read_bind.mpr ⟨target, led, loaded⟩), ?_⟩
  rcases read_bind.mp loaded with ⟨length, counted, same⟩
  cases same
  exact lengthAt_of_follow finds led counted

theorem shownAt_of_finds {addition : Addition} {location : UInt32}
    (finds : view.Finds addition.slot (view.buffer.length - location.toNat))
    (kept : addition.field.stored forced = true)
    (stands : addition.StandsInline view.buffer location)
    (backed : ∀ piece, addition.field.piece? = some piece →
      Stored forced view.buffer addition.source.toNat piece) :
    addition.field.ShownAt forced view addition.slot := by
  rcases addition with ⟨slot, field, source⟩
  cases field with
  | scalar type value default =>
      have loaded := StandsAt.load_eq stands
      refine ⟨(finds.lookup default _).trans loaded, ?_⟩
      rw [if_pos kept]
      exact valueAt_of_follow (.scalar type) finds loaded
  | optional type value =>
      cases value with
      | none => exact stands.elim
      | some value =>
          have loaded := StandsAt.load_eq stands
          exact ⟨valueAt_of_follow (.scalar type) finds loaded,
            fun default => (finds.lookup default _).trans loaded⟩
  | struct alignment members sized =>
      have inside := StandsAt.distance_le stands
      refine ⟨_, finds.lookup none _, ?_⟩
      exact structShown_of_stands inside (Nat.zero_le _) stands
  | string text =>
      obtain ⟨read, counted⟩ := (backed _ rfl).read
      rcases read_map.mp counted with ⟨length, loaded, same⟩
      have followed := read_bind.mpr ⟨_, stands.follow, read⟩
      refine ⟨valueAt_of_follow .string finds followed, ?_⟩
      rw [lengthAt_of_follow finds stands.follow loaded, same]
  | scalars type items =>
      obtain ⟨vector, loaded, shown, payload⟩ := (backed _ rfl).read
      obtain ⟨read, length⟩ := vectorAt_of_load finds stands.follow loaded
      exact ⟨vector, read, shown.length ▸ length, shown, payload⟩
  | strings items =>
      obtain ⟨vector, loaded, shown⟩ := (backed _ rfl).read
      obtain ⟨read, length⟩ := vectorAt_of_load finds stands.follow loaded
      exact ⟨vector, read, shown.length ▸ length, shown⟩
  | table document =>
      obtain ⟨child, loaded, -, shown⟩ := (backed _ rfl).read
      have followed := read_bind.mpr ⟨_, stands.follow, loaded⟩
      exact ⟨child, valueAt_of_follow .table finds followed, shown⟩
  | tables documents =>
      obtain ⟨vector, children, loaded, shown, tables⟩ := (backed _ rfl).read
      obtain ⟨read, length⟩ := vectorAt_of_load finds stands.follow loaded
      refine ⟨vector, children, read, ?_, shown, tables⟩
      rw [length, shown.length, length_of_tablesShown tables]

theorem fieldsShown_iff {document : Document} :
    FieldsShown forced view document ↔ ∀ entry ∈ document,
      view.has entry.1 = .ok (entry.2.stored forced) ∧ entry.2.ShownAt forced view entry.1 := by
  induction document with
  | nil => exact ⟨fun _ _ member => absurd member List.not_mem_nil, fun _ => trivial⟩
  | cons entry document ih =>
      rw [List.forall_mem_cons, ← ih]
      exact Iff.rfl

theorem UnionVectorView.get_of_tag {vector : UnionVectorView} {index : Nat} {tag : UInt8}
    {child : TableView} (tagged : vector.tags.get index = .ok tag)
    (got : vector.tables.get index = .ok child) :
    vector.get index = .ok (if tag = 0 then none else some ⟨tag, child⟩) := by
  refine read_bind.mpr ⟨tag, tagged, ?_⟩
  split
  case isTrue => rfl
  case isFalse => exact read_bind.mpr ⟨child, got, rfl⟩

/-- Unions are shown because their tags and their tables are. -/
theorem outline_of_fields {document : Document} (fields : FieldsShown forced view document)
    (lacks : ∀ (slot : Slot) (index : Nat), indexOfSlot slot = some index →
      (∀ field : Field, (slot, field) ∉ document) → Lacks view slot) :
    Outline view document where
  lacks := lacks
  union tagSlot tableSlot tag inner tagged held := by
    obtain ⟨-, read, -⟩ := fieldsShown_iff.mp fields _ tagged
    obtain ⟨-, child, found, -⟩ := fieldsShown_iff.mp fields _ held
    refine ⟨child, found, read_bind.mpr ⟨tag, read, ?_⟩⟩
    split
    case isTrue => rfl
    case isFalse => exact read_bind.mpr ⟨some child, found, rfl⟩
  unionVector tagSlot tableSlot tags inner tagged held := by
    obtain ⟨-, tagVector, tagsFound, -, tagsShown, -⟩ := fieldsShown_iff.mp fields _ tagged
    obtain ⟨-, tables, children, found, -, shown, -⟩ := fieldsShown_iff.mp fields _ held
    refine ⟨⟨tagVector, tables⟩, children, ?_, found, shown, tagsShown.length, ?_⟩
    · exact read_bind.mpr ⟨some tagVector, tagsFound, read_bind.mpr ⟨some tables, found, rfl⟩⟩
    · intro index tag child taggedAt reached
      exact UnionVectorView.get_of_tag (tagsShown.get index tag taggedAt)
        (shown.get index child reached)

end Fields

def writeTable (count : Nat) (additions : List Addition) : Build (Offset .table) := do
  openTable count
  additions.forM Addition.store
  closeTable

/-- The document that additions make, whatever their order. -/
def Makes (additions : List Addition) (document : Document) : Prop :=
  (additions.map Addition.slot).Nodup ∧
    (additions.map fun addition => (addition.slot, addition.field)).Perm document

section Closing

variable {forced : Bool} {before after : Builder} {start table vtable : UInt32}
  {fields : List UInt32} {additions : List Addition} {document : Document}

theorem tableShown_of_closed (closed : Closed before after start fields table vtable)
    (small : after.storage.size ≤ maxBufferSize)
    (filled : Filled forced before.storage.written fields additions)
    (makes : Makes additions document)
    (backed : ∀ addition ∈ additions, ∀ piece, addition.field.piece? = some piece →
      Stored forced before.storage.written addition.source.toNat piece) :
    TableShown forced
      (TableStands.view after.storage.written table vtable fields) document := by
  have stands := closed.stands small
  have suffix := closed.suffix
  have below {location : UInt32} (inside : location.toNat ≤ before.storage.written.length) :
      location.toNat < table.toNat := by
    have width : 0 < referenceWidth := by decide
    rw [closed.place, before.storage.size_eq]
    omega
  have shown : FieldsShown forced
      (TableStands.view after.storage.written table vtable fields) document := by
    rw [fieldsShown_iff]
    intro entry member
    obtain ⟨addition, known, rfl⟩ := List.mem_map.mp (makes.2.mem_iff.mpr member)
    obtain ⟨index, place, placed⟩ := filled.placed addition known
    simp only [Addition.Placed] at placed
    split at placed
    case isTrue kept =>
      have finds := stands.finds place rfl placed.1 (below placed.2.inside)
      refine ⟨kept ▸ finds.has, shownAt_of_finds finds kept (placed.2.of_suffix suffix) ?_⟩
      exact fun piece refers => (backed addition known piece refers).of_suffix suffix
    case isFalse omitted =>
      rw [Bool.not_eq_true] at omitted
      have missing := stands.entry_eq_zero place placed
      exact ⟨omitted ▸ (TableView.lacks_of_zero missing).has, shownAt_of_zero omitted missing⟩
  refine ⟨outline_of_fields shown ?_, shown⟩
  intro slot index place missing
  apply TableView.lacks_of_zero
  apply stands.entry_eq_zero place
  apply filled.blank
  intro addition known same
  apply missing addition.field
  rw [← indexOfSlot_inj same place]
  exact makes.2.mem_iff.mp (List.mem_map_of_mem known)

theorem writeTable_done {count : Nat} {offset : Offset .table} (sound : before.Sound)
    (same : before.forceDefaults = forced) (makes : Makes additions document)
    (backed : ∀ addition ∈ additions, ∀ piece, addition.field.piece? = some piece →
      Stored forced before.storage.written addition.source.toNat piece)
    (ran : writeTable count additions before = .done offset after) :
    Changes before after ∧ after.forceDefaults = forced ∧
      Stored forced after.storage.written offset.value.toNat (.table document) := by
  rcases done_bind.mp ran with ⟨_, opened, openRan, ran⟩
  rcases done_bind.mp ran with ⟨_, full, storeRan, closeRan⟩
  have opens : Changes before opened := (changes_openTable count before).of_done openRan
  obtain ⟨-, rfl⟩ := openTable_done openRan
  have openSound := Builder.sound_of_changes sound opens
  obtain ⟨last, isOpen, forceDefaults, filled, stores⟩ :=
    additions_done openSound rfl same (Filled.start count) makes.1 storeRan
  have fullSound := Builder.sound_of_changes openSound stores
  obtain ⟨start, fields, vtable, closed⟩ :=
    closeTable_done fullSound.ordered closeRan
  have small := Builder.size_le (closed.fits fullSound.fits)
  have fieldsSame := closed.opened
  rw [isOpen] at fieldsSame
  cases fieldsSame
  have suffix := Builder.suffix_of_changes (opens.trans stores)
  have shown := tableShown_of_closed closed small filled makes fun addition known piece refers =>
    (backed addition known piece refers).of_suffix suffix
  have stands := closed.stands small
  refine ⟨(opens.trans stores).trans (.single (.tableClosed closed trivial)),
    closed.forceDefaults.trans forceDefaults, stands.link.distance_le, _, stands.load,
    stands.contained, shown⟩

end Closing

end WireTables
