import WireTables.Proofs.Document.Ledger

namespace WireTables

/-- What the readers of the slot find where the content was stored. -/
def Content.ReadBy (view : TableView) (slot : Slot) : Content → Prop
  | scalar type value _ =>
      (∀ default, view.scalarAt slot type default = .ok value) ∧
        view.scalarAt? slot type = .ok (some value)
  | optional type value =>
      (∀ default, view.scalarAt slot type default = .ok (value.getD default)) ∧
        view.scalarAt? slot type = .ok value
  | reference target =>
      let place := view.buffer.length - target.toNat
      view.stringAt slot = some <$> readString view.buffer place ∧
        view.tableAt slot = some <$> TableView.load view.buffer place ∧
        (∀ element, view.vectorAt slot element = some <$> VectorView.load view.buffer place) ∧
        view.lengthAt slot = (·.toNat) <$> loadScalar .uint32 view.buffer place
  | struct start =>
      view.structAt slot = .ok (some ⟨view.buffer, view.buffer.length - start.toNat⟩)

/-- Every slot reads as what it holds. One that holds nothing reads as the default of the reader or
as nothing, also as the value of a union. -/
def Account.ShownBy (account : Account) (view : TableView) : Prop :=
  ∀ slot : Slot, match held account.entries slot with
    | some content => view.has slot = .ok true ∧ content.ReadBy view slot
    | none => ∀ index, indexOfSlot slot = some index →
        Lacks view slot ∧ ∀ (tagSlot : Slot) (tagIndex : Nat),
          indexOfSlot tagSlot = some tagIndex → view.unionAt tagSlot slot = .ok none

namespace Account.ShownBy

variable {account : Account} {view : TableView} {slot : Slot} {content : Content}

theorem has (shows : account.ShownBy view) (holds : held account.entries slot = some content) :
    view.has slot = .ok true := by
  have shown := shows slot
  rw [holds] at shown
  exact shown.1

theorem readBy (shows : account.ShownBy view) (holds : held account.entries slot = some content) :
    content.ReadBy view slot := by
  have shown := shows slot
  rw [holds] at shown
  exact shown.2

theorem lacks {index : Nat} (shows : account.ShownBy view)
    (blank : held account.entries slot = none) (place : indexOfSlot slot = some index) :
    Lacks view slot := by
  have shown := shows slot
  rw [blank] at shown
  exact (shown index place).1

theorem has_eq {index : Nat} (shows : account.ShownBy view)
    (place : indexOfSlot slot = some index) :
    view.has slot = .ok (held account.entries slot).isSome := by
  cases holds : held account.entries slot with
  | some content => exact shows.has holds
  | none => exact (shows.lacks holds place).has

/-- A struct that was stored last is found where it lies, also if it has no bytes. If it lies behind
all that was written, the table shows what it would without it. -/
theorem of_struct {start : UInt32} {forced : Bool} {earlier : List Entry}
    (shows : account.ShownBy view)
    (latest : account.entries = ⟨slot, .struct start, forced⟩ :: earlier) :
    if start = 0 then Account.ShownBy { account with entries := earlier } view
    else view.has slot = .ok true ∧
      view.structAt slot = .ok (some ⟨view.buffer, view.buffer.length - start.toNat⟩) := by
  split
  case isTrue nowhere =>
    intro other
    have passed : held account.entries other = held earlier other := by
      rw [latest]
      exact held_of_passed (.inr (bne_eq_false_iff_eq.mpr nowhere))
    have shown := shows other
    rwa [passed] at shown
  case isFalse somewhere =>
    have holds : held account.entries slot = some (.struct start) := by
      rw [latest]
      exact held_of_stored rfl (bne_iff_ne.mpr somewhere)
    exact ⟨shows.has holds, shows.readBy holds⟩

end Account.ShownBy

section Reading

variable {view : TableView} {slot : Slot}

theorem TableView.Finds.moved {position : Nat} (front : Bytes) (finds : view.Finds slot position) :
    (view.moved front).Finds slot (front.length + position) := by
  rcases finds with ⟨entry, entered, present, rfl⟩
  exact ⟨entry, (view.entry_moved front slot).trans entered, present, Nat.add_assoc ..⟩

theorem valueAt_of_refers {position target : Nat} (finds : view.Finds slot position)
    (led : followReference view.buffer position = .ok target) :
    view.stringAt slot = some <$> readString view.buffer target ∧
      view.tableAt slot = some <$> TableView.load view.buffer target ∧
      (∀ element, view.vectorAt slot element = some <$> VectorView.load view.buffer target) ∧
      view.lengthAt slot = (·.toNat) <$> loadScalar .uint32 view.buffer target := by
  refine ⟨?_, ?_, fun element => ?_, ?_⟩
  · rw [TableView.stringAt, TableView.valueAt, finds.lookup, Kind.follow, led]
    rfl
  · rw [TableView.tableAt, TableView.valueAt, finds.lookup, Kind.follow, led]
    rfl
  · rw [TableView.vectorAt, TableView.valueAt, finds.lookup, Kind.follow, led]
    rfl
  · rw [TableView.lengthAt, finds.lookup, led]
    rfl

theorem Content.readBy_of_finds {content : Content} {location : UInt32}
    (finds : view.Finds slot (view.buffer.length - location.toNat))
    (lies : content.LiesAt view.buffer location) : content.ReadBy view slot := by
  cases content with
  | scalar type value default =>
      have loaded := StandsAt.load_eq lies
      exact ⟨fun default => (finds.lookup default _).trans loaded,
        valueAt_of_follow (.scalar type) finds loaded⟩
  | optional type value =>
      rcases lies with ⟨present, rfl, stands⟩
      exact ⟨fun default => (finds.lookup default _).trans stands.load_eq,
        valueAt_of_follow (.scalar type) finds stands.load_eq⟩
  | reference target => exact valueAt_of_refers finds (RefersTo.follow lies)
  | struct start =>
      rcases lies with ⟨rfl, -⟩
      exact finds.lookup none _

theorem loadByte_of_inside {bytes : Bytes} {location : UInt32} (present : location ≠ 0)
    (inside : location.toNat ≤ bytes.length) :
    ∃ byte, loadScalar .uint8 bytes (bytes.length - location.toNat) = .ok byte := by
  have positive : location.toNat ≠ 0 := fun zero => present (UInt32.toNat_inj.mp zero)
  have width : ScalarType.uint8.width = 1 := rfl
  refine ⟨_, read_map.mpr ⟨_, slice_ok ?_, rfl⟩⟩
  omega

theorem unionAt_of_lacks {tagSlot : Slot} (lacks : Lacks view slot)
    (tagged : ∃ tag, view.scalarAt tagSlot .uint8 0 = .ok tag) :
    view.unionAt tagSlot slot = .ok none := by
  obtain ⟨tag, tagged⟩ := tagged
  refine read_bind.mpr ⟨tag, tagged, ?_⟩
  split
  case isTrue => rfl
  case isFalse => exact read_bind.mpr ⟨none, lacks.valueAt .table, rfl⟩

theorem Account.StandsIn.read {account : Account} {written bytes : Bytes}
    (stands : account.StandsIn written) (suffix : written <:+ bytes) :
    ∃ view, TableView.load bytes (bytes.length - account.table.toNat) = .ok view ∧
      view.buffer = bytes ∧ account.ShownBy view := by
  rcases stands with ⟨start, vtable, fields, table, below, filed⟩
  rcases suffix with ⟨front, rfl⟩
  refine ⟨(TableStands.view written account.table vtable fields).moved front, ?_, rfl, ?_⟩
  · rw [length_append_sub front table.link.distance_le]
    exact TableView.load_append_front front table.load
  have finds {slot : Slot} {content : Content}
      (placed : HeldAt written (placeOf fields slot) (some content)) :
      ((TableStands.view written account.table vtable fields).moved front).Finds slot
        ((front ++ written).length - (placeOf fields slot).toNat) := by
    obtain ⟨index, place⟩ := indexOfSlot_of_placeOf placed.1
    have member := mem_of_placeOf placed.1
    have recorded : placeOf fields slot = fields.getD index 0 := placeOf_index place
    rw [length_append_sub front placed.2.inside]
    exact (table.finds place recorded.symm placed.1 (below _ member)).moved front
  have lacks {slot : Slot} {index : Nat} (place : indexOfSlot slot = some index)
      (blank : placeOf fields slot = 0) :
      Lacks ((TableStands.view written account.table vtable fields).moved front) slot := by
    apply TableView.lacks_of_zero
    rw [TableView.entry_moved]
    exact table.entry_eq_zero place (placeOf_index place ▸ blank)
  intro slot
  have placed := filed slot
  cases holds : held account.entries slot with
  | some content =>
      rw [holds] at placed
      exact ⟨(finds placed).has, content.readBy_of_finds (finds placed)
        (placed.2.of_suffix (List.suffix_append _ _))⟩
  | none =>
      rw [holds] at placed
      intro index place
      refine ⟨lacks place placed, fun tagSlot tagIndex tagPlace => ?_⟩
      apply unionAt_of_lacks (lacks place placed)
      have tagPlaced := filed tagSlot
      cases tagged : held account.entries tagSlot with
      | none =>
          rw [tagged] at tagPlaced
          exact ⟨0, (lacks tagPlace tagPlaced).scalarAt .uint8 0⟩
      | some content =>
          rw [tagged] at tagPlaced
          have inside := (tagPlaced.2.of_suffix (List.suffix_append front _)).inside
          obtain ⟨byte, loaded⟩ := loadByte_of_inside tagPlaced.1 inside
          exact ⟨byte, ((finds tagPlaced).lookup 0 _).trans loaded⟩

end Reading

/-- In all that ends with what was written, every table that was closed is found and shows what the
ledger says. -/
theorem Builder.Accounted.read {builder : Builder} {ledger : Ledger} {account : Account}
    {bytes : Bytes} (accounted : builder.Accounted ledger) (known : account ∈ ledger.tables)
    (suffix : builder.storage.written <:+ bytes) :
    ∃ view, TableView.load bytes (bytes.length - account.table.toNat) = .ok view ∧
      view.buffer = bytes ∧ account.ShownBy view :=
  (accounted.agrees.tables account known).read suffix

end WireTables
