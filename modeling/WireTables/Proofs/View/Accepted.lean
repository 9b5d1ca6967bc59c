import WireTables.Proofs.View.Relocation

/-!
What an accepted root allows. Opening a root looks at the header of its vtable and at the size that
the vtable declares, so a slot is resolved from the bytes of the vtable alone as long as its entry
does not stick out of them. An entry sticks out by one byte when the declared size is odd and the
slot is the last one below it; then the byte behind the vtable is read, which may not be there.
-/

namespace WireTables

/-- The root of a whole buffer was accepted, or that of a frame of a stream. -/
inductive Accepted : TableView → Prop
  | whole {buffer : Bytes} {view : TableView} (opened : openRoot buffer = .ok view) : Accepted view
  | framed {stream frame : Bytes} {view : TableView} (yielded : .ok frame ∈ splitFrames stream)
      (opened : openSizedRoot frame = .ok view) : Accepted view

/-- What opening a root makes sure of. -/
structure Opens (view : TableView) : Prop where
  loaded : TableView.load view.buffer view.position = .ok view
  header : view.vtableBase + vtableHeaderWidth ≤ view.buffer.length
  inside : view.vtableBase + view.vtableSize ≤ view.buffer.length

/-- What the bytes of a vtable say about a slot on their own. -/
def entryWithin (vtable : Bytes) (slot : Slot) : Except Fault UInt16 :=
  if vtable.length ≤ slot.toNat then pure 0 else loadScalar .uint16 vtable slot.toNat

theorem reporting_eq_ok_iff {α : Type} {error : OpenError} {read : Except Fault α} {value : α} :
    reporting error read = .ok value ↔ read = .ok value := by
  cases read <;> constructor <;> intro same <;> cases same <;> rfl

theorem opens_of_openRoot {buffer : Bytes} {view : TableView} (opened : openRoot buffer = .ok view) :
    Opens view := by
  rcases read_bind.mp opened with ⟨reference, referred, rest⟩
  rcases read_bind.mp rest with ⟨distance, linked, rest⟩
  dsimp only at rest
  split at rest
  case isTrue => cases rest
  case isFalse inside =>
    rcases read_bind.mp rest with ⟨_, header, rest⟩
    rcases read_bind.mp rest with ⟨size, sized, rest⟩
    rcases read_bind.mp rest with ⟨_, whole, same⟩
    cases same
    rw [reporting_eq_ok_iff] at linked header sized whole
    have place := (Int.toNat_of_nonneg (Int.not_lt.mp inside)).symm
    have located := locateVTable_eq_ok_iff.mpr ⟨distance, linked, place⟩
    exact {
      loaded := TableView.load_eq_ok_iff.mpr ⟨_, size, located, sized, rfl⟩
      header := (slice_eq_ok_iff.mp header).1
      inside := (slice_eq_ok_iff.mp whole).1 }

theorem Accepted.opens {view : TableView} (accepted : Accepted view) : Opens view := by
  cases accepted with
  | whole opened => exact opens_of_openRoot opened
  | framed _ opened =>
      rcases read_bind.mp opened with ⟨payload, -, opened⟩
      exact opens_of_openRoot opened

theorem slice_of_slice {bytes block : Bytes} {base size start width : Nat}
    (taken : slice bytes base size = .ok block) (inside : start + width ≤ size) :
    slice bytes (base + start) width = slice block start width := by
  have length := length_of_slice taken
  obtain ⟨fits, rfl⟩ := slice_eq_ok_iff.mp taken
  rw [slice_ok (by omega), slice_ok (by omega), List.drop_take, List.take_take, List.drop_drop,
    Nat.min_eq_left (by omega)]

theorem slice_pair {bytes : Bytes} {start : Nat} {first second : UInt8}
    (firstAt : bytes[start]? = some first) (secondAt : bytes[start + 1]? = some second) :
    slice bytes start 2 = .ok [first, second] := by
  obtain ⟨firstInside, rfl⟩ := List.getElem?_eq_some_iff.mp firstAt
  obtain ⟨secondInside, rfl⟩ := List.getElem?_eq_some_iff.mp secondAt
  rw [slice_ok secondInside, List.drop_eq_getElem_cons firstInside,
    List.drop_eq_getElem_cons secondInside]
  rfl

theorem entryWithin_ok {vtable : Bytes} {slot : Slot} (whole : slot.toNat + 1 ≠ vtable.length) :
    ∃ entry, entryWithin vtable slot = .ok entry := by
  by_cases past : vtable.length ≤ slot.toNat
  · exact ⟨0, if_pos past⟩
  · have fits : slot.toNat + ScalarType.uint16.width ≤ vtable.length := by
      have wide : ScalarType.uint16.width = 2 := rfl
      omega
    refine ⟨ScalarType.uint16.decode ((vtable.drop slot.toNat).take 2), ?_⟩
    rw [entryWithin, if_neg past, loadScalar, slice_ok fits]
    rfl

namespace Opens

variable {view : TableView} {vtable : Bytes} {slot : Slot}

theorem size_eq (opens : Opens view) : view.vtable.size = .ok view.vtableSize := by
  rcases TableView.load_eq_ok_iff.mp opens.loaded with ⟨base, size, -, sized, same⟩
  have baseSame : view.vtableBase = base := congrArg TableView.vtableBase same
  have sizeSame : view.vtableSize = size.toNat := congrArg TableView.vtableSize same
  rw [VTable.size, TableView.vtable, baseSame, sized, sizeSame]
  rfl

theorem tableSize_ok (opens : Opens view) : ∃ inline, view.vtable.tableSize = .ok inline := by
  have header := opens.header
  have fits : view.vtableBase + entryWidth + ScalarType.uint16.width ≤ view.buffer.length := header
  have loaded := congrArg (Except.map ScalarType.uint16.decode) (slice_ok fits)
  exact ⟨_, read_bind.mpr ⟨_, loaded, rfl⟩⟩

theorem vtableEntry_eq (opens : Opens view) (slot : Slot) :
    view.vtable.entry slot = view.entry slot := by
  rw [VTable.entry, opens.size_eq]
  rfl

theorem resolveField_eq (opens : Opens view) (slot : Slot) :
    resolveField view.buffer view.position slot = view.entry slot := by
  rcases TableView.load_eq_ok_iff.mp opens.loaded with ⟨base, size, located, -, same⟩
  have baseSame : view.vtableBase = base := congrArg TableView.vtableBase same
  rw [resolveField, VTable.ofTable, located, ← opens.vtableEntry_eq, TableView.vtable, baseSame]
  rfl

theorem entry_eq_within (taken : slice view.buffer view.vtableBase view.vtableSize = .ok vtable)
    (whole : slot.toNat + 1 ≠ view.vtableSize) : view.entry slot = entryWithin vtable slot := by
  have length := length_of_slice taken
  rw [TableView.entry, entryWithin, length]
  split
  case isTrue => rfl
  case isFalse reached =>
    have fits : slot.toNat + ScalarType.uint16.width ≤ view.vtableSize := by
      have wide : ScalarType.uint16.width = 2 := rfl
      omega
    rw [loadScalar, slice_of_slice taken fits, loadScalar]

theorem entry_of_next {next : UInt8}
    (taken : slice view.buffer view.vtableBase view.vtableSize = .ok vtable)
    (cut : slot.toNat + 1 = view.vtableSize)
    (behind : view.buffer[view.vtableBase + view.vtableSize]? = some next) :
    ∃ last, vtable[slot.toNat]? = some last ∧
      view.entry slot = .ok (ScalarType.uint16.decode [last, next]) := by
  obtain ⟨fits, rfl⟩ := slice_eq_ok_iff.mp taken
  have reached : ¬ view.vtableSize ≤ slot.toNat := by omega
  have inside : view.vtableBase + slot.toNat < view.buffer.length := by omega
  have lastAt := List.getElem?_eq_getElem inside
  rw [← cut, ← Nat.add_assoc] at behind
  refine ⟨view.buffer[view.vtableBase + slot.toNat], ?_, ?_⟩
  · rw [List.getElem?_take, if_pos (by omega), List.getElem?_drop, lastAt]
  · rw [TableView.entry, if_neg reached, loadScalar]
    exact congrArg (Except.map ScalarType.uint16.decode) (slice_pair lastAt behind)

theorem entry_fault_iff (opens : Opens view) (cut : slot.toNat + 1 = view.vtableSize) :
    view.entry slot = .error .outOfRange ↔
      view.vtableBase + view.vtableSize = view.buffer.length := by
  have inside := opens.inside
  have taken := slice_ok inside
  constructor
  · intro fault
    rcases Nat.lt_or_eq_of_le inside with behind | ended
    · obtain ⟨last, -, entered⟩ := entry_of_next taken cut (List.getElem?_eq_getElem behind)
      rw [fault] at entered
      cases entered
    · exact ended
  · intro ended
    have outside : ¬ view.vtableBase + slot.toNat + ScalarType.uint16.width ≤ view.buffer.length := by
      have wide : ScalarType.uint16.width = 2 := rfl
      omega
    rw [TableView.entry, if_neg (by omega), loadScalar, slice, if_neg outside, Except.map]

end Opens

/-- The four ways of resolving a slot of an accepted root agree, and the readers of its vtable never
fault. A slot is resolved without a fault, from the bytes of the vtable alone, unless its entry
sticks out of them; that one is a fault just when the vtable ends the buffer, and is made up with
the byte behind the vtable otherwise. -/
theorem Accepted.slots_resolve {view : TableView} (accepted : Accepted view) :
    ∃ (vtable : Bytes) (inline : Nat),
      view.vtable.bytes = .ok vtable ∧ view.vtable.size = .ok vtable.length ∧
      view.vtable.fieldCount = .ok ((vtable.length - vtableHeaderWidth) / entryWidth) ∧
      view.vtable.tableSize = .ok inline ∧
      ∀ slot : Slot,
        (view.vtable.entry slot = view.entry slot ∧
          resolveField view.buffer view.position slot = view.entry slot ∧
          view.has slot = (· != 0) <$> view.entry slot) ∧
        (slot.toNat + 1 ≠ vtable.length →
          ∃ entry, entryWithin vtable slot = .ok entry ∧ view.entry slot = .ok entry) ∧
        (slot.toNat + 1 = vtable.length →
          (view.entry slot = .error .outOfRange ↔
            view.vtableBase + vtable.length = view.buffer.length) ∧
          ∀ next, view.buffer[view.vtableBase + vtable.length]? = some next →
            ∃ last, vtable[slot.toNat]? = some last ∧
              view.entry slot = .ok (ScalarType.uint16.decode [last, next])) := by
  have opens := accepted.opens
  obtain ⟨inline, inlineRead⟩ := opens.tableSize_ok
  have taken := slice_ok opens.inside
  generalize (view.buffer.drop view.vtableBase).take view.vtableSize = vtable at taken
  have length := length_of_slice taken
  have sized := opens.size_eq
  rw [← length] at sized
  refine ⟨vtable, inline, ?_, sized, read_bind.mpr ⟨_, sized, rfl⟩, inlineRead, fun slot => ?_⟩
  · refine read_bind.mpr ⟨_, sized, ?_⟩
    rw [length]
    exact taken
  refine ⟨⟨opens.vtableEntry_eq slot, opens.resolveField_eq slot, ?_⟩, ?_, ?_⟩
  · rw [TableView.has]
    cases view.entry slot <;> rfl
  · intro whole
    obtain ⟨entry, within⟩ := entryWithin_ok whole
    rw [length] at whole
    exact ⟨entry, within, (Opens.entry_eq_within taken whole).trans within⟩
  · rw [length]
    intro cut
    exact ⟨opens.entry_fault_iff cut, fun next behind => Opens.entry_of_next taken cut behind⟩

/-- Two accepted roots whose vtables declare five bytes. The first vtable ends its buffer, so its
only field is a fault to every reader; in the second buffer the byte behind the vtable completes
the entry. Slot 6 is absent in both. -/
theorem slots_resolve_of_oddSize :
    ∃ first second : TableView,
      openRoot [4, 0, 0, 0, 252, 255, 255, 255, 5, 0, 8, 0, 0] = .ok first ∧
      openRoot [4, 0, 0, 0, 252, 255, 255, 255, 5, 0, 8, 0, 0, 17] = .ok second ∧
      first.vtable.entry 4 = .error .outOfRange ∧ first.entry 6 = .ok 0 ∧
      second.vtable.entry 4 = .ok 4352 ∧ second.entry 6 = .ok 0 := by
  let ends : Bytes := [4, 0, 0, 0, 252, 255, 255, 255, 5, 0, 8, 0, 0]
  obtain ⟨first, opened⟩ : ∃ first, openRoot ends = .ok first := ⟨_, rfl⟩
  obtain ⟨second, openedSecond⟩ : ∃ second, openRoot (ends ++ [17]) = .ok second := ⟨_, rfl⟩
  obtain ⟨vtable, inline, -, sized, -, -, slots⟩ := (Accepted.whole opened).slots_resolve
  obtain ⟨wide, _, -, sizedSecond, -, -, slotsSecond⟩ := (Accepted.whole openedSecond).slots_resolve
  cases opened
  cases openedSecond
  have length : 5 = vtable.length := Except.ok.inj sized
  have lengthSecond : 5 = wide.length := Except.ok.inj sizedSecond
  have cut := (slots 4).2.2 length
  have completed := (slotsSecond 4).2.2 lengthSecond
  rw [← length] at cut
  rw [← lengthSecond] at completed
  obtain ⟨last, -, entered⟩ := completed.2 17 rfl
  refine ⟨_, _, rfl, rfl, (slots 4).1.1.trans (cut.1.mpr rfl), rfl, ?_, rfl⟩
  exact (slotsSecond 4).1.1.trans rfl

end WireTables
