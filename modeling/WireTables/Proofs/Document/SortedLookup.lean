import Mathlib.Tactic.Choose
import WireTables.Proofs.Builder.Sorting
import WireTables.Proofs.Builder.VTables
import WireTables.Proofs.Document.Piece
import WireTables.Proofs.View.SortedSearch

namespace WireTables

open Build

namespace Build

variable {before after : Builder}

theorem writeSortedBy_done {compare : TableView → TableView → Except Fault Ordering}
    {tables order : List (Offset .table)} {vector : Offset (.vector .table)}
    (ran : writeSortedBy compare tables before = .done ⟨order, .ok vector⟩ after) :
    insertionSort (fun left right => do
        compare (← before.viewTable left) (← before.viewTable right)) tables = .ok order ∧
      writeReferences order before = .done vector after := by
  rcases done_bind.mp ran with ⟨checked, same, required, ran⟩
  obtain rfl := (still_requireEachWritten tables before).attempt.of_done required
  cases checked with
  | error error => cases ran
  | ok _ =>
      simp only [state_bind] at ran
      rcases done_bind.mp ran with ⟨sorted, same, read, ran⟩
      obtain rfl := (still_ofRead _ _).of_done read
      rcases done_bind.mp ran with ⟨written, last, wrote, ran⟩
      cases ran
      refine ⟨?_, attempt_ok.mp wrote⟩
      generalize insertionSort _ tables = result at read
      cases result with
      | error cause => cases read
      | ok found =>
          cases read
          rfl

end Build

/-- The table shows the key wherever the bytes written so far are the end of a buffer. -/
structure Keyed (builder : Builder) (key : KeyField) (table : Offset .table) (value : key.Value) :
    Prop where
  comparable : key.Comparable value
  shows : ∀ bytes : Bytes, builder.storage.written <:+ bytes →
    ∃ view, TableView.load bytes (bytes.length - table.value.toNat) = .ok view ∧
      key.Shows view value

section Keys

variable {builder : Builder} {key : KeyField} {table : Offset .table} {value : key.Value}
  {records : List TableRecord}

theorem KeepsVTables.readable (keeps : KeepsVTables builder records)
    (known : table.value ∈ records.map TableRecord.table) : builder.Readable table := by
  obtain ⟨record, recorded, same⟩ := List.mem_map.mp known
  obtain ⟨vtable, -, stands⟩ := keeps.linked record recorded
  rw [same] at stands
  rw [Builder.Readable, builder.storage.size_eq]
  exact ⟨stands.link.distance_le, _, stands.load⟩

theorem Builder.Readable.keyed (readable : builder.Readable table)
    (held : ∀ view, builder.viewTable table = .ok view → key.HeldBy view) :
    ∃ value, Keyed builder key table value := by
  obtain ⟨inside, here, found⟩ := readable
  obtain ⟨value, shows, comparable⟩ := (held _ (viewTable_of_load inside found)).shows
  rw [key.shows_moved] at shows
  refine ⟨value, comparable, ?_⟩
  rintro bytes ⟨front, rfl⟩
  refine ⟨here.moved front, ?_, (key.shows_moved front here value).mpr shows⟩
  rw [builder.storage.size_eq] at inside found
  rw [length_append_sub front inside]
  exact TableView.load_append_front front found

theorem Keyed.viewTable (keyed : Keyed builder key table value) :
    ∃ view, builder.viewTable table = .ok view ∧ key.Shows view value := by
  obtain ⟨view, loaded, shows⟩ := keyed.shows builder.storage.contents (List.suffix_append _ _)
  rw [builder.storage.length_contents] at loaded
  exact ⟨view, loaded, shows⟩

end Keys

section Sorting

variable {before after : Builder} {key : KeyField} {tables order : List (Offset .table)}
  {keyOf : Offset .table → key.Value}

theorem stableSort_of_keyed (keyed : ∀ table ∈ tables, Keyed before key table (keyOf table))
    (sorted : insertionSort (fun left right => do
      key.orderTables (← before.viewTable left) (← before.viewTable right)) tables = .ok order) :
    StableSort (fun left right => key.compareKeys (keyOf left) (keyOf right)) tables order := by
  have : Std.TransCmp fun left right => key.compareKeys (keyOf left) (keyOf right) :=
    transCmp_comap keyOf
  have compared : ∀ left ∈ tables, ∀ right ∈ tables, (do
      key.orderTables (← before.viewTable left) (← before.viewTable right)) =
        .ok (key.compareKeys (keyOf left) (keyOf right)) := by
    intro left first right second
    obtain ⟨leftView, leftLoaded, leftKey⟩ := (keyed left first).viewTable
    obtain ⟨rightView, rightLoaded, rightKey⟩ := (keyed right second).viewTable
    refine read_bind.mpr ⟨_, leftLoaded, read_bind.mpr ⟨_, rightLoaded, ?_⟩⟩
    exact KeyField.orderTables_of_shows leftKey rightKey (keyed left first).comparable
      (keyed right second).comparable
  obtain ⟨found, ran, stable⟩ := stableSort_of_insertionSort compared
  obtain rfl := Except.ok.inj (sorted.symm.trans ran)
  exact stable

end Sorting

section Reading

variable {bytes : Bytes} {distance : Nat} {items : List (Offset .table)}
  {viewOf : Offset .table → TableView}

theorem vectorShown_of_tables {payload : Bytes} (small : bytes.length ≤ maxBufferSize)
    (length : payload.length = items.length * referenceWidth)
    (stands : StandsAt bytes distance
      (ScalarType.uint32.encode (UInt32.ofNat items.length) ++ payload))
    (refers : ∀ (index : Nat) (item : Offset .table), items[index]? = some item →
      RefersTo bytes (distance - (referenceWidth + index * referenceWidth)) item.value.toNat)
    (loads : ∀ item ∈ items,
      TableView.load bytes (bytes.length - item.value.toNat) = .ok (viewOf item)) :
    ∃ vector : VectorView .table, VectorView.load bytes (bytes.length - distance) = .ok vector ∧
      VectorShown vector (items.map viewOf) := by
  apply vector_of_references rfl small length (List.length_map _).symm stands
  intro index view reached
  rw [List.getElem?_map, Option.map_eq_some_iff] at reached
  rcases reached with ⟨item, reached, rfl⟩
  exact read_bind.mpr ⟨_, (refers index item reached).follow,
    loads item (List.mem_of_getElem? reached)⟩

end Reading

/-- What is found by keys in the vector of the sorted tables. -/
structure LooksUp (key : KeyField) (tables order : List (Offset .table))
    (keyOf : Offset .table → key.Value) (viewOf : Offset .table → TableView)
    (vector : VectorView .table) : Prop where
  shown : VectorShown vector (order.map viewOf)
  compares : ∀ left ∈ tables, ∀ right ∈ tables,
    key.orderTables (viewOf left) (viewOf right) = .ok (key.compareKeys (keyOf left) (keyOf right))
  ascending : (order.map viewOf).Pairwise fun left right =>
    ∃ ordering, key.orderTables left right = .ok ordering ∧ ordering ≠ .gt
  find : ∀ value : key.Value, key.Comparable value →
    ∃ found, vector.find key value = .ok found ∧
      (∀ view, found = some view → key.orderWith value view = .ok .eq ∧
        ∃ table ∈ tables, view = viewOf table ∧ key.compareKeys (keyOf table) value = .eq) ∧
      (found.isSome ↔ ∃ table ∈ tables, key.compareKeys (keyOf table) value = .eq)

theorem looksUp_of_shown {key : KeyField} {tables order : List (Offset .table)}
    {keyOf : Offset .table → key.Value} {viewOf : Offset .table → TableView}
    {vector : VectorView .table}
    (stable : StableSort (fun left right => key.compareKeys (keyOf left) (keyOf right)) tables order)
    (comparable : ∀ table ∈ tables, key.Comparable (keyOf table))
    (shows : ∀ table ∈ tables, key.Shows (viewOf table) (keyOf table))
    (shown : VectorShown vector (order.map viewOf)) :
    LooksUp key tables order keyOf viewOf vector := by
  have original {table : Offset .table} (member : table ∈ order) : table ∈ tables :=
    stable.perm.mem_iff.mp member
  have compares : ∀ left ∈ tables, ∀ right ∈ tables, key.orderTables (viewOf left) (viewOf right) =
      .ok (key.compareKeys (keyOf left) (keyOf right)) := fun left first right second =>
    KeyField.orderTables_of_shows (shows left first) (shows right second) (comparable left first)
      (comparable right second)
  constructor
  case shown => exact shown
  case compares => exact compares
  case ascending =>
    apply List.pairwise_map.mpr
    apply stable.ascending.imp_of_mem
    intro left right leftMember rightMember ascends
    exact ⟨_, compares left (original leftMember) right (original rightMember), ascends⟩
  case find =>
    intro value sought
    have length : vector.length = order.length := by rw [shown.length, List.length_map]
    obtain ⟨found, ran, hit, miss⟩ := find_ascending length shown.get
      (fun table member => shows table (original member))
      (fun table member => comparable table (original member)) stable.ascending sought
    refine ⟨found, ran, fun view same => ?_, ?_⟩
    · obtain ⟨item, member, rfl, equal⟩ := hit view same
      refine ⟨?_, item, original member, rfl, equal⟩
      rw [KeyField.orderWith_of_shows (shows item (original member))
        (comparable item (original member)) sought, equal]
    · cases found with
      | none =>
          have none := miss rfl
          simp only [Option.isSome_none, Bool.false_eq_true, false_iff, not_exists, not_and]
          exact fun table member => none table (stable.perm.mem_iff.mpr member)
      | some table =>
          obtain ⟨item, member, -, equal⟩ := hit table rfl
          simp only [Option.isSome_some, true_iff]
          exact ⟨item, original member, equal⟩

/-- However many tables were closed since the builder was cleared, and whichever of them are put
into a vector by a key that each of them lacks or has a comparable value of: the vector has them in
stable ascending order of the keys they show, texts by their unsigned bytes and values by their
numbers, and in all finished bytes later on it shows just these tables, each with the key that it
was sorted by; a search by any comparable key finds a table that has it, if any does. -/
theorem Builder.Recorded.sorted_lookup {builder sorted : Builder} {records : List TableRecord}
    {key : KeyField} {tables order : List (Offset .table)} {vector : Offset (.vector .table)}
    {calls : List Call} {stages : List (Answer × Builder)} (recorded : builder.Recorded records)
    (known : ∀ table ∈ tables, table.value ∈ records.map TableRecord.table)
    (held : ∀ table ∈ tables, ∀ view, builder.viewTable table = .ok view → key.HeldBy view)
    (wrote : writeSorted key tables builder = .done ⟨order, .ok vector⟩ sorted)
    (kept : ∀ call ∈ calls, call ≠ .clear) (ran : sorted.run calls = .ok stages) :
    ∃ keyOf : Offset .table → key.Value,
      (∀ table ∈ tables, ∃ view, builder.viewTable table = .ok view ∧
        key.Shows view (keyOf table)) ∧
      StableSort (fun left right => key.compareKeys (keyOf left) (keyOf right)) tables order ∧
      ∀ stage ∈ stages, stage.2.finished = true →
        ∃ (bytes : Bytes) (found : VectorView .table) (viewOf : Offset .table → TableView),
          stage.2.finishedBytes = .ok bytes ∧
          VectorView.load bytes (bytes.length - vector.value.toNat) = .ok found ∧
          (∀ table ∈ tables,
            TableView.load bytes (bytes.length - table.value.toNat) = .ok (viewOf table) ∧
              key.Shows (viewOf table) (keyOf table)) ∧
          LooksUp key tables order keyOf viewOf found := by
  have keeps := recorded.keepsVTables
  have keys : ∀ table ∈ tables, ∃ value, Keyed builder key table value := fun table member =>
    (keeps.readable (known table member)).keyed (held table member)
  have : Nonempty key.Value := by
    cases key with
    | string slot => exact ⟨([] : Bytes)⟩
    | scalar type slot => exact ⟨type.zero⟩
  have : Nonempty TableView := ⟨⟨[], 0, 0, 0⟩⟩
  choose! keyOf keyed using keys
  obtain ⟨sortRan, writeRan⟩ := writeSortedBy_done wrote
  have stable := stableSort_of_keyed keyed sortRan
  obtain ⟨payload, length, written, refers⟩ := writeReferences_done keeps.sound.fits writeRan
  have changes : Changes builder sorted :=
    (changes_allow.of_writeReferences order builder).of_done writeRan
  have sortedSound := sound_of_changes keeps.sound changes
  refine ⟨keyOf, fun table member => (keyed table member).viewTable, stable,
    fun stage member finished => ?_⟩
  have later := changes_of_run sortedSound kept ran stage member
  have small := size_le (sound_of_changes sortedSound later).fits
  rw [stage.2.storage.size_eq] at small
  obtain ⟨front, ends⟩ := suffix_of_changes later
  -- the storage that was sorted and the finished bytes end alike, so both show the same keys
  have whole : builder.storage.written <:+ stage.2.storage.written :=
    (suffix_of_changes changes).trans ⟨front, ends⟩
  choose! viewOf loads shows using fun table member => (keyed table member).shows _ whole
  have stands := written.stands.append_front front
  have refersLater : ∀ (index : Nat) (item : Offset .table), order[index]? = some item →
      RefersTo stage.2.storage.written
        (vector.value.toNat - (referenceWidth + index * referenceWidth)) item.value.toNat := by
    intro index item reached
    rw [← ends]
    exact (refers index item reached).append_front front
  rw [ends] at stands
  obtain ⟨found, loaded, shown⟩ := vectorShown_of_tables small length stands refersLater
    fun item member => loads item (stable.perm.mem_iff.mp member)
  refine ⟨_, found, viewOf, if_pos finished, loaded,
    fun table member => ⟨loads table member, shows table member⟩, ?_⟩
  exact looksUp_of_shown stable (fun table member => (keyed table member).comparable) shows shown

theorem LooksUp.find_of_keys {key : KeyField} {tables order : List (Offset .table)}
    {keyOf : Offset .table → key.Value} {viewOf : Offset .table → TableView}
    {vector : VectorView .table} {keys : List key.Value} {sought : key.Value}
    (looksUp : LooksUp key tables order keyOf viewOf vector) (listed : tables.map keyOf = keys)
    (comparable : key.Comparable sought) :
    ∃ found, vector.find key sought = .ok found ∧
      (found.isSome ↔ keys.any (key.compareKeys · sought == .eq)) := by
  obtain ⟨found, finds, -, hit⟩ := looksUp.find sought comparable
  refine ⟨found, finds, hit.trans ?_⟩
  rw [← listed, List.any_map, List.any_eq_true]
  exact exists_congr fun table => and_congr_right fun _ => beq_iff_eq.symm

/-- Sorts the tables and goes on; tells the order, the vector and whether all was finished. -/
def sortingThen (key : KeyField) (tables : List (Offset .table)) (calls : List Call) :
    Build (List (Offset .table) × Option (Offset (.vector .table)) × Option Bool) := do
  let result ← writeSorted key tables
  let middle ← state
  pure (result.order, result.vector.toOption, ((fun stages : List (Answer × Builder) =>
    stages.getLast?.any fun stage => stage.2.finished) <$> middle.run calls).toOption)

theorem finished_of_sortingThen {builder : Builder} {key : KeyField}
    {tables order : List (Offset .table)} {vector : Offset (.vector .table)} {calls : List Call}
    (sorting : (sortingThen key tables calls builder).value? =
      some (order, some vector, some true)) :
    ∃ (sorted : Builder) (stages : List (Answer × Builder)),
      writeSorted key tables builder = .done ⟨order, .ok vector⟩ sorted ∧
        sorted.run calls = .ok stages ∧ ∃ stage ∈ stages, stage.2.finished = true := by
  obtain ⟨after, ran⟩ := Outcome.done_of_value? sorting
  rcases done_bind.mp ran with ⟨⟨written, outcome⟩, sorted, wrote, ran⟩
  rw [state_bind] at ran
  obtain ⟨results, rfl⟩ := Outcome.done.inj ran
  simp only [Prod.mk.injEq] at results
  rcases results with ⟨rfl, vectorWritten, laterRan⟩
  obtain rfl := ok_of_toOption vectorWritten
  obtain ⟨stages, stagesRan, finished⟩ := read_map.mp (ok_of_toOption laterRan)
  obtain ⟨stage, isLast, finished⟩ := (Option.any_eq_true _ _).mp finished
  exact ⟨sorted, stages, wrote, stagesRan, stage, List.mem_of_getLast? isLast, finished⟩

theorem sorted_lookup_of_texts :
    let key : KeyField := .string 4
    ∃ (builder sorted last : Builder) (records : List TableRecord)
      (vector : Offset (.vector .table)) (bytes : Bytes) (found : VectorView .table),
      builder.Recorded records ∧ records.map TableRecord.table = [80, 72, 60, 48, 32] ∧
      writeSorted key [⟨32⟩, ⟨48⟩, ⟨60⟩, ⟨72⟩, ⟨80⟩] builder =
        .done ⟨[⟨60⟩, ⟨72⟩, ⟨32⟩, ⟨80⟩, ⟨48⟩], .ok vector⟩ sorted ∧
      last.finishedBytes = .ok bytes ∧
      VectorView.load bytes (bytes.length - vector.value.toNat) = .ok found ∧
      found.length = 5 ∧ (∃ view, found.find key ([98] : Bytes) = .ok (some view)) ∧
      (∃ view, found.find key ([] : Bytes) = .ok (some view)) ∧
      found.find key ([97] : Bytes) = .ok none := by
  intro key
  let tables : List (Offset .table) := [⟨32⟩, ⟨48⟩, ⟨60⟩, ⟨72⟩, ⟨80⟩]
  let keyed (text : UInt32) : List Call :=
    [.openTable 1, .storeReference 4 (⟨text⟩ : Offset .string), .closeTable]
  let calls : List Call :=
    [.writeByteString [98], .writeByteString [195, 169], .writeByteString [97, 98]] ++
      keyed 8 ++ keyed 16 ++ [.openTable 1, .closeTable] ++ keyed 24 ++ keyed 8
  let later : List Call := [.openTable 1, .storeReference 4 (⟨104⟩ : Offset (.vector .table)),
    .closeTable, .finish ⟨112⟩ none false]
  let reading (builder : Builder) (table : Offset .table) : Option Bytes :=
    (builder.viewTable table >>= key.read : Except Fault Bytes).toOption
  have evaluated : ((fun reached : Builder × List TableRecord =>
      (reached.2.map TableRecord.table,
        tables.all fun table => (reached.1.viewTable table).toOption.all (key.HeldBy ·),
        decide (tables.map (reading reached.1) =
          [some [98], some [195, 169], some [], some [97, 98], some [98]]),
        decide ((sortingThen key tables later reached.1).value? =
          some ([⟨60⟩, ⟨72⟩, ⟨32⟩, ⟨80⟩, ⟨48⟩], some ⟨104⟩, some true)))) <$>
        (Builder.ofOptions ⟨0, false⟩).recording [] calls).toOption =
      some ([80, 72, 60, 48, 32], true, true, true) := by
    decide +kernel
  obtain ⟨⟨builder, records⟩, ran, shown⟩ := read_map.mp (ok_of_toOption evaluated)
  simp only [Prod.mk.injEq, decide_eq_true_eq] at shown
  rcases shown with ⟨closed, holds, readings, sorting⟩
  have recorded := (Builder.Recorded.new ⟨0, false⟩ (by decide)).of_recording ran
  obtain ⟨sorted, stages, wrote, stagesRan, last, member, finished⟩ :=
    finished_of_sortingThen sorting
  have known : ∀ table ∈ tables, table.value ∈ records.map TableRecord.table := by
    rw [closed]
    decide
  have heldBy : ∀ table ∈ tables, ∀ view, builder.viewTable table = .ok view →
      key.HeldBy view := by
    intro table member view loaded
    have shown := List.all_eq_true.mp holds table member
    rw [loaded] at shown
    exact of_decide_eq_true shown
  obtain ⟨keyOf, shows, -, later⟩ :=
    recorded.sorted_lookup known heldBy wrote (by simp [later]) stagesRan
  obtain ⟨bytes, found, viewOf, bytesFinished, loaded, -, looksUp⟩ := later last member finished
  have keys : tables.map keyOf = ([[98], [195, 169], [], [97, 98], [98]] : List Bytes) := by
    apply List.map_injective_iff.mpr (Option.some_injective _)
    rw [List.map_map]
    refine (List.map_congr_left fun table member => ?_).trans readings
    obtain ⟨view, loaded, shown⟩ := shows table member
    simp only [reading, loaded]
    exact (congrArg Except.toOption shown.read).symm
  have hit (sought : Bytes)
      (among : ([[98], [195, 169], [], [97, 98], [98]] : List Bytes).any (cmp · sought == .eq)) :
      ∃ view, found.find key sought = .ok (some view) := by
    obtain ⟨result, finds, hit⟩ := looksUp.find_of_keys keys trivial
    obtain ⟨view, rfl⟩ := Option.isSome_iff_exists.mp (hit.mpr among)
    exact ⟨view, finds⟩
  refine ⟨builder, sorted, last.2, records, ⟨104⟩, bytes, found, recorded, closed, wrote,
    bytesFinished, loaded, looksUp.shown.length, hit [98] (by decide), hit [] (by decide), ?_⟩
  have comparable : key.Comparable ([97] : Bytes) := trivial
  obtain ⟨result, finds, miss⟩ := looksUp.find_of_keys keys comparable
  cases result with
  | none => exact finds
  | some view => exact absurd (miss.mp rfl) (by decide)

end WireTables
