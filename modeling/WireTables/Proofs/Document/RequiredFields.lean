import WireTables.Proofs.Builder.History
import WireTables.Proofs.Document.Shape
import WireTables.Proofs.Document.Stacking
import WireTables.Proofs.View.Accepted
import WireTables.Proofs.View.RootBounds

/-!
Asking a builder whether a field of a table was set. The answer is read from the vtable of the table,
which it may share with others, and by the rule of the readers: whatever slot is asked for, the two
bytes there are the entry. For the slot of a field they tell whether it was stored. But no table can
store a field in the slots of the header or in odd slots, and there the answer is made of numbers
that are no entries.
-/

namespace WireTables

open Build

section Sessions

variable {builder : Builder}

/-- Nothing was written since the builder was made or cleared, whatever was done before. -/
inductive Builder.Blank : Builder → Prop
  | new (options : BuilderOptions) : Blank (.ofOptions options)
  | cleared {builder : Builder} (before : Attainable builder) : Blank builder.clear

theorem Builder.Blank.measured (blank : builder.Blank) : builder.Measured := by
  cases blank with
  | new options => exact .new options
  | cleared before => exact .cleared before

theorem Builder.Blank.openObject (blank : builder.Blank) : builder.openObject = .nothing := by
  cases blank <;> rfl

theorem Builder.Blank.vtables (blank : builder.Blank) : builder.vtables = [] := by
  cases blank <;> rfl

theorem Builder.Measured.attainable (measured : builder.Measured) : builder.Attainable := by
  induction measured with
  | new options => exact .new options
  | cleared before => exact before.step .clear rfl
  | step call _ stepped _ ih => exact ih.step call stepped

theorem Builder.Measured.turns (measured : builder.Measured) :
    ∃ first list, first.Blank ∧ Turns first list builder := by
  induction measured with
  | new options => exact ⟨_, [], .new options, .nothing⟩
  | cleared before => exact ⟨_, [], .cleared before, .nothing⟩
  | step call before stepped small ih =>
      by_cases cleared : call = .clear
      · subst cleared
        rw [Call.clear_of_step stepped]
        exact ⟨_, [], .cleared before.attainable, .nothing⟩
      · rcases ih with ⟨first, list, blank, turns⟩
        exact ⟨first, _, blank, turns.made cleared stepped small⟩

end Sessions

theorem held_isSome_iff {entries : List Entry} {slot : Slot} :
    (held entries slot).isSome = true ↔
      ∃ entry ∈ entries, entry.slot = slot ∧ entry.stored = true := by
  rw [held, Option.isSome_map, List.find?_isSome]
  simp only [Bool.and_eq_true, beq_iff_eq]

section Spans

variable {before after : Builder} {start table vtable : UInt32} {fields : List UInt32}
  {bytes : Bytes} {slot : Slot}

/-- The bytes of a vtable and the byte behind it. That one opens the distance of the table for which
the vtable was written, and as this table stands right behind the vtable, it is of the same size. -/
def vtableSpan (table start : UInt32) (fields : List UInt32) : Bytes :=
  vtableBytes table start fields ++ [UInt8.ofNat (vtableWidth fields)]

/-- What the readers take for an entry of the slot is there, and not zero. -/
def EntrySet (table start : UInt32) (fields : List UInt32) (slot : Slot) : Prop :=
  slot.toNat < vtableWidth fields ∧
    ((vtableSpan table start fields).drop slot.toNat).take entryWidth ≠ [0, 0]

instance : Decidable (EntrySet table start fields slot) :=
  inferInstanceAs (Decidable (_ ∧ _))

/-- A vtable that is kept for later tables stands with the byte behind it. -/
def SpanStands (bytes : Bytes) (vtable : UInt32) : Prop :=
  ∃ table start fields, vtableWidth fields ≤ maxEntry ∧
    StandsAt bytes vtable.toNat (vtableSpan table start fields)

theorem SpanStands.of_suffix {whole : Bytes} (suffix : bytes <:+ whole)
    (span : SpanStands bytes vtable) : SpanStands whole vtable := by
  rcases span with ⟨table, start, fields, small, stands⟩
  exact ⟨table, start, fields, small, stands.of_suffix suffix⟩

theorem length_vtableSpan (table start : UInt32) (fields : List UInt32) :
    (vtableSpan table start fields).length = vtableWidth fields + 1 := by
  rw [vtableSpan, List.length_append, length_vtableBytes]
  rfl

theorem encode_vtableDistance {width : Nat} (near : vtable.toNat = width + table.toNat) :
    ∃ rest, ScalarType.int32.encode (vtableDistance vtable table) = UInt8.ofNat width :: rest := by
  have distance : (vtable - table).toNat = width := by
    rw [UInt32.toNat_sub_of_le _ _ (UInt32.le_iff_toNat_le.mpr (by omega))]
    omega
  refine ⟨encodeWord 3 (width / 256), ?_⟩
  rw [← distance]
  rfl

theorem Closed.span (closed : Closed before after start fields table vtable)
    (known : ∀ vtable ∈ before.vtables, SpanStands before.storage.written vtable) :
    StandsAt after.storage.written vtable.toNat (vtableSpan table start fields) := by
  rcases closed.written with ⟨front, written, ⟨-, cached, -⟩ | ⟨rfl, rfl, -⟩⟩
  · obtain ⟨otherTable, otherStart, others, otherSmall, span⟩ :=
      (known vtable cached).of_suffix closed.suffix
    -- the kept vtable was written with another table, but its bytes are those of this one
    have width : vtableWidth fields = vtableWidth others :=
      vtableWidth_eq closed.standing span.beginning closed.vtableSize otherSmall
    have taken := closed.standing.slice_eq
    rw [length_vtableBytes, width, ← length_vtableBytes otherTable otherStart,
      span.beginning.slice_eq] at taken
    rw [vtableSpan, ← Except.ok.inj taken, width]
    exact span
  · have size := congrArg List.length written
    simp only [List.length_append, length_vtableBytes, ScalarType.length_encode, length_zeros,
      ← after.storage.size_eq, ← before.storage.size_eq] at size
    have near : after.head.toNat = vtableWidth fields + table.toNat := by
      rw [closed.headed, closed.place, size, Nat.add_assoc]
      rfl
    obtain ⟨rest, distance⟩ := encode_vtableDistance near
    rw [distance, List.cons_append, ← List.singleton_append, ← List.append_assoc] at written
    have stands := StandsAt.of_front (vtableSpan table start fields)
      (rest ++ (zeros (paddingTo referenceWidth before.storage.size) ++ before.storage.written))
    rw [closed.headed, after.storage.size_eq, written, List.length_append]
    exact stands

theorem Turns.spans {first last : Builder} {list : List Turn} (turns : Turns first list last)
    (ordered : first.Ordered) (none : first.vtables = []) :
    ∀ vtable ∈ last.vtables, SpanStands last.storage.written vtable :=
  turns.each_vtable (fun _ builder vtable => SpanStands builder.storage.written vtable) ordered none
    (fun suffix span => span.of_suffix suffix)
    (fun closed known => ⟨_, _, _, closed.vtableSize, closed.span known⟩)

end Spans

section Entries

variable {start table vtable : UInt32} {fields : List UInt32} {bytes : Bytes} {slot : Slot}

theorem decode_ne_zero_iff {word : Bytes} (wide : word.length = entryWidth) :
    ScalarType.uint16.decode word ≠ 0 ↔ word ≠ [0, 0] := by
  have zero : ScalarType.uint16.decode [0, 0] = 0 := rfl
  have bits : decodeWord word < 65536 := by
    have small := decodeWord_lt word
    rw [wide] at small
    exact small
  refine not_congr ⟨fun same => ?_, fun same => same ▸ zero⟩
  have none : decodeWord word = 0 := by
    have value := congrArg UInt16.toNat same
    rw [ScalarType.decode, ScalarType.ofBits, UInt16.toNat_ofNat_of_lt' bits] at value
    exact value
  rw [← encodeWord_decodeWord word, wide, none]
  rfl

theorem StandsAt.has_entry (span : StandsAt bytes vtable.toNat (vtableSpan table start fields))
    (slot : Slot) :
    (TableStands.view bytes table vtable fields).has slot =
      .ok (decide (EntrySet table start fields slot)) := by
  rw [TableView.has, TableView.entry]
  change (if vtableWidth fields ≤ slot.toNat then .ok 0 else
    loadScalar .uint16 bytes (bytes.length - vtable.toNat + slot.toNat)) >>= _ = _
  split
  case isTrue past =>
    have unset : ¬ EntrySet table start fields slot :=
      fun set => absurd set.1 (Nat.not_lt.mpr past)
    rw [decide_eq_false unset]
    rfl
  case isFalse inside =>
    have fits : slot.toNat + entryWidth ≤ (vtableSpan table start fields).length := by
      rw [length_vtableSpan, entryWidth]
      omega
    have word := slice_ok fits
    have loaded : loadScalar .uint16 bytes (bytes.length - vtable.toNat + slot.toNat) = _ :=
      congrArg (Except.map ScalarType.uint16.decode) ((slice_of_slice span.slice_eq fits).trans word)
    rw [loaded]
    refine congrArg Except.ok (Bool.eq_iff_iff.mpr ?_)
    rw [bne_iff_ne, decode_ne_zero_iff (length_of_slice word), decide_eq_true_eq]
    exact (and_iff_right (Nat.not_le.mp inside)).symm

theorem entrySet_of_header (small : vtableWidth fields ≤ maxEntry)
    (inlineSize : table.toNat - start.toNat ≤ maxEntry) (inline : 0 < table.toNat - start.toNat)
    (header : slot = 0 ∨ slot = 2) : EntrySet table start fields slot := by
  have wide : vtableHeaderWidth ≤ vtableWidth fields := Nat.le_add_right _ _
  have filled {value : Nat} (bound : value ≤ maxEntry) (positive : 0 < value) :
      shortWord value ≠ [0, 0] := fun same =>
    absurd (shortWord_inj bound (Nat.zero_le _) (same.trans rfl))
      (Nat.ne_of_gt positive)
  rcases header with rfl | rfl
  · exact ⟨Nat.lt_of_lt_of_le (by decide) wide, filled small (Nat.lt_of_lt_of_le (by decide) wide)⟩
  · exact ⟨Nat.lt_of_lt_of_le (by decide) wide, filled inlineSize inline⟩

theorem TableStands.has_eq_held {turns : List Turn} {entries : List Entry} {index : Nat}
    (stands : TableStands bytes start table vtable fields)
    (below : ∀ location ∈ fields, location.toNat < table.toNat)
    (traced : Traced turns start slot (placeOf fields slot) (held entries slot))
    (place : indexOfSlot slot = some index) :
    (view bytes table vtable fields).has slot = .ok (held entries slot).isSome := by
  cases holds : held entries slot with
  | none =>
      rw [holds] at traced
      have blank : fields.getD index 0 = 0 := placeOf_index place ▸ traced
      exact (TableView.lacks_of_zero (stands.entry_eq_zero place blank)).has
  | some content =>
      rw [holds] at traced
      rcases traced with ⟨origin, -, -, stored⟩
      have finds := stands.finds place (placeOf_index place).symm stored.present
        (below _ (mem_of_placeOf stored.present))
      exact finds.has

theorem Traced.held_eq_none {turns : List Turn} {entries : List Entry}
    (traced : Traced turns start slot (placeOf fields slot) (held entries slot))
    (invalid : indexOfSlot slot = none) : held entries slot = none := by
  cases holds : held entries slot with
  | none => rfl
  | some content =>
      rw [holds] at traced
      rcases traced with ⟨origin, -, -, stored⟩
      obtain ⟨index, place⟩ := indexOfSlot_of_placeOf stored.present
      rw [invalid] at place
      cases place

end Entries

/-- A builder that asks for a field of a table it wrote answers as the reader of the written bytes
does, and stays as it is. -/
theorem requireField_of_has {builder : Builder} {table : UInt32} {view : TableView} {slot : Slot}
    {found : Bool} (ordered : builder.Ordered) (present : table ≠ 0)
    (inside : table.toNat ≤ builder.storage.size)
    (loaded : TableView.load builder.storage.written
      (builder.storage.written.length - table.toNat) = .ok view)
    (has : view.has slot = .ok found) :
    (Call.requireField ⟨table⟩ slot).step builder =
      .ok (if found then .ok .nothing else .error (.missingField slot), builder) := by
  have written : requireWritten (⟨table⟩ : Offset .table) builder = .done () builder := by
    have low : ¬ (table = 0 ∨ builder.head < table) := by
      rw [not_or, UInt32.not_lt, UInt32.le_iff_toNat_le, ordered.toNat_head]
      exact ⟨present, inside⟩
    rw [requireWritten, head_bind, if_neg low]
    rfl
  rw [← builder.storage.size_eq] at loaded
  have viewed : builder.viewTable ⟨table⟩ = .ok (view.moved builder.storage.free.reverse) :=
    Builder.viewTable_of_load inside loaded
  have seen := (view.has_moved builder.storage.free.reverse slot).trans has
  have ran : requireField ⟨table⟩ slot builder =
      if found then .done () builder else .refused (.missingField slot) builder := by
    rw [requireField, bind_of_done written, state_bind, viewed]
    change (ofRead ((view.moved _).has slot) >>= _) builder = _
    rw [seen]
    cases found <;> rfl
  cases found with
  | true => exact Call.step_of_done (Call.replying_of_done ran)
  | false => exact Call.step_of_refused (Call.replying_of_refused ran)

/-- A builder answers for every table that was closed since it was made or cleared, and for every
slot. If the slot is that of a field, the field counts as set just when something was stored there
while the table was open. In any other slot nothing can be stored. The two slots of the header count
as set nevertheless, and so does every odd slot below the size of the vtable unless the two bytes
there are zero. -/
theorem Turns.required_fields {first builder : Builder} {later earlier : List Turn} {closing : Turn}
    {table : UInt32} (blank : first.Blank)
    (made : Turns first (later ++ closing :: earlier) builder) (closes : closing.call = .closeTable)
    (answered : closing.answer = .ok (.object table)) (slot : Slot) :
    let stored := ∃ entry ∈ (Ledger.empty.over earlier).pending,
      entry.slot = slot ∧ entry.stored = true
    ∃ (found : Bool) (start : UInt32) (fields : List UInt32),
      closing.before.openObject = .table start fields ∧
      (Call.requireField ⟨table⟩ slot).step builder =
        .ok (if found then .ok .nothing else .error (.missingField slot), builder) ∧
      (found = true ↔ EntrySet table start fields slot) ∧
      (∀ index, indexOfSlot slot = some index → (found = true ↔ stored)) ∧
      (indexOfSlot slot = none → ¬ stored) ∧
      (slot = 0 ∨ slot = 2 → found = true) := by
  intro stored
  have ordered := blank.measured.ordered
  have member : closing ∈ later ++ closing :: earlier :=
    List.mem_append_right _ List.mem_cons_self
  obtain ⟨start, fields, vtable, closed, stands⟩ := made.closed_table ordered member closes answered
  have early := made.until_turn
  obtain ⟨started, within⟩ := (early.ordered ordered).opened start fields closed.opened
  have traced := early.traced ordered blank.openObject start fields closed.opened slot
  have span := (closed.span (early.spans ordered blank.vtables)).of_suffix
    (Builder.suffix_of_changes (made.holds ordered member).late)
  have has := span.has_entry slot
  have far := closed.place
  have width : 0 < referenceWidth := by decide
  have present : table ≠ 0 := by
    rintro rfl
    change 0 = _ at far
    omega
  have inline : 0 < table.toNat - start.toNat := by omega
  have inside := stands.link.distance_le
  rw [← builder.storage.size_eq] at inside
  have stepped := requireField_of_has (made.ordered ordered) present inside stands.load has
  refine ⟨_, start, fields, closed.opened, stepped, decide_eq_true_iff, ?_, ?_, ?_⟩
  · intro index place
    have below (location : UInt32) (member : location ∈ fields) : location.toNat < table.toNat := by
      have reached := within location member
      omega
    have found := stands.has_eq_held below traced place
    rw [Except.ok.inj (has.symm.trans found)]
    exact held_isSome_iff
  · intro invalid
    have blank : ¬ (held (Ledger.empty.over earlier).pending slot).isSome = true := by
      rw [traced.held_eq_none invalid]
      exact Bool.false_ne_true
    rwa [held_isSome_iff] at blank
  · intro header
    exact decide_eq_true
      (entrySet_of_header closed.vtableSize closed.inlineSize inline header)

theorem required_fields_of_int16 :
    ∃ builder : Builder, builder.Measured ∧
      (Call.requireField ⟨8⟩ 0).step builder = .ok (.ok .nothing, builder) ∧
      (Call.requireField ⟨8⟩ 3).step builder = .ok (.ok .nothing, builder) ∧
      (Call.requireField ⟨8⟩ 4).step builder = .ok (.ok .nothing, builder) ∧
      (Call.requireField ⟨8⟩ 6).step builder = .ok (.error (.missingField 6), builder) := by
  let calls : List Call := [.openTable 1, .storeScalar 4 .int16 (5 : Int16) 0]
  have evaluated : ((fun stages =>
      (decide ((∀ stage ∈ stages, stage.2.storage.size ≤ maxBufferSize) ∧
        ((Builder.ofOptions ⟨64, false⟩).lastOf stages).openObject = .table 0 [2]),
        ((fun last : Answer × Builder =>
          decide (objectOf last.1 = some 8 ∧ last.2.storage.size ≤ maxBufferSize)) <$>
            Call.closeTable.step ((Builder.ofOptions ⟨64, false⟩).lastOf stages)).toOption)) <$>
        (Builder.ofOptions ⟨64, false⟩).run calls).toOption = some (true, some true) := by
    decide +kernel
  obtain ⟨stages, ran, shown⟩ := read_map.mp (ok_of_toOption evaluated)
  simp only [Prod.mk.injEq, decide_eq_true_eq] at shown
  obtain ⟨⟨small, opened⟩, shown⟩ := shown
  obtain ⟨⟨answer, builder⟩, closes, shown⟩ := read_map.mp (ok_of_toOption shown)
  simp only [decide_eq_true_eq] at shown
  obtain ⟨answered, few⟩ := shown
  have kept : ∀ call ∈ calls, call ≠ .clear := by simp [calls]
  have early := Turns.nothing.of_run kept small ran
  have turns : Turns (.ofOptions ⟨64, false⟩) ([] ++ ⟨_, .closeTable, answer, builder⟩ :: _) builder :=
    early.made nofun closes few
  have before : Builder.Reachable _ := .lastOf (.new ⟨64, false⟩ (by decide)) ran
  have asked (slot : Slot) : (Call.requireField ⟨8⟩ slot).step builder =
      .ok (if EntrySet 8 0 [2] slot then .ok .nothing else .error (.missingField slot), builder) := by
    obtain ⟨found, start, fields, same, stepped, set, -⟩ :=
      Turns.required_fields (.new _) turns rfl (objectOf_eq_some.mp answered) slot
    rw [opened] at same
    cases same
    rw [stepped]
    simp only [set]
  exact ⟨builder, before.measured.step _ closes few, (asked 0).trans rfl, (asked 3).trans rfl,
    (asked 4).trans rfl, (asked 6).trans rfl⟩

end WireTables
