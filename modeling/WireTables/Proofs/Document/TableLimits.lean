import WireTables.Proofs.Builder.Room
import WireTables.Proofs.Document.InlineBounds
import WireTables.Proofs.Document.Recording
import WireTables.Proofs.Document.Shape

namespace WireTables

open Build

/-- Where the table will stand that is closed next: behind its fields, padded, and the distance to
its vtable. -/
def Builder.tablePlace (builder : Builder) : Nat :=
  referenceWidth + paddingTo referenceWidth builder.storage.size + builder.storage.size

section Refusals

variable {before after builder : Builder} {error : Refusal}

theorem forM_refused {α : Type} {visit : α → Build Unit} {keeps : Builder → Prop} {items : List α}
    (kept : ∀ item before after, keeps before → visit item before = .done () after → keeps after)
    (start : keeps builder) (ran : items.forM visit builder = .refused error after) :
    ∃ item ∈ items, ∃ middle, keeps middle ∧ visit item middle = .refused error after := by
  induction items generalizing builder with
  | nil => cases ran
  | cons item items ih =>
      rcases refused_bind.mp ran with refused | ⟨_, middle, visited, rest⟩
      · exact ⟨item, List.mem_cons_self, builder, start, refused⟩
      · obtain ⟨other, member, found⟩ := ih (kept _ _ _ start visited) rest
        exact ⟨other, List.mem_cons_of_mem _ member, found⟩

/-- Why a vtable is not written: there is no room left, or one of the numbers is too large. -/
def RefusedFor (numbers : Nat → Prop) (error : Refusal) : Prop :=
  (∃ cause, error = .capacity cause) ∨
    ∃ number, error = .tableTooLarge number ∧ maxEntry < number ∧ numbers number

theorem RefusedFor.loosen {numbers others : Nat → Prop} (refused : RefusedFor numbers error)
    (among : ∀ number, numbers number → others number) : RefusedFor others error := by
  rcases refused with room | ⟨number, same, large, member⟩
  · exact .inl room
  · exact .inr ⟨number, same, large, among number member⟩

theorem makeRoom_capacity {needed : Nat} (ran : makeRoom needed before = .refused error after) :
    ∃ cause, error = .capacity cause := by
  rw [makeRoom_apply] at ran
  split at ran
  case isFalse => cases ran
  case isTrue =>
    split at ran
    case isTrue =>
      cases ran
      exact ⟨_, rfl⟩
    case isFalse =>
      split at ran <;> cases ran
      exact ⟨_, rfl⟩

theorem addScalar_capacity {type : ScalarType} {value : type.Value}
    (unfinished : before.finished = false)
    (ran : addScalar type value before = .refused error after) :
    ∃ cause, error = .capacity cause := by
  rcases refused_bind.mp ran with prepared | ⟨_, middle, -, written⟩
  · rw [prepare_apply, if_pos type.isPowerOfTwo_width, unfinished, if_neg Bool.false_ne_true]
      at prepared
    dsimp only at prepared
    split at prepared
    case isTrue =>
      cases prepared
      exact ⟨_, rfl⟩
    case isFalse =>
      split at prepared
      case isFalse => cases prepared
      case isTrue =>
        rcases refused_bind.mp prepared with roomless | ⟨_, _, -, padded⟩
        · exact makeRoom_capacity roomless
        · exact absurd padded pad_not_refused
  · exact absurd written put_not_refused

theorem addEntry_refused {entry : Nat} (unfinished : before.finished = false)
    (ran : addEntry entry before = .refused error after) : RefusedFor (· = entry) error := by
  simp only [addEntry] at ran
  split at ran
  case isTrue large =>
    cases ran
    exact .inr ⟨entry, rfl, large, rfl⟩
  case isFalse => exact .inl (addScalar_capacity unfinished ran)

theorem unfinished_of_pushes (pushes : Pushes before after)
    (unfinished : before.finished = false) : after.finished = false := by
  obtain ⟨_, pushed⟩ := pushes
  exact pushed.finished.trans unfinished

inductive VTableNumber (table start : UInt32) (fields : List UInt32) : Nat → Prop
  | field {location : UInt32} (recorded : location ∈ fields) :
      VTableNumber table start fields (vtableEntry table location)
  | inlineSize : VTableNumber table start fields (table.toNat - start.toNat)
  | size : VTableNumber table start fields (vtableWidth fields)

theorem addVTable_refused {table start : UInt32} {fields : List UInt32}
    (started : start.toNat ≤ table.toNat)
    (stored : ∀ location ∈ fields, location.toNat ≤ table.toNat)
    (unfinished : before.finished = false)
    (ran : addVTable table start fields before = .refused error after) :
    RefusedFor (VTableNumber table start fields) error := by
  rw [addVTable_eq started stored] at ran
  have entryKept {entry : Nat} {first second : Builder} (early : first.finished = false)
      (ran : addEntry entry first = .done () second) : second.finished = false :=
    unfinished_of_pushes ((moves_addEntry entry first).of_done ran) early
  rcases refused_bind.mp ran with ran | ⟨_, second, entries, ran⟩
  · obtain ⟨location, member, middle, early, refused⟩ :=
      forM_refused (fun _ _ _ => entryKept) unfinished ran
    refine (addEntry_refused early refused).loosen ?_
    rintro _ rfl
    exact .field (List.mem_of_mem_take (List.mem_reverse.mp member))
  have entered : second.finished = false := unfinished_of_pushes
    ((Moves.forM Pushes.refl Pushes.trans (fun _ => moves_addEntry _) _ before).of_done entries)
    unfinished
  rcases refused_bind.mp ran with ran | ⟨_, third, inlined, ran⟩
  · refine (addEntry_refused entered ran).loosen ?_
    rintro _ rfl
    exact .inlineSize
  · refine (addEntry_refused (entryKept entered inlined) ran).loosen ?_
    rintro _ rfl
    exact .size

theorem closeTable_refusal {start : UInt32} {fields : List UInt32} (ordered : before.Ordered)
    (unfinished : before.finished = false) (opened : before.openObject = .table start fields)
    (ran : closeTable before = .refused error after) :
    ∃ table : UInt32, table.toNat = before.tablePlace ∧
      RefusedFor (VTableNumber table start fields) error := by
  simp only [closeTable_apply, opened] at ran
  have limit : referenceWidth + referenceWidth + maxBufferSize < 2 ^ 32 := by decide
  have padding : paddingTo referenceWidth before.storage.size < referenceWidth :=
    Nat.mod_lt _ (by decide)
  have small := ordered.small
  rcases refused_bind.mp ran with blankless | ⟨_, blank, blanks, ran⟩
  · refine ⟨UInt32.ofNat before.tablePlace, ?_, .inl (addScalar_capacity unfinished blankless)⟩
    exact UInt32.toNat_ofNat_of_lt' (Nat.lt_of_le_of_lt (by rw [Builder.tablePlace]; omega) limit)
  rw [head_bind] at ran
  -- past the blank only a number of the vtable can be refused
  obtain ⟨-, pushed, place, -⟩ := addBlank_done small blanks
  refine ⟨blank.head, place, ?_⟩
  rcases refused_bind.mp ran with refused | ⟨_, last, -, ran⟩
  · obtain ⟨started, stored⟩ := ordered.opened start fields opened
    have beyond : before.storage.size ≤ blank.head.toNat := place ▸ Nat.le_add_left _ _
    exact addVTable_refused (Nat.le_trans started beyond)
      (fun location member => Nat.le_trans (stored location member) beyond)
      (pushed.finished.trans unfinished) refused
  rcases refused_bind.mp ran with refused | ⟨_, _, -, ended⟩
  · exact absurd refused shareVTable_not_refused
  · cases ended

end Refusals

/-- One of the numbers of the vtable does not fit into an entry, where `used` fields have one. -/
inductive TableTooLarge (place : Nat) (start : UInt32) (fields : List UInt32) (used : Nat) : Prop
  | inlineSize (large : maxEntry < place - start.toNat)
  | field {location : UInt32} (recorded : location ∈ fields) (present : location ≠ 0)
      (large : maxEntry < place - location.toNat)
  | vtable (large : maxEntry < vtableHeaderWidth + entryWidth * used)

theorem tooLarge_iff {table start : UInt32} {fields : List UInt32} :
    TableTooLarge table.toNat start fields (usedFields fields) ↔
      ∃ number, VTableNumber table start fields number ∧ maxEntry < number := by
  have width : vtableWidth fields = vtableHeaderWidth + entryWidth * usedFields fields := rfl
  constructor
  · intro large
    cases large with
    | inlineSize large => exact ⟨_, .inlineSize, large⟩
    | field recorded present large =>
        refine ⟨_, .field recorded, ?_⟩
        rwa [vtableEntry, if_neg present]
    | vtable large => exact ⟨_, .size, width ▸ large⟩
  · rintro ⟨number, counted, large⟩
    cases counted with
    | field recorded =>
        rw [vtableEntry] at large
        split at large
        case isTrue => cases large
        case isFalse present => exact .field recorded present large
    | inlineSize => exact .inlineSize large
    | size => exact .vtable (width ▸ large)

structure TableReads (view : TableView) (place : Nat) (start : UInt32) (fields : List UInt32)
    (used : Nat) : Prop where
  fieldCount : view.vtable.fieldCount = .ok used
  tableSize : view.vtable.tableSize = .ok (place - start.toNat)
  entry : ∀ slot index, indexOfSlot slot = some index → ∃ entry, view.entry slot = .ok entry ∧
    entry.toNat =
      if placeOf fields slot = 0 then 0 else place - (placeOf fields slot).toNat

theorem TableStands.reads {bytes : Bytes} {start table vtable : UInt32} {fields : List UInt32}
    (stands : TableStands bytes start table vtable fields)
    (inlineSize : table.toNat - start.toNat ≤ maxEntry) :
    TableReads (TableStands.view bytes table vtable fields) table.toNat start fields
      (usedFields fields) where
  fieldCount := by
    have sized : loadScalar .uint16 bytes (bytes.length - vtable.toNat) =
        .ok (UInt16.ofNat (vtableWidth fields)) := stands.vtable.beginning.load_shortWord
    have size : (TableStands.view bytes table vtable fields).vtable.size =
        .ok (vtableWidth fields) := by
      refine read_bind.mpr ⟨_, sized, ?_⟩
      rw [toNat_ofNat_of_entry stands.vtableSize]
      rfl
    refine read_bind.mpr ⟨_, size, congrArg Except.ok ?_⟩
    rw [vtableWidth, vtableHeaderWidth, Nat.add_sub_cancel_left]
    exact Nat.mul_div_cancel_left _ (by decide)
  tableSize := stands.tableSize_eq inlineSize
  entry slot index place := by
    refine ⟨_, stands.entry_eq place, ?_⟩
    rw [placeOf_index place]
    by_cases present : fields.getD index 0 = 0
    · rw [present]
      rfl
    · rw [toNat_ofNat_of_entry (stands.entries _ (mem_of_getD rfl present)), vtableEntry]

theorem Closed.number_le {before after : Builder} {start table vtable : UInt32}
    {fields : List UInt32} {number : Nat} (closed : Closed before after start fields table vtable)
    (counted : VTableNumber table start fields number) : number ≤ maxEntry := by
  cases counted with
  | field recorded => exact closed.entries _ recorded
  | inlineSize => exact closed.inlineSize
  | size => exact closed.vtableSize

/-- Closing a table is refused for its size just when the bytes it takes, the distance to a field
that was recorded or the size of its vtable do not fit into two bytes; there is no other refusal as
long as there is room. Otherwise the table is read back with exactly these numbers, in whatever
bytes are written in front of it: a slot leads to the location that was recorded for it last. -/
theorem Builder.Reachable.closeTable_exact {builder : Builder} {start : UInt32}
    {fields : List UInt32} (reachable : builder.Reachable)
    (opened : builder.openObject = .table start fields)
    (roomy : ∀ cause after, Call.closeTable.step builder ≠ .ok (.error (.capacity cause), after)) :
    (∃ turns, builder.History turns) ∧
    (∀ turns, builder.History turns → ∀ slot, placeOf fields slot = recordedLast slot turns) ∧
    ∃ answer after used, Call.closeTable.step builder = .ok (answer, after) ∧
      LastRecorded fields used ∧
      ((∃ size, answer = .error (.tableTooLarge size)) ↔
        TableTooLarge builder.tablePlace start fields used) ∧
      (¬ TableTooLarge builder.tablePlace start fields used →
        ∃ table : UInt32, answer = .ok (.object table) ∧ table.toNat = builder.tablePlace ∧
          ∀ bytes, after.storage.written <:+ bytes → bytes.length ≤ maxBufferSize →
            ∃ view, TableView.load bytes (bytes.length - table.toNat) = .ok view ∧
              TableReads view builder.tablePlace start fields used) := by
  have sound := reachable.sound
  have ordered := sound.ordered
  refine ⟨reachable.history, ?_, ?_⟩
  · rintro turns ⟨first, begun, idle, made⟩ slot
    exact made.recordedLast_eq begun.sound.ordered idle start fields opened slot
  have safe : Safe True Call.closeTable.run builder := safe_replying (safe_closeTable builder)
  obtain ⟨answer, after, stepped⟩ := safe.answers_always
  refine ⟨answer, after, _, stepped, lastRecorded_usedFields fields, ?_⟩
  rcases Call.step_ok stepped with ⟨reply, rfl, ran⟩ | ⟨error, rfl, ran⟩
  · rcases done_bind.mp ran with ⟨table, _, closes, ended⟩
    cases ended
    obtain ⟨_, _, vtable, closed⟩ := closeTable_done ordered closes
    have same := closed.opened
    rw [opened] at same
    cases same
    have place : table.value.toNat = builder.tablePlace := closed.place
    have fits : ¬ TableTooLarge builder.tablePlace start fields (usedFields fields) := by
      rw [← place, tooLarge_iff]
      rintro ⟨number, counted, large⟩
      exact absurd (closed.number_le counted) (Nat.not_le.mpr large)
    refine ⟨⟨nofun, fun large => absurd large fits⟩, fun _ => ⟨table.value, rfl, place, ?_⟩⟩
    intro bytes suffix small
    have closedSmall := Builder.size_le (sound_of_step sound stepped).fits
    have stands := (closed.stands closedSmall).of_suffix suffix small
    exact ⟨_, stands.load, place ▸ stands.reads closed.inlineSize⟩
  · have unfinished : builder.finished = false := by
      by_contra finished
      rw [Bool.not_eq_false] at finished
      exact nomatch opened.symm.trans (sound.closed finished)
    rcases refused_bind.mp ran with refused | ⟨_, _, -, ended⟩
    case inr => cases ended
    obtain ⟨table, place, cause | ⟨number, rfl, large, counted⟩⟩ :=
      closeTable_refusal ordered unfinished opened refused
    · obtain ⟨cause, rfl⟩ := cause
      exact absurd stepped (roomy cause after)
    · have tooLarge := tooLarge_iff.mpr ⟨number, counted, large⟩
      rw [place] at tooLarge
      exact ⟨⟨fun _ => tooLarge, fun _ => ⟨number, rfl⟩⟩, fun fits => absurd tooLarge fits⟩

theorem closeTable_exact_of_added_twice :
    ∃ (builder after : Builder) (view : TableView) (entry : UInt16), builder.Reachable ∧
      builder.openObject = .table 0 [1, 6, 0] ∧
      (∀ cause after, Call.closeTable.step builder ≠ .ok (.error (.capacity cause), after)) ∧
      Call.closeTable.step builder = .ok (.ok (.object 12), after) ∧
      TableView.load after.storage.written (after.storage.written.length - 12) = .ok view ∧
      view.vtable.fieldCount = .ok 2 ∧ view.vtable.tableSize = .ok 12 ∧
      view.entry 6 = .ok entry ∧ entry.toNat = 6 := by
  let calls : List Call := [.openTable 3, .storeScalar 4 .uint8 (1 : UInt8) 0,
    .storeScalar 6 .uint16 (7 : UInt16) 0, .storeScalar 6 .uint16 (9 : UInt16) 0]
  let start := Builder.ofOptions ⟨64, false⟩
  have evaluated : ((fun stages =>
      (decide ((start.lastOf stages).openObject = .table 0 [1, 6, 0] ∧
          (start.lastOf stages).storage.size = 6),
        ((fun stage => decide (objectOf stage.1 = some 12 ∧ stage.2.storage.size ≤ 100)) <$>
          Call.closeTable.step (start.lastOf stages)).toOption)) <$> start.run calls).toOption =
      some (true, some true) := by decide +kernel
  obtain ⟨stages, ran, shown⟩ := read_map.mp (ok_of_toOption evaluated)
  simp only [Prod.mk.injEq, decide_eq_true_eq] at shown
  rcases shown with ⟨⟨opened, size⟩, shown⟩
  obtain ⟨⟨answer, after⟩, stepped, shown⟩ := read_map.mp (ok_of_toOption shown)
  simp only [decide_eq_true_eq] at shown
  rcases shown with ⟨answered, small⟩
  obtain rfl := objectOf_eq_some.mp answered
  have new : start.Reachable := .new _ (by decide)
  have reachable := new.lastOf ran
  have roomy (cause : GrowthError) (other : Builder) :
      Call.closeTable.step (start.lastOf stages) ≠ .ok (.error (.capacity cause), other) := by
    rw [stepped]
    nofun
  have place : (start.lastOf stages).tablePlace = 12 := by
    rw [Builder.tablePlace, size]
    rfl
  obtain ⟨-, -, _, _, used, again, recorded, -, closes⟩ :=
    reachable.closeTable_exact opened roomy
  rw [stepped] at again
  cases again
  have two : used = 2 := recorded.unique ⟨fun index past => by
    match index with
    | 2 => rfl
    | index + 3 => rfl, by decide⟩
  subst two
  rw [place] at closes
  have fits : ¬ TableTooLarge 12 0 [1, 6, 0] 2 := by
    rintro (large | ⟨recorded, -, large⟩ | large)
    · exact absurd large (by decide)
    · exact absurd large (by unfold maxEntry; omega)
    · exact absurd large (by decide)
  obtain ⟨table, same, -, reads⟩ := closes fits
  cases same
  rw [after.storage.size_eq] at small
  obtain ⟨view, loaded, found⟩ := reads _ (List.suffix_refl _)
    (Nat.le_trans small (by decide))
  obtain ⟨entry, entered, distance⟩ := found.entry 6 1 rfl
  exact ⟨_, after, view, entry, reachable, opened, roomy, stepped, loaded, found.fieldCount,
    found.tableSize, entered, distance⟩

end WireTables
