import WireTables.Proofs.Document.Origin

namespace WireTables

open Build

section Opened

variable {builder before after : Builder} {call : Call} {answer : Answer} {start : UInt32}
  {fields : List UInt32}

theorem opened_of_changes (changes : ChangesBy False before after)
    (opened : before.openObject = .table start fields) :
    ∃ later, after.openObject = .table start later := by
  induction changes with
  | refl => exact ⟨fields, opened⟩
  | tail _ change ih =>
      obtain ⟨middle, opened⟩ := ih
      cases change with
      | pushed pushes =>
          rcases pushes with ⟨front, pushed⟩
          exact ⟨middle, pushed.openObject.trans opened⟩
      | recorded index wasOpen inside =>
          rw [wasOpen] at opened
          cases opened
          exact ⟨_, rfl⟩
      | tableClosed closed allowed => exact allowed.elim
      | tableOpened count unfinished closed => exact absurd (closed.symm.trans opened) nofun
      | vectorOpened count unfinished closed => exact absurd (closed.symm.trans opened) nofun
      | vectorClosed wasOpen => exact absurd (wasOpen.symm.trans opened) nofun
      | shared | finished | forced => exact ⟨middle, opened⟩

theorem changes_of_busy (busy : after.openObject ≠ .nothing)
    (stepped : call.step before = .ok (answer, after)) :
    call ≠ .clear ∧ ChangesBy False before after := by
  have kept : call ≠ .clear := by
    rintro rfl
    rw [Call.clear_of_step stepped] at busy
    exact busy rfl
  rcases Call.changes_or_closed kept stepped with changes | ⟨table, -, -, closed⟩
  · exact ⟨kept, changes⟩
  · exact absurd (closed_of_closeTable closed) busy

theorem opened_of_run {calls : List Call} {stages : List (Answer × Builder)}
    (opened : builder.openObject = .table start fields) (ran : builder.run calls = .ok stages)
    (busy : ∀ stage ∈ stages, stage.2.openObject ≠ .nothing) :
    (∃ later, (builder.lastOf stages).openObject = .table start later) ∧
      (∀ call ∈ calls, call ≠ .clear) ∧
      builder.storage.size ≤ (builder.lastOf stages).storage.size ∧
      ∀ stage ∈ stages, stage.2.storage.size ≤ (builder.lastOf stages).storage.size := by
  induction calls generalizing builder fields stages with
  | nil =>
      cases ran
      exact ⟨⟨fields, opened⟩, fun _ member => absurd member List.not_mem_nil, Nat.le_refl _,
        fun _ member => absurd member List.not_mem_nil⟩
  | cons call calls ih =>
      rcases Builder.run_cons.mp ran with ⟨answer, after, later, stepped, ranLater, rfl⟩
      rw [List.forall_mem_cons] at busy
      obtain ⟨kept, changes⟩ := changes_of_busy busy.1 stepped
      obtain ⟨middle, stillOpen⟩ := opened_of_changes changes opened
      obtain ⟨lastOpen, others, grown, below⟩ := ih stillOpen ranLater busy.2
      exact ⟨lastOpen, List.forall_mem_cons.mpr ⟨kept, others⟩,
        Nat.le_trans (Builder.size_le_of_changes changes) grown,
        List.forall_mem_cons.mpr ⟨grown, below⟩⟩

end Opened

/-- What the vtable of a table says of a slot: it has no entry, or it leads from the table over
`entry` bytes to a field that ends inside the `inline` bytes of the table. `started` is the head at
which the table was started: whatever was written between it and the location lies inside too. -/
def FieldInside (bytes : Bytes) (started : UInt32) (inline entry : Nat) : Option Content → Prop
  | none => entry = 0
  | some content => ∃ location : UInt32, content.LiesAt bytes location ∧
      location.toNat + entry = started.toNat + inline ∧ referenceWidth ≤ entry ∧
      entry + content.width ≤ inline ∧ (entry = inline ↔ content = .struct started)

theorem fieldInside_of_stored {bytes : Bytes} {turn : Turn} {slot : Slot} {content : Content}
    {location started : UInt32} {inline entry : Nat} (lies : content.LiesAt bytes location)
    (stored : turn.Stored slot content location)
    (later : started.toNat ≤ turn.before.storage.size)
    (far : referenceWidth ≤ entry) (reached : location.toNat + entry = started.toNat + inline) :
    FieldInside bytes started inline entry (some content) := by
  have place := stored.place
  have wide := stored.wide
  refine ⟨location, lies, reached, far, by omega, ?_⟩
  constructor
  · rintro rfl
    have here : location = started := UInt32.toNat_inj.mp (Nat.add_right_cancel reached)
    have narrow : content.width = 0 := by omega
    cases content with
    | scalar type value default => exact absurd narrow (Nat.ne_of_gt type.width_pos)
    | optional type value => exact absurd narrow (Nat.ne_of_gt type.width_pos)
    | reference target => exact absurd narrow (by decide : referenceWidth ≠ 0)
    | struct target => exact congrArg Content.struct (lies.1.symm.trans here)
  · rintro rfl
    rw [lies.1] at reached
    exact Nat.add_left_cancel reached

namespace TableStands

variable {bytes : Bytes} {start table vtable : UInt32} {fields : List UInt32}

theorem tableSize_eq (stands : TableStands bytes start table vtable fields)
    (small : table.toNat - start.toNat ≤ maxEntry) :
    (view bytes table vtable fields).vtable.tableSize = .ok (table.toNat - start.toNat) := by
  have inside := stands.vtable.distance_le
  have wide := stands.vtable.length_le
  rw [length_vtableBytes, vtableWidth] at wide
  have position : bytes.length - vtable.toNat + entryWidth =
      bytes.length - (vtable.toNat - entryWidth) := by
    rw [entryWidth]
    omega
  have size := stands.vtable.rest.beginning.load_shortWord
  rw [length_shortWord] at size
  simp only [VTable.tableSize, TableView.vtable, view]
  rw [position]
  refine read_bind.mpr ⟨_, size, ?_⟩
  rw [toNat_ofNat_of_entry small]
  rfl

end TableStands

theorem Closed.fieldInside {last after : Builder} {started table vtable : UInt32}
    {fields : List UInt32} {bytes : Bytes} {turns : List Turn} {slot : Slot} {index inline : Nat}
    {content : Option Content} (closed : Closed last after started fields table vtable)
    (whole : table.toNat = started.toNat + inline)
    (early : ∀ turn ∈ turns, turn.after.storage.written <:+ last.storage.written)
    (suffix : after.storage.written <:+ bytes)
    (stands : TableStands bytes started table vtable fields)
    (place : indexOfSlot slot = some index)
    (traced : Traced turns started slot (placeOf fields slot) content) :
    ∃ entry, (TableStands.view bytes table vtable fields).entry slot = .ok entry ∧
      FieldInside bytes started inline entry.toNat content := by
  rw [placeOf_index place] at traced
  cases content with
  | none => exact ⟨0, stands.entry_eq_zero place traced, rfl⟩
  | some content =>
      rcases traced with ⟨turn, member, later, stored⟩
      have reached := (early turn member).length_le
      rw [← turn.after.storage.size_eq, ← last.storage.size_eq, ← stored.place] at reached
      have far := closed.place
      have width : 0 < referenceWidth := by decide
      obtain ⟨entry, entered, -, position⟩ :=
        stands.finds place rfl stored.present (by omega : _ < table.toNat)
      change bytes.length - table.toNat + entry.toNat = _ at position
      have inside := stands.link.distance_le
      have lies := stored.lies.of_suffix (((early turn member).trans closed.suffix).trans suffix)
      exact ⟨entry, entered, fieldInside_of_stored lies stored later (by omega) (by omega)⟩

/-- A table that was closed takes as many bytes as were written since it was started, and its fields
lie within them, in whatever order and between whatever other writes they were stored. -/
theorem Builder.Measured.fields_inside {before opened after : Builder} {count : Nat} {reply : Reply}
    {calls : List Call} {stages : List (Answer × Builder)} {table : UInt32} {bytes : Bytes}
    (measured : before.Measured)
    (opens : (Call.openTable count).step before = .ok (.ok reply, opened))
    (ran : opened.run calls = .ok stages)
    (busy : ∀ stage ∈ stages, stage.2.openObject ≠ .nothing)
    (small : (opened.lastOf stages).storage.size ≤ maxBufferSize)
    (closes : Call.closeTable.step (opened.lastOf stages) = .ok (.ok (.object table), after))
    (suffix : after.storage.written <:+ bytes) (fits : bytes.length ≤ maxBufferSize) :
    ∃ view inline, TableView.load bytes (bytes.length - table.toNat) = .ok view ∧
      view.vtable.tableSize = .ok inline ∧ table.toNat = before.storage.size + inline ∧
      ∀ slot index, indexOfSlot slot = some index → ∃ entry, view.entry slot = .ok entry ∧
        FieldInside bytes before.head inline entry.toNat
          (held (Ledger.empty.through opened calls stages).pending slot) := by
  have ordered := measured.ordered
  rcases done_bind.mp (Call.done_of_step opens) with ⟨_, _, openRan, ended⟩
  cases ended
  obtain ⟨idle, rfl⟩ := openTable_done openRan
  obtain ⟨⟨fields, lastOpen⟩, kept, -, below⟩ := opened_of_run rfl ran busy
  rcases done_bind.mp (Call.done_of_step closes) with ⟨offset, _, closeRan, ended⟩
  cases ended
  -- the table is traced from the turn that opened it on
  have started : Turns before [⟨before, .openTable count, _, _⟩] _ :=
    .made .nothing nofun opens ordered.small
  have turns := started.of_run kept
    (fun stage member => Nat.le_trans (below stage member) small) ran
  have lastOrdered := turns.ordered ordered
  obtain ⟨start, others, vtable, closed⟩ :=
    closeTable_done lastOrdered closeRan
  have same := closed.opened
  rw [lastOpen] at same
  cases same
  have traced := turns.traced ordered idle _ _ lastOpen
  rw [Ledger.over_turns] at traced
  have closedSmall : after.storage.size ≤ maxBufferSize := by
    rw [after.storage.size_eq]
    exact Nat.le_trans suffix.length_le fits
  have stands := (closed.stands closedSmall).of_suffix suffix fits
  have grown := Builder.size_le_of_changes (turns.changes ordered)
  have far := closed.place
  have whole : offset.value.toNat =
      before.head.toNat + (offset.value.toNat - before.head.toNat) := by
    rw [ordered.toNat_head]
    omega
  refine ⟨_, _, stands.load, stands.tableSize_eq closed.inlineSize, ?_, ?_⟩
  · rw [← ordered.toNat_head]
    exact whole
  · intro slot index place
    refine closed.fieldInside whole (fun turn member => ?_) suffix stands place (traced slot)
    exact Builder.suffix_of_changes (turns.holds ordered member).late

/-- A struct of four bytes that was written before its table was started lies behind the eight bytes
of the table. -/
theorem fields_inside_of_early_struct :
    ∃ (before opened after : Builder) (reply : Reply) (stages : List (Answer × Builder))
      (view : TableView) (early late : UInt16), before.Measured ∧ before.head = 4 ∧
      (Call.openTable 2).step before = .ok (.ok reply, opened) ∧
      opened.run [.storeStruct 4 (⟨4⟩ : Offset (.struct 4)), .storeScalar 6 .uint16 (7 : UInt16) 0] =
        .ok stages ∧
      Call.closeTable.step (opened.lastOf stages) = .ok (.ok (.object 12), after) ∧
      TableView.load after.storage.written (after.storage.written.length - 12) = .ok view ∧
      view.vtable.tableSize = .ok 8 ∧ view.entry 4 = .ok early ∧ early.toNat = 8 ∧
      view.entry 6 = .ok late ∧ 4 ≤ late.toNat ∧ late.toNat + 2 ≤ 8 ∧ late.toNat ≠ 8 := by
  let calls : List Call :=
    [.storeStruct 4 (⟨4⟩ : Offset (.struct 4)), .storeScalar 6 .uint16 (7 : UInt16) 0]
  have evaluated : ((fun stage : Answer × Builder =>
      (decide (stage.2.head = 4 ∧ stage.2.storage.size = 4),
      ((fun stage : Answer × Builder => (stage.1.isOk,
        ((fun stages => (decide ((∀ stage ∈ stages, stage.2.openObject ≠ .nothing) ∧
            (stage.2.lastOf stages).storage.size = 6 ∧
            held (Ledger.empty.through stage.2 calls stages).pending 4 = some (.struct 4) ∧
            held (Ledger.empty.through stage.2 calls stages).pending 6 =
              some (.scalar .uint16 (7 : UInt16) 0)),
          ((fun stage : Answer × Builder =>
            decide (objectOf stage.1 = some 12 ∧ stage.2.storage.size = 20)) <$>
              Call.closeTable.step (stage.2.lastOf stages)).toOption)) <$>
          stage.2.run calls).toOption)) <$> (Call.openTable 2).step stage.2).toOption)) <$>
        (Call.add .uint32 (1 : UInt32)).step (.ofOptions ⟨64, false⟩)).toOption =
      some (true, some (true, some (true, some true))) := by decide +kernel
  obtain ⟨⟨_, before⟩, added, shown⟩ := read_map.mp (ok_of_toOption evaluated)
  simp only [Prod.mk.injEq, decide_eq_true_eq] at shown
  rcases shown with ⟨⟨head, size⟩, shown⟩
  obtain ⟨⟨answer, opened⟩, opens, shown⟩ := read_map.mp (ok_of_toOption shown)
  simp only [Prod.mk.injEq] at shown
  rcases shown with ⟨accepted, shown⟩
  obtain ⟨stages, ran, shown⟩ := read_map.mp (ok_of_toOption shown)
  simp only [Prod.mk.injEq, decide_eq_true_eq] at shown
  rcases shown with ⟨⟨busy, lastSize, struct, scalar⟩, shown⟩
  obtain ⟨⟨closing, after⟩, closes, shown⟩ := read_map.mp (ok_of_toOption shown)
  simp only [decide_eq_true_eq] at shown
  rcases shown with ⟨answered, afterSize⟩
  obtain rfl := objectOf_eq_some.mp answered
  obtain ⟨reply, rfl⟩ := reply_of_isOk accepted
  have small : ∀ {count : Nat}, count ≤ 20 → count ≤ maxBufferSize :=
    fun few => Nat.le_trans few (by decide)
  have measured : before.Measured := .step _ (.new ⟨64, false⟩) added (small (by omega))
  rw [after.storage.size_eq] at afterSize
  obtain ⟨view, inline, loaded, sized, whole, inside⟩ := measured.fields_inside opens ran busy
    (small (by omega)) closes (List.suffix_refl _) (small (by omega))
  obtain ⟨early, earlyRead, field⟩ := inside 4 0 (by decide)
  obtain ⟨late, lateRead, other⟩ := inside 6 1 (by decide)
  rw [struct, head] at field
  rw [scalar, head] at other
  rcases field with ⟨_, -, -, -, -, edge⟩
  rcases other with ⟨_, -, -, far, within, apart⟩
  have eight : inline = 8 := by
    change 12 = _ at whole
    omega
  subst eight
  refine ⟨before, opened, after, reply, stages, view, early, late, measured, head, opens, ran,
    closes, loaded, sized, earlyRead, edge.mpr rfl, lateRead, far, within, ?_⟩
  rw [ne_eq, apart]
  decide

end WireTables
