import WireTables.Proofs.Document.Shape

namespace WireTables

open Build

theorem located_set {shape : FieldShape} {fields : List UInt32} {index head : Nat}
    {known : Nat → Option Nat} {location : UInt32} (kept : shape.inline.isSome)
    (place : indexOfSlot shape.slot = some index) (inside : index < fields.length)
    (here : Located (some (shape.reach head)) location)
    (located : ∀ other, Located (known other) (fields.getD other 0)) :
    ∀ other, Located (shape.locate head known other) ((fields.set index location).getD other 0) := by
  intro other
  by_cases same : index = other
  · subst same
    rw [FieldShape.locate, if_pos ⟨kept, place⟩, List.getD_eq_getElem?_getD,
      List.getElem?_set_self inside]
    exact here
  · have apart : ¬ (shape.inline.isSome ∧ indexOfSlot shape.slot = some other) := by
      rintro ⟨-, elsewhere⟩
      exact same (Option.some.inj (place.symm.trans elsewhere))
    rw [FieldShape.locate, if_neg apart, Filled.getD_set location (Ne.symm same)]
    exact located other

section Shaped

variable {forced : Bool} {addition : Addition}

theorem Addition.shape_of_omitted (omitted : addition.field.stored forced = false) :
    addition.shape forced = ⟨addition.slot, none⟩ := by
  rw [shape, omitted]
  rfl

theorem Addition.shape_of_kept (kept : addition.field.stored forced = true) :
    addition.shape forced = ⟨addition.slot, some addition.field.inline⟩ := by
  rw [shape, kept]
  rfl

theorem additions_located {before after : Builder} {start : UInt32} {fields : List UInt32}
    {additions : List Addition} {known : Nat → Option Nat} (sound : before.Sound)
    (opened : before.openObject = .table start fields) (same : before.forceDefaults = forced)
    (located : ∀ index, Located (known index) (fields.getD index 0))
    (ran : (additions.forM Addition.store) before = .done () after) :
    ChangesBy False before after ∧ ∃ last, after.openObject = .table start last ∧
      let shape : TableShape := additions.map (Addition.shape forced)
      after.storage.size = shape.reach before.storage.size ∧
      ∀ index, Located (shape.locate before.storage.size known index) (last.getD index 0) := by
  induction additions generalizing before fields known with
  | nil =>
      cases ran
      exact ⟨.refl, fields, opened, rfl, located⟩
  | cons addition additions ih =>
      rw [List.forM_eq_forM, List.forM_cons] at ran
      rcases done_bind.mp ran with ⟨_, middle, stored, rest⟩
      have change : ChangesBy False before middle :=
        (addition.changes_store before).of_done stored
      have small := (Builder.sound_of_changes sound change).ordered.small
      have added := addition.store_done small opened stored
      have unchanged := added.forceDefaults.trans same
      rcases added with ⟨index, place, inside, placed⟩
      rw [same] at placed
      simp only [List.map_cons, TableShape.reach, TableShape.locate]
      rcases placed with ⟨omitted, rfl⟩ | ⟨location, kept, -, takes⟩
      · rw [Addition.shape_of_omitted omitted]
        have unknown : (FieldShape.mk addition.slot none).locate middle.storage.size known =
            known := by
          funext other
          exact if_neg (by simp)
        rw [unknown]
        exact ih sound opened same located rest
      · rw [Addition.shape_of_kept kept]
        have reached : middle.storage.size =
            (FieldShape.mk addition.slot (some addition.field.inline)).reach before.storage.size :=
          takes.size
        have here : Located (some ((FieldShape.mk addition.slot
            (some addition.field.inline)).reach before.storage.size)) location :=
          ⟨takes.present, takes.place.trans reached⟩
        have moved := located_set rfl place inside here located
        obtain ⟨changes, last, isOpen, size, all⟩ := ih (Builder.sound_of_changes sound change)
          takes.opened unchanged moved rest
        rw [reached] at size all
        exact ⟨change.trans changes, last, isOpen, size, all⟩

end Shaped

theorem laid_of_writeTable {before after : Builder} {count : Nat} {additions : List Addition}
    {offset : Offset .table} {records : List TableRecord} (keeps : KeepsVTables before records)
    (ran : writeTable count additions before = .done offset after) :
    ∃ record : TableRecord, record.table = offset.value ∧
      Laid record (additions.map (Addition.shape before.forceDefaults)) before.storage.size ∧
      KeepsVTables after (record :: records) := by
  rcases done_bind.mp ran with ⟨_, opened, openRan, ran⟩
  rcases done_bind.mp ran with ⟨_, full, storeRan, closeRan⟩
  have opens : ChangesBy False before opened := (changes_openTable count before).of_done openRan
  obtain ⟨-, rfl⟩ := openTable_done openRan
  have blank : ∀ index, Located none ((List.replicate count (0 : UInt32)).getD index 0) := by
    intro index
    rw [List.getD_eq_getElem?_getD, List.getElem?_replicate]
    split <;> rfl
  obtain ⟨stores, fields, isOpen, size, located⟩ :=
    additions_located (Builder.sound_of_changes keeps.sound opens) rfl rfl blank storeRan
  have keepsFull := keeps.of_changes (opens.trans stores)
  obtain ⟨start, fields, vtable, closed⟩ :=
    closeTable_done keepsFull.sound.ordered closeRan
  have same := closed.opened
  rw [isOpen] at same
  cases same
  refine ⟨⟨offset.value, before.head, fields⟩, rfl, ?_, keepsFull.of_closed closed⟩
  constructor
  case exact => exact KeepsVTables.exact_of_closed keepsFull.sound closed
  case started => exact Builder.toNat_head keeps.sound.fits
  case placed =>
    rw [closed.place, size, TableShape.place, Inline.reach, paddingTo_add_self, Nat.add_assoc]
  case located => exact located

structure ShapedTable where
  offset : Offset .table
  shape : TableShape
  start : Nat

/-- Calls that wrote these tables since the builder was cleared, and any others between them,
refused or not. If the session is not mixed, they closed no table but these. -/
inductive TableSession (mixed : Prop) : Builder → List ShapedTable → Prop
  | new (options : BuilderOptions) (fits : options.initialCapacity ≤ maxBufferSize) :
      TableSession mixed (.ofOptions options) []
  | clear {before : Builder} {tables : List ShapedTable} (session : TableSession mixed before tables) :
      TableSession mixed before.clear []
  | other {before after : Builder} {tables : List ShapedTable} {answer : Answer} (call : Call)
      (session : TableSession mixed before tables) (kept : call ≠ .clear)
      (alone : ∀ reply, call = .closeTable → answer = .ok reply → mixed)
      (stepped : call.step before = .ok (answer, after)) : TableSession mixed after tables
  | table {before after : Builder} {tables : List ShapedTable} {offset : Offset .table} (count : Nat)
      (additions : List Addition) (session : TableSession mixed before tables)
      (ran : writeTable count additions before = .done offset after) :
      TableSession mixed after (⟨offset, additions.map (Addition.shape before.forceDefaults),
        before.storage.size⟩ :: tables)

def ShapedTable.RecordedAs (table : ShapedTable) (record : TableRecord) : Prop :=
  record.table = table.offset.value ∧ Laid record table.shape table.start

structure KeepsTables (mixed : Prop) (builder : Builder) (tables : List ShapedTable)
    (records : List TableRecord) : Prop where
  keeps : KeepsVTables builder records
  known : ∀ table ∈ tables, ∃ record ∈ records, table.RecordedAs record
  all : ¬ mixed → ∃ pairs : List (ShapedTable × TableRecord), pairs.map Prod.fst = tables ∧
    pairs.map Prod.snd = records ∧ ∀ pair ∈ pairs, pair.1.RecordedAs pair.2

theorem recordsAfter_cases {builder : Builder} {records : List TableRecord} {call : Call}
    {answer : Answer} (kept : call ≠ .clear) :
    call.recordsAfter builder records answer = records ∨
      ∃ reply record, call = .closeTable ∧ answer = .ok reply ∧
        call.recordsAfter builder records answer = record :: records := by
  unfold Call.recordsAfter
  split
  case h_1 => exact absurd rfl kept
  case h_2 =>
    split
    case h_1 => exact .inr ⟨_, _, rfl, rfl, rfl⟩
    case h_2 => exact .inl rfl
  case h_3 => exact .inl rfl

namespace KeepsTables

variable {mixed : Prop} {builder after : Builder} {tables : List ShapedTable}
  {records : List TableRecord}

theorem nothing (keeps : KeepsVTables builder []) : KeepsTables mixed builder [] [] where
  keeps := keeps
  known _ member := absurd member List.not_mem_nil
  all _ := ⟨[], rfl, rfl, fun _ member => absurd member List.not_mem_nil⟩

theorem table (kept : KeepsTables mixed builder tables records) {table : ShapedTable}
    {record : TableRecord} (keeps : KeepsVTables after (record :: records))
    (recorded : table.RecordedAs record) :
    KeepsTables mixed after (table :: tables) (record :: records) where
  keeps := keeps
  known other member := by
    rcases List.mem_cons.mp member with rfl | member
    · exact ⟨record, List.mem_cons_self, recorded⟩
    · obtain ⟨earlier, known, same⟩ := kept.known other member
      exact ⟨earlier, List.mem_cons_of_mem _ known, same⟩
  all single := by
    obtain ⟨pairs, left, right, related⟩ := kept.all single
    exact ⟨(table, record) :: pairs, congrArg (table :: ·) left, congrArg (record :: ·) right,
      List.forall_mem_cons.mpr ⟨recorded, related⟩⟩

theorem stranger (kept : KeepsTables mixed builder tables records) {record : TableRecord}
    (keeps : KeepsVTables after (record :: records)) (allowed : mixed) :
    KeepsTables mixed after tables (record :: records) where
  keeps := keeps
  known table member := by
    obtain ⟨earlier, known, same⟩ := kept.known table member
    exact ⟨earlier, List.mem_cons_of_mem _ known, same⟩
  all single := absurd allowed single

end KeepsTables

theorem TableSession.keepsTables {mixed : Prop} {builder : Builder} {tables : List ShapedTable}
    (session : TableSession mixed builder tables) :
    ∃ records, KeepsTables mixed builder tables records := by
  induction session with
  | new options fits => exact ⟨[], .nothing (.nothing (Builder.sound_ofOptions fits) rfl)⟩
  | clear session ih =>
      obtain ⟨records, kept⟩ := ih
      exact ⟨[], .nothing (.nothing (Builder.sound_clear kept.keeps.sound) rfl)⟩
  | other call session kept alone stepped ih =>
      obtain ⟨records, known⟩ := ih
      have keeps := Call.keepsVTables_of_step known.keeps stepped
      rcases recordsAfter_cases kept with same | ⟨reply, record, closes, answered, grown⟩
      · rw [same] at keeps
        exact ⟨records, { known with keeps }⟩
      · rw [grown] at keeps
        exact ⟨record :: records, known.stranger keeps (alone reply closes answered)⟩
  | table count additions session ran ih =>
      obtain ⟨records, known⟩ := ih
      obtain ⟨record, place, laid, keeps⟩ := laid_of_writeTable known.keeps ran
      exact ⟨record :: records, known.table keeps ⟨place, laid⟩⟩

theorem length_dedup_map_congr {α β γ : Type} [DecidableEq β] [DecidableEq γ] {items : List α}
    {first : α → β} {second : α → γ}
    (alike : ∀ a ∈ items, ∀ b ∈ items, first a = first b ↔ second a = second b) :
    (items.map first).dedup.length = (items.map second).dedup.length := by
  induction items with
  | nil => rfl
  | cons item items ih =>
      have later := ih fun a left b right =>
        alike a (List.mem_cons_of_mem _ left) b (List.mem_cons_of_mem _ right)
      have again : first item ∈ items.map first ↔ second item ∈ items.map second := by
        simp only [List.mem_map]
        apply exists_congr
        intro other
        apply and_congr_right
        intro member
        exact alike other (List.mem_cons_of_mem _ member) item List.mem_cons_self
      rw [List.map_cons, List.map_cons]
      by_cases seen : first item ∈ items.map first
      · rw [List.dedup_cons_of_mem seen, List.dedup_cons_of_mem (again.mp seen), later]
      · rw [List.dedup_cons_of_notMem seen, List.dedup_cons_of_notMem (mt again.mpr seen),
          List.length_cons, List.length_cons, later]

/-- Two tables of one shape, at whatever points of a session they were written, lead to one vtable
just when the heads at which they were started are in step with the widest alignment of the shape.
So if a session writes tables of one shape and no others, there are as many vtables as there are
different remainders among their starts. -/
theorem TableSession.shared_iff {mixed : Prop} {builder : Builder} {tables : List ShapedTable}
    (session : TableSession mixed builder tables) :
    (∀ first ∈ tables, ∀ second ∈ tables, first.shape = second.shape → first.shape.Regular →
      ∃ left right : VTable,
        VTable.ofTable builder.storage.contents
          (builder.capacity - first.offset.value.toNat) = .ok left ∧
        VTable.ofTable builder.storage.contents
          (builder.capacity - second.offset.value.toNat) = .ok right ∧
        (left = right ↔ first.start % first.shape.alignment = second.start % first.shape.alignment)) ∧
    (¬ mixed → ∀ shape : TableShape, shape.Regular → (∀ table ∈ tables, table.shape = shape) →
      builder.vtables.length =
        (tables.map fun table => table.start % shape.alignment).dedup.length) := by
  obtain ⟨records, kept⟩ := session.keepsTables
  have suffix : builder.storage.written <:+ builder.storage.contents := List.suffix_append _ _
  have small := kept.keeps.sound.fits
  have length : builder.capacity = builder.storage.contents.length :=
    builder.storage.length_contents.symm
  rw [length] at small
  constructor
  · intro first firstMember second secondMember sameShape regular
    obtain ⟨left, leftKnown, leftPlace, leftLaid⟩ := kept.known first firstMember
    obtain ⟨right, rightKnown, rightPlace, rightLaid⟩ := kept.known second secondMember
    obtain ⟨leftVTable, -, leftFound, -⟩ := kept.keeps.linked_at suffix small leftKnown
    obtain ⟨rightVTable, -, rightFound, -⟩ := kept.keeps.linked_at suffix small rightKnown
    have shared := kept.keeps.same_vtable_iff suffix small leftKnown rightKnown
    rw [leftFound, rightFound, Except.ok.injEq] at shared
    rw [length, ← leftPlace, ← rightPlace]
    refine ⟨_, _, leftFound, rightFound, shared.trans ?_⟩
    exact leftLaid.vtable_eq_iff regular (sameShape ▸ rightLaid)
  -- every table that was closed is of the shape, so vtables are counted by starts
  · intro single shape regular uniform
    obtain ⟨pairs, rfl, rfl, related⟩ := kept.all single
    rw [kept.keeps.length_vtables, List.map_map, List.map_map]
    apply length_dedup_map_congr
    intro left leftMember right rightMember
    have leftLaid := (related left leftMember).2
    have rightLaid := (related right rightMember).2
    rw [uniform left.1 (List.mem_map_of_mem leftMember)] at leftLaid
    rw [uniform right.1 (List.mem_map_of_mem rightMember)] at rightLaid
    exact leftLaid.vtable_eq_iff regular rightLaid

theorem shared_iff_of_int16 :
    ∃ (builder : Builder) (tables : List ShapedTable), TableSession False builder tables ∧
      tables.map ShapedTable.start = [26, 14, 0] ∧
      (∀ table ∈ tables, table.shape = [⟨4, some ⟨2, 2⟩⟩]) ∧ builder.vtables.length = 2 ∧
      ∀ first ∈ tables, ∀ second ∈ tables, first.start = 14 → second.start = 0 →
        ∃ left right : VTable, left ≠ right ∧
          VTable.ofTable builder.storage.contents
            (builder.capacity - first.offset.value.toNat) = .ok left ∧
          VTable.ofTable builder.storage.contents
            (builder.capacity - second.offset.value.toNat) = .ok right := by
  let additions (value : Int16) : List Addition := [⟨4, .scalar .int16 value (0 : Int16), 0⟩]
  have evaluated : ((do
      let first ← writeTable 1 (additions 1)
      let middle ← state
      let second ← writeTable 1 (additions 2)
      let late ← state
      let third ← writeTable 1 (additions 3)
      pure (middle.storage.size, middle.forceDefaults, late.storage.size, late.forceDefaults) :
        Build (Nat × Bool × Nat × Bool)) (.ofOptions ⟨64, false⟩)).value? =
      some (14, false, 26, false) := by decide +kernel
  obtain ⟨after, ran⟩ := Outcome.done_of_value? evaluated
  rcases done_bind.mp ran with ⟨first, middle, firstRan, ran⟩
  rw [state_bind] at ran
  rcases done_bind.mp ran with ⟨second, late, secondRan, ran⟩
  rw [state_bind] at ran
  rcases done_bind.mp ran with ⟨third, last, thirdRan, same⟩
  obtain ⟨shown, rfl⟩ := Outcome.done.inj same
  simp only [Prod.mk.injEq] at shown
  rcases shown with ⟨middleSize, middleForced, lateSize, lateForced⟩
  have new : TableSession False (.ofOptions ⟨64, false⟩) [] := .new _ (by decide)
  have session := ((new.table 1 _ firstRan).table 1 _ secondRan).table 1 _ thirdRan
  rw [middleSize, middleForced, lateSize, lateForced] at session
  let shape : TableShape := [⟨4, some ⟨2, 2⟩⟩]
  let tables : List ShapedTable := [⟨third, shape, 26⟩, ⟨second, shape, 14⟩, ⟨first, shape, 0⟩]
  change TableSession False last tables at session
  have starts : tables.map ShapedTable.start = [26, 14, 0] := rfl
  have shapes : ∀ table ∈ tables, table.shape = shape := by simp [tables]
  have regular : shape.Regular :=
    TableShape.regular_of_additions (by simp [additions] : ∀ addition ∈ additions 1, _) false
  obtain ⟨shared, count⟩ := session.shared_iff
  have vtables := count not_false _ regular shapes
  have four : shape.alignment = 4 := by decide
  have remainders : tables.map (fun table => table.start % shape.alignment) = [2, 2, 0] := by
    simp [tables, four]
  rw [remainders] at vtables
  refine ⟨last, tables, session, starts, shapes, vtables.trans (by decide), ?_⟩
  intro early earlyMember zero zeroMember earlyStart zeroStart
  have sameShape := shapes early earlyMember
  obtain ⟨left, right, leftFound, rightFound, same⟩ := shared early earlyMember zero zeroMember
    (sameShape.trans (shapes zero zeroMember).symm) (sameShape ▸ regular)
  refine ⟨left, right, fun equal => ?_, leftFound, rightFound⟩
  have step := same.mp equal
  rw [earlyStart, zeroStart, sameShape, four] at step
  exact absurd step (by decide)

end WireTables
