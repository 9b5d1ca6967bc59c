import Mathlib.Data.List.Dedup
import Mathlib.Data.List.Nodup
import WireTables.Proofs.Builder.ClosedTable
import WireTables.Proofs.Builder.Finality

/-!
The vtables of a builder. A table that is closed either finds its vtable among those that were
written before or adds it to them, so no two of them are alike and each is the vtable of some table.
Later calls only write in front of them. A vtable opens with its own size, so what stands at a
distance from the end is one vtable at most.
-/

namespace WireTables

open Build

/-- A table that was closed: where it stands, the head at which it was started, and those at which
its fields were stored, zero for a field that was not. -/
structure TableRecord where
  table : UInt32
  start : UInt32
  fields : List UInt32
  deriving DecidableEq, Repr

namespace TableRecord

def vtable (record : TableRecord) : Bytes := vtableBytes record.table record.start record.fields

/-- No number of the vtable wraps around or is cut off. -/
structure Exact (record : TableRecord) : Prop where
  started : record.start < record.table
  stored : ∀ location ∈ record.fields, location < record.table
  size : vtableWidth record.fields ≤ maxEntry
  inlineSize : record.table.toNat - record.start.toNat ≤ maxEntry
  entries : ∀ location ∈ record.fields, vtableEntry record.table location ≤ maxEntry

end TableRecord

def vtableAt (bytes : Bytes) (distance : UInt32) : VTable :=
  ⟨bytes, bytes.length - distance.toNat⟩

namespace TableRecord.Exact

variable {bytes : Bytes} {distance : UInt32} {record : TableRecord}

theorem size_at (exact : record.Exact) (stands : StandsAt bytes distance.toNat record.vtable) :
    (vtableAt bytes distance).size = .ok record.vtable.length := by
  have loaded : loadScalar .uint16 bytes (bytes.length - distance.toNat) =
      .ok (UInt16.ofNat (vtableWidth record.fields)) := stands.beginning.load_shortWord
  refine read_bind.mpr ⟨_, loaded, ?_⟩
  rw [toNat_ofNat_of_entry exact.size, vtable, length_vtableBytes]
  rfl

theorem bytes_at (exact : record.Exact) (stands : StandsAt bytes distance.toNat record.vtable) :
    (vtableAt bytes distance).bytes = .ok record.vtable :=
  read_bind.mpr ⟨_, exact.size_at stands, stands.slice_eq⟩

end TableRecord.Exact

namespace TableStands

variable {bytes whole : Bytes} {start table vtable : UInt32} {fields : List UInt32}

theorem of_suffix (suffix : bytes <:+ whole) (small : whole.length ≤ maxBufferSize)
    (stands : TableStands bytes start table vtable fields) :
    TableStands whole start table vtable fields where
  small := small
  link := stands.link.of_suffix suffix
  vtable := stands.vtable.of_suffix suffix
  entries := stands.entries
  vtableSize := stands.vtableSize

theorem located (stands : TableStands bytes start table vtable fields) :
    VTable.ofTable bytes (bytes.length - table.toNat) = .ok (vtableAt bytes vtable) := by
  rcases read_bind.mp stands.load with ⟨found, located, sized⟩
  rcases read_bind.mp sized with ⟨size, -, same⟩
  rcases read_bind.mp located with ⟨position, -, here⟩
  cases here
  have base : position = bytes.length - vtable.toNat :=
    congrArg TableView.vtableBase (Except.ok.inj same)
  rw [located, base]
  rfl

end TableStands

/-- What a builder keeps of the vtables of the tables that were closed. -/
structure KeepsVTables (builder : Builder) (records : List TableRecord) : Prop where
  sound : builder.Sound
  exact : ∀ record ∈ records, record.Exact
  linked : ∀ record ∈ records, ∃ vtable ∈ builder.vtables,
    TableStands builder.storage.written record.start record.table vtable record.fields
  used : ∀ vtable ∈ builder.vtables, ∃ record ∈ records,
    StandsAt builder.storage.written vtable.toNat record.vtable
  distinct : (builder.vtables.map fun vtable =>
    (vtableAt builder.storage.written vtable).bytes).Nodup

namespace KeepsVTables

variable {builder before after : Builder} {records : List TableRecord} {whole : Bytes}

theorem nothing (sound : builder.Sound) (empty : builder.vtables = []) :
    KeepsVTables builder [] where
  sound := sound
  exact _ member := absurd member List.not_mem_nil
  linked _ member := absurd member List.not_mem_nil
  used vtable member := absurd (empty ▸ member) List.not_mem_nil
  distinct := by
    rw [empty]
    exact List.nodup_nil

theorem bytes_of_suffix (keeps : KeepsVTables builder records)
    (suffix : builder.storage.written <:+ whole) :
    (builder.vtables.map fun vtable => (vtableAt whole vtable).bytes) =
      builder.vtables.map fun vtable => (vtableAt builder.storage.written vtable).bytes := by
  apply List.map_congr_left
  intro vtable cached
  obtain ⟨record, known, stands⟩ := keeps.used vtable cached
  have exact := keeps.exact record known
  rw [exact.bytes_at stands, exact.bytes_at (stands.of_suffix suffix)]

theorem vtables_of_changes (changes : ChangesBy False before after) :
    after.vtables = before.vtables := by
  induction changes with
  | refl => rfl
  | tail _ change same =>
      rw [← same]
      rcases change.pushes_or_closed with
        ⟨front, pushed⟩ | ⟨start, fields, table, vtable, -, never⟩ | ⟨-, -, vtables⟩
      · exact pushed.vtables
      · exact never.elim
      · exact vtables

theorem of_changes (keeps : KeepsVTables before records)
    (changes : ChangesBy False before after) : KeepsVTables after records where
  sound := Builder.sound_of_changes keeps.sound changes
  exact := keeps.exact
  linked record known := by
    obtain ⟨vtable, cached, stands⟩ := keeps.linked record known
    have small := Builder.size_le (Builder.sound_of_changes keeps.sound changes).fits
    rw [after.storage.size_eq] at small
    rw [vtables_of_changes changes]
    exact ⟨vtable, cached, stands.of_suffix (Builder.suffix_of_changes changes) small⟩
  used vtable cached := by
    rw [vtables_of_changes changes] at cached
    obtain ⟨record, known, stands⟩ := keeps.used vtable cached
    exact ⟨record, known, stands.of_suffix (Builder.suffix_of_changes changes)⟩
  distinct := by
    rw [vtables_of_changes changes, keeps.bytes_of_suffix (Builder.suffix_of_changes changes)]
    exact keeps.distinct

section Closing

variable {start table vtable : UInt32} {fields : List UInt32}

theorem exact_of_closed (sound : before.Sound)
    (closed : Closed before after start fields table vtable) :
    TableRecord.Exact ⟨table, start, fields⟩ := by
  obtain ⟨started, stored⟩ := sound.opened start fields closed.opened
  have longer : before.storage.size < table.toNat := by
    have width : 0 < referenceWidth := by decide
    rw [closed.place]
    omega
  exact {
    started := UInt32.lt_iff_toNat_lt.mpr (Nat.lt_of_le_of_lt started longer)
    stored := fun location member =>
      UInt32.lt_iff_toNat_lt.mpr (Nat.lt_of_le_of_lt (stored location member) longer)
    size := closed.vtableSize
    inlineSize := closed.inlineSize
    entries := closed.entries }

theorem distinct_of_closed (keeps : KeepsVTables before records)
    (closed : Closed before after start fields table vtable) :
    (after.vtables.map fun vtable => (vtableAt after.storage.written vtable).bytes).Nodup := by
  have suffix := closed.suffix
  have kept := keeps.distinct
  rw [← keeps.bytes_of_suffix suffix] at kept
  rcases closed.written with ⟨front, -, ⟨-, -, same⟩ | ⟨-, -, grown⟩⟩
  · rw [same]
    exact kept
  -- a vtable joins the others only if none of them was found to be alike
  · have longer : after.vtables ≠ before.vtables := by simp [grown]
    rw [grown, List.map_append, List.map_singleton]
    apply List.nodup_append.mpr
    refine ⟨kept, List.nodup_singleton _, ?_⟩
    intro _ early _ late alike
    obtain ⟨cached, member, rfl⟩ := List.mem_map.mp early
    rw [List.mem_singleton.mp late] at alike
    obtain ⟨record, known, stands⟩ := keeps.used cached member
    rw [(keeps.exact record known).bytes_at (stands.of_suffix suffix),
      (exact_of_closed keeps.sound closed).bytes_at closed.standing] at alike
    rw [Except.ok.inj alike] at stands
    exact closed.fresh longer cached member stands

theorem of_closed (keeps : KeepsVTables before records)
    (closed : Closed before after start fields table vtable) :
    KeepsVTables after (⟨table, start, fields⟩ :: records) := by
  have change : Change True before after := .tableClosed closed trivial
  have suffix := closed.suffix
  have sound := Builder.sound_of_change keeps.sound change
  have small := Builder.size_le sound.fits
  rw [after.storage.size_eq] at small
  have cached : vtable ∈ after.vtables ∧ before.vtables ⊆ after.vtables ∧
      ∀ other ∈ after.vtables, other ∈ before.vtables ∨ other = vtable := by
    rcases closed.written with ⟨front, -, ⟨-, member, same⟩ | ⟨-, -, grown⟩⟩
    · rw [same]
      exact ⟨member, List.Subset.refl _, fun other known => .inl known⟩
    · rw [grown]
      exact ⟨by simp, List.subset_append_left _ _, by simp⟩
  rcases cached with ⟨linked, kept, origin⟩
  constructor
  case sound => exact sound
  case exact => exact List.forall_mem_cons.mpr ⟨exact_of_closed keeps.sound closed, keeps.exact⟩
  case linked =>
    intro record member
    rcases List.mem_cons.mp member with rfl | known
    · exact ⟨vtable, linked, closed.stands sound.ordered.small⟩
    · obtain ⟨earlier, member, stands⟩ := keeps.linked record known
      exact ⟨earlier, kept member, stands.of_suffix suffix small⟩
  case used =>
    intro other member
    rcases origin other member with member | rfl
    · obtain ⟨record, known, stands⟩ := keeps.used other member
      exact ⟨record, List.mem_cons_of_mem _ known, stands.of_suffix suffix⟩
    · exact ⟨_, List.mem_cons_self, closed.standing⟩
  case distinct => exact keeps.distinct_of_closed closed

end Closing

end KeepsVTables

namespace Call

def recordsAfter (builder : Builder) (records : List TableRecord) :
    Call → Answer → List TableRecord
  | clear, _ => []
  | closeTable, .ok (.object table) =>
      match builder.openObject with
      | .table start fields => ⟨table, start, fields⟩ :: records
      | _ => records
  | _, _ => records

theorem keepsVTables_of_step {before after : Builder} {records : List TableRecord} {call : Call}
    {answer : Answer} (keeps : KeepsVTables before records)
    (stepped : call.step before = .ok (answer, after)) :
    KeepsVTables after (call.recordsAfter before records answer) := by
  by_cases cleared : call = .clear
  · subst cleared
    rw [clear_of_step stepped]
    exact .nothing (Builder.sound_clear keeps.sound) rfl
  by_cases closes : call = .closeTable
  · subst closes
    rcases step_ok stepped with ⟨reply, rfl, ran⟩ | ⟨error, rfl, ran⟩
    · rcases done_bind.mp ran with ⟨table, middle, closed, same⟩
      cases same
      obtain ⟨start, fields, vtable, closed⟩ :=
        closeTable_done keeps.sound.ordered closed
      simp only [recordsAfter, closed.opened]
      exact keeps.of_closed closed
    · rcases refused_bind.mp ran with refused | ⟨_, _, _, ran⟩
      · exact keeps.of_changes (.single (.pushed (closeTable_refused refused)))
      · cases ran
  · have same : call.recordsAfter before records answer = records := by
      cases call <;> first | rfl | exact absurd rfl cleared | exact absurd rfl closes
    rw [same]
    exact keeps.of_changes (changes_of_other cleared closes stepped)

end Call

namespace Builder

/-- The builders that calls can lead to, with the tables that were closed since the last `clear`. -/
inductive Recorded : Builder → List TableRecord → Prop
  | new (options : BuilderOptions) (fits : options.initialCapacity ≤ maxBufferSize) :
      Recorded (.ofOptions options) []
  | step {builder after : Builder} {records : List TableRecord} {answer : Answer} (call : Call)
      (before : Recorded builder records) (stepped : call.step builder = .ok (answer, after)) :
      Recorded after (call.recordsAfter builder records answer)

variable {builder : Builder} {records : List TableRecord}

theorem Reachable.recorded (reachable : builder.Reachable) :
    ∃ records, builder.Recorded records := by
  induction reachable with
  | new options fits => exact ⟨[], .new options fits⟩
  | step call _ stepped ih =>
      obtain ⟨records, before⟩ := ih
      exact ⟨_, .step call before stepped⟩

theorem Reachable.of_run {calls : List Call} {stages : List (Answer × Builder)}
    (reachable : builder.Reachable) (ran : builder.run calls = .ok stages) :
    ∀ stage ∈ stages, stage.2.Reachable := by
  induction calls generalizing builder stages with
  | nil =>
      cases ran
      exact fun _ member => absurd member List.not_mem_nil
  | cons call calls ih =>
      rcases run_cons.mp ran with ⟨answer, middle, later, stepped, ranLater, rfl⟩
      exact List.forall_mem_cons.mpr
        ⟨.step call reachable stepped, ih (.step call reachable stepped) ranLater⟩

theorem Reachable.lastOf {calls : List Call} {stages : List (Answer × Builder)}
    (reachable : builder.Reachable) (ran : builder.run calls = .ok stages) :
    (builder.lastOf stages).Reachable := by
  rcases List.mem_cons.mp (builder.lastOf_mem stages) with same | later
  · rw [same]
    exact reachable
  · obtain ⟨stage, member, same⟩ := List.mem_map.mp later
    rw [← same]
    exact reachable.of_run ran stage member

def recording (builder : Builder) (records : List TableRecord) :
    List Call → Except Fault (Builder × List TableRecord)
  | [] => pure (builder, records)
  | call :: calls => do
      let (answer, after) ← call.step builder
      after.recording (call.recordsAfter builder records answer) calls

theorem Recorded.of_recording {calls : List Call} {builder last : Builder}
    {records all : List TableRecord} (recorded : builder.Recorded records)
    (ran : builder.recording records calls = .ok (last, all)) : last.Recorded all := by
  induction calls generalizing builder records with
  | nil =>
      cases ran
      exact recorded
  | cons call calls ih =>
      rcases read_bind.mp ran with ⟨⟨answer, after⟩, stepped, later⟩
      exact ih (recorded.step call stepped) later

theorem Recorded.reachable (recorded : builder.Recorded records) : builder.Reachable := by
  induction recorded with
  | new options fits => exact .new options fits
  | step call _ stepped ih => exact .step call ih stepped

theorem Recorded.keepsVTables (recorded : builder.Recorded records) :
    KeepsVTables builder records := by
  induction recorded with
  | new options fits => exact .nothing (sound_ofOptions fits) rfl
  | step call _ stepped ih => exact Call.keepsVTables_of_step ih stepped

end Builder

namespace KeepsVTables

variable {builder : Builder} {records : List TableRecord} {whole : Bytes}

theorem nodup_of_suffix (keeps : KeepsVTables builder records)
    (suffix : builder.storage.written <:+ whole) :
    (builder.vtables.map fun vtable => (vtableAt whole vtable).bytes).Nodup := by
  rw [keeps.bytes_of_suffix suffix]
  exact keeps.distinct

/-- Every table leads to one of the vtables, and to no other. -/
theorem linked_at (keeps : KeepsVTables builder records)
    (suffix : builder.storage.written <:+ whole) (small : whole.length ≤ maxBufferSize)
    {record : TableRecord} (known : record ∈ records) :
    ∃ vtable ∈ builder.vtables,
      VTable.ofTable whole (whole.length - record.table.toNat) = .ok (vtableAt whole vtable) ∧
      (vtableAt whole vtable).bytes = .ok record.vtable ∧
      ∀ other ∈ builder.vtables,
        VTable.ofTable whole (whole.length - record.table.toNat) = .ok (vtableAt whole other) →
          other = vtable := by
  obtain ⟨vtable, cached, stands⟩ := keeps.linked record known
  have here := stands.of_suffix suffix small
  refine ⟨vtable, cached, here.located, (keeps.exact record known).bytes_at here.vtable, ?_⟩
  intro other member located
  rw [here.located] at located
  have same := congrArg VTable.bytes (Except.ok.inj located)
  exact (List.inj_on_of_nodup_map (keeps.nodup_of_suffix suffix) cached member same).symm

/-- Two tables share a vtable if their vtables are alike, and only then. -/
theorem same_vtable_iff (keeps : KeepsVTables builder records)
    (suffix : builder.storage.written <:+ whole) (small : whole.length ≤ maxBufferSize)
    {first second : TableRecord} (left : first ∈ records) (right : second ∈ records) :
    VTable.ofTable whole (whole.length - first.table.toNat) =
        VTable.ofTable whole (whole.length - second.table.toNat) ↔
      first.vtable = second.vtable := by
  obtain ⟨leftVTable, leftCached, leftLocated, leftBytes, -⟩ := keeps.linked_at suffix small left
  obtain ⟨rightVTable, rightCached, rightLocated, rightBytes, -⟩ :=
    keeps.linked_at suffix small right
  rw [leftLocated, rightLocated]
  constructor
  · intro same
    have bytes := congrArg VTable.bytes (Except.ok.inj same)
    rw [leftBytes, rightBytes] at bytes
    exact Except.ok.inj bytes
  · intro same
    rw [← same, ← leftBytes] at rightBytes
    have equal := List.inj_on_of_nodup_map (keeps.nodup_of_suffix suffix) rightCached leftCached
      rightBytes
    rw [equal]

/-- There are as many vtables as the tables have different ones. -/
theorem length_vtables (keeps : KeepsVTables builder records) :
    builder.vtables.length = (records.map TableRecord.vtable).dedup.length := by
  have read {record : TableRecord} {vtable : UInt32} (known : record ∈ records)
      (stands : StandsAt builder.storage.written vtable.toNat record.vtable) :=
    (keeps.exact record known).bytes_at stands
  have injective : Function.Injective (Except.ok : Bytes → Except Fault Bytes) :=
    fun _ _ => Except.ok.inj
  have same : (builder.vtables.map fun vtable =>
      (vtableAt builder.storage.written vtable).bytes).Perm
        ((records.map TableRecord.vtable).dedup.map Except.ok) := by
    apply (List.perm_ext_iff_of_nodup keeps.distinct
      ((List.nodup_dedup _).map injective)).mpr
    intro found
    simp only [List.mem_map, List.mem_dedup]
    constructor
    · rintro ⟨vtable, cached, rfl⟩
      obtain ⟨record, known, stands⟩ := keeps.used vtable cached
      exact ⟨_, ⟨record, known, rfl⟩, (read known stands).symm⟩
    · rintro ⟨_, ⟨record, known, rfl⟩, rfl⟩
      obtain ⟨vtable, cached, stands⟩ := keeps.linked record known
      exact ⟨vtable, cached, read known stands.vtable⟩
  simpa using same.length_eq

end KeepsVTables

/-- Whatever calls led to a builder, refused or not: each cached vtable stands in the written bytes,
opens with its own length and is the vtable of a table that was closed; no two are alike; each table
that was closed leads to one of them, which says how far behind the table its fields were stored, up
to the last one that was; and so two tables share a vtable just when theirs are alike, and there are
as many as there are different ones. -/
theorem Builder.Reachable.vtables_shared {builder : Builder} (reachable : builder.Reachable) :
    (∃ records, builder.Recorded records) ∧
    ∀ records, builder.Recorded records →
      let whole := builder.storage.contents
      let vtableOf (record : TableRecord) :=
        VTable.ofTable whole (builder.capacity - record.table.toNat)
      (∀ vtable ∈ builder.vtables, vtable ≤ builder.head ∧ ∃ block,
        (vtableAt whole vtable).bytes = .ok block ∧
          (vtableAt whole vtable).size = .ok block.length ∧
            block ∈ records.map TableRecord.vtable) ∧
      (builder.vtables.map fun vtable => (vtableAt whole vtable).bytes).Nodup ∧
      (∀ record ∈ records, record.Exact ∧
        (∃ used, LastRecorded record.fields used ∧ record.vtable =
          shortWord (4 + 2 * used) ++ (shortWord (record.table.toNat - record.start.toNat) ++
            (record.fields.take used).flatMap fun location =>
              shortWord (if location = 0 then 0 else record.table.toNat - location.toNat))) ∧
        ∃ vtable ∈ builder.vtables,
          vtableOf record = .ok (vtableAt whole vtable) ∧
            (vtableAt whole vtable).bytes = .ok record.vtable ∧
              ∀ other ∈ builder.vtables, vtableOf record = .ok (vtableAt whole other) →
                other = vtable) ∧
      (∀ first ∈ records, ∀ second ∈ records,
        vtableOf first = vtableOf second ↔ first.vtable = second.vtable) ∧
      builder.vtables.length = (records.map TableRecord.vtable).dedup.length := by
  refine ⟨reachable.recorded, fun records recorded => ?_⟩
  have keeps := recorded.keepsVTables
  have suffix : builder.storage.written <:+ builder.storage.contents := List.suffix_append _ _
  have length : builder.capacity = builder.storage.contents.length :=
    builder.storage.length_contents.symm
  have small := keeps.sound.fits
  simp only [length] at small ⊢
  refine ⟨fun vtable cached => ?_, keeps.nodup_of_suffix suffix, fun record known => ?_,
    fun first left second right => keeps.same_vtable_iff suffix small left right,
    keeps.length_vtables⟩
  · obtain ⟨record, known, stands⟩ := keeps.used vtable cached
    have here := stands.of_suffix suffix
    have exact := keeps.exact record known
    refine ⟨?_, record.vtable, exact.bytes_at here, exact.size_at here, List.mem_map_of_mem known⟩
    rw [UInt32.le_iff_toNat_le, toNat_head keeps.sound.fits]
    exact keeps.sound.vtables vtable cached
  · exact ⟨keeps.exact record known, ⟨_, lastRecorded_usedFields record.fields, rfl⟩,
      keeps.linked_at suffix small known⟩

theorem vtables_shared_of_three :
    let calls : List Call := [.openTable 1, .storeScalar 4 .int32 (7 : Int32) 0, .closeTable,
      .closeTable, .writeBytes [1, 2, 3], .openTable 2, .storeScalar 4 .int32 (9 : Int32) 0,
      .closeTable, .openTable 3, .storeScalar 6 .int16 (9 : Int16) 0, .closeTable]
    ∃ builder : Builder,
      (Builder.ofOptions ⟨0, false⟩).recording [] calls =
        .ok (builder, [⟨40, 32, [0, 34, 0]⟩, ⟨32, 24, [28, 0]⟩, ⟨8, 0, [4]⟩]) ∧
      builder.vtables.length = 2 ∧
      let whole := builder.storage.contents
      (∃ vtable ∈ builder.vtables,
        VTable.ofTable whole (builder.capacity - 40) = .ok (vtableAt whole vtable) ∧
          (vtableAt whole vtable).bytes = .ok [8, 0, 8, 0, 0, 0, 6, 0]) ∧
      (∃ vtable ∈ builder.vtables,
        VTable.ofTable whole (builder.capacity - 32) = .ok (vtableAt whole vtable) ∧
          (vtableAt whole vtable).bytes = .ok [6, 0, 8, 0, 4, 0]) ∧
      VTable.ofTable whole (builder.capacity - 8) = VTable.ofTable whole (builder.capacity - 32) := by
  intro calls
  have evaluated : (Prod.snd <$> (Builder.ofOptions ⟨0, false⟩).recording [] calls).toOption =
      some [⟨40, 32, [0, 34, 0]⟩, ⟨32, 24, [28, 0]⟩, ⟨8, 0, [4]⟩] := by
    decide +kernel
  obtain ⟨⟨builder, records⟩, ran, shown⟩ := read_map.mp (ok_of_toOption evaluated)
  obtain rfl : records = _ := shown
  have recorded := (Builder.Recorded.new ⟨0, false⟩ (by decide)).of_recording ran
  obtain ⟨-, shared⟩ := recorded.reachable.vtables_shared
  obtain ⟨-, -, linked, same, count⟩ := shared _ recorded
  obtain ⟨-, -, last, lastKept, lastLocated, lastBytes, -⟩ := linked ⟨40, 32, [0, 34, 0]⟩ (by simp)
  obtain ⟨-, -, kept, kept_mem, located, bytes, -⟩ := linked ⟨32, 24, [28, 0]⟩ (by simp)
  refine ⟨builder, ran, count, ⟨last, lastKept, lastLocated, lastBytes⟩,
    ⟨kept, kept_mem, located, bytes⟩, ?_⟩
  exact (same ⟨8, 0, [4]⟩ (by simp) ⟨32, 24, [28, 0]⟩ (by simp)).mpr rfl

end WireTables
