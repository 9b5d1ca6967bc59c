import WireTables.Proofs.Builder.Room
import WireTables.Proofs.Builder.VectorCount

namespace WireTables

open Build

def ExactReference (target : UInt32) (stored : Builder) : Prop :=
  ∃ (head : UInt32) (behind : Bytes), head.toNat = behind.length ∧ target.toNat ≤ head.toNat ∧
    stored.storage.written = ScalarType.uint32.encode (head - target + 4) ++ behind ∧
    (head - target + 4).toNat = head.toNat - target.toNat + 4

def ExactCount (count : Nat) (full closed : Builder) : Prop :=
  closed.storage.written =
    ScalarType.uint32.encode (UInt32.ofNat count) ++ full.storage.written ∧
    (UInt32.ofNat count).toNat = count

def ExactSize (finished : Builder) : Prop :=
  ∃ payload : Bytes, finished.storage.written =
    ScalarType.uint32.encode (UInt32.ofNat payload.length) ++ payload ∧
    (UInt32.ofNat payload.length).toNat = payload.length

def ExactVTable (table vtable : UInt32) (closed : Builder) : Prop :=
  (vtableDistance vtable table).toInt = (vtable.toNat : Int) - table.toNat ∧
    ∀ bytes, closed.storage.written <:+ bytes → bytes.length ≤ maxBufferSize →
      locateVTable bytes (bytes.length - table.toNat) = .ok (bytes.length - vtable.toNat)

structure Builder.WritesExactly (builder : Builder) : Prop where
  head : builder.head.toNat = builder.storage.written.length
  reference : ∀ {kind : Kind} (target : Offset kind) (stored : Builder),
    addReference target builder = .done () stored → ExactReference target.value stored
  count : ∀ (elementSize count alignment : Nat) (opened : Builder), 0 < elementSize →
    openVector elementSize count alignment builder = .done () opened → count ≤ maxBufferSize ∧
      ∀ (full closed : Builder) (element : Kind) (vector : Offset (.vector element)),
        Changes opened full → full.openObject = .vector count →
          closeVector full = .done vector closed → ExactCount count full closed
  size : ∀ (root : Offset .table) (identifier : Option String) (finished : Builder),
    finish root identifier true builder = .done () finished → ExactSize finished
  vtable : ∀ (table : Offset .table) (closed : Builder), closeTable builder = .done table closed →
    ∃ vtable ∈ closed.vtables, ExactVTable table.value vtable closed

section Exactness

variable {before after builder : Builder}

theorem exactReference_of_done {kind : Kind} {target : Offset kind} (sound : before.Sound)
    (ran : addReference target before = .done () after) : ExactReference target.value after := by
  obtain ⟨middle, -, padded, reached, pushed⟩ := addReference_done ran
  have fits := padded.fits sound.fits
  have small := Builder.size_le fits
  have headed := Builder.toNat_head fits
  have limit : maxBufferSize + 4 < 2 ^ 32 := by decide
  have four : (4 : UInt32).toNat = 4 := rfl
  refine ⟨middle.head, middle.storage.written, headed.trans middle.storage.size_eq,
    UInt32.le_iff_toNat_le.mp reached, pushed.written, ?_⟩
  rw [UInt32.toNat_add, UInt32.toNat_sub_of_le _ _ reached, four]
  exact Nat.mod_eq_of_lt (by omega)

theorem exactCount_of_done {element : Kind} {vector : Offset (.vector element)} {count : Nat}
    (few : count ≤ maxBufferSize) (opened : before.openObject = .vector count)
    (ran : closeVector before = .done vector after) : ExactCount count before after := by
  obtain ⟨middle, pushed, rfl, -⟩ := closeVector_done opened ran
  exact ⟨pushed.written, toNat_ofNat_of_size few⟩

theorem exactSize_of_done {root : Offset .table} {identifier : Option String} (sound : before.Sound)
    (ran : finish root identifier true before = .done () after) : ExactSize after := by
  obtain ⟨payload, small, -, -, -, shown⟩ := finish_done sound.fits ran
  exact ⟨payload, Builder.written_of_finishedBytes shown, toNat_ofNat_of_size small⟩

theorem exactVTable_of_done {table : Offset .table} (sound : before.Sound)
    (ran : closeTable before = .done table after) :
    ∃ vtable ∈ after.vtables, ExactVTable table.value vtable after := by
  have ordered := sound.ordered
  obtain ⟨start, fields, vtable, closed⟩ := closeTable_done ordered ran
  have small := Builder.size_le (closed.fits sound.fits)
  have stands := closed.stands small
  have limit : maxBufferSize < 2 ^ 31 := by decide
  have tableInside := stands.link.distance_le
  have vtableInside := stands.vtable.distance_le
  rw [← after.storage.size_eq] at tableInside vtableInside
  have cached : vtable ∈ after.vtables := by
    rcases closed.written with ⟨_, -, ⟨-, member, same⟩ | ⟨-, -, grown⟩⟩
    · exact same ▸ member
    · exact grown ▸ List.mem_append_right _ (List.mem_singleton_self _)
  refine ⟨vtable, cached, toInt_vtableDistance (by omega) (by omega), fun bytes suffix few => ?_⟩
  obtain ⟨base, _, located, -, same⟩ :=
    TableView.load_eq_ok_iff.mp (stands.of_suffix suffix few).load
  rw [located]
  exact congrArg Except.ok (congrArg TableView.vtableBase same).symm

theorem Builder.Sound.writesExactly (sound : builder.Sound) : builder.WritesExactly where
  head := (Builder.toNat_head sound.fits).trans builder.storage.size_eq
  reference _ _ ran := exactReference_of_done sound ran
  count elementSize count alignment opened positive opens := by
    have few := openVector_count positive sound.fits opens
    exact ⟨few, fun _ _ _ _ _ isOpen closes => exactCount_of_done few isOpen closes⟩
  size _ _ _ ran := exactSize_of_done sound ran
  vtable _ _ ran := exactVTable_of_done sound ran

theorem Builder.capacity_le_of_step {call : Call} {answer : Answer} (sound : builder.Sound)
    (stepped : call.step builder = .ok (answer, after)) : builder.capacity ≤ after.capacity := by
  by_cases cleared : call = .clear
  · subst cleared
    rw [Call.clear_of_step stepped]
    exact Nat.le_of_eq (capacity_clear builder).symm
  · exact capacity_le_of_changes (Call.changes_of_step cleared sound stepped)

end Exactness

/-- Whatever calls led to a builder, as long as the elements of its vectors take room: it holds no
more bytes than a buffer may grow to, and no call gives any of them back; the vector that is open
has no more elements than that, and closing it writes how many. At every step that any further calls
come to, the head is the number of bytes written, references and sizes are written exactly, and the
distance at a table leads to its vtable. -/
theorem Builder.ReachableSized.offsets_exact {builder : Builder}
    (reachable : builder.ReachableSized) :
    builder.capacity ≤ maxBufferSize ∧
    (∀ (call : Call) (answer : Answer) (after : Builder), call.step builder = .ok (answer, after) →
      builder.capacity ≤ after.capacity ∧ after.capacity ≤ maxBufferSize) ∧
    (∀ count : Nat, builder.openObject = .vector count → count ≤ maxBufferSize ∧
      ∀ (element : Kind) (vector : Offset (.vector element)) (closed : Builder),
        closeVector builder = .done vector closed → ExactCount count builder closed) ∧
    ∀ midway, Changes builder midway → midway.WritesExactly := by
  have counted := reachable.counted
  have sound := counted.sound
  refine ⟨sound.fits, fun call answer after stepped => ?_, ?_, fun midway changes => ?_⟩
  · exact ⟨capacity_le_of_step sound stepped, (sound_of_step sound stepped).fits⟩
  · intro count opened
    have few := counted.vector count opened
    exact ⟨few, fun _ _ _ ran => exactCount_of_done few opened ran⟩
  · exact (sound_of_changes sound changes).writesExactly

theorem offsets_exact_of_shared_vtable :
    ∃ (builder closed : Builder) (table : Offset .table), builder.ReachableSized ∧
      builder.capacity ≤ maxBufferSize ∧ closeTable builder = .done table closed ∧
      table.value = 32 ∧ closed.vtables = [20] ∧ (vtableDistance 20 32).toInt = -12 ∧
      locateVTable closed.storage.written (closed.storage.written.length - 32) =
        .ok (closed.storage.written.length - 20) := by
  let calls : List Call := [.openTable 2, .storeScalar 4 .int32 (7 : Int32) 0,
    .storeScalar 6 .int32 (8 : Int32) 0, .closeTable, .openTable 2,
    .storeScalar 4 .int32 (9 : Int32) 0, .storeScalar 6 .int32 (10 : Int32) 0]
  let start := Builder.ofOptions ⟨0, false⟩
  have evaluated : ((fun stages => ((fun stage : Answer × Builder =>
      decide (objectOf stage.1 = some 32 ∧ stage.2.vtables = [20] ∧ stage.2.storage.size ≤ 100)) <$>
        Call.closeTable.step (start.lastOf stages)).toOption) <$> start.run calls).toOption =
      some (some true) := by decide +kernel
  obtain ⟨stages, ran, shown⟩ := read_map.mp (ok_of_toOption evaluated)
  obtain ⟨⟨answer, closed⟩, stepped, shown⟩ := read_map.mp (ok_of_toOption shown)
  simp only [decide_eq_true_eq] at shown
  rcases shown with ⟨answered, shared, few⟩
  obtain rfl := objectOf_eq_some.mp answered
  rcases done_bind.mp (Call.done_of_step stepped) with ⟨⟨place⟩, _, closes, ended⟩
  cases ended
  have new : start.ReachableSized := .new _ (by decide)
  have reachable := new.lastOf (by simp [calls, Call.Sized]) ran
  obtain ⟨fits, -, -, exactly⟩ := reachable.offsets_exact
  obtain ⟨vtable, cached, distance, locates⟩ := (exactly _ .refl).vtable _ closed closes
  rw [shared, List.mem_singleton] at cached
  subst cached
  rw [closed.storage.size_eq] at few
  exact ⟨_, closed, _, reachable, fits, closes, rfl, shared, distance,
    locates _ (List.suffix_refl _) (Nat.le_trans few (by decide))⟩

end WireTables
