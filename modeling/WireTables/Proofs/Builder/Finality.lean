import WireTables.Proofs.Builder.Change
import WireTables.Proofs.View.Chain

namespace WireTables

def objectOf : Answer → Option UInt32
  | .ok (.object offset) => some offset
  | _ => none

theorem reply_of_isOk {answer : Answer} (accepted : answer.isOk = true) :
    ∃ reply, answer = .ok reply := by
  cases answer with
  | ok reply => exact ⟨reply, rfl⟩
  | error error => cases accepted

theorem objectOf_eq_some {answer : Answer} {offset : UInt32} :
    objectOf answer = some offset ↔ answer = .ok (.object offset) := by
  constructor
  · intro found
    simp only [objectOf] at found
    split at found
    case h_1 =>
      cases found
      rfl
    case h_2 => cases found
  · rintro rfl
    rfl

theorem Storage.length_contents (storage : Storage) : storage.contents.length = storage.capacity := by
  rw [contents, List.length_append, List.length_reverse, capacity, storage.room_eq, storage.size_eq]

theorem Storage.drop_contents (storage : Storage) {distance : Nat} (inside : distance ≤ storage.size) :
    storage.contents.drop (storage.capacity - distance) =
      storage.written.drop (storage.size - distance) := by
  have gap : storage.capacity - distance = storage.free.reverse.length + (storage.size - distance) := by
    rw [capacity, List.length_reverse, storage.room_eq]
    omega
  rw [contents, gap, List.drop_length_add_append]

namespace Builder

variable {builder before after : Builder} {closing : Prop}

theorem suffix_of_change (change : Change closing before after) :
    before.storage.written <:+ after.storage.written := by
  rcases change.pushes_or_closed with
    ⟨front, pushed⟩ | ⟨start, fields, table, vtable, closed, -⟩ | ⟨storage, -, -⟩
  · exact ⟨front, pushed.written.symm⟩
  · exact closed.suffix
  · exact ⟨[], congrArg Storage.written storage.symm⟩

theorem suffix_of_changes (changes : ChangesBy closing before after) :
    before.storage.written <:+ after.storage.written := by
  induction changes with
  | refl => exact List.suffix_refl _
  | tail _ change ih => exact ih.trans (suffix_of_change change)

theorem head_le_of_changes (sound : before.Sound) (changes : Changes before after) :
    before.head ≤ after.head := by
  have longer := (suffix_of_changes changes).length_le
  rw [UInt32.le_iff_toNat_le, toNat_head sound.fits,
    toNat_head (sound_of_changes sound changes).fits, before.storage.size_eq, after.storage.size_eq]
  exact longer

theorem contents_of_changes (sound : before.Sound) (changes : Changes before after) :
    after.storage.contents.drop (after.capacity - before.head.toNat) =
      before.storage.contents.drop (before.capacity - before.head.toNat) := by
  have ends := suffix_of_changes changes
  have longer : before.storage.size ≤ after.storage.size := by
    rw [before.storage.size_eq, after.storage.size_eq]
    exact ends.length_le
  have kept : after.storage.written.drop (after.storage.size - before.storage.size) =
      before.storage.written := by
    rw [after.storage.size_eq, before.storage.size_eq, ← List.suffix_iff_eq_drop.mp ends]
  rw [toNat_head sound.fits]
  calc
    _ = after.storage.written.drop (after.storage.size - before.storage.size) :=
      Storage.drop_contents _ longer
    _ = before.storage.written.drop (before.storage.size - before.storage.size) := by
      rw [kept, Nat.sub_self, List.drop_zero]
    _ = _ := (Storage.drop_contents _ (Nat.le_refl _)).symm

theorem run_cons {call : Call} {calls : List Call} {stages : List (Answer × Builder)} :
    builder.run (call :: calls) = .ok stages ↔ ∃ answer middle later,
      call.step builder = .ok (answer, middle) ∧ middle.run calls = .ok later ∧
        stages = (answer, middle) :: later := by
  constructor
  · intro ran
    rcases read_bind.mp ran with ⟨⟨answer, middle⟩, stepped, rest⟩
    rcases read_bind.mp rest with ⟨later, ranLater, same⟩
    cases same
    exact ⟨answer, middle, later, stepped, ranLater, rfl⟩
  · rintro ⟨answer, middle, later, stepped, ranLater, rfl⟩
    exact read_bind.mpr ⟨_, stepped, read_bind.mpr ⟨later, ranLater, rfl⟩⟩

def lastOf (builder : Builder) : List (Answer × Builder) → Builder
  | [] => builder
  | (_, after) :: stages => after.lastOf stages

theorem lastOf_mem (builder : Builder) (stages : List (Answer × Builder)) :
    builder.lastOf stages ∈ builder :: stages.map Prod.snd := by
  induction stages generalizing builder with
  | nil => exact List.mem_cons_self
  | cons stage stages ih => exact List.mem_cons_of_mem _ (ih stage.2)

theorem lastOf_concat (builder : Builder) (stages : List (Answer × Builder)) (answer : Answer)
    (after : Builder) : builder.lastOf (stages ++ [(answer, after)]) = after := by
  induction stages generalizing builder with
  | nil => rfl
  | cons stage stages ih => exact ih stage.2

theorem run_append {early late : List Call} {stages : List (Answer × Builder)} :
    builder.run (early ++ late) = .ok stages ↔ ∃ first last, builder.run early = .ok first ∧
      (builder.lastOf first).run late = .ok last ∧ stages = first ++ last := by
  induction early generalizing builder stages with
  | nil =>
      constructor
      · exact fun ran => ⟨[], stages, rfl, ran, rfl⟩
      · rintro ⟨first, last, ran, ranLate, rfl⟩
        cases ran
        exact ranLate
  | cons call early ih =>
      rw [List.cons_append, run_cons]
      constructor
      · rintro ⟨answer, middle, later, stepped, ran, rfl⟩
        obtain ⟨first, last, ranEarly, ranLate, rfl⟩ := ih.mp ran
        exact ⟨_, last, run_cons.mpr ⟨answer, middle, first, stepped, ranEarly, rfl⟩, ranLate, rfl⟩
      · rintro ⟨first, last, ran, ranLate, rfl⟩
        rcases run_cons.mp ran with ⟨answer, middle, later, stepped, ranEarly, rfl⟩
        exact ⟨answer, middle, _, stepped, ih.mpr ⟨later, last, ranEarly, ranLate, rfl⟩, rfl⟩

theorem length_of_run {calls : List Call} {stages : List (Answer × Builder)}
    (ran : builder.run calls = .ok stages) : stages.length = calls.length := by
  induction calls generalizing builder stages with
  | nil =>
      cases ran
      rfl
  | cons call calls ih =>
      rcases run_cons.mp ran with ⟨answer, middle, later, -, ranLater, rfl⟩
      rw [List.length_cons, List.length_cons, ih ranLater]

theorem changes_of_run {calls : List Call} {stages : List (Answer × Builder)} (sound : builder.Sound)
    (kept : ∀ call ∈ calls, call ≠ .clear) (ran : builder.run calls = .ok stages) :
    ∀ stage ∈ stages, Changes builder stage.2 := by
  induction calls generalizing builder stages with
  | nil =>
      cases ran
      exact fun _ member => absurd member List.not_mem_nil
  | cons call calls ih =>
      rw [List.forall_mem_cons] at kept
      rcases run_cons.mp ran with ⟨answer, middle, later, stepped, ranLater, rfl⟩
      have first := Call.changes_of_step kept.1 sound stepped
      intro stage member
      rcases List.mem_cons.mp member with rfl | member
      · exact first
      · exact first.trans (ih (sound_of_step sound stepped) kept.2 ranLater stage member)

/-- `later` is the builder itself or comes of it by calls other than `clear`, refused or not. -/
def Follows (builder later : Builder) : Prop :=
  ∃ (calls : List Call) (stages : List (Answer × Builder)), (∀ call ∈ calls, call ≠ .clear) ∧
    builder.run calls = .ok stages ∧ later ∈ builder :: stages.map Prod.snd

theorem Follows.changes {later : Builder} (follows : builder.Follows later)
    (sound : builder.Sound) : Changes builder later := by
  rcases follows with ⟨calls, stages, kept, ran, member⟩
  rcases List.mem_cons.mp member with rfl | member
  · exact .refl
  · obtain ⟨stage, known, rfl⟩ := List.mem_map.mp member
    exact changes_of_run sound kept ran stage known

theorem reads_of_changes (changes : Changes before after) {kind : Kind} {object : Offset kind}
    {reads : List Read} {reading : Reading} {buffer : Bytes}
    (inside : object.value.toNat ≤ before.storage.size)
    (ran : readObject kind before.storage.written (before.storage.size - object.value.toNat) reads =
      .ok reading)
    (ends : after.storage.written <:+ buffer) :
    ∃ front later, buffer = front ++ before.storage.written ∧
      readObject kind buffer (buffer.length - object.value.toNat) reads = .ok later ∧
        reading.Agrees front later := by
  obtain ⟨front, rfl⟩ := (suffix_of_changes changes).trans ends
  obtain ⟨later, ranLater, agrees⟩ := readObject_append_front front ran
  refine ⟨front, later, rfl, ?_, agrees⟩
  rw [before.storage.size_eq] at inside ranLater
  rw [length_append_sub front inside, ranLater]

end Builder

/-- A call other than `clear` that does not fault, refused or not, leaves the head where it is or
moves it on, and leaves the bytes behind it as they are. So a chain of reads from any object behind
the head comes to the same end after any further calls, in every buffer that ends with what is
written then: in the storage as it stands, and in the finished bytes. -/
theorem Builder.Reachable.written_final {builder : Builder} (reachable : builder.Reachable) :
    (∀ (call : Call) (answer : Answer) (after : Builder), call ≠ .clear →
      call.step builder = .ok (answer, after) →
        builder.head ≤ after.head ∧
          after.storage.contents.drop (after.capacity - builder.head.toNat) =
            builder.storage.contents.drop (builder.capacity - builder.head.toNat)) ∧
    (∀ (calls : List Call) (stages : List (Answer × Builder)), (∀ call ∈ calls, call ≠ .clear) →
      builder.run calls = .ok stages → ∀ stage ∈ stages,
        ∀ (kind : Kind) (object : Offset kind) (reads : List Read) (reading : Reading)
          (buffer : Bytes), object.value ≤ builder.head →
          readObject kind builder.storage.written
            (builder.storage.size - object.value.toNat) reads = .ok reading →
          stage.2.storage.written <:+ buffer →
          ∃ front later, buffer = front ++ builder.storage.written ∧
            readObject kind buffer (buffer.length - object.value.toNat) reads = .ok later ∧
              reading.Agrees front later) := by
  have sound := reachable.sound
  constructor
  · intro call answer after kept stepped
    have changes := Call.changes_of_step kept sound stepped
    exact ⟨head_le_of_changes sound changes, contents_of_changes sound changes⟩
  · intro calls stages kept ran stage member kind object reads reading buffer reached found ends
    have changes := changes_of_run sound kept ran stage member
    rw [UInt32.le_iff_toNat_le, toNat_head sound.fits] at reached
    exact reads_of_changes changes reached found ends

theorem written_final_of_byteString :
    ∃ (builder after : Builder) (answer : Answer) (stages : List (Answer × Builder)),
      builder.Reachable ∧ (Call.openTable 1).step builder = .ok (answer, after) ∧
      builder.head ≤ after.head ∧
      builder.run [.openTable 1, .closeTable, .closeTable] = .ok stages ∧ stages.length = 3 ∧
      ∀ stage ∈ stages, ∃ front later,
        readObject .string stage.2.storage.contents (stage.2.storage.contents.length - 8) [] =
          .ok later ∧ Reading.Agrees front (.bytes [1, 2]) later := by
  let calls : List Call := [.openTable 1, .closeTable, .closeTable]
  have evaluated : ((fun stage => (stage.2.storage.written, stage.2.head,
      ((fun _ => ()) <$> (Call.openTable 1).step stage.2).toOption,
      (List.length <$> stage.2.run calls).toOption)) <$>
        (Call.writeByteString [1, 2]).step (.ofOptions ⟨0, false⟩)).toOption =
      some ([2, 0, 0, 0, 1, 2, 0, 0], 8, some (), some 3) := by decide +kernel
  obtain ⟨⟨answer, builder⟩, stepped, shown⟩ := read_map.mp (ok_of_toOption evaluated)
  simp only [Prod.mk.injEq] at shown
  rcases shown with ⟨written, headed, opened, ran⟩
  obtain ⟨⟨reply, after⟩, opens, -⟩ := read_map.mp (ok_of_toOption opened)
  obtain ⟨stages, ranAll, three⟩ := read_map.mp (ok_of_toOption ran)
  have reachable : builder.Reachable := .step _ (.new ⟨0, false⟩ (by decide)) stepped
  obtain ⟨still, final⟩ := reachable.written_final
  refine ⟨builder, after, reply, stages, reachable, opens, (still _ _ _ ?_ opens).1, ranAll, three, ?_⟩
  · intro same
    cases same
  · intro stage member
    have kept : ∀ call ∈ calls, call ≠ .clear := by simp [calls]
    have found : readObject .string builder.storage.written (builder.storage.size - 8) [] =
        .ok (.bytes [1, 2]) := by
      rw [builder.storage.size_eq, written]
      rfl
    obtain ⟨front, later, -, read, agrees⟩ := final calls stages kept ranAll stage member .string ⟨8⟩
      [] _ stage.2.storage.contents (by rw [headed]; decide) found (List.suffix_append _ _)
    exact ⟨front, later, read, agrees⟩

end WireTables
