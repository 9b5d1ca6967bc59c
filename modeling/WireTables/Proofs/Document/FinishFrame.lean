import WireTables.Proofs.Builder.Alignment
import WireTables.Proofs.Document.FramedStream
import WireTables.Proofs.Document.SharedStrings

/-!
What finishing puts in front of the bytes that were written. They are padded once for all that is
still to come, and what comes then takes it up to the last byte: the identifier stands right behind
the reference to the root, and the reference right behind the size. The reference is aligned once
more by itself, but its width divides what everything was padded to, so that adds nothing.
-/

namespace WireTables

open Build

theorem Builder.Fresh.recorded {start : Builder} (fresh : start.Fresh) : start.Recorded [] := by
  cases fresh with
  | new options fits => exact .new options fits
  | cleared reachable =>
      obtain ⟨records, recorded⟩ := reachable.recorded
      exact recorded.step .clear rfl

def trailerWidth (mark : Bytes) (sized : Bool) : Nat :=
  referenceWidth + mark.length + if sized then referenceWidth else 0

/-- What finishing makes of a builder. In front of what was written stand zeros, as few as take all
of it to a multiple of the widest alignment, then the mark of the file, the reference to the root,
and the size of all this if it is asked for. -/
structure FinishedParts (builder : Builder) (root : UInt32) (mark : Bytes) (sized : Bool)
    (bytes payload : Bytes) : Prop where
  framed : bytes = if sized then frameOf payload else payload
  parts : ∃ reference : UInt32, reference.toNat + root.toNat = payload.length ∧
    payload = ScalarType.uint32.encode reference ++ (mark ++
      (zeros (paddingTo (max builder.alignment referenceWidth)
        (builder.storage.size + trailerWidth mark sized)) ++ builder.storage.written))
  small : payload.length ≤ maxBufferSize
  refers : RefersTo payload payload.length root.toNat

section Writing

variable {before after : Builder} {root : Offset .table} {sized : Bool}

theorem addTrailer_parts {mark : Bytes} (fits : before.capacity ≤ maxBufferSize)
    (power : before.alignment.isPowerOfTwo) (whole : referenceWidth ∣ mark.length)
    (ran : addTrailer root mark sized before = .done () after) :
    ∃ payload, FinishedParts before root.value mark sized after.storage.written payload := by
  rw [addTrailer, state_bind] at ran
  rcases done_bind.mp ran with ⟨_, second, prepares, ran⟩
  rcases done_bind.mp ran with ⟨_, third, marks, ran⟩
  rcases done_bind.mp ran with ⟨_, last, adds, sizes⟩
  have padded := (prepare_done prepares).2
  have marked := (put_done marks).1
  have thirdFits := marked.fits (padded.fits fits)
  -- the reference pads nothing, so it stands right in front of the mark
  obtain ⟨reference, stored, reached, refers⟩ :=
    addReference_of_aligned thirdFits (mark_mod power whole prepares marks) adds
  have small := Builder.size_le (stored.fits thirdFits)
  rw [last.storage.size_eq] at reached refers small
  refine ⟨last.storage.written, ?_, ⟨reference, reached, ?_⟩, small, refers⟩
  · cases sized with
    | false =>
        cases sizes
        rfl
    | true =>
        rw [if_pos rfl, head_bind] at sizes
        have sized := (put_done sizes).1.written
        rw [sized, Builder.head, last.storage.size_eq]
        rfl
  · rw [stored.written, marked.written, padded.written]
    rfl

theorem finish_parts {identifier : Option String} (fits : before.capacity ≤ maxBufferSize)
    (power : before.alignment.isPowerOfTwo)
    (ran : finish root identifier sized before = .done () after) :
    after.finished = true ∧
    (∀ given, identifier = some given → (encodeText given).length = identifierLength) ∧
    ∃ payload, FinishedParts before root.value ((identifier.map encodeText).getD []) sized
      after.storage.written payload := by
  rw [finish_apply] at ran
  split at ran
  case h_1 => cases ran
  case h_2 valid =>
    rcases done_bind.mp ran with ⟨_, same, required, rest⟩
    obtain ⟨rfl, -, -⟩ := requireNothingOpen_done required
    rcases done_bind.mp rest with ⟨_, last, trailed, ended⟩
    have parts := addTrailer_parts fits power (dvd_length_mark valid) trailed
    cases ended
    exact ⟨rfl, fun given => length_mark valid, parts⟩

end Writing

theorem Builder.detachedBytes_eq (builder : Builder) :
    builder.detachedBytes = builder.finishedBytes := by
  have behind : builder.storage.contents.drop builder.storage.room = builder.storage.written := by
    rw [Storage.contents, builder.storage.room_eq, ← List.length_reverse, List.drop_left]
  rw [detachedBytes, behind, finishedBytes]

section Reading

variable {builder : Builder} {root : UInt32} {mark bytes payload : Bytes} {sized : Bool}

theorem hasIdentifier_of_front {front behind : Bytes} {other : String}
    (start : front.length = if sized then 2 * referenceWidth else referenceWidth)
    (width : mark.length = identifierLength) (legal : validIdentifier (encodeText other) = true) :
    hasIdentifier (front ++ (mark ++ behind)) other sized = .ok (mark == encodeText other) := by
  have found : slice (front ++ (mark ++ behind))
      (if sized then 2 * referenceWidth else referenceWidth) identifierLength = .ok mark := by
    rw [← start, ← width, ← Nat.add_zero front.length, slice_append_front]
    exact slice_eq_ok_iff.mpr ⟨by simp, by simp⟩
  simp only [hasIdentifier, if_pos legal, found]
  rfl

namespace FinishedParts

theorem load_size (parts : FinishedParts builder root mark true bytes payload) :
    ∃ size : UInt32, loadScalar .uint32 bytes 0 = .ok size ∧
      size.toNat + referenceWidth = bytes.length := by
  have framed : bytes = frameOf payload := parts.framed
  have stands : StandsAt bytes bytes.length
      (ScalarType.uint32.encode (UInt32.ofNat payload.length)) := by
    rw [framed, frameOf, List.length_append]
    exact StandsAt.of_front _ _
  have loaded := stands.load_eq
  rw [Nat.sub_self] at loaded
  refine ⟨_, loaded, ?_⟩
  rw [toNat_ofNat_of_size parts.small, framed, length_frameOf, Nat.add_comm]

theorem hasIdentifier_eq {given other : String}
    (parts : FinishedParts builder root (encodeText given) sized bytes payload)
    (width : (encodeText given).length = identifierLength)
    (legal : validIdentifier (encodeText other) = true) :
    hasIdentifier bytes other sized = .ok (decide (other = given)) := by
  have answer : (encodeText given == encodeText other) = decide (other = given) := by
    rw [Bool.beq_eq_decide_eq, decide_eq_decide, encodeText_inj, eq_comm]
  obtain ⟨reference, -, rfl⟩ := parts.parts
  rw [parts.framed, ← answer]
  cases sized with
  | false => exact hasIdentifier_of_front (ScalarType.length_encode ..) width legal
  | true =>
      rw [if_pos rfl, frameOf, ← List.append_assoc]
      apply hasIdentifier_of_front _ width legal
      rw [List.length_append, ScalarType.length_encode, ScalarType.length_encode]
      rfl

theorem opens {records : List TableRecord} {record : TableRecord}
    (parts : FinishedParts builder record.table mark sized bytes payload)
    (keeps : KeepsVTables builder records) (known : record ∈ records) :
    ∃ view, (if sized then openSizedRoot bytes else openRoot bytes) = .ok view ∧
      view.buffer = payload ∧ record.SeenBy view := by
  obtain ⟨reference, -, parted⟩ := parts.parts
  have suffix : builder.storage.written <:+ payload := by
    rw [parted, ← List.append_assoc, ← List.append_assoc]
    exact List.suffix_append _ _
  obtain ⟨view, loaded, contained, whole, seen⟩ := keeps.seen known suffix parts.small
  refine ⟨view, ?_, whole, seen⟩
  rw [parts.framed]
  exact (openFinished_eq sized parts.small).trans
    (openRoot_of_refers parts.refers loaded contained)

end FinishedParts

end Reading

/-- Calls on a builder that was new or cleared, and then finishing at a table that was closed since.
The finished bytes are what was written before with the parts of a finished buffer in front, whether
they are looked at, copied or taken out of the builder. The size in front counts all that follows
it, the root opens at the distance from the end that it was known by, and of all identifiers the
buffer has the one it was given. -/
theorem Builder.Fresh.finish_frames {start builder finished : Builder} {calls : List Call}
    {records : List TableRecord} {root : TableRecord} {identifier : Option String} {sized : Bool}
    {reply : Reply} (fresh : start.Fresh)
    (made : start.recording [] calls = .ok (builder, records)) (closed : root ∈ records)
    (finishes : (Call.finish ⟨root.table⟩ identifier sized).step builder =
      .ok (.ok reply, finished)) :
    ∃ (bytes payload : Bytes) (view : TableView),
      finished.finishedBytes = .ok bytes ∧ finished.copiedBytes = .ok bytes ∧
      finished.detachedBytes = .ok bytes ∧
      FinishedParts builder root.table ((identifier.map encodeText).getD []) sized bytes payload ∧
      (sized = true → ∃ size : UInt32, loadScalar .uint32 bytes 0 = .ok size ∧
        size.toNat + referenceWidth = bytes.length) ∧
      (if sized then openSizedRoot bytes else openRoot bytes) = .ok view ∧
      view.buffer = payload ∧ root.SeenBy view ∧
      ∀ given, identifier = some given → ∀ other, validIdentifier (encodeText other) = true →
        hasIdentifier bytes other sized = .ok (decide (other = given)) := by
  have keeps := (fresh.recorded.of_recording made).keepsVTables
  have power := keeps.sound.power
  rcases done_bind.mp (Call.done_of_step finishes) with ⟨_, _, ran, ended⟩
  cases ended
  obtain ⟨done, width, payload, parts⟩ := finish_parts keeps.sound.fits power ran
  have shown := finishedBytes_of_finished done
  obtain ⟨view, opened, whole, seen⟩ := parts.opens keeps closed
  refine ⟨_, payload, view, shown, shown, (detachedBytes_eq _).trans shown, parts, ?_, opened,
    whole, seen, ?_⟩
  · rintro rfl
    exact parts.load_size
  · rintro given rfl other legal
    exact parts.hasIdentifier_eq (width given rfl) legal

theorem finish_frames_of_marked :
    let bytes : Bytes := [36, 0, 0, 0, 24, 0, 0, 0, 70, 76, 65, 84, 0, 0, 0, 0, 0, 0, 0, 7, 8, 9,
      6, 0, 12, 0, 4, 0, 6, 0, 0, 0, 5, 0, 0, 0, 0, 0, 0, 0]
    ∃ (finished : Builder) (view : TableView), finished.detachedBytes = .ok bytes ∧
      openSizedRoot bytes = .ok view ∧ view.position + 12 = 36 ∧
      hasIdentifier bytes "FLAT" true = .ok true ∧
      hasIdentifier bytes "FLOT" true = .ok false := by
  intro bytes
  let calls : List Call := [.openTable 1, .storeScalar 4 .int64 (5 : Int64) 0, .closeTable,
    .add .uint8 (9 : UInt8), .add .uint8 (8 : UInt8), .add .uint8 (7 : UInt8)]
  have evaluated : ((fun reached : Builder × List TableRecord =>
      (reached.2, ((fun stage : Answer × Builder => (stage.1.isOk, stage.2.finishedBytes.toOption)) <$>
        (Call.finish ⟨12⟩ (some "FLAT") true).step reached.1).toOption)) <$>
      (Builder.ofOptions ⟨0, false⟩).recording [] calls).toOption =
        some ([⟨12, 0, [8]⟩], some (true, some bytes)) := by decide +kernel
  obtain ⟨⟨builder, records⟩, made, shown⟩ := read_map.mp (ok_of_toOption evaluated)
  simp only [Prod.mk.injEq] at shown
  rcases shown with ⟨rfl, shown⟩
  obtain ⟨⟨answer, finished⟩, finishes, shown⟩ := read_map.mp (ok_of_toOption shown)
  simp only [Prod.mk.injEq] at shown
  rcases shown with ⟨accepted, ended⟩
  obtain ⟨reply, rfl⟩ := reply_of_isOk accepted
  obtain ⟨found, payload, view, shown, -, detached, parts, -, opened, whole, seen, identifies⟩ :=
    (Builder.Fresh.new ⟨0, false⟩ (by decide)).finish_frames made List.mem_cons_self finishes
  rw [ok_of_toOption ended] at shown
  cases shown
  have place := seen.place
  rw [whole] at place
  have length := length_frameOf payload
  have framed : bytes = frameOf payload := parts.framed
  rw [← framed] at length
  refine ⟨finished, view, detached, opened, place.trans ?_, ?_, ?_⟩
  · exact Nat.add_left_cancel (length.symm.trans rfl)
  · exact identifies "FLAT" rfl "FLAT" (by decide +kernel)
  · exact identifies "FLAT" rfl "FLOT" (by decide +kernel)

end WireTables
