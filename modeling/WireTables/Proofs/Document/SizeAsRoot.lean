import WireTables.Proofs.Document.FinishFrame
import WireTables.Proofs.Document.Origin
import WireTables.Proofs.View.RootBounds

/-!
A sized buffer that is opened as one without a size. Its size is then taken for the reference to the
root, and leads to the last four bytes. Nothing tells the two kinds of buffer apart: what was written
first decides whether a table is found there.
-/

namespace WireTables

open Build

section Numbers

theorem numberAt_append_front (front bytes : Bytes) (position width : Nat) :
    numberAt (front ++ bytes) (front.length + position) width = numberAt bytes position width := by
  rw [numberAt, numberAt, List.drop_length_add_append]

theorem openRoot_of_inside {buffer : Bytes}
    (inside : rootOf buffer + referenceWidth ≤ buffer.length) :
    openRoot buffer =
      if 0 ≤ vtableOf buffer ∧ vtableOf buffer + vtableHeaderWidth ≤ buffer.length ∧
        vtableOf buffer + vtableSizeOf buffer ≤ buffer.length
      then .ok (rootView buffer)
      else .error (.outside (vtableOf buffer).toNat buffer.length) := by
  have decided := openRoot_decided buffer
  generalize openRoot buffer = opened, openRootByChecks buffer = checked at decided ⊢
  cases decided with
  | opened within => rw [if_pos ⟨within.start, within.header, within.vtable⟩]
  | declined outside =>
      cases outside with
      | reference short => omega
      | table _ far => omega
      | start _ _ before =>
          rw [if_neg (by omega), Int.toNat_of_nonpos (Int.le_of_lt before)]
      | header => rw [if_neg (by omega)]
      | vtable => rw [if_neg (by omega)]

theorem TableStands.openRoot_iff {bytes : Bytes} {start table vtable : UInt32} {fields : List UInt32}
    (stands : TableStands bytes start table vtable fields)
    (place : rootOf bytes + referenceWidth = bytes.length) :
    openRoot bytes = .ok (view bytes table vtable fields) ↔ table.toNat = referenceWidth := by
  have within := stands.link.distance_le
  constructor
  · intro opened
    rw [openRoot_of_inside (Nat.le_of_eq place)] at opened
    split at opened
    case isTrue =>
      have same : rootOf bytes = bytes.length - table.toNat :=
        congrArg TableView.position (Except.ok.inj opened)
      omega
    case isFalse => cases opened
  · intro same
    have readable : referenceWidth ≤ bytes.length := by omega
    obtain ⟨reference, loaded, found⟩ := load_root readable
    have reached : reference.toNat = bytes.length - table.toNat := by omega
    exact openRoot_of_load loaded (reached ▸ stands.load) stands.contained

end Numbers

/-- Opening a finished buffer with a size as one without takes the size for the root. It does not
fail for that: there is a table to be read unless the vtable that the bytes at this place lead to
lies outside, which is what an error then says. In a session the place is that of the last four
bytes, which were written before finishing, so the table that is read is the root only if the root
stands right there. -/
theorem sized_read_as_plain {builder finished : Builder} {table : UInt32}
    {identifier : Option String} {reply : Reply}
    (finishes : (Call.finish ⟨table⟩ identifier true).step builder = .ok (.ok reply, finished)) :
    ∃ bytes payload : Bytes, finished.detachedBytes = .ok bytes ∧ bytes = frameOf payload ∧
      builder.storage.written <:+ payload ∧ rootOf bytes = payload.length % 2 ^ 32 ∧
      openRoot bytes =
        (if 0 ≤ vtableOf bytes ∧ vtableOf bytes + vtableHeaderWidth ≤ bytes.length ∧
          vtableOf bytes + vtableSizeOf bytes ≤ bytes.length
        then .ok (rootView bytes)
        else .error (.outside (vtableOf bytes).toNat bytes.length)) ∧
      ∀ {first : Builder} {turns : List Turn} {closing : Turn}, first.Measured →
        Turns first turns builder → closing ∈ turns → closing.call = .closeTable →
        closing.answer = .ok (.object table) → bytes.length ≤ maxBufferSize →
          rootOf bytes + referenceWidth = bytes.length ∧
          signedAt bytes (rootOf bytes) referenceWidth = signedAt builder.storage.written
            (builder.storage.size - referenceWidth) referenceWidth ∧
          ∃ root, TableView.load bytes (bytes.length - table.toNat) = .ok root ∧
            (openRoot bytes = .ok root ↔ table.toNat = referenceWidth) := by
  rcases done_bind.mp (Call.done_of_step finishes) with ⟨_, _, ran, ended⟩
  cases ended
  obtain ⟨trailed, trails, rfl⟩ := finish_steps ran
  obtain ⟨marked, last, referred, suffix, room, written⟩ := addTrailer_steps trails
  rw [if_pos rfl, last.storage.size_eq] at written
  rw [last.storage.size_eq] at room
  have length := length_frameOf last.storage.written
  have root := rootOf_frameOf last.storage.written
  have less := Nat.mod_le last.storage.written.length (2 ^ 32)
  refine ⟨frameOf last.storage.written, last.storage.written, ?_, rfl, suffix, root,
    openRoot_of_inside (by omega), ?_⟩
  · rw [Builder.detachedBytes_eq]
    exact congrArg Except.ok written
  · intro first turns closing measured made member closes answered small
    obtain ⟨start, fields, vtable, closed, stands⟩ :=
      made.closed_table measured.ordered member closes answered
    have linked := stands.link.length_le
    have within := stands.link.distance_le
    rw [ScalarType.length_encode] at linked
    change referenceWidth ≤ table.toNat at linked
    obtain ⟨front, whole⟩ : builder.storage.written <:+ frameOf last.storage.written :=
      suffix.trans (List.suffix_append _ _)
    have total := congrArg List.length whole
    rw [List.length_append] at total
    have limit : maxBufferSize < 2 ^ 32 := by decide
    have place : rootOf (frameOf last.storage.written) + referenceWidth =
        (frameOf last.storage.written).length := by
      rw [root, Nat.mod_eq_of_lt (by omega), length, Nat.add_comm]
    have inner : rootOf (frameOf last.storage.written) =
        front.length + (builder.storage.size - referenceWidth) := by
      rw [builder.storage.size_eq]
      omega
    have standing := stands.of_suffix ⟨front, whole⟩ small
    refine ⟨place, ?_, _, standing.load, standing.openRoot_iff place⟩
    rw [signedAt, signedAt, inner, ← whole, numberAt_append_front]

theorem sized_read_as_plain_of_zeros :
    let bytes : Bytes := [24, 0, 0, 0, 12, 0, 0, 0, 0, 0, 6, 0, 8, 0, 6, 0, 6, 0, 0, 0, 0, 0, 7, 0,
      0, 0, 0, 0]
    ∃ (builder finished : Builder) (reply : Reply) (root : TableView),
      (Call.finish ⟨12⟩ none true).step builder = .ok (.ok reply, finished) ∧
      finished.detachedBytes = .ok bytes ∧ openRoot bytes = .ok ⟨bytes, 24, 24, 0⟩ ∧
      TableView.load bytes 16 = .ok root ∧ openRoot bytes ≠ .ok root := by
  intro bytes
  let calls : List Call :=
    [.add .uint32 (0 : UInt32), .openTable 1, .storeScalar 4 .uint16 (7 : UInt16) 0]
  have evaluated : ((fun stages =>
      (decide (∀ stage ∈ stages, stage.2.storage.size ≤ maxBufferSize),
        ((fun stage : Answer × Builder =>
          (decide (objectOf stage.1 = some 12 ∧ stage.2.storage.size ≤ maxBufferSize),
          ((fun last : Answer × Builder =>
            decide (last.1.isOk = true ∧ last.2.detachedBytes.toOption = some bytes)) <$>
              (Call.finish ⟨12⟩ none true).step stage.2).toOption)) <$>
          Call.closeTable.step ((Builder.ofOptions ⟨64, false⟩).lastOf stages)).toOption)) <$>
        (Builder.ofOptions ⟨64, false⟩).run calls).toOption =
      some (true, some (true, some true)) := by decide +kernel
  have plain : (openRoot bytes).toOption = some ⟨bytes, 24, 24, 0⟩ := by decide +kernel
  obtain ⟨stages, ran, shown⟩ := read_map.mp (ok_of_toOption evaluated)
  simp only [Prod.mk.injEq, decide_eq_true_eq] at shown
  obtain ⟨small, shown⟩ := shown
  obtain ⟨⟨answer, builder⟩, closes, shown⟩ := read_map.mp (ok_of_toOption shown)
  simp only [Prod.mk.injEq, decide_eq_true_eq] at shown
  obtain ⟨⟨answered, few⟩, shown⟩ := shown
  obtain ⟨⟨ending, finished⟩, finishes, shown⟩ := read_map.mp (ok_of_toOption shown)
  simp only [decide_eq_true_eq] at shown
  obtain ⟨accepted, detached⟩ := shown
  obtain ⟨reply, rfl⟩ := reply_of_isOk accepted
  have kept : ∀ call ∈ calls, call ≠ .clear := by simp [calls]
  have turns := Turns.made (Turns.nothing.of_run kept small ran) (nofun : Call.closeTable ≠ .clear)
    closes few
  obtain ⟨found, payload, shown, -, -, -, -, session⟩ := sized_read_as_plain finishes
  rw [ok_of_toOption detached] at shown
  cases shown
  obtain ⟨-, -, root, loaded, same⟩ := session (.new _) turns List.mem_cons_self rfl
    (objectOf_eq_some.mp answered) (by decide)
  have differs : ¬ (12 : UInt32).toNat = referenceWidth := by decide
  exact ⟨builder, finished, reply, root, finishes, ok_of_toOption detached, ok_of_toOption plain,
    loaded, fun found => differs (same.mp found)⟩

end WireTables
