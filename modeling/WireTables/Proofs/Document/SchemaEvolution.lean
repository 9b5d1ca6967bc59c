import WireTables.Proofs.Builder.FieldCount
import WireTables.Proofs.Document.LedgerRead

namespace WireTables

section Session

variable {builder : Builder} {ledger : Ledger} {count : Nat} {adds : List Call}
  {first : List (Answer × Builder)} {reply : Reply} {after : Builder}

theorem account_of_tableSession (accounted : builder.Accounted ledger)
    (ran : builder.run (tableSession count adds) = .ok first)
    (ended : first.getLast? = some (.ok reply, after)) :
    after.Accounted (ledger.through builder (tableSession count adds) first) ∧
      ∃ account, (ledger.through builder (tableSession count adds) first).tables.head? =
        some account ∧ reply = .object account.table := by
  have accounts := accounted.of_run ran
  rw [tableSession, ← List.cons_append] at ran accounts ⊢
  obtain ⟨early, late, ranEarly, ranClose, rfl⟩ := Builder.run_append.mp ran
  obtain ⟨answer, closed, none, stepped, ranNone, rfl⟩ := Builder.run_cons.mp ranClose
  cases ranNone
  rw [List.getLast?_concat] at ended
  cases ended
  rw [Builder.lastOf_concat] at accounts
  obtain ⟨table, rfl⟩ := object_of_closeTable stepped
  refine ⟨accounts, ?_⟩
  rw [Ledger.through_append ranEarly]
  exact ⟨_, rfl, rfl⟩

/-- A table comes out the same however many fields behind its own it was opened with: the calls are
answered alike, and the builders end up equal. Read from any bytes that end with what was written,
the table shows what was stored in it, and in every other slot nothing. -/
theorem tableSession_evolves {more : Nat} (accounted : builder.Accounted ledger)
    (within : ∀ call ∈ adds, call.AddsWithin count ∧ call.AddsWithin more)
    (ran : builder.run (tableSession count adds) = .ok first) :
    ∃ second, builder.run (tableSession more adds) = .ok second ∧
      second.map (·.1.toOption) = first.map (·.1.toOption) ∧
      ∀ reply after, first.getLast? = some (.ok reply, after) →
        second.getLast? = some (.ok reply, after) ∧
        ∃ account, (ledger.through builder (tableSession count adds) first).tables.head? =
            some account ∧ reply = .object account.table ∧
          ∀ bytes, after.storage.written <:+ bytes →
            ∃ view, TableView.load bytes (bytes.length - account.table.toNat) = .ok view ∧
              view.buffer = bytes ∧ account.ShownBy view := by
  obtain ⟨second, ranToo, alike, closed⟩ := Builder.sameTable_of_run more within ran
  refine ⟨second, ranToo, alike, fun reply after ended => ⟨closed reply after ended, ?_⟩⟩
  obtain ⟨accounts, account, newest, placed⟩ := account_of_tableSession accounted ran ended
  exact ⟨account, newest, placed, fun bytes suffix =>
    accounts.read (List.mem_of_head? newest) suffix⟩

theorem tableSession_evolves_two_three :
    let adds : List Call := [.storeScalar 4 .uint8 7 0, .storeOptional 6 .uint16 none]
    let new : Builder := .ofOptions ⟨64, false⟩
    let written : Bytes := [6, 0, 8, 0, 7, 0, 6, 0, 0, 0, 0, 0, 0, 7]
    ∃ (first second : List (Answer × Builder)) (after : Builder) (view : TableView),
      new.run (tableSession 2 adds) = .ok first ∧ new.run (tableSession 3 adds) = .ok second ∧
        first.getLast?.map Prod.snd = some after ∧ second.getLast?.map Prod.snd = some after ∧
        after.storage.written = written ∧ TableView.load written 6 = .ok view ∧
        view.has 4 = .ok true ∧ Lacks view 6 ∧ Lacks view 8 := by
  intro adds new written
  have within : ∀ call ∈ adds, call.AddsWithin 2 ∧ call.AddsWithin 3 := by
    simp [adds, Call.AddsWithin, indexOfSlot, vtableHeaderWidth, entryWidth]
  have run : ((fun first : List (Answer × Builder) =>
      (first.getLast?.map fun stage => (stage.1.isOk, stage.2.storage.written),
        (Ledger.empty.through new (tableSession 2 adds) first).tables.head?.map fun account =>
          (account.table, (held account.entries 4).isSome,
            (held account.entries 6).isNone, (held account.entries 8).isNone))) <$>
              new.run (tableSession 2 adds)).toOption =
        some (some (true, written), some (8, true, true, true)) := by decide +kernel
  obtain ⟨first, ran, shown⟩ := read_map.mp (ok_of_toOption run)
  simp only [Prod.mk.injEq, Option.map_eq_some_iff] at shown
  obtain ⟨⟨⟨answer, after⟩, ended, through, bytes⟩, account, newest, table, stored, unset,
    unknown⟩ := shown
  cases answer with
  | error error => cases through
  | ok reply =>
      obtain ⟨second, ranToo, -, closed⟩ :=
        tableSession_evolves (Builder.Accounted.new _ (by decide)) within ran
      obtain ⟨endedToo, found, newestToo, -, reads⟩ := closed reply after ended
      obtain rfl := Option.some.inj (newest.symm.trans newestToo)
      obtain ⟨view, loaded, -, shows⟩ := reads written (bytes ▸ List.suffix_rfl)
      obtain ⟨content, present⟩ := Option.isSome_iff_exists.mp stored
      refine ⟨first, second, after, view, ran, ranToo, ?_, ?_, bytes, ?_, ?_, ?_, ?_⟩
      · rw [ended]
        rfl
      · rw [endedToo]
        rfl
      · rw [table] at loaded
        exact loaded
      · exact shows.has present
      · exact shows.lacks (Option.isNone_iff_eq_none.mp unset) rfl
      · exact shows.lacks (Option.isNone_iff_eq_none.mp unknown) rfl

end Session

end WireTables
