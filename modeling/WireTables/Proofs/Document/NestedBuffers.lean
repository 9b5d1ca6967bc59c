import WireTables.Proofs.Document.FramedStream
import WireTables.Proofs.Document.LedgerRead
import WireTables.Proofs.View.Chain

namespace WireTables

/-- Any calls since a builder was new or cleared, and then finishing it: the root is a table that
was closed in that time, and `bytes` is what came of it, with its size in front if it is `sized`. -/
structure FinishedSession where
  builder : Builder
  ledger : Ledger
  root : Account
  identifier : Option String
  sized : Bool
  after : Builder
  bytes : Bytes
  accounted : builder.Accounted ledger
  closed : root ∈ ledger.tables
  finished : Build.finish ⟨root.table⟩ identifier sized builder = .done () after
  ended : after.finishedBytes = .ok bytes

namespace FinishedSession

variable (session : FinishedSession)

def payload : Bytes := if session.sized then session.bytes.drop referenceWidth else session.bytes

theorem payload_of_plain (plain : session.sized = false) : session.payload = session.bytes := by
  rw [payload, plain]
  rfl

theorem finishes : session.payload.length ≤ maxBufferSize ∧
    session.bytes = (if session.sized then frameOf session.payload else session.payload) ∧
      session.builder.storage.written <:+ session.payload ∧
        RefersTo session.payload session.payload.length session.root.table.toNat := by
  obtain ⟨bytes, small, suffix, -, refers, ended⟩ :=
    Build.finish_done session.accounted.agrees.sound.fits session.finished
  have whole : session.bytes = if session.sized then frameOf bytes else bytes :=
    Except.ok.inj (session.ended.symm.trans ended)
  have same : session.payload = bytes := by
    rw [payload, whole]
    split
    · exact List.drop_left' (ScalarType.length_encode ..)
    · rfl
  rw [same]
  exact ⟨small, whole, suffix, refers⟩

theorem opens : ∃ view, openFinished session.sized session.bytes = .ok view ∧
    view.buffer = session.payload ∧
      view.position + session.root.table.toNat = session.payload.length ∧
        TableView.load session.payload view.position = .ok view := by
  obtain ⟨small, framed, suffix, refers⟩ := session.finishes
  obtain ⟨start, vtable, fields, standing, -, -⟩ :=
    session.accounted.agrees.tables session.root session.closed
  have stands := standing.of_suffix suffix small
  have opened := openRoot_of_refers refers stands.load stands.contained
  rw [← openFinished_eq session.sized small, ← framed] at opened
  exact ⟨_, opened, rfl, Nat.sub_add_cancel stands.link.distance_le, stands.load⟩

end FinishedSession

/-- The ways to write bytes as a vector: all at once, as scalars of one byte, or into a vector that
was opened over zeros. -/
inductive WritesBytes (bytes : Bytes) (before : Builder) (vector : UInt32) (after : Builder) : Prop
  | bytes (stepped : (Call.writeBytes bytes).step before = .ok (.ok (.object vector), after))
  | scalars
      (stepped : (Call.writeScalars .uint8 bytes).step before = .ok (.ok (.object vector), after))
  | filled (alignment : Nat) (reply : Reply) (opened : Builder)
      (filling : (Call.openFilledVector 1 bytes.length alignment bytes).step before =
        .ok (.ok reply, opened))
      (closing : Call.closeVector.step opened = .ok (.ok (.object vector), after))

theorem Build.openFilledVector_done {before after : Builder} {alignment : Nat}
    {bytes blank : Bytes}
    (ran : openFilledVector 1 bytes.length alignment bytes before = .done blank after) :
    ∃ opened, openVector 1 bytes.length alignment before = .done () opened ∧
      Pushed opened after bytes := by
  rcases done_bind.mp ran with ⟨_, opened, opens, rest⟩
  rcases done_bind.mp rest with ⟨_, full, fills, rest⟩
  cases rest
  have length : (zeros (1 * bytes.length)).length = bytes.length := by
    rw [length_zeros, Nat.one_mul]
  rw [length, List.take_length, List.drop_of_length_le (Nat.le_of_eq length),
    List.append_nil] at fills
  exact ⟨opened, opens, (put_done fills).1⟩

theorem WritesBytes.wrote {bytes : Bytes} {before after : Builder} {vector : UInt32}
    (writes : WritesBytes bytes before vector after) (fits : before.capacity ≤ maxBufferSize) :
    Build.Wrote before after vector
      (ScalarType.uint32.encode (UInt32.ofNat bytes.length) ++ bytes) := by
  have scalars {offset : Offset (.vector (.scalar .uint8))} {last : Builder}
      (ran : Build.writeScalars .uint8 bytes before = .done offset last) :=
    Build.writeScalars_done fits ran
  rw [Build.flatMap_encode_uint8] at scalars
  cases writes with
  | bytes stepped =>
      rcases Build.done_bind.mp (Call.done_of_step stepped) with ⟨offset, last, ran, ended⟩
      cases ended
      rw [Build.writeBytes_eq_writeScalars] at ran
      exact scalars ran
  | scalars stepped =>
      rcases Build.done_bind.mp (Call.done_of_step stepped) with ⟨offset, last, ran, ended⟩
      cases ended
      exact scalars ran
  | filled alignment reply opened filling closing =>
      rcases Build.done_bind.mp (Call.done_of_step filling) with ⟨blank, full, fills, ended⟩
      cases ended
      rcases Build.done_bind.mp (Call.done_of_step closing) with ⟨offset, last, closes, ended⟩
      cases ended
      obtain ⟨started, opens, pushed⟩ := Build.openFilledVector_done fills
      exact Build.wrote_of_vector fits opens pushed closes

theorem WritesBytes.reachable {bytes : Bytes} {before after : Builder} {vector : UInt32}
    (writes : WritesBytes bytes before vector after) (reachable : before.Reachable) :
    after.Reachable := by
  cases writes with
  | bytes stepped => exact .step _ reachable stepped
  | scalars stepped => exact .step _ reachable stepped
  | filled alignment reply opened filling closing =>
      exact .step _ (.step _ reachable filling) closing

/-- A slot of the table holds a reference to the bytes, which were written as a vector at some time
since the builder was new or cleared. -/
def FinishedSession.Holds (outer : FinishedSession) (table : UInt32) (slot : Slot)
    (bytes : Bytes) : Prop :=
  ∃ before vector after, before.Reachable ∧ WritesBytes bytes before vector after ∧
    after.Follows outer.builder ∧ ∃ account ∈ outer.ledger.tables, account.table = table ∧
      held account.entries slot = some (.reference vector)

/-- Buffers each of which is held by the one around it. A hop names the table that refers to the
next buffer, and the slot. Only the outermost may have its size in front. -/
inductive Nested : FinishedSession → List (UInt32 × Slot) → FinishedSession → Prop
  | here (session : FinishedSession) (plain : session.sized = false) : Nested session [] session
  | inside {outer middle inner : FinishedSession} {table : UInt32} {slot : Slot}
      {hops : List (UInt32 × Slot)} (plain : middle.sized = false)
      (holds : outer.Holds table slot middle.bytes)
      (deeper : Nested middle hops inner) : Nested outer ((table, slot) :: hops) inner

/-- Goes in along the hops: to the table at that distance from the end of the buffer, and from there
to the root of the buffer in its slot. -/
def TableView.descend (view : TableView) :
    List (UInt32 × Slot) → Except Fault (Except OpenError (Option TableView))
  | [] => pure (.ok (some view))
  | (table, slot) :: hops => do
      let holder ← TableView.load view.buffer (view.buffer.length - table.toNat)
      match ← holder.nestedRoot slot with
      | .ok (some root) => root.descend hops
      | missing => pure missing

section Nesting

variable {outer inner : FinishedSession} {table : UInt32} {slot : Slot} {bytes : Bytes}

/-- A vector of bytes that holds a whole buffer. -/
theorem nestedRoot_of_bytes {view : TableView} {vector : VectorView (.scalar .uint8)}
    (found : view.vectorAt slot (.scalar .uint8) = .ok (some vector))
    (taken : vector.bytes = .ok bytes) : view.nestedRoot slot = .ok (some <$> openRoot bytes) := by
  rw [TableView.nestedRoot]
  exact read_bind.mpr ⟨_, found, read_bind.mpr ⟨bytes, taken, rfl⟩⟩

theorem FinishedSession.Holds.nestedRoot (holds : outer.Holds table slot bytes) :
    ∃ holder, TableView.load outer.payload (outer.payload.length - table.toNat) = .ok holder ∧
      holder.nestedRoot slot = .ok (some <$> openRoot bytes) := by
  obtain ⟨before, vector, after, reachable, writes, follows, account, known, rfl, reference⟩ :=
    holds
  obtain ⟨small, -, suffix, -⟩ := outer.finishes
  have later := Builder.suffix_of_changes (follows.changes (writes.reachable reachable).sound)
  have stands := (writes.wrote reachable.sound.fits).stands.of_suffix (later.trans suffix)
  obtain ⟨holder, loaded, whole, shown⟩ := outer.accounted.read known suffix
  have refers := shown slot
  rw [reference] at refers
  obtain ⟨-, -, -, vectorAt, -⟩ := refers
  have stored : Stored false outer.payload vector.toNat (.scalars .uint8 bytes) := by
    apply stored_scalars small
    rw [Build.flatMap_encode_uint8]
    exact stands
  obtain ⟨payload, found, -, taken⟩ := stored.read
  rw [Build.flatMap_encode_uint8] at taken
  refine ⟨holder, loaded, nestedRoot_of_bytes ?_ taken⟩
  rw [vectorAt, whole, found]
  rfl

theorem Nested.descend {hops : List (UInt32 × Slot)} (nested : Nested outer hops inner) :
    inner.sized = false ∧ ∃ first last, openFinished outer.sized outer.bytes = .ok first ∧
      openRoot inner.bytes = .ok last ∧ first.descend hops = .ok (.ok (some last)) := by
  induction nested with
  | here session plain =>
      obtain ⟨view, opened, -⟩ := session.opens
      refine ⟨plain, view, view, opened, ?_, rfl⟩
      rwa [plain] at opened
  | @inside outer middle inner table slot hops plain holds deeper ih =>
      obtain ⟨innermost, next, last, nextOpened, lastOpened, onward⟩ := ih
      rw [plain] at nextOpened
      have nextRoot : openRoot middle.bytes = .ok next := nextOpened
      obtain ⟨first, opened, whole, -, -⟩ := outer.opens
      obtain ⟨holder, loaded, nested⟩ := holds.nestedRoot
      rw [← whole] at loaded
      rw [nextRoot] at nested
      refine ⟨innermost, first, last, opened, lastOpened, ?_⟩
      exact read_bind.mpr ⟨holder, loaded, read_bind.mpr ⟨_, nested, onward⟩⟩

end Nesting

/-- However deep one finished buffer lies in another, going in reaches the root of the innermost: a
view of exactly its bytes, at the place of its root. It is what those bytes open at on their own, so
every chain of reads goes on from it as it does there. The outermost buffer may stand behind its
size. -/
theorem Nested.root_reached {outer inner : FinishedSession} {hops : List (UInt32 × Slot)}
    (nested : Nested outer hops inner) :
    ∃ first last, openFinished outer.sized outer.bytes = .ok first ∧
      first.descend hops = .ok (.ok (some last)) ∧ last.buffer = inner.bytes ∧
      last.position + inner.root.table.toNat = inner.bytes.length ∧
      openRoot inner.bytes = .ok last ∧
      ∀ reads : List Read,
        readOn (.table last) reads = readObject .table inner.bytes last.position reads := by
  obtain ⟨plain, first, last, firstOpened, lastOpened, reached⟩ := nested.descend
  obtain ⟨view, opened, whole, place, loaded⟩ := inner.opens
  rw [inner.payload_of_plain plain] at whole place loaded
  rw [plain] at opened
  obtain rfl := Except.ok.inj (opened.symm.trans lastOpened)
  refine ⟨first, view, firstOpened, reached, whole, place, opened, fun reads => ?_⟩
  rw [readObject, openObject, loaded]
  rfl

def finishing (builder : Builder) (ledger : Ledger) (calls : List Call) (wanted : Account → Bool)
    (sized : Bool) : Option Bytes := do
  let stages ← (builder.run calls).toOption
  let root ← (ledger.through builder calls stages).tables.find? wanted
  let after ← ((do Build.finish ⟨root.table⟩ none sized; Build.state : Build Builder)
    (builder.lastOf stages)).value?
  after.finishedBytes.toOption

theorem FinishedSession.of_finishing {builder : Builder} {ledger : Ledger} {calls : List Call}
    {wanted : Account → Bool} {sized : Bool} {bytes : Bytes} (accounted : builder.Accounted ledger)
    (kept : ∀ call ∈ calls, call ≠ .clear)
    (finished : finishing builder ledger calls wanted sized = some bytes) :
    ∃ session : FinishedSession, session.bytes = bytes ∧ session.sized = sized ∧
      wanted session.root = true ∧ builder.Follows session.builder := by
  obtain ⟨stages, ran, finished⟩ := Option.bind_eq_some_iff.mp finished
  obtain ⟨root, found, finished⟩ := Option.bind_eq_some_iff.mp finished
  obtain ⟨_, value, ended⟩ := Option.bind_eq_some_iff.mp finished
  obtain ⟨after, ending⟩ := Outcome.done_of_value? value
  rcases Build.done_bind.mp ending with ⟨_, _, finished, same⟩
  cases same
  have made := ok_of_toOption ran
  exact ⟨⟨_, _, root, none, sized, _, bytes, accounted.of_run made,
      List.mem_of_find?_eq_some found, finished, ok_of_toOption ended⟩, rfl, rfl,
    List.find?_some found,
    calls, stages, kept, made, builder.lastOf_mem stages⟩

def Account.refers (account : Account) (table : UInt32) (slot : Slot) (vector : UInt32) : Bool :=
  account.table == table && match held account.entries slot with
    | some (.reference target) => target == vector
    | _ => false

def holding (builder : Builder) (call : Call) (calls : List Call) (table : UInt32) (slot : Slot)
    (vector : UInt32) (sized : Bool) : Option (Option UInt32 × Option Bytes) :=
  ((fun stage : Answer × Builder =>
    (match stage.1 with
      | .ok (.object written) => some written
      | _ => none,
      finishing stage.2 .empty calls (·.refers table slot vector) sized)) <$> call.step builder).toOption

theorem FinishedSession.of_holding {before builder : Builder} {call : Call} {calls : List Call}
    {table vector : UInt32} {slot : Slot} {sized : Bool} {bytes whole : Bytes}
    (reachable : before.Reachable)
    (writes : ∀ after, call.step builder = .ok (.ok (.object vector), after) →
      WritesBytes bytes before vector after ∧ after.Accounted .empty)
    (kept : ∀ call ∈ calls, call ≠ .clear)
    (held : holding builder call calls table slot vector sized = some (some vector, some whole)) :
    ∃ session : FinishedSession, session.bytes = whole ∧ session.sized = sized ∧
      session.root.table = table ∧ session.Holds table slot bytes := by
  obtain ⟨⟨answer, after⟩, stepped, shown⟩ := read_map.mp (ok_of_toOption held)
  simp only [Prod.mk.injEq] at shown
  rcases shown with ⟨answered, finished⟩
  split at answered
  case h_2 => cases answered
  case h_1 written same =>
    obtain rfl := Option.some.inj answered
    obtain ⟨wrote, accounted⟩ := writes after stepped
    obtain ⟨session, ended, framed, wanted, follows⟩ := of_finishing accounted kept finished
    rw [Account.refers, Bool.and_eq_true, beq_iff_eq] at wanted
    rcases wanted with ⟨here, refers⟩
    split at refers
    case h_2 => cases refers
    case h_1 target reference =>
      rw [beq_iff_eq] at refers
      rw [refers] at reference
      exact ⟨session, ended, framed, here, ⟨before, _, after, reachable, wrote, follows, session.root,
        session.closed, here, reference⟩⟩

theorem root_reached_of_three :
    let inner : Bytes := [8, 0, 0, 0, 4, 0, 4, 0, 4, 0, 0, 0]
    let middle : Bytes :=
      [12, 0, 0, 0, 0, 0, 6, 0, 8, 0, 4, 0, 6, 0, 0, 0, 4, 0, 0, 0, 12, 0, 0, 0] ++ inner
    let outer : Bytes := [68, 0, 0, 0, 16, 0, 0, 0, 0, 0, 0, 0, 8, 0, 8, 0, 0, 0, 4, 0, 8, 0, 0, 0,
      4, 0, 0, 0, 36, 0, 0, 0] ++ (middle ++ [0, 0, 0, 0])
    ∃ first last, openSizedRoot outer = .ok first ∧
      first.descend [(52, 6), (24, 4)] = .ok (.ok (some last)) ∧ last.buffer = inner ∧
        openRoot inner = .ok last := by
  intro inner middle outer
  let new : Builder := .ofOptions ⟨0, false⟩
  have reachable : new.Reachable := .new _ (by decide)
  have fresh : new.Accounted .empty := .new _ (by decide)
  have alone : finishing new .empty [.openTable 0, .closeTable] (fun _ => true) false =
      some inner := by
    decide +kernel
  obtain ⟨innermost, innerBytes, innerPlain, -, -⟩ := FinishedSession.of_finishing fresh (by simp) alone
  have around : holding new (.writeBytes inner) [.openTable 1,
      .storeReference 4 (⟨16⟩ : Offset (.vector (.scalar .uint8))), .closeTable] 24 4 16
        false = some (some 16, some middle) := by decide +kernel
  obtain ⟨between, middleBytes, middlePlain, -, holdsInner⟩ := FinishedSession.of_holding reachable
    (fun after stepped => ⟨.bytes stepped, .step _ fresh stepped⟩) (by simp) around
  have outermost : ((fun opened : Answer × Builder => (opened.1.isOk,
      holding opened.2 .closeVector [.openTable 2,
        .storeReference 6 (⟨44⟩ : Offset (.vector (.scalar .uint8))), .closeTable] 52 6 44
        true)) <$>
      (Call.openFilledVector 1 middle.length 8 middle).step new).toOption =
        some (true, some (some 44, some outer)) := by decide +kernel
  obtain ⟨⟨answer, opened⟩, filling, shown⟩ := read_map.mp (ok_of_toOption outermost)
  simp only [Prod.mk.injEq] at shown
  rcases shown with ⟨through, whole⟩
  cases answer with
  | error error => cases through
  | ok reply =>
      obtain ⟨around, outerBytes, outerSized, -, holdsMiddle⟩ := FinishedSession.of_holding reachable
        (fun after stepped => ⟨.filled 8 reply opened filling stepped,
          .step _ (.step _ fresh filling) stepped⟩) (by simp) whole
      rw [← innerBytes] at holdsInner
      rw [← middleBytes] at holdsMiddle
      have nested : Nested around [(52, 6), (24, 4)] innermost :=
        .inside middlePlain holdsMiddle (.inside innerPlain holdsInner (.here innermost innerPlain))
      obtain ⟨first, last, opens, reached, copied, -, alone, -⟩ := nested.root_reached
      rw [outerBytes, outerSized] at opens
      rw [innerBytes] at copied alone
      exact ⟨first, last, opens, reached, copied, alone⟩

end WireTables
