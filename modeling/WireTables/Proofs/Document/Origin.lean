import WireTables.Proofs.Builder.Turns
import WireTables.Proofs.Document.Ledger

namespace WireTables

def Ledger.over (ledger : Ledger) : List Turn → Ledger
  | [] => ledger
  | turn :: earlier => (ledger.over earlier).after turn.before turn.call turn.answer

theorem Ledger.over_turns (ledger : Ledger) (list : List Turn) (builder : Builder)
    (calls : List Call) (stages : List (Answer × Builder)) :
    ledger.over ((builder.turns calls stages).reverse ++ list) =
      (ledger.over list).through builder calls stages := by
  induction calls generalizing list builder stages with
  | nil => rfl
  | cons call calls ih =>
      cases stages with
      | nil => rfl
      | cons stage stages =>
          rw [Builder.turns, List.reverse_cons, List.append_assoc, Ledger.through]
          exact ih _ _ _

structure Turn.Stored (turn : Turn) (slot : Slot) (content : Content) (location : UInt32) :
    Prop where
  call : turn.call.content? = some (slot, content)
  opened : ∃ start fields, turn.before.openObject = .table start fields
  place : location.toNat = turn.after.storage.size
  wide : turn.before.storage.size + content.width ≤ turn.after.storage.size
  present : location ≠ 0
  lies : content.LiesAt turn.after.storage.written location

/-- What the slot holds was stored in one of the turns, once the table was started. -/
def Traced (turns : List Turn) (start : UInt32) (slot : Slot) (location : UInt32) :
    Option Content → Prop
  | none => location = 0
  | some content => ∃ turn ∈ turns, start.toNat ≤ turn.before.storage.size ∧
      turn.Stored slot content location

theorem Traced.later {turns : List Turn} {start location : UInt32} {slot : Slot}
    {content : Option Content} (traced : Traced turns start slot location content) (turn : Turn) :
    Traced (turn :: turns) start slot location content := by
  cases content with
  | none => exact traced
  | some content =>
      rcases traced with ⟨origin, member, started, stored⟩
      exact ⟨origin, List.mem_cons_of_mem _ member, started, stored⟩

section Tracing

variable {before after : Builder} {call : Call} {answer : Answer} {earlier : List Turn}
  {entries : List Entry}

theorem traced_of_stores {slot : Slot} {content : Content} (ordered : before.Ordered)
    (small : after.storage.size ≤ maxBufferSize) (adds : call.content? = some (slot, content))
    (stores : Stores before after slot content)
    (known : ∀ start fields, before.openObject = .table start fields →
      ∀ slot, Traced earlier start slot (placeOf fields slot) (held entries slot)) :
    ∀ start fields, after.openObject = .table start fields → ∀ other,
      Traced (⟨before, call, answer, after⟩ :: earlier) start other (placeOf fields other)
        (held (⟨slot, content, before.forceDefaults⟩ :: entries) other) := by
  intro start fields opened other
  cases stores with
  | omitted start already unchanged wasOpen stillOpen _ left same =>
      rw [stillOpen] at opened
      cases opened
      have passed : held (⟨slot, content, before.forceDefaults⟩ :: entries) other =
          held entries other := held_of_passed (.inr left)
      rw [passed, placeOf_congr same]
      exact (known _ _ wasOpen other).later _
  | kept start already index location wasOpen stillOpen _ stored place inside present lies headed
      wide =>
      rw [stillOpen] at opened
      cases opened
      -- the turn accounts for its own slot; the others go back to earlier turns
      by_cases same : slot = other
      · subst same
        have latest : held (⟨slot, content, before.forceDefaults⟩ :: entries) slot = some content :=
          held_of_stored rfl stored
        rw [latest, placeOf_set location place inside]
        exact ⟨_, List.mem_cons_self, (ordered.opened _ _ wasOpen).1,
          adds, ⟨_, _, wasOpen⟩, headed ▸ toNat_ofNat_of_size small, wide, present, lies⟩
      · have passed : held (⟨slot, content, before.forceDefaults⟩ :: entries) other =
            held entries other := held_of_passed (.inl same)
        rw [passed, placeOf_set_of_ne location place same]
        exact (known _ _ wasOpen other).later _

theorem Turns.traced {first last : Builder} {list : List Turn} (turns : Turns first list last)
    (ordered : first.Ordered) (closed : first.openObject = .nothing) :
    ∀ start fields, last.openObject = .table start fields → ∀ slot,
      Traced list start slot (placeOf fields slot) (held (Ledger.empty.over list).pending slot) := by
  induction turns with
  | nothing =>
      intro start fields opened
      rw [closed] at opened
      cases opened
  | made early kept stepped small ih =>
      rename_i earlier before after call answer
      have books := Books.of_step (early.ordered ordered) small stepped
      rw [Ledger.over]
      cases books with
      | cleared => exact absurd rfl kept
      | forced force reply same =>
          intro start fields opened slot
          rw [same] at opened
          exact (ih start fields opened slot).later _
      | opened count reply same =>
          intro start fields opened slot
          rw [same] at opened
          cases opened
          exact placeOf_replicate count slot
      | stored reply adds stores =>
          rw [Ledger.after_of_content reply adds]
          exact traced_of_stores (early.ordered ordered) small adds stores ih
      | closed closed =>
          intro start fields opened
          rw [closed.openObject] at opened
          cases opened
      | spared unchanged spares =>
          intro start fields opened slot
          dsimp only
          rw [unchanged]
          rcases spares.openObject with same | none
          · exact (ih start fields (same ▸ opened) slot).later _
          · exact absurd opened (none start fields)

end Tracing

/-- A table that was closed in a session stands where it was handed back to be, until the builder is
cleared. -/
theorem Turns.closed_table {first last : Builder} {list : List Turn} {closing : Turn}
    {table : UInt32} (turns : Turns first list last) (ordered : first.Ordered)
    (member : closing ∈ list) (closes : closing.call = .closeTable)
    (answered : closing.answer = .ok (.object table)) :
    ∃ start fields vtable, Closed closing.before closing.after start fields table vtable ∧
      TableStands last.storage.written start table vtable fields := by
  have holds := turns.holds ordered member
  have stepped := holds.stepped
  rw [closes, answered] at stepped
  rcases Build.done_bind.mp (Call.done_of_step stepped) with ⟨offset, _, ran, ended⟩
  cases ended
  obtain ⟨start, fields, vtable, closed⟩ :=
    Build.closeTable_done holds.ordered ran
  have small := (turns.ordered ordered).small
  have grown := Builder.size_le_of_changes holds.late
  have suffix := Builder.suffix_of_changes holds.late
  exact ⟨start, fields, vtable, closed,
    (closed.stands (Nat.le_trans grown small)).of_suffix suffix (last.storage.size_eq ▸ small)⟩

end WireTables
