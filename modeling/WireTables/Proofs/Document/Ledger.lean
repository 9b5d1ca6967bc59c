import WireTables.Proofs.Builder.VTables
import WireTables.Proofs.Document.Entry

/-!
A ledger of what was stored. It follows the calls of a builder, refused ones included, and notes
under each table that was closed what was added to it and whether defaults were forced then. The
tables stand in what was written as the ledger says.
-/

namespace WireTables

open Build

structure Spares (before after : Builder) : Prop where
  forceDefaults : after.forceDefaults = before.forceDefaults
  openObject : after.openObject = before.openObject ∨
    ∀ start fields, after.openObject ≠ .table start fields

namespace Spares

variable {before middle after : Builder}

theorem refl (builder : Builder) : Spares builder builder := ⟨rfl, .inl rfl⟩

theorem trans (early : Spares before middle) (late : Spares middle after) :
    Spares before after := by
  refine ⟨late.forceDefaults.trans early.forceDefaults, ?_⟩
  rcases late.openObject with same | none
  · rcases early.openObject with earlier | none
    · exact .inl (same.trans earlier)
    · rw [same]
      exact .inr none
  · exact .inr none

theorem of_pushes (pushes : Pushes before after) :
    Spares before after := by
  rcases pushes with ⟨front, pushed⟩
  exact ⟨pushed.forceDefaults, .inl pushed.openObject⟩

theorem allows : AllowsWriting Spares where
  refl := refl
  trans := trans
  pushed := of_pushes
  vectorOpened _ _ _ := ⟨rfl, .inr nofun⟩
  vectorClosed _ := ⟨rfl, .inr nofun⟩
  shared _ _ := ⟨rfl, .inl rfl⟩
  finished _ _ := ⟨rfl, .inl rfl⟩

theorem of_record {write : Build Unit} {index : Nat} {error : Refusal}
    (pushes : Moves Pushes write before)
    (ran : (write >>= fun _ => recordField index) before = .refused error after) :
    Spares before after := by
  rcases refused_bind.mp ran with refused | ⟨_, written, -, recorded⟩
  · exact of_pushes (pushes.of_refused refused)
  · cases recorded

theorem of_openField {slot : Slot} {next : Nat → Build Unit} {error : Refusal}
    (each : ∀ index, next index before = .refused error after → Spares before after)
    (ran : (openField slot >>= next) before = .refused error after) : Spares before after := by
  rcases refused_bind.mp ran with refused | ⟨index, middle, found, rest⟩
  · rw [(still_openField slot before).of_refused refused]
    exact refl after
  · rw [← (still_openField slot before).of_done found] at rest
    exact each index rest

theorem of_replying {α : Type} {step : Build α} {reply : α → Reply} {error : Refusal}
    (each : step before = .refused error after → Spares before after)
    (ran : replying reply step before = .refused error after) : Spares before after := by
  rcases refused_bind.mp ran with refused | ⟨_, _, _, ended⟩
  · exact each refused
  · cases ended

theorem of_refused {call : Call} {error : Refusal} (ran : call.run before = .refused error after) :
    Spares before after := by
  cases call with
  | clear => cases ran
  | forceDefaults force => cases ran
  | openTable count =>
      refine of_replying (fun refused => ?_) ran
      rcases refused_bind.mp refused with refused | ⟨_, _, _, opened⟩
      · exact (allows.of_still (still_requireNothingOpen before)).of_refused refused
      · cases opened
  | closeTable => exact of_replying (fun refused =>
      of_pushes (closeTable_refused refused)) ran
  | storeScalar slot type value default =>
      refine of_replying (of_openField fun index refused => ?_) ran
      rw [state_bind] at refused
      split at refused
      case isTrue => cases refused
      case isFalse => exact of_record (moves_addScalar type value before) refused
  | storeOptional slot type value =>
      refine of_replying (of_openField fun index refused => ?_) ran
      cases value with
      | none => cases refused
      | some value => exact of_record (moves_addScalar type value before) refused
  | storeReference slot target =>
      exact of_replying (of_openField fun index => of_record (moves_addReference target before)) ran
  | storeStruct slot target =>
      refine of_replying (of_openField fun index refused => ?_) ran
      rw [head_bind] at refused
      split at refused
      case isTrue =>
        cases refused
        exact refl before
      case isFalse => cases refused
  | _ => exact (Call.moves_of_onlyWrites allows rfl before).of_refused ran

end Spares

/-- What the call adds to the table that is open, and to which slot. -/
def Call.content? : Call → Option (Slot × Content)
  | storeScalar slot type value default => some (slot, .scalar type value default)
  | storeOptional slot type value => some (slot, .optional type value)
  | storeReference slot target => some (slot, .reference target.value)
  | storeStruct slot target => some (slot, .struct target.value)
  | _ => none

section Storing

variable {before after : Builder}

inductive Stores (before after : Builder) (slot : Slot) (content : Content) : Prop
  | omitted (start : UInt32) (fields unchanged : List UInt32)
      (opened : before.openObject = .table start fields)
      (stillOpen : after.openObject = .table start unchanged)
      (forceDefaults : after.forceDefaults = before.forceDefaults)
      (left : content.stored before.forceDefaults = false)
      (same : ∀ index, unchanged.getD index 0 = fields.getD index 0)
  | kept (start : UInt32) (fields : List UInt32) (index : Nat) (location : UInt32)
      (opened : before.openObject = .table start fields)
      (stillOpen : after.openObject = .table start (fields.set index location))
      (forceDefaults : after.forceDefaults = before.forceDefaults)
      (stored : content.stored before.forceDefaults = true)
      (place : indexOfSlot slot = some index) (inside : index < fields.length)
      (present : location ≠ 0) (lies : content.LiesAt after.storage.written location)
      (headed : location = after.head)
      (wide : before.storage.size + content.width ≤ after.storage.size)

theorem Stores.of_takes {content : Content} {inline : Inline} {slot : Slot} {start : UInt32}
    {fields : List UInt32} {index : Nat} {location : UInt32}
    (opened : before.openObject = .table start fields) (place : indexOfSlot slot = some index)
    (inside : index < fields.length) (stored : content.stored before.forceDefaults = true)
    (lies : content.LiesAt after.storage.written location) (wide : content.width = inline.width)
    (takes : Takes before after inline start fields index location) :
    Stores before after slot content := by
  refine .kept start fields index location opened takes.opened takes.forceDefaults stored place
    inside takes.present lies ?_ ?_
  · rw [Builder.head, ← takes.place, UInt32.ofNat_toNat]
  · rw [takes.size, Inline.reach, wide]
    omega

theorem getD_set_of_empty {start : UInt32} {fields : List UInt32} {index : Nat}
    (ordered : before.Ordered) (opened : before.openObject = .table start fields)
    (inside : index < fields.length) (empty : before.head = 0) (other : Nat) :
    (fields.set index 0).getD other 0 = fields.getD other 0 := by
  by_cases here : other = index
  · have size : before.storage.size = 0 := by
      rw [← ordered.toNat_head, empty]
      rfl
    have reached := (ordered.opened start fields opened).2 fields[index] (List.getElem_mem inside)
    rw [size] at reached
    have blank : fields[index] = 0 := UInt32.toNat_inj.mp (Nat.le_zero.mp reached)
    rw [here, List.getD_eq_getElem?_getD, List.getElem?_set_self inside,
      List.getD_eq_getElem?_getD, List.getElem?_eq_getElem inside, blank]
  · exact Filled.getD_set 0 here

theorem stores_of_storeStruct {kind : Kind} {slot : Slot} {target : Offset kind}
    (ordered : before.Ordered) (ran : storeStruct slot target before = .done () after) :
    Stores before after slot (.struct target.value) := by
  rcases done_bind.mp ran with ⟨index, same, found, rest⟩
  obtain ⟨rfl, start, fields, opened, place, inside⟩ := openField_done found
  rw [head_bind] at rest
  split at rest
  case isTrue => cases rest
  case isFalse met =>
    have headed : target.value = same.head := Decidable.not_not.mp met
    rw [recordField_apply index opened] at rest
    cases rest
    by_cases nowhere : target.value = 0
    · have empty : same.head = 0 := headed ▸ nowhere
      refine .omitted start fields (fields.set index same.head) opened rfl rfl
        (bne_eq_false_iff_eq.mpr nowhere) ?_
      rw [empty]
      exact getD_set_of_empty ordered opened inside empty
    · refine .kept start fields index same.head opened rfl rfl (bne_iff_ne.mpr nowhere) place inside
        (headed ▸ nowhere) ⟨headed.symm, ?_⟩ rfl (Nat.le_refl _)
      rw [ordered.toNat_head, same.storage.size_eq]

theorem stores_of_done {call : Call} {reply : Reply} {slot : Slot} {content : Content}
    (ordered : before.Ordered) (small : after.storage.size ≤ maxBufferSize)
    (adds : call.content? = some (slot, content))
    (ran : call.run before = .done reply after) : Stores before after slot content := by
  cases call with
  | storeScalar slot type value default =>
      cases adds
      rcases done_bind.mp ran with ⟨_, last, ran, ended⟩
      cases ended
      rcases done_bind.mp ran with ⟨index, same, found, rest⟩
      obtain ⟨rfl, start, fields, opened, place, inside⟩ := openField_done found
      rw [state_bind] at rest
      split at rest
      case isTrue omitted =>
        cases rest
        refine .omitted start fields fields opened opened rfl ?_ fun _ => rfl
        rw [Bool.and_eq_true, Bool.not_eq_true'] at omitted
        rw [Content.stored, omitted.1, omitted.2]
        rfl
      case isFalse kept =>
        obtain ⟨location, stands, takes⟩ := storeScalar_done small opened rest
        refine .of_takes opened place inside ?_ stands rfl takes
        rw [Bool.and_eq_true, not_and_or, Bool.not_eq_true', Bool.not_eq_false, Bool.not_eq_true,
          or_comm] at kept
        rw [Content.stored, Bool.or_eq_true, Bool.not_eq_true']
        exact kept
  | storeOptional slot type value =>
      cases adds
      rcases done_bind.mp ran with ⟨_, last, ran, ended⟩
      cases ended
      rcases done_bind.mp ran with ⟨index, same, found, rest⟩
      obtain ⟨rfl, start, fields, opened, place, inside⟩ := openField_done found
      cases value with
      | none =>
          cases rest
          exact .omitted start fields fields opened opened rfl rfl fun _ => rfl
      | some value =>
          obtain ⟨location, stands, takes⟩ := storeScalar_done small opened rest
          exact .of_takes opened place inside rfl ⟨value, rfl, stands⟩ rfl takes
  | storeReference slot target =>
      cases adds
      rcases done_bind.mp ran with ⟨_, last, ran, ended⟩
      cases ended
      rcases done_bind.mp ran with ⟨index, same, found, rest⟩
      obtain ⟨rfl, start, fields, opened, place, inside⟩ := openField_done found
      obtain ⟨location, refers, takes⟩ := storeReference_done small opened rest
      exact .of_takes opened place inside rfl refers rfl takes
  | storeStruct slot target =>
      cases adds
      rcases done_bind.mp ran with ⟨_, last, ran, ended⟩
      cases ended
      exact stores_of_storeStruct ordered ran
  | _ => cases adds

theorem object_of_closeTable {reply : Reply}
    (stepped : Call.closeTable.step before = .ok (.ok reply, after)) :
    ∃ table, reply = .object table := by
  rcases done_bind.mp (Call.done_of_step stepped) with ⟨table, _, _, ended⟩
  cases ended
  exact ⟨table.value, rfl⟩

end Storing

/-- A table that was closed, with what was added to it, the latest first. -/
structure Account where
  table : UInt32
  entries : List Entry
  deriving DecidableEq

/-- `pending` is what was added to the table that is open. -/
structure Ledger where
  pending : List Entry
  tables : List Account

namespace Ledger

def empty : Ledger := ⟨[], []⟩

def after (ledger : Ledger) (builder : Builder) : Call → Answer → Ledger
  | .clear, _ => empty
  | .openTable _, .ok _ => ⟨[], ledger.tables⟩
  | .closeTable, .ok (.object table) => ⟨[], ⟨table, ledger.pending⟩ :: ledger.tables⟩
  | call, .ok _ =>
      match call.content? with
      | some (slot, content) =>
          ⟨⟨slot, content, builder.forceDefaults⟩ :: ledger.pending, ledger.tables⟩
      | none => ledger
  | _, .error _ => ledger

end Ledger

inductive Books (before after : Builder) : Call → Answer → Prop
  | cleared (answer : Answer) (same : after = before.clear) : Books before after .clear answer
  | forced (force : Bool) (reply : Reply) (same : after = { before with forceDefaults := force }) :
      Books before after (.forceDefaults force) (.ok reply)
  | opened (count : Nat) (reply : Reply)
      (same : after = { before with
        openObject := .table before.head (List.replicate count 0) }) :
      Books before after (.openTable count) (.ok reply)
  | stored {call : Call} (reply : Reply) {slot : Slot} {content : Content}
      (adds : call.content? = some (slot, content)) (stores : Stores before after slot content) :
      Books before after call (.ok reply)
  | closed {start table vtable : UInt32} {fields : List UInt32}
      (closed : Closed before after start fields table vtable) :
      Books before after .closeTable (.ok (.object table))
  | spared {call : Call} {answer : Answer}
      (unchanged : ∀ ledger : Ledger, ledger.after before call answer = ledger)
      (spares : Spares before after) : Books before after call answer

theorem Ledger.after_of_content {ledger : Ledger} {builder : Builder} {call : Call} {slot : Slot}
    {content : Content} (reply : Reply) (adds : call.content? = some (slot, content)) :
    ledger.after builder call (.ok reply) =
      ⟨⟨slot, content, builder.forceDefaults⟩ :: ledger.pending, ledger.tables⟩ := by
  cases call <;> cases adds <;> rfl

theorem Books.of_step {before after : Builder} {call : Call} {answer : Answer}
    (ordered : before.Ordered) (small : after.storage.size ≤ maxBufferSize)
    (stepped : call.step before = .ok (answer, after)) : Books before after call answer := by
  rcases Call.step_ok stepped with ⟨reply, rfl, ran⟩ | ⟨error, rfl, ran⟩
  · cases call with
    | clear => exact .cleared _ (Call.clear_of_step stepped)
    | forceDefaults force =>
        cases ran
        exact .forced force _ rfl
    | openTable count =>
        rcases done_bind.mp ran with ⟨_, opened, openRan, ended⟩
        cases ended
        exact .opened count _ (openTable_done openRan).2
    | closeTable =>
        rcases done_bind.mp ran with ⟨table, last, closeRan, ended⟩
        cases ended
        obtain ⟨start, fields, vtable, closed⟩ :=
          closeTable_done ordered closeRan
        exact .closed closed
    | storeScalar | storeOptional | storeReference | storeStruct =>
        exact .stored reply rfl (stores_of_done ordered small rfl ran)
    | _ =>
        exact .spared (fun _ => rfl)
          ((Call.moves_of_onlyWrites Spares.allows rfl before).of_done ran)
  · cases call with
    | clear => exact .cleared _ (Call.clear_of_step stepped)
    | _ => exact .spared (fun _ => rfl) (Spares.of_refused ran)

theorem Books.forceDefaults {before after : Builder} {call : Call} {answer : Answer}
    (books : Books before after call answer) (unforced : ∀ force, call ≠ .forceDefaults force) :
    after.forceDefaults = before.forceDefaults := by
  cases books with
  | cleared answer same => rw [same, Builder.clear]
  | forced force reply same => exact absurd rfl (unforced force)
  | opened count reply same => rw [same]
  | stored reply adds stores =>
      cases stores with
      | omitted => assumption
      | kept => assumption
  | closed closed => exact closed.forceDefaults
  | spared unchanged spares => exact spares.forceDefaults

/-- The table stands in the bytes, and its vtable leads each slot to what it holds. -/
def Account.StandsIn (account : Account) (bytes : Bytes) : Prop :=
  ∃ start vtable fields, TableStands bytes start account.table vtable fields ∧
    (∀ location ∈ fields, location.toNat < account.table.toNat) ∧
      Filed bytes fields account.entries

theorem Account.StandsIn.indexed {account : Account} {bytes : Bytes} {slot : Slot}
    {content : Content} (stands : account.StandsIn bytes)
    (holds : held account.entries slot = some content) :
    ∃ index, indexOfSlot slot = some index := by
  rcases stands with ⟨start, vtable, fields, -, -, filed⟩
  have placed := filed slot
  rw [holds] at placed
  exact indexOfSlot_of_placeOf placed.1

theorem Account.StandsIn.of_suffix {account : Account} {bytes whole : Bytes}
    (suffix : bytes <:+ whole) (small : whole.length ≤ maxBufferSize)
    (stands : account.StandsIn bytes) : account.StandsIn whole := by
  rcases stands with ⟨start, vtable, fields, table, below, filed⟩
  exact ⟨start, vtable, fields, table.of_suffix suffix small, below, filed.of_suffix suffix⟩

structure Ledger.Agrees (ledger : Ledger) (builder : Builder) : Prop where
  sound : builder.Sound
  pending : ∀ start fields, builder.openObject = .table start fields →
    Filed builder.storage.written fields ledger.pending
  tables : ∀ account ∈ ledger.tables, account.StandsIn builder.storage.written

namespace Ledger.Agrees

variable {ledger : Ledger} {before after : Builder}

theorem nothing {builder : Builder} (sound : builder.Sound)
    (closed : builder.openObject = .nothing) : Ledger.empty.Agrees builder where
  sound := sound
  pending start fields opened := by
    rw [closed] at opened
    cases opened
  tables account member := absurd member List.not_mem_nil

theorem of_changes {entries : List Entry} (agrees : ledger.Agrees before)
    (changes : Changes before after)
    (pending : ∀ start fields, after.openObject = .table start fields →
      Filed after.storage.written fields entries) :
    Ledger.Agrees ⟨entries, ledger.tables⟩ after where
  sound := Builder.sound_of_changes agrees.sound changes
  pending := pending
  tables account known := by
    have small := Builder.size_le (Builder.sound_of_changes agrees.sound changes).fits
    rw [after.storage.size_eq] at small
    exact (agrees.tables account known).of_suffix (Builder.suffix_of_changes changes) small

theorem of_spares (agrees : ledger.Agrees before) (changes : Changes before after)
    (spares : after.openObject = before.openObject ∨
      ∀ start fields, after.openObject ≠ .table start fields) : ledger.Agrees after := by
  apply agrees.of_changes changes
  intro start fields opened
  rcases spares with same | none
  · exact (agrees.pending start fields (same ▸ opened)).of_suffix
      (Builder.suffix_of_changes changes)
  · exact absurd opened (none start fields)

theorem of_stores {slot : Slot} {content : Content} (agrees : ledger.Agrees before)
    (changes : Changes before after) (stores : Stores before after slot content) :
    Ledger.Agrees ⟨⟨slot, content, before.forceDefaults⟩ :: ledger.pending, ledger.tables⟩
      after := by
  have suffix := Builder.suffix_of_changes changes
  apply agrees.of_changes changes
  intro start fields opened
  cases stores with
  | omitted start earlier unchanged wasOpen stillOpen _ left same =>
      rw [stillOpen] at opened
      cases opened
      exact ((agrees.pending _ _ wasOpen).of_suffix suffix).skip left same
  | kept start earlier index location wasOpen stillOpen _ stored place inside present lies =>
      rw [stillOpen] at opened
      cases opened
      exact ((agrees.pending _ _ wasOpen).of_suffix suffix).store place inside stored present lies

theorem of_closed {start table vtable : UInt32} {fields : List UInt32}
    (agrees : ledger.Agrees before) (closed : Closed before after start fields table vtable) :
    Ledger.Agrees ⟨[], ⟨table, ledger.pending⟩ :: ledger.tables⟩ after := by
  have changes : Changes before after := .single (.tableClosed closed trivial)
  have others : Ledger.Agrees ⟨[], ledger.tables⟩ after := by
    apply agrees.of_changes changes
    intro start fields opened
    rw [closed.openObject] at opened
    cases opened
  refine ⟨others.sound, others.pending, List.forall_mem_cons.mpr ⟨?_, others.tables⟩⟩
  refine ⟨start, vtable, fields, closed.stands others.sound.ordered.small, fun location member => ?_,
    (agrees.pending start fields closed.opened).of_suffix closed.suffix⟩
  have reached := (agrees.sound.opened start fields closed.opened).2 location member
  have width : 0 < referenceWidth := by decide
  rw [closed.place]
  omega

theorem step {call : Call} {answer : Answer} (agrees : ledger.Agrees before)
    (stepped : call.step before = .ok (answer, after)) :
    (ledger.after before call answer).Agrees after := by
  have books := Books.of_step agrees.sound.ordered
    (Builder.sound_of_step agrees.sound stepped).ordered.small stepped
  by_cases cleared : call = .clear
  · subst cleared
    rw [Call.clear_of_step stepped]
    exact .nothing (Builder.sound_clear agrees.sound) rfl
  have changes := Call.changes_of_step cleared agrees.sound stepped
  cases books with
  | cleared => exact absurd rfl cleared
  | forced force reply same => exact agrees.of_spares changes (.inl (same ▸ rfl))
  | opened count reply same =>
      apply agrees.of_changes changes
      intro start fields opened
      rw [same] at opened
      cases opened
      exact Filed.start count
  | stored reply adds stores =>
      rw [Ledger.after_of_content reply adds]
      exact agrees.of_stores changes stores
  | closed closed => exact agrees.of_closed closed
  | spared unchanged spares =>
      rw [unchanged]
      exact agrees.of_spares changes spares.openObject

end Ledger.Agrees

/-- The builders that calls can lead to, with the ledger of what was stored since the last `clear`.
-/
inductive Builder.Accounted : Builder → Ledger → Prop
  | new (options : BuilderOptions) (fits : options.initialCapacity ≤ maxBufferSize) :
      Accounted (.ofOptions options) .empty
  | step {builder after : Builder} {ledger : Ledger} {answer : Answer} (call : Call)
      (before : Accounted builder ledger) (stepped : call.step builder = .ok (answer, after)) :
      Accounted after (ledger.after builder call answer)

namespace Builder

variable {builder : Builder} {ledger : Ledger}

theorem Accounted.agrees (accounted : builder.Accounted ledger) : ledger.Agrees builder := by
  induction accounted with
  | new options fits => exact .nothing (sound_ofOptions fits) rfl
  | step call _ stepped ih => exact ih.step stepped

theorem Accounted.reachable (accounted : builder.Accounted ledger) : builder.Reachable := by
  induction accounted with
  | new options fits => exact .new options fits
  | step call _ stepped ih => exact .step call ih stepped

end Builder

def Ledger.through (ledger : Ledger) (builder : Builder) :
    List Call → List (Answer × Builder) → Ledger
  | call :: calls, (answer, after) :: stages =>
      (ledger.after builder call answer).through after calls stages
  | _, _ => ledger

theorem Ledger.through_append {ledger : Ledger} {builder : Builder} {early late : List Call}
    {first last : List (Answer × Builder)} (ran : builder.run early = .ok first) :
    ledger.through builder (early ++ late) (first ++ last) =
      (ledger.through builder early first).through (builder.lastOf first) late last := by
  induction early generalizing ledger builder first with
  | nil =>
      cases ran
      rfl
  | cons call early ih =>
      rcases Builder.run_cons.mp ran with ⟨answer, after, later, -, ranLater, rfl⟩
      exact ih ranLater

theorem Builder.Accounted.of_run {calls : List Call} {builder : Builder} {ledger : Ledger}
    {stages : List (Answer × Builder)} (accounted : builder.Accounted ledger)
    (ran : builder.run calls = .ok stages) :
    (builder.lastOf stages).Accounted (ledger.through builder calls stages) := by
  induction calls generalizing builder ledger stages with
  | nil =>
      cases ran
      exact accounted
  | cons call calls ih =>
      rcases run_cons.mp ran with ⟨answer, after, later, stepped, ranLater, rfl⟩
      exact ih (accounted.step call stepped) ranLater

end WireTables
