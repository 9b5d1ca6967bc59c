import Mathlib.Logic.Relation
import WireTables.Builder.Call
import WireTables.Proofs.Builder.Closing

/-!
The few ways in which a builder changes. Every call but `clear` is a chain of them, whether it goes
through or is refused halfway, so what each of them keeps is kept by all calls.
-/

namespace WireTables

/-- What holds of every builder that calls can lead to. -/
structure Builder.Sound (builder : Builder) : Prop where
  fits : builder.capacity ≤ maxBufferSize
  power : builder.alignment.isPowerOfTwo
  vtables : ∀ vtable ∈ builder.vtables, vtable.toNat ≤ builder.storage.size
  closed : builder.finished = true → builder.openObject = .nothing
  opened : ∀ start fields, builder.openObject = .table start fields →
    start.toNat ≤ builder.storage.size ∧ ∀ location ∈ fields, location.toNat ≤ builder.storage.size

theorem Builder.Sound.ordered {builder : Builder} (sound : builder.Sound) : builder.Ordered where
  small := Builder.size_le sound.fits
  vtables := sound.vtables
  opened := sound.opened

theorem Builder.Ordered.toNat_head {builder : Builder} (ordered : builder.Ordered) :
    builder.head.toNat = builder.storage.size :=
  toNat_ofNat_of_size ordered.small

/-- `closing` tells whether tables may be closed. -/
inductive Change (closing : Prop) : Builder → Builder → Prop
  | pushed {before after : Builder} (pushes : Pushes before after) :
      Change closing before after
  | tableOpened {builder : Builder} (count : Nat) (unfinished : builder.finished = false)
      (closed : builder.openObject = .nothing) :
      Change closing builder
        { builder with openObject := .table builder.head (List.replicate count 0) }
  | recorded {builder : Builder} {start : UInt32} {fields : List UInt32} (index : Nat)
      (opened : builder.openObject = .table start fields) (inside : index < fields.length) :
      Change closing builder
        { builder with openObject := .table start (fields.set index builder.head) }
  | tableClosed {before after : Builder} {start table vtable : UInt32} {fields : List UInt32}
      (closed : Closed before after start fields table vtable) (allowed : closing) :
      Change closing before after
  | vectorOpened {builder : Builder} (count : Nat) (unfinished : builder.finished = false)
      (closed : builder.openObject = .nothing) :
      Change closing builder { builder with openObject := .vector count }
  | vectorClosed {builder : Builder} {count : Nat} (opened : builder.openObject = .vector count) :
      Change closing builder { builder with openObject := .nothing }
  | shared {builder : Builder} (bytes : Bytes) (offset : Offset .string) :
      Change closing builder { builder with strings := (bytes, offset) :: builder.strings }
  | finished {builder : Builder} (unfinished : builder.finished = false)
      (closed : builder.openObject = .nothing) :
      Change closing builder { builder with finished := true }
  | forced {builder : Builder} (force : Bool) :
      Change closing builder { builder with forceDefaults := force }

abbrev ChangesBy (closing : Prop) : Builder → Builder → Prop :=
  Relation.ReflTransGen (Change closing)

abbrev Changes : Builder → Builder → Prop := ChangesBy True

theorem Change.loosen {closing : Prop} {before after : Builder}
    (change : Change closing before after) : Change True before after := by
  cases change with
  | pushed pushes => exact .pushed pushes
  | tableOpened count unfinished closed => exact .tableOpened count unfinished closed
  | recorded index opened inside => exact .recorded index opened inside
  | tableClosed closed => exact .tableClosed closed trivial
  | vectorOpened count unfinished closed => exact .vectorOpened count unfinished closed
  | vectorClosed opened => exact .vectorClosed opened
  | shared bytes offset => exact .shared bytes offset
  | finished unfinished closed => exact .finished unfinished closed
  | forced force => exact .forced force

theorem Change.pushes_or_closed {closing : Prop} {before after : Builder}
    (change : Change closing before after) :
    Pushes before after ∨
      (∃ start fields table vtable, Closed before after start fields table vtable ∧ closing) ∨
      (after.storage = before.storage ∧ after.alignment = before.alignment ∧
        after.vtables = before.vtables) := by
  cases change with
  | pushed pushes => exact .inl pushes
  | tableClosed closed allowed => exact .inr (.inl ⟨_, _, _, _, closed, allowed⟩)
  | tableOpened | recorded | vectorOpened | vectorClosed | shared | finished | forced =>
      exact .inr (.inr ⟨rfl, rfl, rfl⟩)

theorem ChangesBy.loosen {closing : Prop} {before after : Builder}
    (changes : ChangesBy closing before after) : Changes before after :=
  Relation.ReflTransGen.mono (fun _ _ => Change.loosen) _ _ changes

namespace Build

variable {α : Type} {step : Build α} {builder before after : Builder} {closing : Prop}

theorem changes_of_pushes (pushes : Moves Pushes step builder) :
    Moves (ChangesBy closing) step builder :=
  fun after left => .single (.pushed (pushes after left))

theorem still_requireUnfinished (builder : Builder) : Moves Eq requireUnfinished builder := by
  intro after left
  rw [requireUnfinished_apply] at left
  split at left <;> cases left <;> rfl

theorem still_requireNothingOpen (builder : Builder) : Moves Eq requireNothingOpen builder := by
  intro after left
  rw [requireNothingOpen_apply] at left
  split at left
  · cases left
    rfl
  · split at left <;> cases left <;> rfl

theorem still_requireWritten {kind : Kind} (offset : Offset kind) (builder : Builder) :
    Moves Eq (requireWritten offset) builder := by
  apply Moves.head_bind
  split
  · exact Moves.of_refuse rfl _
  · exact Moves.of_pure rfl _

theorem still_ofRead (read : Except Fault α) (builder : Builder) : Moves Eq (ofRead read) builder :=
  Moves.of_read rfl read

theorem still_requireField (table : Offset .table) (slot : Slot) (builder : Builder) :
    Moves Eq (requireField table slot) builder := by
  apply Moves.bind .trans (still_requireWritten table builder)
  intro _ second _
  apply Moves.state_bind
  apply Moves.bind .trans (still_ofRead _ second)
  intro view third _
  apply Moves.bind .trans (still_ofRead _ third)
  intro found last _
  split
  · exact Moves.of_pure rfl _
  · exact Moves.of_refuse rfl _

theorem openField_apply (slot : Slot) (builder : Builder) :
    openField slot builder =
      match builder.openObject with
      | .table _ fields =>
          match indexOfSlot slot with
          | some index =>
              if index < fields.length then .done index builder
              else .refused (.noSuchField slot fields.length) builder
          | none => .refused (.noSuchField slot fields.length) builder
      | _ => .refused .nothingOpen builder := by
  simp only [openField, state_bind]
  cases builder.openObject with
  | nothing => rfl
  | vector count => rfl
  | table start fields =>
      dsimp only
      cases indexOfSlot slot with
      | none => rfl
      | some index =>
          dsimp only
          split <;> rfl

theorem still_openField (slot : Slot) (builder : Builder) : Moves Eq (openField slot) builder := by
  intro after left
  rw [openField_apply] at left
  split at left
  · split at left
    · split at left <;> cases left <;> rfl
    · cases left
      rfl
  · cases left
    rfl

theorem openField_done {slot : Slot} {index : Nat} (ran : openField slot before = .done index after) :
    after = before ∧ ∃ start fields, before.openObject = .table start fields ∧
      indexOfSlot slot = some index ∧ index < fields.length := by
  rw [openField_apply] at ran
  split at ran
  case h_2 => cases ran
  case h_1 start fields opened =>
    split at ran
    case h_2 => cases ran
    case h_1 found place =>
      split at ran
      case isFalse => cases ran
      case isTrue inside =>
        cases ran
        exact ⟨rfl, start, fields, opened, place, inside⟩

theorem recordField_apply {start : UInt32} {fields : List UInt32} (index : Nat)
    (opened : builder.openObject = .table start fields) :
    recordField index builder =
      .done () { builder with openObject := .table start (fields.set index builder.head) } := by
  simp only [recordField]
  rw [update_apply, opened]

/-- A relation that holds of bytes that are written. -/
structure AllowsPushes (relation : Builder → Builder → Prop) : Prop where
  refl (builder : Builder) : relation builder builder
  trans {first second third : Builder} (early : relation first second)
    (late : relation second third) : relation first third
  pushed {before after : Builder} (pushes : Pushes before after) : relation before after

structure AllowsFields (relation : Builder → Builder → Prop) : Prop extends
    AllowsPushes relation where
  recorded {builder : Builder} {start : UInt32} {fields : List UInt32} (index : Nat)
    (opened : builder.openObject = .table start fields) (inside : index < fields.length) :
    relation builder
      { builder with openObject := .table start (fields.set index builder.head) }

/-- A relation that holds of bytes that are written, of vectors that are opened and closed, and of
finishing. -/
structure AllowsPlacing (relation : Builder → Builder → Prop) : Prop extends
    AllowsPushes relation where
  vectorOpened {builder : Builder} (count : Nat) (unfinished : builder.finished = false)
    (closed : builder.openObject = .nothing) :
    relation builder { builder with openObject := .vector count }
  vectorClosed {builder : Builder} {count : Nat} (opened : builder.openObject = .vector count) :
    relation builder { builder with openObject := .nothing }
  finished {builder : Builder} (unfinished : builder.finished = false)
    (closed : builder.openObject = .nothing) : relation builder { builder with finished := true }

structure AllowsWriting (relation : Builder → Builder → Prop) : Prop extends
    AllowsPlacing relation where
  shared {builder : Builder} (bytes : Bytes) (offset : Offset .string) :
    relation builder { builder with strings := (bytes, offset) :: builder.strings }

namespace AllowsPushes

variable {relation : Builder → Builder → Prop} (allows : AllowsPushes relation)
include allows

theorem of_still (still : Moves Eq step builder) : Moves relation step builder := by
  intro after left
  rw [still after left]
  exact allows.refl after

theorem of_pushes (pushes : Moves Pushes step builder) : Moves relation step builder :=
  fun after left => allows.pushed (pushes after left)

theorem of_bind {β : Type} {next : α → Build β} (first : Moves relation step builder)
    (second : ∀ value middle, step builder = .done value middle →
      Moves relation (next value) middle) :
    Moves relation (step >>= next) builder :=
  @Moves.bind _ _ _ _ _ relation allows.trans first second

theorem of_replying {reply : α → Reply} (moves : Moves relation step builder) :
    Moves relation (replying reply step) builder :=
  allows.of_bind moves fun _ last _ => Moves.of_pure (allows.refl last) _

end AllowsPushes

namespace AllowsFields

variable {relation : Builder → Builder → Prop} (allows : AllowsFields relation)
include allows

theorem of_openField_bind {slot : Slot} {next : Nat → Build Unit}
    (each : ∀ index, openField slot builder = .done index builder →
      Moves relation (next index) builder) :
    Moves relation (openField slot >>= next) builder := by
  apply allows.of_bind (allows.of_still (still_openField slot builder))
  intro index middle ran
  obtain rfl := (still_openField slot builder).of_done ran
  exact each index ran

theorem of_record {slot : Slot} {index : Nat} {write : Build Unit}
    (field : openField slot before = .done index builder)
    (pushes : Moves Pushes write builder) :
    Moves relation (write >>= fun _ => recordField index) builder := by
  obtain ⟨rfl, start, fields, opened, -, inside⟩ := openField_done field
  apply allows.of_bind (allows.of_pushes pushes)
  intro _ middle ran
  obtain ⟨front, pushed⟩ := pushes.of_done ran
  have stillOpen := pushed.openObject.trans opened
  intro after left
  rw [recordField_apply index stillOpen] at left
  cases left
  exact allows.recorded index stillOpen inside

theorem of_storeScalar (slot : Slot) (type : ScalarType) (value default : type.Value)
    (builder : Builder) : Moves relation (storeScalar slot type value default) builder := by
  apply allows.of_openField_bind
  intro index ran
  apply Moves.state_bind
  split
  case isTrue => exact Moves.of_pure (allows.refl builder) _
  case isFalse => exact allows.of_record ran (moves_addScalar type value builder)

theorem of_storeOptional (slot : Slot) (type : ScalarType) (value : Option type.Value)
    (builder : Builder) : Moves relation (storeOptional slot type value) builder := by
  apply allows.of_openField_bind
  intro index ran
  cases value with
  | none => exact Moves.of_pure (allows.refl builder) _
  | some value => exact allows.of_record ran (moves_addScalar type value builder)

theorem of_storeReference {kind : Kind} (slot : Slot) (target : Offset kind) (builder : Builder) :
    Moves relation (storeReference slot target) builder := by
  apply allows.of_openField_bind
  intro index ran
  exact allows.of_record ran (moves_addReference target builder)

theorem of_storeStruct {kind : Kind} (slot : Slot) (target : Offset kind) (builder : Builder) :
    Moves relation (storeStruct slot target) builder := by
  apply allows.of_openField_bind
  intro index ran
  apply Moves.head_bind
  split
  case isTrue => exact Moves.of_refuse (allows.refl builder) _
  case isFalse => exact allows.of_record ran (Moves.of_pure (Pushes.refl builder) ())

end AllowsFields

theorem changes_allow_fields : AllowsFields (ChangesBy closing) where
  refl _ := .refl
  trans := .trans
  pushed pushes := .single (.pushed pushes)
  recorded index opened inside := .single (.recorded index opened inside)

theorem changes_closeTable (allowed : closing) (ordered : builder.Ordered) :
    Moves (ChangesBy closing) closeTable builder := by
  apply Moves.of_endings
  · intro table after ran
    obtain ⟨start, fields, vtable, closed⟩ := closeTable_done ordered ran
    exact .single (.tableClosed closed allowed)
  · intro error after ran
    exact .single (.pushed (closeTable_refused ran))

theorem changes_allow : AllowsWriting (ChangesBy closing) where
  refl _ := .refl
  trans := .trans
  pushed pushes := .single (.pushed pushes)
  vectorOpened count unfinished closed := .single (.vectorOpened count unfinished closed)
  vectorClosed opened := .single (.vectorClosed opened)
  shared bytes offset := .single (.shared bytes offset)
  finished unfinished closed := .single (.finished unfinished closed)

theorem closeVector_apply {element : Kind} (builder : Builder) :
    @closeVector element builder =
      match builder.openObject with
      | .vector count =>
          if count ≤ maxBufferSize then
            (do
              putScalar .uint32 (UInt32.ofNat count)
              update fun builder => { builder with openObject := .nothing }
              pure ⟨← head⟩ : Build (Offset (.vector element))) builder
          else .fault (.countPastLimit count)
      | _ => .refused .nothingOpen builder := by
  simp only [closeVector, state_bind]
  cases builder.openObject with
  | nothing => rfl
  | table start fields => rfl
  | vector count => exact demand_bind

theorem encode_uint8 (byte : UInt8) : ScalarType.uint8.encode byte = [byte] := by
  change [UInt8.ofNat byte.toNat] = [byte]
  rw [UInt8.ofNat_toNat]

theorem flatMap_encode_uint8 (bytes : Bytes) : bytes.flatMap ScalarType.uint8.encode = bytes := by
  rw [show ScalarType.uint8.encode = fun byte => [byte] from funext encode_uint8,
    List.flatMap_singleton']

theorem writeBytes_eq_writeScalars (bytes : Bytes) :
    writeBytes bytes = writeScalars .uint8 bytes := by
  rw [writeBytes, writeScalars, flatMap_encode_uint8]
  rfl

theorem still_requireEachWritten {kind : Kind} (offsets : List (Offset kind)) (builder : Builder) :
    Moves Eq (offsets.forM requireWritten) builder :=
  Moves.forM (fun _ => rfl) Eq.trans still_requireWritten offsets builder

theorem moves_writeSortedBy {relation : Builder → Builder → Prop} (refl : relation builder builder)
    (compare : TableView → TableView → Except Fault Ordering) (tables : List (Offset .table))
    (writes : ∀ order : List (Offset .table), Moves relation (writeReferences order) builder) :
    Moves relation (writeSortedBy compare tables) builder := by
  have checked := (still_requireEachWritten tables builder).attempt
  intro after left
  rcases leaves_bind left with ⟨error, ran⟩ | ⟨result, middle, ran, left⟩
  · exact checked.of_refused ran ▸ refl
  · obtain rfl := checked.of_done ran
    cases result with
    | error error => exact Moves.of_pure refl _ after left
    | ok _ =>
        simp only [state_bind] at left
        rcases leaves_bind left with ⟨error, ran⟩ | ⟨order, middle, ran, left⟩
        · exact (still_ofRead _ _).of_refused ran ▸ refl
        · obtain rfl := (still_ofRead _ _).of_done ran
          rcases leaves_bind left with ⟨error, ran⟩ | ⟨vector, last, ran, left⟩
          · exact (writes order).attempt.of_refused ran
          · cases left
            exact (writes order).attempt.of_done ran

def addTrailer (root : Offset .table) (mark : Bytes) (sized : Bool) : Build Unit := do
  let trailer := referenceWidth + mark.length + if sized then referenceWidth else 0
  prepare (max (← state).alignment referenceWidth) trailer
  put mark
  addReference root
  if sized then putScalar .uint32 (← head)

theorem finish_apply (root : Offset .table) (identifier : Option String) (sized : Bool)
    (builder : Builder) :
    finish root identifier sized builder =
      match (identifier.map encodeText).filter (!validIdentifier ·) with
      | some invalid => .refused (.badIdentifier invalid.length) builder
      | none => (do
          requireNothingOpen
          addTrailer root ((identifier.map encodeText).getD []) sized
          update fun builder => { builder with finished := true } : Build Unit) builder := by
  simp only [finish, addTrailer]
  cases (identifier.map encodeText).filter (!validIdentifier ·) with
  | some invalid => rfl
  | none => cases sized <;> simp only [bind_assoc, Bool.false_eq_true, if_false, if_true, pure_bind]

theorem moves_addTrailer (root : Offset .table) (mark : Bytes) (sized : Bool) (builder : Builder) :
    Moves Pushes (addTrailer root mark sized) builder := by
  apply Moves.state_bind
  apply Moves.bind .trans (moves_prepare _ _ builder)
  intro _ second _
  apply Moves.bind .trans (moves_put _ second)
  intro _ third _
  apply Moves.bind .trans (moves_addReference _ third)
  intro _ last _
  cases sized with
  | true => exact moves_put _ last
  | false => exact Moves.of_pure (.refl last) ()

namespace AllowsPlacing

variable {relation : Builder → Builder → Prop} (allows : AllowsPlacing relation)
include allows

theorem of_requireNothingOpen {next : Unit → Build α}
    (each : builder.finished = false → builder.openObject = .nothing →
      Moves relation (next ()) builder) :
    Moves relation (requireNothingOpen >>= next) builder := by
  apply allows.of_bind (allows.of_still (still_requireNothingOpen builder))
  intro _ middle ran
  obtain ⟨rfl, unfinished, closed⟩ := requireNothingOpen_done ran
  exact each unfinished closed

theorem of_openVector (elementSize count alignment : Nat) (builder : Builder) :
    Moves relation (openVector elementSize count alignment) builder := by
  apply allows.of_requireNothingOpen
  intro unfinished closed
  dsimp only
  split
  case isTrue => exact Moves.of_refuse (allows.refl builder) _
  case isFalse =>
    apply allows.of_bind (allows.of_pushes (moves_prepare _ _ builder))
    intro _ second ran
    obtain ⟨_, firstPushed⟩ := prepare_done ran
    apply allows.of_bind (allows.of_pushes (moves_prepare _ _ second))
    intro _ last ran
    obtain ⟨_, lastPushed⟩ := prepare_done ran
    have pushed := firstPushed.trans lastPushed
    exact Moves.of_update (allows.vectorOpened count (pushed.finished.trans unfinished)
      (pushed.openObject.trans closed))

theorem of_closeVector {element : Kind} (builder : Builder) :
    Moves relation (@closeVector element) builder := by
  intro after left
  rw [closeVector_apply] at left
  split at left
  case h_2 =>
    cases left
    exact allows.refl builder
  case h_1 count opened =>
    split at left
    case isFalse => cases left
    case isTrue =>
      rcases leaves_bind left with ⟨error, ran⟩ | ⟨_, middle, ran, left⟩
      · exact (allows.of_pushes (moves_put _ builder)).of_refused ran
      · have pushes : Pushes builder middle := (moves_put _ builder).of_done ran
        cases left
        exact allows.trans (allows.pushed pushes)
          (allows.vectorClosed (pushes.openObject.trans opened))

theorem of_openFilledVector (elementSize count alignment : Nat) (filling : Bytes)
    (builder : Builder) :
    Moves relation (openFilledVector elementSize count alignment filling) builder := by
  apply allows.of_bind (allows.of_openVector _ _ _ builder)
  intro _ middle _
  apply allows.of_bind (allows.of_pushes (moves_put _ middle))
  intro _ last _
  exact Moves.of_pure (allows.refl last) _

theorem of_writeScalars (type : ScalarType) (items : List type.Value) (builder : Builder) :
    Moves relation (writeScalars type items) builder := by
  apply allows.of_bind (allows.of_openVector _ _ _ builder)
  intro _ middle _
  apply allows.of_bind (allows.of_pushes (moves_put _ middle))
  intro _ last _
  exact allows.of_closeVector last

theorem of_writeBytes (bytes : Bytes) (builder : Builder) :
    Moves relation (writeBytes bytes) builder := by
  rw [writeBytes_eq_writeScalars]
  exact allows.of_writeScalars .uint8 bytes builder

theorem of_writeReferences {kind : Kind} (items : List (Offset kind)) (builder : Builder) :
    Moves relation (writeReferences items) builder := by
  apply allows.of_bind (allows.of_openVector _ _ _ builder)
  intro _ middle _
  have added : Moves relation _ _ := Moves.forM allows.refl allows.trans
    (fun (item : Offset kind) builder => allows.of_pushes (moves_addReference item builder))
    items.reverse middle
  exact allows.of_bind added fun _ last _ => allows.of_closeVector last

theorem of_writeByteString (bytes : Bytes) (builder : Builder) :
    Moves relation (writeByteString bytes) builder := by
  apply allows.of_requireNothingOpen
  intro _ _
  apply allows.of_bind (allows.of_pushes (moves_addScalar _ _ builder))
  intro _ middle _
  apply allows.of_bind (allows.of_writeBytes bytes middle)
  intro _ last _
  exact Moves.of_pure (allows.refl last) _

theorem of_writeStrings (texts : List String) (builder : Builder) :
    Moves relation (writeStrings texts) builder := by
  have written : Moves relation _ _ := Moves.mapM allows.refl allows.trans
    (fun text builder => allows.of_writeByteString (encodeText text) builder) texts builder
  exact allows.of_bind written fun items middle _ => allows.of_writeReferences items middle

theorem of_finish (root : Offset .table) (identifier : Option String) (sized : Bool)
    (builder : Builder) : Moves relation (finish root identifier sized) builder := by
  rw [Moves, finish_apply]
  split
  case h_1 => exact Moves.of_refuse (allows.refl builder) _
  case h_2 =>
    apply allows.of_requireNothingOpen
    intro unfinished closed
    have moves : Moves Pushes _ builder :=
      moves_addTrailer root ((identifier.map encodeText).getD []) sized builder
    apply allows.of_bind (allows.of_pushes moves)
    intro _ last ran
    obtain ⟨front, pushed⟩ := moves.of_done ran
    exact Moves.of_update (allows.finished (pushed.finished.trans unfinished)
      (pushed.openObject.trans closed))

end AllowsPlacing

theorem AllowsWriting.of_shareString {relation : Builder → Builder → Prop}
    (allows : AllowsWriting relation) (text : String) (builder : Builder) :
    Moves relation (shareString text) builder := by
  apply allows.of_bind (allows.of_still (still_requireUnfinished builder))
  intro _ middle _
  apply Moves.state_bind
  cases middle.strings.lookup (encodeText text) with
  | some offset => exact Moves.of_pure (allows.refl middle) _
  | none =>
      apply allows.of_bind (allows.of_writeByteString _ middle)
      intro offset last _ after left
      cases left
      exact allows.shared _ offset

theorem openTable_done {count : Nat} (ran : openTable count before = .done () after) :
    before.openObject = .nothing ∧
      after = { before with openObject := .table before.head (List.replicate count 0) } := by
  rcases done_bind.mp ran with ⟨_, same, required, update⟩
  obtain ⟨rfl, -, closed⟩ := requireNothingOpen_done required
  cases update
  exact ⟨closed, rfl⟩

theorem changes_openTable (count : Nat) (builder : Builder) :
    Moves (ChangesBy closing) (openTable count) builder := by
  apply changes_allow.of_requireNothingOpen
  intro unfinished closed
  exact Moves.of_update (.single (.tableOpened count unfinished closed))

end Build

namespace Call

open Build

variable {builder after : Builder} {answer : Answer} {call : Call} {closing : Prop}

def onlyWrites : Call → Bool
  | clear | forceDefaults _ | openTable _ | closeTable | storeScalar .. | storeOptional ..
  | storeReference .. | storeStruct .. => false
  | _ => true

theorem moves_of_unshared {relation : Builder → Builder → Prop}
    (allows : AllowsPlacing relation)
    (only : call.onlyWrites = true) (unshared : ∀ text, call ≠ .shareString text)
    (builder : Builder) : Moves relation call.run builder := by
  cases call with
  | prepare size additional =>
      exact allows.of_replying (allows.of_pushes (moves_prepare size additional builder))
  | pad count => exact allows.of_replying (allows.of_pushes (moves_pad count builder))
  | put type value => exact allows.of_replying (allows.of_pushes (moves_put _ builder))
  | add type value =>
      exact allows.of_replying (allows.of_pushes (moves_addScalar type value builder))
  | addReference target =>
      exact allows.of_replying (allows.of_pushes (moves_addReference target builder))
  | requireField table slot =>
      exact allows.of_replying (allows.of_still (still_requireField table slot builder))
  | openVector elementSize count alignment =>
      exact allows.of_replying (allows.of_openVector elementSize count alignment builder)
  | openFilledVector elementSize count alignment filling =>
      exact allows.of_replying (allows.of_openFilledVector elementSize count alignment filling
        builder)
  | closeVector => exact allows.of_replying (allows.of_closeVector builder)
  | writeScalars type items => exact allows.of_replying (allows.of_writeScalars type items builder)
  | writeBytes bytes => exact allows.of_replying (allows.of_writeBytes bytes builder)
  | writeReferences items => exact allows.of_replying (allows.of_writeReferences items builder)
  | writeStrings texts => exact allows.of_replying (allows.of_writeStrings texts builder)
  | writeSorted key tables =>
      exact allows.of_replying (moves_writeSortedBy (allows.refl builder) key.orderTables tables
        fun order => allows.of_writeReferences order builder)
  | writeSortedBy compare tables =>
      exact allows.of_replying (moves_writeSortedBy (allows.refl builder) compare tables
        fun order => allows.of_writeReferences order builder)
  | writeString text => exact allows.of_replying (allows.of_writeByteString _ builder)
  | writeByteString bytes => exact allows.of_replying (allows.of_writeByteString bytes builder)
  | shareString text => exact absurd rfl (unshared text)
  | finish root identifier sized =>
      exact allows.of_replying (allows.of_finish root identifier sized builder)
  | _ => cases only

theorem moves_of_onlyWrites {relation : Builder → Builder → Prop}
    (allows : AllowsWriting relation)
    (only : call.onlyWrites = true) (builder : Builder) : Moves relation call.run builder := by
  by_cases shares : ∃ text, call = .shareString text
  · rcases shares with ⟨text, rfl⟩
    exact allows.of_replying (allows.of_shareString text builder)
  · exact moves_of_unshared allows.toAllowsPlacing only
      (fun text same => shares ⟨text, same⟩) builder

theorem changes_run (kept : call ≠ .clear) (allowed : call = .closeTable → closing)
    (ordered : closing → builder.Ordered) : Moves (ChangesBy closing) call.run builder := by
  have allows : AllowsWriting (ChangesBy closing) := changes_allow
  cases call with
  | clear => exact absurd rfl kept
  | forceDefaults force => exact allows.of_replying (Moves.of_update (.single (.forced force)))
  | openTable fields => exact allows.of_replying (changes_openTable fields builder)
  | storeScalar slot type value default =>
      exact allows.of_replying (changes_allow_fields.of_storeScalar slot type value default builder)
  | storeOptional slot type value =>
      exact allows.of_replying (changes_allow_fields.of_storeOptional slot type value builder)
  | storeReference slot target =>
      exact allows.of_replying (changes_allow_fields.of_storeReference slot target builder)
  | storeStruct slot target =>
      exact allows.of_replying (changes_allow_fields.of_storeStruct slot target builder)
  | closeTable =>
      exact allows.of_replying (changes_closeTable (allowed rfl) (ordered (allowed rfl)))
  | _ => exact moves_of_onlyWrites allows rfl builder

theorem step_ok (stepped : call.step builder = .ok (answer, after)) :
    (∃ reply, answer = .ok reply ∧ call.run builder = .done reply after) ∨
      ∃ error, answer = .error error ∧ call.run builder = .refused error after := by
  simp only [step] at stepped
  cases ran : call.run builder with
  | done reply middle =>
      rw [ran] at stepped
      cases stepped
      exact .inl ⟨reply, rfl, rfl⟩
  | refused error middle =>
      rw [ran] at stepped
      cases stepped
      exact .inr ⟨error, rfl, rfl⟩
  | fault cause =>
      rw [ran] at stepped
      cases stepped

theorem replying_of_done {α : Type} {reply : α → Reply} {step : Build α} {value : α}
    (ran : step builder = .done value after) :
    replying reply step builder = .done (reply value) after :=
  (bind_of_done ran).trans rfl

theorem replying_of_refused {α : Type} {reply : α → Reply} {step : Build α} {error : Refusal}
    (ran : step builder = .refused error after) :
    replying reply step builder = .refused error after :=
  bind_of_refused ran

theorem step_of_done {reply : Reply} (ran : call.run builder = .done reply after) :
    call.step builder = .ok (.ok reply, after) := by
  rw [step, ran]

theorem step_of_refused {error : Refusal} (ran : call.run builder = .refused error after) :
    call.step builder = .ok (.error error, after) := by
  rw [step, ran]

theorem replying_fault {α : Type} {reply : α → Reply} {step : Build α} {cause : Fault} :
    replying reply step builder = .fault cause ↔ step builder = .fault cause := by
  rw [replying, bind_apply]
  cases step builder <;> simp

theorem step_error {cause : Fault} :
    call.step builder = .error cause ↔ call.run builder = .fault cause := by
  rw [step]
  cases call.run builder <;> simp

theorem leaves_of_step (stepped : call.step builder = .ok (answer, after)) :
    (call.run builder).Leaves after := by
  rcases step_ok stepped with ⟨reply, -, ran⟩ | ⟨error, -, ran⟩
  · rw [ran]
    exact .done reply after
  · rw [ran]
    exact .refused error after

theorem done_of_step {reply : Reply} (stepped : call.step builder = .ok (.ok reply, after)) :
    call.run builder = .done reply after := by
  rcases step_ok stepped with ⟨found, same, ran⟩ | ⟨error, same, ran⟩
  · cases same
    exact ran
  · cases same

theorem refused_of_step {error : Refusal} (stepped : call.step builder = .ok (.error error, after)) :
    call.run builder = .refused error after := by
  rcases step_ok stepped with ⟨reply, same, ran⟩ | ⟨found, same, ran⟩
  · cases same
  · cases same
    exact ran

theorem changes_of_ordered (kept : call ≠ .clear) (ordered : builder.Ordered)
    (stepped : call.step builder = .ok (answer, after)) : Changes builder after :=
  changes_run kept (fun _ => trivial) (fun _ => ordered) after (leaves_of_step stepped)

theorem changes_of_step (kept : call ≠ .clear) (sound : builder.Sound)
    (stepped : call.step builder = .ok (answer, after)) : Changes builder after :=
  changes_of_ordered kept sound.ordered stepped

theorem changes_of_other (kept : call ≠ .clear) (other : call ≠ .closeTable)
    (stepped : call.step builder = .ok (answer, after)) : ChangesBy False builder after :=
  changes_run kept (fun same => absurd same other) False.elim after
    (leaves_of_step stepped)

theorem clear_of_step (stepped : clear.step builder = .ok (answer, after)) :
    after = builder.clear := by
  cases leaves_of_step stepped
  rfl

end Call

namespace Builder

variable {before after builder : Builder} {closing : Prop}

theorem fits_of_change (fits : before.capacity ≤ maxBufferSize)
    (change : Change closing before after) : after.capacity ≤ maxBufferSize := by
  cases change with
  | pushed pushes =>
      rcases pushes with ⟨front, pushed⟩
      exact pushed.fits fits
  | tableClosed closed => exact closed.fits fits
  | tableOpened | recorded | vectorOpened | vectorClosed | shared | finished | forced => exact fits

theorem fits_of_changes (fits : before.capacity ≤ maxBufferSize)
    (changes : ChangesBy closing before after) : after.capacity ≤ maxBufferSize := by
  induction changes with
  | refl => exact fits
  | tail _ change ih => exact fits_of_change ih change

theorem closed_of_change (quiet : before.finished = true → before.openObject = .nothing)
    (change : Change closing before after) :
    after.finished = true → after.openObject = .nothing := by
  cases change with
  | pushed pushes =>
      rcases pushes with ⟨front, pushed⟩
      rw [pushed.finished, pushed.openObject]
      exact quiet
  | tableClosed closed => exact fun _ => closed.openObject
  | tableOpened count unfinished => exact fun finished => by simp [unfinished] at finished
  | recorded index opened inside =>
      intro finished
      have closed := quiet finished
      rw [opened] at closed
      cases closed
  | vectorOpened count unfinished => exact fun finished => by simp [unfinished] at finished
  | vectorClosed opened => exact fun _ => rfl
  | shared bytes offset => exact quiet
  | finished unfinished closed => exact fun _ => closed
  | forced force => exact quiet

theorem ordered_of_change (ordered : before.Ordered) (small : after.storage.size ≤ maxBufferSize)
    (change : Change closing before after) : after.Ordered := by
  cases change with
  | pushed pushes =>
      rcases pushes with ⟨front, pushed⟩
      refine ⟨small, ?_, ?_⟩
      · intro vtable member
        rw [pushed.vtables] at member
        rw [pushed.size]
        exact Nat.le_add_left_of_le (ordered.vtables vtable member)
      · intro start fields opened
        rw [pushed.openObject] at opened
        rw [pushed.size]
        obtain ⟨started, stored⟩ := ordered.opened start fields opened
        exact ⟨Nat.le_add_left_of_le started,
          fun location member => Nat.le_add_left_of_le (stored location member)⟩
  | tableOpened count unfinished closed =>
      refine ⟨small, ordered.vtables, ?_⟩
      intro start fields opened
      cases opened
      refine ⟨Nat.le_of_eq ordered.toNat_head, fun location member => ?_⟩
      rw [List.eq_of_mem_replicate member]
      exact Nat.zero_le _
  | recorded index opened inside =>
      refine ⟨small, ordered.vtables, ?_⟩
      intro start fields same
      cases same
      obtain ⟨started, stored⟩ := ordered.opened _ _ opened
      refine ⟨started, fun location member => ?_⟩
      rcases List.mem_or_eq_of_mem_set member with member | rfl
      · exact stored location member
      · exact Nat.le_of_eq ordered.toNat_head
  | tableClosed closed =>
      rcases closed.written with ⟨front, written, origin⟩
      have longer : before.storage.size ≤ after.storage.size := by
        rw [after.storage.size_eq, before.storage.size_eq, written]
        simp only [List.length_append]
        omega
      refine ⟨small, ?_, ?_⟩
      case refine_2 =>
        intro start fields opened
        rw [closed.openObject] at opened
        cases opened
      intro vtable member
      rcases origin with ⟨-, -, kept⟩ | ⟨-, placed, grown⟩
      · rw [kept] at member
        exact Nat.le_trans (ordered.vtables vtable member) longer
      · rw [grown, List.mem_append, List.mem_singleton] at member
        rcases member with member | rfl
        · exact Nat.le_trans (ordered.vtables vtable member) longer
        · rw [placed]
          exact Nat.le_of_eq closed.headed
  | vectorOpened | vectorClosed => exact ⟨small, ordered.vtables, fun _ _ opened => nomatch opened⟩
  | shared | finished | forced => exact ⟨small, ordered.vtables, ordered.opened⟩

theorem power_of_change (power : before.alignment.isPowerOfTwo)
    (change : Change closing before after) : after.alignment.isPowerOfTwo := by
  rcases change.pushes_or_closed with ⟨front, pushed⟩ | ⟨_, _, _, _, closed, -⟩ | ⟨-, same, -⟩
  · exact pushed.levels power
  · exact closed.levels power
  · rwa [same]

theorem sound_of_change (sound : before.Sound) (change : Change closing before after) :
    after.Sound :=
  have fits := fits_of_change sound.fits change
  have ordered := ordered_of_change sound.ordered (size_le fits) change
  ⟨fits, power_of_change sound.power change, ordered.vtables, closed_of_change sound.closed change,
    ordered.opened⟩

theorem sound_of_changes (sound : before.Sound) (changes : ChangesBy closing before after) :
    after.Sound := by
  induction changes with
  | refl => exact sound
  | tail _ change ih => exact sound_of_change ih change

theorem sound_ofOptions {options : BuilderOptions}
    (fits : options.initialCapacity ≤ maxBufferSize) : (ofOptions options).Sound :=
  ⟨fits, ⟨0, rfl⟩, fun _ member => absurd member List.not_mem_nil, fun _ => rfl,
    fun _ _ opened => nomatch opened⟩

theorem capacity_clear (builder : Builder) : builder.clear.capacity = builder.capacity := by
  simp only [capacity, clear, Storage.capacity, Storage.retract, Nat.min_self]
  omega

theorem sound_clear (sound : builder.Sound) : builder.clear.Sound := by
  refine ⟨?_, ⟨0, rfl⟩, fun _ member => absurd member List.not_mem_nil, fun _ => rfl,
    fun _ _ opened => nomatch opened⟩
  rw [capacity_clear]
  exact sound.fits

theorem sound_of_step {call : Call} {answer : Answer} (sound : before.Sound)
    (stepped : call.step before = .ok (answer, after)) : after.Sound := by
  by_cases cleared : call = .clear
  · subst cleared
    rw [Call.clear_of_step stepped]
    exact sound_clear sound
  · exact sound_of_changes sound (Call.changes_of_step cleared sound stepped)

theorem Reachable.sound (reachable : builder.Reachable) : builder.Sound := by
  induction reachable with
  | new options fits => exact sound_ofOptions fits
  | step call _ stepped ih => exact sound_of_step ih stepped

end Builder

end WireTables
