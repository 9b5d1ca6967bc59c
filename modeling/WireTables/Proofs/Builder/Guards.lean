import WireTables.Proofs.Builder.Finished
import WireTables.Proofs.Builder.Object

/-!
The checks that stand in front of a call. They ask whether the builder is finished, what is open in
it, and whether the arguments have the right form. A call that is made of several steps has asked
all of this before its first step writes anything: once it writes, only the room that is left, the
targets of references and the size of a table can still stop it.
-/

namespace WireTables

/-- Whether the refusal says that the call was out of place, rather than that it could not be
carried out. -/
def Refusal.isGuard : Refusal → Bool
  | badIdentifier _ | objectOpen | nothingOpen | noSuchField .. | structApart .. | notFinished
  | finished => true
  | capacity _ | missingField _ | dangling .. | tableTooLarge _ => false

/-- Why the call did not go through. Sorted tables may be left in order although their vector was
refused. -/
def refusalOf : Answer → Option Refusal
  | .error error => some error
  | .ok (.sorted ⟨_, .error error⟩) => some error
  | .ok _ => none

/-- The builders that calls can lead to from a new one, however large that was made. -/
inductive Builder.Attainable : Builder → Prop
  | new (options : BuilderOptions) : Attainable (.ofOptions options)
  | step {builder after : Builder} {answer : Answer} (call : Call) (before : Attainable builder)
      (stepped : call.step builder = .ok (answer, after)) : Attainable after

theorem Builder.Reachable.attainable {builder : Builder} (reachable : builder.Reachable) :
    builder.Attainable := by
  induction reachable with
  | new options _ => exact .new options
  | step call _ stepped ih => exact .step call ih stepped

structure Builder.Idle (builder : Builder) : Prop where
  unfinished : builder.finished = false
  closed : builder.openObject = .nothing

namespace Build

variable {α β : Type} {step : Build α} {next : α → Build β} {builder before after : Builder}

/-- A step that a guard refuses has done nothing yet. -/
def Guarded (step : Build α) (builder : Builder) : Prop :=
  ∀ error after, step builder = .refused error after → error.isGuard = true → after = builder

def Passes (step : Build α) (builder : Builder) : Prop :=
  ∀ error after, step builder = .refused error after → error.isGuard = false

theorem Passes.guarded (passes : Passes step builder) : Guarded step builder := by
  intro error after ran guard
  rw [passes error after ran] at guard
  cases guard

theorem Guarded.of_still (still : Moves Eq step builder) : Guarded step builder :=
  fun _ _ ran _ => (still.of_refused ran).symm

theorem Passes.pure (value : α) (builder : Builder) : Passes (pure value : Build α) builder := nofun

theorem Passes.update (change : Builder → Builder) (builder : Builder) :
    Passes (update change) builder := nofun

theorem Passes.bind (first : Passes step builder)
    (second : ∀ value middle, step builder = .done value middle → Passes (next value) middle) :
    Passes (step >>= next) builder := by
  intro error after ran
  rcases refused_bind.mp ran with refused | ⟨value, middle, done, refused⟩
  · exact first error after refused
  · exact second value middle done error after refused

theorem Guarded.bind (first : Guarded step builder)
    (second : ∀ value middle, step builder = .done value middle → Passes (next value) middle) :
    Guarded (step >>= next) builder := by
  intro error after ran guard
  rcases refused_bind.mp ran with refused | ⟨value, middle, done, refused⟩
  · exact first error after refused guard
  · rw [second value middle done error after refused] at guard
    cases guard

theorem Guarded.bind_still (still : Moves Eq step builder)
    (second : ∀ value, step builder = .done value builder → Guarded (next value) builder) :
    Guarded (step >>= next) builder := by
  intro error after ran guard
  rcases refused_bind.mp ran with refused | ⟨value, middle, done, refused⟩
  · exact (still.of_refused refused).symm
  · obtain rfl := still.of_done done
    exact second value done error after refused guard

theorem Guarded.replying {reply : α → Reply} (guarded : Guarded step builder) :
    Guarded (replying reply step) builder :=
  guarded.bind fun _ _ _ => Passes.pure _ _

theorem Passes.forM (holds : Builder → Prop) {visit : α → Build PUnit}
    (each : ∀ item builder, holds builder → Passes (visit item) builder)
    (keeps : ∀ item before after, holds before → visit item before = .done .unit after →
      holds after) (items : List α) (start : holds builder) :
    Passes (items.forM visit) builder := by
  induction items generalizing builder with
  | nil => exact Passes.pure _ _
  | cons item items ih =>
      rw [List.forM_eq_forM, List.forM_cons]
      exact (each item builder start).bind fun _ middle ran => ih (keeps item _ _ start ran)

theorem Passes.mapM {holds : Builder → Prop} {visit : α → Build β}
    (each : ∀ item builder, holds builder → Passes (visit item) builder)
    (keeps : ∀ item value before after, holds before → visit item before = .done value after →
      holds after) (items : List α) (start : holds builder) :
    Passes (items.mapM visit) builder := by
  induction items generalizing builder with
  | nil =>
      rw [List.mapM_nil]
      exact Passes.pure _ _
  | cons item items ih =>
      rw [List.mapM_cons]
      refine (each item builder start).bind fun value middle ran => ?_
      exact (ih (keeps item _ _ _ start ran)).bind fun _ _ _ => Passes.pure _ _

structure WantsIdle (step : Build α) (builder : Builder) : Prop where
  guarded : Guarded step builder
  passes : builder.Idle → Passes step builder

theorem WantsIdle.bind (first : WantsIdle step builder)
    (second : ∀ value middle, step builder = .done value middle → Passes (next value) middle) :
    WantsIdle (step >>= next) builder :=
  ⟨first.guarded.bind second, fun idle => (first.passes idle).bind second⟩

section Writing

theorem passes_put (bytes : Bytes) (builder : Builder) : Passes (put bytes) builder :=
  fun _ _ ran => absurd ran put_not_refused

theorem passes_pad (count : Nat) (builder : Builder) : Passes (pad count) builder :=
  fun _ _ ran => absurd ran pad_not_refused

theorem passes_makeRoom (needed : Nat) (builder : Builder) : Passes (makeRoom needed) builder := by
  intro error after ran
  rw [makeRoom_apply] at ran
  split at ran
  case isFalse => cases ran
  case isTrue =>
    split at ran
    case isTrue =>
      cases ran
      rfl
    case isFalse =>
      split at ran <;> cases ran
      rfl

theorem passes_prepare (size additional : Nat) (unfinished : builder.finished = false) :
    Passes (prepare size additional) builder := by
  have room := (passes_makeRoom (paddingTo size (builder.storage.size + additional) + size +
    additional) { builder with alignment := max builder.alignment size }).bind
      fun _ middle _ => passes_pad (paddingTo size (builder.storage.size + additional)) middle
  intro error after ran
  rw [prepare_apply, if_neg (Bool.eq_false_iff.mp unfinished)] at ran
  split at ran
  case isFalse => cases ran
  case isTrue =>
    dsimp only at ran
    split at ran
    case isTrue =>
      cases ran
      rfl
    case isFalse =>
      split at ran
      case isTrue => exact room error after ran
      case isFalse => cases ran

theorem guarded_prepare (size additional : Nat) (builder : Builder) :
    Guarded (prepare size additional) builder := by
  cases finished : builder.finished with
  | true => exact .of_still (still_prepare size additional finished)
  | false => exact (passes_prepare size additional finished).guarded

theorem guarded_addScalar (type : ScalarType) (value : type.Value) (builder : Builder) :
    Guarded (addScalar type value) builder :=
  (guarded_prepare _ _ builder).bind fun _ middle _ => passes_put _ middle

theorem passes_addScalar (type : ScalarType) (value : type.Value)
    (unfinished : builder.finished = false) : Passes (addScalar type value) builder :=
  (passes_prepare _ _ unfinished).bind fun _ middle _ => passes_put _ middle

theorem passes_reference {kind : Kind} (target : Offset kind) (builder : Builder) :
    Passes (do
      let head ← head
      if head < target.value then refuse (.dangling target.value head)
      else putScalar .uint32 (head - target.value + 4)) builder := by
  intro error after ran
  rw [head_bind] at ran
  split at ran
  case isTrue =>
    cases ran
    rfl
  case isFalse => exact passes_put _ builder error after ran

theorem guarded_addReference {kind : Kind} (target : Offset kind) (builder : Builder) :
    Guarded (addReference target) builder :=
  (guarded_prepare _ _ builder).bind fun _ middle _ => passes_reference target middle

theorem passes_addReference {kind : Kind} (target : Offset kind)
    (unfinished : builder.finished = false) : Passes (addReference target) builder :=
  (passes_prepare _ _ unfinished).bind fun _ middle _ => passes_reference target middle

end Writing

section Vectors

theorem wants_requireNothingOpen (builder : Builder) : WantsIdle requireNothingOpen builder where
  guarded := .of_still (still_requireNothingOpen builder)
  passes idle := by
    intro error after ran
    rw [requireNothingOpen_apply, if_neg (Bool.eq_false_iff.mp idle.unfinished),
      if_neg (not_not_intro idle.closed)] at ran
    cases ran

theorem wants_openVector (elementSize count alignment : Nat) (builder : Builder) :
    WantsIdle (openVector elementSize count alignment) builder := by
  apply (wants_requireNothingOpen builder).bind
  intro _ middle ran
  obtain ⟨rfl, unfinished, -⟩ := requireNothingOpen_done ran
  dsimp only
  split
  case isTrue =>
    intro error after refused
    cases refused
    rfl
  case isFalse =>
    refine (passes_prepare _ _ unfinished).bind fun _ second prepared => ?_
    have stillUnfinished := (prepare_done prepared).2.finished.trans unfinished
    exact (passes_prepare _ _ stillUnfinished).bind fun _ third _ => Passes.update _ third

theorem opened_of_openVector {elementSize count alignment : Nat}
    (ran : openVector elementSize count alignment before = .done () after) :
    after.finished = false ∧ after.openObject = .vector count := by
  obtain ⟨second, third, -, first, last, rfl⟩ := openVector_steps ran
  obtain ⟨unfinished, pushed⟩ := prepare_done last
  exact ⟨pushed.finished.trans unfinished, rfl⟩

theorem passes_closeVector {element : Kind} {count : Nat}
    (opened : builder.openObject = .vector count) : Passes (@closeVector element) builder := by
  have passes : Passes (do
      putScalar .uint32 (UInt32.ofNat count)
      update fun builder => { builder with openObject := .nothing }
      pure ⟨← head⟩ : Build (Offset (.vector element))) builder :=
    (passes_put _ builder).bind fun _ _ _ => nofun
  intro error after ran
  rw [closeVector_apply, opened] at ran
  dsimp only at ran
  split at ran
  case isTrue => exact passes error after ran
  case isFalse => cases ran

theorem guarded_closeVector {element : Kind} (builder : Builder) :
    Guarded (@closeVector element) builder := by
  cases opened : builder.openObject with
  | vector count => exact (passes_closeVector opened).guarded
  | nothing => exact .of_still (rejects_closeVector opened).still
  | table start fields =>
      intro error after ran _
      rw [closeVector_apply, opened] at ran
      cases ran
      rfl

theorem wants_writeScalars (type : ScalarType) (items : List type.Value) (builder : Builder) :
    WantsIdle (writeScalars type items) builder := by
  apply (wants_openVector _ _ _ builder).bind
  intro _ opened ran
  refine (passes_put _ opened).bind fun _ filled put => ?_
  exact passes_closeVector ((put_done put).1.openObject.trans (opened_of_openVector ran).2)

theorem wants_writeBytes (bytes : Bytes) (builder : Builder) :
    WantsIdle (writeBytes bytes) builder := by
  rw [writeBytes_eq_writeScalars]
  exact wants_writeScalars .uint8 bytes builder

theorem wants_writeReferences {kind : Kind} (items : List (Offset kind)) (builder : Builder) :
    WantsIdle (writeReferences items) builder := by
  apply (wants_openVector _ _ _ builder).bind
  intro _ opened ran
  have added (item : Offset kind) {before after : Builder}
      (done : addReference item before = .done () after) : Pushes before after :=
    (moves_addReference item before).of_done done
  refine (Passes.forM (fun builder => builder.finished = false)
    (fun item _ unfinished => passes_addReference item unfinished)
    (fun item _ _ unfinished done => (added item done).finished.trans unfinished)
    items.reverse (opened_of_openVector ran).1).bind fun _ filled fill => ?_
  have pushes : Pushes opened filled := (Moves.forM Pushes.refl .trans
    (fun item builder => moves_addReference item builder) items.reverse opened).of_done fill
  exact passes_closeVector (pushes.openObject.trans (opened_of_openVector ran).2)

theorem wants_writeByteString (bytes : Bytes) (builder : Builder) :
    WantsIdle (writeByteString bytes) builder := by
  apply (wants_requireNothingOpen builder).bind
  intro _ middle ran
  obtain ⟨rfl, unfinished, closed⟩ := requireNothingOpen_done ran
  refine (passes_addScalar _ _ unfinished).bind fun _ ended add => ?_
  have pushed := (addScalar_done add).2
  have idle : ended.Idle := ⟨pushed.finished.trans unfinished, pushed.openObject.trans closed⟩
  exact ((wants_writeBytes bytes ended).passes idle).bind fun _ _ _ => Passes.pure _ _

theorem idle_of_writeByteString {bytes : Bytes} {offset : Offset .string}
    (ran : writeByteString bytes before = .done offset after) : after.Idle := by
  rcases done_bind.mp ran with ⟨_, same, -, rest⟩
  rcases done_bind.mp rest with ⟨_, ended, -, rest⟩
  rcases done_bind.mp rest with ⟨vector, last, wrote, rest⟩
  cases rest
  rcases done_bind.mp wrote with ⟨_, opened, openRan, rest⟩
  rcases done_bind.mp rest with ⟨_, filled, fillRan, closeRan⟩
  obtain ⟨unfinished, isOpen⟩ := opened_of_openVector openRan
  have pushed := (put_done fillRan).1
  obtain ⟨counted, last, rfl, -⟩ := closeVector_done (pushed.openObject.trans isOpen) closeRan
  exact ⟨last.finished.trans (pushed.finished.trans unfinished), rfl⟩

theorem wants_writeStrings (texts : List String) (builder : Builder) :
    WantsIdle (writeStrings texts) builder := by
  simp only [writeStrings]
  cases texts with
  | nil =>
      rw [List.mapM_nil, pure_bind]
      exact wants_writeReferences [] builder
  | cons text texts =>
      rw [List.mapM_cons, bind_assoc]
      refine (wants_writeByteString (encodeText text) builder).bind fun first middle wrote => ?_
      rw [bind_assoc]
      have idle : ∀ (text : String) (offset : Offset .string) (before after : Builder),
          before.Idle → writeString text before = .done offset after → after.Idle :=
        fun _ _ _ _ _ => idle_of_writeByteString
      have start := idle_of_writeByteString wrote
      refine (Passes.mapM (fun text builder => (wants_writeByteString _ builder).passes) idle texts
        start).bind fun offsets last rest => ?_
      rw [pure_bind]
      exact (wants_writeReferences _ last).passes (holds_of_mapM idle start rest).2

theorem guarded_shareString (text : String) (builder : Builder) :
    Guarded (shareString text) builder := by
  apply Guarded.bind_still (still_requireUnfinished builder)
  intro _ _ error after ran
  rw [state_bind] at ran
  cases shared : builder.strings.lookup (encodeText text) with
  | some offset =>
      rw [shared] at ran
      cases ran
  | none =>
      rw [shared] at ran
      refine (wants_writeByteString (encodeText text) builder).guarded.bind (fun _ middle _ => ?_)
        error after ran
      exact (Passes.update _ middle).bind fun _ _ _ => Passes.pure _ _

end Vectors

section Tables

variable {slot : Slot}

theorem guarded_openField {write : Nat → Build Unit}
    (each : ∀ index, Guarded (write index) builder) : Guarded (openField slot >>= write) builder :=
  .bind_still (still_openField slot builder) fun index _ => each index

theorem guarded_record {write : Build Unit} (index : Nat) (guarded : Guarded write builder) :
    Guarded (write >>= fun _ => recordField index) builder :=
  guarded.bind fun _ _ _ => nofun

theorem guarded_storeScalar (slot : Slot) (type : ScalarType) (value default : type.Value)
    (builder : Builder) : Guarded (storeScalar slot type value default) builder := by
  apply guarded_openField
  intro index error after ran
  rw [state_bind] at ran
  split at ran
  case isTrue => cases ran
  case isFalse => exact guarded_record index (guarded_addScalar type value builder) error after ran

theorem guarded_storeOptional (slot : Slot) (type : ScalarType) (value : Option type.Value)
    (builder : Builder) : Guarded (storeOptional slot type value) builder := by
  apply guarded_openField
  intro index
  cases value with
  | none => exact (Passes.pure () builder).guarded
  | some value => exact guarded_record index (guarded_addScalar type value builder)

theorem guarded_storeReference {kind : Kind} (slot : Slot) (target : Offset kind)
    (builder : Builder) : Guarded (storeReference slot target) builder :=
  guarded_openField fun index => guarded_record index (guarded_addReference target builder)

theorem guarded_storeStruct {kind : Kind} (slot : Slot) (target : Offset kind)
    (builder : Builder) : Guarded (storeStruct slot target) builder := by
  apply guarded_openField
  intro index error after ran _
  rw [head_bind] at ran
  split at ran
  case isTrue =>
    cases ran
    rfl
  case isFalse => cases ran

theorem passes_addEntry (entry : Nat) (unfinished : builder.finished = false) :
    Passes (addEntry entry) builder := by
  simp only [addEntry]
  split
  case isTrue =>
    intro error after refused
    cases refused
    rfl
  case isFalse => exact passes_addScalar _ _ unfinished

theorem passes_addVTable (table start : UInt32) (fields : List UInt32)
    (unfinished : builder.finished = false) : Passes (addVTable table start fields) builder := by
  have keeps (entry : Nat) {before after : Builder} (still : before.finished = false)
      (ran : addEntry entry before = .done () after) : after.finished = false :=
    Eq.trans ((moves_addEntry entry before).of_done ran : Pushes _ _).finished still
  refine (Passes.forM (fun builder => builder.finished = false)
    (fun location _ => passes_addEntry (fieldEntry table location))
    (fun location _ _ => keeps (fieldEntry table location)) _ unfinished).bind
      fun _ second entries => ?_
  have stillUnfinished : second.finished = false :=
    Eq.trans ((Moves.forM Pushes.refl .trans (fun _ => moves_addEntry _) _ _).of_done entries :
      Pushes _ _).finished unfinished
  refine (passes_addEntry _ stillUnfinished).bind fun _ third inline => ?_
  exact passes_addEntry _ (keeps _ stillUnfinished inline)

theorem passes_closing (table start : UInt32) (fields : List UInt32)
    (unfinished : builder.finished = false) :
    Passes (do
      addVTable table start fields
      shareVTable (vtableWidth fields) table
      update fun builder => { builder with openObject := .nothing }
      pure ⟨table⟩ : Build (Offset .table)) builder := by
  refine (passes_addVTable table start fields unfinished).bind fun _ _ _ => ?_
  exact Passes.bind (fun _ _ ran => absurd ran shareVTable_not_refused) fun _ _ _ => nofun

theorem guarded_closeTable (builder : Builder) : Guarded closeTable builder := by
  cases opened : builder.openObject with
  | nothing => exact .of_still (rejects_closeTable opened).still
  | vector count =>
      intro error after ran _
      rw [closeTable_apply, opened] at ran
      cases ran
      rfl
  | table start fields =>
      have closes : Guarded (do
          addScalar .int32 0
          let table ← head
          addVTable table start fields
          shareVTable (vtableWidth fields) table
          update fun builder => { builder with openObject := .nothing }
          pure ⟨table⟩ : Build (Offset .table)) builder := by
        refine (guarded_addScalar .int32 0 builder).bind fun _ blank added => ?_
        have unfinished : blank.finished = false :=
          (addScalar_done added).2.finished.trans (addScalar_done added).1
        exact passes_closing blank.head start fields unfinished
      intro error after ran guard
      rw [closeTable_apply, opened] at ran
      exact closes error after ran guard

theorem closed_of_closeTable {table : Offset .table} (ran : closeTable before = .done table after) :
    after.openObject = .nothing := by
  rw [closeTable_apply] at ran
  split at ran
  case h_1 =>
    rcases done_bind.mp ran with ⟨_, blank, -, ran⟩
    rw [head_bind] at ran
    rcases done_bind.mp ran with ⟨_, last, -, ran⟩
    rcases done_bind.mp ran with ⟨_, linked, -, ran⟩
    cases ran
    rfl
  case h_2 => cases ran

end Tables

theorem passes_ofRead (read : Except Fault α) (builder : Builder) : Passes (ofRead read) builder := by
  cases read <;> exact nofun

theorem passes_attempt (step : Build α) (builder : Builder) : Passes (attempt step) builder := by
  intro error after ran
  simp only [attempt] at ran
  split at ran <;> cases ran

theorem passes_writeSortedBy (compare : TableView → TableView → Except Fault Ordering)
    (tables : List (Offset .table)) (builder : Builder) :
    Passes (writeSortedBy compare tables) builder := by
  refine (passes_attempt _ builder).bind fun result middle _ => ?_
  cases result with
  | error error => exact Passes.pure _ _
  | ok _ =>
      change Passes (ofRead _ >>= fun order => _) middle
      refine (passes_ofRead _ middle).bind fun order last _ => ?_
      exact (passes_attempt _ last).bind fun _ _ _ => Passes.pure _ _

theorem still_of_sorted {compare : TableView → TableView → Except Fault Ordering}
    {tables order : List (Offset .table)} {error : Refusal} (guard : error.isGuard = true)
    (ran : writeSortedBy compare tables before = .done ⟨order, .error error⟩ after) :
    after = before := by
  rcases done_bind.mp ran with ⟨checked, middle, check, ran⟩
  obtain rfl := (still_requireEachWritten tables before).attempt.of_done check
  cases checked with
  | error error =>
      cases ran
      rfl
  | ok _ =>
      simp only [state_bind] at ran
      rcases done_bind.mp ran with ⟨sorted, second, read, ran⟩
      obtain rfl := (still_ofRead _ _).of_done read
      rcases done_bind.mp ran with ⟨vector, last, wrote, ended⟩
      cases ended
      exact (wants_writeReferences _ before).guarded error after (attempt_error.mp wrote) guard

theorem passes_addTrailer (root : Offset .table) (mark : Bytes) (sized : Bool)
    (unfinished : builder.finished = false) : Passes (addTrailer root mark sized) builder := by
  change Passes (prepare (max builder.alignment referenceWidth) _ >>= fun _ => _) builder
  refine (passes_prepare _ _ unfinished).bind fun _ second prepared => ?_
  refine (passes_put mark second).bind fun _ third marked => ?_
  have still := ((prepare_done prepared).2.trans (put_done marked).1).finished.trans unfinished
  refine (passes_addReference root still).bind fun _ last _ => ?_
  cases sized with
  | true => exact passes_put _ last
  | false => exact Passes.pure _ _

theorem guarded_finish (root : Offset .table) (identifier : Option String) (sized : Bool)
    (builder : Builder) : Guarded (finish root identifier sized) builder := by
  intro error after ran
  rw [finish_apply] at ran
  split at ran
  case h_1 =>
    cases ran
    exact fun _ => rfl
  case h_2 =>
    refine (wants_requireNothingOpen builder).guarded.bind (fun _ middle required => ?_) error after
      ran
    obtain ⟨rfl, unfinished, -⟩ := requireNothingOpen_done required
    exact (passes_addTrailer root _ sized unfinished).bind fun _ _ _ => Passes.update _ _

end Build

namespace Call

open Build

variable {builder after : Builder} {answer : Answer} {call : Call} {error : Refusal}

theorem guarded_run (call : Call) (builder : Builder) : Guarded call.run builder := by
  cases call with
  | clear | forceDefaults => exact nofun
  | prepare size additional => exact (guarded_prepare size additional builder).replying
  | pad count => exact (passes_pad count builder).guarded.replying
  | put type value => exact (passes_put _ builder).guarded.replying
  | add type value => exact (guarded_addScalar type value builder).replying
  | addReference target => exact (guarded_addReference target builder).replying
  | openTable fields =>
      exact ((wants_requireNothingOpen builder).bind fun _ _ _ => Passes.update _ _).guarded.replying
  | storeScalar slot type value default =>
      exact (guarded_storeScalar slot type value default builder).replying
  | storeOptional slot type value => exact (guarded_storeOptional slot type value builder).replying
  | storeReference slot target => exact (guarded_storeReference slot target builder).replying
  | storeStruct slot target => exact (guarded_storeStruct slot target builder).replying
  | closeTable => exact (guarded_closeTable builder).replying
  | requireField table slot => exact .of_still (still_replying (still_requireField table slot builder))
  | openVector elementSize count alignment =>
      exact (wants_openVector elementSize count alignment builder).guarded.replying
  | openFilledVector elementSize count alignment filling =>
      refine ((wants_openVector elementSize count alignment builder).bind
        fun _ opened _ => ?_).guarded.replying
      exact (passes_put _ opened).bind fun _ _ _ => Passes.pure _ _
  | closeVector => exact (guarded_closeVector builder).replying
  | writeScalars type items => exact (wants_writeScalars type items builder).guarded.replying
  | writeBytes bytes => exact (wants_writeBytes bytes builder).guarded.replying
  | writeReferences items => exact (wants_writeReferences items builder).guarded.replying
  | writeStrings texts => exact (wants_writeStrings texts builder).guarded.replying
  | writeSorted key tables =>
      exact (passes_writeSortedBy key.orderTables tables builder).guarded.replying
  | writeSortedBy compare tables =>
      exact (passes_writeSortedBy compare tables builder).guarded.replying
  | writeString text => exact (wants_writeByteString _ builder).guarded.replying
  | writeByteString bytes => exact (wants_writeByteString bytes builder).guarded.replying
  | shareString text => exact (guarded_shareString text builder).replying
  | finish root identifier sized => exact (guarded_finish root identifier sized builder).replying

theorem sorted_of_run {tables : SortedTables} (ran : call.run builder = .done (.sorted tables) after) :
    ∃ compare items, Build.writeSortedBy compare items builder = .done tables after := by
  cases call with
  | writeSorted key items =>
      rcases done_bind.mp ran with ⟨_, _, sorts, ended⟩
      cases ended
      exact ⟨key.orderTables, items, sorts⟩
  | writeSortedBy compare items =>
      rcases done_bind.mp ran with ⟨_, _, sorts, ended⟩
      cases ended
      exact ⟨compare, items, sorts⟩
  | _ =>
      rcases done_bind.mp ran with ⟨_, _, _, ended⟩
      cases ended

theorem still_of_guard (stepped : call.step builder = .ok (answer, after))
    (refused : refusalOf answer = some error) (guard : error.isGuard = true) : after = builder := by
  rcases step_ok stepped with ⟨reply, rfl, ran⟩ | ⟨found, rfl, ran⟩
  · cases reply with
    | sorted tables =>
        rcases tables with ⟨order, vector⟩
        cases vector with
        | error cause =>
            cases refused
            obtain ⟨compare, items, sorts⟩ := sorted_of_run ran
            exact still_of_sorted guard sorts
        | ok vector => cases refused
    | nothing | object | bytes => cases refused
  · cases refused
    exact guarded_run call builder error after ran guard

theorem changes_or_closed {before : Builder} (kept : call ≠ .clear)
    (stepped : call.step before = .ok (answer, after)) :
    ChangesBy False before after ∨ ∃ table : Offset .table,
      call = .closeTable ∧ answer = .ok (.object table.value) ∧
        Build.closeTable before = .done table after := by
  by_cases closes : call = .closeTable
  · subst closes
    rcases step_ok stepped with ⟨reply, rfl, ran⟩ | ⟨error, rfl, ran⟩
    · rcases done_bind.mp ran with ⟨table, last, closed, ended⟩
      cases ended
      exact .inr ⟨table, rfl, rfl, closed⟩
    · rcases refused_bind.mp ran with refused | ⟨_, _, _, ended⟩
      · exact .inl (.single (.pushed (closeTable_refused refused)))
      · cases ended
  · exact .inl (changes_of_other kept closes stepped)

theorem closed_of_step {before : Builder} (quiet : before.finished = true → before.openObject = .nothing)
    (stepped : call.step before = .ok (answer, after)) :
    after.finished = true → after.openObject = .nothing := by
  by_cases cleared : call = .clear
  · subst cleared
    rw [clear_of_step stepped]
    exact fun _ => rfl
  · rcases changes_or_closed cleared stepped with changes | ⟨table, -, -, closes⟩
    · clear stepped
      induction changes with
      | refl => exact quiet
      | tail _ change ih => exact Builder.closed_of_change ih change
    · exact fun _ => closed_of_closeTable closes

end Call

theorem Builder.Attainable.closed {builder : Builder} (attainable : builder.Attainable) :
    builder.finished = true → builder.openObject = .nothing := by
  induction attainable with
  | new options => exact fun _ => rfl
  | step call _ stepped ih => exact Call.closed_of_step ih stepped

/-- A call that a guard refuses leaves the whole builder as it was, however much it would have
written first. The finished bytes are shown by a builder that is finished, which has nothing open,
and by no other. -/
theorem Builder.Attainable.guards_first {builder : Builder} (attainable : builder.Attainable) :
    (∀ (call : Call) (answer : Answer) (after : Builder) (error : Refusal),
      call.step builder = .ok (answer, after) → refusalOf answer = some error →
      error.isGuard = true → after = builder) ∧
    (∀ error, builder.finishedBytes = .error error ↔
      error = .notFinished ∧ builder.finished = false) ∧
    (builder.finished = true → builder.openObject = .nothing) := by
  refine ⟨fun call answer after error => Call.still_of_guard, fun error => ?_, attainable.closed⟩
  cases finished : builder.finished with
  | true => simp [finishedBytes, finished]
  | false => simp [finishedBytes, finished, eq_comm]

theorem guards_first_of_open :
    ∃ (builder strings finishes : Builder) (first second : Answer), builder.Attainable ∧
      (Call.writeStrings ["a", "b"]).step builder = .ok (first, strings) ∧
      refusalOf first = some .objectOpen ∧ strings = builder ∧
      (Call.finish ⟨4⟩ (some "ABCDE") true).step builder = .ok (second, finishes) ∧
      refusalOf second = some (.badIdentifier 5) ∧ finishes = builder ∧
      builder.finishedBytes = .error .notFinished := by
  have evaluated : ((fun stage : Answer × Builder => (stage.2.finished,
      ((fun later => refusalOf later.1) <$>
        (Call.writeStrings ["a", "b"]).step stage.2).toOption,
      ((fun later => refusalOf later.1) <$>
        (Call.finish ⟨4⟩ (some "ABCDE") true).step stage.2).toOption)) <$>
          (Call.openTable 1).step (.ofOptions ⟨16, false⟩)).toOption =
      some (false, some (some .objectOpen), some (some (.badIdentifier 5))) := by decide +kernel
  obtain ⟨⟨answer, builder⟩, opened, shown⟩ := read_map.mp (ok_of_toOption evaluated)
  simp only [Prod.mk.injEq] at shown
  rcases shown with ⟨unfinished, strings, finishes⟩
  obtain ⟨⟨first, left⟩, stringsRan, busy⟩ := read_map.mp (ok_of_toOption strings)
  obtain ⟨⟨second, right⟩, finishRan, invalid⟩ := read_map.mp (ok_of_toOption finishes)
  have attainable : builder.Attainable := .step _ (.new ⟨16, false⟩) opened
  obtain ⟨still, shows, -⟩ := attainable.guards_first
  exact ⟨builder, left, right, first, second, attainable, stringsRan, busy,
    still _ _ _ _ stringsRan busy rfl, finishRan, invalid, still _ _ _ _ finishRan invalid rfl,
    (shows _).mpr ⟨rfl, unfinished⟩⟩

end WireTables
