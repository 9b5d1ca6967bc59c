import WireTables.Proofs.Builder.Change

/-!
Two builders with different storages. They are alike when they have written the same bytes and agree
in all else that they keep; how large their storages are and what is left over in the free bytes may
differ. A step that goes the same way in both, as far as neither comes to a fault, is called blind.
-/

namespace WireTables

structure Alike (left right : Builder) : Prop where
  written : left.storage.written = right.storage.written
  alignment : left.alignment = right.alignment
  openObject : left.openObject = right.openObject
  vtables : left.vtables = right.vtables
  strings : left.strings = right.strings
  finished : left.finished = right.finished
  forceDefaults : left.forceDefaults = right.forceDefaults

/-- Builders that are alike and do not exceed the limit, so that both can grow up to it. -/
structure Twins (left right : Builder) : Prop extends Alike left right where
  leftFits : left.capacity ≤ maxBufferSize
  rightFits : right.capacity ≤ maxBufferSize

namespace Alike

variable {left right : Builder}

theorem size (alike : Alike left right) : left.storage.size = right.storage.size := by
  rw [left.storage.size_eq, right.storage.size_eq, alike.written]

theorem head (alike : Alike left right) : left.head = right.head := by
  rw [Builder.head, Builder.head, alike.size]

theorem finishedBytes (alike : Alike left right) : left.finishedBytes = right.finishedBytes := by
  rw [Builder.finishedBytes, Builder.finishedBytes, alike.finished, alike.written]

end Alike

/-- Both outcomes hand back the same, and leave builders that are related. Nothing is said of an
outcome beside a fault. -/
inductive Outcome.Both {α : Type} (relation : Builder → Builder → Prop) :
    Outcome α → Outcome α → Prop
  | done {left right : Builder} (value : α) (related : relation left right) :
      Both relation (.done value left) (.done value right)
  | refused {left right : Builder} (error : Refusal) (related : relation left right) :
      Both relation (.refused error left) (.refused error right)
  | leftFault (cause : Fault) (right : Outcome α) : Both relation (.fault cause) right
  | rightFault (left : Outcome α) (cause : Fault) : Both relation left (.fault cause)

namespace Build

open Outcome (Both)

variable {α β : Type} {step : Build α} {next : α → Build β} {left right : Builder}

section Both

variable {relation weaker : Builder → Builder → Prop}

theorem both_bind (weaken : ∀ {left right}, relation left right → weaker left right)
    (first : Both relation (step left) (step right))
    (second : ∀ {left right : Builder} (value : α), relation left right →
      Both weaker (next value left) (next value right)) :
    Both weaker ((step >>= next) left) ((step >>= next) right) := by
  rw [bind_apply, bind_apply]
  generalize step left = leftOutcome at first
  generalize step right = rightOutcome at first
  cases first with
  | done value related => exact second value related
  | refused error related => exact .refused error (weaken related)
  | leftFault cause _ => exact .leftFault cause _
  | rightFault _ cause => exact .rightFault _ cause

theorem both_of_still (both : Both relation (step left) (step right))
    (leftStill : Moves Eq step left) (rightStill : Moves Eq step right) :
    Both (fun first second => first = left ∧ second = right) (step left) (step right) := by
  generalize leftRan : step left = leftOutcome at both
  generalize rightRan : step right = rightOutcome at both
  cases both with
  | done value related =>
      exact .done value ⟨(leftStill.of_done leftRan).symm, (rightStill.of_done rightRan).symm⟩
  | refused error related =>
      exact .refused error ⟨(leftStill.of_refused leftRan).symm, (rightStill.of_refused rightRan).symm⟩
  | leftFault cause _ => exact .leftFault cause _
  | rightFault _ cause => exact .rightFault _ cause

theorem both_attempt (both : Both relation (step left) (step right)) :
    Both relation (attempt step left) (attempt step right) := by
  simp only [attempt]
  generalize step left = leftOutcome at both
  generalize step right = rightOutcome at both
  cases both with
  | done value related => exact .done (Except.ok value) related
  | refused error related => exact .done (Except.error error) related
  | leftFault cause _ => exact .leftFault cause _
  | rightFault _ cause => exact .rightFault _ cause

theorem both_replying {reply : α → Reply} (both : Both relation (step left) (step right)) :
    Both relation (replying reply step left) (replying reply step right) :=
  both_bind id both fun value related => .done (reply value) related

end Both

/-- The step goes the same way whatever the storage. -/
def Blind (step : Build α) : Prop :=
  ∀ left right : Builder, Twins left right → Both Twins (step left) (step right)

namespace Blind

theorem pure (value : α) : Blind (Pure.pure value) := fun _ _ twins => .done value twins

theorem refuse (error : Refusal) : Blind (Build.refuse error : Build α) :=
  fun _ _ twins => .refused error twins

theorem update {change : Builder → Builder}
    (keeps : ∀ left right, Twins left right → Twins (change left) (change right)) :
    Blind (Build.update change) := fun left right twins => .done () (keeps left right twins)

theorem bind (first : Blind step) (second : ∀ value, Blind (next value)) :
    Blind (step >>= next) :=
  fun left right twins => both_bind id (first left right twins) fun value => second value _ _

theorem head {next : UInt32 → Build β} (second : ∀ value, Blind (next value)) :
    Blind (Build.head >>= next) := by
  intro left right twins
  rw [head_bind, head_bind, twins.head]
  exact second _ left right twins

theorem forM {visit : α → Build PUnit} (each : ∀ item, Blind (visit item)) (items : List α) :
    Blind (items.forM visit) := by
  induction items with
  | nil => exact pure _
  | cons item items ih =>
      rw [List.forM_eq_forM, List.forM_cons]
      exact bind (each item) fun _ => ih

theorem mapM {visit : α → Build β} (each : ∀ item, Blind (visit item)) (items : List α) :
    Blind (items.mapM visit) := by
  induction items with
  | nil =>
      rw [List.mapM_nil]
      exact pure _
  | cons item items ih =>
      rw [List.mapM_cons]
      exact bind (each item) fun value => bind ih fun values => pure _

end Blind

theorem twins_of_storage (twins : Twins left right) {first second : Storage}
    (written : first.written = second.written) (firstFits : first.capacity ≤ maxBufferSize)
    (secondFits : second.capacity ≤ maxBufferSize) :
    Twins { left with storage := first } { right with storage := second } where
  written := written
  alignment := twins.alignment
  openObject := twins.openObject
  vtables := twins.vtables
  strings := twins.strings
  finished := twins.finished
  forceDefaults := twins.forceDefaults
  leftFits := firstFits
  rightFits := secondFits

theorem twins_of_openObject (twins : Twins left right) (object : OpenObject) :
    Twins { left with openObject := object } { right with openObject := object } :=
  { twins with openObject := rfl }

theorem makeRoom_of_le {needed : Nat} {builder : Builder} (fits : builder.capacity ≤ maxBufferSize)
    (small : builder.storage.size + needed ≤ maxBufferSize) :
    ∃ storage, makeRoom needed builder = .done () { builder with storage } ∧
      storage.written = builder.storage.written ∧ storage.capacity ≤ maxBufferSize := by
  rw [makeRoom_apply]
  split
  case isFalse => exact ⟨builder.storage, rfl, rfl, fits⟩
  case isTrue short =>
    have limit : maxBufferSize < addressLimit := by decide
    rw [if_neg (by omega)]
    obtain ⟨capacity, found⟩ := capacityFor_of_le small
    obtain ⟨-, bounded⟩ := capacityFor_ok found
    refine ⟨builder.storage.grow (capacity - builder.storage.capacity), by rw [found], rfl, ?_⟩
    have total : builder.capacity = builder.storage.room + builder.storage.size := rfl
    simp only [Storage.capacity, Storage.room_grow, Storage.size_grow]
    omega

theorem makeRoom_of_lt {needed : Nat} {builder : Builder} (fits : builder.capacity ≤ maxBufferSize)
    (large : maxBufferSize < builder.storage.size + needed) :
    makeRoom needed builder = .refused
      (if addressLimit ≤ builder.storage.size + needed then .capacity ⟨addressLimit - 1⟩
        else .capacity ⟨builder.storage.size + needed⟩) builder := by
  have total : builder.capacity = builder.storage.room + builder.storage.size := rfl
  rw [makeRoom_apply, if_pos (by omega), capacityFor_of_lt large]
  split <;> rfl

theorem blind_makeRoom (needed : Nat) : Blind (makeRoom needed) := by
  intro left right twins
  by_cases small : left.storage.size + needed ≤ maxBufferSize
  · obtain ⟨first, leftRan, leftWritten, leftFits⟩ := makeRoom_of_le twins.leftFits small
    rw [twins.size] at small
    obtain ⟨second, rightRan, rightWritten, rightFits⟩ := makeRoom_of_le twins.rightFits small
    rw [leftRan, rightRan]
    refine .done () (twins_of_storage twins ?_ leftFits rightFits)
    rw [leftWritten, rightWritten, twins.written]
  · have large := Nat.lt_of_not_le small
    rw [makeRoom_of_lt twins.leftFits large]
    rw [twins.size] at large ⊢
    rw [makeRoom_of_lt twins.rightFits large]
    exact .refused _ twins

theorem twins_push (twins : Twins left right) {bytes : Bytes}
    (leftRoom : ¬ left.storage.room < bytes.length)
    (rightRoom : ¬ right.storage.room < bytes.length) :
    Twins { left with storage := left.storage.push bytes }
      { right with storage := right.storage.push bytes } := by
  apply twins_of_storage twins
  · rw [Storage.written_push, Storage.written_push, twins.written]
  · rw [Storage.capacity_push (Nat.le_of_not_lt leftRoom)]
    exact twins.leftFits
  · rw [Storage.capacity_push (Nat.le_of_not_lt rightRoom)]
    exact twins.rightFits

theorem blind_put (bytes : Bytes) : Blind (put bytes) := by
  intro left right twins
  simp only [put]
  split
  case isTrue => exact .leftFault _ _
  case isFalse leftRoom =>
    split
    case isTrue => exact .rightFault _ _
    case isFalse rightRoom => exact .done () (twins_push twins leftRoom rightRoom)

theorem blind_pad (count : Nat) : Blind (pad count) := by
  intro left right twins
  simp only [pad]
  split
  case isTrue => exact .leftFault _ _
  case isFalse leftRoom =>
    split
    case isTrue => exact .rightFault _ _
    case isFalse rightRoom =>
      rw [← length_zeros count] at leftRoom rightRoom
      exact .done () (twins_push twins leftRoom rightRoom)

theorem blind_requireUnfinished : Blind requireUnfinished := by
  intro left right twins
  rw [requireUnfinished_apply, requireUnfinished_apply, twins.finished]
  split
  case isTrue => exact .refused _ twins
  case isFalse => exact .done () twins

theorem blind_requireNothingOpen : Blind requireNothingOpen := by
  intro left right twins
  rw [requireNothingOpen_apply, requireNothingOpen_apply, twins.finished, twins.openObject]
  split
  case isTrue => exact .refused _ twins
  case isFalse =>
    split
    case isTrue => exact .refused _ twins
    case isFalse => exact .done () twins

theorem blind_requireWritten {kind : Kind} (offset : Offset kind) :
    Blind (requireWritten offset) := by
  apply Blind.head
  intro head
  split
  case isTrue => exact Blind.refuse _
  case isFalse => exact Blind.pure _

theorem blind_prepare (size additional : Nat) : Blind (prepare size additional) := by
  intro left right twins
  rw [prepare_apply, prepare_apply, twins.size, twins.alignment, twins.finished]
  have raised : Twins { left with alignment := max right.alignment size, finished := right.finished }
      { right with alignment := max right.alignment size } :=
    { twins with alignment := rfl, finished := rfl }
  split
  case isFalse => exact .leftFault _ _
  case isTrue =>
    split
    case isTrue => exact .refused _ twins
    case isFalse =>
      dsimp only
      split
      case isTrue => exact .refused _ raised
      case isFalse =>
        split
        case isTrue => exact Blind.bind (blind_makeRoom _) (fun _ => blind_pad _) _ _ raised
        case isFalse => exact .leftFault _ _

theorem blind_addScalar (type : ScalarType) (value : type.Value) : Blind (addScalar type value) :=
  Blind.bind (blind_prepare _ _) fun _ => blind_put _

theorem blind_addReference {kind : Kind} (target : Offset kind) : Blind (addReference target) := by
  refine Blind.bind (blind_prepare _ _) fun _ => Blind.head fun head => ?_
  split
  case isTrue => exact Blind.refuse _
  case isFalse => exact blind_put _

theorem blind_openTable (count : Nat) : Blind (openTable count) := by
  refine Blind.bind blind_requireNothingOpen fun _ => Blind.update fun left right twins => ?_
  rw [twins.head]
  exact twins_of_openObject twins _

theorem blind_openField (slot : Slot) : Blind (openField slot) := by
  intro left right twins
  rw [openField_apply, openField_apply, twins.openObject]
  split
  case h_1 start fields opened =>
    split
    case h_1 index place =>
      split
      case isTrue => exact .done index twins
      case isFalse => exact .refused _ twins
    case h_2 => exact .refused _ twins
  case h_2 => exact .refused _ twins

theorem blind_recordField (index : Nat) : Blind (recordField index) := by
  apply Blind.update
  intro left right twins
  rw [twins.openObject, twins.head]
  split
  case h_1 => exact twins_of_openObject twins _
  case h_2 => exact twins

theorem blind_storeScalar (slot : Slot) (type : ScalarType) (value default : type.Value) :
    Blind (storeScalar slot type value default) := by
  apply Blind.bind (blind_openField slot)
  intro index left right twins
  rw [state_bind, state_bind, twins.forceDefaults]
  split
  case isTrue => exact .done () twins
  case isFalse =>
    exact Blind.bind (blind_addScalar type value) (fun _ => blind_recordField index) _ _ twins

theorem blind_storeOptional (slot : Slot) (type : ScalarType) (value : Option type.Value) :
    Blind (storeOptional slot type value) := by
  apply Blind.bind (blind_openField slot)
  intro index
  cases value with
  | none => exact Blind.pure ()
  | some value => exact Blind.bind (blind_addScalar type value) fun _ => blind_recordField index

theorem blind_storeReference {kind : Kind} (slot : Slot) (target : Offset kind) :
    Blind (storeReference slot target) :=
  Blind.bind (blind_openField slot) fun index =>
    Blind.bind (blind_addReference target) fun _ => blind_recordField index

theorem blind_storeStruct {kind : Kind} (slot : Slot) (target : Offset kind) :
    Blind (storeStruct slot target) := by
  refine Blind.bind (blind_openField slot) fun index => Blind.head fun head => ?_
  split
  case isTrue => exact Blind.refuse _
  case isFalse => exact blind_recordField index

theorem blind_addEntry (entry : Nat) : Blind (addEntry entry) := by
  simp only [addEntry]
  split
  case isTrue => exact Blind.refuse _
  case isFalse => exact blind_addScalar _ _

theorem blind_addVTable (table start : UInt32) (fields : List UInt32) :
    Blind (addVTable table start fields) :=
  Blind.bind (Blind.forM (fun _ => blind_addEntry _) _) fun _ =>
    Blind.bind (blind_addEntry _) fun _ => blind_addEntry _

theorem written_patch {first second : Storage} (written : first.written = second.written)
    (distance : Nat) (bytes : Bytes) :
    (first.patch distance bytes).written = (second.patch distance bytes).written := by
  change overwrite first.written (first.size - distance) bytes =
    overwrite second.written (second.size - distance) bytes
  rw [first.size_eq, second.size_eq, written]

theorem both_shareVTable (size : Nat) (table : UInt32) (twins : Twins left right) :
    Both Alike (shareVTable size table left) (shareVTable size table right) := by
  have suffix (distance : Nat) : left.storage.suffix distance = right.storage.suffix distance := by
    rw [Storage.suffix, Storage.suffix, twins.written, twins.size]
  rw [shareVTable_apply, shareVTable_apply, twins.vtables, twins.written]
  simp only [suffix]
  split
  case h_1 vtable found =>
    refine .done () { twins with written := written_patch ?_ _ _, vtables := rfl }
    change left.storage.written.drop _ = right.storage.written.drop _
    rw [twins.written, twins.size]
  case h_2 =>
    rw [twins.head]
    exact .done () { twins with written := written_patch twins.written _ _, vtables := rfl }

theorem both_closeTable (twins : Twins left right) :
    Both Alike (closeTable left) (closeTable right) := by
  rw [closeTable_apply, closeTable_apply, twins.openObject]
  split
  case h_2 => exact .refused _ twins.toAlike
  case h_1 start fields opened =>
    refine both_bind Twins.toAlike (blind_addScalar .int32 0 _ _ twins) fun _ twins => ?_
    rw [head_bind, head_bind, twins.head]
    refine both_bind Twins.toAlike (blind_addVTable _ start fields _ _ twins) fun _ twins => ?_
    refine both_bind id (both_shareVTable _ _ twins) fun _ alike => ?_
    exact .done _ { alike with openObject := rfl }

theorem blind_openVector (elementSize count alignment : Nat) :
    Blind (openVector elementSize count alignment) := by
  apply Blind.bind blind_requireNothingOpen
  intro _
  dsimp only
  split
  case isTrue => exact Blind.refuse _
  case isFalse =>
    refine Blind.bind (blind_prepare _ _) fun _ => Blind.bind (blind_prepare _ _) fun _ => ?_
    exact Blind.update fun left right twins => twins_of_openObject twins _

theorem blind_closeVector {element : Kind} : Blind (@closeVector element) := by
  intro left right twins
  rw [closeVector_apply, closeVector_apply, twins.openObject]
  split
  case h_2 => exact .refused _ twins
  case h_1 count opened =>
    split
    case isFalse => exact .leftFault _ _
    case isTrue =>
      refine Blind.bind (blind_put _) (fun _ => ?_) left right twins
      refine Blind.bind (Blind.update fun _ _ twins => twins_of_openObject twins _) fun _ => ?_
      exact Blind.head fun head => Blind.pure _

theorem blind_openFilledVector (elementSize count alignment : Nat) (filling : Bytes) :
    Blind (openFilledVector elementSize count alignment filling) :=
  Blind.bind (blind_openVector _ _ _) fun _ => Blind.bind (blind_put _) fun _ => Blind.pure _

theorem blind_writeScalars (type : ScalarType) (items : List type.Value) :
    Blind (writeScalars type items) :=
  Blind.bind (blind_openVector _ _ _) fun _ => Blind.bind (blind_put _) fun _ => blind_closeVector

theorem blind_writeBytes (bytes : Bytes) : Blind (writeBytes bytes) := by
  rw [writeBytes_eq_writeScalars]
  exact blind_writeScalars .uint8 bytes

theorem blind_writeReferences {kind : Kind} (items : List (Offset kind)) :
    Blind (writeReferences items) :=
  Blind.bind (blind_openVector _ _ _) fun _ =>
    Blind.bind (Blind.forM blind_addReference _) fun _ => blind_closeVector

theorem blind_writeByteString (bytes : Bytes) : Blind (writeByteString bytes) :=
  Blind.bind blind_requireNothingOpen fun _ => Blind.bind (blind_addScalar _ _) fun _ =>
    Blind.bind (blind_writeBytes bytes) fun _ => Blind.pure _

theorem blind_writeStrings (texts : List String) : Blind (writeStrings texts) :=
  Blind.bind (Blind.mapM (fun _ => blind_writeByteString _) texts) fun items =>
    blind_writeReferences items

theorem blind_shareString (text : String) : Blind (shareString text) := by
  apply Blind.bind blind_requireUnfinished
  intro _ left right twins
  rw [state_bind, state_bind, twins.strings]
  cases right.strings.lookup (encodeText text) with
  | some offset => exact .done offset twins
  | none =>
      refine Blind.bind (blind_writeByteString _) (fun offset => ?_) left right twins
      refine Blind.bind (Blind.update fun left right twins => ?_) fun _ => Blind.pure offset
      exact { twins with strings := congrArg (List.cons (encodeText text, offset)) twins.strings }

theorem blind_addTrailer (root : Offset .table) (mark : Bytes) (sized : Bool) :
    Blind (addTrailer root mark sized) := by
  intro left right twins
  simp only [addTrailer]
  rw [state_bind, state_bind, twins.alignment]
  refine Blind.bind (blind_prepare _ _) (fun _ => ?_) left right twins
  refine Blind.bind (blind_put _) fun _ => Blind.bind (blind_addReference root) fun _ => ?_
  cases sized with
  | true => exact Blind.head fun head => blind_put _
  | false => exact Blind.pure ()

theorem blind_finish (root : Offset .table) (identifier : Option String) (sized : Bool) :
    Blind (finish root identifier sized) := by
  intro left right twins
  rw [finish_apply, finish_apply]
  split
  case h_1 => exact .refused _ twins
  case h_2 =>
    refine Blind.bind blind_requireNothingOpen (fun _ => ?_) left right twins
    refine Blind.bind (blind_addTrailer root _ sized) fun _ => Blind.update fun left right twins => ?_
    exact { twins with finished := rfl }

end Build

end WireTables
