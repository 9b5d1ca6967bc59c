import WireTables.Proofs.Builder.Object
import WireTables.Proofs.Builder.VTables

/-!
Room. Padding and putting fault where room runs out, and do not ask for any. A step that writes more
than once asks once for all of it: for what it announces and for one word of the alignment in front
of that, which is where the length of a vector or the size of a buffer comes to stand.
-/

namespace WireTables

/-- Padding to a multiple of `alignment`, a word of it and `payload` bytes behind that can be
counted together. -/
def Addressable (alignment payload : Nat) : Prop :=
  2 * max alignment referenceWidth + payload ≤ addressLimit

theorem Addressable.narrower {narrow wide payload : Nat} (below : narrow ≤ max wide referenceWidth)
    (small : Addressable wide payload) : Addressable narrow payload := by
  unfold Addressable at *
  omega

theorem ScalarType.addressable (type : ScalarType) : Addressable type.width 0 :=
  have whole : Addressable 8 0 := by
    unfold Addressable
    decide
  whole.narrower (Nat.le_trans type.width_le (Nat.le_max_left _ _))

namespace Build

variable {α β : Type} {step : Build α} {next : α → Build β} {builder before after : Builder}
  {countable : Prop}

/-- The step is no fault of this builder, unless it asks for more than can be counted. -/
def Safe (countable : Prop) (step : Build α) (builder : Builder) : Prop :=
  ∀ cause, step builder = .fault cause → cause = .sumPastAddresses ∧ ¬countable

namespace Safe

theorem of_pure (value : α) : Safe countable (pure value : Build α) builder := nofun

theorem of_refuse (error : Refusal) : Safe countable (refuse error : Build α) builder := nofun

theorem of_update (change : Builder → Builder) : Safe countable (update change) builder := nofun

theorem state_bind {next : Builder → Build β} (safe : Safe countable (next builder) builder) :
    Safe countable (Build.state >>= next) builder := safe

theorem head_bind {next : UInt32 → Build β} (safe : Safe countable (next builder.head) builder) :
    Safe countable (Build.head >>= next) builder := safe

theorem bind (first : Safe countable step builder)
    (second : ∀ value middle, step builder = .done value middle →
      Safe countable (next value) middle) : Safe countable (step >>= next) builder := by
  intro cause ran
  rw [bind_apply] at ran
  cases early : step builder with
  | done value middle =>
      rw [early] at ran
      exact second value middle early cause ran
  | refused error middle =>
      rw [early] at ran
      cases ran
  | fault earlier =>
      rw [early] at ran
      cases ran
      exact first cause early

theorem forM {visit : α → Build PUnit} (each : ∀ item builder, Safe countable (visit item) builder)
    (items : List α) (builder : Builder) : Safe countable (items.forM visit) builder := by
  induction items generalizing builder with
  | nil => exact of_pure _
  | cons item items ih =>
      rw [List.forM_eq_forM, List.forM_cons]
      exact bind (each item builder) fun _ middle _ => ih middle

theorem mapM {visit : α → Build β} {items : List α} {keeps : Builder → Prop}
    (each : ∀ item ∈ items, ∀ builder, keeps builder → Safe countable (visit item) builder)
    (still : ∀ item value before after, keeps before → visit item before = .done value after →
      keeps after) (kept : keeps builder) : Safe countable (items.mapM visit) builder := by
  induction items generalizing builder with
  | nil =>
      rw [List.mapM_nil]
      exact of_pure _
  | cons item items ih =>
      rw [List.forall_mem_cons] at each
      rw [List.mapM_cons]
      exact bind (each.1 builder kept) fun value middle ran =>
        bind (ih each.2 (still item value builder middle kept ran)) fun _ _ _ => of_pure _

theorem answers {call : Call} (safe : Safe countable call.run builder) :
    (∃ answer after, call.step builder = .ok (answer, after)) ∨
      call.step builder = .error .sumPastAddresses ∧ ¬countable := by
  simp only [Call.step]
  cases ran : call.run builder with
  | done reply after => exact .inl ⟨.ok reply, after, rfl⟩
  | refused error after => exact .inl ⟨.error error, after, rfl⟩
  | fault cause =>
      obtain ⟨rfl, large⟩ := safe cause ran
      exact .inr ⟨rfl, large⟩

theorem answers_always {call : Call} (safe : Safe True call.run builder) :
    ∃ answer after, call.step builder = .ok (answer, after) :=
  safe.answers.resolve_right fun large => large.2 trivial

end Safe

theorem safe_put {bytes : Bytes} (enough : bytes.length ≤ builder.storage.room) :
    Safe countable (put bytes) builder := by
  intro cause faulted
  rw [put, if_neg (Nat.not_lt.mpr enough)] at faulted
  cases faulted

theorem safe_pad {count : Nat} (enough : count ≤ builder.storage.room) :
    Safe countable (pad count) builder := by
  intro cause faulted
  rw [pad, if_neg (Nat.not_lt.mpr enough)] at faulted
  cases faulted

theorem safe_makeRoom (needed : Nat) (builder : Builder) : Safe countable (makeRoom needed) builder := by
  intro cause
  rw [makeRoom_apply]
  split
  case isFalse => exact nofun
  case isTrue =>
    split
    case isTrue => exact nofun
    case isFalse => cases capacityFor (builder.storage.size + needed) <;> exact nofun

theorem safe_requireUnfinished (builder : Builder) : Safe countable requireUnfinished builder := by
  intro cause
  rw [requireUnfinished_apply]
  split <;> exact nofun

theorem safe_requireNothingOpen (builder : Builder) : Safe countable requireNothingOpen builder := by
  intro cause
  rw [requireNothingOpen_apply]
  split
  case isTrue => exact nofun
  case isFalse => split <;> exact nofun

theorem safe_prepare {size additional : Nat} (regular : size.isPowerOfTwo)
    (small : countable → Addressable size additional) (builder : Builder) :
    Safe countable (prepare size additional) builder := by
  have below : paddingTo size (builder.storage.size + additional) < size :=
    Nat.mod_lt _ (Nat.pos_of_isPowerOfTwo regular)
  intro cause ran
  rw [prepare_apply, if_pos regular] at ran
  split at ran
  case isTrue => cases ran
  case isFalse =>
    dsimp only at ran
    split at ran
    case isTrue => cases ran
    case isFalse =>
      split at ran
      case isTrue =>
        refine Safe.bind (safe_makeRoom _ _) (fun _ last roomy => ?_) cause ran
        have enough := (makeRoom_done roomy).2.1
        exact safe_pad (by omega)
      case isFalse large =>
        cases ran
        exact ⟨rfl, fun asked => large (by
          have counted := small asked
          unfold Addressable at counted
          omega)⟩

theorem prepare_small {size additional : Nat} (fits : before.capacity ≤ maxBufferSize)
    (ran : prepare size additional before = .done () after) : size + additional ≤ maxBufferSize := by
  have total := (prepare_done ran).2.fits fits
  have enough := prepare_room ran
  simp only [Builder.capacity, Storage.capacity] at total
  omega

theorem safe_addScalar (type : ScalarType) (value : type.Value) (builder : Builder) :
    Safe countable (addScalar type value) builder := by
  apply Safe.bind (safe_prepare type.isPowerOfTwo_width (fun _ => type.addressable) builder)
  intro _ middle prepared
  apply safe_put
  rw [ScalarType.length_encode]
  exact prepare_room prepared

theorem safe_addReference {kind : Kind} (target : Offset kind) (builder : Builder) :
    Safe countable (addReference target) builder := by
  apply Safe.bind (safe_prepare ⟨2, rfl⟩ (fun _ => ScalarType.uint32.addressable) builder)
  intro _ middle prepared
  apply Safe.head_bind
  split
  case isTrue => exact .of_refuse _
  case isFalse =>
    apply safe_put
    rw [ScalarType.length_encode]
    exact prepare_room prepared

section Tables

theorem safe_openField (slot : Slot) (builder : Builder) : Safe countable (openField slot) builder := by
  intro cause
  rw [openField_apply]
  split
  case h_2 => exact nofun
  case h_1 =>
    split
    case h_2 => exact nofun
    case h_1 => split <;> exact nofun

theorem safe_openField_bind {slot : Slot} {next : Nat → Build Unit}
    (each : ∀ index, Safe countable (next index) builder) :
    Safe countable (openField slot >>= next) builder := by
  apply Safe.bind (safe_openField slot builder)
  intro index middle ran
  obtain rfl := (still_openField slot builder).of_done ran
  exact each index

theorem safe_record {write : Build Unit} (safe : Safe countable write builder) (index : Nat) :
    Safe countable (write >>= fun _ => recordField index) builder :=
  safe.bind fun _ _ _ => .of_update _

theorem safe_openTable (fields : Nat) (builder : Builder) : Safe countable (openTable fields) builder :=
  (safe_requireNothingOpen builder).bind fun _ _ _ => .of_update _

theorem safe_storeScalar (slot : Slot) (type : ScalarType) (value default : type.Value)
    (builder : Builder) : Safe countable (storeScalar slot type value default) builder := by
  apply safe_openField_bind
  intro index
  apply Safe.state_bind
  split
  case isTrue => exact .of_pure ()
  case isFalse => exact safe_record (safe_addScalar type value builder) index

theorem safe_storeOptional (slot : Slot) (type : ScalarType) (value : Option type.Value)
    (builder : Builder) : Safe countable (storeOptional slot type value) builder := by
  apply safe_openField_bind
  intro index
  cases value with
  | none => exact .of_pure ()
  | some value => exact safe_record (safe_addScalar type value builder) index

theorem safe_storeReference {kind : Kind} (slot : Slot) (target : Offset kind)
    (builder : Builder) : Safe countable (storeReference slot target) builder :=
  safe_openField_bind fun index => safe_record (safe_addReference target builder) index

theorem safe_storeStruct {kind : Kind} (slot : Slot) (target : Offset kind) (builder : Builder) :
    Safe countable (storeStruct slot target) builder := by
  apply safe_openField_bind
  intro index
  apply Safe.head_bind
  split
  case isTrue => exact .of_refuse _
  case isFalse => exact .of_update _

theorem safe_addEntry (entry : Nat) (builder : Builder) : Safe countable (addEntry entry) builder := by
  simp only [addEntry]
  split
  case isTrue => exact .of_refuse _
  case isFalse => exact safe_addScalar _ _ builder

theorem safe_addVTable (table start : UInt32) (fields : List UInt32) (builder : Builder) :
    Safe countable (addVTable table start fields) builder := by
  apply Safe.bind (Safe.forM (fun _ => safe_addEntry _) _ builder)
  intro _ middle _
  exact (safe_addEntry _ middle).bind fun _ last _ => safe_addEntry _ last

theorem safe_shareVTable (size : Nat) (table : UInt32) (builder : Builder) :
    Safe countable (shareVTable size table) builder := by
  intro cause
  rw [shareVTable_apply]
  split <;> exact nofun

theorem safe_closeTable (builder : Builder) : Safe countable closeTable builder := by
  rw [Safe, closeTable_apply]
  split
  case h_2 => exact nofun
  case h_1 start fields _ =>
    apply Safe.bind (safe_addScalar _ _ builder)
    intro _ blank _
    apply Safe.head_bind
    apply Safe.bind (safe_addVTable _ start fields blank)
    intro _ last _
    apply Safe.bind (safe_shareVTable _ _ last)
    intro _ linked _
    exact (Safe.of_update _).bind fun _ _ _ => .of_pure _

end Tables

section Vectors

variable {elementSize count alignment : Nat}

theorem safe_openVector (regular : alignment.isPowerOfTwo)
    (small : countable → Addressable alignment (elementSize * count)) (builder : Builder) :
    Safe countable (openVector elementSize count alignment) builder := by
  apply Safe.bind (safe_requireNothingOpen builder)
  intro _ second _
  dsimp only
  split
  case isTrue => exact .of_refuse _
  case isFalse =>
    have word (asked : countable) : Addressable referenceWidth (elementSize * count) :=
      (small asked).narrower (Nat.le_max_right _ _)
    apply Safe.bind (safe_prepare ⟨2, rfl⟩ word second)
    intro _ third _
    apply Safe.bind (safe_prepare regular small third)
    exact fun _ _ _ => .of_update _

theorem openVector_room
    (ran : openVector elementSize count alignment before = .done () after) :
    referenceWidth + elementSize * count ≤ after.storage.room := by
  obtain ⟨second, third, -, first, last, rfl⟩ := openVector_steps ran
  change _ ≤ third.storage.room
  have wide := prepare_room last
  rcases Nat.le_total alignment referenceWidth with narrow | broad
  · have enough := prepare_room first
    have left := (prepare_done last).2.room_le
    rw [paddingTo_of_narrow (prepare_regular last) narrow first, length_zeros] at left
    omega
  · omega

theorem openVector_count (positive : 0 < elementSize) (fits : before.capacity ≤ maxBufferSize)
    (ran : openVector elementSize count alignment before = .done () after) :
    count ≤ maxBufferSize := by
  obtain ⟨-, openFits, -⟩ := openVector_done fits ran
  have enough := openVector_room ran
  have total : after.storage.room ≤ maxBufferSize :=
    Nat.le_trans (Nat.le_add_right _ after.storage.size) openFits
  have least : count ≤ elementSize * count := Nat.le_mul_of_pos_left count positive
  omega

theorem safe_closeVector {element : Kind} (enough : referenceWidth ≤ builder.storage.room)
    (counted : ∀ count, builder.openObject = .vector count → count ≤ maxBufferSize) :
    Safe countable (@closeVector element) builder := by
  rw [Safe, closeVector_apply]
  split
  case h_2 => exact nofun
  case h_1 count isOpen =>
    rw [if_pos (counted count isOpen)]
    apply Safe.bind (safe_put (by rwa [ScalarType.length_encode]))
    intro _ middle _
    apply Safe.bind (.of_update _)
    exact fun _ _ _ => Safe.head_bind (.of_pure _)

theorem safe_closeVector_of_pushed {element : Kind} {front : Bytes} (positive : 0 < elementSize)
    (fits : before.capacity ≤ maxBufferSize)
    (opens : openVector elementSize count alignment before = .done () builder)
    (pushed : Pushed builder after front) (within : front.length ≤ elementSize * count) :
    Safe countable (@closeVector element) after := by
  have enough := openVector_room opens
  have left := pushed.room_le
  apply safe_closeVector (by omega)
  intro found isOpen
  rw [pushed.openObject, (openVector_done fits opens).1] at isOpen
  cases isOpen
  exact openVector_count positive fits opens

theorem safe_openFilledVector (regular : alignment.isPowerOfTwo)
    (small : countable → Addressable alignment (elementSize * count)) (filling : Bytes)
    (builder : Builder) :
    Safe countable (openFilledVector elementSize count alignment filling) builder := by
  apply Safe.bind (safe_openVector regular small builder)
  intro _ opened opens
  obtain ⟨second, third, -, -, last, rfl⟩ := openVector_steps opens
  have enough := prepare_room last
  refine Safe.bind (safe_put ?_) fun _ _ _ => .of_pure _
  change _ ≤ third.storage.room
  rw [length_laid, length_zeros]
  omega

theorem safe_writeScalars {type : ScalarType} {items : List type.Value}
    (small : countable → Addressable type.width (type.width * items.length))
    (fits : builder.capacity ≤ maxBufferSize) : Safe countable (writeScalars type items) builder := by
  apply Safe.bind (safe_openVector type.isPowerOfTwo_width small builder)
  intro _ opened opens
  have enough := openVector_room opens
  have length : (items.flatMap type.encode).length = type.width * items.length := by
    rw [length_flatMap_of_width type.length_encode, Nat.mul_comm]
  apply Safe.bind (safe_put (by omega))
  intro _ full fills
  exact safe_closeVector_of_pushed type.width_pos fits opens (put_done fills).1
    (Nat.le_of_eq length)

theorem safe_writeBytes {bytes : Bytes} (small : countable → Addressable 1 bytes.length)
    (fits : builder.capacity ≤ maxBufferSize) : Safe countable (writeBytes bytes) builder := by
  have counted (asked : countable) : Addressable ScalarType.uint8.width
      (ScalarType.uint8.width * bytes.length) := by
    rw [ScalarType.width, Nat.one_mul]
    exact small asked
  rw [writeBytes_eq_writeScalars]
  exact safe_writeScalars counted fits

theorem safe_writeByteString {bytes : Bytes} (small : countable → Addressable 1 bytes.length)
    (fits : builder.capacity ≤ maxBufferSize) : Safe countable (writeByteString bytes) builder := by
  apply Safe.bind (safe_requireNothingOpen builder)
  intro _ second closed
  obtain ⟨rfl, -, -⟩ := requireNothingOpen_done closed
  apply Safe.bind (safe_addScalar _ _ second)
  intro _ third ends
  have thirdFits := (addScalar_done ends).2.fits fits
  exact (safe_writeBytes small thirdFits).bind fun _ _ _ => .of_pure _

theorem safe_writeReferences {kind : Kind} {items : List (Offset kind)}
    (small : countable → Addressable referenceWidth (referenceWidth * items.length))
    (fits : builder.capacity ≤ maxBufferSize) : Safe countable (writeReferences items) builder := by
  apply Safe.bind (safe_openVector ⟨2, rfl⟩ small builder)
  intro _ opened opens
  obtain ⟨-, openFits, -, -⟩ := openVector_done fits opens
  apply Safe.bind (Safe.forM safe_addReference _ opened)
  intro _ full fills
  obtain ⟨⟨front, pushed, length⟩, -⟩ :=
    addReferences_done openFits (openVector_references fits opens) fills
  have whole := length.trans (Nat.mul_comm _ _)
  exact safe_closeVector_of_pushed (by decide) fits opens pushed (Nat.le_of_eq whole)

theorem fits_of_writeString (text : String) (string : Offset .string) (before after : Builder)
    (fits : before.capacity ≤ maxBufferSize) (ran : writeString text before = .done string after) :
    after.capacity ≤ maxBufferSize :=
  have changes : Changes before after :=
    (changes_allow.of_writeByteString (encodeText text) before).of_done ran
  Builder.fits_of_changes fits changes

theorem safe_writeStrings {texts : List String}
    (small : ∀ text ∈ texts, countable → Addressable 1 (encodeText text).length)
    (listed : countable → Addressable referenceWidth (referenceWidth * texts.length))
    (fits : builder.capacity ≤ maxBufferSize) : Safe countable (writeStrings texts) builder := by
  apply Safe.bind (Safe.mapM (fun text member _ fits => safe_writeByteString (small text member) fits)
    fits_of_writeString fits)
  intro items middle wrote
  obtain ⟨length, middleFits⟩ := holds_of_mapM fits_of_writeString fits wrote
  exact safe_writeReferences (length ▸ listed) middleFits

theorem safe_shareString {text : String} (small : countable → Addressable 1 (encodeText text).length)
    (fits : builder.capacity ≤ maxBufferSize) : Safe countable (shareString text) builder := by
  apply Safe.bind (safe_requireUnfinished builder)
  intro _ second required
  obtain rfl := (still_requireUnfinished builder).of_done required
  apply Safe.state_bind
  cases builder.strings.lookup (encodeText text) with
  | some offset => exact .of_pure _
  | none =>
      apply Safe.bind (safe_writeByteString small fits)
      intro offset last _
      exact (Safe.of_update _).bind fun _ _ _ => .of_pure _

end Vectors

theorem safe_addTrailer {mark : Bytes} (power : builder.alignment.isPowerOfTwo)
    (short : mark.length ≤ identifierLength)
    (small : countable → Addressable builder.alignment (3 * referenceWidth)) (root : Offset .table)
    (sized : Bool) : Safe countable (addTrailer root mark sized) builder := by
  have counted (asked : countable) : Addressable (max builder.alignment referenceWidth)
      (referenceWidth + mark.length + if sized then referenceWidth else 0) := by
    have whole := small asked
    simp only [Addressable, referenceWidth, identifierLength] at *
    cases sized <;> simp only [if_true, Bool.false_eq_true, if_false] <;> omega
  apply Safe.state_bind
  have wide : (max builder.alignment referenceWidth).isPowerOfTwo := isPowerOfTwo_max power ⟨2, rfl⟩
  apply Safe.bind (safe_prepare wide counted builder)
  intro _ second prepares
  have enough := prepare_room prepares
  have least : referenceWidth ≤ max builder.alignment referenceWidth := Nat.le_max_right _ _
  apply Safe.bind (safe_put (by omega))
  intro _ third marks
  have afterMark := (put_done marks).1.room_le
  apply Safe.bind (safe_addReference root third)
  intro _ last refers
  cases sized with
  | false => exact .of_pure ()
  | true =>
      obtain ⟨padded, -, padding, -, reference⟩ := addReference_done refers
      have afterPadding := padding.room_le
      have afterReference := reference.room_le
      have short : paddingTo referenceWidth third.storage.size < referenceWidth :=
        Nat.mod_lt _ (by decide)
      rw [length_zeros] at afterPadding
      rw [ScalarType.length_encode] at afterReference
      have word : ScalarType.uint32.width = referenceWidth := rfl
      apply Safe.head_bind
      apply safe_put
      rw [ScalarType.length_encode]
      simp only [if_true] at enough
      omega

theorem safe_finish (power : builder.alignment.isPowerOfTwo)
    (small : countable → Addressable builder.alignment (3 * referenceWidth)) (root : Offset .table)
    (identifier : Option String) (sized : Bool) :
    Safe countable (finish root identifier sized) builder := by
  rw [Safe, finish_apply]
  split
  case h_1 => exact nofun
  case h_2 valid =>
    apply Safe.bind (safe_requireNothingOpen builder)
    intro _ second required
    obtain ⟨rfl, -, -⟩ := requireNothingOpen_done required
    apply Safe.bind (safe_addTrailer power (length_mark_le valid) small root sized)
    exact fun _ _ _ => .of_update _

theorem safe_replying {reply : α → Reply} (safe : Safe countable step builder) :
    Safe countable (replying reply step) builder :=
  safe.bind fun _ _ _ => .of_pure _

end Build

open Build

namespace Call

/-- The calls that make room for all that they write. -/
def MakesRoom : Call → Prop
  | pad _ => False
  | put _ _ => False
  | requireField _ _ => False
  | closeVector => False
  | writeSorted _ _ => False
  | writeSortedBy _ _ => False
  | _ => True

/-- The alignments that the call asks for are powers of two. -/
def Regular : Call → Prop
  | prepare size _ => size.isPowerOfTwo
  | openVector _ _ alignment => alignment.isPowerOfTwo
  | openFilledVector _ _ alignment _ => alignment.isPowerOfTwo
  | _ => True

/-- What the call asks room for, with the padding, can be counted. -/
def Countable (builder : Builder) : Call → Prop
  | prepare size additional => Addressable size additional
  | openVector elementSize count alignment => Addressable alignment (elementSize * count)
  | openFilledVector elementSize count alignment _ => Addressable alignment (elementSize * count)
  | writeScalars type items => Addressable type.width (type.width * items.length)
  | writeBytes bytes => Addressable 1 bytes.length
  | writeReferences items => Addressable referenceWidth (referenceWidth * items.length)
  | writeStrings texts => (∀ text ∈ texts, Addressable 1 (encodeText text).length) ∧
      Addressable referenceWidth (referenceWidth * texts.length)
  | writeString text => Addressable 1 (encodeText text).length
  | writeByteString bytes => Addressable 1 bytes.length
  | shareString text => Addressable 1 (encodeText text).length
  | finish _ _ _ => Addressable builder.alignment (3 * referenceWidth)
  | _ => True

theorem safe_run {call : Call} {builder : Builder} (makes : call.MakesRoom)
    (regular : call.Regular) (sound : builder.Sound) :
    Safe (call.Countable builder) call.run builder := by
  cases call with
  | pad | put | requireField | closeVector | writeSorted | writeSortedBy => exact makes.elim
  | clear => exact safe_replying (.of_update _)
  | forceDefaults force => exact safe_replying (.of_update _)
  | prepare size additional => exact safe_replying (safe_prepare regular id builder)
  | add type value => exact safe_replying (safe_addScalar type value builder)
  | addReference target => exact safe_replying (safe_addReference target builder)
  | openTable fields => exact safe_replying (safe_openTable fields builder)
  | storeScalar slot type value default =>
      exact safe_replying (safe_storeScalar slot type value default builder)
  | storeOptional slot type value =>
      exact safe_replying (safe_storeOptional slot type value builder)
  | storeReference slot target => exact safe_replying (safe_storeReference slot target builder)
  | storeStruct slot target => exact safe_replying (safe_storeStruct slot target builder)
  | closeTable => exact safe_replying (safe_closeTable builder)
  | openVector elementSize count alignment =>
      exact safe_replying (safe_openVector regular id builder)
  | openFilledVector elementSize count alignment filling =>
      exact safe_replying (safe_openFilledVector regular id filling builder)
  | writeScalars type items => exact safe_replying (safe_writeScalars id sound.fits)
  | writeBytes bytes => exact safe_replying (safe_writeBytes id sound.fits)
  | writeReferences items => exact safe_replying (safe_writeReferences id sound.fits)
  | writeStrings texts =>
      exact safe_replying (safe_writeStrings (fun text member small => small.1 text member) And.right
        sound.fits)
  | writeString text => exact safe_replying (safe_writeByteString id sound.fits)
  | writeByteString bytes => exact safe_replying (safe_writeByteString id sound.fits)
  | shareString text => exact safe_replying (safe_shareString id sound.fits)
  | finish root identifier sized =>
      exact safe_replying (safe_finish sound.power id root identifier sized)

end Call

/-- What closing a table takes out of the storage once the vtable is written is there: the new
vtable at the head, each earlier one, and the word that will lead from the table to its vtable. No
distance within the table wraps around. -/
structure ClosesInRange (start : UInt32) (fields : List UInt32) (table : UInt32) (last : Builder) :
    Prop where
  started : start ≤ table
  stored : ∀ location ∈ fields, location ≤ table
  candidate : slice last.storage.contents last.storage.room (vtableWidth fields) =
    .ok (vtableBytes table start fields)
  cached : ∀ vtable ∈ last.vtables, vtable.toNat ≤ last.capacity ∧
    ∃ block, (vtableAt last.storage.contents vtable).bytes = .ok block
  link : ∃ word, slice last.storage.contents (last.capacity - table.toNat) referenceWidth = .ok word

namespace Builder

variable {before after opened builder : Builder}

theorem capacity_le_of_changes (changes : Changes before after) :
    before.capacity ≤ after.capacity := by
  induction changes with
  | refl => exact Nat.le_refl _
  | tail _ change ih =>
      apply Nat.le_trans ih
      rcases change.pushes_or_closed with
        ⟨front, pushed⟩ | ⟨start, fields, table, vtable, closed, -⟩ | ⟨same, -, -⟩
      · exact pushed.capacity
      · exact closed.capacity
      · exact Nat.le_of_eq (congrArg Storage.capacity same.symm)

/-- Whatever calls come next, the vector can be closed as long as they write so many bytes at most,
and its count is one that a buffer can hold. -/
def ClosableWithin (opened : Builder) (budget : Nat) : Prop :=
  ∀ later : Builder, opened.Follows later → later.storage.size ≤ opened.storage.size + budget →
    (∀ count, later.openObject = .vector count → count ≤ maxBufferSize) →
      ∃ answer after, Call.closeVector.step later = .ok (answer, after)

theorem closableWithin_of_room {budget : Nat} (sound : opened.Sound)
    (enough : referenceWidth + budget ≤ opened.storage.room) : opened.ClosableWithin budget := by
  intro later follows within counted
  have grown := capacity_le_of_changes (follows.changes sound)
  have room : referenceWidth ≤ later.storage.room := by
    simp only [Builder.capacity, Storage.capacity] at grown
    omega
  exact Safe.answers_always (safe_replying (safe_closeVector room counted))

theorem closesInRange {start : UInt32} {fields : List UInt32} {blank last : Builder}
    {records : List TableRecord} (keeps : KeepsVTables builder records)
    (isOpen : builder.openObject = .table start fields)
    (blanks : addScalar .int32 0 builder = .done () blank)
    (writes : addVTable blank.head start fields blank = .done () last) :
    ClosesInRange start fields blank.head last := by
  have sound := keeps.sound
  obtain ⟨-, blankPushed, place, -, aligned⟩ := addBlank_done sound.ordered.small blanks
  obtain ⟨started, stored⟩ := sound.opened start fields isOpen
  have longer : builder.storage.size ≤ blank.head.toNat := by omega
  obtain ⟨-, -, -, vtablePushed⟩ :=
    addVTable_done (Nat.le_trans started longer)
      (fun location member => Nat.le_trans (stored location member) longer) aligned writes
  have pushed := blankPushed.trans vtablePushed
  have blankFits := blankPushed.fits sound.fits
  have headed := toNat_head blankFits
  have size := vtablePushed.size
  rw [length_vtableBytes] at size
  have whole := last.storage.length_contents
  have suffix : builder.storage.written <:+ last.storage.contents :=
    List.IsSuffix.trans ⟨_, pushed.written.symm⟩ (List.suffix_append _ _)
  exact {
    started := UInt32.le_iff_toNat_le.mpr (Nat.le_trans started longer)
    stored := fun location member =>
      UInt32.le_iff_toNat_le.mpr (Nat.le_trans (stored location member) longer)
    candidate := by
      have stands : StandsAt last.storage.contents _ _ :=
        vtablePushed.stands.of_suffix (List.suffix_append _ _)
      have found := stands.slice_eq
      rw [length_vtableBytes, whole, Storage.capacity, Nat.add_sub_cancel] at found
      exact found
    cached := fun vtable member => by
      rw [pushed.vtables] at member
      have below := sound.vtables vtable member
      obtain ⟨record, known, stands⟩ := keeps.used vtable member
      refine ⟨?_, _, (keeps.exact record known).bytes_at (stands.of_suffix suffix)⟩
      simp only [Builder.capacity, Storage.capacity]
      omega
    link := by
      refine ⟨_, slice_ok ?_⟩
      rw [whole]
      simp only [Builder.capacity, Storage.capacity]
      omega }

end Builder

/-- Whatever calls led to a builder, refused or not: every call that makes room for what it writes
is answered, unless what it asks for cannot be counted; what closing a table takes out of the
storage is there; a vector that was opened counts no more elements than fit into a buffer, and it
can be closed as long as no more bytes are written than were announced for it. -/
theorem Builder.Reachable.room_suffices {builder : Builder} (reachable : builder.Reachable) :
    (∀ call : Call, call.MakesRoom → call.Regular →
      (∃ answer after, call.step builder = .ok (answer, after)) ∨
        call.step builder = .error .sumPastAddresses ∧ ¬call.Countable builder) ∧
    (∀ (start : UInt32) (fields : List UInt32) (blank last : Builder),
      builder.openObject = .table start fields → addScalar .int32 0 builder = .done () blank →
        addVTable blank.head start fields blank = .done () last →
          ClosesInRange start fields blank.head last) ∧
    ∀ (elementSize count alignment : Nat) (reply : Reply) (opened : Builder),
      ((Call.openVector elementSize count alignment).step builder = .ok (.ok reply, opened) →
        (0 < elementSize → count ≤ maxBufferSize) ∧
          opened.ClosableWithin (elementSize * count)) ∧
      ∀ filling, (Call.openFilledVector elementSize count alignment filling).step builder =
        .ok (.ok reply, opened) →
          (0 < elementSize → count ≤ maxBufferSize) ∧ opened.ClosableWithin 0 := by
  have sound := reachable.sound
  obtain ⟨records, recorded⟩ := reachable.recorded
  refine ⟨fun call makes regular => Safe.answers (Call.safe_run makes regular sound), ?_, ?_⟩
  · intro start fields blank last isOpen blanks writes
    exact closesInRange recorded.keepsVTables isOpen blanks writes
  · intro elementSize count alignment reply opened
    constructor
    · intro stepped
      have openedSound := sound_of_step sound stepped
      rcases done_bind.mp (Call.done_of_step stepped) with ⟨_, _, opens, same⟩
      cases same
      exact ⟨fun positive => openVector_count positive sound.fits opens,
        closableWithin_of_room openedSound (openVector_room opens)⟩
    · intro filling stepped
      have openedSound := sound_of_step sound stepped
      rcases done_bind.mp (Call.done_of_step stepped) with ⟨blank, _, filled, same⟩
      cases same
      obtain ⟨empty, laid, opens, pushed, length⟩ := openFilledVector_steps filled
      have enough := openVector_room opens
      have left := pushed.room_le
      exact ⟨fun positive => openVector_count positive sound.fits opens,
        closableWithin_of_room openedSound (by omega)⟩

theorem room_suffices_of_new :
    let builder := Builder.ofOptions ⟨0, false⟩
    let elements : List Call := [.put .uint16 (1 : UInt16), .put .uint16 (2 : UInt16),
      .put .uint16 (3 : UInt16)]
    (∃ answer after, (Call.finish ⟨0⟩ (some "FLAT") true).step builder = .ok (answer, after)) ∧
    ∃ (answer : Answer) (opened : Builder) (stages : List (Answer × Builder)),
      (Call.openVector 2 3 2).step builder = .ok (answer, opened) ∧
      opened.run elements = .ok stages ∧ stages.length = 3 ∧
      ∀ stage ∈ stages, ∃ answer after, Call.closeVector.step stage.2 = .ok (answer, after) := by
  intro builder elements
  have evaluated : ((fun stage => (stage.1.toOption.isSome, stage.2.storage.size,
      ((fun stages => (stages.length, stages.all fun stage =>
        decide (stage.2.storage.size ≤ 8 ∧ stage.2.openObject = .vector 3))) <$>
          stage.2.run elements).toOption)) <$>
          (Call.openVector 2 3 2).step builder).toOption = some (true, 2, some (3, true)) := by
    decide +kernel
  obtain ⟨⟨answer, opened⟩, opens, shown⟩ := read_map.mp (ok_of_toOption evaluated)
  simp only [Prod.mk.injEq] at shown
  rcases shown with ⟨answered, size, ranAll⟩
  obtain ⟨stages, ran, shown⟩ := read_map.mp (ok_of_toOption ranAll)
  simp only [Prod.mk.injEq, List.all_eq_true, decide_eq_true_eq] at shown
  have reachable : builder.Reachable := .new ⟨0, false⟩ (by decide)
  obtain ⟨answers, -, vectors⟩ := reachable.room_suffices
  have finishes := (answers (.finish ⟨0⟩ (some "FLAT") true) trivial trivial).resolve_right
    fun large => large.2 (by
      simp only [Call.Countable, Addressable]
      decide)
  refine ⟨finishes, answer, opened, stages, opens, ran, shown.1, ?_⟩
  cases answer with
  | error error => cases answered
  | ok reply =>
      obtain ⟨-, closable⟩ := (vectors 2 3 2 reply opened).1 opens
      intro stage member
      have follows : opened.Follows stage.2 := ⟨elements, stages, by simp [elements], ran,
        List.mem_cons_of_mem _ (List.mem_map_of_mem member)⟩
      obtain ⟨small, isOpen⟩ := shown.2 stage member
      refine closable stage.2 follows (by rwa [size]) fun count found => ?_
      cases isOpen.symm.trans found
      decide

end WireTables
