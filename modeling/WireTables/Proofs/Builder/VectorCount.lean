import WireTables.Proofs.Builder.Finality
import WireTables.Proofs.Builder.Object

namespace WireTables

open Build

def Call.Sized : Call → Prop
  | openVector elementSize _ _ => 0 < elementSize
  | openFilledVector elementSize _ _ _ => 0 < elementSize
  | _ => True

structure Builder.Counted (builder : Builder) : Prop where
  sound : builder.Sound
  vector : ∀ count, builder.openObject = .vector count → count ≤ maxBufferSize

def KeepsCount (before after : Builder) : Prop := before.Counted → after.Counted

section Keeping

variable {before after : Builder}

theorem keepsCount_of_changes (changes : Changes before after)
    (object : after.openObject = before.openObject ∨
      ∀ count, after.openObject ≠ .vector count) : KeepsCount before after := by
  intro counted
  refine ⟨Builder.sound_of_changes counted.sound changes, fun count opened => ?_⟩
  rcases object with same | none
  · exact counted.vector count (same ▸ opened)
  · exact absurd opened (none count)

theorem keepsCount_allows : AllowsFields KeepsCount where
  refl _ := id
  trans early late counted := late (early counted)
  pushed pushes := by
    exact keepsCount_of_changes (.single (.pushed pushes)) (.inl pushes.openObject)
  recorded index opened inside :=
    keepsCount_of_changes (.single (.recorded index opened inside)) (.inr nofun)

end Keeping

namespace Build

variable {builder : Builder}

theorem keepsCount_idle {α : Type} {next : Unit → Build α}
    (each : builder.finished = false → builder.openObject = .nothing →
      Moves KeepsCount (next ()) builder) :
    Moves KeepsCount (requireNothingOpen >>= next) builder := by
  apply keepsCount_allows.of_bind
    (keepsCount_allows.of_still (still_requireNothingOpen builder))
  intro _ middle ran
  obtain ⟨rfl, unfinished, closed⟩ := requireNothingOpen_done ran
  exact each unfinished closed

theorem keepsCount_openVector {elementSize count alignment : Nat} (positive : 0 < elementSize)
    (builder : Builder) : Moves KeepsCount (openVector elementSize count alignment) builder := by
  apply keepsCount_idle
  intro unfinished closed
  dsimp only
  split
  case isTrue => exact Moves.of_refuse id _
  case isFalse =>
    apply keepsCount_allows.of_bind
      (keepsCount_allows.of_pushes (moves_prepare _ _ _))
    intro _ second first
    apply keepsCount_allows.of_bind (keepsCount_allows.of_pushes (moves_prepare _ _ _))
    intro _ third last
    have room := prepare_room first
    obtain ⟨_, firstPushed⟩ := prepare_done first
    obtain ⟨_, lastPushed⟩ := prepare_done last
    have pushed := firstPushed.trans lastPushed
    have opens : Changes third { third with openObject := .vector count } :=
      .single (.vectorOpened count (pushed.finished.trans unfinished)
        (pushed.openObject.trans closed))
    refine Moves.of_update fun counted => ⟨Builder.sound_of_changes counted.sound opens, ?_⟩
    · rintro _ ⟨⟩
      have grown := lastPushed.capacity
      have fits := counted.sound.fits
      have least : count ≤ elementSize * count := Nat.le_mul_of_pos_left count positive
      simp only [Builder.capacity, Storage.capacity] at grown fits
      omega

theorem keepsCount_closeVector {element : Kind} (builder : Builder) :
    Moves KeepsCount (@closeVector element) builder := by
  intro after left
  have changes : Changes builder after := changes_allow.of_closeVector builder after left
  rw [closeVector_apply] at left
  split at left
  case h_2 =>
    cases left
    exact id
  case h_1 count opened =>
    split at left
    case isFalse => cases left
    case isTrue =>
      rcases leaves_bind left with ⟨error, ran⟩ | ⟨_, middle, ran, left⟩
      · exact absurd ran put_not_refused
      · cases left
        exact keepsCount_of_changes changes (.inr nofun)

theorem keepsCount_openFilledVector {elementSize : Nat} (positive : 0 < elementSize)
    (count alignment : Nat) (filling : Bytes) (builder : Builder) :
    Moves KeepsCount (openFilledVector elementSize count alignment filling) builder := by
  apply keepsCount_allows.of_bind (keepsCount_openVector positive builder)
  intro _ middle _
  apply keepsCount_allows.of_bind (keepsCount_allows.of_pushes (moves_put _ middle))
  exact fun _ last _ => Moves.of_pure id _

theorem keepsCount_writeScalars (type : ScalarType) (items : List type.Value) (builder : Builder) :
    Moves KeepsCount (writeScalars type items) builder := by
  apply keepsCount_allows.of_bind (keepsCount_openVector
    (Nat.pos_of_isPowerOfTwo type.isPowerOfTwo_width) builder)
  intro _ middle _
  apply keepsCount_allows.of_bind (keepsCount_allows.of_pushes (moves_put _ middle))
  exact fun _ last _ => keepsCount_closeVector last

theorem keepsCount_writeReferences {kind : Kind} (items : List (Offset kind)) (builder : Builder) :
    Moves KeepsCount (writeReferences items) builder := by
  apply keepsCount_allows.of_bind (keepsCount_openVector (by decide) builder)
  intro _ middle _
  have added : Moves KeepsCount _ _ := Moves.forM keepsCount_allows.refl keepsCount_allows.trans
    (fun (item : Offset kind) builder => keepsCount_allows.of_pushes (moves_addReference item builder))
    items.reverse middle
  exact keepsCount_allows.of_bind added fun _ last _ => keepsCount_closeVector last

theorem keepsCount_writeByteString (bytes : Bytes) (builder : Builder) :
    Moves KeepsCount (writeByteString bytes) builder := by
  apply keepsCount_idle
  intro _ _
  apply keepsCount_allows.of_bind (keepsCount_allows.of_pushes (moves_addScalar _ _ builder))
  intro _ middle _
  rw [writeBytes_eq_writeScalars]
  apply keepsCount_allows.of_bind (keepsCount_writeScalars _ _ middle)
  exact fun _ last _ => Moves.of_pure id _

theorem keepsCount_writeStrings (texts : List String) (builder : Builder) :
    Moves KeepsCount (writeStrings texts) builder := by
  have written : Moves KeepsCount _ _ := Moves.mapM keepsCount_allows.refl keepsCount_allows.trans
    (fun text builder => keepsCount_writeByteString (encodeText text) builder) texts builder
  exact keepsCount_allows.of_bind written fun items middle _ =>
    keepsCount_writeReferences items middle

theorem keepsCount_shareString (text : String) (builder : Builder) :
    Moves KeepsCount (shareString text) builder := by
  apply keepsCount_allows.of_bind
    (keepsCount_allows.of_still (still_requireUnfinished builder))
  intro _ middle _
  apply Moves.state_bind
  cases middle.strings.lookup (encodeText text) with
  | some offset => exact Moves.of_pure id _
  | none =>
      apply keepsCount_allows.of_bind (keepsCount_writeByteString _ middle)
      intro offset last _ after left
      cases left
      exact keepsCount_of_changes (.single (.shared _ offset)) (.inl rfl)

theorem keepsCount_openTable (fields : Nat) (builder : Builder) :
    Moves KeepsCount (openTable fields) builder := by
  apply keepsCount_idle
  intro unfinished closed
  exact Moves.of_update (keepsCount_of_changes (.single (.tableOpened fields unfinished closed))
    (.inr nofun))

theorem keepsCount_closeTable (builder : Builder) : Moves KeepsCount closeTable builder := by
  apply Moves.of_endings
  · intro table after ran counted
    have ordered := counted.sound.ordered
    obtain ⟨start, fields, vtable, closed⟩ := closeTable_done ordered ran
    refine keepsCount_of_changes (.single (.tableClosed closed trivial)) (.inr ?_) counted
    rw [closed.openObject]
    nofun
  · intro error after ran
    exact keepsCount_allows.pushed (closeTable_refused ran)

theorem keepsCount_finish (root : Offset .table) (identifier : Option String) (sized : Bool)
    (builder : Builder) : Moves KeepsCount (finish root identifier sized) builder := by
  rw [Moves, finish_apply]
  split
  case h_1 => exact Moves.of_refuse id _
  case h_2 =>
    apply keepsCount_idle
    intro unfinished closed
    have moves : Moves Pushes _ builder :=
      moves_addTrailer root ((identifier.map encodeText).getD []) sized builder
    apply keepsCount_allows.of_bind (keepsCount_allows.of_pushes moves)
    intro _ last ran
    obtain ⟨front, pushed⟩ := moves.of_done ran
    exact Moves.of_update (keepsCount_of_changes (.single (.finished
      (pushed.finished.trans unfinished) (pushed.openObject.trans closed))) (.inl rfl))

end Build

theorem Builder.Counted.clear {builder : Builder} (counted : builder.Counted) :
    builder.clear.Counted :=
  ⟨Builder.sound_clear counted.sound, fun _ opened => nomatch opened⟩

theorem keepsCount_run {call : Call} (wide : call.Sized) (builder : Builder) :
    Moves KeepsCount call.run builder := by
  have allows := keepsCount_allows
  cases call with
  | clear => exact allows.of_replying (Moves.of_update Builder.Counted.clear)
  | forceDefaults force =>
      exact allows.of_replying (Moves.of_update
        (keepsCount_of_changes (.single (.forced force)) (.inl rfl)))
  | prepare size additional =>
      exact allows.of_replying (allows.of_pushes (moves_prepare size additional builder))
  | pad count => exact allows.of_replying (allows.of_pushes (moves_pad count builder))
  | put type value => exact allows.of_replying (allows.of_pushes (moves_put _ builder))
  | add type value =>
      exact allows.of_replying (allows.of_pushes (moves_addScalar type value builder))
  | addReference target =>
      exact allows.of_replying (allows.of_pushes (moves_addReference target builder))
  | openTable fields => exact allows.of_replying (keepsCount_openTable fields builder)
  | storeScalar slot type value default =>
      exact allows.of_replying (allows.of_storeScalar slot type value default builder)
  | storeOptional slot type value =>
      exact allows.of_replying (allows.of_storeOptional slot type value builder)
  | storeReference slot target =>
      exact allows.of_replying (allows.of_storeReference slot target builder)
  | storeStruct slot target =>
      exact allows.of_replying (allows.of_storeStruct slot target builder)
  | closeTable => exact allows.of_replying (keepsCount_closeTable builder)
  | requireField table slot =>
      exact allows.of_replying (allows.of_still (still_requireField table slot builder))
  | openVector elementSize count alignment =>
      exact allows.of_replying (keepsCount_openVector wide builder)
  | openFilledVector elementSize count alignment filling =>
      exact allows.of_replying (keepsCount_openFilledVector wide count alignment filling builder)
  | closeVector => exact allows.of_replying (keepsCount_closeVector builder)
  | writeScalars type items => exact allows.of_replying (keepsCount_writeScalars type items builder)
  | writeBytes bytes =>
      rw [Call.run, writeBytes_eq_writeScalars]
      exact allows.of_replying (keepsCount_writeScalars .uint8 bytes builder)
  | writeReferences items => exact allows.of_replying (keepsCount_writeReferences items builder)
  | writeStrings texts => exact allows.of_replying (keepsCount_writeStrings texts builder)
  | writeSorted key tables =>
      exact allows.of_replying (moves_writeSortedBy (allows.refl builder) key.orderTables tables
        fun order => keepsCount_writeReferences order builder)
  | writeSortedBy compare tables =>
      exact allows.of_replying (moves_writeSortedBy (allows.refl builder) compare tables
        fun order => keepsCount_writeReferences order builder)
  | writeString text => exact allows.of_replying (keepsCount_writeByteString _ builder)
  | writeByteString bytes => exact allows.of_replying (keepsCount_writeByteString bytes builder)
  | shareString text => exact allows.of_replying (keepsCount_shareString text builder)
  | finish root identifier sized =>
      exact allows.of_replying (keepsCount_finish root identifier sized builder)

/-- The builders that calls lead to whose vectors have elements that take room. -/
inductive Builder.ReachableSized : Builder → Prop
  | new (options : BuilderOptions) (fits : options.initialCapacity ≤ maxBufferSize) :
      ReachableSized (.ofOptions options)
  | step {builder after : Builder} {answer : Answer} (call : Call) (wide : call.Sized)
      (before : ReachableSized builder) (stepped : call.step builder = .ok (answer, after)) :
      ReachableSized after

theorem Builder.ReachableSized.counted {builder : Builder} (reachable : builder.ReachableSized) :
    builder.Counted := by
  induction reachable with
  | new options fits => exact ⟨Builder.sound_ofOptions fits, fun _ opened => nomatch opened⟩
  | step call wide _ stepped ih =>
      exact keepsCount_run wide _ _ (Call.leaves_of_step stepped) ih

theorem Builder.ReachableSized.lastOf {builder : Builder} {calls : List Call}
    {stages : List (Answer × Builder)} (reachable : builder.ReachableSized)
    (wide : ∀ call ∈ calls, call.Sized) (ran : builder.run calls = .ok stages) :
    (builder.lastOf stages).ReachableSized := by
  induction calls generalizing builder stages with
  | nil =>
      cases ran
      exact reachable
  | cons call calls ih =>
      rcases Builder.run_cons.mp ran with ⟨answer, after, later, stepped, ranLater, rfl⟩
      rw [List.forall_mem_cons] at wide
      have last := ih (.step call wide.1 reachable stepped) wide.2 ranLater
      exact last

end WireTables
