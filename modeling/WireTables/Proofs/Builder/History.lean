import Mathlib.Data.List.Forall2
import WireTables.Proofs.Builder.Alike
import WireTables.Proofs.Builder.ClosedTable
import WireTables.Proofs.Builder.Finality

namespace WireTables

/-- A comparison that only looks at what is read through the tables, not at where they stand. -/
def Steady (compare : TableView → TableView → Except Fault Ordering) : Prop :=
  ∀ (front other : Bytes) (left right : TableView),
    compare (left.moved front) (right.moved front) = compare (left.moved other) (right.moved other)

theorem KeyField.steady (key : KeyField) : Steady key.orderTables := by
  intro front other left right
  rw [key.orderTables_moved, key.orderTables_moved]

section Sorting

variable {α : Type} {compare other : α → α → Except Fault Ordering}

theorem insertSorted_congr {item : α} {items : List α}
    (same : ∀ next ∈ items, compare item next = other item next) :
    insertSorted compare item items = insertSorted other item items := by
  induction items with
  | nil => rfl
  | cons last rest ih =>
      rw [List.forall_mem_cons] at same
      simp only [insertSorted, same.1, ih same.2]

theorem mem_of_insertSorted {item : α} {items sorted : List α}
    (inserted : insertSorted compare item items = .ok sorted) :
    ∀ found ∈ sorted, found = item ∨ found ∈ items := by
  induction items generalizing sorted with
  | nil =>
      cases inserted
      intro found member
      exact .inl (List.mem_singleton.mp member)
  | cons last rest ih =>
      rcases read_bind.mp inserted with ⟨order, compared, inserted⟩
      cases order with
      | lt =>
          rcases read_bind.mp inserted with ⟨later, insertedLater, same⟩
          cases same
          intro found member
          rcases List.mem_cons.mp member with rfl | member
          · exact .inr List.mem_cons_self
          · rcases ih insertedLater found member with same | member
            · exact .inl same
            · exact .inr (List.mem_cons_of_mem _ member)
      | eq =>
          cases inserted
          intro found member
          exact List.mem_cons.mp member
      | gt =>
          cases inserted
          intro found member
          exact List.mem_cons.mp member

theorem foldlM_insertSorted_congr {items sorted : List α} (known : α → Prop)
    (same : ∀ left right, known left → known right → compare left right = other left right)
    (knownItems : ∀ item ∈ items, known item) (knownSorted : ∀ item ∈ sorted, known item) :
    items.foldlM (fun sorted item => insertSorted compare item sorted) sorted =
      items.foldlM (fun sorted item => insertSorted other item sorted) sorted := by
  induction items generalizing sorted with
  | nil => rfl
  | cons item items ih =>
      rw [List.forall_mem_cons] at knownItems
      have first : insertSorted compare item sorted = insertSorted other item sorted :=
        insertSorted_congr fun next member => same item next knownItems.1 (knownSorted next member)
      rw [List.foldlM_cons, List.foldlM_cons, first]
      cases inserted : insertSorted other item sorted with
      | error cause => rfl
      | ok next =>
          apply ih knownItems.2
          intro found member
          rcases mem_of_insertSorted inserted found member with rfl | member
          · exact knownItems.1
          · exact knownSorted found member

theorem insertionSort_congr {items : List α}
    (same : ∀ left ∈ items, ∀ right ∈ items, compare left right = other left right) :
    insertionSort compare items = insertionSort other items := by
  simp only [insertionSort]
  rw [foldlM_insertSorted_congr (· ∈ items)
    (fun left right leftKnown rightKnown => same left leftKnown right rightKnown)
    (fun _ member => member) (fun _ member => absurd member List.not_mem_nil)]

end Sorting

namespace Builder

variable {before after left right : Builder} {table : Offset .table}

def Readable (builder : Builder) (table : Offset .table) : Prop :=
  table.value.toNat ≤ builder.storage.size ∧ ∃ view,
    TableView.load builder.storage.written (builder.storage.size - table.value.toNat) = .ok view

theorem readable_of_changes (changes : Changes before after) (readable : before.Readable table) :
    after.Readable table := by
  rcases readable with ⟨inside, view, loaded⟩
  obtain ⟨front, written⟩ := suffix_of_changes changes
  rw [before.storage.size_eq] at inside loaded
  rw [Readable, after.storage.size_eq, ← written]
  constructor
  · rw [List.length_append]
    exact Nat.le_add_left_of_le inside
  · rw [length_append_sub front inside]
    exact ⟨_, TableView.load_append_front front loaded⟩

theorem readable_of_closed {start table vtable : UInt32} {fields : List UInt32}
    (closed : Closed before after start fields table vtable)
    (small : after.storage.size ≤ maxBufferSize) : after.Readable ⟨table⟩ := by
  have stands := closed.stands small
  rw [Readable, after.storage.size_eq]
  exact ⟨stands.link.distance_le, _, stands.load⟩

theorem viewTable_of_load {builder : Builder} {view : TableView}
    (inside : table.value.toNat ≤ builder.storage.size)
    (loaded : TableView.load builder.storage.written
      (builder.storage.size - table.value.toNat) = .ok view) :
    builder.viewTable table = .ok (view.moved builder.storage.free.reverse) := by
  have place : builder.capacity - table.value.toNat =
      builder.storage.free.reverse.length + (builder.storage.size - table.value.toNat) := by
    rw [capacity, Storage.capacity, List.length_reverse, builder.storage.room_eq]
    omega
  rw [viewTable, Storage.contents, place]
  exact TableView.load_append_front _ loaded

theorem viewTable_of_readable (alike : Alike left right) (readable : left.Readable table) :
    ∃ view : TableView,
      left.viewTable table = .ok (view.moved left.storage.free.reverse) ∧
      right.viewTable table = .ok (view.moved right.storage.free.reverse) := by
  rcases readable with ⟨inside, view, loaded⟩
  refine ⟨view, viewTable_of_load inside loaded, ?_⟩
  rw [alike.size] at inside loaded
  rw [alike.written] at loaded
  exact viewTable_of_load inside loaded

end Builder

namespace Build

open Outcome (Both)

variable {left right : Builder}

theorem both_requireField (twins : Twins left right) {table : Offset .table}
    (readable : left.Readable table) (slot : Slot) :
    Both Alike (requireField table slot left) (requireField table slot right) := by
  have checked := both_of_still (blind_requireWritten table left right twins)
    (still_requireWritten table left) (still_requireWritten table right)
  refine both_bind ?_ checked ?_
  · rintro _ _ ⟨rfl, rfl⟩
    exact twins.toAlike
  · rintro _ _ _ ⟨rfl, rfl⟩
    obtain ⟨view, leftView, rightView⟩ := Builder.viewTable_of_readable twins.toAlike readable
    rw [state_bind, state_bind, leftView, rightView]
    change Both Alike ((ofRead ((view.moved _).has slot) >>= _) _)
      ((ofRead ((view.moved _).has slot) >>= _) _)
    rw [view.has_moved, view.has_moved]
    cases view.has slot with
    | error cause => exact .leftFault cause _
    | ok found =>
        cases found with
        | true => exact .done () twins.toAlike
        | false => exact .refused _ twins.toAlike

theorem sortTables_of_readable (alike : Alike left right)
    {compare : TableView → TableView → Except Fault Ordering} (steady : Steady compare)
    {tables : List (Offset .table)} (readable : ∀ table ∈ tables, left.Readable table) :
    insertionSort (fun first second => do
        compare (← left.viewTable first) (← left.viewTable second)) tables =
      insertionSort (fun first second => do
        compare (← right.viewTable first) (← right.viewTable second)) tables := by
  apply insertionSort_congr
  intro first firstMember second secondMember
  obtain ⟨firstView, leftFirst, rightFirst⟩ :=
    Builder.viewTable_of_readable alike (readable first firstMember)
  obtain ⟨secondView, leftSecond, rightSecond⟩ :=
    Builder.viewTable_of_readable alike (readable second secondMember)
  rw [leftFirst, leftSecond, rightFirst, rightSecond]
  exact steady _ _ firstView secondView

theorem both_writeSortedBy (twins : Twins left right)
    {compare : TableView → TableView → Except Fault Ordering} (steady : Steady compare)
    {tables : List (Offset .table)} (readable : ∀ table ∈ tables, left.Readable table) :
    Both Alike (writeSortedBy compare tables left) (writeSortedBy compare tables right) := by
  have checked := both_of_still
    (both_attempt (Blind.forM blind_requireWritten tables left right twins))
    (still_requireEachWritten tables left).attempt (still_requireEachWritten tables right).attempt
  refine both_bind ?_ checked ?_
  · rintro _ _ ⟨rfl, rfl⟩
    exact twins.toAlike
  · rintro left right result ⟨rfl, rfl⟩
    cases result with
    | error error => exact .done _ twins.toAlike
    | ok _ =>
        have same := sortTables_of_readable twins.toAlike steady readable
        change Both Alike ((ofRead (insertionSort _ tables) >>= _) left)
          ((ofRead (insertionSort _ tables) >>= _) right)
        rw [same]
        cases insertionSort _ tables with
        | error cause => exact .leftFault cause _
        | ok order =>
            change Both Alike ((attempt (writeReferences order) >>= _) left)
              ((attempt (writeReferences order) >>= _) right)
            refine both_bind Twins.toAlike
              (both_attempt (blind_writeReferences order left right twins)) fun vector twins => ?_
            exact .done _ twins.toAlike

end Build

namespace Call

open Build
open Outcome (Both)

variable {left right before after : Builder} {call : Call} {answer : Answer}

/-- The tables that the call reads back. -/
def tables : Call → List (Offset .table)
  | requireField table _ => [table]
  | writeSorted _ tables => tables
  | writeSortedBy _ tables => tables
  | _ => []

/-- If the call compares tables, it does so by what is read through them. -/
def ComparesSteadily : Call → Prop
  | writeSortedBy compare _ => Steady compare
  | _ => True

def tablesAfter (known : List (Offset .table)) : Call → Answer → List (Offset .table)
  | clear, _ => []
  | closeTable, .ok (.object table) => ⟨table⟩ :: known
  | _, _ => known

theorem both_run (twins : Twins left right) (steady : call.ComparesSteadily)
    (readable : ∀ table ∈ call.tables, left.Readable table) :
    Both Alike (call.run left) (call.run right) := by
  have blind {α : Type} {step : Build α} (reply : α → Reply) (step : Blind step) :
      Both Alike (replying reply _ left) (replying reply _ right) :=
    both_bind Twins.toAlike (step left right twins) fun value twins => .done _ twins.toAlike
  cases call with
  | clear =>
      refine both_replying (.done () ?_)
      refine ⟨?_, rfl, rfl, rfl, rfl, rfl, twins.forceDefaults⟩
      change left.storage.written.drop _ = right.storage.written.drop _
      rw [twins.written, twins.size]
  | forceDefaults force =>
      exact blind _ (Blind.update fun _ _ twins => { twins with forceDefaults := rfl })
  | prepare size additional => exact blind _ (blind_prepare size additional)
  | pad count => exact blind _ (blind_pad count)
  | put type value => exact blind _ (blind_put _)
  | add type value => exact blind _ (blind_addScalar type value)
  | addReference target => exact blind _ (blind_addReference target)
  | openTable fields => exact blind _ (blind_openTable fields)
  | storeScalar slot type value default => exact blind _ (blind_storeScalar slot type value default)
  | storeOptional slot type value => exact blind _ (blind_storeOptional slot type value)
  | storeReference slot target => exact blind _ (blind_storeReference slot target)
  | storeStruct slot target => exact blind _ (blind_storeStruct slot target)
  | closeTable => exact both_replying (both_closeTable twins)
  | requireField table slot =>
      exact both_replying (both_requireField twins (readable table List.mem_cons_self) slot)
  | openVector elementSize count alignment => exact blind _ (blind_openVector _ _ _)
  | openFilledVector elementSize count alignment filling =>
      exact blind _ (blind_openFilledVector _ _ _ _)
  | closeVector => exact blind _ blind_closeVector
  | writeScalars type items => exact blind _ (blind_writeScalars type items)
  | writeBytes bytes => exact blind _ (blind_writeBytes bytes)
  | writeReferences items => exact blind _ (blind_writeReferences items)
  | writeStrings texts => exact blind _ (blind_writeStrings texts)
  | writeSorted key tables => exact both_replying (both_writeSortedBy twins key.steady readable)
  | writeSortedBy compare tables => exact both_replying (both_writeSortedBy twins steady readable)
  | writeString text => exact blind _ (blind_writeByteString _)
  | writeByteString bytes => exact blind _ (blind_writeByteString bytes)
  | shareString text => exact blind _ (blind_shareString text)
  | finish root identifier sized => exact blind _ (blind_finish root identifier sized)

theorem alike_of_step (twins : Twins left right) (steady : call.ComparesSteadily)
    (readable : ∀ table ∈ call.tables, left.Readable table) {first second : Answer × Builder}
    (leftStep : call.step left = .ok first) (rightStep : call.step right = .ok second) :
    first.1 = second.1 ∧ Alike first.2 second.2 := by
  have both := both_run twins steady readable
  simp only [step] at leftStep rightStep
  generalize call.run left = leftOutcome at both leftStep
  generalize call.run right = rightOutcome at both rightStep
  cases both with
  | done value alike =>
      cases leftStep
      cases rightStep
      exact ⟨rfl, alike⟩
  | refused error alike =>
      cases leftStep
      cases rightStep
      exact ⟨rfl, alike⟩
  | leftFault cause _ => cases leftStep
  | rightFault _ cause => cases rightStep

theorem readable_of_step {known : List (Offset .table)} (sound : before.Sound)
    (readable : ∀ table ∈ known, before.Readable table)
    (stepped : call.step before = .ok (answer, after)) :
    ∀ table ∈ tablesAfter known call answer, after.Readable table := by
  by_cases cleared : call = .clear
  · subst cleared
    exact fun table member => absurd member List.not_mem_nil
  have changes := changes_of_step cleared sound stepped
  have kept : ∀ table ∈ known, after.Readable table := fun table member =>
    Builder.readable_of_changes changes (readable table member)
  cases call with
  | clear => exact absurd rfl cleared
  | closeTable =>
      cases answer with
      | error error => exact kept
      | ok reply =>
          obtain ⟨table, middle, closed, same⟩ := done_bind.mp (done_of_step stepped)
          cases same
          intro other member
          rcases List.mem_cons.mp member with rfl | member
          · obtain ⟨start, fields, vtable, closed⟩ :=
              closeTable_done sound.ordered closed
            exact Builder.readable_of_closed closed (Builder.size_le (closed.fits sound.fits))
          · exact kept other member
  | _ => exact kept

end Call

namespace Builder

variable {left right : Builder}

/-- Every call that reads tables back is given such as were closed before it, and not cleared away
since; `known` lists those that were closed before the first call. -/
def RefersBack (known : List (Offset .table)) : List Call → List (Answer × Builder) → Prop
  | call :: calls, stage :: stages =>
      (∀ table ∈ call.tables, table ∈ known) ∧
        RefersBack (call.tablesAfter known stage.1) calls stages
  | _, _ => True

instance decidableRefersBack : (known : List (Offset .table)) → (calls : List Call) →
    (stages : List (Answer × Builder)) → Decidable (RefersBack known calls stages)
  | known, call :: calls, stage :: stages =>
      have := decidableRefersBack (call.tablesAfter known stage.1) calls stages
      inferInstanceAs (Decidable (_ ∧ _))
  | _, [], _ => .isTrue trivial
  | _, _ :: _, [] => .isTrue trivial

def SameStage (left right : Answer × Builder) : Prop :=
  left.1 = right.1 ∧ Alike left.2 right.2

theorem alike_of_run {known : List (Offset .table)} {calls : List Call}
    {first second : List (Answer × Builder)} (alike : Alike left right) (leftSound : left.Sound)
    (rightSound : right.Sound) (readable : ∀ table ∈ known, left.Readable table)
    (steady : ∀ call ∈ calls, call.ComparesSteadily) (refers : RefersBack known calls first)
    (leftRan : left.run calls = .ok first) (rightRan : right.run calls = .ok second) :
    List.Forall₂ SameStage first second := by
  induction calls generalizing known left right first second with
  | nil =>
      cases leftRan
      cases rightRan
      exact .nil
  | cons call calls ih =>
      rw [List.forall_mem_cons] at steady
      rcases run_cons.mp leftRan with ⟨_, leftNext, _, leftStep, leftLater, rfl⟩
      rcases run_cons.mp rightRan with ⟨_, rightNext, _, rightStep, rightLater, rfl⟩
      rcases refers with ⟨referred, refersLater⟩
      have twins : Twins left right :=
        { alike with leftFits := leftSound.fits, rightFits := rightSound.fits }
      have stage := Call.alike_of_step twins steady.1
        (fun table member => readable table (referred table member)) leftStep rightStep
      refine .cons stage ?_
      exact ih stage.2 (sound_of_step leftSound leftStep) (sound_of_step rightSound rightStep)
        (Call.readable_of_step leftSound readable leftStep) steady.2 refersLater leftLater rightLater

theorem alike_clear {used : Builder} {options : BuilderOptions}
    (sameDefaults : options.forceDefaults = used.forceDefaults) :
    Alike used.clear (ofOptions options) where
  written := by
    change used.storage.written.drop used.storage.size = []
    rw [used.storage.size_eq, List.drop_length]
  alignment := rfl
  openObject := rfl
  vtables := rfl
  strings := rfl
  finished := rfl
  forceDefaults := sameDefaults.symm

end Builder

/-- A builder that was used and cleared answers every call as a new one does, whatever it was used
for and however large either of them is. The calls may clear it again. -/
theorem Builder.Reachable.run_of_clear {used : Builder} {options : BuilderOptions}
    {calls : List Call} {first second : List (Answer × Builder)} (reachable : used.Reachable)
    (fits : options.initialCapacity ≤ maxBufferSize)
    (sameDefaults : options.forceDefaults = used.forceDefaults)
    (steady : ∀ call ∈ calls, call.ComparesSteadily) (refers : RefersBack [] calls first)
    (usedRan : used.clear.run calls = .ok first)
    (newRan : (ofOptions options).run calls = .ok second) :
    List.Forall₂ (fun left right =>
      left.1 = right.1 ∧ left.2.head = right.2.head ∧
        left.2.vtables.length = right.2.vtables.length ∧ left.2.finished = right.2.finished ∧
          left.2.finishedBytes = right.2.finishedBytes) first second := by
  have stages := alike_of_run (alike_clear sameDefaults) (sound_clear reachable.sound)
    (sound_ofOptions fits) (fun _ member => absurd member List.not_mem_nil) steady refers usedRan
    newRan
  apply stages.imp
  intro left right stage
  rcases stage with ⟨answers, alike⟩
  exact ⟨answers, alike.head, congrArg List.length alike.vtables, alike.finished,
    alike.finishedBytes⟩

theorem run_of_clear_of_openTable :
    let calls : List Call := [.openTable 1, .storeScalar 4 .int32 (7 : Int32) 0, .closeTable,
      .requireField ⟨8⟩ 4, .writeSorted (.scalar .int32 4) [⟨8⟩, ⟨8⟩], .finish ⟨8⟩ none false]
    ∃ (used : Builder) (first second : List (Answer × Builder)), used.Reachable ∧
      used.openObject ≠ .nothing ∧ used.clear.run calls = .ok first ∧
      (Builder.ofOptions ⟨0, false⟩).run calls = .ok second ∧ first.length = 6 ∧
      List.Forall₂ (fun left right =>
        left.1 = right.1 ∧ left.2.head = right.2.head ∧
          left.2.vtables.length = right.2.vtables.length ∧ left.2.finished = right.2.finished ∧
            left.2.finishedBytes = right.2.finishedBytes) first second := by
  intro calls
  have evaluated : ((fun stage => (decide (stage.2.openObject ≠ .nothing), stage.2.forceDefaults,
      ((fun stages => (decide (Builder.RefersBack [] calls stages), stages.length)) <$>
        stage.2.clear.run calls).toOption)) <$>
      ((Call.writeByteString [255, 255, 255, 255]).step (.ofOptions ⟨64, false⟩) >>= fun stage =>
        (Call.openTable 2).step stage.2)).toOption = some (true, false, some (true, 6)) := by
    decide +kernel
  have new : (List.length <$> (Builder.ofOptions ⟨0, false⟩).run calls).toOption = some 6 := by
    decide +kernel
  obtain ⟨⟨answer, used⟩, made, shown⟩ := read_map.mp (ok_of_toOption evaluated)
  rcases read_bind.mp made with ⟨⟨_, early⟩, wrote, opened⟩
  simp only [Prod.mk.injEq] at shown
  rcases shown with ⟨left, unforced, ran⟩
  obtain ⟨first, usedRan, shown⟩ := read_map.mp (ok_of_toOption ran)
  obtain ⟨second, newRan, -⟩ := read_map.mp (ok_of_toOption new)
  simp only [Prod.mk.injEq] at shown
  have reachable : used.Reachable := .step _ (.step _ (.new ⟨64, false⟩ (by decide)) wrote) opened
  have steady : ∀ call ∈ calls, call.ComparesSteadily := by simp [calls, Call.ComparesSteadily]
  exact ⟨used, first, second, reachable, of_decide_eq_true left, usedRan, newRan, shown.2,
    reachable.run_of_clear (by decide)
      (show (⟨0, false⟩ : BuilderOptions).forceDefaults = used.forceDefaults from unforced.symm) steady
      (of_decide_eq_true shown.1) usedRan newRan⟩

end WireTables
