import WireTables.Proofs.Builder.Finality

/-!
How many fields a table is opened with. Fields that are never stored leave no trace: the ones behind
the last stored field are left out of the vtable, so a table comes out the same however many of them
it was opened with. Two builders whose open tables only differ in such fields are followed through
the same additions.
-/

namespace WireTables

def Builder.withOpen (builder : Builder) (object : OpenObject) : Builder :=
  { builder with openObject := object }

def Outcome.withOpen {α : Type} (object : OpenObject) : Outcome α → Outcome α
  | .done value after => .done value (after.withOpen object)
  | .refused error after => .refused error (after.withOpen object)
  | .fault cause => .fault cause

/-- Both outcomes are faults, or refusals, or hand back the same value, and leave related builders.
-/
inductive Outcome.Along {α : Type} (relation : Builder → Builder → Prop) :
    Outcome α → Outcome α → Prop
  | done {left right : Builder} (value : α) (related : relation left right) :
      Along relation (.done value left) (.done value right)
  | refused {left right : Builder} (error other : Refusal) (related : relation left right) :
      Along relation (.refused error left) (.refused other right)
  | fault (cause : Fault) : Along relation (.fault cause) (.fault cause)

namespace Build

open Outcome (Along)

variable {α β : Type} {step : Build α} {next : α → Build β}

/-- The step does not look at the object that is open, and leaves it as it is. -/
def Regardless (step : Build α) : Prop :=
  ∀ (builder : Builder) (object : OpenObject),
    step (builder.withOpen object) = (step builder).withOpen object

namespace Regardless

theorem pure (value : α) : Regardless (Pure.pure value) := fun _ _ => rfl

theorem refuse (error : Refusal) : Regardless (Build.refuse error : Build α) := fun _ _ => rfl

theorem bind (first : Regardless step) (second : ∀ value, Regardless (next value)) :
    Regardless (step >>= next) := by
  intro builder object
  rw [bind_apply, bind_apply, first]
  cases step builder with
  | done value middle => exact second value middle object
  | refused error middle => rfl
  | fault cause => rfl

theorem head {next : UInt32 → Build β} (second : ∀ value, Regardless (next value)) :
    Regardless (Build.head >>= next) :=
  fun builder object => second builder.head builder object

theorem forM {visit : α → Build PUnit} (each : ∀ item, Regardless (visit item))
    (items : List α) : Regardless (items.forM visit) := by
  induction items with
  | nil => exact pure _
  | cons item items ih =>
      rw [List.forM_eq_forM, List.forM_cons]
      exact bind (each item) fun _ => ih

end Regardless

theorem regardless_makeRoom (needed : Nat) : Regardless (makeRoom needed) := by
  intro builder object
  have same : (builder.withOpen object).storage = builder.storage := rfl
  rw [makeRoom_apply, makeRoom_apply, same]
  split
  case isTrue =>
    split
    case isTrue => rfl
    case isFalse => cases capacityFor (builder.storage.size + needed) <;> rfl
  case isFalse => rfl

theorem regardless_put (bytes : Bytes) : Regardless (put bytes) := by
  intro builder object
  have same : (builder.withOpen object).storage = builder.storage := rfl
  simp only [put]
  rw [same]
  split <;> rfl

theorem regardless_pad (count : Nat) : Regardless (pad count) := by
  intro builder object
  have same : (builder.withOpen object).storage = builder.storage := rfl
  simp only [pad]
  rw [same]
  split <;> rfl

theorem regardless_prepare (size additional : Nat) : Regardless (prepare size additional) := by
  intro builder object
  have finished : (builder.withOpen object).finished = builder.finished := rfl
  have storage : (builder.withOpen object).storage = builder.storage := rfl
  rw [prepare_apply, prepare_apply, finished, storage]
  split
  case isFalse => rfl
  case isTrue =>
    split
    case isTrue => rfl
    case isFalse =>
      dsimp only
      split
      case isTrue => rfl
      case isFalse =>
        split
        case isFalse => rfl
        case isTrue =>
          exact Regardless.bind (regardless_makeRoom _) (fun _ => regardless_pad _)
            { builder with alignment := max builder.alignment size } object

theorem regardless_addScalar (type : ScalarType) (value : type.Value) :
    Regardless (addScalar type value) :=
  .bind (regardless_prepare _ _) fun _ => regardless_put _

theorem regardless_addReference {kind : Kind} (target : Offset kind) :
    Regardless (addReference target) := by
  refine .bind (regardless_prepare _ _) fun _ => .head fun head => ?_
  split
  case isTrue => exact .refuse _
  case isFalse => exact regardless_put _

theorem regardless_addEntry (entry : Nat) : Regardless (addEntry entry) := by
  simp only [addEntry]
  split
  case isTrue => exact .refuse _
  case isFalse => exact regardless_addScalar _ _

theorem regardless_addVTable (table start : UInt32) (fields : List UInt32) :
    Regardless (addVTable table start fields) :=
  .bind (.forM (fun _ => regardless_addEntry _) _) fun _ =>
    .bind (regardless_addEntry _) fun _ => regardless_addEntry _

theorem regardless_shareVTable (size : Nat) (table : UInt32) :
    Regardless (shareVTable size table) := by
  intro builder object
  simp only [shareVTable_apply, Builder.withOpen]
  split <;> rfl

/-- Closing a table up to the moment at which nothing is open any more. -/
def layTable (start : UInt32) (fields : List UInt32) : Build UInt32 := do
  addScalar .int32 0
  let table ← head
  addVTable table start fields
  shareVTable (vtableWidth fields) table
  pure table

theorem regardless_layTable (start : UInt32) (fields : List UInt32) :
    Regardless (layTable start fields) := by
  refine .bind (regardless_addScalar _ _) fun _ => .head fun table => ?_
  exact .bind (regardless_addVTable _ _ _) fun _ => .bind (regardless_shareVTable _ _) fun _ =>
    .pure table

theorem closeTable_of_open {builder : Builder} {start : UInt32} {fields : List UInt32}
    (opened : builder.openObject = .table start fields) :
    closeTable builder = (layTable start fields >>= fun table => do
      update fun builder => builder.withOpen .nothing
      pure ⟨table⟩ : Build (Offset .table)) builder := by
  rw [closeTable_apply, opened]
  simp only [layTable, bind_assoc, pure_bind]
  rfl

theorem storedFields_append_zeros (fields : List UInt32) (count : Nat) :
    storedFields (fields ++ List.replicate count 0) = storedFields fields := by
  rw [storedFields, storedFields, List.reverse_append, List.reverse_replicate]
  congr 1
  induction count with
  | zero => rfl
  | succ count ih =>
      rw [List.replicate_succ, List.cons_append, List.dropWhile_cons_of_pos (by simp), ih]

theorem layTable_append_zeros (start : UInt32) (fields : List UInt32) (count : Nat) :
    layTable start (fields ++ List.replicate count 0) = layTable start fields := by
  simp only [layTable, addVTable, ← width_storedFields, storedFields_append_zeros]

/-- A table is open in both builders, started at the same head and with the same first fields; the
fields behind those were not stored. In all else the builders are equal. -/
def Widened (count : Nat) (left right : Builder) : Prop :=
  ∃ start fields more most, fields.length = count ∧
    left.openObject = .table start (fields ++ List.replicate more 0) ∧
    right = left.withOpen (.table start (fields ++ List.replicate most 0))

section Widening

variable {count : Nat} {left right : Builder}

theorem along_bind {relation : Builder → Builder → Prop}
    (first : Along relation (step left) (step right))
    (second : ∀ {left right : Builder} (value : α), relation left right →
      Along relation (next value left) (next value right)) :
    Along relation ((step >>= next) left) ((step >>= next) right) := by
  rw [bind_apply, bind_apply]
  generalize step left = leftOutcome at first
  generalize step right = rightOutcome at first
  cases first with
  | done value related => exact second value related
  | refused error other related => exact .refused error other related
  | fault cause => exact .fault cause

theorem along_replying {relation : Builder → Builder → Prop} {reply : α → Reply}
    (along : Along relation (step left) (step right)) :
    Along relation (replying reply step left) (replying reply step right) :=
  along_bind along fun value related => .done (reply value) related

theorem along_of_regardless (regardless : Regardless step) (widened : Widened count left right) :
    Along (Widened count) (step left) (step right) := by
  obtain ⟨start, fields, more, most, length, opened, rfl⟩ := widened
  have kept : step left = (step left).withOpen left.openObject := regardless left left.openObject
  rw [regardless]
  generalize step left = outcome at kept
  cases outcome with
  | done value after =>
      have same := congrArg Builder.openObject (Outcome.done.inj kept).2
      exact .done value ⟨start, fields, more, most, length, same.trans opened, rfl⟩
  | refused error after =>
      have same := congrArg Builder.openObject (Outcome.refused.inj kept).2
      exact .refused error error ⟨start, fields, more, most, length, same.trans opened, rfl⟩
  | fault cause => exact .fault cause

theorem along_recordField {index : Nat} (inside : index < count)
    (widened : Widened count left right) :
    Along (Widened count) (recordField index left) (recordField index right) := by
  obtain ⟨start, fields, more, most, length, opened, rfl⟩ := widened
  rw [recordField_apply index opened, recordField_apply index rfl]
  refine .done () ⟨start, fields.set index left.head, more, most, ?_, ?_, ?_⟩
  · rw [List.length_set, length]
  · rw [List.set_append_left _ _ (length ▸ inside)]
  · rw [List.set_append_left _ _ (length ▸ inside)]
    rfl

theorem along_openField {slot : Slot} {next : Nat → Build Unit}
    (within : ∀ index, indexOfSlot slot = some index → index < count)
    (widened : Widened count left right)
    (each : ∀ index, index < count → Along (Widened count) (next index left) (next index right)) :
    Along (Widened count) ((openField slot >>= next) left) ((openField slot >>= next) right) := by
  have both := widened
  obtain ⟨start, fields, more, most, length, opened, rfl⟩ := widened
  rw [bind_apply, bind_apply, openField_apply, openField_apply, opened]
  dsimp only [Builder.withOpen]
  cases place : indexOfSlot slot with
  | none => exact .refused _ _ both
  | some index =>
      have inside := within index place
      dsimp only
      rw [if_pos (by rw [List.length_append]; omega), if_pos (by rw [List.length_append]; omega)]
      exact each index inside

theorem along_record {write : Build Unit} {index : Nat} (regardless : Regardless write)
    (inside : index < count) (widened : Widened count left right) :
    Along (Widened count) ((write >>= fun _ => recordField index) left)
      ((write >>= fun _ => recordField index) right) :=
  along_bind (along_of_regardless regardless widened) fun _ => along_recordField inside

end Widening

end Build

namespace Call

open Build
open Outcome (Along)

/-- The calls that add to a table that is open, with slots of its first `count` fields. What comes
before a struct is stored is written piece by piece. -/
def AddsWithin (count : Nat) : Call → Prop
  | forceDefaults _ | prepare .. | pad _ | put .. | add .. | addReference _ => True
  | storeScalar slot .. | storeOptional slot .. | storeReference slot _ | storeStruct slot _ =>
      ∀ index, indexOfSlot slot = some index → index < count
  | _ => False

variable {count : Nat} {call : Call} {left right : Builder}

theorem along_run (adds : call.AddsWithin count) (widened : Widened count left right) :
    Along (Widened count) (call.run left) (call.run right) := by
  cases call with
  | forceDefaults force =>
      obtain ⟨start, fields, more, most, length, opened, rfl⟩ := widened
      exact .done _ ⟨start, fields, more, most, length, opened, rfl⟩
  | prepare size additional =>
      exact along_replying (along_of_regardless (regardless_prepare size additional) widened)
  | pad count => exact along_replying (along_of_regardless (regardless_pad count) widened)
  | put type value => exact along_replying (along_of_regardless (regardless_put _) widened)
  | add type value =>
      exact along_replying (along_of_regardless (regardless_addScalar type value) widened)
  | addReference target =>
      exact along_replying (along_of_regardless (regardless_addReference target) widened)
  | storeScalar slot type value default =>
      refine along_replying (along_openField adds widened fun index inside => ?_)
      have forced : right.forceDefaults = left.forceDefaults := by
        obtain ⟨start, fields, more, most, -, -, rfl⟩ := widened
        rfl
      rw [state_bind, state_bind, forced]
      split
      case isTrue => exact .done () widened
      case isFalse => exact along_record (regardless_addScalar type value) inside widened
  | storeOptional slot type value =>
      refine along_replying (along_openField adds widened fun index inside => ?_)
      cases value with
      | none => exact .done () widened
      | some value => exact along_record (regardless_addScalar type value) inside widened
  | storeReference slot target =>
      exact along_replying (along_openField adds widened fun index inside =>
        along_record (regardless_addReference target) inside widened)
  | storeStruct slot target =>
      refine along_replying (along_openField adds widened fun index inside => ?_)
      have headed : right.head = left.head := by
        obtain ⟨start, fields, more, most, -, -, rfl⟩ := widened
        rfl
      rw [head_bind, head_bind, headed]
      split
      case isTrue => exact .refused _ _ widened
      case isFalse => exact along_recordField inside widened
  | _ => exact adds.elim

theorem widened_closeTable {answer : Answer} {after : Builder} (widened : Widened count left right)
    (stepped : closeTable.step left = .ok (answer, after)) :
    ∃ other, closeTable.step right = .ok (answer, other) ∧ (answer.isOk → other = after) := by
  obtain ⟨start, fields, more, most, length, opened, rfl⟩ := widened
  have laid := regardless_layTable start fields left
    (.table start (fields ++ List.replicate most 0))
  have reopened : (left.withOpen (.table start (fields ++ List.replicate most 0))).openObject =
    .table start (fields ++ List.replicate most 0) := rfl
  simp only [step, run, placing, replying] at stepped ⊢
  rw [bind_apply, closeTable_of_open opened, layTable_append_zeros, bind_apply] at stepped
  rw [bind_apply, closeTable_of_open reopened, layTable_append_zeros, bind_apply, laid]
  cases ended : layTable start fields left with
  | done table middle =>
      rw [ended] at stepped
      cases stepped
      exact ⟨_, rfl, fun _ => rfl⟩
  | refused error middle =>
      rw [ended] at stepped
      cases stepped
      exact ⟨_, rfl, fun through => absurd through Bool.false_ne_true⟩
  | fault cause =>
      rw [ended] at stepped
      cases stepped

theorem widened_step {answer : Answer} {after : Builder} (adds : call.AddsWithin count)
    (widened : Widened count left right) (stepped : call.step left = .ok (answer, after)) :
    ∃ reply other, call.step right = .ok (reply, other) ∧ reply.toOption = answer.toOption ∧
      Widened count after other := by
  have along := along_run adds widened
  -- Only the errors may differ, which name how many fields there are.
  simp only [step] at stepped ⊢
  generalize call.run left = leftOutcome at along stepped
  generalize call.run right = rightOutcome at along
  cases along with
  | done reply related =>
      cases stepped
      exact ⟨.ok reply, _, rfl, rfl, related⟩
  | refused error other related =>
      cases stepped
      exact ⟨.error other, _, rfl, rfl, related⟩
  | fault cause => cases stepped

theorem addsWithin_min {more : Nat} (adds : call.AddsWithin count ∧ call.AddsWithin more) :
    call.AddsWithin (min count more) := by
  cases call <;> first
    | trivial
    | exact adds.1
    | exact fun index place => Nat.lt_min.mpr ⟨adds.1 index place, adds.2 index place⟩

theorem widened_openTable {builder after : Builder} {answer : Answer} (more : Nat)
    (stepped : (openTable count).step builder = .ok (answer, after)) :
    ∃ other, (openTable more).step builder = .ok (answer, other) ∧
      (other = after ∨ Widened (min count more) after other) := by
  simp only [step, run, quietly, replying, Build.openTable, bind_assoc] at stepped ⊢
  rw [bind_apply] at stepped ⊢
  cases required : requireNothingOpen builder with
  | done _ middle =>
      rw [required] at stepped
      cases stepped
      refine ⟨_, rfl, .inr ⟨middle.head, List.replicate (min count more) 0, count - min count more,
        more - min count more, List.length_replicate, ?_, ?_⟩⟩
      · rw [List.replicate_append_replicate, Nat.add_sub_cancel' (Nat.min_le_left ..)]
      · rw [List.replicate_append_replicate, Nat.add_sub_cancel' (Nat.min_le_right ..)]
        rfl
  | refused error middle =>
      rw [required] at stepped
      cases stepped
      exact ⟨_, rfl, .inl rfl⟩
  | fault cause =>
      rw [required] at stepped
      cases stepped

end Call

/-- A table that is opened with so many fields, and closed once all was added. -/
def tableSession (count : Nat) (adds : List Call) : List Call :=
  .openTable count :: (adds ++ [.closeTable])

namespace Builder

open Build (Widened)

variable {count : Nat} {builder left right : Builder} {adds : List Call}
  {first : List (Answer × Builder)}

theorem widened_run (within : ∀ call ∈ adds, call.AddsWithin count)
    (widened : Widened count left right) (ran : left.run adds = .ok first) :
    ∃ second, right.run adds = .ok second ∧
      second.map (·.1.toOption) = first.map (·.1.toOption) ∧
        Widened count (left.lastOf first) (right.lastOf second) := by
  induction adds generalizing left right first with
  | nil =>
      cases ran
      exact ⟨[], rfl, rfl, widened⟩
  | cons call adds ih =>
      rcases run_cons.mp ran with ⟨answer, middle, later, stepped, ranLater, rfl⟩
      obtain ⟨reply, other, steppedToo, alike, still⟩ :=
        Call.widened_step (within call List.mem_cons_self) widened stepped
      obtain ⟨rest, ranToo, alikeToo, last⟩ :=
        ih (fun call member => within call (List.mem_cons_of_mem _ member)) still ranLater
      exact ⟨(reply, other) :: rest, run_cons.mpr ⟨reply, other, rest, steppedToo, ranToo, rfl⟩,
        congrArg₂ List.cons alike alikeToo, last⟩

theorem sameTable_of_run (more : Nat)
    (within : ∀ call ∈ adds, call.AddsWithin count ∧ call.AddsWithin more)
    (ran : builder.run (tableSession count adds) = .ok first) :
    ∃ second, builder.run (tableSession more adds) = .ok second ∧
      second.map (·.1.toOption) = first.map (·.1.toOption) ∧
      ∀ reply after, first.getLast? = some (.ok reply, after) →
        second.getLast? = some (.ok reply, after) := by
  rcases run_cons.mp ran with ⟨answer, opened, later, openStep, ranLater, rfl⟩
  obtain ⟨other, openToo, same | widened⟩ := Call.widened_openTable more openStep
  -- Where no table could be opened, the sessions go on from one builder.
  · subst same
    exact ⟨_, run_cons.mpr ⟨answer, other, later, openToo, ranLater, rfl⟩, rfl,
      fun _ _ ended => ended⟩
  rcases run_append.mp ranLater with ⟨added, last, ranAdds, ranClose, rfl⟩
  rcases run_cons.mp ranClose with ⟨closing, after, none, closeStep, ranNone, rfl⟩
  cases ranNone
  obtain ⟨addedToo, ranAddsToo, alike, ready⟩ :=
    widened_run (fun call member => Call.addsWithin_min (within call member)) widened ranAdds
  obtain ⟨closed, closeToo, equal⟩ := Call.widened_closeTable ready closeStep
  have ranCloseToo : (other.lastOf addedToo).run [.closeTable] = .ok [(closing, closed)] :=
    run_cons.mpr ⟨closing, closed, [], closeToo, rfl, rfl⟩
  refine ⟨(answer, other) :: (addedToo ++ [(closing, closed)]),
    run_cons.mpr ⟨answer, other, _, openToo,
      run_append.mpr ⟨addedToo, _, ranAddsToo, ranCloseToo, rfl⟩, rfl⟩, ?_, ?_⟩
  · simp only [List.map_cons, List.map_append, alike]
  · intro reply found ended
    rw [← List.cons_append, List.getLast?_concat] at ended ⊢
    cases ended
    rw [equal rfl]

end Builder

end WireTables
