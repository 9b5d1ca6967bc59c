import WireTables.Builder.Storage
import WireTables.Error
import WireTables.Options.Basic
import WireTables.View.Basic

/-!
The builder: what it has written, which object is open, and which vtables and strings it may use
again. A `Build` is a step of a builder. It ends with a value, it is refused with an error and
whatever it wrote until then, or it is a fault.
-/

namespace WireTables

/-- An object that was written, known by its distance from the end of the buffer. -/
structure Offset (kind : Kind) where
  value : UInt32
  deriving DecidableEq, Repr

/-- A table is open with the head at which it was started and the head at which each of its fields
was written, zero for a field that was not. -/
inductive OpenObject
  | nothing
  | table (start : UInt32) (fields : List UInt32)
  | vector (count : Nat)
  deriving DecidableEq, Repr

structure Builder where
  storage : Storage
  alignment : Nat
  openObject : OpenObject
  vtables : List UInt32
  strings : List (Bytes × Offset .string)
  finished : Bool
  forceDefaults : Bool
  deriving DecidableEq, Repr

namespace Builder

def ofOptions (options : BuilderOptions) : Builder where
  storage := .ofCapacity options.initialCapacity
  alignment := 1
  openObject := .nothing
  vtables := []
  strings := []
  finished := false
  forceDefaults := options.forceDefaults

def capacity (builder : Builder) : Nat := builder.storage.capacity

def head (builder : Builder) : UInt32 := UInt32.ofNat builder.storage.size

def clear (builder : Builder) : Builder where
  storage := builder.storage.retract builder.storage.size
  alignment := 1
  openObject := .nothing
  vtables := []
  strings := []
  finished := false
  forceDefaults := builder.forceDefaults

def finishedBytes (builder : Builder) : Except Refusal Bytes :=
  if builder.finished then .ok builder.storage.written else .error .notFinished

def viewTable (builder : Builder) (table : Offset .table) : Except Fault TableView :=
  TableView.load builder.storage.contents (builder.capacity - table.value.toNat)

end Builder

inductive Outcome (α : Type)
  | done (value : α) (after : Builder)
  | refused (error : Refusal) (after : Builder)
  | fault (cause : Fault)
  deriving DecidableEq, Repr

def Build (α : Type) := Builder → Outcome α

namespace Build

def andThen {α β : Type} (step : Build α) (next : α → Build β) : Build β := fun builder =>
  match step builder with
  | .done value after => next value after
  | .refused error after => .refused error after
  | .fault cause => .fault cause

instance : Monad Build where
  pure value := fun builder => .done value builder
  bind := andThen

theorem andThen_pure {α : Type} (step : Build α) :
    (andThen step fun value => pure value) = step := by
  funext builder
  unfold andThen
  cases step builder <;> rfl

theorem andThen_assoc {α β γ : Type} (step : Build α) (next : α → Build β) (last : β → Build γ) :
    andThen (andThen step next) last = andThen step fun value => andThen (next value) last := by
  funext builder
  unfold andThen
  cases step builder <;> rfl

instance : LawfulMonad Build := LawfulMonad.mk' Build andThen_pure (fun _ _ => rfl) andThen_assoc

def state : Build Builder := fun builder => .done builder builder

def update (change : Builder → Builder) : Build Unit := fun builder => .done () (change builder)

def refuse {α : Type} (error : Refusal) : Build α := fun builder => .refused error builder

/-- What must hold, or else the step is a fault. -/
def demand (holds : Prop) [Decidable holds] (cause : Fault) : Build Unit := fun builder =>
  if holds then .done () builder else .fault cause

def ofRead {α : Type} : Except Fault α → Build α
  | .ok value, builder => .done value builder
  | .error cause, _ => .fault cause

def attempt {α : Type} (step : Build α) : Build (Except Refusal α) := fun builder =>
  match step builder with
  | .done value after => .done (.ok value) after
  | .refused error after => .done (.error error) after
  | .fault cause => .fault cause

def head : Build UInt32 := Builder.head <$> state

def requireUnfinished : Build Unit := do
  if (← state).finished then refuse .finished

def requireNothingOpen : Build Unit := do
  requireUnfinished
  if (← state).openObject ≠ .nothing then refuse .objectOpen

/-- An offset that is zero, or lies past the head, refers to nothing that was written. -/
def requireWritten {kind : Kind} (offset : Offset kind) : Build Unit := do
  let head ← head
  if offset.value = 0 ∨ head < offset.value then refuse (.dangling offset.value head)

end Build

end WireTables
