import WireTables.Buffer.Growable
import WireTables.Proofs.Buffer.Growth
import WireTables.Proofs.Bytes.Overwriting

/-!
The calls that change a growable buffer, and the same calls as steps that change it in place: larger
storage takes the place of the old, bytes are copied into it and the cursor is moved, one after the
other, and what was changed before a refusal stays changed. Both come to the same, because every
refusal comes before the first change and no copy misses the storage.
-/

namespace WireTables

inductive BufferCall
  | moveCursor (position : Nat)
  | reserve (requested : Nat)
  | writeScalar (index : Nat) (type : ScalarType) (value : type.Value)
  | write (index : Nat) (bytes : Bytes)
  | appendScalar (type : ScalarType) (value : type.Value)
  | append (bytes : Bytes)
  | appendText (text : String)
  | setByte (index : Nat) (value : UInt8)
  | rewind

inductive BufferReply
  | nothing
  | length (bytes : Nat)

abbrev BufferAnswer := Except GrowthError BufferReply

namespace GrowableBuffer

def settle {α : Type} (buffer : GrowableBuffer) :
    Except GrowthError (α × GrowableBuffer) → Except GrowthError α × GrowableBuffer
  | .ok (value, after) => (.ok value, after)
  | .error cause => (.error cause, buffer)

def step (buffer : GrowableBuffer) : BufferCall → Except Fault (BufferAnswer × GrowableBuffer)
  | .moveCursor position => .ok (buffer.settle ((buffer.moveCursor position).map (.nothing, ·)))
  | .reserve requested => .ok (buffer.settle ((buffer.reserve requested false).map (.nothing, ·)))
  | .writeScalar index type value =>
      .ok (buffer.settle ((buffer.writeScalar index type value).map (.nothing, ·)))
  | .write index bytes => .ok (buffer.settle ((buffer.write index bytes).map (.nothing, ·)))
  | .appendScalar type value =>
      .ok (buffer.settle ((buffer.appendScalar type value).map (.nothing, ·)))
  | .append bytes => .ok (buffer.settle ((buffer.append bytes).map (.nothing, ·)))
  | .appendText text => .ok (buffer.settle ((buffer.appendText text).map (Prod.map .length id)))
  | .setByte index value => (buffer.setByte index value).map (.ok .nothing, ·)
  | .rewind => .ok (.ok .nothing, buffer.rewind)

def run (buffer : GrowableBuffer) :
    List BufferCall → Except Fault (List BufferAnswer × GrowableBuffer)
  | [] => pure ([], buffer)
  | call :: calls => do
      let (answer, after) ← buffer.step call
      let (answers, last) ← after.run calls
      pure (answer :: answers, last)

end GrowableBuffer

/-- A step that changes a buffer in place. One that is refused leaves what it changed until then. -/
abbrev Editing (α : Type) := ExceptT GrowthError (StateT GrowableBuffer (Except Fault)) α

def rangeEnd (index size : Nat) : Except GrowthError Nat :=
  if addressLimit ≤ index + size then .error ⟨addressLimit - 1⟩ else .ok (index + size)

namespace Editing

def reserve (requested : Nat) : Editing Unit := do
  let buffer ← get
  if requested ≤ buffer.capacity then pure ()
  else do
    let capacity ← capacityFor requested
    let storage ← store (zeros capacity) 0 buffer.storage
    set { buffer with storage }

def copy (index : Nat) (bytes : Bytes) : Editing Unit := do
  let buffer ← get
  let storage ← store buffer.storage index bytes
  set { buffer with storage }

def place (position : Nat) : Editing Unit := modify fun buffer => { buffer with cursor := position }

def moveCursor (position : Nat) : Editing Unit := do
  reserve position
  place position

def write (index : Nat) (bytes : Bytes) : Editing Unit := do
  let stop ← rangeEnd index bytes.length
  reserve stop
  copy index bytes

def append (bytes : Bytes) : Editing Unit := do
  let buffer ← get
  write buffer.cursor bytes
  place (buffer.cursor + bytes.length)

def replying (reply : BufferReply) (edit : Editing Unit) : Editing BufferReply := do
  edit
  pure reply

end Editing

open Editing in
def BufferCall.edit : BufferCall → Editing BufferReply
  | .moveCursor position => replying .nothing (Editing.moveCursor position)
  | .reserve requested => replying .nothing (Editing.reserve requested)
  | .writeScalar index type value => replying .nothing (Editing.write index (type.encode value))
  | .write index bytes => replying .nothing (Editing.write index bytes)
  | .appendScalar type value => replying .nothing (Editing.append (type.encode value))
  | .append bytes => replying .nothing (Editing.append bytes)
  | .appendText text =>
      replying (.length (encodeText text).length) (Editing.append (encodeText text))
  | .setByte index value => replying .nothing (Editing.copy index [value])
  | .rewind => replying .nothing (Editing.place 0)

namespace GrowableBuffer

variable {buffer grown : GrowableBuffer} {requested index : Nat} {bytes : Bytes}

structure GrownFor (buffer : GrowableBuffer) (stop : Nat) (grown : GrowableBuffer) : Prop where
  storage : ∃ count, grown.storage = buffer.storage ++ zeros count
  cursor : grown.cursor = buffer.cursor
  covers : stop ≤ grown.capacity

theorem GrownFor.capacity_le (grew : GrownFor buffer requested grown) :
    buffer.capacity ≤ grown.capacity := by
  obtain ⟨count, storage⟩ := grew.storage
  rw [capacity, capacity, storage, List.length_append]
  exact Nat.le_add_right ..

def enlarged (buffer : GrowableBuffer) (size : Nat) (atEnd : Bool) : GrowableBuffer :=
  let added := zeros (size - buffer.capacity)
  { buffer with storage := if atEnd then added ++ buffer.storage else buffer.storage ++ added }

theorem capacity_enlarged {size : Nat} (larger : buffer.capacity ≤ size) (atEnd : Bool) :
    (buffer.enlarged size atEnd).capacity = size := by
  rw [capacity] at larger
  cases atEnd <;> simp [enlarged, capacity, larger]

theorem reserve_of_fits (fits : requested ≤ buffer.capacity) (atEnd : Bool) :
    buffer.reserve requested atEnd = .ok buffer :=
  if_pos fits

theorem reserve_of_lt (short : buffer.capacity < requested) (atEnd : Bool) :
    buffer.reserve requested atEnd = (capacityFor requested).map (buffer.enlarged · atEnd) := by
  rw [reserve, if_neg (Nat.not_le.mpr short)]
  cases capacityFor requested <;> rfl

theorem grownFor_reserve (done : buffer.reserve requested false = .ok grown) :
    GrownFor buffer requested grown := by
  rcases Nat.lt_or_ge buffer.capacity requested with short | fits
  · rw [reserve_of_lt short] at done
    cases found : capacityFor requested with
    | error cause =>
        rw [found] at done
        cases done
    | ok size =>
        rw [found] at done
        cases done
        obtain ⟨covers, -⟩ := capacityFor_ok found
        refine ⟨⟨_, rfl⟩, rfl, ?_⟩
        rw [capacity_enlarged (Nat.le_of_lt (Nat.lt_of_lt_of_le short covers))]
        exact covers
  · rw [reserve_of_fits fits] at done
    cases done
    exact ⟨⟨0, by simp [zeros]⟩, rfl, fits⟩

theorem write_of_error {cause : GrowthError} (past : rangeEnd index bytes.length = .error cause) :
    buffer.write index bytes = .error cause := by
  unfold rangeEnd at past
  split at past
  case isTrue limit =>
    cases past
    exact if_pos limit
  case isFalse => cases past

theorem write_of_ok (buffer : GrowableBuffer) {stop : Nat}
    (ended : rangeEnd index bytes.length = .ok stop) :
    stop = index + bytes.length ∧
      buffer.write index bytes = (do
        let grown ← buffer.reserve stop false
        pure { grown with storage := overwrite grown.storage index bytes }) := by
  unfold rangeEnd at ended
  split at ended
  case isTrue => cases ended
  case isFalse within =>
    cases ended
    exact ⟨rfl, if_neg within⟩

end GrowableBuffer

namespace Editing

section Steps

variable {α β : Type} {buffer : GrowableBuffer}

theorem run_get (next : GrowableBuffer → Editing β) :
    (get >>= next).run.run buffer = (next buffer).run.run buffer := rfl

theorem run_fault (read : Except Fault α) (next : α → Editing β) :
    ((liftM read : Editing α) >>= next).run.run buffer =
      read >>= fun value => (next value).run.run buffer := by
  cases read <;> rfl

theorem run_refusal (outcome : Except GrowthError α) (next : α → Editing β) :
    ((liftM outcome : Editing α) >>= next).run.run buffer =
      match outcome with
      | .ok value => (next value).run.run buffer
      | .error cause => .ok (.error cause, buffer) := by
  cases outcome <;> rfl

theorem run_bind (first : Editing α) (next : α → Editing β) :
    (first >>= next).run.run buffer = (do
      match ← first.run.run buffer with
      | (.ok value, middle) => (next value).run.run middle
      | (.error cause, middle) => pure (.error cause, middle)) := by
  change (first.run.run buffer >>= fun _ => _) = _
  congr 1
  funext ⟨answer, middle⟩
  cases answer <;> rfl

end Steps

theorem run_copy (buffer : GrowableBuffer) (index : Nat) (bytes : Bytes) :
    (copy index bytes).run.run buffer =
      (store buffer.storage index bytes).map fun storage =>
        (.ok (), { buffer with storage }) := by
  rw [copy, run_get, run_fault]
  cases store buffer.storage index bytes <;> rfl

theorem run_reserve (buffer : GrowableBuffer) (requested : Nat) :
    (reserve requested).run.run buffer =
      .ok (buffer.settle ((buffer.reserve requested false).map ((), ·))) := by
  rw [reserve, run_get]
  rcases Nat.lt_or_ge buffer.capacity requested with short | fits
  · rw [if_neg (Nat.not_le.mpr short), run_refusal, GrowableBuffer.reserve_of_lt short]
    cases found : capacityFor requested with
    | error cause => rfl
    | ok size =>
        -- the new storage is the larger one, so the copy of the old one does not miss it
        have copied : store (zeros size) 0 buffer.storage =
            .ok (buffer.storage ++ zeros (size - buffer.capacity)) :=
          store_zeros (Nat.le_trans (Nat.le_of_lt short) (capacityFor_ok found).1)
        dsimp only
        rw [run_fault, copied]
        rfl
  · rw [if_pos fits, GrowableBuffer.reserve_of_fits fits]
    rfl

theorem run_moveCursor (buffer : GrowableBuffer) (position : Nat) :
    (moveCursor position).run.run buffer =
      .ok (buffer.settle ((buffer.moveCursor position).map ((), ·))) := by
  rw [moveCursor, run_bind, run_reserve, GrowableBuffer.moveCursor]
  cases buffer.reserve position false <;> rfl

theorem run_write (buffer : GrowableBuffer) (index : Nat) (bytes : Bytes) :
    (write index bytes).run.run buffer =
      .ok (buffer.settle ((buffer.write index bytes).map ((), ·))) := by
  rw [write, run_refusal]
  cases ended : rangeEnd index bytes.length with
  | error cause =>
      rw [GrowableBuffer.write_of_error ended]
      rfl
  | ok stop =>
      obtain ⟨rfl, written⟩ := buffer.write_of_ok ended
      dsimp only
      rw [run_bind, run_reserve, written]
      cases reserved : buffer.reserve (index + bytes.length) false with
      | error cause => rfl
      | ok grown =>
          -- nor does this copy, for which the storage was grown
          have stored : store grown.storage index bytes =
              .ok (overwrite grown.storage index bytes) :=
            if_pos (GrowableBuffer.grownFor_reserve reserved).covers
          change (copy index bytes).run.run grown = _
          rw [run_copy, stored]
          rfl

theorem run_append (buffer : GrowableBuffer) (bytes : Bytes) :
    (append bytes).run.run buffer =
      .ok (buffer.settle ((buffer.append bytes).map ((), ·))) := by
  rw [append, run_get, run_bind, run_write, GrowableBuffer.append]
  cases buffer.write buffer.cursor bytes <;> rfl

theorem run_replying (reply : BufferReply) {edit : Editing Unit} {buffer : GrowableBuffer}
    {outcome : Except GrowthError GrowableBuffer}
    (ran : edit.run.run buffer = .ok (buffer.settle (outcome.map ((), ·)))) :
    (replying reply edit).run.run buffer = .ok (buffer.settle (outcome.map (reply, ·))) := by
  rw [replying, run_bind, ran]
  cases outcome <;> rfl

end Editing

theorem BufferCall.run_edit (call : BufferCall) (buffer : GrowableBuffer) :
    call.edit.run.run buffer = buffer.step call := by
  cases call with
  | moveCursor position => exact Editing.run_replying _ (Editing.run_moveCursor ..)
  | reserve requested => exact Editing.run_replying _ (Editing.run_reserve ..)
  | writeScalar index type value => exact Editing.run_replying _ (Editing.run_write ..)
  | write index bytes => exact Editing.run_replying _ (Editing.run_write ..)
  | appendScalar type value => exact Editing.run_replying _ (Editing.run_append ..)
  | append bytes => exact Editing.run_replying _ (Editing.run_append ..)
  | appendText text =>
      rw [edit, Editing.run_replying _ (Editing.run_append ..), GrowableBuffer.step,
        GrowableBuffer.appendText]
      cases buffer.append (encodeText text) <;> rfl
  | setByte index value =>
      rw [edit, Editing.replying, Editing.run_bind, Editing.run_copy, GrowableBuffer.step,
        GrowableBuffer.setByte]
      cases store buffer.storage index [value] <;> rfl
  | rewind => rfl

end WireTables
