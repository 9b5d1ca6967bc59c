import WireTables.Proofs.Buffer.InPlace

namespace WireTables

theorem getD_zeros (count index : Nat) : (zeros count).getD index 0 = 0 := by
  rw [zeros, List.getD_eq_getElem?_getD, List.getElem?_getD_replicate_default_eq]

theorem getD_append_zeros (bytes : Bytes) (count index : Nat) :
    (bytes ++ zeros count).getD index 0 = bytes.getD index 0 := by
  rcases Nat.lt_or_ge index bytes.length with inside | outside
  · exact List.getD_append _ _ _ _ inside
  · rw [List.getD_append_right _ _ _ _ outside, List.getD_eq_default _ _ outside, getD_zeros]

structure ZeroExtended where
  byte : Nat → UInt8
  cursor : Nat

namespace ZeroExtended

def blank : ZeroExtended := ⟨fun _ => 0, 0⟩

def ofBytes (bytes : Bytes) : ZeroExtended := ⟨fun index => bytes.getD index 0, bytes.length⟩

def put (array : ZeroExtended) (start : Nat) (bytes : Bytes) : ZeroExtended :=
  { array with byte := fun index =>
      if start ≤ index ∧ index < start + bytes.length then bytes.getD (index - start) 0
      else array.byte index }

def place (array : ZeroExtended) (position : Nat) : ZeroExtended := { array with cursor := position }

def append (array : ZeroExtended) (bytes : Bytes) : ZeroExtended :=
  (array.put array.cursor bytes).place (array.cursor + bytes.length)

def perform (array : ZeroExtended) : BufferCall → ZeroExtended
  | .moveCursor position => array.place position
  | .reserve _ => array
  | .writeScalar index type value => array.put index (type.encode value)
  | .write index bytes => array.put index bytes
  | .appendScalar type value => array.append (type.encode value)
  | .append bytes => array.append bytes
  | .appendText text => array.append (encodeText text)
  | .setByte index value => array.put index [value]
  | .rewind => array.place 0

def follow (array : ZeroExtended) (call : BufferCall) : BufferAnswer → ZeroExtended
  | .ok _ => array.perform call
  | .error _ => array

def followAll (array : ZeroExtended) : List (BufferCall × BufferAnswer) → ZeroExtended
  | [] => array
  | (call, answer) :: later => (array.follow call answer).followAll later

end ZeroExtended

namespace BufferCall

/-- The end of what a call needs of a buffer with this cursor. -/
def stop (cursor : Nat) : BufferCall → Except GrowthError Nat
  | moveCursor position => .ok position
  | reserve requested => .ok requested
  | writeScalar index type _ => rangeEnd index type.width
  | write index bytes => rangeEnd index bytes.length
  | appendScalar type _ => rangeEnd cursor type.width
  | append bytes => rangeEnd cursor bytes.length
  | appendText text => rangeEnd cursor (encodeText text).length
  | setByte index _ => .ok (index + 1)
  | rewind => .ok 0

def reply : BufferCall → BufferReply
  | appendText text => .length (encodeText text).length
  | _ => .nothing

def appended : BufferCall → Option Bytes
  | appendScalar type value => some (type.encode value)
  | append bytes => some bytes
  | appendText text => some (encodeText text)
  | _ => none

def Inside (capacity : Nat) : BufferCall → Prop
  | setByte index _ => index < capacity
  | _ => True

end BufferCall

namespace GrowableBuffer

/-- The answer where storage up to `stop` is needed. -/
def roomFor (buffer : GrowableBuffer) (reply : BufferReply) (stop : Nat) : BufferAnswer :=
  if max buffer.capacity maxBufferSize < stop then .error ⟨stop⟩ else .ok reply

def verdict (buffer : GrowableBuffer) (call : BufferCall) : BufferAnswer := do
  let stop ← call.stop buffer.cursor
  buffer.roomFor call.reply stop

def Inside (buffer : GrowableBuffer) : List BufferCall → Prop
  | [] => True
  | call :: calls => call.Inside buffer.capacity ∧
      ∀ answer after, buffer.step call = .ok (answer, after) → after.Inside calls

inductive Begins : GrowableBuffer → ZeroExtended → Prop
  | empty : Begins .empty .blank
  | ofCapacity (capacity : Nat) : Begins (.ofCapacity capacity) .blank
  | ofBytes (bytes : Bytes) : Begins (.ofBytes bytes) (.ofBytes bytes)

/-- The storage is the beginning of the array, which is zero behind it. -/
structure Represents (buffer : GrowableBuffer) (array : ZeroExtended) : Prop where
  bytes : ∀ index, buffer.storage.getD index 0 = array.byte index
  cursor : buffer.cursor = array.cursor
  bounded : buffer.cursor ≤ buffer.capacity

/-- What a call does that goes through. -/
structure Succeeds (array : ZeroExtended) (before : GrowableBuffer) (call : BufferCall)
    (after : GrowableBuffer) : Prop where
  array : after.Represents (array.perform call)
  capacity : before.capacity ≤ after.capacity
  appended : ∀ bytes, call.appended = some bytes → after.contents = before.contents ++ bytes

/-- What a call does. -/
structure Performs (array : ZeroExtended) (before : GrowableBuffer) (call : BufferCall)
    (answer : BufferAnswer) (after : GrowableBuffer) : Prop where
  verdict : answer = before.verdict call
  done : ∀ reply, answer = .ok reply → Succeeds array before call after
  refused : ∀ cause, answer = .error cause → after = before

variable {buffer before grown after : GrowableBuffer} {array : ZeroExtended} {start stop : Nat}
  {bytes : Bytes}

theorem Begins.represents (begins : Begins buffer array) : buffer.Represents array := by
  cases begins with
  | empty => exact ⟨fun _ => rfl, rfl, Nat.le_refl _⟩
  | ofCapacity capacity => exact ⟨getD_zeros capacity, rfl, Nat.zero_le _⟩
  | ofBytes bytes => exact ⟨fun _ => rfl, rfl, Nat.le_refl _⟩

namespace Represents

theorem grownFor (represents : buffer.Represents array) (grew : GrownFor buffer stop grown) :
    grown.Represents array where
  bytes index := by
    obtain ⟨count, storage⟩ := grew.storage
    rw [storage, getD_append_zeros, represents.bytes]
  cursor := grew.cursor.trans represents.cursor
  bounded := grew.cursor ▸ Nat.le_trans represents.bounded grew.capacity_le

theorem overwritten (represents : buffer.Represents array)
    (fits : start + bytes.length ≤ buffer.capacity) :
    Represents { buffer with storage := overwrite buffer.storage start bytes }
      (array.put start bytes) where
  bytes index := by
    rw [getD_overwrite fits, represents.bytes, ZeroExtended.put]
  cursor := represents.cursor
  bounded := by
    rw [capacity, length_overwrite fits]
    exact represents.bounded

theorem placed (represents : buffer.Represents array) {position : Nat}
    (inside : position ≤ buffer.capacity) :
    Represents { buffer with cursor := position } (array.place position) where
  bytes := represents.bytes
  cursor := rfl
  bounded := inside

theorem length_contents (represents : buffer.Represents array) :
    buffer.contents.length = buffer.cursor := by
  rw [contents, List.length_take]
  exact Nat.min_eq_left represents.bounded

theorem slice_eq (represents : buffer.Represents array) :
    slice buffer.storage 0 buffer.cursor = .ok buffer.contents :=
  slice_eq_ok_iff.mpr ⟨by rw [Nat.zero_add]; exact represents.bounded, rfl⟩

end Represents

theorem roomFor_of_fits (buffer : GrowableBuffer) (reply : BufferReply)
    (fits : stop ≤ buffer.capacity) : buffer.roomFor reply stop = .ok reply :=
  if_neg (Nat.not_lt.mpr (Nat.le_trans fits (Nat.le_max_left ..)))

theorem map_reserve (buffer : GrowableBuffer) (reply : BufferReply) (stop : Nat) :
    (buffer.reserve stop false).map (fun _ => reply) = buffer.roomFor reply stop := by
  rcases Nat.lt_or_ge buffer.capacity stop with short | fits
  · rw [reserve_of_lt short]
    rcases Nat.lt_or_ge maxBufferSize stop with past | within
    · rw [capacityFor_of_lt past, roomFor, if_pos (Nat.max_lt.mpr ⟨short, past⟩)]
      rfl
    · obtain ⟨size, found⟩ := capacityFor_of_le within
      rw [found, roomFor, if_neg (by omega)]
      rfl
  · rw [reserve_of_fits fits, roomFor_of_fits buffer reply fits]
    rfl

theorem map_moveCursor (buffer : GrowableBuffer) (reply : BufferReply) (position : Nat) :
    (buffer.moveCursor position).map (fun _ => reply) = buffer.roomFor reply position := by
  rw [← map_reserve, moveCursor]
  cases buffer.reserve position false <;> rfl

theorem map_write (buffer : GrowableBuffer) (reply : BufferReply) (index : Nat) (bytes : Bytes) :
    (buffer.write index bytes).map (fun _ => reply) = (do
      let stop ← rangeEnd index bytes.length
      buffer.roomFor reply stop) := by
  cases ended : rangeEnd index bytes.length with
  | error cause =>
      rw [write_of_error ended]
      rfl
  | ok stop =>
      rw [(buffer.write_of_ok ended).2]
      refine Eq.trans ?_ (buffer.map_reserve reply stop)
      cases buffer.reserve stop false <;> rfl

theorem map_append (buffer : GrowableBuffer) (reply : BufferReply) (bytes : Bytes) :
    (buffer.append bytes).map (fun _ => reply) = (do
      let stop ← rangeEnd buffer.cursor bytes.length
      buffer.roomFor reply stop) := by
  rw [← map_write, append]
  cases buffer.write buffer.cursor bytes <;> rfl

theorem write_ok (done : buffer.write start bytes = .ok after) :
    ∃ grown, GrownFor buffer (start + bytes.length) grown ∧
      after = { grown with storage := overwrite grown.storage start bytes } := by
  cases ended : rangeEnd start bytes.length with
  | error cause =>
      rw [write_of_error ended] at done
      cases done
  | ok stop =>
      obtain ⟨rfl, written⟩ := buffer.write_of_ok ended
      obtain ⟨grown, reserved, same⟩ := read_bind.mp (written.symm.trans done)
      cases same
      exact ⟨grown, grownFor_reserve reserved, rfl⟩

theorem Succeeds.of_silent {call : BufferCall} (shown : after.Represents (array.perform call))
    (larger : before.capacity ≤ after.capacity) (silent : call.appended = none) :
    Succeeds array before call after where
  array := shown
  capacity := larger
  appended bytes some := by
    rw [silent] at some
    cases some

theorem write_succeeds {call : BufferCall} (represents : before.Represents array)
    (performs : array.perform call = array.put start bytes) (silent : call.appended = none)
    (done : before.write start bytes = .ok after) : Succeeds array before call after := by
  obtain ⟨grown, grew, rfl⟩ := write_ok done
  refine .of_silent ?_ ?_ silent
  · rw [performs]
    exact (represents.grownFor grew).overwritten grew.covers
  · rw [capacity, capacity, length_overwrite grew.covers]
    exact grew.capacity_le

theorem append_succeeds {call : BufferCall} (represents : before.Represents array)
    (performs : array.perform call = array.append bytes) (appends : call.appended = some bytes)
    (done : before.append bytes = .ok after) : Succeeds array before call after := by
  obtain ⟨written, wrote, same⟩ := read_bind.mp done
  cases same
  obtain ⟨grown, grew, rfl⟩ := write_ok wrote
  have length := length_overwrite grew.covers
  refine ⟨?_, ?_, ?_⟩
  · rw [performs, ZeroExtended.append, ← represents.cursor]
    apply Represents.placed ((represents.grownFor grew).overwritten grew.covers)
    rw [capacity, length]
    exact grew.covers
  · rw [capacity, capacity, length]
    exact grew.capacity_le
  · intro bytes' some
    cases appends.symm.trans some
    obtain ⟨count, storage⟩ := grew.storage
    have kept : grown.storage.take before.cursor = before.contents := by
      rw [storage, List.take_append_of_le_length represents.bounded, contents]
    have whole : (before.contents ++ bytes).length = before.cursor + bytes.length := by
      rw [List.length_append, represents.length_contents]
    rw [contents, overwrite, kept, ← whole, List.take_left]

theorem Performs.of_ok {call : BufferCall} {reply : BufferReply}
    (verdict : .ok reply = before.verdict call) (succeeds : Succeeds array before call after) :
    Performs array before call (.ok reply) after where
  verdict := verdict
  done _ _ := succeeds
  refused cause failed := by cases failed

theorem performs_settle {call : BufferCall} {outcome : Except GrowthError GrowableBuffer}
    (verdict : outcome.map (fun _ => call.reply) = before.verdict call)
    (succeeds : ∀ after, outcome = .ok after → Succeeds array before call after) :
    Performs array before call (before.settle (outcome.map (call.reply, ·))).1
      (before.settle (outcome.map (call.reply, ·))).2 := by
  cases outcome with
  | error cause => exact ⟨verdict, fun _ done => (by cases done), fun _ _ => rfl⟩
  | ok after => exact .of_ok verdict (succeeds after rfl)

theorem step_performs (represents : before.Represents array) {call : BufferCall}
    (inside : call.Inside before.capacity) :
    ∃ answer after, before.step call = .ok (answer, after) ∧
      Performs array before call answer after := by
  cases call with
  | moveCursor position =>
      refine ⟨_, _, rfl, performs_settle ?_ ?_⟩
      · rw [map_moveCursor]
        rfl
      · intro after done
        obtain ⟨grown, reserved, same⟩ := read_bind.mp done
        cases same
        have grew := grownFor_reserve reserved
        exact .of_silent ((represents.grownFor grew).placed grew.covers) grew.capacity_le rfl
  | reserve requested =>
      refine ⟨_, _, rfl, performs_settle (before.map_reserve _ _) ?_⟩
      intro after done
      have grew := grownFor_reserve done
      exact .of_silent (represents.grownFor grew) grew.capacity_le rfl
  | writeScalar index type value =>
      refine ⟨_, _, rfl, performs_settle ?_ fun _ => write_succeeds represents rfl rfl⟩
      rw [writeScalar, map_write, type.length_encode]
      rfl
  | write index bytes =>
      exact ⟨_, _, rfl, performs_settle (before.map_write ..) fun _ =>
        write_succeeds represents rfl rfl⟩
  | appendScalar type value =>
      refine ⟨_, _, rfl, performs_settle ?_ fun _ => append_succeeds represents rfl rfl⟩
      rw [appendScalar, map_append, type.length_encode]
      rfl
  | append bytes =>
      exact ⟨_, _, rfl, performs_settle (before.map_append ..) fun _ =>
        append_succeeds represents rfl rfl⟩
  | appendText text =>
      have answered : before.step (.appendText text) = .ok (before.settle
          ((before.append (encodeText text)).map ((BufferCall.appendText text).reply, ·))) := by
        rw [step, appendText]
        cases before.append (encodeText text) <;> rfl
      exact ⟨_, _, answered, performs_settle (before.map_append ..) fun _ =>
        append_succeeds represents rfl rfl⟩
  | setByte index value =>
      -- the only call that can fault, and the only one that needs to be inside
      have fits : index + [value].length ≤ before.capacity := inside
      have stored : store before.storage index [value] =
          .ok (overwrite before.storage index [value]) := if_pos fits
      have answered : before.step (.setByte index value) =
          .ok (.ok .nothing, { before with storage := overwrite before.storage index [value] }) := by
        rw [step, setByte, stored]
        rfl
      refine ⟨_, _, answered, .of_ok (before.roomFor_of_fits _ fits).symm ?_⟩
      exact .of_silent (represents.overwritten fits) (Nat.le_of_eq (length_overwrite fits).symm) rfl
  | rewind =>
      refine ⟨_, _, rfl, .of_ok (before.roomFor_of_fits _ (Nat.zero_le _)).symm ?_⟩
      exact .of_silent (represents.placed (Nat.zero_le _)) (Nat.le_refl _) rfl

theorem Performs.represents {call : BufferCall} {answer : BufferAnswer}
    (performs : Performs array before call answer after) (represents : before.Represents array) :
    after.Represents (array.follow call answer) := by
  cases answer with
  | ok reply => exact (performs.done reply rfl).array
  | error cause =>
      obtain rfl := performs.refused cause rfl
      exact represents

theorem Performs.capacity_le {call : BufferCall} {answer : BufferAnswer}
    (performs : Performs array before call answer after) : before.capacity ≤ after.capacity := by
  cases answer with
  | ok reply => exact (performs.done reply rfl).capacity
  | error cause =>
      obtain rfl := performs.refused cause rfl
      exact Nat.le_refl _

theorem run_represents (represents : before.Represents array) {calls : List BufferCall}
    {call : BufferCall} (inside : before.Inside (calls ++ [call])) :
    ∃ answers after, before.run calls = .ok (answers, after) ∧
      after.Represents (array.followAll (calls.zip answers)) ∧
        before.capacity ≤ after.capacity ∧ call.Inside after.capacity := by
  -- one call leaves a buffer that represents an array again, so the rest of them can be made
  induction calls generalizing before array with
  | nil => exact ⟨[], before, rfl, represents, Nat.le_refl _, inside.1⟩
  | cons first calls ih =>
      obtain ⟨answer, middle, stepped, performs⟩ := step_performs represents inside.1
      obtain ⟨answers, after, ran, shown, larger, last⟩ :=
        ih (performs.represents represents) (inside.2 answer middle stepped)
      exact ⟨answer :: answers, after, read_bind.mpr ⟨_, stepped, read_bind.mpr ⟨_, ran, rfl⟩⟩,
        shown, Nat.le_trans performs.capacity_le larger, last⟩

/-- Whatever is asked of a buffer as it is made, one call after the other, its storage is the
beginning of an array without an end that only the calls that were not refused have acted on, its
cursor that of the array; the cursor stays inside the storage, which never shrinks. The next call is
refused just where the end of what it needs is past the storage and past the largest size, or is no
address, and then the buffer stays as it is, in place too; an append that goes through is seen
behind the contents. -/
theorem refines_zeroExtended {start : GrowableBuffer} {array : ZeroExtended}
    (begins : Begins start array) {calls : List BufferCall} {call : BufferCall}
    (inside : start.Inside (calls ++ [call])) :
    ∃ answers before answer after,
      start.run calls = .ok (answers, before) ∧
        before.Represents (array.followAll (calls.zip answers)) ∧
          start.capacity ≤ before.capacity ∧
            slice before.storage 0 before.cursor = .ok before.contents ∧
              before.step call = .ok (answer, after) ∧
                call.edit.run.run before = .ok (answer, after) ∧
                  Performs (array.followAll (calls.zip answers)) before call answer after := by
  obtain ⟨answers, before, ran, represents, larger, last⟩ :=
    run_represents begins.represents inside
  obtain ⟨answer, after, stepped, performs⟩ := step_performs represents last
  exact ⟨answers, before, answer, after, ran, represents, larger, represents.slice_eq, stepped,
    (call.run_edit before).trans stepped, performs⟩

theorem refines_zeroExtended_of_three :
    let start := ofBytes [1, 2, 3]
    let calls : List BufferCall := [.setByte 0 9, .moveCursor (maxBufferSize + 1)]
    let call := BufferCall.append [5, 6]
    start.Inside (calls ++ [call]) ∧
      ∃ before after, start.run calls = .ok ([.ok .nothing, .error ⟨maxBufferSize + 1⟩], before) ∧
        before.step call = .ok (.ok .nothing, after) ∧ before.contents = [9, 2, 3] ∧
          after.contents = [9, 2, 3, 5, 6] := by
  intro start calls call
  have inside : start.Inside (calls ++ [call]) :=
    ⟨Nat.succ_pos _, fun _ _ _ => ⟨trivial, fun _ _ _ => ⟨trivial, fun _ _ _ => trivial⟩⟩⟩
  obtain ⟨answers, before, answer, after, ran, -, -, -, stepped, -, performs⟩ :=
    refines_zeroExtended (.ofBytes [1, 2, 3]) inside
  have here : start.run calls =
      .ok ([.ok .nothing, .error ⟨maxBufferSize + 1⟩], ⟨[9, 2, 3], 3⟩) := rfl
  cases ran.symm.trans here
  obtain rfl : answer = .ok .nothing := performs.verdict
  exact ⟨inside, _, after, here, stepped, rfl, (performs.done _ rfl).appended [5, 6] rfl⟩

end GrowableBuffer

end WireTables
