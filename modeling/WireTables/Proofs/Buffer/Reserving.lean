import WireTables.Proofs.Buffer.Doubling
import WireTables.Proofs.Buffer.InPlace

namespace WireTables

/-- A computation that may fault, and that may also go on for ever. -/
abbrev Looping (α : Type) := ExceptT Fault Part α

abbrev RoomAnswer := Except GrowthError Unit

namespace GrowableBuffer

/-- Makes room in place: the loop finds the size, the old bytes are copied into zeros of that size,
and only then are these the storage. -/
def request (buffer : GrowableBuffer) (requested : UInt64) (atEnd : Bool) :
    Looping (RoomAnswer × GrowableBuffer) :=
  if requested.toNat ≤ buffer.capacity then pure (.ok (), buffer)
  else if maxBufferSize < requested.toNat then pure (.error ⟨requested.toNat⟩, buffer)
  else do
    let size ← coverFrom requested (.ofNat smallestCapacity)
    let start := if atEnd then size.toNat - buffer.capacity else 0
    let storage ← store (zeros size.toNat) start buffer.storage
    pure (.ok (), { buffer with storage })

def requestEach (atEnd : Bool) (buffer : GrowableBuffer) :
    List UInt64 → Looping (List RoomAnswer × GrowableBuffer)
  | [] => pure ([], buffer)
  | requested :: later => do
      let (answer, after) ← buffer.request requested atEnd
      let (answers, last) ← requestEach atEnd after later
      pure (answer :: answers, last)

def answerTo (buffer : GrowableBuffer) (requested : Nat) (atEnd : Bool) :
    RoomAnswer × GrowableBuffer :=
  buffer.settle ((buffer.reserve requested atEnd).map ((), ·))

/-- What a request for room comes to. -/
structure Reserves (before : GrowableBuffer) (requested : Nat) (atEnd : Bool) (answer : RoomAnswer)
    (after : GrowableBuffer) : Prop where
  enough : requested ≤ before.capacity → answer = .ok () ∧ after = before
  refused : before.capacity < requested → maxBufferSize < requested →
    answer = .error ⟨requested⟩ ∧ after = before
  grown : before.capacity < requested → requested ≤ maxBufferSize →
    answer = .ok () ∧ after.cursor = before.cursor ∧
      ∃ turns, IsLeast {turns | requested ≤ min (8 * 2 ^ turns) maxBufferSize} turns ∧
        after.capacity = min (8 * 2 ^ turns) maxBufferSize ∧
          after.storage =
            if atEnd then zeros (after.capacity - before.capacity) ++ before.storage
            else before.storage ++ zeros (after.capacity - before.capacity)

end GrowableBuffer

theorem Looping.run_bind {α β : Type} {first : Looping α} {value : α}
    (ended : first.run = .some (.ok value)) (next : α → Looping β) :
    (first >>= next).run = (next value).run := by
  simp [ExceptT.run_bind, ended]

namespace GrowableBuffer

variable {buffer before after : GrowableBuffer} {requested size turns : Nat} {answer : RoomAnswer}

theorem answerTo_of_fits (fits : requested ≤ buffer.capacity) (atEnd : Bool) :
    buffer.answerTo requested atEnd = (.ok (), buffer) := by
  rw [answerTo, reserve_of_fits fits]
  rfl

theorem answerTo_of_past (short : buffer.capacity < requested) (past : maxBufferSize < requested)
    (atEnd : Bool) : buffer.answerTo requested atEnd = (.error ⟨requested⟩, buffer) := by
  rw [answerTo, reserve_of_lt short, capacityFor_of_lt past]
  rfl

theorem answerTo_of_least (short : buffer.capacity < requested)
    (least : IsLeast (Covering requested) turns) (atEnd : Bool) :
    buffer.answerTo requested atEnd = (.ok (), buffer.enlarged (sizeAfter turns) atEnd) := by
  rw [answerTo, reserve_of_lt short, capacityFor_of_least least]
  rfl

theorem capacity_le_of_least (short : buffer.capacity < requested)
    (least : IsLeast (Covering requested) turns) : buffer.capacity ≤ sizeAfter turns :=
  Nat.le_of_lt (Nat.lt_of_lt_of_le short least.1)

theorem store_enlarged (larger : buffer.capacity ≤ size) (atEnd : Bool) :
    store (zeros size) (if atEnd then size - buffer.capacity else 0) buffer.storage =
      .ok (buffer.enlarged size atEnd).storage := by
  cases atEnd
  case false => exact store_zeros larger
  case true => exact store_zeros_end larger

/-- The request in place comes to an end, and to the same. -/
theorem run_request (buffer : GrowableBuffer) (requested : UInt64) (atEnd : Bool) :
    (buffer.request requested atEnd).run =
      .some (.ok (buffer.answerTo requested.toNat atEnd)) := by
  rcases Nat.lt_or_ge buffer.capacity requested.toNat with short | fits
  · rw [request, if_neg (Nat.not_le.mpr short)]
    rcases Nat.lt_or_ge maxBufferSize requested.toNat with past | within
    · rw [if_pos past, answerTo_of_past short past]
      rfl
    · obtain ⟨turns, least⟩ := exists_least within
      have found : (liftM (coverFrom requested (.ofNat smallestCapacity)) : Looping UInt64).run =
          .some (.ok (.ofNat (sizeAfter turns))) := by
        rw [coverFrom_of_least least (Nat.zero_le _) rfl]
        simp
      rw [if_neg (Nat.not_lt.mpr within), Looping.run_bind found, answerTo_of_least short least]
      dsimp only
      rw [toNat_ofNat_sizeAfter, store_enlarged (capacity_le_of_least short least)]
      exact Looping.run_bind rfl _
  · rw [request, if_pos fits, answerTo_of_fits fits]
    rfl

theorem reserves_answerTo (before : GrowableBuffer) (requested : Nat) (atEnd : Bool) :
    Reserves before requested atEnd (before.answerTo requested atEnd).1
      (before.answerTo requested atEnd).2 where
  enough fits := by
    rw [answerTo_of_fits fits]
    exact ⟨rfl, rfl⟩
  refused short past := by
    rw [answerTo_of_past short past]
    exact ⟨rfl, rfl⟩
  grown short within := by
    obtain ⟨turns, least⟩ := exists_least within
    have size := capacity_enlarged (capacity_le_of_least short least) atEnd
    rw [answerTo_of_least short least]
    refine ⟨rfl, rfl, turns, least, size, ?_⟩
    dsimp only
    rw [size, enlarged]

theorem Reserves.suffix (reserves : Reserves before requested true answer after) :
    before.storage <:+ after.storage := by
  rcases Nat.lt_or_ge before.capacity requested with short | fits
  · rcases Nat.lt_or_ge maxBufferSize requested with past | within
    · rcases reserves.refused short past with ⟨-, rfl⟩
      exact List.suffix_rfl
    · rcases reserves.grown short within with ⟨-, -, turns, -, -, storage⟩
      rw [storage]
      exact List.suffix_append _ _
  · rcases reserves.enough fits with ⟨-, rfl⟩
    exact List.suffix_rfl

theorem run_requestEach (buffer : GrowableBuffer) (requests : List UInt64) :
    ∃ answers last, (buffer.requestEach true requests).run = .some (.ok (answers, last)) ∧
      buffer.storage <:+ last.storage := by
  -- what one request leaves ends with the bytes that were there, and so do those after it
  induction requests generalizing buffer with
  | nil => exact ⟨[], buffer, rfl, List.suffix_rfl⟩
  | cons requested later ih =>
      have first := buffer.reserves_answerTo requested.toNat true
      obtain ⟨answers, last, ran, kept⟩ := ih (buffer.answerTo requested.toNat true).2
      refine ⟨(buffer.answerTo requested.toNat true).1 :: answers, last, ?_, first.suffix.trans kept⟩
      rw [requestEach, Looping.run_bind (buffer.run_request requested true), Looping.run_bind ran]
      rfl

/-- Every request comes to an end, and to what the buffer answers. It changes nothing where there is
room enough; it is refused where it is past the largest size, and then changes nothing either; in
any other case the storage gets the size after the fewest doublings of eight bytes, clamped to the
largest size, that covers it. However many requests move the old bytes to the end, no byte changes
its distance from there. -/
theorem request_exact (buffer : GrowableBuffer) (requested : UInt64) (atEnd : Bool)
    (requests : List UInt64) :
    (∃ answer after, (buffer.request requested atEnd).run = .some (.ok (answer, after)) ∧
        buffer.answerTo requested.toNat atEnd = (answer, after) ∧
          Reserves buffer requested.toNat atEnd answer after) ∧
      ∃ answers last, (buffer.requestEach true requests).run = .some (.ok (answers, last)) ∧
        ∀ distance ≤ buffer.capacity,
          last.storage[last.capacity - distance]? = buffer.storage[buffer.capacity - distance]? := by
  obtain ⟨answers, last, ran, kept⟩ := buffer.run_requestEach requests
  exact ⟨⟨_, _, buffer.run_request requested atEnd, rfl,
    buffer.reserves_answerTo requested.toNat atEnd⟩, answers, last, ran,
    fun _ inside => getElem?_of_suffix kept inside⟩

end GrowableBuffer

end WireTables
