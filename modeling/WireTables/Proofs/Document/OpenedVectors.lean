import WireTables.Proofs.Document.Origin

namespace WireTables

open Build

def Call.elements? : Call → Option Nat
  | openVector elementSize count _ => some (elementSize * count)
  | openFilledVector elementSize count _ _ => some (elementSize * count)
  | _ => none

theorem content_of_opens {call : Call} {payload : Nat} (opens : call.elements? = some payload) :
    call.content? = none := by
  cases call with
  | openVector | openFilledVector => rfl
  | _ => cases opens

def Builder.Filling (builder : Builder) : Prop :=
  builder.openObject ≠ .nothing ∧ ∀ start fields, builder.openObject ≠ .table start fields

section Opened

variable {first last before after : Builder} {call : Call} {answer : Answer} {list : List Turn}

theorem filling_of_vector {count : Nat} (opened : before.openObject = .vector count) :
    before.Filling := by
  rw [Builder.Filling, opened]
  exact ⟨nofun, nofun⟩

theorem filling_of_opens {payload : Nat} {reply : Reply} (opens : call.elements? = some payload)
    (stepped : call.step before = .ok (.ok reply, after)) : after.Filling := by
  have ran := Call.done_of_step stepped
  cases call with
  | openVector elementSize count alignment =>
      rcases done_bind.mp ran with ⟨_, _, openRan, ended⟩
      cases ended
      obtain ⟨second, third, -, -, -, rfl⟩ := openVector_steps openRan
      exact filling_of_vector rfl
  | openFilledVector elementSize count alignment filling =>
      rcases done_bind.mp ran with ⟨_, _, openRan, ended⟩
      cases ended
      obtain ⟨opened, laid, opens, pushed, -⟩ := openFilledVector_steps openRan
      obtain ⟨second, third, -, -, -, rfl⟩ := openVector_steps opens
      exact filling_of_vector pushed.openObject
  | _ => cases opens

theorem place_of_closeVector {offset : UInt32} (small : after.storage.size ≤ maxBufferSize)
    (stepped : Call.closeVector.step before = .ok (.ok (.object offset), after)) :
    offset.toNat = after.storage.size ∧
      after.storage.size = referenceWidth + before.storage.size := by
  rcases done_bind.mp (Call.done_of_step stepped) with ⟨object, _, closeRan, ended⟩
  cases ended
  cases opened : before.openObject with
  | vector count =>
      obtain ⟨middle, pushed, rfl, place⟩ := closeVector_done opened closeRan
      have size := pushed.size
      rw [ScalarType.length_encode] at size
      exact ⟨place ▸ toNat_ofNat_of_size small, size⟩
  | nothing | table =>
      rw [closeVector_apply, opened] at closeRan
      cases closeRan

theorem filling_of_step (ordered : before.Ordered) (small : after.storage.size ≤ maxBufferSize)
    (filling : before.Filling) (busy : after.openObject ≠ .nothing)
    (stepped : call.step before = .ok (answer, after)) : after.Filling := by
  refine ⟨busy, fun start fields opened => ?_⟩
  rcases filling with ⟨wasBusy, noTable⟩
  cases Books.of_step ordered small stepped with
  | cleared _ same =>
      rw [same] at busy
      exact busy rfl
  | forced force reply same =>
      rw [same] at opened
      exact noTable start fields opened
  | opened count reply same =>
      rcases done_bind.mp (Call.done_of_step stepped) with ⟨_, _, openRan, ended⟩
      exact wasBusy (openTable_done openRan).1
  | stored reply adds stores =>
      cases stores with
      | omitted start fields unchanged wasOpen => exact noTable start fields wasOpen
      | kept start fields index location wasOpen => exact noTable start fields wasOpen
  | closed closed => exact busy closed.openObject
  | spared unchanged spares =>
      rcases spares.openObject with same | none
      · exact noTable start fields (same ▸ opened)
      · exact none start fields opened

theorem Turns.filling (turns : Turns first list last) (ordered : first.Ordered)
    (filling : first.Filling) (busy : ∀ turn ∈ list, turn.after.openObject ≠ .nothing) :
    last.Filling ∧ ∀ turn ∈ list, turn.before.Filling := by
  induction turns with
  | nothing => exact ⟨filling, fun _ member => absurd member List.not_mem_nil⟩
  | made early kept stepped small ih =>
      rw [List.forall_mem_cons] at busy
      obtain ⟨here, others⟩ := ih busy.2
      exact ⟨filling_of_step (early.ordered ordered) small here busy.1 stepped,
        List.forall_mem_cons.mpr ⟨here, others⟩⟩

theorem Turns.apart_from_vector {early middle late : List Turn} {opening closing origin : Turn}
    {payload : Nat} {reply : Reply}
    (turns : Turns first (late ++ closing :: (middle ++ opening :: early)) last)
    (ordered : first.Ordered) (opens : opening.call.elements? = some payload)
    (accepted : opening.answer = .ok reply)
    (busy : ∀ turn ∈ middle, turn.after.openObject ≠ .nothing)
    (closes : closing.call = .closeVector)
    (member : origin ∈ late ++ closing :: (middle ++ opening :: early))
    (adds : origin.call.content?.isSome)
    (opened : ∃ start fields, origin.before.openObject = .table start fields) :
    origin.after.storage.size ≤ opening.before.storage.size ∨
      closing.after.storage.size ≤ origin.before.storage.size := by
  obtain ⟨closed, untilClosed, afterwards⟩ := turns.split
  have closedOrdered := untilClosed.ordered ordered
  rcases untilClosed with _ | ⟨untilFull, _, _, _⟩
  obtain ⟨empty, untilEmpty, between⟩ := untilFull.split
  have emptyOrdered := untilEmpty.ordered ordered
  rcases untilEmpty with _ | ⟨untilOpened, _, openStep, _⟩
  dsimp only at opens accepted closes
  subst accepted closes
  rcases List.mem_append.mp member with after | member
  · exact .inr (Builder.size_le_of_changes (afterwards.holds closedOrdered after).early)
  rcases List.mem_cons.mp member with rfl | member
  · cases adds
  rcases List.mem_append.mp member with inside | member
  · obtain ⟨-, filling⟩ := between.filling emptyOrdered (filling_of_opens opens openStep) busy
    rcases opened with ⟨start, fields, opened⟩
    exact absurd opened ((filling origin inside).2 start fields)
  rcases List.mem_cons.mp member with rfl | member
  · rw [content_of_opens opens] at adds
    cases adds
  · exact .inl (Builder.size_le_of_changes (untilOpened.holds ordered member).late)

end Opened

end WireTables
