import WireTables.Proofs.View.RootBounds

namespace WireTables

/-- How many bytes are to follow, by the size in front of them. -/
def announced (bytes : Bytes) : Nat := numberAt bytes 0 referenceWidth

/-- As many bytes behind the size as it announces, and no more. -/
def IsWholeFrame (frame : Bytes) : Prop := frame.length = referenceWidth + announced frame

/-- What is left begins a frame without completing it, and what is reported about that. -/
inductive CutShort (rest : Bytes) : OpenError → Prop
  | size (nonempty : rest ≠ []) (short : rest.length < referenceWidth) :
      CutShort rest (.tooShort referenceWidth rest.length)
  | payload (sized : referenceWidth ≤ rest.length)
      (short : rest.length < referenceWidth + announced rest) :
      CutShort rest (.tooShort (referenceWidth + announced rest) rest.length)

/-- The payload by a check before each read. -/
def framePayloadByChecks (bytes : Bytes) : ExceptT OpenError (Except Fault) Bytes := do
  requireInside bytes 0 referenceWidth (.tooShort referenceWidth bytes.length)
  let size ← (loadScalar .uint32 bytes 0 : Except Fault UInt32)
  requireInside bytes referenceWidth size.toNat
    (.tooShort (referenceWidth + size.toNat) bytes.length)
  (slice bytes referenceWidth size.toNat : Except Fault Bytes)

namespace FrameStream

/-- A step that takes the frame and what follows it as ranges of the stream, which can fault. -/
def nextByChecks (stream : FrameStream) :
    Except Fault (Option (Except OpenError Bytes) × FrameStream) :=
  if stream.rest.isEmpty then pure (none, stream)
  else do
    match ← (framePayloadByChecks stream.rest).run with
    | .ok payload => do
        let width := referenceWidth + payload.length
        let frame ← slice stream.rest 0 width
        let rest ← slice stream.rest width (stream.rest.length - width)
        pure (some (.ok frame), ⟨rest⟩)
    | .error error => pure (some (.error error), ⟨[]⟩)

def answers (stream : FrameStream) :
    Nat → Except Fault (List (Option (Except OpenError Bytes)))
  | 0 => pure []
  | count + 1 => do
      let (answer, after) ← stream.nextByChecks
      let later ← after.answers count
      pure (answer :: later)

end FrameStream

section Payload

variable {bytes rest : Bytes} {error : OpenError}

theorem load_announced (sized : referenceWidth ≤ bytes.length) :
    ∃ size, loadScalar .uint32 bytes 0 = .ok size ∧ size.toNat = announced bytes :=
  load_root sized

theorem IsWholeFrame.announced_append {frame : Bytes} (whole : IsWholeFrame frame)
    (behind : Bytes) : announced (frame ++ behind) = announced frame := by
  have sized : referenceWidth ≤ frame.length := Nat.le_of_add_right_le (Nat.le_of_eq whole.symm)
  simp only [announced, numberAt, List.drop_zero, List.take_append_of_le_length sized]

theorem IsWholeFrame.payload_append {frame : Bytes} (whole : IsWholeFrame frame) (behind : Bytes) :
    framePayload (frame ++ behind) = .ok (frame.drop referenceWidth) ∧
      framePayloadByChecks (frame ++ behind) = pure (frame.drop referenceWidth) := by
  have length : (frame ++ behind).length = referenceWidth + announced frame + behind.length := by
    rw [List.length_append, whole]
  have first : 0 + referenceWidth ≤ (frame ++ behind).length := by omega
  obtain ⟨size, loaded, same⟩ := load_announced (Nat.le_trans (Nat.le_add_left ..) first)
  rw [whole.announced_append] at same
  have taken : slice (frame ++ behind) referenceWidth size.toNat =
      .ok (frame.drop referenceWidth) := by
    have payload : (frame.drop referenceWidth).length = announced frame := by
      rw [List.length_drop, whole, Nat.add_sub_cancel_left]
    rw [same, slice_ok (by omega), List.drop_append_of_le_length (by rw [whole]; omega), ← payload,
      List.take_left]
  have inside : referenceWidth + size.toNat ≤ (frame ++ behind).length := by omega
  constructor
  · rw [framePayload, reporting_bind loaded, taken]
    rfl
  · rw [framePayloadByChecks, requireInside_bind first, read_lift loaded, requireInside_bind inside,
      taken]
    rfl

theorem framePayload_of_cut (cut : CutShort bytes error) :
    framePayload bytes = .error error ∧ framePayloadByChecks bytes = throw error := by
  cases cut with
  | size nonempty short =>
      have outside : bytes.length < 0 + referenceWidth := by rwa [Nat.zero_add]
      have faulty : loadScalar .uint32 bytes 0 = .error .outOfRange := loadScalar_outside outside
      exact ⟨reporting_bind_fault faulty, requireInside_bind_outside outside⟩
  | payload sized short =>
      obtain ⟨size, loaded, same⟩ := load_announced sized
      have first : 0 + referenceWidth ≤ bytes.length := by rwa [Nat.zero_add]
      rw [← same] at short ⊢
      constructor
      · rw [framePayload, reporting_bind loaded, slice_outside short]
        rfl
      · rw [framePayloadByChecks, requireInside_bind first, read_lift loaded,
          requireInside_bind_outside short]

theorem IsWholeFrame.payload {frame : Bytes} (whole : IsWholeFrame frame) :
    framePayload frame = .ok (frame.drop referenceWidth) := by
  have taken := (whole.payload_append []).1
  rwa [List.append_nil] at taken

theorem IsWholeFrame.opens {frame : Bytes} (whole : IsWholeFrame frame) :
    openSizedRoot frame = openRoot (frame.drop referenceWidth) := by
  rw [openSizedRoot, whole.payload]
  rfl

theorem exists_wholeFrame (long : referenceWidth + announced bytes ≤ bytes.length) :
    ∃ frame behind, bytes = frame ++ behind ∧ IsWholeFrame frame := by
  refine ⟨bytes.take (referenceWidth + announced bytes), bytes.drop _,
    (List.take_append_drop _ bytes).symm, ?_⟩
  have same : announced (bytes.take (referenceWidth + announced bytes)) = announced bytes := by
    rw [announced, numberAt, List.drop_zero, List.take_take, Nat.min_eq_left (Nat.le_add_right ..)]
    rfl
  rw [IsWholeFrame, same, List.length_take, Nat.min_eq_left long]

theorem CutShort.nonempty (cut : CutShort rest error) : rest ≠ [] := by
  cases cut with
  | size nonempty => exact nonempty
  | payload sized short => rintro rfl; simp [referenceWidth] at sized

theorem CutShort.unique {other : OpenError} (cut : CutShort rest error)
    (again : CutShort rest other) : error = other := by
  cases cut <;> cases again <;> first | omega | rfl

theorem exists_cutShort_iff : (∃ error, CutShort rest error) ↔
    rest ≠ [] ∧ (rest.length < referenceWidth ∨ rest.length < referenceWidth + announced rest) := by
  constructor
  · rintro ⟨error, cut⟩
    refine ⟨cut.nonempty, ?_⟩
    cases cut with
    | size _ short => exact .inl short
    | payload _ short => exact .inr short
  · rintro ⟨nonempty, short⟩
    rcases Nat.lt_or_ge rest.length referenceWidth with unsized | sized
    · exact ⟨_, .size nonempty unsized⟩
    · exact ⟨_, .payload sized (by omega)⟩

theorem frame_cases (bytes : Bytes) : bytes = [] ∨ (∃ error, CutShort bytes error) ∨
    ∃ frame behind, bytes = frame ++ behind ∧ IsWholeFrame frame := by
  by_cases empty : bytes = []
  · exact .inl empty
  by_cases short : ∃ error, CutShort bytes error
  · exact .inr (.inl short)
  · rw [exists_cutShort_iff] at short
    simp only [ne_eq, empty, not_false_eq_true, true_and, not_or, Nat.not_lt] at short
    exact .inr (.inr (exists_wholeFrame short.2))

end Payload

namespace FrameStream

theorem next_frame {frame : Bytes} (whole : IsWholeFrame frame) (behind : Bytes) :
    next ⟨frame ++ behind⟩ = (some (.ok frame), ⟨behind⟩) ∧
      nextByChecks ⟨frame ++ behind⟩ = .ok (some (.ok frame), ⟨behind⟩) := by
  have sized := whole
  rw [IsWholeFrame, referenceWidth] at sized
  have nonempty : ¬ (frame ++ behind).isEmpty := by
    rw [List.isEmpty_iff_length_eq_zero, List.length_append]
    omega
  obtain ⟨taken, checked⟩ := whole.payload_append behind
  have width : referenceWidth + (frame.drop referenceWidth).length = frame.length := by
    rw [List.length_drop, referenceWidth]
    omega
  have front : slice (frame ++ behind) 0 frame.length = .ok frame := by
    rw [slice_ok (by simp), List.drop_zero, List.take_left]
  have later : slice (frame ++ behind) frame.length ((frame ++ behind).length - frame.length) =
      .ok behind := by
    rw [slice_ok (by simp), List.drop_left, List.length_append, Nat.add_sub_cancel_left,
      List.take_length]
  constructor
  · rw [next, if_neg nonempty, taken]
    simp only [width, List.take_left, List.drop_left]
  · rw [nextByChecks, if_neg nonempty, checked]
    change (slice (frame ++ behind) 0 (referenceWidth + (frame.drop referenceWidth).length) >>= _) = _
    rw [width, front]
    change (slice (frame ++ behind) frame.length _ >>= _) = _
    rw [later]
    rfl

theorem next_cut {rest : Bytes} {error : OpenError} (cut : CutShort rest error) :
    next ⟨rest⟩ = (some (.error error), ⟨[]⟩) ∧
      nextByChecks ⟨rest⟩ = .ok (some (.error error), ⟨[]⟩) := by
  have nonempty : ¬ rest.isEmpty := by
    rw [List.isEmpty_iff]
    exact cut.nonempty
  obtain ⟨declined, checked⟩ := framePayload_of_cut cut
  rw [next, nextByChecks, if_neg nonempty, if_neg nonempty, declined, checked]
  exact ⟨rfl, rfl⟩

inductive Leaves : Bytes → Option OpenError → Prop
  | nothing : Leaves [] none
  | cut {rest : Bytes} {error : OpenError} (short : CutShort rest error) : Leaves rest (some error)

theorem drain_nil : drain ⟨[]⟩ = ([], ⟨[]⟩) := by
  rw [drain]
  rfl

theorem drain_of_next {stream after : FrameStream} {item : Except OpenError Bytes}
    (found : stream.next = (some item, after)) :
    stream.drain = (item :: after.drain.1, after.drain.2) := by
  rw [drain]
  split
  case h_1 ended =>
    rw [found] at ended
    cases ended
  case h_2 other =>
    rw [found] at other
    cases other
    rfl

/-- A stream is its frames and what is left behind them, and ends with the report about that. -/
theorem drain_splits (stream : Bytes) :
    ∃ (frames : List Bytes) (rest : Bytes) (report : Option OpenError),
      stream = frames.flatten ++ rest ∧ (∀ frame ∈ frames, IsWholeFrame frame) ∧
        Leaves rest report ∧
          drain ⟨stream⟩ = (frames.map .ok ++ (report.map .error).toList, ⟨[]⟩) := by
  have none_yet : ∀ frame ∈ ([] : List Bytes), IsWholeFrame frame := nofun
  induction length : stream.length using Nat.strongRecOn generalizing stream with
  | ind bound ih =>
      rcases frame_cases stream with rfl | ⟨error, cut⟩ | ⟨frame, behind, rfl, whole⟩
      · exact ⟨[], [], none, rfl, none_yet, .nothing, drain_nil⟩
      · refine ⟨[], stream, some error, rfl, none_yet, .cut cut, ?_⟩
        rw [drain_of_next (next_cut cut).1, drain_nil]
        rfl
      -- a whole frame holds its size at least, so less is left behind it
      · have shorter : behind.length < bound := by
          rw [IsWholeFrame, referenceWidth] at whole
          rw [List.length_append] at length
          omega
        obtain ⟨frames, rest, report, joined, wholes, left, drained⟩ := ih _ shorter behind rfl
        refine ⟨frame :: frames, rest, report, ?_, List.forall_mem_cons.mpr ⟨whole, wholes⟩, left, ?_⟩
        · rw [List.flatten_cons, List.append_assoc, ← joined]
        · rw [drain_of_next (next_frame whole behind).1, drained]
          rfl

theorem nextByChecks_eq (rest : Bytes) : nextByChecks ⟨rest⟩ = .ok (next ⟨rest⟩) := by
  rcases frame_cases rest with rfl | ⟨error, cut⟩ | ⟨frame, behind, rfl, whole⟩
  · rfl
  · rw [(next_cut cut).1, (next_cut cut).2]
  · rw [(next_frame whole behind).1, (next_frame whole behind).2]

theorem answers_eq (rest : Bytes) (count : Nat) :
    answers ⟨rest⟩ count = .ok ((List.range count).map ((drain ⟨rest⟩).1[·]?)) := by
  induction count generalizing rest with
  | zero => rfl
  | succ count ih =>
      rw [answers, List.range_succ_eq_map, List.map_cons, List.map_map]
      rcases frame_cases rest with rfl | ⟨error, cut⟩ | ⟨frame, behind, rfl, whole⟩
      · have later := ih []
        rw [drain_nil] at later ⊢
        exact read_bind.mpr ⟨_, rfl, read_bind.mpr ⟨_, later, rfl⟩⟩
      · rw [drain_of_next (next_cut cut).1]
        exact read_bind.mpr ⟨_, (next_cut cut).2, read_bind.mpr ⟨_, ih [], rfl⟩⟩
      · rw [drain_of_next (next_frame whole behind).1]
        exact read_bind.mpr ⟨_, (next_frame whole behind).2, read_bind.mpr ⟨_, ih behind, rfl⟩⟩

end FrameStream

/-- Splitting never faults and comes to an end, whatever the bytes are. It hands out whole frames,
each as long as the size in front of it says and so accepted for its length; then it reports at most
one error, and any further step answers with nothing. The frames and what is left behind them are
the stream, and the frames alone are the stream just when no error is reported. What is reported is
that there are too few bytes, and just when something is left that cannot hold a size or is shorter
than its size says. -/
theorem splitFrames_exact (stream : Bytes) :
    ∃ (frames : List Bytes) (rest : Bytes) (report : Option OpenError),
      let items := frames.map .ok ++ (report.map .error).toList
      stream = frames.flatten ++ rest ∧
      (∀ frame ∈ frames, frame.length = referenceWidth + announced frame ∧
        framePayload frame = .ok (frame.drop referenceWidth) ∧
        openSizedRoot frame = openRoot (frame.drop referenceWidth)) ∧
      (report = none ↔ frames.flatten = stream) ∧
      (∀ error, report = some error ↔ CutShort rest error) ∧
      ((∃ error, report = some error) ↔ rest ≠ [] ∧
        (rest.length < referenceWidth ∨ rest.length < referenceWidth + announced rest)) ∧
      splitFrames stream = items ∧
      (∀ left, FrameStream.nextByChecks ⟨left⟩ = .ok (FrameStream.next ⟨left⟩)) ∧
      ∀ count, FrameStream.answers ⟨stream⟩ count = .ok ((List.range count).map (items[·]?)) := by
  obtain ⟨frames, rest, report, joined, wholes, left, drained⟩ := FrameStream.drain_splits stream
  have reported : ∀ error, report = some error ↔ CutShort rest error := by
    cases left with
    | nothing => exact fun error => ⟨nofun, fun cut => (cut.nonempty rfl).elim⟩
    | cut short => exact fun error => ⟨fun same => Option.some.inj same ▸ short,
        fun cut => congrArg some (short.unique cut)⟩
  refine ⟨frames, rest, report, joined, ?_, ?_, reported, ?_, ?_, FrameStream.nextByChecks_eq, ?_⟩
  · intro frame member
    have whole := wholes frame member
    exact ⟨whole, whole.payload, whole.opens⟩
  · rw [joined, List.self_eq_append_right]
    cases left with
    | nothing => exact ⟨fun _ => rfl, fun _ => rfl⟩
    | cut short => exact ⟨nofun, fun empty => (short.nonempty empty).elim⟩
  · simp only [reported, exists_cutShort_iff]
  · rw [splitFrames, drained]
  · intro count
    rw [FrameStream.answers_eq, drained]

example : splitFrames [0, 0, 0, 0, 1, 0, 0, 0, 7, 2, 0, 0, 0, 7] =
    [.ok [0, 0, 0, 0], .ok [1, 0, 0, 0, 7], .error (.tooShort 6 5)] := by cbv

end WireTables
