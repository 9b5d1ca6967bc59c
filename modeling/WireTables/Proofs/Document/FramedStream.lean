import WireTables.Proofs.Builder.VTables
import WireTables.Proofs.Document.RoundTrip
import WireTables.Proofs.View.FrameSplitting

namespace WireTables

open Build

/-- A payload behind its size. -/
def frameOf (payload : Bytes) : Bytes :=
  ScalarType.uint32.encode (UInt32.ofNat payload.length) ++ payload

theorem length_frameOf (payload : Bytes) :
    (frameOf payload).length = referenceWidth + payload.length := by
  rw [frameOf, List.length_append, ScalarType.length_encode]
  rfl

theorem rootOf_frameOf (payload : Bytes) : rootOf (frameOf payload) = payload.length % 2 ^ 32 := by
  have stands : StandsAt (frameOf payload) (frameOf payload).length
      (ScalarType.uint32.encode (UInt32.ofNat payload.length)) := by
    rw [frameOf, List.length_append]
    exact StandsAt.of_front _ _
  obtain ⟨reference, loaded, same⟩ := load_root (length_frameOf payload ▸ Nat.le_add_right _ _)
  have first := stands.load_eq
  rw [Nat.sub_self, loaded] at first
  rw [← same, Except.ok.inj first]
  exact UInt32.toNat_ofNat'

theorem isWholeFrame_frameOf {payload : Bytes} (small : payload.length ≤ maxBufferSize) :
    IsWholeFrame (frameOf payload) := by
  have announces : announced (frameOf payload) = payload.length % 2 ^ 32 := rootOf_frameOf payload
  rw [maxBufferSize] at small
  rw [IsWholeFrame, length_frameOf, announces, Nat.mod_eq_of_lt (by omega)]

def IsFrame (bytes : Bytes) : Prop :=
  ∃ payload, bytes = frameOf payload ∧ payload.length ≤ maxBufferSize

namespace FrameStream

variable {payload : Bytes}

theorem next_frameOf (small : payload.length ≤ maxBufferSize) (rest : Bytes) :
    next ⟨frameOf payload ++ rest⟩ = (some (.ok (frameOf payload)), ⟨rest⟩) :=
  (next_frame (isWholeFrame_frameOf small) rest).1

/-- Frames that stand one after the other are split where they were joined. -/
theorem drain_frames {frames : List Bytes} (framed : ∀ frame ∈ frames, IsFrame frame) :
    drain ⟨frames.flatten⟩ = (frames.map .ok, ⟨[]⟩) := by
  induction frames with
  | nil => exact drain_nil
  | cons frame frames ih =>
      rw [List.forall_mem_cons] at framed
      obtain ⟨⟨payload, rfl, small⟩, later⟩ := framed
      rw [List.flatten_cons, drain_of_next (next_frameOf small _), ih later, List.map_cons]

end FrameStream

/-- Any calls since a builder was new or cleared, and then finishing it with its size in front: the
root is a table that was closed in that time, and `bytes` is what came of it. -/
structure FramedSession where
  builder : Builder
  records : List TableRecord
  root : TableRecord
  identifier : Option String
  after : Builder
  bytes : Bytes
  recorded : builder.Recorded records
  closed : root ∈ records
  finished : finish ⟨root.table⟩ identifier true builder = .done () after
  ended : after.finishedBytes = .ok bytes

structure TableRecord.SeenBy (record : TableRecord) (view : TableView) : Prop where
  place : view.position + record.table.toNat = view.buffer.length
  loaded : TableView.load view.buffer view.position = .ok view
  vtable : view.vtable.bytes = .ok record.vtable

theorem KeepsVTables.seen {builder : Builder} {records : List TableRecord} {record : TableRecord}
    {whole : Bytes} (keeps : KeepsVTables builder records) (known : record ∈ records)
    (suffix : builder.storage.written <:+ whole) (small : whole.length ≤ maxBufferSize) :
    ∃ view, TableView.load whole (whole.length - record.table.toNat) = .ok view ∧
      view.Contained ∧ view.buffer = whole ∧ record.SeenBy view := by
  obtain ⟨vtable, -, standing⟩ := keeps.linked record known
  have stands := standing.of_suffix suffix small
  refine ⟨_, stands.load, stands.contained, rfl, ?_⟩
  exact {
    place := Nat.sub_add_cancel stands.link.distance_le
    loaded := stands.load
    vtable := (keeps.exact record known).bytes_at stands.vtable }

namespace FramedSession

variable (session : FramedSession)

theorem payload : ∃ payload : Bytes, session.bytes = frameOf payload ∧
    payload.length ≤ maxBufferSize ∧
      ∃ view, openRoot payload = .ok view ∧ view.buffer = payload ∧ session.root.SeenBy view := by
  have keeps := session.recorded.keepsVTables
  obtain ⟨payload, small, suffix, -, refers, ended⟩ := finish_done keeps.sound.fits session.finished
  obtain ⟨view, loaded, contained, whole, seen⟩ := keeps.seen session.closed suffix small
  have same := Except.ok.inj (session.ended.symm.trans ended)
  exact ⟨payload, same, small, view, openRoot_of_refers refers loaded contained, whole, seen⟩

end FramedSession

theorem openSizedRoot_frameOf {payload : Bytes} (small : payload.length ≤ maxBufferSize)
    (more : Bytes) : openSizedRoot (frameOf payload ++ more) = openRoot payload := by
  have framed : framePayload (frameOf payload ++ more) = .ok payload :=
    framePayload_of_append small more
  rw [openSizedRoot, framed]
  rfl

/-- The root of a finished buffer, which may stand behind its size. -/
def openFinished (sized : Bool) (bytes : Bytes) : Except OpenError TableView :=
  if sized then openSizedRoot bytes else openRoot bytes

theorem openFinished_eq {payload : Bytes} (sized : Bool) (small : payload.length ≤ maxBufferSize) :
    openFinished sized (if sized then frameOf payload else payload) = openRoot payload := by
  cases sized with
  | false => rfl
  | true =>
      have framed := openSizedRoot_frameOf small []
      rwa [List.append_nil] at framed

/-- What any sessions finish with their size in front, one after the other, is split into what each
of them finished, with no error, and then nothing more comes. Each frame opens at the table that
became the root of its session, at the distance from the end that it was known by, and it opens at
the same view whatever bytes follow it. -/
theorem FramedSession.stream_round_trip (sessions : List FramedSession) :
    FrameStream.drain ⟨(sessions.map FramedSession.bytes).flatten⟩ =
      ((sessions.map FramedSession.bytes).map .ok, ⟨[]⟩) ∧
    FrameStream.next ⟨[]⟩ = (none, ⟨[]⟩) ∧
    ∀ session ∈ sessions, ∃ (payload : Bytes) (view : TableView),
      session.bytes = frameOf payload ∧ view.buffer = payload ∧ session.root.SeenBy view ∧
        ∀ more : Bytes, openSizedRoot (session.bytes ++ more) = .ok view := by
  refine ⟨FrameStream.drain_frames ?_, rfl, fun session _ => ?_⟩
  · intro frame member
    obtain ⟨session, -, rfl⟩ := List.mem_map.mp member
    obtain ⟨payload, framed, small, -⟩ := session.payload
    exact ⟨payload, framed, small⟩
  · obtain ⟨payload, framed, small, view, opened, whole, seen⟩ := session.payload
    refine ⟨payload, view, framed, whole, seen, fun more => ?_⟩
    rw [framed, openSizedRoot_frameOf small, opened]

def framing (calls : List Call) (root : TableRecord) (identifier : Option String) :
    Option (Bool × Option Bytes) :=
  ((fun reached : Builder × List TableRecord =>
    (decide (root ∈ reached.2),
      ((do finish ⟨root.table⟩ identifier true; state : Build Builder) reached.1).value?.bind
        fun after => after.finishedBytes.toOption)) <$>
    (Builder.ofOptions ⟨0, false⟩).recording [] calls).toOption

theorem FramedSession.of_framing {calls : List Call} {root : TableRecord}
    {identifier : Option String} {bytes : Bytes}
    (framed : framing calls root identifier = some (true, some bytes)) :
    ∃ session : FramedSession, session.root = root ∧ session.bytes = bytes := by
  obtain ⟨⟨builder, records⟩, made, shown⟩ := read_map.mp (ok_of_toOption framed)
  simp only [Prod.mk.injEq, decide_eq_true_eq] at shown
  rcases shown with ⟨closed, finishing⟩
  obtain ⟨last, value, ended⟩ := Option.bind_eq_some_iff.mp finishing
  obtain ⟨after, ran⟩ := Outcome.done_of_value? value
  rcases done_bind.mp ran with ⟨_, _, finished, same⟩
  cases same
  have recorded := (Builder.Recorded.new ⟨0, false⟩ (by decide)).of_recording made
  exact ⟨⟨builder, records, root, identifier, _, bytes, recorded, closed, finished,
    ok_of_toOption ended⟩, rfl, rfl⟩

theorem stream_round_trip_of_two :
    let first : Bytes := [12, 0, 0, 0, 8, 0, 0, 0, 4, 0, 4, 0, 4, 0, 0, 0]
    let second : Bytes := [32, 0, 0, 0, 24, 0, 0, 0, 70, 76, 65, 84, 4, 0, 6, 0, 4, 0, 0, 0, 0, 0,
      6, 0, 8, 0, 6, 0, 6, 0, 0, 0, 0, 0, 5, 0]
    splitFrames (first ++ second) = [.ok first, .ok second] ∧
      ∃ view, openSizedRoot (second ++ [1, 2]) = .ok view ∧ view.position + 8 = 32 := by
  intro first second
  have firstFramed : framing [.openTable 0, .closeTable] ⟨4, 0, []⟩ none =
      some (true, some first) := by decide +kernel
  have secondFramed : framing [.openTable 1, .storeScalar 4 .int16 (5 : Int16) (0 : Int16),
      .closeTable, .openTable 0, .closeTable] ⟨8, 0, [2]⟩ (some "FLAT") =
      some (true, some second) := by decide +kernel
  obtain ⟨empty, -, emptyBytes⟩ := FramedSession.of_framing firstFramed
  obtain ⟨marked, markedRoot, markedBytes⟩ := FramedSession.of_framing secondFramed
  obtain ⟨drained, -, opens⟩ := FramedSession.stream_round_trip [empty, marked]
  obtain ⟨payload, view, framed, whole, seen, opened⟩ := opens marked (by simp)
  have place := seen.place
  rw [whole, markedRoot] at place
  have length := length_frameOf payload
  rw [← framed, markedBytes] at length
  rw [markedBytes] at opened
  simp only [List.map_cons, List.map_nil, List.flatten_cons, List.flatten_nil, List.append_nil,
    emptyBytes, markedBytes] at drained
  refine ⟨congrArg Prod.fst drained, view, opened [1, 2], place.trans ?_⟩
  exact Nat.add_left_cancel (length.symm.trans rfl)

end WireTables
