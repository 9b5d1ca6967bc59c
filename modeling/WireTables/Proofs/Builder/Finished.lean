import WireTables.Proofs.Builder.Finality

/-!
What calls can still do to a finished builder. All that write through `prepare`, and all that need an
object to be open or need that none is, are refused and leave the builder as it is. Padding and
putting only look at the room that is left, so they go on writing in front of the finished bytes.
-/

namespace WireTables

namespace Build

variable {α β : Type} {step : Build α} {builder : Builder}

/-- The step is refused and changes nothing. -/
def Rejects (step : Build α) (builder : Builder) : Prop :=
  ∃ error, step builder = .refused error builder

namespace Rejects

theorem bind (rejects : Rejects step builder) (next : α → Build β) :
    Rejects (step >>= next) builder := by
  rcases rejects with ⟨error, ran⟩
  exact ⟨error, bind_of_refused ran⟩

theorem still (rejects : Rejects step builder) : Moves Eq step builder := by
  rcases rejects with ⟨error, ran⟩
  intro after left
  rw [ran] at left
  cases left
  rfl

end Rejects

theorem rejects_requireUnfinished (finished : builder.finished = true) :
    Rejects requireUnfinished builder := by
  refine ⟨.finished, ?_⟩
  rw [requireUnfinished_apply, if_pos finished]

theorem rejects_requireNothingOpen (finished : builder.finished = true) :
    Rejects requireNothingOpen builder := by
  refine ⟨.finished, ?_⟩
  rw [requireNothingOpen_apply, if_pos finished]

theorem rejects_prepare {size : Nat} (regular : size.isPowerOfTwo) (additional : Nat)
    (finished : builder.finished = true) : Rejects (prepare size additional) builder := by
  refine ⟨.finished, ?_⟩
  rw [prepare_apply, if_pos regular, if_pos finished]

theorem still_prepare (size additional : Nat) (finished : builder.finished = true) :
    Moves Eq (prepare size additional) builder := by
  intro after left
  exact (rejects_prepare (regular_of_prepare left) additional finished).still after left

theorem rejects_openVector (elementSize count alignment : Nat)
    (finished : builder.finished = true) :
    Rejects (openVector elementSize count alignment) builder :=
  (rejects_requireNothingOpen finished).bind _

theorem rejects_writeByteString (bytes : Bytes) (finished : builder.finished = true) :
    Rejects (writeByteString bytes) builder :=
  (rejects_requireNothingOpen finished).bind _

theorem rejects_writeReferences {kind : Kind} (items : List (Offset kind))
    (finished : builder.finished = true) : Rejects (writeReferences items) builder :=
  (rejects_openVector _ _ _ finished).bind _

theorem rejects_writeStrings (texts : List String) (finished : builder.finished = true) :
    Rejects (writeStrings texts) builder := by
  simp only [writeStrings]
  cases texts with
  | nil =>
      rw [List.mapM_nil, pure_bind]
      exact rejects_writeReferences [] finished
  | cons text texts =>
      rw [List.mapM_cons, bind_assoc]
      exact (rejects_writeByteString _ finished).bind _

theorem rejects_openField (slot : Slot) (closed : builder.openObject = .nothing) :
    Rejects (openField slot) builder := by
  refine ⟨.nothingOpen, ?_⟩
  rw [openField_apply, closed]

theorem rejects_closeTable (closed : builder.openObject = .nothing) :
    Rejects closeTable builder := by
  refine ⟨.nothingOpen, ?_⟩
  rw [closeTable_apply, closed]

theorem rejects_closeVector {element : Kind} (closed : builder.openObject = .nothing) :
    Rejects (@closeVector element) builder := by
  refine ⟨.nothingOpen, ?_⟩
  rw [closeVector_apply, closed]

theorem rejects_finish (root : Offset .table) (identifier : Option String) (sized : Bool)
    (finished : builder.finished = true) : Rejects (finish root identifier sized) builder := by
  cases invalid : (identifier.map encodeText).filter (!validIdentifier ·) with
  | some mark =>
      refine ⟨.badIdentifier mark.length, ?_⟩
      rw [finish_apply, invalid]
  | none =>
      obtain ⟨error, ran⟩ := rejects_requireNothingOpen finished
      refine ⟨error, ?_⟩
      rw [finish_apply, invalid]
      exact bind_of_refused ran

theorem still_writeSortedBy (compare : TableView → TableView → Except Fault Ordering)
    (tables : List (Offset .table)) (finished : builder.finished = true) :
    Moves Eq (writeSortedBy compare tables) builder :=
  moves_writeSortedBy rfl compare tables fun order => (rejects_writeReferences order finished).still

theorem still_replying {reply : α → Reply} (still : Moves Eq step builder) :
    Moves Eq (replying reply step) builder :=
  Moves.bind .trans still fun _ _ _ => Moves.of_pure rfl _

end Build

namespace Call

open Build

variable {builder after : Builder} {answer : Answer} {call : Call}

/-- What the call writes into a builder that is finished. -/
def lateBytes : Call → Bytes
  | pad count => zeros count
  | put type value => type.encode value
  | _ => []

/-- The two calls that write without asking whether the builder is finished. -/
def WritesLate : Call → Prop
  | pad count => count ≠ 0
  | put .. => True
  | _ => False

theorem lateBytes_eq_nil (call : Call) : call.lateBytes = [] ↔ ¬ call.WritesLate := by
  cases call with
  | pad count =>
      rw [lateBytes, WritesLate, ← List.length_eq_zero_iff, length_zeros, Decidable.not_not]
  | put type value =>
      rw [lateBytes, WritesLate, ← List.length_eq_zero_iff, ScalarType.length_encode]
      cases type <;> decide
  | _ => simp [lateBytes, WritesLate]

def Settles (call : Call) (before after : Builder) : Prop :=
  after.finished = before.finished ∧ after.openObject = before.openObject ∧
    after.storage.written = call.lateBytes ++ before.storage.written

theorem settles_of_still (silent : call.lateBytes = []) (still : Moves Eq call.run builder) :
    Moves call.Settles call.run builder := by
  intro after left
  cases still after left
  rw [Settles, silent]
  exact ⟨rfl, rfl, rfl⟩

theorem settles_of_rejects {α : Type} {step : Build α} {reply : α → Reply}
    (runs : call.run = replying reply step) (silent : call.lateBytes = [])
    (rejects : Rejects step builder) : Moves call.Settles call.run builder :=
  settles_of_still silent (runs ▸ still_replying rejects.still)

theorem settles_of_writes {write : Build Unit} (runs : call.run = quietly write)
    (pushes : ∀ {middle}, write builder = .done () middle →
      Pushed builder middle call.lateBytes)
    (accepted : ∀ {error middle}, write builder ≠ .refused error middle) :
    Moves call.Settles call.run builder := by
  rw [runs]
  apply Moves.of_endings
  · intro reply after ran
    rcases done_bind.mp ran with ⟨_, middle, wrote, rest⟩
    cases rest
    have pushed := pushes wrote
    exact ⟨pushed.finished, pushed.openObject, pushed.written⟩
  · intro error after ran
    rcases refused_bind.mp ran with refused | ⟨_, middle, -, rest⟩
    · exact absurd refused accepted
    · cases rest

theorem settles_run (kept : call ≠ .clear) (finished : builder.finished = true)
    (closed : builder.openObject = .nothing) : Moves call.Settles call.run builder := by
  cases call with
  | clear => exact absurd rfl kept
  | forceDefaults force =>
      intro after left
      cases left
      exact ⟨rfl, rfl, rfl⟩
  | pad count => exact settles_of_writes rfl (fun padded => (pad_done padded).1) pad_not_refused
  | put type value => exact settles_of_writes rfl (fun wrote => (put_done wrote).1) put_not_refused
  | prepare size additional =>
      exact settles_of_still rfl (still_replying (still_prepare size additional finished))
  | add type value =>
      exact settles_of_rejects rfl rfl
        ((rejects_prepare type.isPowerOfTwo_width _ finished).bind _)
  | addReference target =>
      exact settles_of_rejects rfl rfl ((rejects_prepare ⟨2, rfl⟩ _ finished).bind _)
  | openTable fields =>
      exact settles_of_rejects rfl rfl ((rejects_requireNothingOpen finished).bind _)
  | storeScalar slot type value default =>
      exact settles_of_rejects rfl rfl ((rejects_openField slot closed).bind _)
  | storeOptional slot type value =>
      exact settles_of_rejects rfl rfl ((rejects_openField slot closed).bind _)
  | storeReference slot target =>
      exact settles_of_rejects rfl rfl ((rejects_openField slot closed).bind _)
  | storeStruct slot target =>
      exact settles_of_rejects rfl rfl ((rejects_openField slot closed).bind _)
  | closeTable => exact settles_of_rejects rfl rfl (rejects_closeTable closed)
  | requireField table slot =>
      exact settles_of_still rfl (still_replying (still_requireField table slot builder))
  | openVector elementSize count alignment =>
      exact settles_of_rejects rfl rfl (rejects_openVector _ _ _ finished)
  | openFilledVector elementSize count alignment filling =>
      exact settles_of_rejects rfl rfl ((rejects_openVector _ _ _ finished).bind _)
  | closeVector => exact settles_of_rejects rfl rfl (rejects_closeVector closed)
  | writeScalars type items =>
      exact settles_of_rejects rfl rfl ((rejects_openVector _ _ _ finished).bind _)
  | writeBytes bytes => exact settles_of_rejects rfl rfl ((rejects_openVector _ _ _ finished).bind _)
  | writeReferences items => exact settles_of_rejects rfl rfl (rejects_writeReferences items finished)
  | writeStrings texts => exact settles_of_rejects rfl rfl (rejects_writeStrings texts finished)
  | writeSorted key tables =>
      exact settles_of_still rfl (still_replying (still_writeSortedBy key.orderTables tables finished))
  | writeSortedBy compare tables =>
      exact settles_of_still rfl (still_replying (still_writeSortedBy compare tables finished))
  | writeString text => exact settles_of_rejects rfl rfl (rejects_writeByteString _ finished)
  | writeByteString bytes =>
      exact settles_of_rejects rfl rfl (rejects_writeByteString bytes finished)
  | shareString text =>
      exact settles_of_rejects rfl rfl ((rejects_requireUnfinished finished).bind _)
  | finish root identifier sized =>
      exact settles_of_rejects rfl rfl (rejects_finish root identifier sized finished)

end Call

namespace Builder

variable {builder : Builder} {calls : List Call} {stages : List (Answer × Builder)}

/-- What calls write into a finished builder, the later ones in front. -/
def lateBytes (calls : List Call) : Bytes := calls.reverse.flatMap Call.lateBytes

theorem lateBytes_cons (call : Call) (calls : List Call) :
    lateBytes (call :: calls) = lateBytes calls ++ call.lateBytes := by
  rw [lateBytes, List.reverse_cons, List.flatMap_append, List.flatMap_singleton, ← lateBytes]

theorem lateBytes_eq_nil (calls : List Call) :
    lateBytes calls = [] ↔ ∀ call ∈ calls, ¬ call.WritesLate := by
  rw [lateBytes, List.flatMap_eq_nil_iff]
  simp only [List.mem_reverse, Call.lateBytes_eq_nil]

theorem settles_of_run (kept : ∀ call ∈ calls, call ≠ .clear) (finished : builder.finished = true)
    (closed : builder.openObject = .nothing) (ran : builder.run calls = .ok stages) :
    ∀ (index : Nat) (stage : Answer × Builder), stages[index]? = some stage →
      stage.2.finished = true ∧
        stage.2.storage.written = lateBytes (calls.take (index + 1)) ++ builder.storage.written := by
  induction calls generalizing builder stages with
  | nil =>
      cases ran
      intro index stage reached
      cases reached
  | cons call calls ih =>
      rw [List.forall_mem_cons] at kept
      rcases run_cons.mp ran with ⟨answer, middle, later, stepped, ranLater, rfl⟩
      obtain ⟨stillFinished, stillClosed, written⟩ :=
        Call.settles_run kept.1 finished closed middle (Call.leaves_of_step stepped)
      rw [finished] at stillFinished
      rw [closed] at stillClosed
      intro index stage reached
      rw [List.take_succ_cons, lateBytes_cons, List.append_assoc, ← written]
      cases index with
      | zero =>
          cases reached
          exact ⟨stillFinished, rfl⟩
      | succ index => exact ih kept.2 stillFinished stillClosed ranLater index stage reached

theorem finishedBytes_of_finished (finished : builder.finished = true) :
    builder.finishedBytes = .ok builder.storage.written := if_pos finished

end Builder

/-- A finished builder stays finished until it is cleared. Its finished bytes stay what they are
just as long as nothing is put and no padding is added; bytes that are put come in front of them,
the later ones first. -/
theorem Builder.Reachable.finished_run {builder : Builder} {calls : List Call}
    {stages : List (Answer × Builder)} (reachable : builder.Reachable)
    (finished : builder.finished = true) (kept : ∀ call ∈ calls, call ≠ .clear)
    (ran : builder.run calls = .ok stages) :
    (∀ (index : Nat) (stage : Answer × Builder), stages[index]? = some stage →
      stage.2.finished = true ∧ stage.2.finishedBytes =
        .ok (lateBytes (calls.take (index + 1)) ++ builder.storage.written)) ∧
    ((∀ stage ∈ stages, stage.2.finishedBytes = builder.finishedBytes) ↔
      ∀ call ∈ calls, ¬ call.WritesLate) := by
  have settles := settles_of_run kept finished (reachable.sound.closed finished) ran
  have bytesAt : ∀ (index : Nat) (stage : Answer × Builder), stages[index]? = some stage →
      stage.2.finishedBytes =
        .ok (lateBytes (calls.take (index + 1)) ++ builder.storage.written) := by
    intro index stage reached
    obtain ⟨stillFinished, written⟩ := settles index stage reached
    rw [finishedBytes_of_finished stillFinished, written]
  refine ⟨fun index stage reached => ⟨(settles index stage reached).1, bytesAt index stage reached⟩,
    ?_, ?_⟩
  · intro same
    rcases List.eq_nil_or_concat calls with rfl | ⟨calls, last, rfl⟩
    · exact fun _ member => absurd member List.not_mem_nil
    · have long : calls.length < stages.length := by
        rw [length_of_run ran, List.length_concat]
        exact Nat.lt_succ_self _
      -- the last stage shows what all calls wrote
      have final := bytesAt calls.length _ (List.getElem?_eq_getElem long)
      rw [same _ (List.getElem_mem long), finishedBytes_of_finished finished,
        List.take_of_length_le (by simp)] at final
      have nothing := List.append_left_eq_self.mp (Except.ok.inj final).symm
      exact (lateBytes_eq_nil _).mp nothing
  · intro silent stage member
    obtain ⟨index, reached⟩ := List.mem_iff_getElem?.mp member
    have nothing : lateBytes (calls.take (index + 1)) = [] :=
      (lateBytes_eq_nil _).mpr fun call taken => silent call (List.mem_of_mem_take taken)
    rw [bytesAt index stage reached, nothing, List.nil_append, finishedBytes_of_finished finished]

theorem finished_run_of_put :
    ∃ (builder : Builder) (stages : List (Answer × Builder)), builder.Reachable ∧
      builder.finishedBytes = .ok [8, 0, 0, 0, 4, 0, 4, 0, 4, 0, 0, 0] ∧
      builder.run [.openTable 1, .put .uint8 (7 : UInt8), .pad 1] = .ok stages ∧
      (∃ stage ∈ stages, stage.2.finishedBytes = .ok [8, 0, 0, 0, 4, 0, 4, 0, 4, 0, 0, 0]) ∧
      (∃ stage ∈ stages, stage.2.finishedBytes = .ok [0, 7, 8, 0, 0, 0, 4, 0, 4, 0, 4, 0, 0, 0]) ∧
      ¬ ∀ stage ∈ stages, stage.2.finishedBytes = builder.finishedBytes := by
  let calls : List Call := [.openTable 1, .put .uint8 (7 : UInt8), .pad 1]
  have evaluated : ((fun stage => (stage.2.finished, stage.2.storage.written,
      (List.length <$> stage.2.run calls).toOption)) <$>
        ((Call.openTable 0).step (.ofOptions ⟨64, false⟩) >>= fun first =>
          Call.closeTable.step first.2 >>= fun second =>
            (Call.finish ⟨4⟩ none false).step second.2)).toOption =
      some (true, [8, 0, 0, 0, 4, 0, 4, 0, 4, 0, 0, 0], some 3) := by decide +kernel
  obtain ⟨⟨answer, builder⟩, built, shown⟩ := read_map.mp (ok_of_toOption evaluated)
  rcases read_bind.mp built with ⟨⟨_, first⟩, opened, rest⟩
  rcases read_bind.mp rest with ⟨⟨_, second⟩, closed, ended⟩
  simp only [Prod.mk.injEq] at shown
  rcases shown with ⟨finished, written, ran⟩
  obtain ⟨stages, ran, three⟩ := read_map.mp (ok_of_toOption ran)
  have reachable : builder.Reachable :=
    .step _ (.step _ (.step _ (.new ⟨64, false⟩ (by decide)) opened) closed) ended
  have kept : ∀ call ∈ calls, call ≠ .clear := by simp [calls]
  obtain ⟨bytesAt, same⟩ := reachable.finished_run finished kept ran
  have stageAt : ∀ (index : Nat) (inside : index < 3), ∃ stage ∈ stages,
      stage.2.finishedBytes =
        .ok (Builder.lateBytes (calls.take (index + 1)) ++ builder.storage.written) := by
    intro index inside
    have inStages : index < stages.length := by omega
    exact ⟨_, List.getElem_mem inStages, (bytesAt index _ (List.getElem?_eq_getElem inStages)).2⟩
  rw [written] at stageAt
  refine ⟨builder, stages, reachable, ?_, ran, stageAt 0 (by decide), stageAt 2 (by decide), ?_⟩
  · rw [Builder.finishedBytes_of_finished finished, written]
  · rw [same]
    intro silent
    exact silent (.put .uint8 (7 : UInt8)) (by simp [calls]) trivial

end WireTables
