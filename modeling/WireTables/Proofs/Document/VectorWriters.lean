import WireTables.Proofs.Builder.Finality
import WireTables.Proofs.Builder.Preparing
import WireTables.Proofs.Document.Piece

namespace WireTables

open Build

/-- Makes one call after the other, as long as none is refused. -/
def Call.inTurn (calls : List Call) (stage : Answer × Builder) : Except Fault (Answer × Builder) :=
  calls.foldlM (fun stage call =>
    match stage with
    | (.ok _, builder) => call.step builder
    | (.error error, builder) => .ok (.error error, builder)) stage

namespace Call

variable {builder : Builder} {calls later : List Call} {stage : Answer × Builder}

theorem inTurn_append {middle : Answer × Builder} (early : inTurn calls stage = .ok middle) :
    inTurn (calls ++ later) stage = inTurn later middle := by
  have parts : inTurn (calls ++ later) stage = inTurn calls stage >>= inTurn later :=
    List.foldlM_append
  rw [parts, early]
  rfl

theorem inTurn_refused {error : Refusal} :
    inTurn calls (.error error, builder) = .ok (.error error, builder) := by
  induction calls with
  | nil => rfl
  | cons call calls ih => exact ih

theorem inTurn_cons {call : Call} {reply : Reply} :
    inTurn (call :: calls) (.ok reply, builder) = call.step builder >>= inTurn calls := rfl

theorem inTurn_singleton {call : Call} {reply : Reply} :
    inTurn [call] (.ok reply, builder) = call.step builder := by
  rw [inTurn_cons]
  cases call.step builder <;> rfl

end Call

namespace Builder

def push (builder : Builder) (bytes : Bytes) : Builder :=
  { builder with storage := builder.storage.push bytes }

theorem push_nil (builder : Builder) : builder.push [] = builder := by
  rw [push, Storage.push_nil]

theorem push_push (builder : Builder) (first second : Bytes) :
    (builder.push first).push second = builder.push (second ++ first) := by
  have storage : (builder.storage.push first).push second = builder.storage.push (second ++ first) := by
    apply Storage.ext_lists
    · simp only [Storage.push, List.drop_drop, List.length_append, Nat.add_comm]
    · simp only [Storage.written_push, List.append_assoc]
  simp only [push, storage]

structure ReadyFor (builder : Builder) (width : Nat) : Prop where
  fits : builder.capacity ≤ maxBufferSize
  unfinished : builder.finished = false
  covered : width ≤ builder.alignment
  aligned : builder.storage.size % width = 0

variable {builder : Builder} {width : Nat}

theorem ReadyFor.push {bytes : Bytes} (ready : builder.ReadyFor width)
    (whole : bytes.length % width = 0) (enough : bytes.length ≤ builder.storage.room) :
    (builder.push bytes).ReadyFor width where
  fits := by
    rw [capacity, Builder.push, Storage.capacity_push enough]
    exact ready.fits
  unfinished := ready.unfinished
  covered := ready.covered
  aligned := by
    rw [Builder.push, Storage.size_push, Nat.add_mod, whole, ready.aligned, Nat.zero_mod]

end Builder

namespace Build

variable {builder opened : Builder}

theorem put_of_le {bytes : Bytes} (enough : bytes.length ≤ builder.storage.room) :
    put bytes builder = .done () (builder.push bytes) := by
  rw [put, if_neg (Nat.not_lt.mpr enough)]
  rfl

theorem addScalar_of_ready {type : ScalarType} (ready : builder.ReadyFor type.width)
    (enough : type.width ≤ builder.storage.room) (value : type.Value) :
    addScalar type value builder = .done () (builder.push (type.encode value)) := by
  have prepared : prepare type.width 0 builder = .done () builder :=
    prepare_of_ready type.isPowerOfTwo_width ready.fits ready.unfinished ready.covered ready.aligned
      enough
  rw [addScalar, bind_of_done prepared]
  apply put_of_le
  rwa [ScalarType.length_encode]

theorem readyFor_of_openVector {width count : Nat} (fits : builder.capacity ≤ maxBufferSize)
    (ran : openVector width count width builder = .done () opened) :
    opened.ReadyFor width ∧ referenceWidth + width * count ≤ opened.storage.room := by
  obtain ⟨-, openFits, -, -, multiple⟩ := openVector_done fits ran
  have room := openVector_room ran
  obtain ⟨second, third, -, first, last, rfl⟩ := openVector_steps ran
  obtain ⟨unfinished, early⟩ := prepare_done first
  obtain ⟨-, late⟩ := prepare_done last
  have covers : width ≤ third.alignment := prepare_covers last
  refine ⟨⟨openFits, ?_, covers, ?_⟩, room⟩
  · exact (early.trans late).finished.trans unfinished
  · rwa [Nat.add_mul_mod_self_left] at multiple

theorem placing_closeVector (first second : Kind) :
    placing (@closeVector first) = placing (@closeVector second) := by
  funext builder
  simp only [placing, replying, bind_apply, closeVector_apply]
  cases builder.openObject with
  | vector count =>
      dsimp only
      by_cases few : count ≤ maxBufferSize
      · rw [if_pos few, if_pos few]
        cases putScalar .uint32 (UInt32.ofNat count) builder <;> rfl
      · rw [if_neg few, if_neg few]
  | _ => rfl

end Build

namespace Call

variable {builder opened after : Builder} {type : ScalarType} {items : List type.Value}

theorem inTurn_elements {write : type.Value → Call}
    (writes : ∀ (value : type.Value) (builder : Builder), builder.ReadyFor type.width →
      type.width ≤ builder.storage.room →
        (write value).step builder = .ok (.ok .nothing, builder.push (type.encode value)))
    (ready : builder.ReadyFor type.width)
    (enough : type.width * items.length ≤ builder.storage.room) :
    inTurn (items.reverse.map write) (.ok .nothing, builder) =
      .ok (.ok .nothing, builder.push (items.flatMap type.encode)) := by
  induction items with
  | nil =>
      rw [List.flatMap_nil, Builder.push_nil]
      rfl
  | cons item items ih =>
      rw [List.length_cons, Nat.mul_succ] at enough
      have length : (items.flatMap type.encode).length = type.width * items.length := by
        rw [length_flatMap_of_width type.length_encode, Nat.mul_comm]
      have stillReady := ready.push (length ▸ Nat.mul_mod_right ..) (by omega)
      have room : type.width ≤ (builder.push (items.flatMap type.encode)).storage.room := by
        rw [Builder.push, Storage.room_push]
        omega
      rw [List.reverse_cons, List.map_append, inTurn_append (ih (by omega)), List.map_singleton,
        inTurn_singleton, writes item _ stillReady room, Builder.push_push, List.flatMap_cons]

theorem step_add (ready : builder.ReadyFor type.width)
    (enough : type.width ≤ builder.storage.room) (value : type.Value) :
    (add type value).step builder = .ok (.ok .nothing, builder.push (type.encode value)) :=
  step_of_done (replying_of_done (addScalar_of_ready ready enough value))

theorem step_put (enough : type.width ≤ builder.storage.room) (value : type.Value) :
    (put type value).step builder = .ok (.ok .nothing, builder.push (type.encode value)) :=
  step_of_done (replying_of_done (put_of_le (by rwa [ScalarType.length_encode])))

theorem step_writeScalars
    (opens : Build.openVector type.width items.length type.width builder = .done () opened)
    (enough : type.width * items.length ≤ opened.storage.room) :
    (writeScalars type items).step builder =
      closeVector.step (opened.push (items.flatMap type.encode)) := by
  have length : (items.flatMap type.encode).length = type.width * items.length := by
    rw [length_flatMap_of_width type.length_encode, Nat.mul_comm]
  have same : (writeScalars type items).run builder =
      closeVector.run (opened.push (items.flatMap type.encode)) := by
    change placing _ _ = placing _ _
    rw [placing_closeVector _ (.scalar type), placing, replying, Build.writeScalars, bind_assoc,
      bind_of_done opens, bind_assoc, bind_of_done (put_of_le (length ▸ enough))]
    rfl
  rw [step, step, same]

/-- Opening a vector, pushing its elements in some way and closing it is writing them all at once,
also where there is nothing to open. -/
theorem inTurn_eq_writeScalars (fits : builder.capacity ≤ maxBufferSize) {calls : List Call}
    (fills : ∀ opened : Builder, opened.ReadyFor type.width →
      type.width * items.length ≤ opened.storage.room →
        inTurn calls (.ok .nothing, opened) =
          .ok (.ok .nothing, opened.push (items.flatMap type.encode))) :
    inTurn (openVector type.width items.length type.width :: calls ++ [closeVector])
      (.ok .nothing, builder) = (writeScalars type items).step builder := by
  rw [List.cons_append, inTurn_cons]
  cases opens : Build.openVector type.width items.length type.width builder with
  | done _ opened =>
      obtain ⟨ready, room⟩ := readyFor_of_openVector fits opens
      have enough : type.width * items.length ≤ opened.storage.room := by omega
      have opening : (openVector type.width items.length type.width).step builder =
          .ok (.ok .nothing, opened) := step_of_done (replying_of_done opens)
      rw [opening, step_writeScalars opens enough]
      exact (inTurn_append (fills opened ready enough)).trans inTurn_singleton
  | refused error after =>
      have opening : (openVector type.width items.length type.width).step builder =
          .ok (.error error, after) := step_of_refused (replying_of_refused opens)
      have writing : (writeScalars type items).step builder = .ok (.error error, after) :=
        step_of_refused (replying_of_refused (bind_of_refused opens))
      rw [opening, writing]
      exact inTurn_refused
  | fault cause =>
      have opening : (openVector type.width items.length type.width).step builder = .error cause :=
        step_error.mpr (replying_fault.mpr opens)
      have writing : (writeScalars type items).step builder = .error cause :=
        step_error.mpr (replying_fault.mpr (bind_of_fault opens))
      rw [opening, writing]
      rfl

theorem inTurn_filled_eq_writeScalars (fits : builder.capacity ≤ maxBufferSize) :
    inTurn [openFilledVector type.width items.length type.width (items.flatMap type.encode),
      closeVector] (.ok .nothing, builder) = (writeScalars type items).step builder := by
  let payload := items.flatMap type.encode
  let blank := zeros (type.width * items.length)
  have length : payload.length = type.width * items.length := by
    rw [length_flatMap_of_width type.length_encode, Nat.mul_comm]
  have covers : blank.length = payload.length := (length_zeros _).trans length.symm
  have laid : payload.take blank.length ++ blank.drop payload.length = payload := by
    rw [covers, List.take_length, ← covers, List.drop_length, List.append_nil]
  rw [inTurn_cons]
  cases opens : Build.openVector type.width items.length type.width builder with
  | done _ opened =>
      obtain ⟨-, room⟩ := readyFor_of_openVector fits opens
      have enough : type.width * items.length ≤ opened.storage.room := by omega
      have filled : Build.openFilledVector type.width items.length type.width payload builder =
          .done blank (opened.push payload) := by
        have fills : Build.put (payload.take blank.length ++ blank.drop payload.length) opened =
            .done () (opened.push payload) := by
          rw [laid]
          exact put_of_le (length ▸ enough)
        exact (bind_of_done opens).trans ((bind_of_done fills).trans rfl)
      have filling : (openFilledVector type.width items.length type.width payload).step builder =
          .ok (.ok (.bytes blank), opened.push payload) := step_of_done (replying_of_done filled)
      rw [filling, step_writeScalars opens enough]
      exact (inTurn_singleton : inTurn [closeVector] (.ok (.bytes blank), _) = _)
  | refused error after =>
      have filling : (openFilledVector type.width items.length type.width payload).step builder =
          .ok (.error error, after) := step_of_refused (replying_of_refused (bind_of_refused opens))
      have writing : (writeScalars type items).step builder = .ok (.error error, after) :=
        step_of_refused (replying_of_refused (bind_of_refused opens))
      rw [filling, writing]
      rfl
  | fault cause =>
      have filling : (openFilledVector type.width items.length type.width payload).step builder =
          .error cause := step_error.mpr (replying_fault.mpr (bind_of_fault opens))
      have writing : (writeScalars type items).step builder = .error cause :=
        step_error.mpr (replying_fault.mpr (bind_of_fault opens))
      rw [filling, writing]
      rfl

end Call

theorem Stored.readAt_contents {forced : Bool} {storage : Storage} {distance : Nat} {piece : Piece}
    (stored : Stored forced storage.written distance piece) :
    piece.ReadAt forced storage.contents (storage.capacity - distance) := by
  have whole : storage.written <:+ storage.contents := List.suffix_append _ _
  rw [← storage.length_contents]
  exact (stored.of_suffix whole).read

section Strings

variable {before after : Builder} {texts : List String} {offsets : List (Offset .string)}

theorem Call.inTurn_writeString_done (ran : texts.mapM Build.writeString before = .done offsets after)
    (reply : Reply) :
    offsets.length = texts.length ∧
      (∃ last, inTurn (texts.map writeString) (.ok reply, before) = .ok (.ok last, after)) ∧
      ∀ (index : Nat) (offset : Offset .string), offsets[index]? = some offset →
        ∃ middle, inTurn ((texts.take (index + 1)).map writeString) (.ok reply, before) =
          .ok (.ok (.object offset.value), middle) := by
  induction texts generalizing before offsets reply with
  | nil =>
      cases ran
      exact ⟨rfl, ⟨reply, rfl⟩, fun index offset reached => nomatch reached⟩
  | cons text texts ih =>
      rw [List.mapM_cons] at ran
      rcases done_bind.mp ran with ⟨first, middle, wrote, ran⟩
      rcases done_bind.mp ran with ⟨rest, last, others, ended⟩
      cases ended
      have stepped : (writeString text).step before = .ok (.ok (.object first.value), middle) :=
        step_of_done (replying_of_done wrote)
      obtain ⟨length, ⟨final, whole⟩, each⟩ := ih others (.object first.value)
      refine ⟨congrArg Nat.succ length, ⟨final, ?_⟩, ?_⟩
      · rw [List.map_cons, inTurn_cons, stepped]
        exact whole
      · intro index offset reached
        rw [List.take_succ_cons, List.map_cons, inTurn_cons, stepped]
        cases index with
        | zero =>
            cases reached
            exact ⟨middle, rfl⟩
        | succ index => exact each index offset reached

theorem Call.inTurn_writeString_refused {error : Refusal}
    (ran : texts.mapM Build.writeString before = .refused error after) (reply : Reply) :
    inTurn (texts.map writeString) (.ok reply, before) = .ok (.error error, after) := by
  induction texts generalizing before reply with
  | nil => cases ran
  | cons text texts ih =>
      rw [List.mapM_cons] at ran
      rw [List.map_cons, inTurn_cons]
      rcases refused_bind.mp ran with refused | ⟨first, middle, wrote, ran⟩
      · have stepped : (writeString text).step before = .ok (.error error, after) :=
          step_of_refused (replying_of_refused refused)
        rw [stepped]
        exact inTurn_refused
      · have stepped : (writeString text).step before = .ok (.ok (.object first.value), middle) :=
          step_of_done (replying_of_done wrote)
        rw [stepped]
        rcases refused_bind.mp ran with refused | ⟨rest, last, others, ended⟩
        · exact ih refused _
        · cases ended

theorem changes_of_writeEach (ran : texts.mapM writeString before = .done offsets after) :
    Changes before after := by
  have moves : Moves Changes (texts.mapM writeString) before :=
    Moves.mapM (fun _ => .refl) .trans
      (fun text builder => changes_allow.of_writeByteString (encodeText text) builder) texts before
  exact moves.of_done ran

theorem stored_of_writeEach (fits : before.capacity ≤ maxBufferSize)
    (ran : texts.mapM writeString before = .done offsets after) :
    List.Forall₂ (fun (offset : Offset .string) bytes =>
      Stored false after.storage.written offset.value.toNat (.string bytes))
        offsets (texts.map encodeText) := by
  induction texts generalizing before offsets with
  | nil =>
      cases ran
      exact .nil
  | cons text texts ih =>
      rw [List.mapM_cons] at ran
      rcases done_bind.mp ran with ⟨first, middle, wrote, ran⟩
      rcases done_bind.mp ran with ⟨rest, last, others, ended⟩
      cases ended
      have one : Changes before middle :=
        (changes_allow.of_writeByteString (encodeText text) before).of_done wrote
      have block := writeByteString_done fits wrote
      have kept := Builder.suffix_of_changes (changes_of_writeEach others)
      exact .cons ((stored_string block.length_le block.stands).of_suffix kept)
        (ih (Builder.fits_of_changes fits one) others)

theorem readAt_of_writeStrings {offset : Offset (.vector .string)}
    (fits : before.capacity ≤ maxBufferSize)
    (ran : writeStrings texts before = .done offset after) :
    Piece.ReadAt false after.storage.contents (after.capacity - offset.value.toNat)
      (.strings (texts.map encodeText)) := by
  rcases done_bind.mp ran with ⟨offsets, middle, strings, references⟩
  have middleFits := Builder.fits_of_changes fits (changes_of_writeEach strings)
  have stored := stored_of_writeEach fits strings
  have length := stored.length_eq
  obtain ⟨payload, wide, wrote, refers⟩ := writeReferences_done middleFits references
  have kept : middle.storage.written <:+ after.storage.written := Builder.suffix_of_changes
    ((changes_allow.of_writeReferences offsets middle : Moves Changes _ _).of_done references)
  let items := offsets.zip (texts.map encodeText)
  have count : items.length = offsets.length := by rw [List.length_zip, length, Nat.min_self]
  rw [← count] at wide
  have stands := wrote.stands
  rw [← count] at stands
  have pieces : Stored false _ _ _ := stored_strings wrote.length_le wide stands
    (fun index item reached => refers index item.1 (List.getElem?_zip_eq_some.mp reached).1)
    (fun item member => ((List.forall₂_iff_zip.mp stored).2 member).of_suffix kept)
  rw [List.map_snd_zip (Nat.le_of_eq length.symm)] at pieces
  exact pieces.readAt_contents

theorem Call.inTurn_eq_writeStrings {answer : Answer}
    (stepped : (writeStrings texts).step before = .ok (answer, after)) :
    (∃ error, answer = .error error ∧
        inTurn (texts.map writeString) (.ok .nothing, before) = .ok (answer, after)) ∨
      ∃ offsets : List (Offset .string), offsets.length = texts.length ∧
        (∀ (index : Nat) (offset : Offset .string), offsets[index]? = some offset →
          ∃ middle, inTurn ((texts.take (index + 1)).map writeString) (.ok .nothing, before) =
            .ok (.ok (.object offset.value), middle)) ∧
        inTurn (texts.map writeString ++ [writeReferences offsets]) (.ok .nothing, before) =
          .ok (answer, after) := by
  cases strings : texts.mapM Build.writeString before with
  | done offsets middle =>
      obtain ⟨length, ⟨last, whole⟩, each⟩ := inTurn_writeString_done strings .nothing
      have same : (writeStrings texts).run before = (writeReferences offsets).run middle := by
        change placing _ _ = placing _ _
        rw [placing, replying, Build.writeStrings, bind_assoc, bind_of_done strings]
        rfl
      refine .inr ⟨offsets, length, each, ?_⟩
      rw [inTurn_append whole, inTurn_singleton, ← stepped, step, step, same]
  | refused error middle =>
      have refused : (writeStrings texts).step before = .ok (.error error, middle) :=
        step_of_refused (replying_of_refused (bind_of_refused strings))
      cases stepped.symm.trans refused
      exact .inl ⟨error, rfl, inTurn_writeString_refused strings _⟩
  | fault cause =>
      have faulted : (writeStrings texts).step before = .error cause :=
        step_error.mpr (replying_fault.mpr (bind_of_fault strings))
      cases stepped.symm.trans faulted

end Strings

/-- Where the answer is an object, the piece is read there, in the storage as it is. -/
def Builder.Shows (builder : Builder) (answer : Answer) (piece : Piece) : Prop :=
  ∀ reply, answer = .ok reply → ∃ offset, reply = .object offset ∧
    piece.ReadAt false builder.storage.contents (builder.capacity - offset.toNat)

theorem Call.shows_of_placing {kind : Kind} {write : Build (Offset kind)} {call : Call}
    {builder after : Builder} {answer : Answer} {piece : Piece} (runs : call.run = placing write)
    (stepped : call.step builder = .ok (answer, after))
    (reads : ∀ offset, write builder = .done offset after →
      piece.ReadAt false after.storage.contents (after.capacity - offset.value.toNat)) :
    after.Shows answer piece := by
  rintro reply rfl
  have ran := done_of_step stepped
  rw [runs] at ran
  rcases done_bind.mp ran with ⟨offset, middle, wrote, ended⟩
  cases ended
  exact ⟨offset.value, rfl, reads offset wrote⟩

/-- Every way to write a vector of scalars leaves the same builder with the same answer, whether it
is an offset or an error: all at once, one by one with or without preparing for each, or laid into
the open vector. Bytes are scalars of one byte, and a vector of strings is what its strings and then
the references to them come to. The vector that is found at the offset has just the elements that
were written, in their order. Only a list that is too long to count its bytes is not answered. -/
theorem Builder.vector_writers_agree {builder : Builder} (fits : builder.capacity ≤ maxBufferSize) :
    (∀ (type : ScalarType) (items : List type.Value),
      Call.inTurn (.openVector type.width items.length type.width ::
        items.reverse.map (.add type) ++ [.closeVector]) (.ok .nothing, builder) =
          (Call.writeScalars type items).step builder ∧
      Call.inTurn (.openVector type.width items.length type.width ::
        items.reverse.map (.put type) ++ [.closeVector]) (.ok .nothing, builder) =
          (Call.writeScalars type items).step builder ∧
      Call.inTurn [.openFilledVector type.width items.length type.width
        (items.flatMap type.encode), .closeVector] (.ok .nothing, builder) =
          (Call.writeScalars type items).step builder ∧
      ((∃ (answer : Answer) (after : Builder),
          (Call.writeScalars type items).step builder = .ok (answer, after) ∧
          after.Shows answer (.scalars type items)) ∨
        (Call.writeScalars type items).step builder = .error .sumPastAddresses ∧
          ¬Addressable type.width (type.width * items.length))) ∧
    (∀ bytes : Bytes, (Call.writeBytes bytes).step builder =
      (Call.writeScalars .uint8 bytes).step builder) ∧
    ∀ texts : List String,
      (∃ (answer : Answer) (after : Builder),
        (Call.writeStrings texts).step builder = .ok (answer, after) ∧
        ((∃ error, answer = .error error ∧
            Call.inTurn (texts.map .writeString) (.ok .nothing, builder) = .ok (answer, after)) ∨
          ∃ offsets : List (Offset .string), offsets.length = texts.length ∧
            (∀ (index : Nat) (offset : Offset .string), offsets[index]? = some offset →
              ∃ middle,
                Call.inTurn ((texts.take (index + 1)).map .writeString) (.ok .nothing, builder) =
                  .ok (.ok (.object offset.value), middle)) ∧
            Call.inTurn (texts.map .writeString ++ [.writeReferences offsets])
              (.ok .nothing, builder) = .ok (answer, after)) ∧
        after.Shows answer (.strings (texts.map encodeText))) ∨
      (Call.writeStrings texts).step builder = .error .sumPastAddresses ∧
        ¬((∀ text ∈ texts, Addressable 1 (encodeText text).length) ∧
          Addressable referenceWidth (referenceWidth * texts.length)) := by
  refine ⟨fun type items => ⟨?_, ?_, ?_, ?_⟩, fun bytes => ?_, fun texts => ?_⟩
  · exact Call.inTurn_eq_writeScalars fits fun opened ready enough => Call.inTurn_elements
      (fun value _ still room => Call.step_add still room value) ready enough
  · exact Call.inTurn_eq_writeScalars fits fun opened ready enough => Call.inTurn_elements
      (fun value _ _ room => Call.step_put room value) ready enough
  · exact Call.inTurn_filled_eq_writeScalars fits
  · have safe : Safe _ (Call.writeScalars type items).run builder :=
      safe_replying (safe_writeScalars id fits)
    refine safe.answers.imp_left ?_
    rintro ⟨answer, after, stepped⟩
    refine ⟨answer, after, stepped, Call.shows_of_placing rfl stepped fun offset wrote => ?_⟩
    have block := writeScalars_done fits wrote
    exact (stored_scalars block.length_le block.stands).readAt_contents
  · rw [Call.step, Call.run, writeBytes_eq_writeScalars]
    rfl
  · have safe : Safe ((Call.writeStrings texts).Countable builder)
        (Call.writeStrings texts).run builder :=
      safe_replying (safe_writeStrings (fun text member small => small.1 text member) And.right fits)
    refine safe.answers.imp_left ?_
    rintro ⟨answer, after, stepped⟩
    exact ⟨answer, after, stepped, Call.inTurn_eq_writeStrings stepped,
      Call.shows_of_placing rfl stepped fun offset wrote => readAt_of_writeStrings fits wrote⟩

theorem vector_writers_agree_of_int16 :
    ∃ (reply : Reply) (builder after : Builder),
      (Call.add .uint8 (7 : UInt8)).step (.ofOptions ⟨8, false⟩) = .ok (.ok reply, builder) ∧
      after.storage.written = [2, 0, 0, 0, 1, 0, 2, 0, 0, 0, 0, 7] ∧
      Call.inTurn [.openVector 2 2 2, .add .int16 (2 : Int16), .add .int16 (1 : Int16), .closeVector]
        (.ok .nothing, builder) = .ok (.ok (.object 12), after) ∧
      Call.inTurn [.openFilledVector 2 2 2 [1, 0, 2, 0], .closeVector] (.ok .nothing, builder) =
        .ok (.ok (.object 12), after) ∧
      ∃ vector : VectorView (.scalar .int16),
        VectorView.load after.storage.contents (after.capacity - 12) = .ok vector ∧
        VectorShown vector [(1 : Int16), (2 : Int16)] := by
  let items : List Int16 := [1, 2]
  have evaluated : ((fun stage : Answer × Builder => (stage.1.isOk,
      decide (stage.2.capacity ≤ maxBufferSize),
      ((fun later : Answer × Builder => (objectOf later.1, later.2.storage.written)) <$>
        (Call.writeScalars .int16 items).step stage.2).toOption)) <$>
          (Call.add .uint8 (7 : UInt8)).step (.ofOptions ⟨8, false⟩)).toOption =
      some (true, true, some (some 12, [2, 0, 0, 0, 1, 0, 2, 0, 0, 0, 0, 7])) := by decide +kernel
  obtain ⟨⟨answer, builder⟩, added, shown⟩ := read_map.mp (ok_of_toOption evaluated)
  simp only [Prod.mk.injEq] at shown
  obtain ⟨accepted, fits, shown⟩ := shown
  obtain ⟨reply, rfl⟩ := reply_of_isOk accepted
  obtain ⟨⟨answer, after⟩, stepped, shown⟩ := read_map.mp (ok_of_toOption shown)
  simp only [Prod.mk.injEq] at shown
  obtain ⟨object, written⟩ := shown
  rw [objectOf_eq_some] at object
  obtain ⟨scalars, -⟩ := Builder.vector_writers_agree (of_decide_eq_true fits)
  obtain ⟨single, -, filled, ended⟩ := scalars .int16 items
  rw [stepped] at single filled ended
  obtain ⟨_, _, ⟨⟩, shows⟩ := ended.resolve_right fun faulted => nomatch faulted.1
  cases object
  obtain ⟨offset, placed, vector, loaded, listed, -⟩ := shows _ rfl
  cases placed
  exact ⟨reply, builder, after, added, written, single, filled, vector, loaded, listed⟩

end WireTables
