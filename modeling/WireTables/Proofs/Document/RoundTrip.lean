import WireTables.Proofs.Document.Table

/-!
From a document to bytes and back. The pieces of a document are written in any order in which each
comes after those it refers to; when the builder is finished with one of its tables as the root,
opening the bytes and reading on from there shows the document.
-/

namespace WireTables

open Build

/-- Calls that wrote these pieces, each known by the offset that its call answered with. Between
them there may be any other calls, refused or not, as long as none clears the builder or changes
whether defaults are forced. -/
inductive Session (forced : Bool) : Builder → List (UInt32 × Piece) → Prop
  | new (capacity : Nat) (fits : capacity ≤ maxBufferSize) :
      Session forced (.ofOptions ⟨capacity, forced⟩) []
  | other {before after : Builder} {pieces : List (UInt32 × Piece)} {answer : Answer} (call : Call)
      (session : Session forced before pieces) (kept : call ≠ .clear)
      (stepped : call.step before = .ok (answer, after))
      (unchanged : after.forceDefaults = before.forceDefaults) : Session forced after pieces
  | string {before after : Builder} {pieces : List (UInt32 × Piece)} {offset : Offset .string}
      (text : Bytes) (session : Session forced before pieces)
      (ran : writeByteString text before = .done offset after) :
      Session forced after ((offset.value, .string text) :: pieces)
  | scalars {before after : Builder} {pieces : List (UInt32 × Piece)} (type : ScalarType)
      {offset : Offset (.vector (.scalar type))} (items : List type.Value)
      (session : Session forced before pieces)
      (ran : writeScalars type items before = .done offset after) :
      Session forced after ((offset.value, .scalars type items) :: pieces)
  | strings {before after : Builder} {pieces : List (UInt32 × Piece)}
      {offset : Offset (.vector .string)} (items : List (Offset .string × Bytes))
      (session : Session forced before pieces)
      (written : ∀ item ∈ items, (item.1.value, .string item.2) ∈ pieces)
      (ran : writeReferences (items.map Prod.fst) before = .done offset after) :
      Session forced after ((offset.value, .strings (items.map Prod.snd)) :: pieces)
  | table {before after : Builder} {pieces : List (UInt32 × Piece)} {offset : Offset .table}
      (count : Nat) (additions : List Addition) (document : Document)
      (session : Session forced before pieces) (makes : Makes additions document)
      (written : ∀ addition ∈ additions, ∀ piece, addition.field.piece? = some piece →
        (addition.source, piece) ∈ pieces)
      (ran : writeTable count additions before = .done offset after) :
      Session forced after ((offset.value, .table document) :: pieces)
  | tables {before after : Builder} {pieces : List (UInt32 × Piece)}
      {offset : Offset (.vector .table)} (items : List (Offset .table × Document))
      (session : Session forced before pieces)
      (written : ∀ item ∈ items, (item.1.value, .table item.2) ∈ pieces)
      (ran : writeReferences (items.map Prod.fst) before = .done offset after) :
      Session forced after ((offset.value, .tables (items.map Prod.snd)) :: pieces)

/-- What every session keeps: all of its pieces are stored. -/
structure Keeps (forced : Bool) (builder : Builder) (pieces : List (UInt32 × Piece)) : Prop where
  sound : builder.Sound
  forceDefaults : builder.forceDefaults = forced
  stored : ∀ entry ∈ pieces, Stored forced builder.storage.written entry.1.toNat entry.2

namespace Keeps

variable {forced : Bool} {before after : Builder} {pieces : List (UInt32 × Piece)}

theorem of_changes (keeps : Keeps forced before pieces) (changes : Changes before after)
    (unchanged : after.forceDefaults = before.forceDefaults) : Keeps forced after pieces where
  sound := Builder.sound_of_changes keeps.sound changes
  forceDefaults := unchanged.trans keeps.forceDefaults
  stored entry member :=
    (keeps.stored entry member).of_suffix (Builder.suffix_of_changes changes)

theorem cons (keeps : Keeps forced after pieces) {offset : UInt32} {piece : Piece}
    (stored : Stored forced after.storage.written offset.toNat piece) :
    Keeps forced after ((offset, piece) :: pieces) where
  sound := keeps.sound
  forceDefaults := keeps.forceDefaults
  stored := List.forall_mem_cons.mpr ⟨stored, keeps.stored⟩

end Keeps

theorem RefersTo.of_items {kind : Kind} {α : Type} {bytes : Bytes} {distance : Nat}
    {items : List (Offset kind × α)}
    (refers : ∀ (index : Nat) (target : Offset kind), (items.map Prod.fst)[index]? = some target →
      RefersTo bytes (distance - (referenceWidth + index * referenceWidth)) target.value.toNat)
    (index : Nat) (item : Offset kind × α) (reached : items[index]? = some item) :
    RefersTo bytes (distance - (referenceWidth + index * referenceWidth)) item.1.value.toNat := by
  apply refers index item.1
  rw [List.getElem?_map, reached]
  rfl

theorem Session.keeps {forced : Bool} {builder : Builder} {pieces : List (UInt32 × Piece)}
    (session : Session forced builder pieces) : Keeps forced builder pieces := by
  induction session with
  | new capacity fits =>
      exact ⟨Builder.sound_ofOptions fits, rfl, fun _ member => absurd member List.not_mem_nil⟩
  | other call session kept stepped unchanged ih =>
      exact ih.of_changes (Call.changes_of_step kept ih.sound stepped) unchanged
  | @string before after pieces offset text session ran ih =>
      have wrote := writeByteString_done ih.sound.fits ran
      have keeps := ih.of_changes ((changes_allow.of_writeByteString text before).of_done ran)
        wrote.forceDefaults
      exact keeps.cons (stored_string wrote.length_le wrote.stands)
  | @scalars before after pieces type offset items session ran ih =>
      have wrote := writeScalars_done ih.sound.fits ran
      have keeps := ih.of_changes ((changes_allow.of_writeScalars type items before).of_done ran)
        wrote.forceDefaults
      exact keeps.cons (stored_scalars wrote.length_le wrote.stands)
  | @strings before after pieces offset items session written ran ih =>
      obtain ⟨payload, length, wrote, refers⟩ := writeReferences_done ih.sound.fits ran
      have keeps := ih.of_changes ((changes_allow.of_writeReferences _ before).of_done ran)
        wrote.forceDefaults
      rw [List.length_map] at length wrote
      exact keeps.cons (stored_strings wrote.length_le length wrote.stands (RefersTo.of_items refers)
        fun item member => keeps.stored _ (written item member))
  | table count additions document session makes written ran ih =>
      obtain ⟨changes, unchanged, stored⟩ := writeTable_done ih.sound ih.forceDefaults makes
        (fun addition known piece refers => ih.stored _ (written addition known piece refers)) ran
      exact (ih.of_changes changes (unchanged.trans ih.forceDefaults.symm)).cons stored
  | @tables before after pieces offset items session written ran ih =>
      obtain ⟨payload, length, wrote, refers⟩ := writeReferences_done ih.sound.fits ran
      have keeps := ih.of_changes ((changes_allow.of_writeReferences _ before).of_done ran)
        wrote.forceDefaults
      rw [List.length_map] at length wrote
      exact keeps.cons (stored_tables wrote.length_le length wrote.stands (RefersTo.of_items refers)
        fun item member => keeps.stored _ (written item member))

section Opening

variable {forced : Bool} {bytes : Bytes}

theorem reporting_ok {α : Type} {error : OpenError} {read : Except Fault α} {value : α}
    (ran : read = .ok value) : reporting error read = .ok value := by
  rw [ran]
  rfl

theorem openRoot_of_load {reference : UInt32} {view : TableView}
    (referred : loadScalar .uint32 bytes 0 = .ok reference)
    (loaded : TableView.load bytes reference.toNat = .ok view) (contained : view.Contained) :
    openRoot bytes = .ok view := by
  rcases TableView.load_eq_ok_iff.mp loaded with ⟨base, size, located, sized, rfl⟩
  rcases locateVTable_eq_ok_iff.mp located with ⟨distance, linked, place⟩
  rcases contained with ⟨header, inside⟩
  have within : ¬ (base : Int) < 0 := by omega
  have front : base + vtableHeaderWidth ≤ bytes.length :=
    Nat.le_trans (Nat.add_le_add_left header base) inside
  refine read_bind.mpr ⟨_, reporting_ok referred, ?_⟩
  refine read_bind.mpr ⟨_, reporting_ok linked, ?_⟩
  dsimp only
  rw [place, if_neg within, Int.toNat_natCast]
  refine read_bind.mpr ⟨_, reporting_ok (slice_ok front), ?_⟩
  refine read_bind.mpr ⟨_, reporting_ok sized, ?_⟩
  exact read_bind.mpr ⟨_, reporting_ok (slice_ok inside), rfl⟩

theorem openRoot_of_refers {root : Nat} {view : TableView}
    (refers : RefersTo bytes bytes.length root)
    (loaded : TableView.load bytes (bytes.length - root) = .ok view) (contained : view.Contained) :
    openRoot bytes = .ok view := by
  have follow := refers.follow
  rw [Nat.sub_self] at follow
  rcases read_bind.mp follow with ⟨reference, referred, same⟩
  have place : reference.toNat = bytes.length - root := by
    have equal := Except.ok.inj same
    omega
  rw [← place] at loaded
  exact openRoot_of_load referred loaded contained

theorem openRoot_of_stored {root : Nat} {document : Document}
    (refers : RefersTo bytes bytes.length root)
    (stored : Stored forced bytes root (.table document)) :
    ∃ view, openRoot bytes = .ok view ∧ TableShown forced view document := by
  rcases stored.read with ⟨view, loaded, contained, shown⟩
  exact ⟨view, openRoot_of_refers refers loaded contained, shown⟩

theorem framePayload_of_append {payload : Bytes} (small : payload.length ≤ maxBufferSize)
    (more : Bytes) :
    framePayload ((ScalarType.uint32.encode (UInt32.ofNat payload.length) ++ payload) ++ more) =
      .ok payload := by
  generalize whole :
    (ScalarType.uint32.encode (UInt32.ofNat payload.length) ++ payload) ++ more = stream
  have stands : StandsAt stream stream.length
      (ScalarType.uint32.encode (UInt32.ofNat payload.length) ++ payload) := by
    rw [← whole, List.length_append]
    exact StandsAt.of_front _ more
  have sized := stands.beginning.load_eq
  obtain ⟨behind, start⟩ := payload_of_count stands
  rw [Nat.sub_self] at sized start
  rw [Nat.zero_add] at start
  refine read_bind.mpr ⟨_, reporting_ok sized, reporting_ok ?_⟩
  rw [toNat_ofNat_of_size small, start]
  exact behind.slice_eq

theorem framePayload_of_size {payload : Bytes} (small : payload.length ≤ maxBufferSize) :
    framePayload (ScalarType.uint32.encode (UInt32.ofNat payload.length) ++ payload) =
      .ok payload := by
  have framed := framePayload_of_append small []
  rwa [List.append_nil] at framed

end Opening

/-- Whatever document was written in whatever order, with any storage to start with: when a table of
it becomes the root of a finished buffer, the bytes open, and all that is read is the document. -/
theorem Session.round_trip {forced : Bool} {builder after : Builder}
    {pieces : List (UInt32 × Piece)} {root : Offset .table} {document : Document}
    {identifier : Option String} {sized : Bool} (session : Session forced builder pieces)
    (written : (root.value, .table document) ∈ pieces)
    (finished : finish root identifier sized builder = .done () after) :
    ∃ (bytes : Bytes) (view : TableView), after.finishedBytes = .ok bytes ∧
      (if sized then openSizedRoot bytes else openRoot bytes) = .ok view ∧
      TableShown forced view document := by
  have keeps := session.keeps
  obtain ⟨bytes, small, suffix, -, refers, ended⟩ := finish_done keeps.sound.fits finished
  have stored := (keeps.stored _ written).of_suffix suffix
  obtain ⟨view, opened, shown⟩ := openRoot_of_stored refers stored
  cases sized with
  | false => exact ⟨bytes, view, ended, opened, shown⟩
  | true =>
      refine ⟨_, view, ended, ?_, shown⟩
      exact read_bind.mpr ⟨bytes, framePayload_of_size small, opened⟩

theorem round_trip_of_unions :
    let inner : Document := [(4, .scalar .int32 (7 : Int32) (0 : Int32))]
    let document : Document := [(4, .string [104, 105]), (8, .table inner),
      (6, .scalar .uint8 (3 : UInt8) (0 : UInt8)),
      (10, .scalars .uint8 ([1, 0] : List UInt8)), (12, .tables [inner, inner]),
      (14, .struct 4 [.scalar .int32 (5 : Int32), .padding 4] (by decide)),
      (16, .optional .bool (some true))]
    ∃ (after : Builder) (bytes : Bytes) (view : TableView), after.finishedBytes = .ok bytes ∧
      openSizedRoot bytes = .ok view ∧ TableShown false view document := by
  intro inner document
  let additions (text : Offset .string) (tags : Offset (.vector (.scalar .uint8)))
      (child : Offset .table) (children : Offset (.vector .table)) : List Addition :=
    [⟨8, .table inner, child.value⟩, ⟨4, .string [104, 105], text.value⟩,
      ⟨6, .scalar .uint8 (3 : UInt8) (0 : UInt8), 0⟩,
      ⟨10, .scalars .uint8 ([1, 0] : List UInt8), tags.value⟩,
      ⟨12, .tables [inner, inner], children.value⟩,
      ⟨14, .struct 4 [.scalar .int32 (5 : Int32), .padding 4] (by decide), 0⟩,
      ⟨16, .optional .bool (some true), 0⟩]
  have evaluated : ((do
      let text ← writeByteString [104, 105]
      let tags ← writeScalars .uint8 ([1, 0] : List UInt8)
      let child ← writeTable 1 [⟨4, .scalar .int32 (7 : Int32) (0 : Int32), 0⟩]
      let children ← writeReferences [child, child]
      let root ← writeTable 7 (additions text tags child children)
      finish root (some "FLAT") true : Build Unit) (.ofOptions ⟨0, false⟩)).value? = some () := by
    decide +kernel
  obtain ⟨after, ran⟩ := Outcome.done_of_value? evaluated
  rcases done_bind.mp ran with ⟨text, first, textRan, ran⟩
  rcases done_bind.mp ran with ⟨tags, second, tagsRan, ran⟩
  rcases done_bind.mp ran with ⟨child, third, childRan, ran⟩
  rcases done_bind.mp ran with ⟨children, fourth, childrenRan, ran⟩
  rcases done_bind.mp ran with ⟨root, fifth, rootRan, finished⟩
  have withText := Session.string [104, 105] (Session.new 0 (by decide)) textRan
  have withTags := Session.scalars .uint8 ([1, 0] : List UInt8) withText tagsRan
  have withChild := Session.table 1 _ inner withTags ⟨by decide, .refl _⟩ (by simp [Field.piece?])
    childRan
  have withChildren := Session.tables [(child, inner), (child, inner)] withChild (by simp)
    childrenRan
  have distinct : ([8, 4, 6, 10, 12, 14, 16] : List Slot).Nodup := by decide
  have session := Session.table 7 (additions text tags child children) document withChildren
    ⟨distinct, .swap _ _ _⟩ (by simp [additions, Field.piece?]) rootRan
  obtain ⟨bytes, view, ended, opened, shown⟩ := session.round_trip List.mem_cons_self finished
  exact ⟨after, bytes, view, ended, opened, shown⟩

end WireTables
