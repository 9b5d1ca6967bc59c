import WireTables.Proofs.Builder.Alignment
import WireTables.Proofs.Document.FramedStream
import WireTables.Proofs.Document.OpenedVectors
import WireTables.Proofs.Document.Overwritten
import WireTables.View.Update

namespace WireTables

open Build

section Update

variable {bytes changed : Bytes} {position field : Nat} {slot : Slot} {type : ScalarType}
  {value : type.Value} {view : TableView}

theorem updateScalar_of_finds (loaded : TableView.load bytes position = .ok view)
    (finds : view.Finds slot field) (stored : store bytes field (type.encode value) = .ok changed) :
    updateScalar bytes position slot type value = .ok (some changed) := by
  refine read_bind.mpr ⟨view, loaded, read_bind.mpr ⟨some field, finds.lookup none _, ?_⟩⟩
  exact read_map.mpr ⟨changed, stored, rfl⟩

theorem updateScalar_of_zero (loaded : TableView.load bytes position = .ok view)
    (missing : view.entry slot = .ok 0) : updateScalar bytes position slot type value = .ok none :=
  read_bind.mpr ⟨view, loaded, read_bind.mpr ⟨none, TableView.lookup_of_zero missing none _, rfl⟩⟩

end Update

def Content.scalarType? : Content → Option ScalarType
  | scalar type _ _ => some type
  | optional type _ => some type
  | reference _ | struct _ => none

theorem Content.LiesAt.scalar {content : Content} {type : ScalarType} {bytes : Bytes}
    {location : UInt32} (lies : content.LiesAt bytes location)
    (typed : content.scalarType? = some type) :
    content.width = type.width ∧
      ∃ old : type.Value, StandsAt bytes location.toNat (type.encode old) := by
  cases content with
  | scalar type value default =>
      cases typed
      exact ⟨rfl, value, lies⟩
  | optional type value =>
      cases typed
      rcases lies with ⟨present, -, stands⟩
      exact ⟨rfl, present, stands⟩
  | reference target => cases typed
  | struct start => cases typed

section Overwriting

variable {first last : Builder} {list : List Turn} {origin : Turn} {slot : Slot}
  {content : Content} {location : UInt32} {type : ScalarType} {bytes : Bytes}

theorem Turns.overwrites (turns : Turns first list last) (ordered : first.Ordered)
    (suffix : last.storage.written <:+ bytes) (small : bytes.length ≤ maxBufferSize)
    (member : origin ∈ list) (stored : origin.Stored slot content location)
    (typed : content.scalarType? = some type) (value : type.Value) :
    ∃ changed, store bytes (bytes.length - location.toNat) (type.encode value) = .ok changed ∧
      Overwrites list origin location type.width bytes changed ∧
      StandsAt changed location.toNat (type.encode value) := by
  have final : ∀ turn ∈ list, turn.after.storage.written <:+ bytes := fun turn member =>
    (Builder.suffix_of_changes (turns.holds ordered member).late).trans suffix
  obtain ⟨wide, old, stands⟩ := (stored.lies.of_suffix (final origin member)).scalar typed
  have same : (type.encode value).length = (type.encode old).length := by
    rw [ScalarType.length_encode, ScalarType.length_encode]
  obtain ⟨changed, written, agree, now⟩ := store_of_stands stands same
  rw [ScalarType.length_encode] at agree
  refine ⟨changed, written, ⟨small, final, ?_, ?_, wide ▸ stored.wrote, stands.distance_le, agree⟩,
    now⟩
  · intro turn other differ
    exact turns.apart ordered other member differ
  · rw [stored.call]
    rfl

namespace Overwrites

variable {width : Nat} {changed : Bytes}

theorem slice_of_other {turn : Turn} (writes : Overwrites list origin location width bytes changed)
    (member : turn ∈ list) (differ : turn ≠ origin)
    (grown : turn.before.storage.size ≤ turn.after.storage.size) :
    slice changed (bytes.length - turn.after.storage.size)
        (turn.after.storage.size - turn.before.storage.size) =
      slice bytes (bytes.length - turn.after.storage.size)
        (turn.after.storage.size - turn.before.storage.size) := by
  apply writes.agree.slice_eq
  have reached := (writes.final turn member).length_le
  have apart := writes.apart turn member differ
  have here := writes.wrote
  have inside := writes.inside
  rw [← turn.after.storage.size_eq] at reached
  simp only [Turn.Wrote] at here
  omega

theorem readString_of_spells {turn : Turn} {text : Bytes} {offset : UInt32}
    (writes : Overwrites list origin location width bytes changed) (member : turn ∈ list)
    (spells : turn.Spells text offset) :
    readString changed (changed.length - offset.toNat) = .ok text := by
  have wide : (ScalarType.uint32.encode (UInt32.ofNat text.length) ++ text).length =
      referenceWidth + text.length := by
    rw [List.length_append, ScalarType.length_encode]
    rfl
  have stands := writes.standsAt member (writes.differs spells.other) (wide ▸ spells.wrote)
    (spells.stands.of_suffix (writes.final turn member))
  have small := writes.small
  rw [← writes.agree.length] at small
  have stored : Stored false changed offset.toNat (.string text) := stored_string small stands
  exact stored.read.1

theorem slice_of_vector {early middle late : List Turn} {opening closing : Turn} {payload : Nat}
    {reply : Reply} {offset : UInt32}
    (writes : Overwrites list origin location width bytes changed) (turns : Turns first list last)
    (ordered : first.Ordered) (member : origin ∈ list)
    (stored : origin.Stored slot content location)
    (split : list = late ++ closing :: (middle ++ opening :: early))
    (opens : opening.call.elements? = some payload) (accepted : opening.answer = .ok reply)
    (busy : ∀ turn ∈ middle, turn.after.openObject ≠ .nothing)
    (closes : closing.call = .closeVector) (answered : closing.answer = .ok (.object offset))
    (filled : opening.before.storage.size + payload ≤ closing.before.storage.size) :
    slice changed (bytes.length - offset.toNat) (referenceWidth + payload) =
      slice bytes (bytes.length - offset.toNat) (referenceWidth + payload) := by
  apply writes.agree.slice_eq
  have closingMember : closing ∈ list :=
    split ▸ List.mem_append_right _ List.mem_cons_self
  have holds := turns.holds ordered closingMember
  have reached := (writes.final closing closingMember).length_le
  rw [← closing.after.storage.size_eq] at reached
  have stepped := holds.stepped
  rw [closes, answered] at stepped
  have place := place_of_closeVector (Nat.le_trans reached writes.small) stepped
  have apart := (split ▸ turns).apart_from_vector ordered opens accepted busy closes
    (split ▸ member) writes.stored stored.opened
  have here := writes.wrote
  have inside := writes.inside
  simp only [Turn.Wrote] at here
  omega

theorem tables {layouts : List Layout} {layout : Layout} {high : Nat} {value : type.Value}
    (writes : Overwrites list origin location type.width bytes changed)
    (stacked : Stacked list layouts high) (one : layout ∈ layouts)
    (stored : origin.Stored slot content location)
    (place : placeOf layout.fields slot = location)
    (started : layout.start.toNat ≤ origin.before.storage.size)
    (stands : StandsAt changed location.toNat (type.encode value)) :
    ∀ other ∈ layouts.map Layout.account, other.StaysIn
      (if other = layout.account then other.updated slot type value else other) bytes changed := by
  have built := (stacked.built one).1
  have below := built.below location (place ▸ mem_of_placeOf (place.symm ▸ stored.present))
  have ended : origin.after.storage.size ≤ layout.table.toNat := by
    rw [← stored.place]
    omega
  rintro account known
  rcases List.mem_map.mp known with ⟨other, two, rfl⟩
  by_cases same : other.account = layout.account
  · rw [if_pos same, same]
    exact writes.staysIn built (writes.standsIn_updated built stored place stands) rfl
  · rw [if_neg same]
    have differ : layout ≠ other := fun equal => same (congrArg Layout.account equal.symm)
    exact writes.staysIn (stacked.built two).1
      (writes.standsIn_other type.width_pos stacked one two differ started ended) rfl

theorem behind {front : Bytes}
    (writes : Overwrites list origin location width (front ++ bytes) changed)
    (final : ∀ turn ∈ list, turn.after.storage.written <:+ bytes)
    (inside : location.toNat ≤ bytes.length) :
    ∃ rest, changed = front ++ rest ∧ Overwrites list origin location width bytes rest := by
  have agree := writes.agree
  rw [length_append_sub front inside] at agree
  obtain ⟨rest, same, behind⟩ := agree.behind (Nat.le_add_right _ _)
  rw [Nat.add_sub_cancel_left] at behind
  have small := writes.small
  rw [List.length_append] at small
  exact ⟨rest, same, ⟨by omega, final, writes.apart, writes.stored, writes.wrote, inside, behind⟩⟩

theorem openRoot {layout : Layout}
    (writes : Overwrites list origin location width bytes changed) (built : Built list layout)
    (refers : RefersTo bytes bytes.length layout.table.toNat)
    (room : location.toNat + referenceWidth ≤ bytes.length) :
    ∃ view, WireTables.openRoot bytes = .ok view ∧
      WireTables.openRoot changed = .ok { view with buffer := changed } := by
  have before := built.tableStands writes.small writes.final
  have after := writes.tableStands built
  have referred : RefersTo changed changed.length layout.table.toNat := by
    refine ⟨Nat.le_refl _, writes.agree.length.symm ▸ refers.behind, ?_⟩
    have wide : ScalarType.uint32.width = referenceWidth := rfl
    have follow := refers.follow
    rw [Nat.sub_self] at follow ⊢
    rw [writes.agree.length, followReference, writes.agree.loadScalar_eq (by omega)]
    exact follow
  refine ⟨_, openRoot_of_refers refers before.load before.contained, ?_⟩
  rw [← TableStands.view_of_length writes.agree.length]
  exact openRoot_of_refers referred after.load after.contained

end Overwrites

end Overwriting

structure RootStays (sized : Bool) (bytes changed : Bytes) : Prop where
  root : ∃ view, openFinished sized bytes = .ok view ∧ openFinished sized changed =
    .ok { view with buffer := if sized then changed.drop referenceWidth else changed }
  identifier : ∀ mark, hasIdentifier changed mark sized = hasIdentifier bytes mark sized

theorem hasIdentifier_of_agree {start size : Nat} {bytes changed : Bytes} {sized : Bool}
    (agree : AgreeOff start size bytes changed)
    (late : (if sized then 2 * referenceWidth else referenceWidth) + identifierLength ≤ start)
    (mark : String) : hasIdentifier changed mark sized = hasIdentifier bytes mark sized := by
  simp only [hasIdentifier, agree.length, agree.slice_eq (.inl late)]

section Finishing

variable {list : List Turn} {origin : Turn} {location : UInt32} {width : Nat}
  {bytes changed payload : Bytes} {layout : Layout}

theorem rootStays_of_overwrites (sized : Bool)
    (writes : Overwrites list origin location width
      (if sized then frameOf payload else payload) changed)
    (final : ∀ turn ∈ list, turn.after.storage.written <:+ payload) (built : Built list layout)
    (small : payload.length ≤ maxBufferSize)
    (refers : RefersTo payload payload.length layout.table.toNat)
    (room : location.toNat + 2 * referenceWidth ≤ payload.length) :
    RootStays sized (if sized then frameOf payload else payload) changed := by
  have mark : identifierLength = referenceWidth := rfl
  cases sized with
  | false =>
      rw [if_neg Bool.false_ne_true] at writes ⊢
      refine ⟨writes.openRoot built refers (by omega), hasIdentifier_of_agree writes.agree ?_⟩
      rw [if_neg Bool.false_ne_true]
      omega
  | true =>
      rw [if_pos rfl] at writes ⊢
      obtain ⟨rest, same, behind⟩ := writes.behind final (by omega)
      have framed : changed = frameOf rest := by
        rw [frameOf, behind.agree.length, same]
      have restSmall : rest.length ≤ maxBufferSize := behind.agree.length ▸ small
      have opens {bytes : Bytes} (fits : bytes.length ≤ maxBufferSize) :
          openFinished true (frameOf bytes) = openRoot bytes := openFinished_eq true fits
      have late := writes.agree
      rw [length_frameOf] at late
      refine ⟨?_, hasIdentifier_of_agree late ?_⟩
      · obtain ⟨view, before, after⟩ := behind.openRoot built refers (by omega)
        have dropped : changed.drop referenceWidth = rest := by
          rw [same]
          exact List.drop_left' (ScalarType.length_encode ..)
        refine ⟨view, (opens small).trans before, ?_⟩
        rw [if_pos rfl, dropped, framed, opens restSmall]
        exact after
      · rw [if_pos rfl]
        omega

end Finishing

/-- A field has another value, and all else that was written in the turns is as it was. -/
structure Updated (turns : List Turn) (tables : List Account) (account : Account) (slot : Slot)
    (type : ScalarType) (value : type.Value) (origin : Turn) (bytes changed : Bytes) : Prop where
  stored : origin ∈ turns ∧ ∃ content, held account.entries slot = some content ∧
    origin.call.content? = some (slot, content)
  field : ∃ view, TableView.load bytes (bytes.length - account.table.toNat) = .ok view ∧
    view.positionOf slot = .ok (some (bytes.length - origin.after.storage.size))
  reads : ∃ view, TableView.load changed (changed.length - account.table.toNat) = .ok view ∧
    ∀ default, view.scalarAt slot type default = .ok value
  frame : AgreeOff (bytes.length - origin.after.storage.size) type.width bytes changed
  inside : origin.Wrote origin.after.storage.size type.width
  -- structs, and vectors that one call wrote whole, among them
  others : ∀ turn ∈ turns, turn ≠ origin →
    slice changed (bytes.length - turn.after.storage.size)
        (turn.after.storage.size - turn.before.storage.size) =
      slice bytes (bytes.length - turn.after.storage.size)
        (turn.after.storage.size - turn.before.storage.size)
  tables : ∀ other ∈ tables, other.StaysIn
    (if other = account then other.updated slot type value else other) bytes changed
  strings : ∀ turn ∈ turns, ∀ text offset, turn.call.text? = some text →
    turn.answer = .ok (.object offset) →
      readString changed (changed.length - offset.toNat) = .ok text
  -- a vector that one call opened and another closed
  vectors : ∀ early opening middle closing late payload reply offset,
    turns = early ++ opening :: (middle ++ closing :: late) →
    opening.call.elements? = some payload → opening.answer = .ok reply →
    (∀ turn ∈ middle, turn.after.openObject ≠ .nothing) →
    closing.call = .closeVector → closing.answer = .ok (.object offset) →
    opening.before.storage.size + payload ≤ closing.before.storage.size →
      slice changed (bytes.length - offset.toNat) (referenceWidth + payload) =
        slice bytes (bytes.length - offset.toNat) (referenceWidth + payload)

section Finished

variable {start : Builder} {calls : List Call} {stages : List (Answer × Builder)}
  {origin : Turn} {slot : Slot} {content : Content} {location : UInt32} {type : ScalarType}
  {value : type.Value} {bytes changed : Bytes} {view : TableView}

theorem Builder.turns_of_run (sound : start.Sound) (kept : ∀ call ∈ calls, call ≠ .clear)
    (ran : start.run calls = .ok stages) :
    Turns start (start.turns calls stages).reverse (start.lastOf stages) := by
  have small : ∀ stage ∈ stages, stage.2.storage.size ≤ maxBufferSize := fun stage member =>
    (sound_of_changes sound (changes_of_run sound kept ran stage member)).ordered.small
  have turns := Turns.nothing.of_run kept small ran
  rwa [List.append_nil] at turns

/-- Overwriting a field updates it, and nothing else. -/
theorem updated_of_overwrites {layouts : List Layout} {layout : Layout} {high : Nat}
    {list : List Turn} {last : Builder} (turns : Turns start list.reverse last)
    (fresh : start.Fresh)
    (writes : Overwrites list.reverse origin location type.width bytes changed)
    (member : origin ∈ list) (stored : origin.Stored slot content location)
    (stacked : Stacked list.reverse layouts high) (one : layout ∈ layouts)
    (place : placeOf layout.fields slot = location)
    (holds : held layout.entries slot = some content)
    (started : layout.start.toNat ≤ origin.before.storage.size)
    (loaded : TableView.load bytes (bytes.length - layout.table.toNat) = .ok view)
    (finds : view.Finds slot (bytes.length - location.toNat))
    (stands : StandsAt changed location.toNat (type.encode value)) :
    Updated list (layouts.map Layout.account) layout.account slot type value origin bytes changed := by
  have ordered := fresh.sound.ordered
  have tables := writes.tables stacked one stored place started stands
  have known {turn : Turn} (member : turn ∈ list) : turn ∈ list.reverse :=
    List.mem_reverse.mpr member
  exact {
    stored := ⟨member, content, holds, stored.call⟩
    field := ⟨view, loaded, stored.place ▸ finds.lookup none _⟩
    reads := by
      obtain ⟨view, block, -, -, -, loaded, -, shows⟩ :=
        tables layout.account (List.mem_map_of_mem one)
      rw [if_pos rfl] at shows
      rw [writes.agree.length]
      have latest : held (layout.account.updated slot type value).entries slot =
          some (.optional type (some value)) := held_of_stored rfl rfl
      exact ⟨_, loaded, (shows.readBy latest).1⟩
    frame := stored.place ▸ writes.agree
    inside := stored.place ▸ writes.wrote
    others := fun turn member differ => writes.slice_of_other (known member) differ
      (Builder.size_le_of_changes (turns.holds ordered (known member)).changes)
    tables := tables
    strings := by
      intro turn member text offset worded answered
      obtain ⟨writing, member, spells⟩ :=
        turns.spells fresh.sound fresh.strings (known member) worded answered
      exact writes.readString_of_spells member spells
    vectors := by
      intro early opening middle closing late payload reply offset split opens accepted busy closes
        answered filled
      have reversed : list.reverse =
          late.reverse ++ closing :: (middle.reverse ++ opening :: early.reverse) := by
        simp only [split, List.reverse_append, List.reverse_cons, List.append_assoc,
          List.cons_append, List.nil_append]
      exact writes.slice_of_vector turns ordered (known member) stored reversed opens accepted
        (fun turn member => busy turn (List.mem_reverse.mp member)) closes answered filled }

end Finished

section Layouts

variable {start last : Builder} {list : List Turn} {layouts : List Layout} {layout : Layout}
  {high : Nat} {slot : Slot} {index : Nat} {bytes : Bytes}

theorem Built.update_absent (built : Built list layout) (small : bytes.length ≤ maxBufferSize)
    (final : ∀ turn ∈ list, turn.after.storage.written <:+ bytes)
    (place : indexOfSlot slot = some index) (blank : held layout.entries slot = none)
    (type : ScalarType) (value : type.Value) :
    updateScalar bytes (bytes.length - layout.table.toNat) slot type value = .ok none := by
  have stands := built.tableStands small final
  have traced := built.traced slot
  rw [blank, placeOf_index place] at traced
  exact updateScalar_of_zero stands.load (stands.entry_eq_zero place traced)

theorem update_present {content : Content} {type : ScalarType} (value : type.Value)
    (turns : Turns start list.reverse last) (fresh : start.Fresh)
    (suffix : last.storage.written <:+ bytes) (small : bytes.length ≤ maxBufferSize)
    (stacked : Stacked list.reverse layouts high) (one : layout ∈ layouts)
    (place : indexOfSlot slot = some index) (holds : held layout.entries slot = some content)
    (typed : content.scalarType? = some type) :
    ∃ changed origin location,
      updateScalar bytes (bytes.length - layout.table.toNat) slot type value =
        .ok (some changed) ∧
      Updated list (layouts.map Layout.account) layout.account slot type value origin bytes
        changed ∧
      Overwrites list.reverse origin location type.width bytes changed ∧
      location.toNat + referenceWidth ≤ layout.table.toNat := by
  have built := (stacked.built one).1
  have traced := built.traced slot
  rw [holds] at traced
  rcases traced with ⟨origin, member, started, stored⟩
  obtain ⟨changed, written, writes, stands⟩ :=
    turns.overwrites fresh.sound.ordered suffix small member stored typed value
  have below := built.below _ (mem_of_placeOf stored.present)
  have before := built.tableStands small writes.final
  have width : 0 < referenceWidth := by decide
  have finds := before.finds place (placeOf_index place).symm stored.present (by omega)
  refine ⟨changed, origin, _, updateScalar_of_finds before.load finds written, ?_, writes, below⟩
  exact updated_of_overwrites turns fresh writes (List.mem_reverse.mp member) stored stacked one rfl
    holds started before.load finds stands

end Layouts

theorem finished_of_step {last finished : Builder} {root : Offset .table}
    {identifier : Option String} {sized : Bool} {reply : Reply} {bytes : Bytes} (sound : last.Sound)
    (finishes : (Call.finish root identifier sized).step last = .ok (.ok reply, finished))
    (shown : finished.finishedBytes = .ok bytes) :
    ∃ payload : Bytes, bytes = (if sized then frameOf payload else payload) ∧
      bytes.length ≤ maxBufferSize ∧ payload.length ≤ maxBufferSize ∧
      last.storage.written <:+ payload ∧
      last.storage.size + referenceWidth ≤ payload.length ∧
      RefersTo payload payload.length root.value.toNat := by
  rcases done_bind.mp (Call.done_of_step finishes) with ⟨_, _, ran, ended⟩
  cases ended
  obtain ⟨payload, payloadSmall, suffix, room, refers, ended⟩ := finish_done sound.fits ran
  have same : bytes = if sized then frameOf payload else payload :=
    Except.ok.inj (shown.symm.trans ended)
  have small : bytes.length ≤ maxBufferSize := by
    rw [← Builder.written_of_finishedBytes shown, ← Storage.size_eq]
    exact (Builder.sound_of_step sound finishes).ordered.small
  exact ⟨payload, same, small, payloadSmall, suffix, room, refers⟩

/-- In a buffer that was finished, a scalar field of any table is updated in place: it reads as the
new value, and all else reads as before. A field that is absent is left alone. A vector that is
opened and closed is only meant as far as its elements were written in between. -/
theorem Builder.Fresh.update_frames {start finished : Builder} {calls : List Call}
    {stages : List (Answer × Builder)} {root : Offset .table} {identifier : Option String}
    {sized : Bool} {reply : Reply} {bytes : Bytes} {account : Account} {slot : Slot} {index : Nat}
    (fresh : start.Fresh) (kept : ∀ call ∈ calls, call ≠ .clear)
    (ran : start.run calls = .ok stages)
    (finishes : (Call.finish root identifier sized).step (start.lastOf stages) =
      .ok (.ok reply, finished))
    (shown : finished.finishedBytes = .ok bytes)
    (rooted : ∃ other ∈ (Ledger.empty.through start calls stages).tables, other.table = root.value)
    (known : account ∈ (Ledger.empty.through start calls stages).tables)
    (place : indexOfSlot slot = some index) :
    match held account.entries slot with
    | none => ∀ type value,
        updateScalar bytes (bytes.length - account.table.toNat) slot type value = .ok none
    | some content => ∀ (type : ScalarType) (value : type.Value),
        content.scalarType? = some type → ∃ changed origin,
          updateScalar bytes (bytes.length - account.table.toNat) slot type value =
            .ok (some changed) ∧
          Updated (start.turns calls stages) (Ledger.empty.through start calls stages).tables
            account slot type value origin bytes changed ∧
          RootStays sized bytes changed := by
  have turns := turns_of_run fresh.sound kept ran
  have ordered := fresh.sound.ordered
  -- the tables lie apart, one in front of the other, in the order in which they were closed
  have ledger := Ledger.over_turns .empty [] start calls stages
  rw [List.append_nil] at ledger
  have piles := turns.piles ordered fresh.openObject fresh.vtables
  rw [ledger] at piles
  change Ledger.Piles (Ledger.empty.through start calls stages) _ _ at piles
  obtain ⟨layouts, stacked, tables⟩ := piles.closed
  rw [← tables] at known rooted ⊢
  rcases List.mem_map.mp known with ⟨layout, one, rfl⟩
  rcases rooted with ⟨other, two, rooted⟩
  rcases List.mem_map.mp two with ⟨rootLayout, rootMember, rfl⟩
  change rootLayout.table = root.value at rooted
  obtain ⟨payload, same, small, payloadSmall, suffix, room, refers⟩ :=
    finished_of_step (turns.sound fresh.sound) finishes shown
  have whole : payload <:+ bytes := by
    rw [same]
    split
    case isTrue => exact List.suffix_append _ _
    case isFalse => exact List.suffix_refl _
  have final : ∀ turn ∈ (start.turns calls stages).reverse,
      turn.after.storage.written <:+ payload := fun turn member =>
    (suffix_of_changes (turns.holds ordered member).late).trans suffix
  obtain ⟨built, reached⟩ := stacked.built one
  cases holds : held layout.account.entries slot with
  | none =>
      exact built.update_absent small (fun turn member => (final turn member).trans whole) place holds
  | some content =>
      intro type value typed
      obtain ⟨changed, origin, location, written, updated, writes, below⟩ :=
        update_present value turns fresh (suffix.trans whole) small stacked one place holds typed
      refine ⟨changed, origin, written, updated, ?_⟩
      have wide : 2 * referenceWidth = referenceWidth + referenceWidth := rfl
      have behind : location.toNat + 2 * referenceWidth ≤ payload.length := by omega
      have rootRefers : RefersTo payload payload.length rootLayout.table.toNat := by
        rw [rooted]
        exact refers
      subst same
      exact rootStays_of_overwrites sized writes final (stacked.built rootMember).1 payloadSmall
        rootRefers
        behind

theorem update_frames_of_pair :
    ∃ (stages : List (Answer × Builder)) (reply : Reply) (finished : Builder)
      (bytes changed : Bytes) (account other : Account),
      (Builder.ofOptions ⟨64, false⟩).run [.openTable 1, .storeScalar 4 .uint32 (1 : UInt32) 0,
        .closeTable, .openTable 1, .storeScalar 4 .uint32 (2 : UInt32) 0, .closeTable] =
          .ok stages ∧
      (Call.finish ⟨24⟩ none true).step ((Builder.ofOptions ⟨64, false⟩).lastOf stages) =
        .ok (.ok reply, finished) ∧
      finished.finishedBytes = .ok bytes ∧ account.table = 8 ∧ other.table = 24 ∧
      updateScalar bytes (bytes.length - 8) 4 .uint32 (7 : UInt32) = .ok (some changed) ∧
      account.StaysIn (account.updated 4 .uint32 (7 : UInt32)) bytes changed ∧
      other.StaysIn other bytes changed ∧ RootStays true bytes changed ∧
      updateScalar bytes (bytes.length - 8) 6 .uint32 (7 : UInt32) = .ok none := by
  let calls : List Call := [.openTable 1, .storeScalar 4 .uint32 (1 : UInt32) 0, .closeTable,
    .openTable 1, .storeScalar 4 .uint32 (2 : UInt32) 0, .closeTable]
  let account : Account := ⟨8, [⟨4, .scalar .uint32 (1 : UInt32) 0, false⟩]⟩
  let other : Account := ⟨24, [⟨4, .scalar .uint32 (2 : UInt32) 0, false⟩]⟩
  let start : Builder := .ofOptions ⟨64, false⟩
  have evaluated : ((fun stages =>
      ((Ledger.empty.through start calls stages).tables,
        ((fun stage : Answer × Builder => (stage.1.isOk, stage.2.finishedBytes.toOption.isSome)) <$>
            (Call.finish ⟨24⟩ none true).step (start.lastOf stages)).toOption)) <$>
        start.run calls).toOption = some ([other, account], some (true, true)) := by decide +kernel
  obtain ⟨stages, ran, shown⟩ := read_map.mp (ok_of_toOption evaluated)
  simp only [Prod.mk.injEq] at shown
  rcases shown with ⟨tables, shown⟩
  obtain ⟨⟨answer, finished⟩, finishes, shown⟩ := read_map.mp (ok_of_toOption shown)
  simp only [Prod.mk.injEq] at shown
  rcases shown with ⟨accepted, ended⟩
  obtain ⟨reply, rfl⟩ := reply_of_isOk accepted
  obtain ⟨bytes, ended⟩ := Option.isSome_iff_exists.mp ended
  have kept : ∀ call ∈ calls, call ≠ .clear := by simp [calls]
  have rooted : ∃ last ∈ (Ledger.empty.through start calls stages).tables, last.table = 24 := by
    rw [tables]
    exact ⟨other, .head _, rfl⟩
  have known : account ∈ (Ledger.empty.through start calls stages).tables := by
    rw [tables]
    exact .tail _ (.head _)
  have frames {slot : Slot} {index : Nat} (place : indexOfSlot slot = some index) :=
    (Builder.Fresh.new ⟨64, false⟩ (by decide)).update_frames kept ran finishes
      (ok_of_toOption ended) rooted known place
  have first : indexOfSlot 4 = some 0 := by decide
  have second : indexOfSlot 6 = some 1 := by decide
  obtain ⟨changed, origin, written, updated, stays⟩ := frames first .uint32 (7 : UInt32) rfl
  have here := updated.tables account known
  have there := updated.tables other (by rw [tables]; exact .head _)
  rw [if_pos rfl] at here
  rw [if_neg (by decide)] at there
  exact ⟨stages, reply, finished, bytes, changed, account, other, ran, finishes,
    ok_of_toOption ended, rfl, rfl, written, here, there, stays, frames second .uint32 (7 : UInt32)⟩

/-- The elements of a vector that is closed before they are written are whatever stands there. Here
the last one is the field of a table, and changes with it. -/
theorem update_reaches_unfilled_vector :
    ∃ (stages : List (Answer × Builder)) (reply : Reply) (finished : Builder)
      (bytes changed : Bytes) (root now : TableView) (before after : VectorView (.scalar .uint32)),
      (Builder.ofOptions ⟨64, false⟩).run [.openTable 1, .storeScalar 4 .uint32 (1 : UInt32) 0,
        .closeTable, .openVector 4 4 4, .closeVector, .openTable 2,
        .storeReference 4 (⟨20⟩ : Offset (.vector (.scalar .uint32))),
        .storeReference 6 (⟨8⟩ : Offset .table), .closeTable] = .ok stages ∧
      stages.map (fun stage => objectOf stage.1) =
        [none, none, some 8, none, some 20, none, none, none, some 32] ∧
      (Call.finish ⟨32⟩ none false).step ((Builder.ofOptions ⟨64, false⟩).lastOf stages) =
        .ok (.ok reply, finished) ∧
      finished.finishedBytes = .ok bytes ∧
      updateScalar bytes (bytes.length - 8) 4 .uint32 (2 : UInt32) = .ok (some changed) ∧
      openRoot bytes = .ok root ∧ root.vectorAt 4 (.scalar .uint32) = .ok (some before) ∧
      openRoot changed = .ok now ∧ now.vectorAt 4 (.scalar .uint32) = .ok (some after) ∧
      before.get 3 = .ok (1 : UInt32) ∧ after.get 3 = .ok (2 : UInt32) := by
  let calls : List Call := [.openTable 1, .storeScalar 4 .uint32 (1 : UInt32) 0, .closeTable,
    .openVector 4 4 4, .closeVector, .openTable 2,
    .storeReference 4 (⟨20⟩ : Offset (.vector (.scalar .uint32))),
    .storeReference 6 (⟨8⟩ : Offset .table), .closeTable]
  let start : Builder := .ofOptions ⟨64, false⟩
  let front : Bytes := [12, 0, 0, 0, 8, 0, 12, 0, 8, 0, 4, 0, 8, 0, 0, 0, 20, 0, 0, 0, 4, 0, 0, 0,
    4, 0, 0, 0, 0, 0, 6, 0, 8, 0, 4, 0, 6, 0, 0, 0]
  let bytes : Bytes := front ++ [1, 0, 0, 0]
  let changed : Bytes := front ++ [2, 0, 0, 0]
  have evaluated : ((fun stages => (stages.map fun stage => objectOf stage.1,
      ((fun stage : Answer × Builder => (stage.1.isOk, stage.2.finishedBytes.toOption)) <$>
        (Call.finish ⟨32⟩ none false).step (start.lastOf stages)).toOption)) <$>
      start.run calls).toOption =
        some ([none, none, some 8, none, some 20, none, none, none, some 32],
          some (true, some bytes)) := by decide +kernel
  obtain ⟨stages, ran, shown⟩ := read_map.mp (ok_of_toOption evaluated)
  simp only [Prod.mk.injEq] at shown
  rcases shown with ⟨objects, shown⟩
  obtain ⟨⟨answer, finished⟩, finishes, shown⟩ := read_map.mp (ok_of_toOption shown)
  simp only [Prod.mk.injEq] at shown
  rcases shown with ⟨accepted, ended⟩
  obtain ⟨reply, rfl⟩ := reply_of_isOk accepted
  have moved : (updateScalar bytes (bytes.length - 8) 4 .uint32 (2 : UInt32)).toOption =
    some (some changed) := by decide +kernel
  have opened : (openRoot bytes).toOption = some ⟨bytes, 12, 4, 8⟩ := by decide +kernel
  have reopened : (openRoot changed).toOption = some ⟨changed, 12, 4, 8⟩ := by decide +kernel
  have found : (TableView.vectorAt ⟨bytes, 12, 4, 8⟩ 4 (.scalar .uint32)).toOption =
    some (some ⟨bytes, 24, 4⟩) := by decide +kernel
  have again : (TableView.vectorAt ⟨changed, 12, 4, 8⟩ 4 (.scalar .uint32)).toOption =
    some (some ⟨changed, 24, 4⟩) := by decide +kernel
  have element : ((⟨bytes, 24, 4⟩ : VectorView (.scalar .uint32)).get 3).toOption =
    some (1 : UInt32) := by decide +kernel
  have other : ((⟨changed, 24, 4⟩ : VectorView (.scalar .uint32)).get 3).toOption =
    some (2 : UInt32) := by decide +kernel
  exact ⟨stages, reply, finished, bytes, changed, _, _, _, _, ran, objects, finishes,
    ok_of_toOption ended, ok_of_toOption moved, ok_of_toOption opened, ok_of_toOption found,
    ok_of_toOption reopened, ok_of_toOption again, ok_of_toOption element, ok_of_toOption other⟩

end WireTables
