import WireTables.Proofs.Bytes.Overwriting
import WireTables.Proofs.Document.Texts

namespace WireTables

theorem Built.tableStands {turns : List Turn} {layout : Layout} {bytes : Bytes}
    (built : Built turns layout) (small : bytes.length ≤ maxBufferSize)
    (final : ∀ turn ∈ turns, turn.after.storage.written <:+ bytes) :
    TableStands bytes layout.start layout.table layout.vtablePlace layout.fields := by
  rcases built.closed with ⟨closing, member, stands⟩
  exact stands.of_suffix (final closing member) small

namespace TableStands

variable {bytes changed : Bytes} {start table vtable : UInt32} {fields : List UInt32}

theorem vtable_bytes (stands : TableStands bytes start table vtable fields) :
    (view bytes table vtable fields).vtable.bytes = .ok (vtableBytes table start fields) := by
  have sized : loadScalar .uint16 bytes (bytes.length - vtable.toNat) =
      .ok (UInt16.ofNat (vtableWidth fields)) := stands.vtable.beginning.load_shortWord
  have taken := stands.vtable.slice_eq
  rw [length_vtableBytes] at taken
  refine read_bind.mpr ⟨vtableWidth fields, read_bind.mpr ⟨_, sized, ?_⟩, taken⟩
  rw [toNat_ofNat_of_entry stands.vtableSize]
  rfl

theorem view_of_length (same : changed.length = bytes.length) :
    view changed table vtable fields = { view bytes table vtable fields with buffer := changed } := by
  simp only [view, same]

end TableStands

def Account.updated (account : Account) (slot : Slot) (type : ScalarType) (value : type.Value) :
    Account :=
  { account with entries := ⟨slot, .optional type (some value), true⟩ :: account.entries }

def Account.StaysIn (account now : Account) (bytes changed : Bytes) : Prop :=
  ∃ view block, TableView.load bytes (bytes.length - account.table.toNat) = .ok view ∧
    view.vtable.bytes = .ok block ∧ account.ShownBy view ∧
    TableView.load changed (bytes.length - account.table.toNat) =
      .ok { view with buffer := changed } ∧
    ({ view with buffer := changed } : TableView).vtable.bytes = .ok block ∧
    now.ShownBy { view with buffer := changed }

theorem Account.StandsIn.shownBy {account : Account} {bytes : Bytes} {view : TableView}
    (stands : account.StandsIn bytes)
    (loaded : TableView.load bytes (bytes.length - account.table.toNat) = .ok view) :
    account.ShownBy view := by
  obtain ⟨found, sameLoad, -, shows⟩ := stands.read (List.suffix_refl bytes)
  rw [loaded] at sameLoad
  cases sameLoad
  exact shows

/-- The buffer of the turns, and the same buffer once `width` bytes that the turn `origin` wrote
were overwritten. -/
structure Overwrites (turns : List Turn) (origin : Turn) (location : UInt32) (width : Nat)
    (bytes changed : Bytes) : Prop where
  small : bytes.length ≤ maxBufferSize
  final : ∀ turn ∈ turns, turn.after.storage.written <:+ bytes
  apart : ∀ turn ∈ turns, turn ≠ origin →
    turn.after.storage.size ≤ origin.before.storage.size ∨
      origin.after.storage.size ≤ turn.before.storage.size
  stored : origin.call.content?.isSome
  wrote : origin.Wrote location.toNat width
  inside : location.toNat ≤ bytes.length
  agree : AgreeOff (bytes.length - location.toNat) width bytes changed

namespace Overwrites

variable {turns : List Turn} {origin turn : Turn} {location : UInt32} {width : Nat}
  {bytes changed : Bytes} {layout other : Layout}

theorem differs (writes : Overwrites turns origin location width bytes changed)
    (unstored : turn.call.content? = none) : turn ≠ origin := by
  rintro rfl
  have stored := writes.stored
  rw [unstored] at stored
  cases stored

theorem standsAt (writes : Overwrites turns origin location width bytes changed)
    (member : turn ∈ turns) (differ : turn ≠ origin) {distance : Nat} {block : Bytes}
    (wrote : turn.Wrote distance block.length) (stands : StandsAt bytes distance block) :
    StandsAt changed distance block := by
  refine writes.agree.standsAt writes.inside ?_ stands
  have apart := writes.apart turn member differ
  have here := writes.wrote
  simp only [Turn.Wrote] at wrote here
  omega

theorem refersTo (writes : Overwrites turns origin location width bytes changed)
    (member : turn ∈ turns) (differ : turn ≠ origin) {distance target : Nat}
    (wrote : turn.Wrote distance referenceWidth) (refers : RefersTo bytes distance target) :
    RefersTo changed distance target where
  inside := writes.agree.length ▸ refers.inside
  behind := refers.behind
  follow := by
    have apart := writes.apart turn member differ
    have here := writes.wrote
    have reached := refers.inside
    have whole := writes.inside
    have wide : ScalarType.uint32.width = referenceWidth := rfl
    simp only [Turn.Wrote] at wrote here
    rw [writes.agree.length, followReference, writes.agree.loadScalar_eq (by omega)]
    exact refers.follow

theorem liesAt (writes : Overwrites turns origin location width bytes changed)
    (member : turn ∈ turns) (differ : turn ≠ origin) {slot : Slot} {content : Content}
    {place : UInt32} (stored : turn.Stored slot content place) : content.LiesAt changed place := by
  have lies := stored.lies.of_suffix (writes.final turn member)
  have wrote := stored.wrote
  cases content with
  | scalar type value default =>
      exact writes.standsAt member differ ((type.length_encode value).symm ▸ wrote) lies
  | optional type value =>
      rcases lies with ⟨present, same, stands⟩
      exact ⟨present, same, writes.standsAt member differ ((type.length_encode present).symm ▸ wrote)
        stands⟩
  | reference target => exact writes.refersTo member differ wrote lies
  | struct start => exact ⟨lies.1, writes.agree.length ▸ lies.2⟩

theorem standsAt_of_closing (writes : Overwrites turns origin location width bytes changed)
    {distance : Nat} {block : Bytes} (wrote : WroteClosing turns distance block.length)
    (stands : StandsAt bytes distance block) : StandsAt changed distance block := by
  rcases wrote with ⟨closing, member, closes, wrote⟩
  have differ : closing ≠ origin := writes.differs (by rw [closes]; rfl)
  exact writes.standsAt member differ wrote stands

theorem tableStands (writes : Overwrites turns origin location width bytes changed)
    (built : Built turns layout) :
    TableStands changed layout.start layout.table layout.vtablePlace layout.fields :=
  have stands := built.tableStands writes.small writes.final
  { small := writes.agree.length.symm ▸ writes.small
    link := writes.standsAt_of_closing (by rw [ScalarType.length_encode]; exact built.link) stands.link
    vtable := writes.standsAt_of_closing (by rw [length_vtableBytes]; exact built.vtable) stands.vtable
    entries := stands.entries
    vtableSize := stands.vtableSize }

theorem heldAt (writes : Overwrites turns origin location width bytes changed) {slot : Slot}
    {start place : UInt32} {content : Option Content} (traced : Traced turns start slot place content)
    (differ : ∀ turn content, turn.Stored slot content place →
      start.toNat ≤ turn.before.storage.size → turn ≠ origin) :
    HeldAt changed place content := by
  cases content with
  | none => exact traced
  | some content =>
      rcases traced with ⟨turn, member, later, stored⟩
      exact ⟨stored.present, writes.liesAt member (differ turn content stored later) stored⟩

theorem below_of_built (built : Built turns layout) :
    ∀ location ∈ layout.fields, location.toNat < layout.table.toNat := by
  intro location member
  have width : 0 < referenceWidth := by decide
  have below := built.below location member
  omega

theorem standsIn_other {layouts : List Layout} {high : Nat}
    (writes : Overwrites turns origin location width bytes changed) (positive : 0 < width)
    (stacked : Stacked turns layouts high) (one : layout ∈ layouts) (two : other ∈ layouts)
    (differ : layout ≠ other) (started : layout.start.toNat ≤ origin.before.storage.size)
    (ended : origin.after.storage.size ≤ layout.table.toNat) : other.account.StandsIn changed := by
  have built := (stacked.built two).1
  refine ⟨_, _, _, writes.tableStands built, below_of_built built, fun slot => ?_⟩
  apply writes.heldAt (built.traced slot)
  rintro turn content stored later rfl
  have below := built.below _ (mem_of_placeOf stored.present)
  have place := stored.place
  have wrote := writes.wrote
  simp only [Turn.Wrote] at wrote
  rcases stacked.apart one two differ with early | late <;> omega

theorem standsIn_updated {slot : Slot} {content : Content} {type : ScalarType} {value : type.Value}
    (writes : Overwrites turns origin location type.width bytes changed) (built : Built turns layout)
    (stored : origin.Stored slot content location)
    (place : placeOf layout.fields slot = location)
    (stands : StandsAt changed location.toNat (type.encode value)) :
    (layout.account.updated slot type value).StandsIn changed := by
  refine ⟨_, _, _, writes.tableStands built, below_of_built built, fun other => ?_⟩
  by_cases same : slot = other
  · subst same
    have latest : held (layout.account.updated slot type value).entries slot =
        some (.optional type (some value)) := held_of_stored rfl rfl
    rw [latest, place]
    exact ⟨stored.present, value, rfl, stands⟩
  · have passed : held (layout.account.updated slot type value).entries other =
        held layout.entries other := held_of_passed (.inl same)
    rw [passed]
    apply writes.heldAt (built.traced other)
    -- a turn stores in one slot only, so no other slot goes back to this one
    rintro turn content later - rfl
    have both := stored.call.symm.trans later.call
    cases both
    exact same rfl

theorem standsIn_before (writes : Overwrites turns origin location width bytes changed)
    (built : Built turns layout) : layout.account.StandsIn bytes := by
  refine ⟨_, _, _, built.tableStands writes.small writes.final, below_of_built built, fun slot => ?_⟩
  have traced := built.traced slot
  change HeldAt bytes _ (held layout.entries slot)
  cases holds : held layout.entries slot with
  | none =>
      rw [holds] at traced
      exact traced
  | some content =>
      rw [holds] at traced
      rcases traced with ⟨turn, member, -, stored⟩
      exact ⟨stored.present, stored.lies.of_suffix (writes.final turn member)⟩

theorem staysIn {now : Account} (writes : Overwrites turns origin location width bytes changed)
    (built : Built turns layout) (stands : now.StandsIn changed)
    (same : now.table = layout.table) : layout.account.StaysIn now bytes changed := by
  have before := built.tableStands writes.small writes.final
  have after := writes.tableStands built
  have whole : TableStands.view changed layout.table layout.vtablePlace layout.fields = _ :=
    TableStands.view_of_length writes.agree.length
  have loaded := after.load
  have sized := after.vtable_bytes
  rw [whole] at loaded sized
  refine ⟨_, _, before.load, before.vtable_bytes, (writes.standsIn_before built).shownBy before.load,
    writes.agree.length ▸ loaded, sized, stands.shownBy ?_⟩
  rw [same]
  exact loaded

end Overwrites

end WireTables
