import WireTables.Proofs.Builder.Finality
import WireTables.Proofs.Document.Piece

namespace WireTables

open Build

def Field.piece? : Field → Option Piece
  | .string text => some (.string text)
  | .scalars type items => some (.scalars type items)
  | .strings items => some (.strings items)
  | .table document => some (.table document)
  | .tables documents => some (.tables documents)
  | .scalar .. | .optional .. | .struct .. => none

def Member.put : Member → Build Unit
  | scalar type value => putScalar type value
  | padding count => Build.pad count

def writeStruct (alignment : Nat) (members : List Member) :
    Build (Offset (.struct (Member.widthOf members))) := do
  prepare alignment (Member.widthOf members)
  members.reverse.forM Member.put
  pure ⟨← head⟩

structure Inline where
  alignment : Nat
  width : Nat
  deriving DecidableEq, Repr

def Inline.reach (inline : Inline) (head : Nat) : Nat :=
  inline.width + (paddingTo inline.alignment (head + inline.width) + head)

def Field.inline : Field → Inline
  | .scalar type .. | .optional type _ => ⟨type.width, type.width⟩
  | .struct alignment members _ => ⟨alignment, Member.widthOf members⟩
  | _ => ⟨referenceWidth, referenceWidth⟩

structure Addition where
  slot : Slot
  field : Field
  source : UInt32 := 0

namespace Addition

def store (addition : Addition) : Build Unit :=
  match addition.field with
  | .scalar type value default => storeScalar addition.slot type value default
  | .optional type value => storeOptional addition.slot type value
  | .struct alignment members _ => do
      let struct ← writeStruct alignment members
      storeStruct addition.slot struct
  | .string _ => storeReference addition.slot (⟨addition.source⟩ : Offset .string)
  | .scalars type _ =>
      storeReference addition.slot (⟨addition.source⟩ : Offset (.vector (.scalar type)))
  | .strings _ => storeReference addition.slot (⟨addition.source⟩ : Offset (.vector .string))
  | .table _ => storeReference addition.slot (⟨addition.source⟩ : Offset .table)
  | .tables _ => storeReference addition.slot (⟨addition.source⟩ : Offset (.vector .table))

def StandsInline (addition : Addition) (bytes : Bytes) (location : UInt32) : Prop :=
  match addition.field with
  | .scalar type value _ => StandsAt bytes location.toNat (type.encode value)
  | .optional type (some value) => StandsAt bytes location.toNat (type.encode value)
  | .optional _ none => False
  | .struct _ members _ => StandsAt bytes location.toNat (members.flatMap Member.bytes)
  | _ => RefersTo bytes location.toNat addition.source.toNat

theorem StandsInline.of_suffix {addition : Addition} {bytes whole : Bytes} {location : UInt32}
    (suffix : bytes <:+ whole) (stands : addition.StandsInline bytes location) :
    addition.StandsInline whole location := by
  simp only [StandsInline] at stands ⊢
  split at stands
  case h_1 | h_2 | h_4 => exact StandsAt.of_suffix suffix stands
  case h_3 => exact stands
  case h_5 =>
    rcases suffix with ⟨front, rfl⟩
    exact stands.append_front front

theorem StandsInline.inside {addition : Addition} {bytes : Bytes} {location : UInt32}
    (stands : addition.StandsInline bytes location) : location.toNat ≤ bytes.length := by
  simp only [StandsInline] at stands
  split at stands
  case h_1 | h_2 | h_4 => exact stands.distance_le
  case h_3 => exact stands.elim
  case h_5 => exact stands.inside

def Placed (forced : Bool) (addition : Addition) (bytes : Bytes) (location : UInt32) : Prop :=
  if addition.field.stored forced then location ≠ 0 ∧ addition.StandsInline bytes location
  else location = 0

theorem Placed.of_suffix {forced : Bool} {addition : Addition} {bytes whole : Bytes}
    {location : UInt32} (suffix : bytes <:+ whole) (placed : addition.Placed forced bytes location) :
    addition.Placed forced whole location := by
  simp only [Placed] at placed ⊢
  split at placed
  case isTrue stored =>
    rw [if_pos stored]
    exact ⟨placed.1, placed.2.of_suffix suffix⟩
  case isFalse omitted =>
    rw [if_neg omitted]
    exact placed

end Addition

section Storing

variable {before after middle : Builder} {start : UInt32} {fields : List UInt32} {slot : Slot}

structure Takes (before after : Builder) (inline : Inline) (start : UInt32) (fields : List UInt32)
    (index : Nat) (location : UInt32) : Prop where
  present : location ≠ 0
  place : location.toNat = after.storage.size
  size : after.storage.size = inline.reach before.storage.size
  opened : after.openObject = .table start (fields.set index location)
  forceDefaults : after.forceDefaults = before.forceDefaults

theorem recordField_done {index : Nat} {front : Bytes} {inline : Inline}
    (small : after.storage.size ≤ maxBufferSize) (opened : before.openObject = .table start fields)
    (pushed : Pushed before middle front) (wide : 0 < inline.width)
    (reached : middle.storage.size = inline.reach before.storage.size)
    (ran : recordField index middle = .done () after) :
    ∃ location : UInt32, Takes before after inline start fields index location ∧
      after.storage = middle.storage := by
  rw [recordField_apply index (pushed.openObject.trans opened)] at ran
  cases ran
  have headed : middle.head.toNat = middle.storage.size := toNat_ofNat_of_size small
  refine ⟨middle.head, ⟨?_, headed, reached, rfl, pushed.forceDefaults⟩, rfl⟩
  intro zero
  rw [zero, reached, Inline.reach] at headed
  change 0 = _ at headed
  omega

theorem standsAt_head {builder : Builder} {block behind : Bytes}
    (written : builder.storage.written = block ++ behind) :
    StandsAt builder.storage.written builder.storage.size block := by
  rw [builder.storage.size_eq, written, List.length_append]
  exact StandsAt.of_front block behind

def Added (addition : Addition) (before after : Builder) (start : UInt32) (fields : List UInt32) :
    Prop :=
  ∃ index, indexOfSlot addition.slot = some index ∧ index < fields.length ∧
    ((addition.field.stored before.forceDefaults = false ∧ after = before) ∨
      ∃ location, addition.field.stored before.forceDefaults = true ∧
        addition.StandsInline after.storage.written location ∧
        Takes before after addition.field.inline start fields index location)

theorem Added.forceDefaults {addition : Addition} (added : Added addition before after start fields) :
    after.forceDefaults = before.forceDefaults := by
  rcases added with ⟨index, -, -, ⟨-, rfl⟩ | ⟨location, -, -, takes⟩⟩
  · rfl
  · exact takes.forceDefaults

theorem paddingTo_add_self (alignment written : Nat) :
    paddingTo alignment (written + alignment) = paddingTo alignment written := by
  rw [paddingTo, Nat.add_mod_right, paddingTo]

theorem storeScalar_done {type : ScalarType} {value : type.Value} {index : Nat}
    (small : after.storage.size ≤ maxBufferSize) (opened : before.openObject = .table start fields)
    (ran : (addScalar type value >>= fun _ => recordField index) before = .done () after) :
    ∃ location, StandsAt after.storage.written location.toNat (type.encode value) ∧
      Takes before after ⟨type.width, type.width⟩ start fields index location := by
  rcases done_bind.mp ran with ⟨_, middle, added, recorded⟩
  obtain ⟨-, pushed⟩ := addScalar_done added
  have reached : middle.storage.size =
      (⟨type.width, type.width⟩ : Inline).reach before.storage.size := by
    rw [pushed.size, List.length_append, ScalarType.length_encode, length_zeros, Inline.reach,
      paddingTo_add_self, Nat.add_assoc]
  obtain ⟨location, takes, same⟩ :=
    recordField_done small opened pushed type.width_pos reached recorded
  refine ⟨location, ?_, takes⟩
  have stands := (standsAt_head pushed.written).beginning
  rw [takes.place, same]
  exact stands

theorem storeReference_done {kind : Kind} {target : Offset kind} {index : Nat}
    (small : after.storage.size ≤ maxBufferSize) (opened : before.openObject = .table start fields)
    (ran : (addReference target >>= fun _ => recordField index) before = .done () after) :
    ∃ location, RefersTo after.storage.written location.toNat target.value.toNat ∧
      Takes before after ⟨referenceWidth, referenceWidth⟩ start fields index location := by
  rcases done_bind.mp ran with ⟨_, middle, added, recorded⟩
  obtain ⟨padded, -, padding, -, reference⟩ := addReference_done added
  have reached : middle.storage.size =
      (⟨referenceWidth, referenceWidth⟩ : Inline).reach before.storage.size := by
    rw [reference.size, ScalarType.length_encode, padding.size, length_zeros, Inline.reach,
      paddingTo_add_self]
    rfl
  obtain ⟨location, takes, same⟩ :=
    recordField_done small opened (padding.trans reference) (by decide) reached recorded
  refine ⟨location, ?_, takes⟩
  rw [takes.place, same]
  exact refersTo_of_addReference (same ▸ small) added

theorem putMembers_done {members : List Member}
    (ran : (members.reverse.forM Member.put) before = .done () after) :
    Pushed before after (members.flatMap Member.bytes) := by
  induction members generalizing after with
  | nil =>
      cases ran
      exact Pushed.refl before
  | cons member members ih =>
      obtain ⟨middle, early, put⟩ := forM_reverse_cons_done.mp ran
      have pushed : Pushed middle after member.bytes := by
        cases member with
        | scalar type value => exact (put_done put).1
        | padding count => exact (pad_done put).1
      exact (ih early).trans pushed

theorem length_members (members : List Member) :
    (members.flatMap Member.bytes).length = Member.widthOf members := by
  rw [List.length_flatMap, Member.widthOf]
  exact congrArg List.sum (List.map_congr_left fun member _ => member.length_bytes)

theorem writeStruct_done {alignment : Nat} {members : List Member}
    {struct : Offset (.struct (Member.widthOf members))}
    (ran : writeStruct alignment members before = .done struct after) :
    Pushed before after (members.flatMap Member.bytes ++
        zeros (paddingTo alignment (before.storage.size + Member.widthOf members))) ∧
      struct.value = after.head := by
  rcases done_bind.mp ran with ⟨_, middle, prepared, ran⟩
  rcases done_bind.mp ran with ⟨_, last, put, ran⟩
  cases ran
  exact ⟨(prepare_done prepared).2.trans (putMembers_done put), rfl⟩

theorem openField_of_open {index : Nat} (opened : before.openObject = .table start fields)
    (ran : openField slot before = .done index after) :
    after = before ∧ indexOfSlot slot = some index ∧ index < fields.length := by
  obtain ⟨same, otherStart, otherFields, isOpen, place, inside⟩ := openField_done ran
  rw [opened] at isOpen
  cases isOpen
  exact ⟨same, place, inside⟩

section Added

variable {addition : Addition} {index : Nat}

theorem Added.of_omitted (place : indexOfSlot addition.slot = some index)
    (inside : index < fields.length)
    (omitted : addition.field.stored before.forceDefaults = false) :
    Added addition before before start fields :=
  ⟨index, place, inside, .inl ⟨omitted, rfl⟩⟩

theorem Added.of_kept {location : UInt32} (place : indexOfSlot addition.slot = some index)
    (inside : index < fields.length) (kept : addition.field.stored before.forceDefaults = true)
    (stands : addition.StandsInline after.storage.written location)
    (takes : Takes before after addition.field.inline start fields index location) :
    Added addition before after start fields :=
  ⟨index, place, inside, .inr ⟨location, kept, stands, takes⟩⟩

theorem added_of_storeReference {kind : Kind}
    (kept : ∀ forced, addition.field.stored forced = true)
    (lies : addition.field.inline = ⟨referenceWidth, referenceWidth⟩)
    (inline : ∀ bytes location, RefersTo bytes location.toNat addition.source.toNat →
      addition.StandsInline bytes location)
    (small : after.storage.size ≤ maxBufferSize) (opened : before.openObject = .table start fields)
    (ran : storeReference addition.slot (⟨addition.source⟩ : Offset kind) before =
      .done () after) : Added addition before after start fields := by
  rcases done_bind.mp ran with ⟨index, same, found, rest⟩
  obtain ⟨rfl, place, inside⟩ := openField_of_open opened found
  obtain ⟨location, refers, takes⟩ := storeReference_done small opened rest
  exact .of_kept place inside (kept _) (inline _ _ refers) (lies ▸ takes)

theorem stored_scalar (forced : Bool) (type : ScalarType) (value default : type.Value) :
    (Field.scalar type value default).stored forced =
      !(type.sameEncoding value default && !forced) := by
  rw [Field.stored, Bool.not_and, Bool.not_not, Bool.or_comm]

theorem added_of_storeScalar {type : ScalarType} {value default : type.Value} {source : UInt32}
    (small : after.storage.size ≤ maxBufferSize) (opened : before.openObject = .table start fields)
    (ran : storeScalar slot type value default before = .done () after) :
    Added ⟨slot, .scalar type value default, source⟩ before after start fields := by
  rcases done_bind.mp ran with ⟨index, same, found, rest⟩
  obtain ⟨rfl, place, inside⟩ := openField_of_open opened found
  rw [state_bind] at rest
  split at rest
  case isTrue omitted =>
    cases rest
    refine .of_omitted place inside ?_
    rw [stored_scalar, omitted]
    rfl
  case isFalse kept =>
    obtain ⟨location, stands, takes⟩ := storeScalar_done small opened rest
    refine .of_kept place inside ?_ stands takes
    rw [stored_scalar, Bool.not_eq_true', ← Bool.not_eq_true]
    exact kept

theorem added_of_storeOptional {type : ScalarType} {value : Option type.Value} {source : UInt32}
    (small : after.storage.size ≤ maxBufferSize) (opened : before.openObject = .table start fields)
    (ran : storeOptional slot type value before = .done () after) :
    Added ⟨slot, .optional type value, source⟩ before after start fields := by
  rcases done_bind.mp ran with ⟨index, same, found, rest⟩
  obtain ⟨rfl, place, inside⟩ := openField_of_open opened found
  cases value with
  | none =>
      cases rest
      exact .of_omitted place inside rfl
  | some value =>
      obtain ⟨location, stands, takes⟩ := storeScalar_done small opened rest
      exact .of_kept place inside rfl stands takes

theorem added_of_storeStruct {alignment : Nat} {members : List Member}
    {sized : Member.widthOf members ≠ 0} {source : UInt32}
    (small : after.storage.size ≤ maxBufferSize) (opened : before.openObject = .table start fields)
    (ran : (writeStruct alignment members >>= storeStruct slot) before = .done () after) :
    Added ⟨slot, .struct alignment members sized, source⟩ before after start fields := by
  rcases done_bind.mp ran with ⟨struct, middle, wrote, rest⟩
  obtain ⟨pushed, headed⟩ := writeStruct_done wrote
  rcases done_bind.mp rest with ⟨index, same, found, recorded⟩
  obtain ⟨rfl, place, inside⟩ := openField_of_open (pushed.openObject.trans opened) found
  rw [head_bind, if_neg (fun apart => apart headed)] at recorded
  have reached : same.storage.size =
      (⟨alignment, Member.widthOf members⟩ : Inline).reach before.storage.size := by
    rw [pushed.size, List.length_append, length_members, length_zeros, Inline.reach, Nat.add_assoc]
  obtain ⟨location, takes, unchanged⟩ :=
    recordField_done small opened pushed (Nat.pos_of_ne_zero sized) reached recorded
  refine .of_kept place inside rfl ?_ takes
  have stands := (standsAt_head pushed.written).beginning
  change StandsAt _ _ _
  rw [takes.place, unchanged]
  exact stands

end Added

theorem Addition.store_done {addition : Addition} (small : after.storage.size ≤ maxBufferSize)
    (opened : before.openObject = .table start fields)
    (ran : addition.store before = .done () after) :
    Added addition before after start fields := by
  rcases addition with ⟨slot, field, source⟩
  cases field with
  | scalar type value default => exact added_of_storeScalar small opened ran
  | optional type value => exact added_of_storeOptional small opened ran
  | struct alignment members sized => exact added_of_storeStruct small opened ran
  | string text =>
      exact added_of_storeReference (fun _ => rfl) rfl (fun _ _ refers => refers) small opened ran
  | scalars type items =>
      exact added_of_storeReference (fun _ => rfl) rfl (fun _ _ refers => refers) small opened ran
  | strings items =>
      exact added_of_storeReference (fun _ => rfl) rfl (fun _ _ refers => refers) small opened ran
  | table document =>
      exact added_of_storeReference (fun _ => rfl) rfl (fun _ _ refers => refers) small opened ran
  | tables documents =>
      exact added_of_storeReference (fun _ => rfl) rfl (fun _ _ refers => refers) small opened ran

theorem moves_memberPut (member : Member) (builder : Builder) :
    Moves Pushes member.put builder := by
  cases member with
  | scalar type value => exact moves_put _ builder
  | padding count => exact moves_pad count builder

theorem moves_writeStruct (alignment : Nat) (members : List Member) (builder : Builder) :
    Moves Pushes (writeStruct alignment members) builder := by
  apply Moves.bind .trans (moves_prepare _ _ builder)
  intro _ middle _
  apply Moves.bind .trans (Moves.forM Pushes.refl .trans moves_memberPut _ middle)
  intro _ last _
  exact Moves.of_pure (Pushes.refl last) _

theorem Addition.changes_store {closing : Prop} (addition : Addition) (builder : Builder) :
    Moves (ChangesBy closing) addition.store builder := by
  rcases addition with ⟨slot, field, source⟩
  cases field with
  | scalar type value default =>
      exact changes_allow_fields.of_storeScalar slot type value default builder
  | optional type value => exact changes_allow_fields.of_storeOptional slot type value builder
  | struct alignment members sized =>
      refine Moves.bind .trans (changes_of_pushes (moves_writeStruct alignment members builder)) ?_
      exact fun struct middle _ => changes_allow_fields.of_storeStruct slot struct middle
  | string text => exact changes_allow_fields.of_storeReference slot _ builder
  | scalars type items => exact changes_allow_fields.of_storeReference slot _ builder
  | strings items => exact changes_allow_fields.of_storeReference slot _ builder
  | table document => exact changes_allow_fields.of_storeReference slot _ builder
  | tables documents => exact changes_allow_fields.of_storeReference slot _ builder

end Storing

/-- The fields of an open table hold what was added so far, each in its place, and nothing else. -/
structure Filled (forced : Bool) (bytes : Bytes) (fields : List UInt32)
    (additions : List Addition) : Prop where
  placed : ∀ addition ∈ additions, ∃ index, indexOfSlot addition.slot = some index ∧
    addition.Placed forced bytes (fields.getD index 0)
  blank : ∀ index, (∀ addition ∈ additions, indexOfSlot addition.slot ≠ some index) →
    fields.getD index 0 = 0

theorem indexOfSlot_inj {first second : Slot} {index : Nat} (left : indexOfSlot first = some index)
    (right : indexOfSlot second = some index) : first = second := by
  apply UInt16.toNat_inj.mp
  rw [toNat_of_indexOfSlot left, toNat_of_indexOfSlot right]

namespace Filled

variable {forced : Bool} {bytes whole : Bytes} {fields : List UInt32} {additions : List Addition}

theorem start (count : Nat) : Filled forced bytes (List.replicate count 0) [] where
  placed _ member := absurd member List.not_mem_nil
  blank index _ := by
    rw [List.getD_eq_getElem?_getD, List.getElem?_replicate]
    split <;> rfl

theorem of_suffix (suffix : bytes <:+ whole) (filled : Filled forced bytes fields additions) :
    Filled forced whole fields additions where
  placed addition member := by
    obtain ⟨index, place, placed⟩ := filled.placed addition member
    exact ⟨index, place, placed.of_suffix suffix⟩
  blank := filled.blank

theorem getD_set {index other : Nat} (location : UInt32) (apart : other ≠ index) :
    (fields.set index location).getD other 0 = fields.getD other 0 := by
  rw [List.getD_eq_getElem?_getD, List.getD_eq_getElem?_getD, List.getElem?_set_ne apart.symm]

theorem add {addition : Addition} {index : Nat} {location : UInt32}
    (filled : Filled forced bytes fields additions)
    (place : indexOfSlot addition.slot = some index) (inside : index < fields.length)
    (fresh : ∀ other ∈ additions, other.slot ≠ addition.slot)
    (placed : addition.Placed forced bytes location) :
    Filled forced bytes (fields.set index location) (additions ++ [addition]) where
  placed other member := by
    rcases List.mem_append.mp member with member | member
    · obtain ⟨otherIndex, otherPlace, otherPlaced⟩ := filled.placed other member
      have apart : otherIndex ≠ index := by
        rintro rfl
        exact fresh other member (indexOfSlot_inj otherPlace place)
      refine ⟨otherIndex, otherPlace, ?_⟩
      rw [getD_set location apart]
      exact otherPlaced
    · obtain rfl := List.mem_singleton.mp member
      refine ⟨index, place, ?_⟩
      rw [List.getD_eq_getElem?_getD, List.getElem?_set_self inside]
      exact placed
  blank other missing := by
    have apart : other ≠ index := by
      rintro rfl
      exact missing addition (List.mem_append_right _ (List.mem_singleton.mpr rfl)) place
    rw [getD_set location apart]
    exact filled.blank other fun known member => missing known (List.mem_append_left _ member)

theorem skip {addition : Addition} {index : Nat} (filled : Filled forced bytes fields additions)
    (place : indexOfSlot addition.slot = some index)
    (fresh : ∀ other ∈ additions, other.slot ≠ addition.slot)
    (omitted : addition.field.stored forced = false) :
    Filled forced bytes fields (additions ++ [addition]) where
  placed other member := by
    rcases List.mem_append.mp member with member | member
    · exact filled.placed other member
    · obtain rfl := List.mem_singleton.mp member
      refine ⟨index, place, ?_⟩
      rw [Addition.Placed, omitted]
      apply filled.blank
      intro known member same
      exact fresh known member (indexOfSlot_inj same place)
  blank other missing :=
    filled.blank other fun known member => missing known (List.mem_append_left _ member)

end Filled

section Filling

variable {before after : Builder} {start : UInt32} {fields : List UInt32}

theorem additions_done {forced : Bool} {known additions : List Addition} (sound : before.Sound)
    (opened : before.openObject = .table start fields) (same : before.forceDefaults = forced)
    (filled : Filled forced before.storage.written fields known)
    (distinct : ((known ++ additions).map Addition.slot).Nodup)
    (ran : (additions.forM Addition.store) before = .done () after) :
    ∃ last, after.openObject = .table start last ∧ after.forceDefaults = forced ∧
      Filled forced after.storage.written last (known ++ additions) ∧ Changes before after := by
  induction additions generalizing before fields known with
  | nil =>
      cases ran
      rw [List.append_nil]
      exact ⟨fields, opened, same, filled, .refl⟩
  | cons addition additions ih =>
      rw [List.forM_eq_forM, List.forM_cons] at ran
      rcases done_bind.mp ran with ⟨_, middle, stored, rest⟩
      have changes : Changes before middle := (addition.changes_store before).of_done stored
      have soundMiddle := Builder.sound_of_changes sound changes
      have added := addition.store_done soundMiddle.ordered.small opened stored
      have unchanged := added.forceDefaults.trans same
      rcases added with ⟨index, place, inside, placed⟩
      rw [same] at placed
      have kept := filled.of_suffix (Builder.suffix_of_changes changes)
      have fresh : ∀ other ∈ known, other.slot ≠ addition.slot := by
        intro other member equal
        rw [List.map_append, List.nodup_append] at distinct
        exact distinct.2.2 other.slot (List.mem_map_of_mem member) addition.slot
          (List.mem_map_of_mem List.mem_cons_self) equal
      have whole : known ++ addition :: additions = (known ++ [addition]) ++ additions := by
        rw [List.append_assoc, List.singleton_append]
      rw [whole] at distinct ⊢
      rcases placed with ⟨omitted, rfl⟩ | ⟨location, stored, stands, takes⟩
      · obtain ⟨last, isOpen, lastForced, lastFilled, later⟩ := ih soundMiddle opened unchanged
          (kept.skip place fresh omitted) distinct rest
        exact ⟨last, isOpen, lastForced, lastFilled, changes.trans later⟩
      · have atPlace : addition.Placed forced middle.storage.written location := by
          rw [Addition.Placed, if_pos stored]
          exact ⟨takes.present, stands⟩
        obtain ⟨last, isOpen, lastForced, lastFilled, later⟩ := ih soundMiddle takes.opened
          unchanged (kept.add place inside fresh atPlace) distinct rest
        exact ⟨last, isOpen, lastForced, lastFilled, changes.trans later⟩

end Filling

end WireTables
