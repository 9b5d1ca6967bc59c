import WireTables.Proofs.Builder.Change
import WireTables.Proofs.Bytes.Standing
import WireTables.Proofs.View.Relocation

namespace WireTables

/-- The reference at one distance from the end leads to what stands at another. -/
structure RefersTo (bytes : Bytes) (location target : Nat) : Prop where
  inside : location ≤ bytes.length
  behind : target ≤ location
  follow : followReference bytes (bytes.length - location) = .ok (bytes.length - target)

theorem RefersTo.append_front {bytes : Bytes} {location target : Nat} (front : Bytes)
    (refers : RefersTo bytes location target) : RefersTo (front ++ bytes) location target where
  inside := by
    rw [List.length_append]
    exact Nat.le_add_left_of_le refers.inside
  behind := refers.behind
  follow := by
    have targetInside := Nat.le_trans refers.behind refers.inside
    rw [length_append_sub front refers.inside, length_append_sub front targetInside,
      followReference_append_front, refers.follow]
    rfl

theorem Pushed.stands {before after : Builder} {block : Bytes} (pushed : Pushed before after block) :
    StandsAt after.storage.written after.storage.size block := by
  rw [pushed.size, before.storage.size_eq, pushed.written]
  exact StandsAt.of_front _ _

namespace Build

variable {before after : Builder}

theorem refersTo_of_addReference {kind : Kind} {target : Offset kind}
    (small : after.storage.size ≤ maxBufferSize)
    (ran : addReference target before = .done () after) :
    RefersTo after.storage.written after.storage.size target.value.toNat := by
  obtain ⟨middle, -, padded, reached, pushed⟩ := addReference_done ran
  have size := pushed.size
  rw [ScalarType.length_encode] at size
  have wide : ScalarType.uint32.width = 4 := rfl
  have limit : maxBufferSize + 4 < 2 ^ 32 := by decide
  have bound : middle.storage.size ≤ maxBufferSize := by omega
  have headed : middle.head.toNat = middle.storage.size := toNat_ofNat_of_size bound
  rw [UInt32.le_iff_toNat_le, headed] at reached
  have distance : (middle.head - target.value + 4).toNat =
      middle.storage.size - target.value.toNat + 4 := by
    have four : (4 : UInt32).toNat = 4 := rfl
    rw [UInt32.toNat_add, UInt32.toNat_sub_of_le _ _ (UInt32.le_iff_toNat_le.mpr (by omega)), headed,
      four]
    exact Nat.mod_eq_of_lt (by omega)
  have loaded := pushed.stands.load_eq
  have whole : after.storage.written.length = after.storage.size := after.storage.size_eq.symm
  refine ⟨Nat.le_of_eq whole.symm, by omega, ?_⟩
  refine read_bind.mpr ⟨_, loaded, congrArg Except.ok ?_⟩
  rw [distance]
  omega

theorem addReference_of_aligned {kind : Kind} {target : Offset kind}
    (fits : before.capacity ≤ maxBufferSize) (aligned : before.storage.size % referenceWidth = 0)
    (ran : addReference target before = .done () after) :
    ∃ reference : UInt32, Pushed before after (ScalarType.uint32.encode reference) ∧
      reference.toNat + target.value.toNat = after.storage.size ∧
      RefersTo after.storage.written after.storage.size target.value.toNat := by
  obtain ⟨padded, -, padding, -, stored⟩ := addReference_done ran
  rw [paddingTo_eq_zero aligned, zeros, List.replicate_zero] at padding
  have pushed := padding.trans stored
  rw [List.append_nil] at pushed
  have refers := refersTo_of_addReference (Builder.size_le (pushed.fits fits)) ran
  refine ⟨_, pushed, ?_, refers⟩
  rcases read_bind.mp refers.follow with ⟨reference, loaded, reached⟩
  rw [pushed.stands.load_eq] at loaded
  cases loaded
  have place := Except.ok.inj reached
  have behind := refers.behind
  rw [← after.storage.size_eq] at place
  omega

theorem addReferences_done {kind : Kind} {items : List (Offset kind)}
    (fits : before.capacity ≤ maxBufferSize) (aligned : before.storage.size % referenceWidth = 0)
    (ran : (items.reverse.forM addReference) before = .done () after) :
    (∃ front, Pushed before after front ∧ front.length = items.length * referenceWidth) ∧
      ∀ (index : Nat) (item : Offset kind), items[index]? = some item →
        RefersTo after.storage.written (after.storage.size - index * referenceWidth)
          item.value.toNat := by
  induction items generalizing after with
  | nil =>
      cases ran
      refine ⟨⟨[], Pushed.refl before, (Nat.zero_mul _).symm⟩, ?_⟩
      intro index item reached
      cases reached
  | cons item items ih =>
      obtain ⟨middle, early, added⟩ := forM_reverse_cons_done.mp ran
      obtain ⟨⟨front, pushed, length⟩, refers⟩ := ih early
      have stillAligned : middle.storage.size % referenceWidth = 0 := by
        rw [pushed.size, length, Nat.mul_add_mod_self_right]
        exact aligned
      obtain ⟨reference, last, -, first⟩ :=
        addReference_of_aligned (pushed.fits fits) stillAligned added
      have wide : (ScalarType.uint32.encode reference).length = referenceWidth :=
        ScalarType.length_encode ..
      constructor
      · refine ⟨ScalarType.uint32.encode reference ++ front, pushed.trans last, ?_⟩
        rw [List.length_append, wide, length, List.length_cons, Nat.succ_mul, Nat.add_comm]
      · intro index found reached
        cases index with
        | zero =>
            cases reached
            rw [Nat.zero_mul, Nat.sub_zero]
            exact first
        | succ index =>
            have earlier :=
              (refers index found reached).append_front (ScalarType.uint32.encode reference)
            have place : after.storage.size - (index + 1) * referenceWidth =
                middle.storage.size - index * referenceWidth := by
              rw [last.size, wide, Nat.succ_mul, Nat.add_comm (index * referenceWidth),
                Nat.add_sub_add_left]
            rw [last.written, place]
            exact earlier

theorem openVector_steps {elementSize count alignment : Nat}
    (ran : openVector elementSize count alignment before = .done () after) :
    ∃ second third, before.openObject = .nothing ∧
      prepare referenceWidth (elementSize * count) before = .done () second ∧
      prepare alignment (elementSize * count) second = .done () third ∧
      after = { third with openObject := .vector count } := by
  rcases done_bind.mp ran with ⟨_, same, closed, rest⟩
  obtain ⟨rfl, -, nothing⟩ := requireNothingOpen_done closed
  split at rest
  case isTrue => cases rest
  case isFalse =>
    rcases done_bind.mp rest with ⟨_, second, first, rest⟩
    rcases done_bind.mp rest with ⟨_, third, last, rest⟩
    cases rest
    exact ⟨second, third, nothing, first, last, rfl⟩

theorem paddingTo_of_narrow {alignment payload : Nat} (power : alignment.isPowerOfTwo)
    (narrow : alignment ≤ referenceWidth)
    (first : prepare referenceWidth payload before = .done () after) :
    paddingTo alignment (after.storage.size + payload) = 0 := by
  have divides := dvd_of_isPowerOfTwo power ⟨2, rfl⟩ narrow
  have aligned := Nat.dvd_of_mod_eq_zero (prepare_mod first)
  exact paddingTo_eq_zero (Nat.mod_eq_zero_of_dvd (Nat.dvd_trans divides aligned))

theorem openVector_done {elementSize count alignment : Nat}
    (fits : before.capacity ≤ maxBufferSize)
    (ran : openVector elementSize count alignment before = .done () after) :
    after.openObject = .vector count ∧ after.capacity ≤ maxBufferSize ∧
      after.forceDefaults = before.forceDefaults ∧ before.storage.size ≤ after.storage.size ∧
      (after.storage.size + elementSize * count) % alignment = 0 := by
  obtain ⟨second, third, -, first, last, rfl⟩ := openVector_steps ran
  have pushed := (prepare_done first).2.trans (prepare_done last).2
  have grown : before.storage.size ≤ third.storage.size := pushed.size ▸ Nat.le_add_left _ _
  have aligned := prepare_mod last
  exact ⟨rfl, pushed.fits fits, pushed.forceDefaults, grown, aligned⟩

theorem openVector_references {count : Nat} (fits : before.capacity ≤ maxBufferSize)
    (ran : openVector referenceWidth count referenceWidth before = .done () after) :
    after.storage.size % referenceWidth = 0 := by
  obtain ⟨-, -, -, -, multiple⟩ := openVector_done fits ran
  rwa [Nat.add_mul_mod_self_left] at multiple

theorem length_laid (filling blank : Bytes) :
    (filling.take blank.length ++ blank.drop filling.length).length = blank.length := by
  rw [List.length_append, List.length_take, List.length_drop]
  omega

theorem openFilledVector_steps {elementSize count alignment : Nat} {filling blank : Bytes}
    (ran : openFilledVector elementSize count alignment filling before = .done blank after) :
    ∃ opened laid, openVector elementSize count alignment before = .done () opened ∧
      Pushed opened after laid ∧ laid.length = elementSize * count := by
  rcases done_bind.mp ran with ⟨_, opened, opens, rest⟩
  rcases done_bind.mp rest with ⟨_, full, fills, rest⟩
  cases rest
  exact ⟨opened, _, opens, (put_done fills).1, (length_laid _ _).trans (length_zeros _)⟩

theorem closeVector_done {element : Kind} {offset : Offset (.vector element)} {count : Nat}
    (opened : before.openObject = .vector count)
    (ran : closeVector before = .done offset after) :
    ∃ middle, Pushed before middle (ScalarType.uint32.encode (UInt32.ofNat count)) ∧
      after = { middle with openObject := .nothing } ∧ offset.value = middle.head := by
  rw [closeVector_apply, opened] at ran
  dsimp only at ran
  split at ran
  case isFalse => cases ran
  case isTrue =>
    rcases done_bind.mp ran with ⟨_, middle, counted, ran⟩
    cases ran
    exact ⟨middle, (put_done counted).1, rfl, rfl⟩

/-- An object was written that starts with these bytes, and nothing in front of it. -/
structure Wrote (before after : Builder) (offset : UInt32) (block : Bytes) : Prop where
  place : offset.toNat = after.storage.size
  written : ∃ behind, after.storage.written = block ++ behind
  wide : before.storage.size + block.length ≤ after.storage.size
  small : after.storage.size ≤ maxBufferSize
  forceDefaults : after.forceDefaults = before.forceDefaults

theorem Wrote.length_le {offset : UInt32} {block : Bytes} (wrote : Wrote before after offset block) :
    after.storage.written.length ≤ maxBufferSize :=
  after.storage.size_eq ▸ wrote.small

theorem Wrote.stands {offset : UInt32} {block : Bytes} (wrote : Wrote before after offset block) :
    StandsAt after.storage.written offset.toNat block := by
  rcases wrote.written with ⟨behind, written⟩
  rw [wrote.place, after.storage.size_eq, written, List.length_append]
  exact StandsAt.of_front block behind

theorem wrote_of_vector {element : Kind} {offset : Offset (.vector element)}
    {elementSize count alignment : Nat} {opened middle : Builder} {payload : Bytes}
    (fits : before.capacity ≤ maxBufferSize)
    (openRan : openVector elementSize count alignment before = .done () opened)
    (pushed : Pushed opened middle payload) (closeRan : closeVector middle = .done offset after) :
    Wrote before after offset.value
      (ScalarType.uint32.encode (UInt32.ofNat count) ++ payload) := by
  obtain ⟨isOpen, openFits, unchanged, grown, -⟩ := openVector_done fits openRan
  obtain ⟨last, counted, rfl, place⟩ := closeVector_done (pushed.openObject.trans isOpen) closeRan
  have whole := pushed.trans counted
  have lastFits := whole.fits openFits
  exact {
    place := place ▸ Builder.toNat_head lastFits
    written := ⟨opened.storage.written, whole.written⟩
    wide := by
      have size : last.storage.size = _ := whole.size
      change before.storage.size + _ ≤ last.storage.size
      omega
    small := Builder.size_le lastFits
    forceDefaults := whole.forceDefaults.trans unchanged }

theorem writeScalars_done {type : ScalarType} {items : List type.Value}
    {offset : Offset (.vector (.scalar type))} (fits : before.capacity ≤ maxBufferSize)
    (ran : writeScalars type items before = .done offset after) :
    Wrote before after offset.value (ScalarType.uint32.encode (UInt32.ofNat items.length) ++
      items.flatMap type.encode) := by
  rcases done_bind.mp ran with ⟨_, opened, openRan, ran⟩
  rcases done_bind.mp ran with ⟨_, filled, fillRan, ran⟩
  exact wrote_of_vector fits openRan (put_done fillRan).1 ran

theorem writeByteString_done {bytes : Bytes} {offset : Offset .string}
    (fits : before.capacity ≤ maxBufferSize)
    (ran : writeByteString bytes before = .done offset after) :
    Wrote before after offset.value
      (ScalarType.uint32.encode (UInt32.ofNat bytes.length) ++ bytes) := by
  rcases done_bind.mp ran with ⟨_, same, closed, rest⟩
  obtain ⟨rfl, -, -⟩ := requireNothingOpen_done closed
  rcases done_bind.mp rest with ⟨_, ended, endRan, rest⟩
  rcases done_bind.mp rest with ⟨vector, last, wrote, rest⟩
  cases rest
  have endPushed := (addScalar_done endRan).2
  rw [writeBytes_eq_writeScalars] at wrote
  have headed := writeScalars_done (endPushed.fits fits) wrote
  rw [flatMap_encode_uint8] at headed
  exact { headed with
    wide := by
      have size := endPushed.size
      have wide := headed.wide
      omega
    forceDefaults := headed.forceDefaults.trans endPushed.forceDefaults }

theorem writeReferences_done {kind : Kind} {items : List (Offset kind)}
    {offset : Offset (.vector kind)} (fits : before.capacity ≤ maxBufferSize)
    (ran : writeReferences items before = .done offset after) :
    ∃ payload : Bytes, payload.length = items.length * referenceWidth ∧
      Wrote before after offset.value
        (ScalarType.uint32.encode (UInt32.ofNat items.length) ++ payload) ∧
      ∀ (index : Nat) (item : Offset kind), items[index]? = some item →
        RefersTo after.storage.written
          (offset.value.toNat - (referenceWidth + index * referenceWidth)) item.value.toNat := by
  rcases done_bind.mp ran with ⟨_, opened, openRan, ran⟩
  rcases done_bind.mp ran with ⟨_, filled, fillRan, ran⟩
  obtain ⟨isOpen, openFits, -, -, -⟩ := openVector_done fits openRan
  obtain ⟨⟨payload, pushed, length⟩, refers⟩ :=
    addReferences_done openFits (openVector_references fits openRan) fillRan
  have headed := wrote_of_vector fits openRan pushed ran
  refine ⟨payload, length, headed, fun index item reached => ?_⟩
  obtain ⟨last, counted, same, place⟩ := closeVector_done (pushed.openObject.trans isOpen) ran
  have written : after.storage.written =
      ScalarType.uint32.encode (UInt32.ofNat items.length) ++ filled.storage.written := by
    rw [same]
    exact counted.written
  have moved := (refers index item reached).append_front
    (ScalarType.uint32.encode (UInt32.ofNat items.length))
  have size : offset.value.toNat = referenceWidth + filled.storage.size := by
    rw [headed.place, after.storage.size_eq, written, List.length_append, ScalarType.length_encode,
      filled.storage.size_eq]
    rfl
  rw [← written] at moved
  rw [size, Nat.add_sub_add_left]
  exact moved

theorem length_mark {identifier : Option String} {given : String}
    (valid : (identifier.map encodeText).filter (!validIdentifier ·) = none)
    (marked : identifier = some given) : (encodeText given).length = identifierLength := by
  subst marked
  have found := Option.filter_eq_none_iff.mp valid (encodeText given) rfl
  simp only [validIdentifier, Bool.not_eq_true', Bool.not_eq_false, Bool.and_eq_true,
    beq_iff_eq] at found
  exact found.1

theorem length_mark_le {identifier : Option String}
    (valid : (identifier.map encodeText).filter (!validIdentifier ·) = none) :
    ((identifier.map encodeText).getD []).length ≤ identifierLength := by
  cases identifier with
  | none => exact Nat.zero_le _
  | some given => exact Nat.le_of_eq (length_mark valid rfl)

theorem dvd_length_mark {identifier : Option String}
    (valid : (identifier.map encodeText).filter (!validIdentifier ·) = none) :
    referenceWidth ∣ ((identifier.map encodeText).getD []).length := by
  cases identifier with
  | none => exact Nat.dvd_zero _
  | some given => exact length_mark valid rfl ▸ Nat.dvd_refl _

theorem addTrailer_steps {root : Offset .table} {mark : Bytes} {sized : Bool}
    (ran : addTrailer root mark sized before = .done () after) :
    ∃ marked last : Builder, addReference root marked = .done () last ∧
      before.storage.written <:+ last.storage.written ∧
      before.storage.size + referenceWidth ≤ last.storage.size ∧
      after.storage.written =
        if sized then ScalarType.uint32.encode (UInt32.ofNat last.storage.size) ++
          last.storage.written else last.storage.written := by
  rw [addTrailer, state_bind] at ran
  rcases done_bind.mp ran with ⟨_, second, prepared, ran⟩
  rcases done_bind.mp ran with ⟨_, third, marked, ran⟩
  rcases done_bind.mp ran with ⟨_, last, referred, ran⟩
  have early := (prepare_done prepared).2.trans (put_done marked).1
  obtain ⟨middle, -, padded, -, reference⟩ := addReference_done referred
  have pushed := (early.trans padded).trans reference
  have wide := pushed.size
  rw [List.length_append, ScalarType.length_encode] at wide
  refine ⟨third, last, referred, ⟨_, pushed.written.symm⟩, ?_, ?_⟩
  · change _ + 4 ≤ _
    change _ = 4 + _ + _ at wide
    omega
  · cases sized with
    | false =>
        cases ran
        rfl
    | true =>
        rw [if_pos rfl, head_bind] at ran
        exact (put_done ran).1.written

theorem finish_steps {root : Offset .table} {identifier : Option String} {sized : Bool}
    (ran : finish root identifier sized before = .done () after) :
    ∃ trailed : Builder,
      addTrailer root ((identifier.map encodeText).getD []) sized before = .done () trailed ∧
      after = { trailed with finished := true } := by
  rw [finish_apply] at ran
  split at ran
  case h_1 => cases ran
  case h_2 =>
    rcases done_bind.mp ran with ⟨_, same, required, rest⟩
    obtain ⟨rfl, -, -⟩ := requireNothingOpen_done required
    rcases done_bind.mp rest with ⟨_, trailed, ended, rest⟩
    cases rest
    exact ⟨trailed, ended, rfl⟩

theorem finish_done {root : Offset .table} {identifier : Option String}
    {sized : Bool} (fits : before.capacity ≤ maxBufferSize)
    (ran : finish root identifier sized before = .done () after) :
    ∃ bytes : Bytes, bytes.length ≤ maxBufferSize ∧ before.storage.written <:+ bytes ∧
      before.storage.size + referenceWidth ≤ bytes.length ∧
      RefersTo bytes bytes.length root.value.toNat ∧
      after.finishedBytes =
        .ok (if sized then ScalarType.uint32.encode (UInt32.ofNat bytes.length) ++ bytes
          else bytes) := by
  obtain ⟨trailed, ended, rfl⟩ := finish_steps ran
  obtain ⟨marked, last, referred, suffix, room, written⟩ := addTrailer_steps ended
  have changes : Changes before trailed :=
    (changes_of_pushes (moves_addTrailer root _ sized before)).of_done ended
  have trailedSmall := Builder.size_le (Builder.fits_of_changes fits changes)
  have small : last.storage.size ≤ maxBufferSize := by
    refine Nat.le_trans ?_ trailedSmall
    rw [last.storage.size_eq, trailed.storage.size_eq, written]
    cases sized with
    | false => exact Nat.le_refl _
    | true => exact (List.suffix_append _ _).length_le
  have refers := refersTo_of_addReference small referred
  rw [last.storage.size_eq] at refers small room written
  exact ⟨last.storage.written, small, suffix, room, refers, congrArg Except.ok written⟩

end Build

theorem Builder.written_of_finishedBytes {builder : Builder} {bytes : Bytes}
    (shown : builder.finishedBytes = .ok bytes) : builder.storage.written = bytes := by
  simp only [finishedBytes] at shown
  split at shown
  case isTrue => exact Except.ok.inj shown
  case isFalse => cases shown

end WireTables
