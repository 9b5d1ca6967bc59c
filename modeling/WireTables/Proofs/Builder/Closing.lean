import WireTables.Proofs.Builder.Push
import WireTables.Proofs.Builder.VTableBytes
import WireTables.Proofs.Bytes.Overwriting

/-!
What closing a table leaves behind: the distance to a vtable in front of the fields, and that vtable
somewhere in the written bytes. It stands right before the table when it is new; when the builder
had one with the same bytes, the new one was taken back and the distance leads to the old one. The
word of the distance is written last, over a blank, so the bytes in front of the table are known
only once the whole call is over.
-/

namespace WireTables

/-- What holds of a builder as long as what it wrote can be counted in words of the format, however
large its storage was made. -/
structure Builder.Ordered (builder : Builder) : Prop where
  small : builder.storage.size ≤ maxBufferSize
  vtables : ∀ vtable ∈ builder.vtables, vtable.toNat ≤ builder.storage.size
  opened : ∀ start fields, builder.openObject = .table start fields →
    start.toNat ≤ builder.storage.size ∧ ∀ location ∈ fields, location.toNat ≤ builder.storage.size

/-- The table at the head `table` was closed. Its inline bytes end where `before` ended, and
`vtable` tells where its vtable stands. -/
structure Closed (before after : Builder) (start : UInt32) (fields : List UInt32)
    (table vtable : UInt32) : Prop where
  opened : before.openObject = .table start fields
  unfinished : before.finished = false
  place : table.toNat =
    referenceWidth + Build.paddingTo referenceWidth before.storage.size + before.storage.size
  written : ∃ front, after.storage.written =
      front ++ (ScalarType.int32.encode (Build.vtableDistance vtable table) ++
        (zeros (Build.paddingTo referenceWidth before.storage.size) ++ before.storage.written)) ∧
    (front = [] ∧ vtable ∈ before.vtables ∧ after.vtables = before.vtables ∨
      front = vtableBytes table start fields ∧ vtable = after.head ∧
        after.vtables = before.vtables ++ [vtable])
  standing : StandsAt after.storage.written vtable.toNat (vtableBytes table start fields)
  fresh : after.vtables ≠ before.vtables → ∀ cached ∈ before.vtables,
    ¬ StandsAt before.storage.written cached.toNat (vtableBytes table start fields)
  entries : ∀ location ∈ fields, vtableEntry table location ≤ maxEntry
  inlineSize : table.toNat - start.toNat ≤ maxEntry
  vtableSize : vtableWidth fields ≤ maxEntry
  capacity : before.capacity ≤ after.capacity
  fits : before.capacity ≤ maxBufferSize → after.capacity ≤ maxBufferSize
  headed : after.head.toNat = after.storage.size
  alignment : before.alignment ≤ after.alignment
  levels : before.alignment.isPowerOfTwo → after.alignment.isPowerOfTwo
  openObject : after.openObject = .nothing
  strings : after.strings = before.strings
  finished : after.finished = false
  forceDefaults : after.forceDefaults = before.forceDefaults

theorem Closed.suffix {before after : Builder} {start table vtable : UInt32} {fields : List UInt32}
    (closed : Closed before after start fields table vtable) :
    before.storage.written <:+ after.storage.written := by
  rcases closed.written with ⟨front, written, -⟩
  rw [written]
  apply List.suffix_append_of_suffix
  apply List.suffix_append_of_suffix
  exact List.suffix_append _ _

namespace Build

variable {before after : Builder}

theorem addEntry_done {entry : Nat} (even : before.storage.size % 2 = 0)
    (ran : addEntry entry before = .done () after) :
    entry ≤ maxEntry ∧ Pushed before after (shortWord entry) := by
  simp only [addEntry] at ran
  split at ran
  case isTrue => cases ran
  case isFalse small =>
    have pushed := (addScalar_done ran).2
    have unpadded : paddingTo ScalarType.uint16.width before.storage.size = 0 :=
      paddingTo_eq_zero even
    rw [unpadded, zeros, List.replicate_zero, List.append_nil, ← shortWord_eq] at pushed
    exact ⟨Nat.le_of_not_lt small, pushed⟩

theorem moves_addEntry (entry : Nat) (builder : Builder) :
    Moves Pushes (addEntry entry) builder := by
  simp only [addEntry]
  split
  case isTrue => exact .of_refuse (Pushes.refl builder) _
  case isFalse => exact moves_addScalar _ _ builder

theorem addEntries_done (entry : UInt32 → Nat) (locations : List UInt32)
    (even : before.storage.size % 2 = 0)
    (ran : (locations.reverse.forM fun location => addEntry (entry location)) before =
      .done () after) :
    (∀ location ∈ locations, entry location ≤ maxEntry) ∧
      Pushed before after (locations.flatMap fun location => shortWord (entry location)) := by
  induction locations generalizing after with
  | nil =>
      cases ran
      exact ⟨fun _ member => absurd member List.not_mem_nil, Pushed.refl before⟩
  | cons location locations ih =>
      obtain ⟨middle, early, added⟩ := forM_reverse_cons_done.mp ran
      obtain ⟨small, pushed⟩ := ih early
      have stillEven : middle.storage.size % 2 = 0 := by
        rw [pushed.size, length_flatMap_of_width fun _ => length_shortWord _]
        omega
      obtain ⟨fits, front⟩ := addEntry_done stillEven added
      refine ⟨?_, pushed.trans front⟩
      intro other member
      rcases List.mem_cons.mp member with rfl | member
      · exact fits
      · exact small other member

theorem shareVTable_apply (size : Nat) (table : UInt32) (builder : Builder) :
    shareVTable size table builder =
      match builder.vtables.find? fun vtable =>
          (builder.storage.suffix vtable.toNat).take size == builder.storage.written.take size with
      | some vtable => .done () { builder with
          storage := (builder.storage.retract (builder.storage.size - table.toNat)).patch
            table.toNat (ScalarType.int32.encode (vtableDistance vtable table)) }
      | none => .done () { builder with
          vtables := builder.vtables ++ [builder.head]
          storage := builder.storage.patch table.toNat
            (ScalarType.int32.encode (vtableDistance builder.head table)) } := by
  unfold shareVTable
  rw [state_bind]
  dsimp only
  split <;> rename_i found <;> rw [found] <;> rfl

theorem shareVTable_not_refused {size : Nat} {table : UInt32} {error : Refusal} :
    shareVTable size table before ≠ .refused error after := by
  rw [shareVTable_apply]
  split <;> simp

theorem forM_congr {α : Type} {visit other : α → Build Unit} {items : List α}
    (same : ∀ item ∈ items, visit item = other item) : items.forM visit = items.forM other := by
  induction items with
  | nil => rfl
  | cons item items ih =>
      obtain ⟨first, rest⟩ := List.forall_mem_cons.mp same
      simp only [List.forM_eq_forM, List.forM_cons] at ih ⊢
      rw [first, ih rest]

def addVTable (table start : UInt32) (fields : List UInt32) : Build Unit := do
  (storedFields fields).reverse.forM fun location => addEntry (fieldEntry table location)
  addEntry (table - start).toNat
  addEntry (vtableWidth fields)

theorem closeTable_apply (builder : Builder) :
    closeTable builder =
      match builder.openObject with
      | .table start fields => (do
          addScalar .int32 0
          let table ← head
          addVTable table start fields
          shareVTable (vtableWidth fields) table
          update fun builder => { builder with openObject := .nothing }
          pure ⟨table⟩ : Build (Offset .table)) builder
      | _ => .refused .nothingOpen builder := by
  simp only [closeTable, addVTable, width_storedFields]
  rw [state_bind]
  cases builder.openObject with
  | table start fields => simp only [bind_assoc]
  | nothing => rfl
  | vector count => rfl

theorem moves_addVTable (table start : UInt32) (fields : List UInt32) (builder : Builder) :
    Moves Pushes (addVTable table start fields) builder := by
  refine Moves.bind Pushes.trans ?_ fun _ middle _ => ?_
  · exact Moves.forM Pushes.refl Pushes.trans (fun _ => moves_addEntry _) _ builder
  · exact Moves.bind Pushes.trans (moves_addEntry _ middle) fun _ last _ => moves_addEntry _ last

theorem addVTable_eq {start table : UInt32} {fields : List UInt32}
    (started : start.toNat ≤ table.toNat)
    (stored : ∀ location ∈ fields, location.toNat ≤ table.toNat) :
    addVTable table start fields = (do
      (fields.take (usedFields fields)).reverse.forM fun location =>
        addEntry (vtableEntry table location)
      addEntry (table.toNat - start.toNat)
      addEntry (vtableWidth fields)) := by
  have entries : ∀ location ∈ (fields.take (usedFields fields)).reverse,
      addEntry (fieldEntry table location) = addEntry (vtableEntry table location) := by
    intro location member
    rw [fieldEntry_eq (stored location (List.mem_of_mem_take (List.mem_reverse.mp member)))]
  rw [addVTable, storedFields_eq, forM_congr entries,
    UInt32.toNat_sub_of_le _ _ (UInt32.le_iff_toNat_le.mpr started)]

theorem addVTable_done {start table : UInt32} {fields : List UInt32}
    (started : start.toNat ≤ table.toNat)
    (stored : ∀ location ∈ fields, location.toNat ≤ table.toNat)
    (aligned : before.storage.size % referenceWidth = 0)
    (ran : addVTable table start fields before = .done () after) :
    (∀ location ∈ fields, vtableEntry table location ≤ maxEntry) ∧
      table.toNat - start.toNat ≤ maxEntry ∧ vtableWidth fields ≤ maxEntry ∧
      Pushed before after (vtableBytes table start fields) := by
  rw [addVTable_eq started stored] at ran
  have even : before.storage.size % 2 = 0 := by
    simp only [referenceWidth] at aligned
    omega
  rcases done_bind.mp ran with ⟨_, second, entriesRan, ran⟩
  obtain ⟨entries, entriesPushed⟩ := addEntries_done _ _ even entriesRan
  rcases done_bind.mp ran with ⟨_, third, inlineRan, sizeRan⟩
  have secondEven : second.storage.size % 2 = 0 := by
    rw [entriesPushed.size, length_flatMap_of_width fun _ => length_shortWord _]
    omega
  obtain ⟨inlineSize, inlinePushed⟩ := addEntry_done secondEven inlineRan
  have thirdEven : third.storage.size % 2 = 0 := by
    rw [inlinePushed.size, length_shortWord]
    omega
  obtain ⟨vtableSize, sizePushed⟩ := addEntry_done thirdEven sizeRan
  refine ⟨fun location recorded => ?_, inlineSize, vtableSize,
    (entriesPushed.trans inlinePushed).trans sizePushed⟩
  by_cases present : location = 0
  · rw [vtableEntry, if_pos present]
    exact Nat.zero_le _
  · exact entries location (mem_take_usedFields recorded present)

theorem patch_written {storage : Storage} {front old new behind : Bytes} {distance : Nat}
    (written : storage.written = front ++ (old ++ behind))
    (place : distance = old.length + behind.length) (same : new.length = old.length) :
    (storage.patch distance new).written = front ++ (new ++ behind) := by
  have start : storage.size - distance = front.length := by
    rw [storage.size_eq, written, place, List.length_append, List.length_append]
    omega
  change overwrite storage.written (storage.size - distance) new = _
  rw [start, written, overwrite_append same]

theorem patch_size {storage : Storage} {front old new behind : Bytes} {distance : Nat}
    (written : storage.written = front ++ (old ++ behind))
    (place : distance = old.length + behind.length) (same : new.length = old.length) :
    (storage.patch distance new).size = storage.size := by
  calc
    _ = (front ++ (new ++ behind)).length := by
      rw [Storage.size_eq, patch_written written place same]
    _ = (front ++ (old ++ behind)).length := by simp [same]
    _ = storage.size := by rw [storage.size_eq, written]

theorem standsAt_of_found {vtable : UInt32} {candidate front : Bytes} {storage : Storage}
    {behind : Bytes} (written : storage.written = front ++ behind)
    (below : vtable.toNat ≤ behind.length)
    (same : (storage.suffix vtable.toNat).take candidate.length = candidate) :
    StandsAt behind vtable.toNat candidate := by
  have suffix : storage.suffix vtable.toNat = behind.drop (behind.length - vtable.toNat) := by
    rw [Storage.suffix, storage.size_eq, written, List.length_append, List.drop_append]
    rw [List.drop_eq_nil_of_le (by omega), List.nil_append]
    congr 1
    omega
  rw [suffix] at same
  have whole := (List.take_append_drop candidate.length
    (behind.drop (behind.length - vtable.toNat))).symm
  rw [same] at whole
  refine ⟨behind.take (behind.length - vtable.toNat),
    (behind.drop (behind.length - vtable.toNat)).drop candidate.length, ?_, ?_⟩
  · rw [← whole, List.take_append_drop]
  · rw [← List.length_append, ← whole, List.length_drop]
    omega

theorem found_of_standsAt {vtable : UInt32} {candidate front : Bytes} {storage : Storage}
    {behind : Bytes} (written : storage.written = front ++ behind)
    (stands : StandsAt behind vtable.toNat candidate) :
    (storage.suffix vtable.toNat).take candidate.length = candidate := by
  rw [Storage.suffix, storage.size_eq, written]
  exact (slice_eq_ok_iff.mp (stands.append_front front).slice_eq).2.symm

/-- The distance to a vtable was laid over the blank in front of `behind`, and that vtable, which is
`bytes`, stands where the distance leads. -/
structure Linked (before after : Builder) (table vtable : UInt32) (bytes behind : Bytes) : Prop where
  written : ∃ front, after.storage.written =
      front ++ (ScalarType.int32.encode (vtableDistance vtable table) ++ behind) ∧
    (front = [] ∧ vtable ∈ before.vtables ∧ after.vtables = before.vtables ∨
      front = bytes ∧ vtable = after.head ∧ after.vtables = before.vtables ++ [vtable])
  standing : StandsAt after.storage.written vtable.toNat bytes
  fresh : after.vtables ≠ before.vtables →
    ∀ cached ∈ before.vtables, ¬ StandsAt behind cached.toNat bytes
  capacity : after.capacity = before.capacity
  others : after = { before with storage := after.storage, vtables := after.vtables }

section Linking

variable {table : UInt32} {bytes old behind : Bytes}

theorem Linked.size_le {vtable : UInt32} (linked : Linked before after table vtable bytes behind)
    (written : before.storage.written = bytes ++ (ScalarType.int32.encode 0 ++ behind)) :
    after.storage.size ≤ before.storage.size := by
  obtain ⟨front, linkWritten, origin⟩ := linked.written
  have short : front.length ≤ bytes.length := by
    rcases origin with ⟨rfl, -⟩ | ⟨rfl, -⟩
    · exact Nat.zero_le _
    · exact Nat.le_refl _
  rw [after.storage.size_eq, linkWritten, before.storage.size_eq, written]
  simp only [List.length_append, ScalarType.length_encode]
  omega

theorem length_link (vtable table : UInt32) (blank : old.length = referenceWidth) :
    (ScalarType.int32.encode (vtableDistance vtable table)).length = old.length := by
  rw [ScalarType.length_encode, blank]
  rfl

theorem linked_of_new (written : before.storage.written = bytes ++ (old ++ behind))
    (blank : old.length = referenceWidth) (place : table.toNat = old.length + behind.length)
    (headed : before.head.toNat = before.storage.size)
    (fresh : ∀ cached ∈ before.vtables, ¬ StandsAt behind cached.toNat bytes) :
    Linked before { before with
      vtables := before.vtables ++ [before.head]
      storage := before.storage.patch table.toNat
        (ScalarType.int32.encode (vtableDistance before.head table)) }
      table before.head bytes behind := by
  have patched := patch_written written place (length_link before.head table blank)
  have size := patch_size written place (length_link before.head table blank)
  have stands : StandsAt
      (bytes ++ (ScalarType.int32.encode (vtableDistance before.head table) ++ behind))
      before.head.toNat bytes := by
    rw [headed, before.storage.size_eq, written]
    have front := StandsAt.of_front bytes
      (ScalarType.int32.encode (vtableDistance before.head table) ++ behind)
    simpa only [List.length_append, length_link _ _ blank] using front
  exact {
    written := ⟨bytes, patched, .inr ⟨rfl, congrArg UInt32.ofNat size.symm, rfl⟩⟩
    standing := patched ▸ stands
    fresh := fun _ => fresh
    capacity := congrArg (before.storage.room + ·) size
    others := rfl }

theorem linked_of_found {vtable : UInt32}
    (written : before.storage.written = bytes ++ (old ++ behind))
    (blank : old.length = referenceWidth) (place : table.toNat = old.length + behind.length)
    (cached : vtable ∈ before.vtables) (below : vtable.toNat ≤ behind.length)
    (same : (before.storage.suffix vtable.toNat).take bytes.length = bytes) :
    Linked before { before with
      storage := (before.storage.retract (before.storage.size - table.toNat)).patch table.toNat
        (ScalarType.int32.encode (vtableDistance vtable table)) }
      table vtable bytes behind := by
  have regrouped : before.storage.written = (bytes ++ old) ++ behind := by
    rw [written, List.append_assoc]
  have stands := standsAt_of_found regrouped below same
  have gap : before.storage.size - table.toNat = bytes.length := by
    rw [before.storage.size_eq, written, place, List.length_append, List.length_append]
    omega
  have retracted : (before.storage.retract bytes.length).written = [] ++ (old ++ behind) := by
    change before.storage.written.drop bytes.length = _
    rw [written, List.drop_left, List.nil_append]
  have patched := patch_written retracted place (length_link vtable table blank)
  rw [gap]
  constructor
  · exact ⟨[], patched, .inl ⟨rfl, cached, rfl⟩⟩
  · rw [patched, List.nil_append]
    exact stands.append_front _
  · exact fun grown => absurd rfl grown
  · have enough : bytes.length ≤ before.storage.size := by omega
    rw [Builder.capacity, Storage.capacity, patch_size retracted place (length_link vtable table blank)]
    simp only [Storage.patch, Storage.retract, Builder.capacity, Storage.capacity]
    omega
  · rfl

theorem shareVTable_done (written : before.storage.written = bytes ++ (old ++ behind))
    (blank : old.length = referenceWidth) (place : table.toNat = old.length + behind.length)
    (below : ∀ vtable ∈ before.vtables, vtable.toNat ≤ behind.length)
    (headed : before.head.toNat = before.storage.size)
    (ran : shareVTable bytes.length table before = .done () after) :
    ∃ vtable, Linked before after table vtable bytes behind := by
  have candidate : before.storage.written.take bytes.length = bytes := by
    rw [written, List.take_left]
  rw [shareVTable_apply, candidate] at ran
  cases found : before.vtables.find? fun vtable =>
      (before.storage.suffix vtable.toNat).take bytes.length == bytes with
  | none =>
      rw [found] at ran
      cases ran
      refine ⟨before.head, linked_of_new written blank place headed fun cached member stands => ?_⟩
      have differs := List.find?_eq_none.mp found cached member
      have regrouped : before.storage.written = (bytes ++ old) ++ behind := by
        rw [written, List.append_assoc]
      exact differs (beq_iff_eq.mpr (found_of_standsAt regrouped stands))
  | some vtable =>
      rw [found] at ran
      cases ran
      have cached : vtable ∈ before.vtables := List.mem_of_find?_eq_some found
      have same : (before.storage.suffix vtable.toNat).take bytes.length = bytes := by
        simpa using List.find?_some found
      exact ⟨vtable, linked_of_found written blank place cached (below vtable cached) same⟩

end Linking

theorem addBlank_done (small : before.storage.size ≤ maxBufferSize)
    (ran : addScalar .int32 0 before = .done () after) :
    before.finished = false ∧
      Pushed before after (ScalarType.int32.encode 0 ++
        zeros (paddingTo referenceWidth before.storage.size)) ∧
      after.head.toNat =
        referenceWidth + paddingTo referenceWidth before.storage.size + before.storage.size ∧
      after.storage.size = after.head.toNat ∧ after.storage.size % referenceWidth = 0 := by
  obtain ⟨unfinished, pushed⟩ := addScalar_done ran
  have size : after.storage.size =
      referenceWidth + paddingTo referenceWidth before.storage.size + before.storage.size := by
    rw [pushed.size, List.length_append, ScalarType.length_encode, length_zeros]
    rfl
  have padding : paddingTo referenceWidth before.storage.size < referenceWidth :=
    Nat.mod_lt _ (by decide)
  have limit : referenceWidth + referenceWidth + maxBufferSize < 2 ^ 32 := by decide
  have headed : after.head.toNat = after.storage.size :=
    UInt32.toNat_ofNat_of_lt' (Nat.lt_of_le_of_lt (by omega) limit)
  refine ⟨unfinished, pushed, headed.trans size, headed.symm, ?_⟩
  · have padded := add_paddingTo_mod (by decide : 0 < referenceWidth) before.storage.size
    rw [size]
    simp only [referenceWidth] at padded ⊢
    omega

/-- All that closing writes is counted in words of the format, also where the storage was made
larger than a buffer may grow. -/
theorem closeTable_done {table : Offset .table} (ordered : before.Ordered)
    (ran : closeTable before = .done table after) :
    ∃ start fields vtable, Closed before after start fields table.value vtable := by
  cases opened : before.openObject with
  | nothing => simp [closeTable_apply, opened] at ran
  | vector count => simp [closeTable_apply, opened] at ran
  | table start fields =>
      simp only [closeTable_apply, opened] at ran
      rcases done_bind.mp ran with ⟨_, blank, blankRan, ran⟩
      rw [head_bind] at ran
      rcases done_bind.mp ran with ⟨_, last, vtableRan, ran⟩
      have small := ordered.small
      obtain ⟨started, stored⟩ := ordered.opened start fields opened
      obtain ⟨unfinished, blankPushed, place, blankSize, aligned⟩ := addBlank_done small blankRan
      have beyond : before.storage.size ≤ blank.head.toNat := place ▸ Nat.le_add_left _ _
      obtain ⟨entries, inlineSize, vtableSize, vtablePushed⟩ :=
        addVTable_done (Nat.le_trans started beyond)
          (fun location member => Nat.le_trans (stored location member) beyond) aligned vtableRan
      have pushed := blankPushed.trans vtablePushed
      let behind := zeros (paddingTo referenceWidth before.storage.size) ++ before.storage.written
      have written : last.storage.written =
          vtableBytes blank.head start fields ++ (ScalarType.int32.encode 0 ++ behind) := by
        rw [pushed.written, List.append_assoc, List.append_assoc]
      have length : behind.length =
          paddingTo referenceWidth before.storage.size + before.storage.size := by
        rw [List.length_append, length_zeros, before.storage.size_eq]
      have distance : blank.head.toNat = (ScalarType.int32.encode 0).length + behind.length := by
        rw [place, length, Nat.add_assoc]
        rfl
      have belowFields : ∀ vtable ∈ last.vtables, vtable.toNat ≤ behind.length := by
        intro vtable member
        rw [pushed.vtables] at member
        rw [length]
        exact Nat.le_add_left_of_le (ordered.vtables vtable member)
      have lastSize : last.storage.size = vtableWidth fields + blank.head.toNat := by
        rw [vtablePushed.size, length_vtableBytes, blankSize]
      have padding : paddingTo referenceWidth before.storage.size < referenceWidth :=
        Nat.mod_lt _ (by decide)
      have limit : maxEntry + (referenceWidth + referenceWidth + maxBufferSize) < 2 ^ 32 := by
        decide
      have inWords : last.storage.size < 2 ^ 32 := Nat.lt_of_le_of_lt (by omega) limit
      have headed : last.head.toNat = last.storage.size := UInt32.toNat_ofNat_of_lt' inWords
      rw [← length_vtableBytes blank.head start] at ran
      rcases done_bind.mp ran with ⟨_, linked, linkRan, ran⟩
      cases ran
      obtain ⟨vtable, link⟩ := shareVTable_done written rfl distance belowFields headed linkRan
      have shorter := link.size_le written
      have linkWritten := link.written
      rw [pushed.vtables] at linkWritten
      refine ⟨start, fields, vtable, {
        opened, unfinished, place, entries, inlineSize, vtableSize
        standing := link.standing
        written := linkWritten
        fresh := fun grown cached member stands => ?_
        capacity := Nat.le_trans pushed.capacity (Nat.le_of_eq link.capacity.symm)
        fits := fun fits => Nat.le_trans (Nat.le_of_eq link.capacity) (pushed.fits fits)
        headed := UInt32.toNat_ofNat_of_lt' (Nat.lt_of_le_of_lt shorter inWords)
        alignment := (congrArg Builder.alignment link.others) ▸ pushed.alignment
        levels := (congrArg Builder.alignment link.others) ▸ pushed.levels
        openObject := rfl
        strings := (congrArg Builder.strings link.others).trans pushed.strings
        finished := ((congrArg Builder.finished link.others).trans pushed.finished).trans unfinished
        forceDefaults := (congrArg Builder.forceDefaults link.others).trans pushed.forceDefaults }⟩
      rw [← pushed.vtables] at grown member
      exact link.fresh grown cached member (stands.append_front _)

theorem closeTable_refused {error : Refusal} (ran : closeTable before = .refused error after) :
    Pushes before after := by
  cases opened : before.openObject with
  | nothing =>
      simp only [closeTable_apply, opened] at ran
      cases ran
      exact Pushes.refl before
  | vector count =>
      simp only [closeTable_apply, opened] at ran
      cases ran
      exact Pushes.refl before
  | table start fields =>
      simp only [closeTable_apply, opened] at ran
      rcases refused_bind.mp ran with blankRan | ⟨_, blank, blankRan, ran⟩
      · exact (moves_addScalar _ _ before).of_refused blankRan
      rw [head_bind] at ran
      have blankMoved : Pushes before blank :=
        (moves_addScalar _ _ before).of_done blankRan
      rcases refused_bind.mp ran with vtableRan | ⟨_, last, vtableRan, ran⟩
      · exact blankMoved.trans ((moves_addVTable _ _ _ blank).of_refused vtableRan)
      rcases refused_bind.mp ran with linkRan | ⟨_, linked, _, ran⟩
      · exact absurd linkRan shareVTable_not_refused
      · cases ran

end Build

end WireTables
