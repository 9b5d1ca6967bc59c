import WireTables.Proofs.Builder.Object
import WireTables.Proofs.Builder.VTables

/-!
Alignment. A builder aligns what it writes by the distance from the end, before it is known how long
the buffer will be. Finishing pads the length to a multiple of the widest alignment that was asked
for, and powers of two divide each other, so what is aligned from the end is aligned from the first
byte as well.
-/

namespace WireTables

open Build

namespace Builder

/-- Nothing was written since the builder was made or cleared. -/
inductive Fresh : Builder → Prop
  | new (options : BuilderOptions) (fits : options.initialCapacity ≤ maxBufferSize) :
      Fresh (.ofOptions options)
  | cleared {builder : Builder} (reachable : builder.Reachable) : Fresh builder.clear

variable {builder before after : Builder} {closing : Prop}

theorem Fresh.sound (fresh : builder.Fresh) : builder.Sound := by
  cases fresh with
  | new options fits => exact sound_ofOptions fits
  | cleared reachable => exact sound_clear reachable.sound

theorem Fresh.alignment (fresh : builder.Fresh) : builder.alignment = 1 := by
  cases fresh <;> rfl

theorem Fresh.vtables (fresh : builder.Fresh) : builder.vtables = [] := by
  cases fresh <;> rfl

theorem Fresh.strings (fresh : builder.Fresh) : builder.strings = [] := by
  cases fresh <;> rfl

theorem Fresh.openObject (fresh : builder.Fresh) : builder.openObject = .nothing := by
  cases fresh <;> rfl

theorem alignment_le_of_changes (changes : ChangesBy closing before after) :
    before.alignment ≤ after.alignment := by
  induction changes with
  | refl => exact Nat.le_refl _
  | tail _ change ih =>
      apply Nat.le_trans ih
      rcases change.pushes_or_closed with
        ⟨front, pushed⟩ | ⟨start, fields, table, vtable, closed, -⟩ | ⟨-, same, -⟩
      · exact pushed.alignment
      · exact closed.alignment
      · exact Nat.le_of_eq same.symm

end Builder

section Closing

variable {before after : Builder} {start table vtable : UInt32} {fields : List UInt32}

theorem Closed.table_multiple (closed : Closed before after start fields table vtable) :
    referenceWidth ∣ table.toNat := by
  have padded := add_paddingTo_mod (by decide : 0 < referenceWidth) before.storage.size
  apply Nat.dvd_of_mod_eq_zero
  rw [closed.place, Nat.add_assoc, Nat.add_mod_left, Nat.add_comm]
  exact padded

theorem Closed.even (closed : Closed before after start fields table vtable)
    (even : ∀ cached ∈ before.vtables, entryWidth ∣ cached.toNat) :
    ∀ cached ∈ after.vtables, entryWidth ∣ cached.toNat := by
  rcases closed.written with ⟨front, written, ⟨-, -, same⟩ | ⟨rfl, head, grown⟩⟩
  · rwa [same]
  · have place : vtable.toNat = vtableWidth fields + table.toNat := by
      rw [head, closed.headed, after.storage.size_eq, written, closed.place,
        List.length_append, length_vtableBytes, List.length_append, List.length_append,
        ScalarType.length_encode, length_zeros, ← before.storage.size_eq, Nat.add_assoc]
      rfl
    rw [grown]
    intro cached member
    rcases List.mem_append.mp member with known | new
    · exact even cached known
    · rw [List.mem_singleton.mp new, place]
      apply Nat.dvd_add
      · exact Nat.dvd_add (by decide) (Nat.dvd_mul_right _ _)
      · exact Nat.dvd_trans (by decide) closed.table_multiple

theorem even_of_changes {closing : Prop} (changes : ChangesBy closing before after)
    (even : ∀ cached ∈ before.vtables, entryWidth ∣ cached.toNat) :
    ∀ cached ∈ after.vtables, entryWidth ∣ cached.toNat := by
  induction changes with
  | refl => exact even
  | tail _ change ih =>
      rcases change.pushes_or_closed with
        ⟨front, pushed⟩ | ⟨start, fields, table, vtable, closed, -⟩ | ⟨-, -, same⟩
      · rwa [pushed.vtables]
      · exact closed.even ih
      · rwa [same]

end Closing

/-- A part of a buffer that the format wants aligned, and what a reader finds there. The end counts
as one, for the alignments that are asked for without anything being written. -/
inductive Part
  | ending (alignment : Nat)
  | scalar (type : ScalarType) (value : type.Value)
  | length (count : Nat)
  | reference (target : UInt32)
  | table
  | vtable (owner : UInt32)
  | struct (alignment : Nat) (block : Bytes)

namespace Part

def alignment : Part → Nat
  | ending alignment => alignment
  | scalar type _ => type.width
  | length _ => referenceWidth
  | reference _ => referenceWidth
  | table => referenceWidth
  | vtable _ => entryWidth
  | struct alignment _ => alignment

def StandsIn (bytes : Bytes) (distance : Nat) : Part → Prop
  | ending _ => distance = 0
  | scalar type value => loadScalar type bytes (bytes.length - distance) = .ok value
  | length count =>
      loadScalar .uint32 bytes (bytes.length - distance) = .ok (UInt32.ofNat count)
  | reference target => RefersTo bytes distance target.toNat
  | table => ∃ vtable, VTable.ofTable bytes (bytes.length - distance) = .ok vtable
  | vtable owner => owner.toNat ≤ bytes.length ∧
      VTable.ofTable bytes (bytes.length - owner.toNat) = .ok ⟨bytes, bytes.length - distance⟩
  | struct _ block => slice bytes (bytes.length - distance) block.length = .ok block

end Part

theorem VTable.ofTable_append_front {bytes : Bytes} {table : Nat} {vtable : VTable} (front : Bytes)
    (located : ofTable bytes table = .ok vtable) :
    ofTable (front ++ bytes) (front.length + table) =
      .ok ⟨front ++ bytes, front.length + vtable.position⟩ := by
  rcases read_bind.mp located with ⟨position, found, same⟩
  cases same
  exact read_bind.mpr ⟨_, locateVTable_append_front front found, rfl⟩

theorem Part.StandsIn.append_front {bytes : Bytes} {distance : Nat} {part : Part} (front : Bytes)
    (inside : distance ≤ bytes.length) (stands : part.StandsIn bytes distance) :
    part.StandsIn (front ++ bytes) distance := by
  have place := length_append_sub front inside
  cases part with
  | ending alignment => exact stands
  | scalar type value =>
      rw [StandsIn, place, loadScalar_append_front]
      exact stands
  | length count =>
      rw [StandsIn, place, loadScalar_append_front]
      exact stands
  | reference target => exact RefersTo.append_front front stands
  | table =>
      obtain ⟨vtable, located⟩ := stands
      rw [StandsIn, place]
      exact ⟨_, VTable.ofTable_append_front front located⟩
  | vtable owner =>
      obtain ⟨behind, located⟩ := stands
      constructor
      · rw [List.length_append]
        exact Nat.le_add_left_of_le behind
      · rw [place, length_append_sub front behind]
        exact VTable.ofTable_append_front front located
  | struct alignment block =>
      rw [StandsIn, place, slice_append_front]
      exact stands

/-- On the way from one builder to another the part was placed at this distance from the end: by the
step that leads there, or by one that was taken in between. -/
inductive Places : Builder → Builder → Nat → Part → Prop
  | asked {before after : Builder} {size additional : Nat}
      (unfinished : before.finished = false) (left : (prepare size additional before).Leaves after) :
      Places before after 0 (.ending size)
  | scalar {before after : Builder} {type : ScalarType} {value : type.Value}
      (ran : addScalar type value before = .done () after) :
      Places before after after.storage.size (.scalar type value)
  | item {before after : Builder} {type : ScalarType} {items : List type.Value}
      {vector : Offset (.vector (.scalar type))} {index : Nat} {value : type.Value}
      (ran : writeScalars type items before = .done vector after)
      (reached : items[index]? = some value) :
      Places before after (vector.value.toNat - (referenceWidth + index * type.width))
        (.scalar type value)
  | scalars {before after : Builder} {type : ScalarType} {items : List type.Value}
      {vector : Offset (.vector (.scalar type))}
      (ran : writeScalars type items before = .done vector after) :
      Places before after vector.value.toNat (.length items.length)
  | bytes {before after : Builder} {bytes : Bytes} {vector : Offset (.vector (.scalar .uint8))}
      (ran : writeBytes bytes before = .done vector after) :
      Places before after vector.value.toNat (.length bytes.length)
  | string {before after : Builder} {bytes : Bytes} {string : Offset .string}
      (ran : writeByteString bytes before = .done string after) :
      Places before after string.value.toNat (.length bytes.length)
  | references {before after : Builder} {kind : Kind} {items : List (Offset kind)}
      {vector : Offset (.vector kind)} (ran : writeReferences items before = .done vector after) :
      Places before after vector.value.toNat (.length items.length)
  | filled {before opened ready after : Builder} {elementSize count alignment : Nat}
      {filling blank : Bytes} {element : Kind} {vector : Offset (.vector element)}
      (opens : openFilledVector elementSize count alignment filling before = .done blank opened)
      (between : Changes opened ready) (still : ready.storage.size = opened.storage.size)
      (isOpen : ready.openObject = .vector count) (closes : closeVector ready = .done vector after) :
      Places before after vector.value.toNat (.length count)
  | reference {before after : Builder} {kind : Kind} {target : Offset kind}
      (ran : addReference target before = .done () after) :
      Places before after after.storage.size (.reference target.value)
  | element {before after : Builder} {kind : Kind} {items : List (Offset kind)}
      {vector : Offset (.vector kind)} {index : Nat} {target : Offset kind}
      (ran : writeReferences items before = .done vector after)
      (reached : items[index]? = some target) :
      Places before after (vector.value.toNat - (referenceWidth + index * referenceWidth))
        (.reference target.value)
  | table {before after : Builder} {table : Offset .table}
      (ran : closeTable before = .done table after) :
      Places before after table.value.toNat .table
  | vtable {before after : Builder} {table : Offset .table} {vtable : VTable}
      (ran : closeTable before = .done table after)
      (located : VTable.ofTable after.storage.written
        (after.storage.size - table.value.toNat) = .ok vtable) :
      Places before after (after.storage.size - vtable.position) (.vtable table.value)
  | struct {before prepared after : Builder} {alignment : Nat} {block : Bytes}
      (prepares : prepare alignment block.length before = .done () prepared)
      (fills : Changes prepared after)
      (written : after.storage.written = block ++ prepared.storage.written) :
      Places before after after.storage.size (.struct alignment block)
  | within {before first last after : Builder} {distance : Nat} {part : Part}
      (early : Changes before first) (places : Places first last distance part)
      (late : Changes last after) : Places before after distance part

/-- The part is found in what is written, aligned from the end, and no wider alignment is needed for
it than the builder keeps for the whole. -/
structure Placed (builder : Builder) (distance : Nat) (part : Part) : Prop where
  inside : distance ≤ builder.storage.size
  stands : part.StandsIn builder.storage.written distance
  multiple : part.alignment ∣ distance
  power : part.alignment.isPowerOfTwo
  covered : part.alignment ≤ max builder.alignment referenceWidth

theorem Placed.of_changes {before after : Builder} {distance : Nat} {part : Part}
    (placed : Placed before distance part) (changes : Changes before after) :
    Placed after distance part := by
  obtain ⟨front, whole⟩ := Builder.suffix_of_changes changes
  have inside := placed.inside
  have stands := placed.stands
  rw [before.storage.size_eq] at inside
  refine ⟨?_, whole ▸ stands.append_front front inside, placed.multiple, placed.power, ?_⟩
  · rw [after.storage.size_eq, ← whole, List.length_append]
    exact Nat.le_add_left_of_le inside
  · have raised := Builder.alignment_le_of_changes changes
    have covered := placed.covered
    omega

section Placing

variable {before opened full after : Builder} {elementSize count alignment : Nat}

theorem placed_scalar {type : ScalarType} {value : type.Value}
    (ran : addScalar type value before = .done () after) :
    Placed after after.storage.size (.scalar type value) := by
  rcases done_bind.mp ran with ⟨_, prepared, prepares, puts⟩
  obtain ⟨pushed, -, same⟩ := put_done puts
  have power := type.isPowerOfTwo_width
  have aligned := Nat.dvd_of_mod_eq_zero (prepare_mod prepares)
  have wide : type.width ≤ after.alignment := same ▸ prepare_covers prepares
  have stands := pushed.stands.load_eq
  exact {
    inside := Nat.le_refl _
    stands := stands
    multiple := by
      rw [pushed.size, ScalarType.length_encode]
      exact Nat.dvd_add (Nat.dvd_refl _) aligned
    power := power
    covered := Nat.le_trans wide (Nat.le_max_left _ _) }

theorem placed_reference {kind : Kind} {target : Offset kind}
    (fits : before.capacity ≤ maxBufferSize) (ran : addReference target before = .done () after) :
    Placed after after.storage.size (.reference target.value) := by
  have pushes : Pushes before after := (moves_addReference target before).of_done ran
  have refers := refersTo_of_addReference (Builder.size_le (pushes.fits fits)) ran
  rcases done_bind.mp ran with ⟨_, prepared, prepares, rest⟩
  rw [head_bind] at rest
  split at rest
  case isTrue => cases rest
  case isFalse =>
    have aligned := Nat.dvd_of_mod_eq_zero (prepare_mod prepares)
    refine ⟨Nat.le_refl _, refers, ?_, ⟨2, rfl⟩, Nat.le_max_right _ _⟩
    rw [(put_done rest).1.size, ScalarType.length_encode]
    exact Nat.dvd_add (Nat.dvd_refl _) aligned

theorem openVector_mod
    (ran : openVector elementSize count alignment before = .done () after) :
    alignment ∣ after.storage.size + elementSize * count ∧
      referenceWidth ∣ after.storage.size + elementSize * count ∧ alignment ≤ after.alignment := by
  obtain ⟨second, third, -, first, last, rfl⟩ := openVector_steps ran
  have power := prepare_regular last
  have early := prepare_mod first
  have late := Nat.dvd_of_mod_eq_zero (prepare_mod last)
  have wide := prepare_covers last
  refine ⟨late, ?_, wide⟩
  rcases Nat.le_total alignment referenceWidth with narrow | broad
  · have same := (prepare_done last).2.size
    rw [paddingTo_of_narrow power narrow first, length_zeros, Nat.zero_add] at same
    change referenceWidth ∣ third.storage.size + _
    rw [same]
    exact Nat.dvd_of_mod_eq_zero early
  · exact Nat.dvd_trans (dvd_of_isPowerOfTwo ⟨2, rfl⟩ power broad) late

theorem closeVector_place {element : Kind} {vector : Offset (.vector element)}
    (fits : full.capacity ≤ maxBufferSize) (isOpen : full.openObject = .vector count)
    (ran : closeVector full = .done vector after) :
    vector.value.toNat = after.storage.size ∧
      after.storage.size = referenceWidth + full.storage.size ∧
      full.alignment ≤ after.alignment ∧
      StandsAt after.storage.written after.storage.size
        (ScalarType.uint32.encode (UInt32.ofNat count)) := by
  obtain ⟨middle, pushed, rfl, place⟩ := closeVector_done isOpen ran
  have size := pushed.size
  rw [ScalarType.length_encode] at size
  exact ⟨place ▸ Builder.toNat_head (pushed.fits fits), size, pushed.alignment, pushed.stands⟩

theorem placed_length {element : Kind} {vector : Offset (.vector element)}
    (opens : openVector elementSize count alignment before = .done () opened)
    (filled : full.storage.size = elementSize * count + opened.storage.size)
    (fits : full.capacity ≤ maxBufferSize) (isOpen : full.openObject = .vector count)
    (closes : closeVector full = .done vector after) :
    Placed after vector.value.toNat (.length count) := by
  obtain ⟨-, aligned, -⟩ := openVector_mod opens
  obtain ⟨place, size, -, stands⟩ := closeVector_place fits isOpen closes
  rw [place]
  have loaded := stands.load_eq
  refine ⟨Nat.le_refl _, loaded, ?_, ⟨2, rfl⟩, Nat.le_max_right _ _⟩
  rw [size, filled, Nat.add_comm (elementSize * count)]
  exact Nat.dvd_add (Nat.dvd_refl _) aligned

section Scalars

variable {type : ScalarType} {items : List type.Value} {vector : Offset (.vector (.scalar type))}

theorem writeScalars_steps (ran : writeScalars type items before = .done vector after) :
    ∃ opened full, openVector type.width items.length type.width before = .done () opened ∧
      Pushed opened full (items.flatMap type.encode) ∧
      full.storage.size = type.width * items.length + opened.storage.size ∧
      closeVector full = .done vector after := by
  rcases done_bind.mp ran with ⟨_, opened, opens, ran⟩
  rcases done_bind.mp ran with ⟨_, full, fills, closes⟩
  have pushed := (put_done fills).1
  refine ⟨opened, full, opens, pushed, ?_, closes⟩
  rw [pushed.size, length_flatMap_of_width type.length_encode, Nat.mul_comm]

theorem placed_scalars (fits : before.capacity ≤ maxBufferSize)
    (ran : writeScalars type items before = .done vector after) :
    Placed after vector.value.toNat (.length items.length) := by
  obtain ⟨opened, full, opens, pushed, filled, closes⟩ := writeScalars_steps ran
  obtain ⟨isOpen, openFits, -, -⟩ := openVector_done fits opens
  exact placed_length opens filled (pushed.fits openFits)
    (pushed.openObject.trans isOpen) closes

theorem placed_item {index : Nat} {value : type.Value} (fits : before.capacity ≤ maxBufferSize)
    (ran : writeScalars type items before = .done vector after)
    (reached : items[index]? = some value) :
    Placed after (vector.value.toNat - (referenceWidth + index * type.width))
      (.scalar type value) := by
  obtain ⟨opened, full, opens, pushed, filled, closes⟩ := writeScalars_steps ran
  obtain ⟨isOpen, openFits, -, -⟩ := openVector_done fits opens
  obtain ⟨aligned, -, wide⟩ := openVector_mod opens
  obtain ⟨place, size, raised, -⟩ :=
    closeVector_place (pushed.fits openFits) (pushed.openObject.trans isOpen) closes
  have wrote := writeScalars_done fits ran
  have stands := StandsAt.block_at type.length_encode reached wrote.stands.rest
  rw [ScalarType.length_encode, Nat.sub_sub] at stands
  have loaded := stands.load_eq
  have covered := Nat.le_trans (Nat.le_trans wide pushed.alignment) raised
  refine ⟨?_, loaded, ?_, type.isPowerOfTwo_width, Nat.le_trans covered (Nat.le_max_left _ _)⟩
  · rw [place]
    exact Nat.sub_le _ _
  · rw [place, size, Nat.add_sub_add_left, filled, Nat.add_comm (type.width * items.length)]
    exact Nat.dvd_sub aligned (Nat.dvd_mul_left _ _)

end Scalars

theorem placed_bytes {bytes : Bytes} {vector : Offset (.vector (.scalar .uint8))}
    (fits : before.capacity ≤ maxBufferSize) (ran : writeBytes bytes before = .done vector after) :
    Placed after vector.value.toNat (.length bytes.length) := by
  rw [writeBytes_eq_writeScalars] at ran
  exact placed_scalars fits ran

theorem placed_string {bytes : Bytes} {string : Offset .string}
    (fits : before.capacity ≤ maxBufferSize)
    (ran : writeByteString bytes before = .done string after) :
    Placed after string.value.toNat (.length bytes.length) := by
  rcases done_bind.mp ran with ⟨_, same, closed, rest⟩
  obtain ⟨rfl, -, -⟩ := requireNothingOpen_done closed
  rcases done_bind.mp rest with ⟨_, ended, ends, rest⟩
  rcases done_bind.mp rest with ⟨vector, last, wrote, rest⟩
  cases rest
  exact placed_bytes ((addScalar_done ends).2.fits fits) wrote

theorem placed_references {kind : Kind} {items : List (Offset kind)}
    {vector : Offset (.vector kind)} (fits : before.capacity ≤ maxBufferSize)
    (ran : writeReferences items before = .done vector after) :
    Placed after vector.value.toNat (.length items.length) ∧
      ∀ (index : Nat) (target : Offset kind), items[index]? = some target →
        Placed after (vector.value.toNat - (referenceWidth + index * referenceWidth))
          (.reference target.value) := by
  obtain ⟨-, -, -, refers⟩ := writeReferences_done fits ran
  rcases done_bind.mp ran with ⟨_, opened, opens, ran⟩
  rcases done_bind.mp ran with ⟨_, full, fills, closes⟩
  obtain ⟨isOpen, openFits, -, -⟩ := openVector_done fits opens
  obtain ⟨⟨payload, pushed, length⟩, -⟩ :=
    addReferences_done openFits (openVector_references fits opens) fills
  have filled : full.storage.size = referenceWidth * items.length + opened.storage.size := by
    rw [pushed.size, length, Nat.mul_comm]
  have headed := placed_length opens filled (pushed.fits openFits)
    (pushed.openObject.trans isOpen) closes
  refine ⟨headed, fun index target reached => ?_⟩
  exact {
    inside := Nat.le_trans (Nat.sub_le _ _) headed.inside
    stands := refers index target reached
    multiple := Nat.dvd_sub headed.multiple
      (Nat.dvd_add (Nat.dvd_refl _) (Nat.dvd_mul_left _ _))
    power := ⟨2, rfl⟩
    covered := Nat.le_max_right _ _ }

theorem placed_filled {ready : Builder} {filling blank : Bytes} {element : Kind}
    {vector : Offset (.vector element)} (sound : before.Sound)
    (opens : openFilledVector elementSize count alignment filling before = .done blank opened)
    (between : Changes opened ready) (still : ready.storage.size = opened.storage.size)
    (isOpen : ready.openObject = .vector count) (closes : closeVector ready = .done vector after) :
    Placed after vector.value.toNat (.length count) := by
  have changes : Changes before opened :=
    (changes_allow.of_openFilledVector _ _ _ filling before).of_done opens
  have fits := (Builder.sound_of_changes sound (changes.trans between)).fits
  obtain ⟨empty, laid, begins, pushed, length⟩ := openFilledVector_steps opens
  have filled : ready.storage.size = elementSize * count + empty.storage.size := by
    rw [still, pushed.size, length]
  exact placed_length begins filled fits isOpen closes

section Tables

variable {table : Offset .table}

theorem placed_table (sound : before.Sound) (ran : closeTable before = .done table after) :
    Placed after table.value.toNat .table := by
  obtain ⟨start, fields, vtable, closed⟩ :=
    closeTable_done sound.ordered ran
  have stands := closed.stands (Builder.size_le (closed.fits sound.fits))
  have inside := stands.link.distance_le
  rw [← after.storage.size_eq] at inside
  exact ⟨inside, ⟨_, stands.located⟩, closed.table_multiple, ⟨2, rfl⟩, Nat.le_max_right _ _⟩

theorem placed_vtable {found : VTable} (sound : before.Sound)
    (even : ∀ cached ∈ before.vtables, entryWidth ∣ cached.toNat)
    (ran : closeTable before = .done table after)
    (located : VTable.ofTable after.storage.written
      (after.storage.size - table.value.toNat) = .ok found) :
    Placed after (after.storage.size - found.position) (.vtable table.value) := by
  obtain ⟨start, fields, vtable, closed⟩ :=
    closeTable_done sound.ordered ran
  have stands := closed.stands (Builder.size_le (closed.fits sound.fits))
  have inside := stands.vtable.distance_le
  have there := stands.located
  have tableInside := stands.link.distance_le
  rw [← after.storage.size_eq] at there inside
  rw [located] at there
  cases there
  have distance : after.storage.size - (vtableAt after.storage.written vtable).position =
      vtable.toNat := by
    simp only [vtableAt, ← after.storage.size_eq]
    omega
  rw [distance]
  have cached : vtable ∈ after.vtables := by
    rcases closed.written with ⟨-, -, ⟨-, known, same⟩ | ⟨-, -, grown⟩⟩
    · rwa [same]
    · rw [grown]
      exact List.mem_append_right _ List.mem_cons_self
  exact ⟨inside, ⟨tableInside, stands.located⟩, closed.even even vtable cached, ⟨1, rfl⟩,
    Nat.le_trans (by decide : entryWidth ≤ referenceWidth) (Nat.le_max_right _ _)⟩

end Tables

theorem placed_struct {prepared : Builder} {block : Bytes}
    (prepares : prepare alignment block.length before = .done () prepared)
    (fills : Changes prepared after)
    (written : after.storage.written = block ++ prepared.storage.written) :
    Placed after after.storage.size (.struct alignment block) := by
  have aligned := prepare_mod prepares
  have power := prepare_regular prepares
  have wide := Nat.le_trans (prepare_covers prepares) (Builder.alignment_le_of_changes fills)
  have size : after.storage.size = prepared.storage.size + block.length := by
    rw [after.storage.size_eq, written, List.length_append, prepared.storage.size_eq, Nat.add_comm]
  have stands : StandsAt after.storage.written after.storage.size block := by
    rw [after.storage.size_eq, written, List.length_append]
    exact StandsAt.of_front _ _
  refine ⟨Nat.le_refl _, stands.slice_eq, ?_, power, Nat.le_trans wide (Nat.le_max_left _ _)⟩
  rw [size]
  exact Nat.dvd_of_mod_eq_zero aligned

end Placing

theorem Places.placed {before after : Builder} {distance : Nat} {part : Part}
    (places : Places before after distance part) (sound : before.Sound)
    (even : ∀ cached ∈ before.vtables, entryWidth ∣ cached.toNat) : Placed after distance part := by
  induction places with
  | asked unfinished left =>
      have raised := alignment_of_prepare left
      rw [unfinished, if_neg Bool.false_ne_true] at raised
      refine ⟨Nat.zero_le _, rfl, Nat.dvd_zero _, regular_of_prepare left, ?_⟩
      rw [raised]
      exact Nat.le_trans (Nat.le_max_right _ _) (Nat.le_max_left _ _)
  | scalar ran => exact placed_scalar ran
  | item ran reached => exact placed_item sound.fits ran reached
  | scalars ran => exact placed_scalars sound.fits ran
  | bytes ran => exact placed_bytes sound.fits ran
  | string ran => exact placed_string sound.fits ran
  | references ran => exact (placed_references sound.fits ran).1
  | filled opens between still isOpen closes =>
      exact placed_filled sound opens between still isOpen closes
  | reference ran => exact placed_reference sound.fits ran
  | element ran reached => exact (placed_references sound.fits ran).2 _ _ reached
  | table ran => exact placed_table sound ran
  | vtable ran located => exact placed_vtable sound even ran located
  | struct prepares fills written => exact placed_struct prepares fills written
  | within early _ late ih =>
      have reached := Builder.sound_of_changes sound early
      exact (ih reached (even_of_changes early even)).of_changes late

section Finishing

variable {before after : Builder} {root : Offset .table}

theorem alignment_of_addReference {kind : Kind} {target : Offset kind}
    (ran : addReference target before = .done () after) :
    after.alignment = max before.alignment referenceWidth := by
  rcases done_bind.mp ran with ⟨_, prepared, prepares, rest⟩
  rw [head_bind] at rest
  split at rest
  case isTrue => cases rest
  case isFalse => rw [(put_done rest).2.2, alignment_of_prepared prepares]

theorem mark_mod {marked : Builder} {mark : Bytes} {sized : Bool}
    (power : before.alignment.isPowerOfTwo) (whole : referenceWidth ∣ mark.length)
    (prepares : prepare (max before.alignment referenceWidth)
      (referenceWidth + mark.length + if sized then referenceWidth else 0) before = .done () after)
    (marks : put mark after = .done () marked) : marked.storage.size % referenceWidth = 0 := by
  have wide : (max before.alignment referenceWidth).isPowerOfTwo := isPowerOfTwo_max power ⟨2, rfl⟩
  have aligned := Nat.dvd_of_mod_eq_zero (prepare_mod prepares)
  have narrow := Nat.dvd_trans (dvd_of_isPowerOfTwo ⟨2, rfl⟩ wide (Nat.le_max_right _ _)) aligned
  have size := (put_done marks).1.size
  simp only [referenceWidth] at narrow whole size ⊢
  cases sized <;> simp only [if_true, Bool.false_eq_true, if_false] at narrow <;> omega

theorem addTrailer_mod {mark : Bytes} {sized : Bool} (fits : before.capacity ≤ maxBufferSize)
    (power : before.alignment.isPowerOfTwo) (whole : referenceWidth ∣ mark.length)
    (ran : addTrailer root mark sized before = .done () after) :
    after.alignment = max before.alignment referenceWidth ∧
      after.alignment ∣ after.storage.size := by
  rw [addTrailer, state_bind] at ran
  rcases done_bind.mp ran with ⟨_, second, prepares, ran⟩
  rcases done_bind.mp ran with ⟨_, third, marks, ran⟩
  rcases done_bind.mp ran with ⟨_, last, refers, sizes⟩
  have wide : (max before.alignment referenceWidth).isPowerOfTwo := isPowerOfTwo_max power ⟨2, rfl⟩
  have aligned := Nat.dvd_of_mod_eq_zero (prepare_mod prepares)
  obtain ⟨marked, -, markLevel⟩ := put_done marks
  have level : last.alignment = max before.alignment referenceWidth := by
    rw [alignment_of_addReference refers, markLevel, alignment_of_prepared prepares]
    omega
  have thirdFits := marked.fits ((prepare_done prepares).2.fits fits)
  obtain ⟨reference, referred, -⟩ :=
    addReference_of_aligned thirdFits (mark_mod power whole prepares marks) refers
  have size : last.storage.size = second.storage.size + (referenceWidth + mark.length) := by
    rw [referred.size, ScalarType.length_encode, marked.size]
    change referenceWidth + _ = _
    omega
  cases sized with
  | false =>
      cases sizes
      rw [level, size]
      exact ⟨rfl, aligned⟩
  | true =>
      rw [if_pos rfl, head_bind] at sizes
      obtain ⟨sized, -, sizeLevel⟩ := put_done sizes
      have total : after.storage.size =
          second.storage.size + (referenceWidth + mark.length + referenceWidth) := by
        rw [sized.size, ScalarType.length_encode, size]
        change referenceWidth + _ = _
        omega
      rw [sizeLevel, level, total]
      exact ⟨rfl, aligned⟩

theorem finish_mod {identifier : Option String} {sized : Bool}
    (fits : before.capacity ≤ maxBufferSize) (power : before.alignment.isPowerOfTwo)
    (ran : finish root identifier sized before = .done () after) :
    after.alignment = max before.alignment referenceWidth ∧
      after.alignment ∣ after.storage.size := by
  rw [finish_apply] at ran
  split at ran
  case h_1 => cases ran
  case h_2 valid =>
    rcases done_bind.mp ran with ⟨_, same, required, rest⟩
    obtain ⟨rfl, -, -⟩ := requireNothingOpen_done required
    rcases done_bind.mp rest with ⟨_, last, trailed, ended⟩
    have multiple := addTrailer_mod fits power (dvd_length_mark valid) trailed
    cases ended
    exact multiple

end Finishing

namespace Builder

variable {start after : Builder} {answer : Answer} {ending : Call} {stages : List (Answer × Builder)}

theorem changes_of_run_concat {calls : List Call} (sound : start.Sound)
    (kept : ∀ call ∈ calls, call ≠ .clear)
    (ran : start.run (calls ++ [ending]) = .ok stages)
    (ended : stages.getLast? = some (answer, after)) :
    ∃ last, Changes start last ∧ ending.step last = .ok (answer, after) ∧
      ∀ stage ∈ stages, stage.2 = after ∨ Changes start stage.2 ∧ Changes stage.2 last := by
  induction calls generalizing start stages with
  | nil =>
      rcases run_cons.mp ran with ⟨found, middle, later, stepped, ranLater, rfl⟩
      cases ranLater
      cases ended
      exact ⟨start, .refl, stepped, fun stage member => .inl (by rw [List.mem_singleton.mp member])⟩
  | cons call calls ih =>
      rw [List.forall_mem_cons] at kept
      rcases run_cons.mp ran with ⟨found, middle, later, stepped, ranLater, rfl⟩
      have first : Changes start middle := Call.changes_of_step kept.1 sound stepped
      cases later with
      | nil => simpa using length_of_run ranLater
      | cons next rest =>
          rw [List.getLast?_cons_cons] at ended
          obtain ⟨last, passes, ends, passed⟩ :=
            ih (sound_of_step sound stepped) kept.2 ranLater ended
          refine ⟨last, first.trans passes, ends, List.forall_mem_cons.mpr ⟨?_, ?_⟩⟩
          · exact .inr ⟨first, passes⟩
          · intro stage member
            rcases passed stage member with same | ⟨early, late⟩
            · exact .inl same
            · exact .inr ⟨first.trans early, late⟩

end Builder

/-- A session that starts with nothing written, ends by finishing.
All that its calls do is done on the way from its start to its end, and whatever part is placed on
that way is found in the finished bytes at a multiple of its alignment, counted from the first byte.
The end is a part as well: the length is a multiple of each alignment that was asked for. -/
theorem Builder.Fresh.finished_aligned {start after : Builder} {calls : List Call}
    {root : Offset .table} {identifier : Option String} {sized : Bool}
    {stages : List (Answer × Builder)} {reply : Reply} (fresh : start.Fresh)
    (kept : ∀ call ∈ calls, call ≠ .clear)
    (ran : start.run (calls ++ [.finish root identifier sized]) = .ok stages)
    (ended : stages.getLast? = some (.ok reply, after)) :
    (∀ stage ∈ stages, Changes start stage.2 ∧ Changes stage.2 after) ∧
    ∃ bytes, after.finishedBytes = .ok bytes ∧ referenceWidth ∣ bytes.length ∧
      ∀ (distance : Nat) (part : Part), Places start after distance part →
        distance ≤ bytes.length ∧ part.StandsIn bytes distance ∧
          part.alignment ∣ bytes.length - distance := by
  have sound := fresh.sound
  obtain ⟨last, passes, stepped, passed⟩ :=
    changes_of_run_concat sound kept ran ended
  have lastSound := sound_of_changes sound passes
  rcases done_bind.mp (Call.done_of_step stepped) with ⟨_, _, finished, same⟩
  cases same
  have ending : Changes last after :=
    (changes_allow.of_finish root identifier sized last).of_done finished
  have power := lastSound.power
  obtain ⟨level, multiple⟩ := finish_mod lastSound.fits power finished
  have wide : after.alignment.isPowerOfTwo := level ▸ isPowerOfTwo_max power ⟨2, rfl⟩
  have least : referenceWidth ≤ after.alignment := level ▸ Nat.le_max_right _ _
  obtain ⟨bytes, -, -, -, -, shown⟩ := finish_done lastSound.fits finished
  rw [← written_of_finishedBytes shown] at shown
  rw [after.storage.size_eq] at multiple
  have divides {alignment : Nat} (proper : alignment.isPowerOfTwo)
      (covered : alignment ≤ max after.alignment referenceWidth) :
      alignment ∣ after.storage.written.length :=
    Nat.dvd_trans (dvd_of_isPowerOfTwo proper wide (by omega)) multiple
  refine ⟨fun stage member => ?_, _, shown, divides ⟨2, rfl⟩ (Nat.le_max_right _ _), ?_⟩
  · rcases passed stage member with same | ⟨early, late⟩
    · rw [same]
      exact ⟨passes.trans ending, .refl⟩
    · exact ⟨early, late.trans ending⟩
  · intro distance part places
    have empty : ∀ cached ∈ start.vtables, entryWidth ∣ cached.toNat := by
      simp [fresh.vtables]
    have placed := places.placed sound empty
    have inside := placed.inside
    rw [after.storage.size_eq] at inside
    exact ⟨inside, placed.stands, Nat.dvd_sub (divides placed.power placed.covered) placed.multiple⟩

theorem finished_aligned_of_int64 :
    ∃ (stages : List (Answer × Builder)) (after : Builder) (bytes : Bytes),
      (Builder.ofOptions ⟨0, false⟩).run ([.add .int64 (5 : Int64), .openTable 1,
        .storeScalar 4 .int16 (7 : Int16) 0, .closeTable] ++
          [.finish ⟨16⟩ (some "FLAT") true]) = .ok stages ∧
      stages.getLast?.map Prod.snd = some after ∧ after.finishedBytes = .ok bytes ∧
      8 ≤ bytes.length ∧ loadScalar .int64 bytes (bytes.length - 8) = .ok 5 ∧
      8 ∣ bytes.length - 8 := by
  let calls : List Call := [.add .int64 (5 : Int64), .openTable 1,
    .storeScalar 4 .int16 (7 : Int16) 0, .closeTable]
  have evaluated : ((fun stages : List (Answer × Builder) =>
      stages.getLast?.map fun stage => stage.1.toOption.isSome) <$>
        (Builder.ofOptions ⟨0, false⟩).run
          (calls ++ [.finish ⟨16⟩ (some "FLAT") true])).toOption = some (some true) := by
    decide +kernel
  obtain ⟨stages, ran, shown⟩ := read_map.mp (ok_of_toOption evaluated)
  obtain ⟨⟨answer, after⟩, last, answered⟩ := Option.map_eq_some_iff.mp shown
  cases answer with
  | error error => cases answered
  | ok reply =>
      have added : (addScalar .int64 (5 : Int64) (.ofOptions ⟨0, false⟩)).value? = some () := by
        decide +kernel
      obtain ⟨first, added⟩ := Outcome.done_of_value? added
      have kept : ∀ call ∈ calls, call ≠ .clear := by simp [calls]
      obtain ⟨passed, bytes, ended, -, aligned⟩ :=
        (Builder.Fresh.new ⟨0, false⟩ (by decide)).finished_aligned kept ran last
      rcases Builder.run_cons.mp ran with ⟨_, middle, later, stepped, -, rfl⟩
      simp only [Call.step, Call.run, quietly, replying, bind_apply, added] at stepped
      cases stepped
      have size : first.storage.size = 8 := (addScalar_done added).2.size.trans (by decide)
      obtain ⟨inside, stands, multiple⟩ := aligned first.storage.size (.scalar .int64 (5 : Int64))
        (.within .refl (.scalar added) (passed _ List.mem_cons_self).2)
      rw [size] at inside stands multiple
      exact ⟨_, after, bytes, ran, by rw [last]; rfl, ended, inside, stands, multiple⟩

end WireTables
