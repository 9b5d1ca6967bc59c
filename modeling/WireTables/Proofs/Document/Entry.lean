import WireTables.Proofs.Document.Table

namespace WireTables

instance ScalarType.decidableValue (type : ScalarType) : DecidableEq type.Value :=
  match type with
  | .bool => inferInstanceAs (DecidableEq Bool)
  | .int8 => inferInstanceAs (DecidableEq Int8)
  | .uint8 => inferInstanceAs (DecidableEq UInt8)
  | .int16 => inferInstanceAs (DecidableEq Int16)
  | .uint16 => inferInstanceAs (DecidableEq UInt16)
  | .int32 => inferInstanceAs (DecidableEq Int32)
  | .uint32 => inferInstanceAs (DecidableEq UInt32)
  | .int64 => inferInstanceAs (DecidableEq Int64)
  | .uint64 => inferInstanceAs (DecidableEq UInt64)
  | .float32 => inferInstanceAs (DecidableEq Binary32)
  | .float64 => inferInstanceAs (DecidableEq Binary64)

inductive Content
  | scalar (type : ScalarType) (value default : type.Value)
  | optional (type : ScalarType) (value : Option type.Value)
  | reference (target : UInt32)
  | struct (start : UInt32)
  deriving DecidableEq

namespace Content

/-- Whether anything is stored. A struct is known by the head at its start, which is zero only when
nothing at all was written. -/
def stored (forced : Bool) : Content → Bool
  | scalar type value default => forced || !type.sameEncoding value default
  | optional _ value => value.isSome
  | reference _ => true
  | struct start => start != 0

def width : Content → Nat
  | scalar type .. => type.width
  | optional type _ => type.width
  | reference _ => referenceWidth
  | struct _ => 0

def LiesAt (bytes : Bytes) (location : UInt32) : Content → Prop
  | scalar type value _ => StandsAt bytes location.toNat (type.encode value)
  | optional type value =>
      ∃ present, value = some present ∧ StandsAt bytes location.toNat (type.encode present)
  | reference target => RefersTo bytes location.toNat target.toNat
  | struct start => location = start ∧ location.toNat ≤ bytes.length

variable {content : Content} {bytes whole : Bytes} {location : UInt32}

theorem LiesAt.of_suffix (suffix : bytes <:+ whole) (lies : content.LiesAt bytes location) :
    content.LiesAt whole location := by
  cases content with
  | scalar type value default => exact StandsAt.of_suffix suffix lies
  | optional type value =>
      rcases lies with ⟨present, same, stands⟩
      exact ⟨present, same, stands.of_suffix suffix⟩
  | reference target =>
      rcases suffix with ⟨front, rfl⟩
      exact RefersTo.append_front front lies
  | struct start => exact ⟨lies.1, Nat.le_trans lies.2 suffix.length_le⟩

theorem LiesAt.inside (lies : content.LiesAt bytes location) : location.toNat ≤ bytes.length := by
  cases content with
  | scalar type value default => exact StandsAt.distance_le lies
  | optional type value =>
      rcases lies with ⟨present, -, stands⟩
      exact stands.distance_le
  | reference target => exact RefersTo.inside lies
  | struct start => exact lies.2

end Content

structure Entry where
  slot : Slot
  content : Content
  forced : Bool
  deriving DecidableEq

def Entry.stored (entry : Entry) : Bool := entry.content.stored entry.forced

/-- What the slot holds, where the latest entry comes first. -/
def held (entries : List Entry) (slot : Slot) : Option Content :=
  (entries.find? fun entry => entry.slot == slot && entry.stored).map Entry.content

section Held

variable {entry : Entry} {entries : List Entry} {slot : Slot}

theorem held_of_stored (here : entry.slot = slot) (stored : entry.stored = true) :
    held (entry :: entries) slot = some entry.content := by
  have found : (entry.slot == slot && entry.stored) = true := by simp [here, stored]
  rw [held, List.find?_cons, found]
  rfl

theorem held_of_passed (passed : entry.slot ≠ slot ∨ entry.stored = false) :
    held (entry :: entries) slot = held entries slot := by
  have missed : (entry.slot == slot && entry.stored) = false := by
    rcases passed with apart | omitted
    · simp [apart]
    · simp [omitted]
  rw [held, List.find?_cons, missed, held]

theorem held_of_absent (absent : slot ∉ entries.map Entry.slot) : held entries slot = none := by
  induction entries with
  | nil => rfl
  | cons entry entries ih =>
      rw [List.map_cons, List.mem_cons, not_or] at absent
      rw [held_of_passed (.inl (Ne.symm absent.1)), ih absent.2]

theorem held_of_distinct (distinct : (entries.map Entry.slot).Nodup) (member : entry ∈ entries) :
    held entries entry.slot = if entry.stored then some entry.content else none := by
  induction entries with
  | nil => cases member
  | cons latest entries ih =>
      rw [List.map_cons, List.nodup_cons] at distinct
      rcases List.mem_cons.mp member with rfl | member
      · cases stored : entry.stored with
        | true => rw [held_of_stored rfl stored, if_pos rfl]
        | false =>
            rw [held_of_passed (.inr stored), held_of_absent distinct.1, if_neg Bool.false_ne_true]
      · have apart : latest.slot ≠ entry.slot :=
          fun same => distinct.1 (same ▸ List.mem_map_of_mem member)
        rw [held_of_passed (.inl apart), ih distinct.2 member]

end Held

def HeldAt (bytes : Bytes) (location : UInt32) : Option Content → Prop
  | none => location = 0
  | some content => location ≠ 0 ∧ content.LiesAt bytes location

theorem HeldAt.of_suffix {bytes whole : Bytes} {location : UInt32} {content : Option Content}
    (suffix : bytes <:+ whole) (placed : HeldAt bytes location content) :
    HeldAt whole location content := by
  cases content with
  | none => exact placed
  | some content => exact ⟨placed.1, placed.2.of_suffix suffix⟩

def placeOf (fields : List UInt32) (slot : Slot) : UInt32 :=
  match indexOfSlot slot with
  | some index => fields.getD index 0
  | none => 0

theorem placeOf_index {fields : List UInt32} {slot : Slot} {index : Nat}
    (place : indexOfSlot slot = some index) : placeOf fields slot = fields.getD index 0 := by
  rw [placeOf, place]

theorem indexOfSlot_of_placeOf {fields : List UInt32} {slot : Slot}
    (present : placeOf fields slot ≠ 0) : ∃ index, indexOfSlot slot = some index := by
  rw [placeOf] at present
  split at present
  case h_1 index place => exact ⟨index, place⟩
  case h_2 => exact absurd rfl present

theorem mem_of_placeOf {fields : List UInt32} {slot : Slot} (present : placeOf fields slot ≠ 0) :
    placeOf fields slot ∈ fields := by
  obtain ⟨index, place⟩ := indexOfSlot_of_placeOf present
  rw [placeOf_index place, List.getD_eq_getElem?_getD] at present ⊢
  cases reached : fields[index]? with
  | none => simp [reached] at present
  | some location => exact List.mem_of_getElem? reached

theorem placeOf_congr {fields others : List UInt32}
    (same : ∀ index, fields.getD index 0 = others.getD index 0) (slot : Slot) :
    placeOf fields slot = placeOf others slot := by
  simp only [placeOf, same]

theorem placeOf_replicate (count : Nat) (slot : Slot) : placeOf (List.replicate count 0) slot = 0 := by
  rw [placeOf]
  split
  case h_1 index place =>
    rw [List.getD_eq_getElem?_getD, List.getElem?_replicate]
    split <;> rfl
  case h_2 => rfl

section Setting

variable {fields : List UInt32} {slot other : Slot} {index : Nat}

theorem placeOf_set (location : UInt32) (place : indexOfSlot slot = some index)
    (inside : index < fields.length) : placeOf (fields.set index location) slot = location := by
  rw [placeOf_index place, List.getD_eq_getElem?_getD, List.getElem?_set_self inside]
  rfl

theorem placeOf_set_of_ne (location : UInt32) (place : indexOfSlot slot = some index)
    (apart : slot ≠ other) : placeOf (fields.set index location) other = placeOf fields other := by
  simp only [placeOf]
  cases found : indexOfSlot other with
  | none => rfl
  | some otherIndex =>
      apply Filled.getD_set location
      rintro rfl
      exact apart (indexOfSlot_inj place found)

end Setting

def Filed (bytes : Bytes) (fields : List UInt32) (entries : List Entry) : Prop :=
  ∀ slot : Slot, HeldAt bytes (placeOf fields slot) (held entries slot)

namespace Filed

variable {bytes whole : Bytes} {fields : List UInt32} {entries : List Entry} {entry : Entry}
  {index : Nat}

theorem start (count : Nat) : Filed bytes (List.replicate count 0) [] := by
  exact placeOf_replicate count

theorem of_suffix (suffix : bytes <:+ whole) (filed : Filed bytes fields entries) :
    Filed whole fields entries :=
  fun slot => (filed slot).of_suffix suffix

theorem store {location : UInt32} (filed : Filed bytes fields entries)
    (place : indexOfSlot entry.slot = some index) (inside : index < fields.length)
    (stored : entry.stored = true) (present : location ≠ 0)
    (lies : entry.content.LiesAt bytes location) :
    Filed bytes (fields.set index location) (entry :: entries) := by
  intro slot
  by_cases same : entry.slot = slot
  · rw [held_of_stored same stored, placeOf_set location (same ▸ place) inside]
    exact ⟨present, lies⟩
  · rw [held_of_passed (.inl same), placeOf_set_of_ne location place same]
    exact filed slot

theorem skip {unchanged : List UInt32} (filed : Filed bytes fields entries)
    (omitted : entry.stored = false)
    (same : ∀ index, unchanged.getD index 0 = fields.getD index 0) :
    Filed bytes unchanged (entry :: entries) := by
  intro slot
  rw [held_of_passed (.inr omitted), placeOf_congr same]
  exact filed slot

end Filed

end WireTables
