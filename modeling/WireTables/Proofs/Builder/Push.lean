import WireTables.Builder.Write
import WireTables.Proofs.Buffer.Growth
import WireTables.Proofs.Builder.Outcome

/-!
What the smallest steps of a builder do to it: each puts bytes in front of those that are written,
raises the alignment and may grow the storage, and nothing else changes. `Pushed` says this once for
all of them; steps made of such steps push what their parts push, the later part in front.
-/

namespace WireTables

theorem isPowerOfTwo_max {first second : Nat} (left : first.isPowerOfTwo)
    (right : second.isPowerOfTwo) : (max first second).isPowerOfTwo := by
  rcases Nat.le_total first second with below | above
  · rwa [Nat.max_eq_right below]
  · rwa [Nat.max_eq_left above]

theorem dvd_of_isPowerOfTwo {small large : Nat} (left : small.isPowerOfTwo)
    (right : large.isPowerOfTwo) (below : small ≤ large) : small ∣ large := by
  obtain ⟨exponent, rfl⟩ := left
  obtain ⟨other, rfl⟩ := right
  exact Nat.pow_dvd_pow 2 ((Nat.pow_le_pow_iff_right (by decide)).mp below)

theorem ScalarType.isPowerOfTwo_width (type : ScalarType) : type.width.isPowerOfTwo := by
  cases type with
  | bool | int8 | uint8 => exact ⟨0, rfl⟩
  | int16 | uint16 => exact ⟨1, rfl⟩
  | int32 | uint32 | float32 => exact ⟨2, rfl⟩
  | int64 | uint64 | float64 => exact ⟨3, rfl⟩

namespace Storage

@[simp] theorem size_grow (storage : Storage) (count : Nat) :
    (storage.grow count).size = storage.size := rfl

@[simp] theorem room_grow (storage : Storage) (count : Nat) :
    (storage.grow count).room = storage.room + count := rfl

@[simp] theorem written_push (storage : Storage) (bytes : Bytes) :
    (storage.push bytes).written = bytes ++ storage.written := rfl

@[simp] theorem size_push (storage : Storage) (bytes : Bytes) :
    (storage.push bytes).size = bytes.length + storage.size := rfl

@[simp] theorem room_push (storage : Storage) (bytes : Bytes) :
    (storage.push bytes).room = storage.room - bytes.length := rfl

theorem capacity_push {storage : Storage} {bytes : Bytes} (fits : bytes.length ≤ storage.room) :
    (storage.push bytes).capacity = storage.capacity := by
  simp only [capacity, room_push, size_push]
  omega

end Storage

/-- `after` is `before` with the bytes of `front` in front of what it had written. -/
structure Pushed (before after : Builder) (front : Bytes) : Prop where
  written : after.storage.written = front ++ before.storage.written
  capacity : before.capacity ≤ after.capacity
  fits : before.capacity ≤ maxBufferSize → after.capacity ≤ maxBufferSize
  alignment : before.alignment ≤ after.alignment
  levels : before.alignment.isPowerOfTwo → after.alignment.isPowerOfTwo
  openObject : after.openObject = before.openObject
  vtables : after.vtables = before.vtables
  strings : after.strings = before.strings
  finished : after.finished = before.finished
  forceDefaults : after.forceDefaults = before.forceDefaults

namespace Pushed

variable {before middle after : Builder} {first second front : Bytes}

theorem refl (builder : Builder) : Pushed builder builder [] where
  written := rfl
  capacity := Nat.le_refl _
  fits := id
  alignment := Nat.le_refl _
  levels := id
  openObject := rfl
  vtables := rfl
  strings := rfl
  finished := rfl
  forceDefaults := rfl

theorem trans (early : Pushed before middle first) (late : Pushed middle after second) :
    Pushed before after (second ++ first) where
  written := by rw [late.written, early.written, List.append_assoc]
  capacity := Nat.le_trans early.capacity late.capacity
  fits bounded := late.fits (early.fits bounded)
  alignment := Nat.le_trans early.alignment late.alignment
  levels power := late.levels (early.levels power)
  openObject := late.openObject.trans early.openObject
  vtables := late.vtables.trans early.vtables
  strings := late.strings.trans early.strings
  finished := late.finished.trans early.finished
  forceDefaults := late.forceDefaults.trans early.forceDefaults

theorem size (pushed : Pushed before after front) :
    after.storage.size = front.length + before.storage.size := by
  rw [after.storage.size_eq, before.storage.size_eq, pushed.written, List.length_append]

theorem room_le (pushed : Pushed before after front) :
    before.storage.room ≤ front.length + after.storage.room := by
  have capacity := pushed.capacity
  have size := pushed.size
  simp only [Builder.capacity, Storage.capacity] at capacity
  omega

end Pushed

def Pushes (before after : Builder) : Prop := ∃ front, Pushed before after front

namespace Pushes

variable {before middle after : Builder}

theorem refl (builder : Builder) : Pushes builder builder := ⟨[], Pushed.refl builder⟩

theorem trans (early : Pushes before middle) (late : Pushes middle after) :
    Pushes before after := by
  rcases early with ⟨first, early⟩
  rcases late with ⟨second, late⟩
  exact ⟨second ++ first, early.trans late⟩

theorem fits (pushes : Pushes before after) (fits : before.capacity ≤ maxBufferSize) :
    after.capacity ≤ maxBufferSize := by
  rcases pushes with ⟨front, pushed⟩
  exact pushed.fits fits

theorem finished (pushes : Pushes before after) : after.finished = before.finished := by
  rcases pushes with ⟨front, pushed⟩
  exact pushed.finished

theorem openObject (pushes : Pushes before after) :
    after.openObject = before.openObject := by
  rcases pushes with ⟨front, pushed⟩
  exact pushed.openObject

end Pushes

theorem toNat_ofNat_of_size {size : Nat} (small : size ≤ maxBufferSize) :
    (UInt32.ofNat size).toNat = size := by
  have limit : maxBufferSize < 2 ^ 32 := by decide
  exact UInt32.toNat_ofNat_of_lt' (Nat.lt_of_le_of_lt small limit)

theorem Builder.size_le {builder : Builder} (fits : builder.capacity ≤ maxBufferSize) :
    builder.storage.size ≤ maxBufferSize :=
  Nat.le_trans (Nat.le_add_left _ builder.storage.room) fits

theorem Builder.toNat_head {builder : Builder} (fits : builder.capacity ≤ maxBufferSize) :
    builder.head.toNat = builder.storage.size :=
  toNat_ofNat_of_size (size_le fits)

namespace Build

variable {before after : Builder} {error : Refusal}

theorem makeRoom_apply (needed : Nat) (builder : Builder) :
    makeRoom needed builder =
      if builder.storage.room < needed then
        if addressLimit ≤ builder.storage.size + needed then
          .refused (.capacity ⟨addressLimit - 1⟩) builder
        else
          match capacityFor (builder.storage.size + needed) with
          | .error cause => .refused (.capacity cause) builder
          | .ok capacity =>
              .done () { builder with
                storage := builder.storage.grow (capacity - builder.storage.capacity) }
      else .done () builder := by
  unfold makeRoom
  rw [state_bind]
  split
  case isTrue short =>
    have wanted : builder.storage.capacity + (needed - builder.storage.room) =
        builder.storage.size + needed := by
      simp only [Storage.capacity]
      omega
    dsimp only
    rw [wanted]
    split
    case isTrue => rfl
    case isFalse => cases capacityFor (builder.storage.size + needed) <;> rfl
  case isFalse => rfl

theorem makeRoom_done {needed : Nat} (ran : makeRoom needed before = .done () after) :
    Pushed before after [] ∧ needed ≤ after.storage.room ∧ after.alignment = before.alignment := by
  rw [makeRoom_apply] at ran
  split at ran
  case isTrue short =>
    split at ran
    case isTrue => cases ran
    case isFalse =>
      cases found : capacityFor (before.storage.size + needed) with
      | error cause => simp [found] at ran
      | ok capacity =>
          rw [found] at ran
          cases ran
          have bounds := capacityFor_ok found
          have total : before.storage.capacity = before.storage.room + before.storage.size := rfl
          have grown : (before.storage.grow (capacity - before.storage.capacity)).capacity =
              capacity := by
            simp only [Storage.capacity, Storage.room_grow, Storage.size_grow]
            omega
          refine ⟨⟨rfl, ?_, ?_, Nat.le_refl _, id, rfl, rfl, rfl, rfl, rfl⟩, ?_, rfl⟩
          · simp only [Builder.capacity, grown]
            omega
          · intro _
            simp only [Builder.capacity, grown]
            exact bounds.2
          · simp only [Storage.room_grow]
            omega
  case isFalse long =>
    cases ran
    exact ⟨Pushed.refl _, Nat.le_of_not_lt long, rfl⟩

theorem makeRoom_refused {needed : Nat} (ran : makeRoom needed before = .refused error after) :
    after = before := by
  rw [makeRoom_apply] at ran
  split at ran
  case isTrue =>
    split at ran
    case isTrue =>
      cases ran
      rfl
    case isFalse =>
      cases found : capacityFor (before.storage.size + needed) with
      | error cause =>
          rw [found] at ran
          cases ran
          rfl
      | ok capacity => simp [found] at ran
  case isFalse => cases ran

theorem put_done {bytes : Bytes} (ran : put bytes before = .done () after) :
    Pushed before after bytes ∧ bytes.length ≤ before.storage.room ∧
      after.alignment = before.alignment := by
  simp only [put] at ran
  split at ran
  case isTrue => cases ran
  case isFalse fits =>
    cases ran
    have same := Storage.capacity_push (Nat.le_of_not_lt fits)
    refine ⟨⟨rfl, ?_, ?_, Nat.le_refl _, id, rfl, rfl, rfl, rfl, rfl⟩, Nat.le_of_not_lt fits, rfl⟩
    · simp only [Builder.capacity, same, Nat.le_refl]
    · simp only [Builder.capacity, same, imp_self]

theorem put_not_refused {bytes : Bytes} : put bytes before ≠ .refused error after := by
  simp only [put]
  split <;> simp

theorem pad_done_iff {count : Nat} :
    pad count before = .done () after ↔ put (zeros count) before = .done () after := by
  simp only [pad, put]
  rw [length_zeros]
  split <;> simp

theorem pad_not_refused {count : Nat} : pad count before ≠ .refused error after := by
  simp only [pad]
  split <;> simp

theorem pad_done {count : Nat} (ran : pad count before = .done () after) :
    Pushed before after (zeros count) ∧ count ≤ before.storage.room ∧
      after.alignment = before.alignment := by
  have pushed := put_done (pad_done_iff.mp ran)
  rwa [length_zeros] at pushed

theorem requireUnfinished_apply (builder : Builder) :
    requireUnfinished builder =
      if builder.finished then .refused .finished builder else .done () builder := by
  simp only [requireUnfinished]
  rw [state_bind]
  split <;> rfl

theorem requireNothingOpen_apply (builder : Builder) :
    requireNothingOpen builder =
      if builder.finished then .refused .finished builder
      else if builder.openObject ≠ .nothing then .refused .objectOpen builder
      else .done () builder := by
  simp only [requireNothingOpen]
  rw [bind_apply, requireUnfinished_apply]
  cases builder.finished with
  | true => rfl
  | false =>
      simp only [Bool.false_eq_true, if_false, state_bind]
      split <;> rfl

theorem requireNothingOpen_done (ran : requireNothingOpen before = .done () after) :
    after = before ∧ before.finished = false ∧ before.openObject = .nothing := by
  rw [requireNothingOpen_apply] at ran
  split at ran
  case isTrue => cases ran
  case isFalse unfinished =>
    split at ran
    case isTrue => cases ran
    case isFalse closed =>
      cases ran
      exact ⟨rfl, by simpa using unfinished, by simpa using closed⟩

theorem paddingTo_eq_zero {alignment written : Nat} (aligned : written % alignment = 0) :
    paddingTo alignment written = 0 := by
  rw [paddingTo, aligned, Nat.sub_zero, Nat.mod_self]

theorem add_paddingTo_mod {alignment : Nat} (positive : 0 < alignment) (written : Nat) :
    (written + paddingTo alignment written) % alignment = 0 := by
  have small : written % alignment ≤ alignment := Nat.le_of_lt (Nat.mod_lt _ positive)
  calc
    _ = (written + (alignment - written % alignment)) % alignment := Nat.add_mod_mod ..
    _ = (written % alignment + (alignment - written % alignment)) % alignment :=
      (Nat.mod_add_mod ..).symm
    _ = 0 := by rw [Nat.add_sub_cancel' small, Nat.mod_self]

theorem prepare_apply (size additional : Nat) (builder : Builder) :
    prepare size additional builder =
      if size.isPowerOfTwo then
        if builder.finished then .refused .finished builder
        else
          let raised := { builder with alignment := max builder.alignment size }
          let written := builder.storage.size + additional
          let needed := paddingTo size written + size + additional
          if addressLimit ≤ written then .refused (.capacity ⟨addressLimit - 1⟩) raised
          else if needed < addressLimit then
            (makeRoom needed >>= fun _ => pad (paddingTo size written)) raised
          else .fault .sumPastAddresses
      else .fault (.irregularAlignment size) := by
  simp only [prepare]
  rw [demand_bind]
  split
  case isFalse => rfl
  case isTrue =>
    rw [bind_apply, requireUnfinished_apply]
    by_cases finished : builder.finished = true
    · rw [if_pos finished, if_pos finished]
    · rw [if_neg finished, if_neg finished]
      simp only [update_bind, state_bind]
      split
      case isTrue => rfl
      case isFalse => exact demand_bind

theorem pushed_of_alignment (builder : Builder) {size : Nat} (regular : size.isPowerOfTwo) :
    Pushed builder { builder with alignment := max builder.alignment size } [] where
  written := rfl
  capacity := Nat.le_refl _
  fits := id
  alignment := Nat.le_max_left _ _
  levels power := isPowerOfTwo_max power regular
  openObject := rfl
  vtables := rfl
  strings := rfl
  finished := rfl
  forceDefaults := rfl

theorem prepare_steps {size additional : Nat}
    (ran : prepare size additional before = .done () after) :
    size.isPowerOfTwo ∧ before.finished = false ∧ ∃ middle,
      Pushed { before with alignment := max before.alignment size } middle [] ∧
      paddingTo size (before.storage.size + additional) + size + additional ≤ middle.storage.room ∧
      middle.alignment = max before.alignment size ∧
      pad (paddingTo size (before.storage.size + additional)) middle = .done () after := by
  rw [prepare_apply] at ran
  split at ran
  case isFalse => cases ran
  case isTrue regular =>
    split at ran
    case isTrue => cases ran
    case isFalse unfinished =>
      dsimp only at ran
      split at ran
      case isTrue => cases ran
      case isFalse =>
        split at ran
        case isFalse => cases ran
        case isTrue =>
          rcases done_bind.mp ran with ⟨_, middle, roomy, padded⟩
          obtain ⟨pushed, enough, level⟩ := makeRoom_done roomy
          exact ⟨regular, by simpa using unfinished, middle, pushed, enough, level, padded⟩

theorem prepare_regular {size additional : Nat}
    (ran : prepare size additional before = .done () after) : size.isPowerOfTwo :=
  (prepare_steps ran).1

theorem regular_of_prepare {size additional : Nat}
    (left : (prepare size additional before).Leaves after) : size.isPowerOfTwo := by
  rw [prepare_apply] at left
  split at left
  case isTrue regular => exact regular
  case isFalse => cases left

theorem prepare_done {size additional : Nat} (ran : prepare size additional before = .done () after) :
    before.finished = false ∧
      Pushed before after (zeros (paddingTo size (before.storage.size + additional))) := by
  obtain ⟨regular, unfinished, middle, roomy, -, -, padded⟩ := prepare_steps ran
  have pushed := ((pushed_of_alignment before regular).trans roomy).trans (pad_done padded).1
  rw [List.nil_append, List.append_nil] at pushed
  exact ⟨unfinished, pushed⟩

theorem prepare_mod {size additional : Nat}
    (ran : prepare size additional before = .done () after) :
    (after.storage.size + additional) % size = 0 := by
  have positive := Nat.pos_of_isPowerOfTwo (prepare_regular ran)
  have aligned := add_paddingTo_mod positive (before.storage.size + additional)
  rw [(prepare_done ran).2.size, length_zeros, ← aligned]
  congr 1
  omega

theorem prepare_room {size additional : Nat}
    (ran : prepare size additional before = .done () after) :
    size + additional ≤ after.storage.room := by
  obtain ⟨-, -, middle, -, enough, -, padded⟩ := prepare_steps ran
  have left := (pad_done padded).1.room_le
  rw [length_zeros] at left
  omega

theorem prepare_refused {size additional : Nat}
    (ran : prepare size additional before = .refused error after) :
    size.isPowerOfTwo ∧ after =
      if before.finished then before
      else { before with alignment := max before.alignment size } := by
  rw [prepare_apply] at ran
  split at ran
  case isFalse => cases ran
  case isTrue regular =>
    refine ⟨regular, ?_⟩
    split at ran
    case isTrue finished =>
      cases ran
      rw [if_pos finished]
    case isFalse unfinished =>
      rw [if_neg unfinished]
      dsimp only at ran
      split at ran
      case isTrue =>
        cases ran
        rfl
      case isFalse =>
        split at ran
        case isFalse => cases ran
        case isTrue =>
          rw [bind_apply] at ran
          cases roomy : makeRoom (paddingTo size (before.storage.size + additional) + size +
              additional) { before with alignment := max before.alignment size } with
          | done value middle =>
              rw [roomy] at ran
              exact absurd ran pad_not_refused
          | refused cause middle =>
              rw [roomy] at ran
              cases ran
              exact makeRoom_refused roomy
          | fault cause =>
              rw [roomy] at ran
              cases ran

theorem alignment_of_prepared {size additional : Nat}
    (ran : prepare size additional before = .done () after) :
    after.alignment = max before.alignment size := by
  obtain ⟨-, -, middle, -, -, level, padded⟩ := prepare_steps ran
  rw [(pad_done padded).2.2, level]

theorem alignment_of_prepare {size additional : Nat}
    (left : (prepare size additional before).Leaves after) :
    after.alignment = if before.finished then before.alignment else max before.alignment size := by
  cases ran : prepare size additional before with
  | done _ last =>
      rw [ran] at left
      cases left
      rw [alignment_of_prepared ran, (prepare_done ran).1, if_neg Bool.false_ne_true]
  | refused error last =>
      rw [ran] at left
      cases left
      rw [(prepare_refused ran).2]
      split <;> rfl
  | fault cause =>
      rw [ran] at left
      cases left

theorem prepare_covers {size additional : Nat}
    (ran : prepare size additional before = .done () after) : size ≤ after.alignment := by
  rw [alignment_of_prepared ran]
  exact Nat.le_max_right _ _

theorem addScalar_done {type : ScalarType} {value : type.Value}
    (ran : addScalar type value before = .done () after) :
    before.finished = false ∧ Pushed before after
      (type.encode value ++ zeros (paddingTo type.width before.storage.size)) := by
  rcases done_bind.mp ran with ⟨_, middle, prepared, put⟩
  obtain ⟨unfinished, pushed⟩ := prepare_done prepared
  exact ⟨unfinished, pushed.trans (put_done put).1⟩

theorem addReference_done {kind : Kind} {target : Offset kind}
    (ran : addReference target before = .done () after) :
    ∃ middle, before.finished = false ∧
      Pushed before middle (zeros (paddingTo referenceWidth before.storage.size)) ∧
      target.value ≤ middle.head ∧
      Pushed middle after (ScalarType.uint32.encode (middle.head - target.value + 4)) := by
  rcases done_bind.mp ran with ⟨_, middle, prepared, rest⟩
  obtain ⟨unfinished, pushed⟩ := prepare_done prepared
  rw [head_bind] at rest
  split at rest
  case isTrue => cases rest
  case isFalse reached =>
    exact ⟨middle, unfinished, pushed, UInt32.not_lt.mp reached, (put_done rest).1⟩

theorem moves_put (bytes : Bytes) (builder : Builder) : Moves Pushes (put bytes) builder :=
  .of_endings (fun _ _ ran => ⟨bytes, (put_done ran).1⟩) fun _ _ ran => absurd ran put_not_refused

theorem moves_pad (count : Nat) (builder : Builder) : Moves Pushes (pad count) builder :=
  .of_endings (fun _ _ ran => (moves_put _ builder).of_done (pad_done_iff.mp ran))
    fun _ _ ran => absurd ran pad_not_refused

theorem moves_prepare (size additional : Nat) (builder : Builder) :
    Moves Pushes (prepare size additional) builder := by
  apply Moves.of_endings
  · exact fun _ _ ran => ⟨_, (prepare_done ran).2⟩
  · intro _ after ran
    obtain ⟨regular, rfl⟩ := prepare_refused ran
    split
    case isTrue => exact Pushes.refl builder
    case isFalse => exact ⟨[], pushed_of_alignment builder regular⟩

theorem moves_addScalar (type : ScalarType) (value : type.Value) (builder : Builder) :
    Moves Pushes (addScalar type value) builder :=
  Moves.bind .trans (moves_prepare _ _ builder) fun _ middle _ => moves_put _ middle

theorem moves_addReference {kind : Kind} (target : Offset kind) (builder : Builder) :
    Moves Pushes (addReference target) builder := by
  apply Moves.bind .trans (moves_prepare _ _ builder)
  intro _ middle _
  apply Moves.head_bind
  split
  case isTrue => exact Moves.of_refuse (Pushes.refl middle) _
  case isFalse => exact moves_put _ middle

end Build

end WireTables
