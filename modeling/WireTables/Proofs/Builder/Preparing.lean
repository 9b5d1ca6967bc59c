import Mathlib.Data.Nat.ModEq
import Mathlib.Order.Bounds.Basic
import WireTables.Proofs.Builder.Alike
import WireTables.Proofs.Builder.Room

namespace WireTables

namespace Storage

@[simp] theorem push_nil (storage : Storage) : storage.push [] = storage :=
  ext_lists rfl rfl

end Storage

namespace Build

section Padding

variable {size : Nat}

theorem paddingTo_lt (positive : 0 < size) (written : Nat) : paddingTo size written < size :=
  Nat.mod_lt _ positive

theorem eq_paddingTo {written count : Nat} (small : count < size)
    (multiple : size ∣ written + count) : count = paddingTo size written := by
  have positive : 0 < size := Nat.zero_lt_of_lt small
  have aligned : size ∣ written + paddingTo size written :=
    Nat.dvd_of_mod_eq_zero (add_paddingTo_mod positive written)
  have same : count ≡ paddingTo size written [MOD size] :=
    Nat.ModEq.add_left_cancel' written
      ((Nat.modEq_zero_iff_dvd.mpr multiple).trans (Nat.modEq_zero_iff_dvd.mpr aligned).symm)
  exact same.eq_of_lt_of_lt small (paddingTo_lt positive written)

theorem isLeast_paddingTo (positive : 0 < size) (written additional : Nat) :
    IsLeast {count | size ∣ written + count + additional}
      (paddingTo size (written + additional)) := by
  constructor
  · rw [Set.mem_ofPred_eq, Nat.add_right_comm]
    exact Nat.dvd_of_mod_eq_zero (add_paddingTo_mod positive _)
  · intro count multiple
    rw [Set.mem_ofPred_eq, Nat.add_right_comm] at multiple
    have reduced : size ∣ written + additional + count % size := by
      rw [Nat.dvd_iff_mod_eq_zero, Nat.add_mod_mod]
      exact Nat.mod_eq_zero_of_dvd multiple
    rw [← eq_paddingTo (Nat.mod_lt count positive) reduced]
    exact Nat.mod_le count size

/-- In words of the machine the padding is what the mask of a power of two leaves of the negation.
-/
theorem toNat_neg_and_mask {exponent : Nat} (small : exponent < 64) (written : Nat) :
    (-UInt64.ofNat written &&& (UInt64.ofNat (2 ^ exponent) - 1)).toNat =
      paddingTo (2 ^ exponent) written := by
  have below : 2 ^ exponent < 2 ^ 64 := Nat.pow_lt_pow_right (by decide) small
  have divides : 2 ^ exponent ∣ 2 ^ 64 := Nat.pow_dvd_pow 2 (Nat.le_of_lt small)
  have positive : 0 < 2 ^ exponent := Nat.two_pow_pos exponent
  have mask : (UInt64.ofNat (2 ^ exponent) - 1).toNat = 2 ^ exponent - 1 := by
    rw [UInt64.toNat_sub_of_le, UInt64.toNat_ofNat_of_lt' below, UInt64.toNat_one]
    rw [UInt64.le_iff_toNat_le, UInt64.toNat_ofNat_of_lt' below, UInt64.toNat_one]
    exact positive
  rw [UInt64.toNat_and, mask, Nat.and_two_pow_sub_one_eq_mod]
  apply eq_paddingTo (Nat.mod_lt _ positive)
  -- a number and its negation come to a multiple of `2 ^ 64`, and so of every smaller power
  have cancels : 2 ^ 64 ∣ written + (-UInt64.ofNat written).toNat := by
    rw [UInt64.toNat_neg, UInt64.toNat_ofNat', Nat.dvd_iff_mod_eq_zero]
    exact add_paddingTo_mod (by decide) written
  rw [Nat.dvd_iff_mod_eq_zero, Nat.add_mod_mod]
  exact Nat.mod_eq_zero_of_dvd (Nat.dvd_trans divides cancels)

end Padding

section Prepare

variable {before after builder : Builder} {size additional : Nat}

theorem prepare_of_ready (regular : size.isPowerOfTwo) (fits : builder.capacity ≤ maxBufferSize)
    (unfinished : builder.finished = false) (covered : size ≤ builder.alignment)
    (aligned : (builder.storage.size + additional) % size = 0)
    (enough : size + additional ≤ builder.storage.room) :
    prepare size additional builder = .done () builder := by
  have limit : maxBufferSize < addressLimit := by decide
  have total : builder.capacity = builder.storage.room + builder.storage.size := rfl
  have raised : { builder with alignment := max builder.alignment size } = builder := by
    rw [Nat.max_eq_left covered]
  rw [prepare_apply, if_pos regular, if_neg (by simp [unfinished])]
  dsimp only
  rw [if_neg (by omega), raised, paddingTo_eq_zero aligned, Nat.zero_add, if_pos (by omega),
    bind_apply, makeRoom_apply, if_neg (Nat.not_lt.mpr enough)]
  simp [pad, zeros]

section Total

variable {total : Nat} (regular : size.isPowerOfTwo) (fits : builder.capacity ≤ maxBufferSize)
  (unfinished : builder.finished = false)
  (sum : builder.storage.size + paddingTo size (builder.storage.size + additional) + size +
    additional = total)

include regular fits unfinished sum

theorem prepare_of_le (small : total ≤ maxBufferSize) :
    ∃ after, prepare size additional builder = .done () after := by
  have limit : maxBufferSize < addressLimit := by decide
  let raised : Builder := { builder with alignment := max builder.alignment size }
  let needed := paddingTo size (builder.storage.size + additional) + size + additional
  have same : raised.storage.size + needed = total := by
    change builder.storage.size + needed = total
    omega
  obtain ⟨storage, roomy, -⟩ : ∃ storage,
      makeRoom needed raised = .done () { raised with storage } ∧ _ :=
    makeRoom_of_le fits (same.symm ▸ small)
  have room := (makeRoom_done roomy).2.1
  have padded : ∃ after, pad (paddingTo size (builder.storage.size + additional))
      { raised with storage } = .done () after :=
    ⟨_, if_neg (Nat.not_lt.mpr (Nat.le_trans (by omega) room))⟩
  rw [prepare_apply, if_pos regular, if_neg (by simp [unfinished])]
  dsimp only
  rw [if_neg (by omega), if_pos (by omega)]
  obtain ⟨after, padded⟩ := padded
  exact ⟨after, (bind_of_done roomy).trans padded⟩

theorem prepare_of_lt (large : maxBufferSize < total)
    (counted : builder.storage.size + additional < addressLimit →
      paddingTo size (builder.storage.size + additional) + size + additional < addressLimit) :
    prepare size additional builder = .refused (.capacity ⟨min total (addressLimit - 1)⟩)
      { builder with alignment := max builder.alignment size } := by
  have limit : 0 < addressLimit := by decide
  rw [prepare_apply, if_pos regular, if_neg (by simp [unfinished])]
  dsimp only
  split
  case isTrue far => rw [Nat.min_eq_right (by omega)]
  case isFalse near =>
    let raised : Builder := { builder with alignment := max builder.alignment size }
    let needed := paddingTo size (builder.storage.size + additional) + size + additional
    have same : raised.storage.size + needed = total := by
      change builder.storage.size + needed = total
      omega
    have short : makeRoom needed raised = _ := makeRoom_of_lt fits (same.symm ▸ large)
    rw [if_pos (counted (Nat.lt_of_not_le near))]
    refine (bind_of_refused short).trans ?_
    rw [same]
    split
    case isTrue far => rw [Nat.min_eq_right (by omega)]
    case isFalse near => rw [Nat.min_eq_left (by omega)]

end Total

theorem prepare_fault_iff (regular : size.isPowerOfTwo) (fits : builder.capacity ≤ maxBufferSize)
    (unfinished : builder.finished = false) :
    (∃ cause, prepare size additional builder = .fault cause) ↔
      builder.storage.size + additional < addressLimit ∧
        addressLimit ≤ paddingTo size (builder.storage.size + additional) + size + additional := by
  constructor
  · rintro ⟨cause, ran⟩
    by_contra counted
    rcases Nat.lt_or_ge maxBufferSize (builder.storage.size +
        paddingTo size (builder.storage.size + additional) + size + additional) with large | small
    · have refused := prepare_of_lt regular fits unfinished rfl large (by omega)
      cases ran.symm.trans refused
    · obtain ⟨after, done⟩ := prepare_of_le regular fits unfinished rfl small
      cases ran.symm.trans done
  · rintro ⟨near, far⟩
    rw [prepare_apply, if_pos regular, if_neg (by simp [unfinished])]
    dsimp only
    rw [if_neg (Nat.not_le.mpr near), if_neg (Nat.not_lt.mpr far)]
    exact ⟨_, rfl⟩

end Prepare

end Build

/-- Preparing pads by the least number that takes what was written and what is announced to a
multiple of the size. Unless these and `size` bytes more exceed the limit, that many zeros are in
front of what was written, which is as it was, there is room for the rest, and preparing for the
same again changes nothing. Otherwise it is refused, and only the alignment is raised. It is a fault
just where the padding takes the sum past all that can be counted. -/
theorem prepare_exact {builder : Builder} (fits : builder.capacity ≤ maxBufferSize)
    (unfinished : builder.finished = false) {size : Nat} (power : size.isPowerOfTwo)
    (additional : Nat) :
    ∃ padding total : Nat,
      IsLeast {count : Nat | size ∣ builder.storage.size + count + additional} padding ∧
      padding < size ∧ total = builder.storage.size + padding + size + additional ∧
      ((∃ cause, (Call.prepare size additional).step builder = .error cause) ↔
        builder.storage.size + additional < addressLimit ∧
          addressLimit ≤ padding + size + additional) ∧
      ∀ (answer : Answer) (after : Builder),
        (Call.prepare size additional).step builder = .ok (answer, after) →
          ((∃ cause, answer = .error (.capacity cause)) ↔ maxBufferSize < total) ∧
          (∀ error, answer = .error error → error = .capacity ⟨min total (addressLimit - 1)⟩ ∧
            after = { builder with alignment := max builder.alignment size }) ∧
          (∀ reply, answer = .ok reply →
            Pushed builder after (zeros padding) ∧ after.alignment = max builder.alignment size ∧
            size + additional ≤ after.storage.room ∧
            (Call.prepare size additional).step after = .ok (answer, after)) := by
  have positive : 0 < size := Nat.pos_of_isPowerOfTwo power
  let padding := Build.paddingTo size (builder.storage.size + additional)
  let total := builder.storage.size + padding + size + additional
  have least := Build.isLeast_paddingTo positive builder.storage.size additional
  have below : padding < size := Build.paddingTo_lt positive _
  have faults : (∃ cause, (Call.prepare size additional).step builder = .error cause) ↔
      builder.storage.size + additional < addressLimit ∧
        addressLimit ≤ padding + size + additional := by
    simp only [Call.step_error, Call.run, Build.quietly, Call.replying_fault]
    exact Build.prepare_fault_iff power fits unfinished
  refine ⟨padding, total, least, below, rfl, faults, fun answer after stepped => ?_⟩
  rcases Nat.lt_or_ge maxBufferSize total with large | small
  · have counted : builder.storage.size + additional < addressLimit →
        padding + size + additional < addressLimit := by
      intro near
      by_contra far
      obtain ⟨cause, faulted⟩ := faults.mpr ⟨near, Nat.le_of_not_lt far⟩
      cases faulted.symm.trans stepped
    have refused : (Call.prepare size additional).step builder = _ := Call.step_of_refused
      (Call.replying_of_refused (Build.prepare_of_lt power fits unfinished rfl large counted))
    cases stepped.symm.trans refused
    refine ⟨⟨fun _ => large, fun _ => ⟨_, rfl⟩⟩, ?_, nofun⟩
    rintro error ⟨⟩
    exact ⟨rfl, rfl⟩
  · obtain ⟨last, ran⟩ := Build.prepare_of_le power fits unfinished rfl small
    obtain ⟨-, pushed⟩ := Build.prepare_done ran
    have ready := Build.prepare_of_ready power (pushed.fits fits)
      (pushed.finished.trans unfinished) (Build.prepare_covers ran) (Build.prepare_mod ran)
      (Build.prepare_room ran)
    have goes : ∀ {before after : Builder}, Build.prepare size additional before = .done () after →
        (Call.prepare size additional).step before = .ok (.ok .nothing, after) :=
      fun done => Call.step_of_done (Call.replying_of_done done)
    cases stepped.symm.trans (goes ran)
    refine ⟨⟨?_, fun large => absurd small (Nat.not_le.mpr large)⟩, nofun, ?_⟩
    · rintro ⟨cause, ⟨⟩⟩
    · intro reply _
      exact ⟨pushed, Build.alignment_of_prepared ran, Build.prepare_room ran, goes ready⟩

theorem prepare_exact_of_byte :
    ∃ builder ready refused : Builder,
      (Call.add .uint8 (7 : UInt8)).step (.ofOptions ⟨8, false⟩) = .ok (.ok .nothing, builder) ∧
      (∃ answer, (Call.prepare 8 3).step builder = .ok (answer, ready) ∧
        ready.storage.written = [0, 0, 0, 0, 7] ∧ 11 ≤ ready.storage.room ∧
        (Call.prepare 8 3).step ready = .ok (answer, ready)) ∧
      (Call.prepare 4 (2 ^ 31)).step builder =
        .ok (.error (.capacity ⟨2 ^ 31 + 8⟩), refused) ∧
      refused.storage = builder.storage ∧
      ∃ cause, (Call.prepare (2 ^ 63) (2 ^ 63)).step builder = .error cause := by
  have added : ∃ builder : Builder,
      (Call.add .uint8 (7 : UInt8)).step (.ofOptions ⟨8, false⟩) = .ok (.ok .nothing, builder) ∧
      builder.storage.written = [7] ∧ builder.storage.size = 1 ∧ builder.finished = false ∧
      builder.capacity ≤ maxBufferSize := ⟨_, rfl, rfl, rfl, rfl, by decide⟩
  obtain ⟨builder, added, written, size, unfinished, fits⟩ := added
  obtain ⟨padding, total, ⟨multiple, -⟩, below, sum, counted, goes⟩ :=
    prepare_exact fits unfinished (⟨3, rfl⟩ : Nat.isPowerOfTwo 8) 3
  obtain ⟨more, large, ⟨multipleToo, -⟩, belowToo, sumToo, countedToo, goesToo⟩ :=
    prepare_exact fits unfinished (⟨2, rfl⟩ : Nat.isPowerOfTwo 4) (2 ^ 31)
  obtain ⟨most, -, ⟨multipleLast, -⟩, belowLast, -, countedLast, -⟩ :=
    prepare_exact fits unfinished (⟨63, rfl⟩ : Nat.isPowerOfTwo (2 ^ 63)) (2 ^ 63)
  rw [Set.mem_ofPred_eq, size] at multiple multipleToo multipleLast
  rw [size] at counted countedToo countedLast
  obtain rfl : padding = 4 := by omega
  obtain rfl : more = 3 := by omega
  have limit : 16 < maxBufferSize ∧ maxBufferSize < 2 ^ 31 := by decide
  have addresses : addressLimit = 2 ^ 64 := rfl
  have answered {call : Call} (safe : ¬∃ cause, call.step builder = .error cause) :
      ∃ answer after, call.step builder = .ok (answer, after) := by
    cases ran : call.step builder with
    | error cause => exact absurd ⟨cause, ran⟩ safe
    | ok stage => exact ⟨stage.1, stage.2, rfl⟩
  obtain ⟨answer, ready, prepared⟩ := answered (counted.not.mpr (by omega))
  obtain ⟨other, refused, ran⟩ := answered (countedToo.not.mpr (by omega))
  obtain ⟨exceeds, refusal, done⟩ := goes answer ready prepared
  obtain ⟨exceedsToo, refusalToo, -⟩ := goesToo other refused ran
  refine ⟨builder, ready, refused, added, ⟨answer, prepared, ?_⟩, ?_, ?_⟩
  · cases answer with
    | ok reply =>
        obtain ⟨pushed, -, enough, again⟩ := done reply rfl
        exact ⟨pushed.written.trans (by rw [written]; rfl), enough, again⟩
    | error error =>
        obtain ⟨rfl, -⟩ := refusal error rfl
        have := exceeds.mp ⟨_, rfl⟩
        omega
  · obtain ⟨cause, rfl⟩ := exceedsToo.mpr (by omega)
    obtain ⟨same, rfl⟩ := refusalToo _ rfl
    obtain rfl : large = 2 ^ 31 + 8 := by omega
    rw [same] at ran
    exact ran
  · obtain ⟨cause, rfl⟩ := exceedsToo.mpr (by omega)
    obtain ⟨-, rfl⟩ := refusalToo _ rfl
    exact ⟨rfl, countedLast.mpr (by omega)⟩

end WireTables
