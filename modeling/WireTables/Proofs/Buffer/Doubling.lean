import Mathlib.Algebra.Group.Nat.Defs
import Mathlib.Data.Nat.Find
import Mathlib.Data.PFun
import Mathlib.Order.Bounds.Basic
import WireTables.Proofs.Buffer.Growth

/-!
The loop that finds the size to which storage grows. It begins with eight bytes and doubles them
until they cover the request; where a mask shows that the size has reached `2 ^ 30`, the largest size
comes next instead. After each turn the size is thus the doubled one or the largest, whichever is
less. The loop ends at the first such size that covers the request, and that is what the row of sizes
holds. It would not end for a request past the largest size, which is refused before the first turn.
-/

namespace WireTables

def nextSize (size : UInt64) : UInt64 :=
  if size &&& 0xC0000000 ≠ 0 then .ofNat maxBufferSize else size <<< 1

/-- Takes turns until the request is covered. There is no result where that never happens. -/
def coverFrom (requested : UInt64) : UInt64 →. UInt64 :=
  PFun.fix fun size => .some (if size < requested then .inr (nextSize size) else .inl size)

def sizeAfter (turns : Nat) : Nat := min (smallestCapacity * 2 ^ turns) maxBufferSize

def Covering (requested : Nat) : Set Nat := {turns | requested ≤ sizeAfter turns}

section Turn

variable {requested size : UInt64} {turns : Nat}

theorem coverFrom_of_le (covered : requested.toNat ≤ size.toNat) :
    coverFrom requested size = .some size := by
  refine Part.eq_some_iff.mpr (PFun.fix_stop ?_)
  rw [if_neg (UInt64.not_lt.mpr covered)]
  exact Part.mem_some _

theorem coverFrom_of_lt (short : size.toNat < requested.toNat) :
    coverFrom requested size = coverFrom requested (nextSize size) := by
  refine PFun.fix_fwd_eq ?_
  rw [if_pos (UInt64.lt_iff_toNat_lt.mpr short)]
  exact Part.mem_some _

theorem sizeAfter_le (turns : Nat) : sizeAfter turns ≤ maxBufferSize := Nat.min_le_right ..

theorem toNat_ofNat_sizeAfter (turns : Nat) :
    (UInt64.ofNat (sizeAfter turns)).toNat = sizeAfter turns := by
  rw [UInt64.toNat_ofNat']
  exact Nat.mod_eq_of_lt (Nat.lt_of_le_of_lt (sizeAfter_le turns) (by decide))

theorem sizeAfter_succ (turns : Nat) :
    sizeAfter (turns + 1) =
      if sizeAfter turns < 2 ^ 30 then 2 * sizeAfter turns else maxBufferSize := by
  have power : smallestCapacity * 2 ^ turns = 2 ^ (turns + 3) := by
    rw [smallestCapacity, Nat.pow_add, Nat.mul_comm]
  have doubled : smallestCapacity * 2 ^ (turns + 1) = 2 * 2 ^ (turns + 3) := by
    calc smallestCapacity * 2 ^ (turns + 1)
        = smallestCapacity * 2 ^ turns * 2 := by rw [Nat.pow_succ, Nat.mul_assoc]
      _ = 2 * 2 ^ (turns + 3) := by rw [power, Nat.mul_comm]
  rw [sizeAfter, sizeAfter, power, doubled, maxBufferSize]
  rcases Nat.lt_or_ge (2 ^ (turns + 3)) (2 ^ 30) with low | high
  · -- a power of two below `2 ^ 30` is at most half of it, so doubling it stays below the largest size
    have below : turns + 3 < 30 := (Nat.pow_lt_pow_iff_right (by decide)).mp low
    have half : 2 ^ (turns + 3) ≤ 2 ^ 29 := Nat.pow_le_pow_right (by decide) (by omega)
    rw [if_pos (by omega)]
    omega
  · rw [if_neg (by omega)]
    omega

theorem and_highBits (size : Nat) : size &&& 0xC0000000 = 2 ^ 30 * (size / 2 ^ 30 % 4) := by
  have high : (size &&& 0xC0000000) / 2 ^ 30 = size / 2 ^ 30 % 4 := by
    rw [← Nat.shiftRight_eq_div_pow, Nat.shiftRight_and_distrib, Nat.shiftRight_eq_div_pow]
    exact Nat.and_two_pow_sub_one_eq_mod _ 2
  have low : (size &&& 0xC0000000) % 2 ^ 30 = 0 := by
    rw [Nat.and_mod_two_pow]
    exact Nat.and_zero _
  calc size &&& 0xC0000000
      = 2 ^ 30 * ((size &&& 0xC0000000) / 2 ^ 30) + (size &&& 0xC0000000) % 2 ^ 30 :=
        (Nat.div_add_mod _ _).symm
    _ = 2 ^ 30 * (size / 2 ^ 30 % 4) := by rw [high, low, Nat.add_zero]

theorem toNat_nextSize (small : size.toNat ≤ maxBufferSize) :
    (nextSize size).toNat = if size.toNat < 2 ^ 30 then 2 * size.toNat else maxBufferSize := by
  have mask : (size &&& 0xC0000000).toNat = 2 ^ 30 * (size.toNat / 2 ^ 30 % 4) := by
    rw [UInt64.toNat_and]
    exact and_highBits size.toNat
  rw [maxBufferSize] at small
  rw [nextSize]
  rcases Nat.lt_or_ge size.toNat (2 ^ 30) with low | high
  · have clear : size &&& 0xC0000000 = 0 := by
      apply UInt64.toNat_inj.mp
      rw [mask, Nat.div_eq_of_lt low]
      rfl
    rw [if_neg (not_not.mpr clear), if_pos low, UInt64.toNat_shiftLeft]
    change size.toNat <<< 1 % 2 ^ 64 = _
    rw [Nat.shiftLeft_eq]
    omega
  · have reached : size &&& 0xC0000000 ≠ 0 := by
      intro clear
      rw [clear] at mask
      have zero : (0 : UInt64).toNat = 0 := rfl
      omega
    rw [if_pos reached, if_neg (Nat.not_lt.mpr high)]
    rfl

theorem toNat_nextSize_of_sizeAfter (reached : size.toNat = sizeAfter turns) :
    (nextSize size).toNat = sizeAfter (turns + 1) := by
  rw [toNat_nextSize (reached ▸ sizeAfter_le turns), reached, sizeAfter_succ]

end Turn

section Loop

variable {requested size : UInt64} {begun turns : Nat}

theorem coverFrom_of_least (least : IsLeast (Covering requested.toNat) turns)
    (early : begun ≤ turns) (reached : size.toNat = sizeAfter begun) :
    coverFrom requested size = .some (.ofNat (sizeAfter turns)) := by
  -- each turn leaves one fewer until the request is covered
  induction left : turns - begun generalizing begun size with
  | zero =>
      obtain rfl : begun = turns := by omega
      rw [coverFrom_of_le (reached ▸ least.1), ← reached, UInt64.ofNat_toNat]
  | succ left ih =>
      have short : size.toNat < requested.toNat := by
        refine Nat.not_le.mp fun covered => ?_
        rw [reached] at covered
        have first : turns ≤ begun := least.2 covered
        omega
      rw [coverFrom_of_lt short]
      exact ih (by omega) (toNat_nextSize_of_sizeAfter reached) (by omega)

theorem coverFrom_eq_none (past : maxBufferSize < requested.toNat)
    (reached : size.toNat = sizeAfter begun) : coverFrom requested size = .none := by
  refine Part.eq_none_iff.mpr fun last ends => ?_
  -- the induction is on the turns up to the last one, and each of them is followed by another
  refine PFun.fixInduction (C := fun size => ∀ begun, size.toNat = sizeAfter begun → False) ends
    ?_ begun reached
  intro size _ ih begun reached
  have short : size.toNat < requested.toNat :=
    Nat.lt_of_le_of_lt (reached ▸ sizeAfter_le begun) past
  refine ih (nextSize size) ?_ (begun + 1) (toNat_nextSize_of_sizeAfter reached)
  rw [if_pos (UInt64.lt_iff_toNat_lt.mpr short)]
  exact Part.mem_some _

theorem exists_least {requested : Nat} (fits : requested ≤ maxBufferSize) :
    ∃ turns, IsLeast (Covering requested) turns := by
  have covered : ∃ turns, requested ≤ sizeAfter turns := ⟨28, fits⟩
  exact ⟨Nat.find covered, Nat.find_spec covered, fun _ => Nat.find_min' covered⟩

/-- The loop ends just where the request is not past the largest size. -/
theorem coverFrom_dom_iff (requested : UInt64) :
    (coverFrom requested (.ofNat smallestCapacity)).Dom ↔ requested.toNat ≤ maxBufferSize := by
  have begins : (UInt64.ofNat smallestCapacity).toNat = sizeAfter 0 := rfl
  constructor
  · intro ends
    refine Nat.not_lt.mp fun past => ?_
    rw [coverFrom_eq_none past begins] at ends
    exact ends
  · intro fits
    obtain ⟨turns, least⟩ := exists_least fits
    rw [coverFrom_of_least least (Nat.zero_le _) begins]
    trivial

end Loop

theorem capacities_eq : capacities = (List.range 29).map sizeAfter := by decide

theorem capacityFor_of_least {requested turns : Nat} (least : IsLeast (Covering requested) turns) :
    capacityFor requested = .ok (sizeAfter turns) := by
  have within : turns ≤ 28 := least.2 (Nat.le_trans least.1 (sizeAfter_le turns))
  have first : (List.range 29).find? (requested ≤ sizeAfter ·) = some turns := by
    refine List.find?_range_eq_some.mpr ⟨?_, List.mem_range.mpr (by omega), fun earlier before => ?_⟩
    · exact decide_eq_true least.1
    · have short : ¬requested ≤ sizeAfter earlier := fun covered =>
        Nat.not_lt.mpr (least.2 covered) before
      simpa using short
  have found : capacities.find? (requested ≤ ·) = some (sizeAfter turns) := by
    rw [capacities_eq, List.find?_map]
    exact congrArg (Option.map sizeAfter) first
  rw [capacityFor, found]

end WireTables
