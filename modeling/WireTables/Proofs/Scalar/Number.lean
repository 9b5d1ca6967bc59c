import Mathlib.Algebra.Group.Nat.Defs
import Mathlib.Data.Int.Order.Basic
import Mathlib.Order.Monotone.Basic
import WireTables.Scalar.Order

namespace WireTables

/-- How far from zero a floating point number lies, counted in the least one that does. An exponent
of all ones without a fraction is infinity, which counts as the number behind the largest. -/
def floatMagnitude (fractionBits bits : Nat) : Nat :=
  let fraction := bits % 2 ^ fractionBits
  let exponent := bits / 2 ^ fractionBits
  if exponent = 0 then fraction else (2 ^ fractionBits + fraction) * 2 ^ (exponent - 1)

/-- With a fraction, an exponent of all ones is no number. -/
def floatNumber (fractionBits exponentBits bits : Nat) : Option Int :=
  let negative := 2 ^ (fractionBits + exponentBits) ≤ bits
  let bits := bits % 2 ^ (fractionBits + exponentBits)
  if bits / 2 ^ fractionBits = 2 ^ exponentBits - 1 ∧ bits % 2 ^ fractionBits ≠ 0 then none
  else if negative then some (-(floatMagnitude fractionBits bits : Int))
  else some (floatMagnitude fractionBits bits)

theorem floatMagnitude_zero (fractionBits : Nat) : floatMagnitude fractionBits 0 = 0 := by
  simp [floatMagnitude]

theorem floatMagnitude_strictMono (fractionBits : Nat) : StrictMono (floatMagnitude fractionBits) := by
  apply strictMono_nat_of_lt_succ
  intro bits
  have positive : 0 < 2 ^ fractionBits := Nat.two_pow_pos _
  have split := Nat.div_add_mod bits (2 ^ fractionBits)
  have below := Nat.mod_lt bits positive
  simp only [floatMagnitude]
  generalize bits / 2 ^ fractionBits = exponent at split
  generalize bits % 2 ^ fractionBits = fraction at split below
  subst split
  by_cases inside : fraction + 1 < 2 ^ fractionBits
  · -- the next number has the same exponent
    rw [Nat.add_assoc, Nat.mul_add_mod, Nat.mod_eq_of_lt inside, Nat.mul_add_div positive,
      Nat.div_eq_of_lt inside, Nat.add_zero]
    split
    case isTrue => exact Nat.lt_succ_self _
    case isFalse => exact Nat.mul_lt_mul_of_pos_right (by omega) (Nat.two_pow_pos _)
  · -- it is the first one with the next exponent
    have whole : fraction + 1 = 2 ^ fractionBits := by omega
    rw [Nat.add_assoc, whole, ← Nat.mul_succ, Nat.mul_mod_right, Nat.mul_div_cancel_left _ positive,
      if_neg (Nat.succ_ne_zero exponent), Nat.add_zero, Nat.succ_sub_one]
    split
    case isTrue none =>
      rw [none, Nat.pow_zero, Nat.mul_one]
      exact below
    case isFalse some =>
      obtain ⟨less, rfl⟩ := Nat.exists_eq_succ_of_ne_zero some
      rw [Nat.succ_sub_one, Nat.pow_succ, Nat.mul_comm (2 ^ less), ← Nat.mul_assoc]
      exact Nat.mul_lt_mul_of_pos_right (by omega) (Nat.two_pow_pos _)

def floatScale (fractionBits : Nat) : Int → Int
  | .ofNat distance => floatMagnitude fractionBits distance
  | .negSucc distance => -(floatMagnitude fractionBits (distance + 1) : Int)

theorem floatScale_neg (fractionBits distance : Nat) :
    floatScale fractionBits (-(distance : Int)) = -(floatMagnitude fractionBits distance : Int) := by
  cases distance with
  | zero =>
      change ((floatMagnitude fractionBits 0 : Nat) : Int) = _
      rw [floatMagnitude_zero]
      rfl
  | succ distance => rfl

theorem floatScale_lt (fractionBits : Nat) {low high : Int} (less : low < high) :
    floatScale fractionBits low < floatScale fractionBits high := by
  have grows := floatMagnitude_strictMono fractionBits
  refine strictMono_int_of_lt_succ (fun rank => ?_) less
  cases rank with
  | ofNat distance => exact Int.ofNat_lt.mpr (grows (Nat.lt_succ_self distance))
  | negSucc distance =>
      have next : Int.negSucc distance + 1 = -(distance : Int) := by omega
      rw [next, floatScale_neg]
      exact Int.neg_lt_neg (Int.ofNat_lt.mpr (grows (Nat.lt_succ_self distance)))

theorem floatNumber_eq {fractionBits exponentBits signBit infinity bits : Nat}
    (sign : signBit = 2 ^ (fractionBits + exponentBits))
    (last : infinity = (2 ^ exponentBits - 1) * 2 ^ fractionBits) :
    floatNumber fractionBits exponentBits bits =
      (floatRank signBit infinity bits).map (floatScale fractionBits) := by
  have positive : 0 < 2 ^ fractionBits := Nat.two_pow_pos _
  have below : bits % signBit < signBit := Nat.mod_lt _ (sign ▸ Nat.two_pow_pos _)
  have none : infinity < bits % signBit ↔
      bits % signBit / 2 ^ fractionBits = 2 ^ exponentBits - 1 ∧
        bits % signBit % 2 ^ fractionBits ≠ 0 := by
    have split := Nat.div_add_mod (bits % signBit) (2 ^ fractionBits)
    have rest := Nat.mod_lt (bits % signBit) positive
    have limit : bits % signBit / 2 ^ fractionBits < 2 ^ exponentBits := by
      rw [Nat.div_lt_iff_lt_mul positive, Nat.mul_comm, ← Nat.pow_add, ← sign]
      exact below
    rw [last]
    generalize bits % signBit / 2 ^ fractionBits = exponent at split limit
    generalize bits % signBit % 2 ^ fractionBits = fraction at split rest
    rw [← split, Nat.mul_comm]
    constructor
    · intro beyond
      have high : 2 ^ exponentBits - 1 ≤ exponent := by
        by_contra low
        have lower : exponent + 1 ≤ 2 ^ exponentBits - 1 := by omega
        have bound := Nat.mul_le_mul_left (2 ^ fractionBits) lower
        rw [Nat.mul_succ] at bound
        omega
      have same : exponent = 2 ^ exponentBits - 1 := by omega
      exact ⟨same, by rw [same] at beyond; omega⟩
    · rintro ⟨rfl, some⟩
      omega
  simp only [floatNumber, floatRank, ← sign, ← none]
  split
  case isTrue => rfl
  case isFalse =>
    by_cases negative : signBit ≤ bits
    · rw [if_pos negative, if_neg (Nat.not_lt.mpr negative), Option.map_some, floatScale_neg]
    · rw [if_neg negative, if_pos (Nat.lt_of_not_le negative), Option.map_some]
      rfl

namespace ScalarType

/-- The number that a value stands for, unless it is NaN. -/
def number : (type : ScalarType) → type.Value → Option Int
  | .bool, value => some (if value then 1 else 0)
  | .int8, value => some value.toInt
  | .uint8, value => some value.toNat
  | .int16, value => some value.toInt
  | .uint16, value => some value.toNat
  | .int32, value => some value.toInt
  | .uint32, value => some value.toNat
  | .int64, value => some value.toInt
  | .uint64, value => some value.toNat
  | .float32, value => floatNumber 23 8 value.bits.toNat
  | .float64, value => floatNumber 52 11 value.bits.toNat

/-- Ranks grow with the numbers. -/
theorem number_eq_rank (type : ScalarType) :
    ∃ scale : Int → Int, (∀ {low high}, low < high → scale low < scale high) ∧
      ∀ value : type.Value, type.number value = (type.rank value).map scale := by
  cases type with
  | bool => exact ⟨id, id, fun value => by cases value <;> rfl⟩
  | float32 => exact ⟨_, floatScale_lt 23, fun value => floatNumber_eq rfl rfl⟩
  | float64 => exact ⟨_, floatScale_lt 52, fun value => floatNumber_eq rfl rfl⟩
  | _ => exact ⟨id, id, fun value => rfl⟩

/-- Values are ordered by the numbers they stand for. -/
theorem order_eq_compare {type : ScalarType} {left right : type.Value} {low high : Int}
    (first : type.number left = some low) (second : type.number right = some high) :
    type.order left right = compare low high := by
  obtain ⟨scale, grows, same⟩ := type.number_eq_rank
  rw [same] at first second
  obtain ⟨lowRank, leftRank, rfl⟩ := Option.map_eq_some_iff.mp first
  obtain ⟨highRank, rightRank, rfl⟩ := Option.map_eq_some_iff.mp second
  rw [order, leftRank, rightRank]
  rcases Int.lt_trichotomy lowRank highRank with below | rfl | above
  · exact (Int.compare_eq_lt.mpr below).trans (Int.compare_eq_lt.mpr (grows below)).symm
  · exact (Int.compare_eq_eq.mpr rfl).trans (Int.compare_eq_eq.mpr rfl).symm
  · exact (Int.compare_eq_gt.mpr above).trans (Int.compare_eq_gt.mpr (grows above)).symm

/-- One, of which the least positive number is the 149th half. -/
example : ScalarType.float32.number ⟨0x3f800000⟩ = some (2 ^ 149) := by decide +kernel

end ScalarType

end WireTables
