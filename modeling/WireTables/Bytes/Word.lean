import WireTables.Bytes.Basic

namespace WireTables

def encodeWord : Nat → Nat → Bytes
  | 0, _ => []
  | width + 1, value => UInt8.ofNat value :: encodeWord width (value / 256)

def decodeWord : Bytes → Nat
  | [] => 0
  | byte :: rest => byte.toNat + 256 * decodeWord rest

@[simp] theorem length_encodeWord (width value : Nat) :
    (encodeWord width value).length = width := by
  induction width generalizing value with
  | zero => rfl
  | succ width ih => simp [encodeWord, ih]

theorem decodeWord_encodeWord (width value : Nat) :
    decodeWord (encodeWord width value) = value % Nat.pow 256 width := by
  induction width generalizing value with
  | zero => exact (Nat.mod_one value).symm
  | succ width ih =>
      have byte : (UInt8.ofNat value).toNat = value % 256 := by simp
      have wider : Nat.pow 256 (width + 1) = 256 * Nat.pow 256 width := Nat.mul_comm _ _
      rw [encodeWord, decodeWord, ih, byte, wider, Nat.mod_mul]

theorem encodeWord_decodeWord (bytes : Bytes) :
    encodeWord bytes.length (decodeWord bytes) = bytes := by
  induction bytes with
  | nil => rfl
  | cons byte rest ih =>
      have small : byte.toNat < 256 := byte.toNat_lt
      have high : (byte.toNat + 256 * decodeWord rest) / 256 = decodeWord rest := by omega
      have low : UInt8.ofNat (byte.toNat + 256 * decodeWord rest) = byte := by
        apply UInt8.toNat_inj.1
        simp only [UInt8.toNat_ofNat']
        omega
      simp only [List.length_cons, decodeWord, encodeWord, high, low, ih]

theorem decodeWord_lt (bytes : Bytes) : decodeWord bytes < Nat.pow 256 bytes.length := by
  have same := congrArg decodeWord (encodeWord_decodeWord bytes)
  rw [decodeWord_encodeWord] at same
  rw [← same]
  exact Nat.mod_lt _ (Nat.pow_pos (by decide))

end WireTables
