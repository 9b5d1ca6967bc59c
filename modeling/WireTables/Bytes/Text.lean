import WireTables.Bytes.Basic

/-!
Text as UTF-8. `encodeText` is exact; `decodeText` accepts any bytes and puts U+FFFD in place of
each longest run of bytes that begins a character without completing it.
-/

namespace WireTables

def encodeText (text : String) : Bytes := text.toUTF8.data.toList

/-- The bits of the character that a leading byte carries, and the range of each byte that must
follow. The first range is narrower where a longer form of a shorter character, a surrogate or a
number past U+10FFFF would begin. -/
def characterStart (lead : Nat) : Option (Nat × List (Nat × Nat)) :=
  if lead ≤ 0x7F then some (lead, [])
  else if lead ≤ 0xC1 then none
  else if lead ≤ 0xDF then some (lead - 0xC0, [(0x80, 0xBF)])
  else if lead = 0xE0 then some (0, [(0xA0, 0xBF), (0x80, 0xBF)])
  else if lead = 0xED then some (0xD, [(0x80, 0x9F), (0x80, 0xBF)])
  else if lead ≤ 0xEF then some (lead - 0xE0, [(0x80, 0xBF), (0x80, 0xBF)])
  else if lead = 0xF0 then some (0, [(0x90, 0xBF), (0x80, 0xBF), (0x80, 0xBF)])
  else if lead ≤ 0xF3 then some (lead - 0xF0, [(0x80, 0xBF), (0x80, 0xBF), (0x80, 0xBF)])
  else if lead = 0xF4 then some (4, [(0x80, 0x8F), (0x80, 0xBF), (0x80, 0xBF)])
  else none

/-- The longest beginning of the bytes that stays inside the ranges, one range a byte. -/
def continuing : List (Nat × Nat) → Bytes → Bytes
  | (low, high) :: ranges, byte :: rest =>
      if low ≤ byte.toNat ∧ byte.toNat ≤ high then byte :: continuing ranges rest else []
  | _, _ => []

def replacement : Char := Char.ofNat 0xFFFD

def decodeCharacters : Bytes → List Char
  | [] => []
  | lead :: rest =>
      match characterStart lead.toNat with
      | none => replacement :: decodeCharacters rest
      | some (bits, ranges) =>
          let tail := continuing ranges rest
          let code := tail.foldl (fun code byte => code * 64 + byte.toNat % 64) bits
          (if tail.length = ranges.length then Char.ofNat code else replacement) ::
            decodeCharacters (rest.drop tail.length)
termination_by bytes => bytes.length
decreasing_by all_goals simp only [List.length_cons, List.length_drop]; omega

def decodeText (bytes : Bytes) : String := String.ofList (decodeCharacters bytes)

end WireTables
