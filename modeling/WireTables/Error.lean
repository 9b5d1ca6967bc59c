import WireTables.Layout

namespace WireTables

structure GrowthError where
  requested : Nat
  deriving DecidableEq, Repr

inductive Refusal
  | capacity (cause : GrowthError)
  | missingField (slot : Slot)
  | badIdentifier (length : Nat)
  | objectOpen
  | nothingOpen
  | noSuchField (slot : Slot) (fields : Nat)
  | dangling (offset head : UInt32)
  | structApart (offset head : UInt32)
  | tableTooLarge (size : Nat)
  | notFinished
  | finished
  deriving DecidableEq, Repr

inductive OpenError
  | tooShort (needed length : Nat)
  | outside (position length : Nat)
  | badIdentifier (length : Nat)
  deriving DecidableEq, Repr

def GrowthError.message (error : GrowthError) : String :=
  s!"cannot grow buffer to {error.requested} bytes (limit is {maxBufferSize} bytes)"

def identifierMessage (length : Nat) : String :=
  s!"file identifier must be 4 ASCII characters, got {length} bytes"

def Refusal.message : Refusal → String
  | .capacity cause => cause.message
  | .missingField slot => s!"required field at vtable slot {slot} was not set"
  | .badIdentifier length => identifierMessage length
  | .objectOpen => "cannot start an object while another table or vector is open"
  | .nothingOpen => "no table or vector is open"
  | .noSuchField slot fields =>
      s!"vtable slot {slot} is outside the {fields} fields of the open table"
  | .dangling offset head =>
      s!"offset {offset} refers past the builder head at {head}"
  | .structApart offset head =>
      s!"struct at offset {offset} is not at the builder head {head}"
  | .tableTooLarge size => s!"table of {size} bytes does not fit 16-bit vtable offsets"
  | .notFinished => "buffer has not been finished"
  | .finished => "buffer is already finished; clear the builder to build another"

def OpenError.message : OpenError → String
  | .tooShort needed length => s!"buffer too short: need {needed} bytes, have {length}"
  | .outside position length =>
      s!"position {position} is outside the buffer of {length} bytes"
  | .badIdentifier length => identifierMessage length

end WireTables
