import WireTables.Options.Basic
import WireTables.Options.Token

namespace WireTables

open Json

namespace BuilderOptions

def toJson (options : BuilderOptions) : String :=
  "\x7b\"initial_capacity\":" ++ toString options.initialCapacity ++
    ",\"force_defaults\":" ++ boolText options.forceDefaults ++ "\x7d"

structure Given where
  initialCapacity : Option Nat
  forceDefaults : Option Bool
  deriving DecidableEq, Repr

def Given.complete (given : Given) : BuilderOptions where
  initialCapacity := given.initialCapacity.getD standard.initialCapacity
  forceDefaults := given.forceDefaults.getD standard.forceDefaults

/-- A capacity is a whole number in plain digits. -/
def readCapacity : List Token → Option Nat
  | [.number text] =>
      let value := text.foldl (fun value digit => value * 10 + (digit.toNat - '0'.toNat)) 0
      if text.all Char.isDigit && value < addressLimit then some value else none
  | _ => none

def readFlag : List Token → Option Bool
  | [.bool value] => some value
  | _ => none

def readEntry (given : Given) : List Token → Option Given
  | .string parts :: .colon :: value => do
      let key ← characters parts
      if key = "initial_capacity".toList then
        if given.initialCapacity.isSome then none
        else do
          let capacity ← readCapacity value
          pure { given with initialCapacity := some capacity }
      else if key = "force_defaults".toList then
        if given.forceDefaults.isSome then none
        else do
          let flag ← readFlag value
          pure { given with forceDefaults := some flag }
      else pure given
  | _ => none

def readItems : List (List Token) → Option Given
  | [] => some ⟨none, none⟩
  | [capacity] => do pure ⟨some (← readCapacity capacity), none⟩
  | [capacity, flag] => do pure ⟨some (← readCapacity capacity), some (← readFlag flag)⟩
  | _ => none

def ofTokens? (tokens : List Token) : Option Given :=
  if isValue tokens then
    match tokens with
    | .openObject :: inside => (items inside.dropLast).foldlM readEntry ⟨none, none⟩
    | .openArray :: inside => readItems (items inside.dropLast)
    | _ => none
  else none

def ofJson? (text : String) : Option BuilderOptions := do
  let tokens ← tokens text
  let given ← ofTokens? tokens
  pure given.complete

end BuilderOptions

end WireTables
