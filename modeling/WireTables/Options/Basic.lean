import WireTables.Listing

namespace WireTables

structure BuilderOptions where
  initialCapacity : Nat
  forceDefaults : Bool
  deriving DecidableEq, Repr

def boolText (value : Bool) : String := if value then "true" else "false"

namespace BuilderOptions

def standard : BuilderOptions := ⟨1024, false⟩

def text (options : BuilderOptions) : String :=
  recordText "BuilderOptions"
    [("initial_capacity", toString options.initialCapacity),
      ("force_defaults", boolText options.forceDefaults)]

end BuilderOptions

end WireTables
