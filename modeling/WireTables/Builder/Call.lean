import WireTables.Builder.Finish
import WireTables.Builder.Sorted
import WireTables.Builder.Table

namespace WireTables

inductive Call
  | clear
  | forceDefaults (force : Bool)
  | prepare (size additional : Nat)
  | pad (count : Nat)
  | put (type : ScalarType) (value : type.Value)
  | add (type : ScalarType) (value : type.Value)
  | addReference {kind : Kind} (target : Offset kind)
  | openTable (fields : Nat)
  | storeScalar (slot : Slot) (type : ScalarType) (value default : type.Value)
  | storeOptional (slot : Slot) (type : ScalarType) (value : Option type.Value)
  | storeReference {kind : Kind} (slot : Slot) (target : Offset kind)
  | storeStruct {kind : Kind} (slot : Slot) (target : Offset kind)
  | closeTable
  | requireField (table : Offset .table) (slot : Slot)
  | openVector (elementSize count alignment : Nat)
  | openFilledVector (elementSize count alignment : Nat) (filling : Bytes)
  | closeVector
  | writeScalars (type : ScalarType) (items : List type.Value)
  | writeBytes (bytes : Bytes)
  | writeReferences {kind : Kind} (items : List (Offset kind))
  | writeStrings (texts : List String)
  | writeSorted (key : KeyField) (tables : List (Offset .table))
  | writeSortedBy (compare : TableView → TableView → Except Fault Ordering)
      (tables : List (Offset .table))
  | writeString (text : String)
  | writeByteString (bytes : Bytes)
  | shareString (text : String)
  | finish (root : Offset .table) (identifier : Option String) (sized : Bool)

inductive Reply
  | nothing
  | object (offset : UInt32)
  | bytes (bytes : Bytes)
  | sorted (tables : SortedTables)

abbrev Answer := Except Refusal Reply

namespace Build

def replying {α : Type} (reply : α → Reply) (step : Build α) : Build Reply := do
  let value ← step
  pure (reply value)

def quietly : Build Unit → Build Reply := replying fun _ => .nothing

def placing {kind : Kind} : Build (Offset kind) → Build Reply := replying fun object =>
  .object object.value

end Build

namespace Call

open Build in
def run : Call → Build Reply
  | clear => quietly (update Builder.clear)
  | forceDefaults force => quietly (update fun builder => { builder with forceDefaults := force })
  | prepare size additional => quietly (Build.prepare size additional)
  | pad count => quietly (Build.pad count)
  | put type value => quietly (putScalar type value)
  | add type value => quietly (addScalar type value)
  | addReference target => quietly (Build.addReference target)
  | openTable fields => quietly (Build.openTable fields)
  | storeScalar slot type value default => quietly (Build.storeScalar slot type value default)
  | storeOptional slot type value => quietly (Build.storeOptional slot type value)
  | storeReference slot target => quietly (Build.storeReference slot target)
  | storeStruct slot target => quietly (Build.storeStruct slot target)
  | closeTable => placing Build.closeTable
  | requireField table slot => quietly (Build.requireField table slot)
  | openVector elementSize count alignment =>
      quietly (Build.openVector elementSize count alignment)
  | openFilledVector elementSize count alignment filling =>
      replying .bytes (Build.openFilledVector elementSize count alignment filling)
  | closeVector => placing (@Build.closeVector (.scalar .uint8))
  | writeScalars type items => placing (Build.writeScalars type items)
  | writeBytes bytes => placing (Build.writeBytes bytes)
  | writeReferences items => placing (Build.writeReferences items)
  | writeStrings texts => placing (Build.writeStrings texts)
  | writeSorted key tables => replying .sorted (Build.writeSorted key tables)
  | writeSortedBy compare tables => replying .sorted (Build.writeSortedBy compare tables)
  | writeString text => placing (Build.writeString text)
  | writeByteString bytes => placing (Build.writeByteString bytes)
  | shareString text => placing (Build.shareString text)
  | finish root identifier sized => quietly (Build.finish root identifier sized)

def step (call : Call) (builder : Builder) : Except Fault (Answer × Builder) :=
  match call.run builder with
  | .done reply after => .ok (.ok reply, after)
  | .refused error after => .ok (.error error, after)
  | .fault cause => .error cause

end Call

namespace Builder

/-- A refusal is an answer like any other and does not end a run; a fault does. -/
def run (builder : Builder) : List Call → Except Fault (List (Answer × Builder))
  | [] => pure []
  | call :: calls => do
      let (answer, after) ← call.step builder
      let later ← after.run calls
      pure ((answer, after) :: later)

/-- The builders that calls can lead to from a new one that is not larger than a buffer may grow. -/
inductive Reachable : Builder → Prop
  | new (options : BuilderOptions) (fits : options.initialCapacity ≤ maxBufferSize) :
      Reachable (.ofOptions options)
  | step {builder after : Builder} {answer : Answer} (call : Call) (before : Reachable builder)
      (stepped : call.step builder = .ok (answer, after)) : Reachable after

end Builder

end WireTables
