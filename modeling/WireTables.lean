import WireTables.Buffer.Growable
import WireTables.Builder.Call
import WireTables.Builder.Finish
import WireTables.Builder.Sorted
import WireTables.Builder.Table
import WireTables.Options.Json
import WireTables.Proofs.Buffer.ZeroExtended
import WireTables.Proofs.Builder.Alignment
import WireTables.Proofs.Builder.Alike
import WireTables.Proofs.Builder.ClosedTable
import WireTables.Proofs.Builder.FieldCount
import WireTables.Proofs.Builder.Finished
import WireTables.Proofs.Builder.Guards
import WireTables.Proofs.Builder.History
import WireTables.Proofs.Builder.Reference
import WireTables.Proofs.Builder.Room
import WireTables.Proofs.Builder.Sorting
import WireTables.Proofs.Builder.VTables
import WireTables.Proofs.Bytes.Standing
import WireTables.Proofs.Document.FramedStream
import WireTables.Proofs.Document.LedgerRead
import WireTables.Proofs.Document.NestedBuffers
import WireTables.Proofs.Document.RoundTrip
import WireTables.Proofs.Document.SameShape
import WireTables.Proofs.Document.SortedLookup
import WireTables.Proofs.View.Accepted
import WireTables.Proofs.View.SortedSearch
import WireTables.Proofs.View.Surrounded
import WireTables.View.Root
import WireTables.View.Text
import WireTables.View.Update
import WireTables.Proofs.Document.SchemaEvolution
import WireTables.Proofs.Document.ForcedDefaults
import WireTables.Proofs.Document.SharedStrings
import WireTables.Proofs.Document.InlineBounds
import WireTables.Proofs.Document.Mutation
import WireTables.Proofs.View.RootBounds
import WireTables.Proofs.Builder.ExactOffsets
import WireTables.Proofs.Document.TableLimits
import WireTables.Proofs.Document.FinishFrame
import WireTables.Proofs.Builder.Preparing
import WireTables.Proofs.Document.VectorWriters
import WireTables.Proofs.Document.SizeAsRoot
import WireTables.Proofs.Document.RequiredFields
import WireTables.Proofs.View.FrameSplitting
import WireTables.Proofs.View.Iteration
import WireTables.Proofs.View.SearchProbes
import WireTables.Proofs.Buffer.Reserving
import WireTables.Proofs.Scalar.Access
