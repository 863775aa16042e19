import LanePadding.Number.Rounding
import LanePadding.Number.Double
import LanePadding.Number.Elementary
import LanePadding.Number.Decimal
import LanePadding.Text.Blank
import LanePadding.Text.Case
import LanePadding.Text.Printable
import LanePadding.Text.Quoted
import LanePadding.Text.Integer
import LanePadding.DType
import LanePadding.Op
import LanePadding.Scalar.Basic
import LanePadding.Scalar.Literal
import LanePadding.Scalar.Eval
import LanePadding.Axis
import LanePadding.Graph.Ref
import LanePadding.Padding.Basic
import LanePadding.Graph.Basic
import LanePadding.Graph.Build
import LanePadding.Graph.Reach
import LanePadding.Graph.Lanes
import LanePadding.Platform
import LanePadding.Analysis.Error
import LanePadding.Padding.Transfer
import LanePadding.Analysis.Run
import LanePadding.Analysis.Fault
import LanePadding.Analysis.Simulate
import LanePadding.Analysis.Basic
import LanePadding.Description.Basic
import LanePadding.Description.Order
import LanePadding.Description.Build
import LanePadding.Document.Glyph
import LanePadding.Document.Scalar
import LanePadding.Document.Token
import LanePadding.Document.Tree
import LanePadding.Document.Value
import LanePadding.Description.Decode
import LanePadding.Text.Table
import LanePadding.Command.Options
import LanePadding.Command.Request
import LanePadding.Main
import LanePadding.Proofs.Built
import LanePadding.Proofs.Equality
import LanePadding.Proofs.Reachable
import LanePadding.Proofs.Growth
import LanePadding.Proofs.Simulation
import LanePadding.Proofs.Securing
import LanePadding.Proofs.Invariant
import LanePadding.Proofs.Outcome
import LanePadding.Proofs.FaultSafety
import LanePadding.Proofs.LaneFixes
import LanePadding.Proofs.Lanes
import LanePadding.Proofs.ReducedLanes
import LanePadding.Proofs.Transfer
import LanePadding.Proofs.Execution
import LanePadding.Proofs.Soundness
import LanePadding.Proofs.Isolation
import LanePadding.Proofs.History
import LanePadding.Proofs.Demands
import LanePadding.Proofs.Typing
import LanePadding.Proofs.Progress
import LanePadding.Proofs.Described
import LanePadding.Proofs.CommonShape
import LanePadding.Proofs.GraphInvariant
import LanePadding.Proofs.FailedCalls
import LanePadding.Proofs.Settings
import LanePadding.Proofs.Offers
import LanePadding.Proofs.Stores
import LanePadding.Proofs.Representation
import LanePadding.Proofs.Answers
import LanePadding.Proofs.Correspondence
import LanePadding.Proofs.Replay
import LanePadding.Proofs.MoreOutputs
import LanePadding.Proofs.Isomorphism
import LanePadding.Proofs.OrderIndependence
import LanePadding.Proofs.Targeting
import LanePadding.Proofs.Recording
import LanePadding.Proofs.Rounding
import LanePadding.Proofs.Storable
import LanePadding.Proofs.Lockstep
import LanePadding.Proofs.CommonNodes
import LanePadding.Proofs.DisjointOutputs
import LanePadding.Proofs.AddedNodes
import LanePadding.Proofs.Reflexivity
import LanePadding.Proofs.Extensions
import LanePadding.Proofs.FusedSelection
import LanePadding.Proofs.ExplicitBroadcast
import LanePadding.Proofs.DefinitionOrder
import LanePadding.Proofs.Realization
import LanePadding.Proofs.DefaultOutputs
import LanePadding.Proofs.ReducedAxes
import LanePadding.Proofs.IntegerArithmetic
import LanePadding.Proofs.RepeatedReduction
import LanePadding.Proofs.IntegerTexts
import LanePadding.Proofs.AxisTexts
import LanePadding.Proofs.Decimals
import LanePadding.Proofs.NumeralTexts
import LanePadding.Proofs.Literals
import LanePadding.Proofs.MonotoneRounding
import LanePadding.Proofs.TransferTables
import LanePadding.Proofs.OwnPadding
