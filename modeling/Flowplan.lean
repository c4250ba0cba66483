import Flowplan.Compiler.Basic
import Flowplan.Compiler.Batch
import Flowplan.Context
import Flowplan.Digest
import Flowplan.DisjointSets
import Flowplan.Fault
import Flowplan.Graph.Basic
import Flowplan.Graph.Builder
import Flowplan.Graph.Order
import Flowplan.Graph.Traversal
import Flowplan.Graph.Validation
import Flowplan.Identity
import Flowplan.Job.Description
import Flowplan.Job.Element
import Flowplan.Job.Graph
import Flowplan.Job.Sketch
import Flowplan.Job.Snapshot
import Flowplan.Job.Workspace
import Flowplan.Log.Entry
import Flowplan.Log.Line
import Flowplan.Pass.Annotating
import Flowplan.Pass.Basic
import Flowplan.Pass.Pipeline
import Flowplan.Pass.Registry
import Flowplan.Pass.Script
import Flowplan.Plan.Basic
import Flowplan.Plan.Fingerprint
import Flowplan.Plan.Lowering
import Flowplan.Plan.Stage
import Flowplan.Proofs.Bags
import Flowplan.Proofs.BuiltGraphs
import Flowplan.Proofs.Bundles
import Flowplan.Proofs.Classes
import Flowplan.Proofs.Filing
import Flowplan.Proofs.Grouping
import Flowplan.Proofs.Identities
import Flowplan.Proofs.JobGraphs
import Flowplan.Proofs.Lists
import Flowplan.Proofs.Lowerings
import Flowplan.Proofs.Plans
import Flowplan.Proofs.SortTurns
import Flowplan.Proofs.StageGraphs
import Flowplan.Proofs.Walk
import Flowplan.Property.Bag
import Flowplan.Property.Kind
import Flowplan.Property.Value
import Flowplan.Settings.Basic
import Flowplan.Settings.Misfit
import Flowplan.Settings.Reading
import Flowplan.Statistics
import Flowplan.Text.Base64
import Flowplan.Text.Blank
import Flowplan.Text.Capital
import Flowplan.Text.Clipped
import Flowplan.Text.Hex
import Flowplan.Text.Octets
import Flowplan.Text.Printable
import Flowplan.Text.Quoted
import Flowplan.Yaml.Cursor
import Flowplan.Yaml.Meaning
import Flowplan.Yaml.Node
import Flowplan.Yaml.Number
import Flowplan.Yaml.Scalar
import Flowplan.Yaml.Tag
import Flowplan.Yaml.Timestamp
import Flowplan.Yaml.Token
import Flowplan.Proofs.BuilderCalls
import Flowplan.Proofs.LeastOrders
import Flowplan.Proofs.PassTurns
import Flowplan.Proofs.PipelineRuns
import Flowplan.Proofs.PipelineContracts
import Flowplan.Proofs.Conflicts
import Flowplan.Proofs.Ledgers
import Flowplan.Proofs.StrictLowerings
import Flowplan.Proofs.EdgeOrders
import Flowplan.Proofs.Renamings
import Flowplan.Proofs.IdentityChoice
import Flowplan.Proofs.Interleavings
import Flowplan.Proofs.BuiltInPasses
import Flowplan.Proofs.BuiltInPipelines
import Flowplan.Proofs.Plannable
import Flowplan.Proofs.DefaultCompilations
import Flowplan.Proofs.Forests
import Flowplan.Proofs.Chains
import Flowplan.Proofs.Tasks
import Flowplan.Proofs.LastValues
import Flowplan.Proofs.Texts
import Flowplan.Proofs.Outlines
import Flowplan.Proofs.Fingerprints
import Flowplan.Proofs.Batches
import Flowplan.Proofs.BatchInvariants
import Flowplan.Proofs.BatchOutcomes
import Flowplan.Proofs.Arrows
import Flowplan.Proofs.Revisions
import Flowplan.Proofs.GraphQueries
import Flowplan.Proofs.Conversions
import Flowplan.Proofs.CheckReports
import Flowplan.Proofs.PassStatistics
import Flowplan.Proofs.BagHistories
import Flowplan.Proofs.ParentPaths
import Flowplan.Proofs.Snapshots
