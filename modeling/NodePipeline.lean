import NodePipeline.Artifact.ArrowStream
import NodePipeline.Build.External
import NodePipeline.Build.LocalStore
import NodePipeline.Build.Run
import NodePipeline.Command.Shell
import NodePipeline.Config.Reader
import NodePipeline.Expr.Language
import NodePipeline.Hash.Sha256
import NodePipeline.Pipeline.Query
import NodePipeline.Pipeline.Run
import NodePipeline.Proofs.Artifact.RoundTrip
import NodePipeline.Proofs.Artifact.Accepted
import NodePipeline.Proofs.Pipeline.Replay
import NodePipeline.Proofs.Pipeline.Solution
import NodePipeline.Registry.Lookup
import NodePipeline.Value.Equality
import NodePipeline.Proofs.Build.Built
import NodePipeline.Proofs.Build.Consistent
import NodePipeline.Proofs.Build.Filling
import NodePipeline.Proofs.Build.Plan
import NodePipeline.Proofs.Build.Realise
import NodePipeline.Proofs.Expr.Parsing
import NodePipeline.Proofs.Expr.Termination
import NodePipeline.Proofs.Expr.Closures
import NodePipeline.Proofs.Expr.References
import NodePipeline.Proofs.Pipeline.LetChain
import NodePipeline.Proofs.Pipeline.Permutation
import NodePipeline.Proofs.Build.Gather
import NodePipeline.Proofs.Build.Compile
import NodePipeline.Proofs.Build.History
import NodePipeline.Proofs.Pipeline.Closed
import NodePipeline.Proofs.Build.Files
import NodePipeline.Proofs.Build.Values
import NodePipeline.Proofs.Time.Calendar
import NodePipeline.Proofs.Time.Rfc3339
import NodePipeline.Proofs.Json.Documents
import NodePipeline.Proofs.Registry.Entry
import NodePipeline.Proofs.Registry.Listing
import NodePipeline.Proofs.Registry.Record
import NodePipeline.Proofs.Build.Recorded
import NodePipeline.Proofs.Build.ReadBack
import NodePipeline.Proofs.Disk.Success
import NodePipeline.Proofs.Build.Success
import NodePipeline.Proofs.Disk.Sound
import NodePipeline.Proofs.Disk.Way
import NodePipeline.Proofs.Registry.Contents
import NodePipeline.Proofs.Disk.Faults
import NodePipeline.Proofs.Build.AllOrNothing
import NodePipeline.Proofs.Registry.Concurrent
import NodePipeline.Proofs.Build.Answers
import NodePipeline.Proofs.Build.Warm
import NodePipeline.Proofs.Disk.Steady
import NodePipeline.Proofs.Registry.Standing
import NodePipeline.Pipeline.Result
import NodePipeline.Proofs.Pipeline.Reachable
import NodePipeline.Proofs.Pipeline.FailFast
import NodePipeline.Proofs.Pipeline.Invalidation
import NodePipeline.Proofs.Build.Buildable
import NodePipeline.Proofs.Build.Roots
import NodePipeline.Proofs.Build.Sequence
import NodePipeline.Proofs.Pipeline.Traversal
import NodePipeline.Proofs.Pipeline.LeastOrder
import NodePipeline.Proofs.Value.Digest
import NodePipeline.Proofs.Expr.Recognition
import NodePipeline.Proofs.Pipeline.Discovery
import NodePipeline.Proofs.Build.Closure
import NodePipeline.Proofs.Build.Indented
import NodePipeline.Proofs.Artifact.Refusal
import NodePipeline.Proofs.Registry.Retrieval
import NodePipeline.Proofs.Pipeline.Lineage
import NodePipeline.Proofs.Pipeline.Outline
import NodePipeline.Proofs.Pipeline.Forest
import NodePipeline.Proofs.Binary64.Nearest
import NodePipeline.Proofs.Value.Columns
import NodePipeline.Proofs.Expr.Arithmetic
import NodePipeline.Proofs.Expr.Words
import NodePipeline.Proofs.Registry.RoundTrip
import NodePipeline.Proofs.Pipeline.Names
import NodePipeline.Proofs.Registry.BuildIds
import NodePipeline.Proofs.Build.Scripts
import NodePipeline.Proofs.Expr.FunctionTexts
import NodePipeline.Proofs.Expr.FreeVariables
import NodePipeline.Proofs.Expr.Positions
