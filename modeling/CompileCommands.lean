import CompileCommands.Aggregation
import CompileCommands.Closure
import CompileCommands.Collection
import CompileCommands.CommandLine.Account
import CompileCommands.CommandLine.Event
import CompileCommands.CommandLine.Machine
import CompileCommands.CommandLine.Options
import CompileCommands.CommandLine.Run
import CompileCommands.CommandLine.Usage
import CompileCommands.CommandLine.WholeNumber
import CompileCommands.Context
import CompileCommands.Database
import CompileCommands.Decimal.Binary64
import CompileCommands.Decimal.Shortest
import CompileCommands.Description
import CompileCommands.Entry
import CompileCommands.Failure
import CompileCommands.Fields
import CompileCommands.FileSystem
import CompileCommands.FileSystem.Error
import CompileCommands.FileSystem.Path
import CompileCommands.Graph
import CompileCommands.Graph.Cycle
import CompileCommands.Graph.Generations
import CompileCommands.Json.Ascii
import CompileCommands.Json.Decoder
import CompileCommands.Json.Fault
import CompileCommands.Json.Literal
import CompileCommands.Json.Scan
import CompileCommands.Json.Value
import CompileCommands.Label
import CompileCommands.Main
import CompileCommands.OrderedMap
import CompileCommands.OrderedUnique
import CompileCommands.Placeholder
import CompileCommands.Proofs.Aggregation.ComputeOnce
import CompileCommands.Proofs.Aggregation.Consistency
import CompileCommands.Proofs.Aggregation.FailedComputation
import CompileCommands.Proofs.Aggregation.History
import CompileCommands.Proofs.Aggregation.Registration
import CompileCommands.Proofs.Aggregation.Replay
import CompileCommands.Proofs.Closure.Preorder
import CompileCommands.Proofs.Closure.Reachability
import CompileCommands.Proofs.Closure.SeenLabels
import CompileCommands.Proofs.Collection.Answer
import CompileCommands.Proofs.Collection.AnyOrder
import CompileCommands.Proofs.Collection.Concatenation
import CompileCommands.Proofs.Collection.Entries
import CompileCommands.Proofs.Collection.Filled
import CompileCommands.Proofs.Collection.InTurn
import CompileCommands.Proofs.Collection.Origins
import CompileCommands.Proofs.Collection.RootNames
import CompileCommands.Proofs.Collection.RootOrder
import CompileCommands.Proofs.Collection.Sharing
import CompileCommands.Proofs.Collection.Unreached
import CompileCommands.Proofs.Collection.UnresolvedRoots
import CompileCommands.Proofs.CommandLine.AllOrNothing
import CompileCommands.Proofs.CommandLine.AskedEntries
import CompileCommands.Proofs.CommandLine.Attached
import CompileCommands.Proofs.CommandLine.Directories
import CompileCommands.Proofs.CommandLine.Presentation
import CompileCommands.Proofs.CommandLine.Succeeds
import CompileCommands.Proofs.CommandLine.Task
import CompileCommands.Proofs.Context.Described
import CompileCommands.Proofs.Context.Notation
import CompileCommands.Proofs.Database.Accepted
import CompileCommands.Proofs.Database.Lines
import CompileCommands.Proofs.Database.RoundTrip
import CompileCommands.Proofs.Description.FileContents
import CompileCommands.Proofs.Description.FileText
import CompileCommands.Proofs.Description.Held
import CompileCommands.Proofs.Ensures
import CompileCommands.Proofs.FileSystem.OtherFiles
import CompileCommands.Proofs.FileSystem.WrittenFile
import CompileCommands.Proofs.FirstFailure
import CompileCommands.Proofs.Graph.Acyclic
import CompileCommands.Proofs.Graph.Built
import CompileCommands.Proofs.Graph.CanonicalLabels
import CompileCommands.Proofs.Graph.CycleSearch
import CompileCommands.Proofs.Graph.Dependency
import CompileCommands.Proofs.Graph.Lookup
import CompileCommands.Proofs.Graph.Outcome
import CompileCommands.Proofs.Graph.ReportedCycle
import CompileCommands.Proofs.Json.AsciiString
import CompileCommands.Proofs.Json.Limits
import CompileCommands.Proofs.Json.Scans
import CompileCommands.Proofs.Json.Tree
import CompileCommands.Proofs.Json.Whole
import CompileCommands.Proofs.Label.Grammar
import CompileCommands.Proofs.Label.OtherValues
import CompileCommands.Proofs.Label.RoundTrip
import CompileCommands.Proofs.Placeholder.Filled
import CompileCommands.Proofs.Placeholder.SourceFile
import CompileCommands.Proofs.Repetitions
import CompileCommands.Proofs.Success
import CompileCommands.Proofs.Synthesis.Command
import CompileCommands.Proofs.Synthesis.DisabledFeature
import CompileCommands.Proofs.Synthesis.OwnFile
import CompileCommands.Proofs.Synthesis.RequestedFeatures
import CompileCommands.Proofs.Synthesis.Sources
import CompileCommands.Proofs.Synthesis.TargetEntries
import CompileCommands.Proofs.Synthesis.TextTemplates
import CompileCommands.Proofs.Target.Described
import CompileCommands.Proofs.Text.Cut
import CompileCommands.Proofs.Text.Replaced
import CompileCommands.Proofs.Text.Sorted
import CompileCommands.Proofs.Text.Utf8
import CompileCommands.Proofs.Text.Words
import CompileCommands.Proofs.Toolchain.Configuration
import CompileCommands.Proofs.Toolchain.ContextBlocks
import CompileCommands.Proofs.Toolchain.Described
import CompileCommands.Proofs.Toolchain.FeatureFlags
import CompileCommands.Requirement
import CompileCommands.Synthesis
import CompileCommands.Target
import CompileCommands.Terminal
import CompileCommands.Text.Blank
import CompileCommands.Text.Digits
import CompileCommands.Text.Hex
import CompileCommands.Text.Printable
import CompileCommands.Text.Quoted
import CompileCommands.Text.Replace
import CompileCommands.Text.Sorted
import CompileCommands.Text.Utf8
import CompileCommands.Toolchain
import CompileCommands.Toolchain.Feature
import CompileCommands.Toolchain.Template
import CompileCommands.Version
