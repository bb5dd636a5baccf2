import SeqSlice.CallGraph.Basic
import SeqSlice.Cli.Command
import SeqSlice.Cli.Script
import SeqSlice.Config.Basic
import SeqSlice.Config.Coding
import SeqSlice.Config.Yaml
import SeqSlice.Descriptor.Basic
import SeqSlice.Descriptor.Reader
import SeqSlice.Error
import SeqSlice.Extension.Creation
import SeqSlice.Extension.Interest
import SeqSlice.Extension.Relation
import SeqSlice.Fact.Basic
import SeqSlice.Fact.Coding
import SeqSlice.Fact.Criteria
import SeqSlice.Flow.Block
import SeqSlice.Flow.Branch
import SeqSlice.Flow.Coding
import SeqSlice.Flow.Graph
import SeqSlice.Flow.Loop
import SeqSlice.Graph.Basic
import SeqSlice.Graph.Dominance
import SeqSlice.Graph.Search
import SeqSlice.Json.Basic
import SeqSlice.Json.Number
import SeqSlice.Json.Parser
import SeqSlice.Json.Printer
import SeqSlice.Json.Token
import SeqSlice.Main
import SeqSlice.Number.Double
import SeqSlice.Program.Basic
import SeqSlice.Program.Builder
import SeqSlice.Program.Check
import SeqSlice.Program.Coding
import SeqSlice.Program.Hierarchy
import SeqSlice.Program.Name
import SeqSlice.Program.Query
import SeqSlice.Program.Summary
import SeqSlice.Slice.BottomUp
import SeqSlice.Slice.Coding
import SeqSlice.Slice.Interner
import SeqSlice.Slice.Phase
import SeqSlice.Slice.Report
import SeqSlice.Slice.Run
import SeqSlice.Slice.TopDown
import SeqSlice.Solver.Coding
import SeqSlice.Solver.Problem
import SeqSlice.Solver.Table
import SeqSlice.Solver.Tabulation
import SeqSlice.Storage.Disk
import SeqSlice.Storage.Path
import SeqSlice.Storage.Tree
import SeqSlice.Supergraph.Basic
import SeqSlice.Supergraph.Coding
import SeqSlice.Supergraph.Links
import SeqSlice.Supergraph.View
import SeqSlice.Tag.Coding
import SeqSlice.Tag.Constructor
import SeqSlice.Tag.Cycle
import SeqSlice.Tag.Table
import SeqSlice.Text.Blank
import SeqSlice.Text.Cut
import SeqSlice.Text.Numeral
import SeqSlice.Yaml.Block
import SeqSlice.Yaml.Directive
import SeqSlice.Yaml.Document
import SeqSlice.Yaml.Glyph
import SeqSlice.Yaml.Node
import SeqSlice.Yaml.Parser
import SeqSlice.Yaml.Printer
import SeqSlice.Yaml.Quoting
import SeqSlice.Yaml.Scalar
import SeqSlice.Yaml.Tag
import SeqSlice.Yaml.Token
import SeqSlice.Yaml.Value
import SeqSlice.Proofs.Graph.Path
import SeqSlice.Proofs.Graph.PostDominance
import SeqSlice.Proofs.Graph.Immediate
import SeqSlice.Proofs.Tag.Table
import SeqSlice.Proofs.Solver.Path
import SeqSlice.Proofs.Solver.Table
import SeqSlice.Proofs.Solver.Schedule
import SeqSlice.Proofs.Solver.Derived
import SeqSlice.Proofs.Solver.Sound
import SeqSlice.Proofs.Solver.Complete
import SeqSlice.Proofs.Solver.Exact
import SeqSlice.Proofs.Solver.Order
import SeqSlice.Proofs.Solver.Exits
import SeqSlice.Proofs.Flow.NaturalLoop
import SeqSlice.Proofs.Flow.LoopOrder
import SeqSlice.Proofs.Flow.LoopCut
import SeqSlice.Proofs.Supergraph.Linked
import SeqSlice.Proofs.Slice.FactTable
import SeqSlice.Proofs.Slice.Outcome
import SeqSlice.Proofs.Slice.Journey
import SeqSlice.Proofs.Slice.Sound
import SeqSlice.Proofs.Slice.Bound
import SeqSlice.Proofs.Slice.Execution
import SeqSlice.Proofs.Slice.Complete
import SeqSlice.Proofs.Graph.Component
import SeqSlice.Proofs.CallGraph.Recursion
import SeqSlice.Proofs.Supergraph.Calls
import SeqSlice.Proofs.Supergraph.Recursion
import SeqSlice.Proofs.Slice.Returns
import SeqSlice.Proofs.Slice.Starts
import SeqSlice.Proofs.Slice.Prepared
import SeqSlice.Proofs.Slice.Phases
import SeqSlice.Proofs.Slice.Arrangement
import SeqSlice.Proofs.Solver.Simulation
import SeqSlice.Proofs.Slice.Ending
import SeqSlice.Proofs.Slice.EarlyTaking
import SeqSlice.Proofs.Slice.Pairless
import SeqSlice.Proofs.Error
import SeqSlice.Proofs.Text.Part
import SeqSlice.Proofs.Descriptor.Place
import SeqSlice.Proofs.Slice.FileName
import SeqSlice.Proofs.Slice.Growth
import SeqSlice.Proofs.Extension.Discovery
import SeqSlice.Proofs.Extension.Bypass
import SeqSlice.Proofs.Tag.Cycle
import SeqSlice.Proofs.Extension.Interest
import SeqSlice.Proofs.Supergraph.Initializer
import SeqSlice.Proofs.Fact.Order
import SeqSlice.Proofs.Fact.Seeds
import SeqSlice.Proofs.Fact.Follow
import SeqSlice.Proofs.Descriptor.Reading
import SeqSlice.Proofs.Flow.Block
import SeqSlice.Proofs.Flow.Branch
import SeqSlice.Proofs.Flow.Dominance
import SeqSlice.Proofs.Program.Closed
import SeqSlice.Proofs.Config.Stored
import SeqSlice.Proofs.Text.Numeral
import SeqSlice.Proofs.Descriptor.Spelling
import SeqSlice.Proofs.Fact.Grouping
import SeqSlice.Proofs.Slice.Interner
import SeqSlice.Proofs.Program.Growth
import SeqSlice.Proofs.Program.Building
import SeqSlice.Proofs.Program.Hierarchy
import SeqSlice.Proofs.Flow.Partition
import SeqSlice.Proofs.Flow.LoopExits
import SeqSlice.Proofs.Flow.BlockDominance
import SeqSlice.Proofs.Tag.Constructor
import SeqSlice.Proofs.Extension.Creation
