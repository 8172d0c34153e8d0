import PacketFlow.Command.Directory
import PacketFlow.Command.Execution
import PacketFlow.Command.Host
import PacketFlow.Command.Listing
import PacketFlow.Command.Request
import PacketFlow.Command.Run
import PacketFlow.Command.Scan
import PacketFlow.Config
import PacketFlow.Dot.Escape
import PacketFlow.Dot.Statement
import PacketFlow.Dump.Argument
import PacketFlow.Dump.Directive
import PacketFlow.Dump.Session
import PacketFlow.Dump.Target
import PacketFlow.Dump.Warning
import PacketFlow.Flow.Document
import PacketFlow.Flow.Graph
import PacketFlow.Flow.Hook
import PacketFlow.Flow.Origin
import PacketFlow.Flow.Picture
import PacketFlow.Flow.Rendering
import PacketFlow.Flow.Traversal
import PacketFlow.Json.Basic
import PacketFlow.Main
import PacketFlow.Proofs.Dump.Arguments
import PacketFlow.Proofs.Dump.Arrangement
import PacketFlow.Proofs.Dump.Description
import PacketFlow.Proofs.Dump.Effect
import PacketFlow.Proofs.Dump.Ownership
import PacketFlow.Proofs.Dump.RoundTrip
import PacketFlow.Proofs.Dump.Section
import PacketFlow.Proofs.Dump.Session
import PacketFlow.Proofs.Dump.Writing
import PacketFlow.Proofs.Flow.Builtin
import PacketFlow.Proofs.Flow.CallPath
import PacketFlow.Proofs.Flow.Counterpart
import PacketFlow.Proofs.Flow.Drawing
import PacketFlow.Proofs.Flow.Edges
import PacketFlow.Proofs.Flow.Expansion
import PacketFlow.Proofs.Flow.Level
import PacketFlow.Proofs.Flow.Likeness
import PacketFlow.Proofs.Flow.Place
import PacketFlow.Proofs.Flow.Reach
import PacketFlow.Proofs.Flow.Tree
import PacketFlow.Proofs.Flow.Way
import PacketFlow.Proofs.Ruleset.Confinement
import PacketFlow.Proofs.Ruleset.Consistency
import PacketFlow.Proofs.Ruleset.Content
import PacketFlow.Proofs.Ruleset.Growth
import PacketFlow.Proofs.Ruleset.Label
import PacketFlow.Proofs.Ruleset.Naming
import PacketFlow.Proofs.Ruleset.Persistence
import PacketFlow.Proofs.Ruleset.Target
import PacketFlow.Proofs.Text.Lines
import PacketFlow.Proofs.Text.Words
import PacketFlow.Ruleset.Basic
import PacketFlow.Ruleset.Label
import PacketFlow.Ruleset.Summary
import PacketFlow.Text.Blank
import PacketFlow.Text.Fold
import PacketFlow.Text.Line
import PacketFlow.Text.Quoted
import PacketFlow.Text.Unassigned
import PacketFlow.Text.Unseen
import PacketFlow.Yaml.Mark
import PacketFlow.Yaml.Node
import PacketFlow.Yaml.Scalar
import PacketFlow.Yaml.Settings
import PacketFlow.Yaml.Token
import PacketFlow.Proofs.Dump.Step
import PacketFlow.Proofs.Dump.Extension
import PacketFlow.Proofs.Flow.Rendering
import PacketFlow.Proofs.Dump.Lookup
import PacketFlow.Proofs.Ruleset.Listing
import PacketFlow.Proofs.Dump.Independence
import PacketFlow.Proofs.Dump.Balance
import PacketFlow.Proofs.Dot.Escape
import PacketFlow.Proofs.Dot.Statement
import PacketFlow.Proofs.Flow.Attributes
import PacketFlow.Proofs.Flow.Legibility
import PacketFlow.Proofs.Flow.Link
import PacketFlow.Proofs.Flow.Enclosure
import PacketFlow.Proofs.Flow.RuleLevel
import PacketFlow.Proofs.Dump.Comment
import PacketFlow.Proofs.Flow.Threading
import PacketFlow.Proofs.Flow.Tour
import PacketFlow.Proofs.Flow.Stray
import PacketFlow.Proofs.Flow.Depth
import PacketFlow.Proofs.Flow.Influence
import PacketFlow.Proofs.Dump.Segment
import PacketFlow.Proofs.Dump.Designation
import PacketFlow.Proofs.Dump.Match
import PacketFlow.Proofs.Dump.Continuation
import PacketFlow.Proofs.Ruleset.Registry
import PacketFlow.Proofs.Dump.Labels
import PacketFlow.Proofs.Dot.Block
import PacketFlow.Proofs.Flow.Inventory
import PacketFlow.Proofs.Flow.Outline
import PacketFlow.Proofs.Json.Writing
import PacketFlow.Proofs.Flow.Document
import PacketFlow.Proofs.Text.Spacing
import PacketFlow.Proofs.Dump.Layout
import PacketFlow.Proofs.Command.Volume
import PacketFlow.Proofs.Command.Readers
import PacketFlow.Proofs.Command.Run
import PacketFlow.Proofs.Dump.Quotation
import PacketFlow.Proofs.Dot.Backslash
