import Whiteboard.Graph.Rank
import Whiteboard.Flowchart.Reading
import Whiteboard.Main
import Whiteboard.Proofs.Scene.Integrity
import Whiteboard.Proofs.Layout.Order
import Whiteboard.Proofs.Scene.Emission
import Whiteboard.Proofs.Graph.Ranking
import Whiteboard.Proofs.Graph.NodeRank
import Whiteboard.Proofs.Exact
import Whiteboard.Proofs.Layout.Stack
import Whiteboard.Proofs.Layout.Advance
import Whiteboard.Proofs.Diagram.Records
import Whiteboard.Proofs.Flowchart.Chart
import Whiteboard.Proofs.Document
import Whiteboard.Proofs.Text.Line
import Whiteboard.Proofs.Directive
import Whiteboard.Proofs.Diagram.Unstyled
import Whiteboard.Proofs.Layout.Unstyled
import Whiteboard.Proofs.Scene.Uncoloured
import Whiteboard.Proofs.Presentation
import Whiteboard.Proofs.Scene.Seed
import Whiteboard.Proofs.Flowchart.Path
import Whiteboard.Proofs.Geometry.Route
import Whiteboard.Proofs.Layout.Routing
import Whiteboard.Proofs.Scene.Shape
import Whiteboard.Proofs.Scene.Connector
import Whiteboard.Proofs.Sequence.Actor
import Whiteboard.Proofs.Entity.Title
import Whiteboard.Proofs.Style
import Whiteboard.Proofs.Header
import Whiteboard.Proofs.Directive.Written
import Whiteboard.Proofs.LineEnding
import Whiteboard.Proofs.Entity.Written
import Whiteboard.Proofs.Sequence.Written
import Whiteboard.Proofs.Graph.Run
import Whiteboard.Proofs.Graph.Longest
import Whiteboard.Proofs.CommandLine.Tree
import Whiteboard.Proofs.CommandLine.Run
import Whiteboard.Proofs.Checked.Draw
import Whiteboard.Proofs.Layout.Slot
import Whiteboard.Proofs.Layout.Mirror
import Whiteboard.Proofs.Scene.Frame
import Whiteboard.Proofs.Flowchart.Block
import Whiteboard.Proofs.Flowchart.Definition
import Whiteboard.Proofs.Layout.Timeline
import Whiteboard.Proofs.Layout.Grid
import Whiteboard.Proofs.Scene.Completion
import Whiteboard.Proofs.Layout.Parallel
import Whiteboard.Proofs.Scene.Label
import Whiteboard.Proofs.Scene.Inscribed
import Whiteboard.Proofs.Detection
import Whiteboard.Proofs.Entity.Event
import Whiteboard.Proofs.Entity.Form
import Whiteboard.Proofs.Scene.Separator
import Whiteboard.Proofs.Flowchart.Spelling
import Whiteboard.Proofs.Sequence.Activation
import Whiteboard.Proofs.Sequence.Arrow
import Whiteboard.Proofs.Directive.Theme
import Whiteboard.Proofs.Flowchart.Leftover
import Whiteboard.Proofs.Flowchart.Label
import Whiteboard.Proofs.Identity.Index
import Whiteboard.Proofs.Style.Keyword
import Whiteboard.Proofs.Checked.Script
import Whiteboard.Proofs.Geometry.Gap
