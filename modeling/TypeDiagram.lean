import TypeDiagram.Main
import TypeDiagram.Session.Report
import TypeDiagram.Session.Run
import TypeDiagram.Server.Run
import TypeDiagram.Proofs.Geometry
import TypeDiagram.Proofs.OrderedMap
import TypeDiagram.Proofs.Sequence
import TypeDiagram.Proofs.Model.Names
import TypeDiagram.Proofs.Model.Neighbours
import TypeDiagram.Proofs.Model.Linking
import TypeDiagram.Proofs.Model.Permutation
import TypeDiagram.Proofs.Model.Resolution
import TypeDiagram.Proofs.Source.Register
import TypeDiagram.Proofs.Source.Word
import TypeDiagram.Proofs.Source.Member
import TypeDiagram.Proofs.Source.Comment
import TypeDiagram.Proofs.Source.FieldClass
import TypeDiagram.Proofs.Source.Shape
import TypeDiagram.Proofs.Source.Enclosure
import TypeDiagram.Proofs.Source.Slice
import TypeDiagram.Proofs.Source.Production
import TypeDiagram.Proofs.Source.Item
import TypeDiagram.Proofs.Source.Automaton
import TypeDiagram.Proofs.Source.Derivation
import TypeDiagram.Proofs.Source.Place
import TypeDiagram.Proofs.Source.Spelling
import TypeDiagram.Proofs.Source.Stack
import TypeDiagram.Proofs.Source.Head
import TypeDiagram.Proofs.Source.Taking
import TypeDiagram.Proofs.Source.Reader
import TypeDiagram.Proofs.Source.Reduction
import TypeDiagram.Proofs.Source.Acceptance
import TypeDiagram.Proofs.Source.Recovery
import TypeDiagram.Proofs.Source.Sighting
import TypeDiagram.Proofs.Source.Advance
import TypeDiagram.Proofs.Source.Cutting
import TypeDiagram.Proofs.Source.FieldText
import TypeDiagram.Proofs.Source.DeclaredName
import TypeDiagram.Proofs.Source.Redeclaration
import TypeDiagram.Proofs.Number.Sign
import TypeDiagram.Proofs.Number.Monotone
import TypeDiagram.Proofs.Number.Rounding
import TypeDiagram.Proofs.Number.Count
import TypeDiagram.Proofs.Number.Packing
import TypeDiagram.Proofs.Number.Binary64
import TypeDiagram.Proofs.Number.Written
import TypeDiagram.Proofs.Number.Significant
import TypeDiagram.Proofs.Number.Quotient
import TypeDiagram.Proofs.Number.Interval
import TypeDiagram.Proofs.Number.SixDigits
import TypeDiagram.Proofs.Layout.Digraph
import TypeDiagram.Proofs.Layout.Orientation
import TypeDiagram.Proofs.Layout.Layering
import TypeDiagram.Proofs.Layout.Ordering
import TypeDiagram.Proofs.Layout.Placement
import TypeDiagram.Proofs.Layout.Box
import TypeDiagram.Proofs.Layout.Drawing
import TypeDiagram.Proofs.Layout.Stack
import TypeDiagram.Proofs.Layout.Ascent
import TypeDiagram.Proofs.Layout.Separation
import TypeDiagram.Proofs.Layout.LongestPath
import TypeDiagram.Proofs.Layout.Depth
import TypeDiagram.Proofs.Layout.FeedbackArcs
import TypeDiagram.Proofs.Layout.Flow
import TypeDiagram.Proofs.Layout.Boxwise
import TypeDiagram.Proofs.Layout.Transpose
import TypeDiagram.Proofs.Layout.Echo
import TypeDiagram.Proofs.Layout.Repetition
import TypeDiagram.Proofs.Layout.Reseeding
import TypeDiagram.Proofs.Layout.Dragging
import TypeDiagram.Proofs.Layout.Relayout
import TypeDiagram.Proofs.Layout.Settling
import TypeDiagram.Proofs.Layout.Route
import TypeDiagram.Proofs.Layout.Chain
import TypeDiagram.Proofs.Layout.Subdivision
import TypeDiagram.Proofs.Layout.Crossing
import TypeDiagram.Proofs.Layout.Sweeping
import TypeDiagram.Proofs.Layout.Line
import TypeDiagram.Proofs.Layout.Course
import TypeDiagram.Proofs.Layout.Frame
import TypeDiagram.Proofs.Layout.Division
import TypeDiagram.Proofs.Layout.Reference
import TypeDiagram.Proofs.Layout.Defect
import TypeDiagram.Proofs.Layout.Renaming.Graph
import TypeDiagram.Proofs.Layout.Renaming.Layers
import TypeDiagram.Proofs.Layout.Renaming.Plan
import TypeDiagram.Proofs.Layout.Renaming.Request
import TypeDiagram.Proofs.Layout.Renaming.Drawing
import TypeDiagram.Proofs.Diagram.Element
import TypeDiagram.Proofs.Diagram.Request
import TypeDiagram.Proofs.Diagram.Arrangement
import TypeDiagram.Proofs.Diagram.Overlap
import TypeDiagram.Proofs.Diagram.Citation
import TypeDiagram.Proofs.Diagram.Spacing
import TypeDiagram.Proofs.Session.Commit
import TypeDiagram.Proofs.Session.Step
import TypeDiagram.Proofs.Session.Mirror
import TypeDiagram.Proofs.Session.Pins
import TypeDiagram.Proofs.Session.Recall
import TypeDiagram.Proofs.Session.Frame
import TypeDiagram.Proofs.Session.Desk
import TypeDiagram.Proofs.Session.Capture
import TypeDiagram.Proofs.Session.Ledger
import TypeDiagram.Proofs.Session.NewestPass
import TypeDiagram.Proofs.Session.Freshness
import TypeDiagram.Proofs.Session.Trigger
import TypeDiagram.Proofs.Session.Postponement
import TypeDiagram.Proofs.Session.Answer
import TypeDiagram.Proofs.Session.Measurement
import TypeDiagram.Proofs.Session.Position
import TypeDiagram.Proofs.Session.Quiescence
import TypeDiagram.Proofs.Session.Lull
import TypeDiagram.Proofs.Session.Overlap
import TypeDiagram.Proofs.Session.Forced
import TypeDiagram.Proofs.Session.Invalidation
import TypeDiagram.Proofs.Session.Batch
import TypeDiagram.Proofs.Session.Immediate
import TypeDiagram.Proofs.Session.Fitting
import TypeDiagram.Proofs.Session.Interaction
import TypeDiagram.Proofs.Session.Delivery
import TypeDiagram.Proofs.Session.History
import TypeDiagram.Proofs.Session.Coalescing
import TypeDiagram.Proofs.CommandLine.Pin
import TypeDiagram.Proofs.CommandLine.Words
import TypeDiagram.Proofs.CommandLine.Layout
import TypeDiagram.Proofs.Server.Answer
import TypeDiagram.Proofs.Server.Run
import TypeDiagram.Proofs.Server.Isolation
