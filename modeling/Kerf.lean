import Kerf.Command.Help
import Kerf.Command.Level
import Kerf.Command.Line
import Kerf.Command.Run
import Kerf.Command.Settings
import Kerf.Decimal.Binary
import Kerf.Decimal.Layout
import Kerf.Decimal.Numeral
import Kerf.Decimal.Power
import Kerf.Decimal.Rounding
import Kerf.Decimal.Shortest
import Kerf.Dialect.Basic
import Kerf.Dialect.Comment
import Kerf.Dialect.Decode
import Kerf.Dialect.Registry
import Kerf.Dialect.Template
import Kerf.Geometry.Polyline
import Kerf.Geometry.Rotation
import Kerf.Geometry.Vec
import Kerf.Instruction.Basic
import Kerf.Instruction.Compile
import Kerf.Instruction.Prepare
import Kerf.Instruction.Preview
import Kerf.Job.Arguments
import Kerf.Job.Call
import Kerf.Job.Compile
import Kerf.Job.Diagnostic
import Kerf.Job.Evaluate
import Kerf.Job.Source
import Kerf.Job.Syntax
import Kerf.Job.Token
import Kerf.Job.Value
import Kerf.Machine.Axes
import Kerf.Machine.Basic
import Kerf.Machine.Reader
import Kerf.Machine.Writer
import Kerf.Main
import Kerf.Mesh
import Kerf.Outline.Crossing
import Kerf.Outline.Grid
import Kerf.Outline.Loop
import Kerf.Outline.Offset
import Kerf.Outline.Ring
import Kerf.Output.Writer
import Kerf.Passes.Approach
import Kerf.Passes.Basic
import Kerf.Passes.Finish
import Kerf.Passes.Height
import Kerf.Passes.Lead
import Kerf.Passes.Refine
import Kerf.Passes.Rough
import Kerf.Passes.Sideways
import Kerf.Program.Basic
import Kerf.Program.Entry
import Kerf.Program.Tally
import Kerf.Projection
import Kerf.Rotary
import Kerf.Route.Basic
import Kerf.Route.Line
import Kerf.Route.Transition
import Kerf.Route.Turn
import Kerf.Scalar
import Kerf.Sorting
import Kerf.Stock.Bubble
import Kerf.Stock.Crossing
import Kerf.Stock.Field
import Kerf.Stock.Form
import Kerf.Text.Blank
import Kerf.Text.Listing
import Kerf.Text.Octets
import Kerf.Text.Printable
import Kerf.Text.Quoted
import Kerf.Text.Search
import Kerf.Tool
import Kerf.Toolpath.Additions
import Kerf.Toolpath.Path
import Kerf.Toolpath.Point
import Kerf.Toolpath.Validation
import Kerf.Trig
import Kerf.Yaml.Block
import Kerf.Yaml.Cursor
import Kerf.Yaml.Fit
import Kerf.Yaml.Gap
import Kerf.Yaml.Layers
import Kerf.Yaml.Node
import Kerf.Yaml.Plain
import Kerf.Yaml.Problem
import Kerf.Yaml.Quoted
import Kerf.Yaml.Scalar
import Kerf.Yaml.Tag
import Kerf.Yaml.Timestamp
import Kerf.Yaml.Token
import Kerf.Yaml.Value
import Kerf.Proofs.Controller
import Kerf.Proofs.Modal
import Kerf.Proofs.Emission
import Kerf.Proofs.ClearRoute
import Kerf.Proofs.Attachments
import Kerf.Proofs.Messages
import Kerf.Proofs.Annotations
import Kerf.Proofs.Ways
import Kerf.Proofs.LongJumps
import Kerf.Proofs.Doubles
import Kerf.Proofs.Numerals
import Kerf.Proofs.Reading
import Kerf.Proofs.Printing
import Kerf.Proofs.RoundTrip
import Kerf.Proofs.OutlineLoops
import Kerf.Proofs.PassContract
import Kerf.Proofs.Legs
import Kerf.Proofs.CompileErrors
import Kerf.Proofs.LoadedTool
import Kerf.Proofs.Switching
import Kerf.Proofs.IgnoreList
import Kerf.Proofs.Journal
import Kerf.Proofs.KeptSections
import Kerf.Proofs.Composition
import Kerf.Proofs.Spindle
import Kerf.Proofs.Comments
import Kerf.Proofs.Unbroken
import Kerf.Proofs.Numbering
import Kerf.Proofs.JoinedEnds
import Kerf.Proofs.Pruning
import Kerf.Proofs.NewestContent
import Kerf.Proofs.Shares
import Kerf.Proofs.Magnitudes
import Kerf.Proofs.Answers
import Kerf.Proofs.Faults
import Kerf.Proofs.SafeTurns
import Kerf.Proofs.FineTurns
import Kerf.Proofs.LastingNotes
import Kerf.Proofs.FeedsRead
import Kerf.Proofs.ToolChanges
import Kerf.Proofs.Stances
import Kerf.Proofs.CuspRuns
import Kerf.Proofs.ClosedTours
import Kerf.Proofs.SplitWalk
import Kerf.Proofs.GridSteps
import Kerf.Proofs.CleanRings
import Kerf.Proofs.SeamedLoops
import Kerf.Proofs.SurfaceChain
import Kerf.Proofs.SourceLines
import Kerf.Proofs.ArgumentOrder
import Kerf.Proofs.Groupings
import Kerf.Proofs.Leads
import Kerf.Proofs.GridArithmetic
import Kerf.Proofs.SeparateBoxes
import Kerf.Proofs.StockPreview
import Kerf.Proofs.StrippedLines
import Kerf.Proofs.CanonicalNumbers
