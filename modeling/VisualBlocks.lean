import VisualBlocks.Adapter
import VisualBlocks.CommandLine.Arguments
import VisualBlocks.CommandLine.Folder
import VisualBlocks.CommandLine.Run
import VisualBlocks.Editor
import VisualBlocks.Generation.Automation
import VisualBlocks.Generation.Canvas
import VisualBlocks.Generation.Emission
import VisualBlocks.Generation.Language
import VisualBlocks.Generation.Pass
import VisualBlocks.Generation.Rule
import VisualBlocks.Generation.Script
import VisualBlocks.Generation.Walk
import VisualBlocks.Graph
import VisualBlocks.Json.Number
import VisualBlocks.Json.Reader
import VisualBlocks.Json.Value
import VisualBlocks.Lint
import VisualBlocks.Main
import VisualBlocks.Number.Binary
import VisualBlocks.Number.Layout
import VisualBlocks.Number.Reading
import VisualBlocks.Number.Shortest
import VisualBlocks.Proofs.AdapterPath
import VisualBlocks.Proofs.BlockNames
import VisualBlocks.Proofs.Coverage
import VisualBlocks.Proofs.DefaultIdentifiers
import VisualBlocks.Proofs.ErrorPositions
import VisualBlocks.Proofs.ExpressionValues
import VisualBlocks.Proofs.Extensions
import VisualBlocks.Proofs.FaithfulLoading
import VisualBlocks.Proofs.Generation.Alike
import VisualBlocks.Proofs.Generation.Arrivals
import VisualBlocks.Proofs.Generation.Asking
import VisualBlocks.Proofs.Generation.BlockTree
import VisualBlocks.Proofs.Generation.Bodies
import VisualBlocks.Proofs.Generation.Branching
import VisualBlocks.Proofs.Generation.Calls
import VisualBlocks.Proofs.Generation.Composition
import VisualBlocks.Proofs.Generation.Entries
import VisualBlocks.Proofs.Generation.Inlets
import VisualBlocks.Proofs.Generation.InlineComments
import VisualBlocks.Proofs.Generation.Items
import VisualBlocks.Proofs.Generation.Journal
import VisualBlocks.Proofs.Generation.Levels
import VisualBlocks.Proofs.Generation.Licence
import VisualBlocks.Proofs.Generation.Meaning
import VisualBlocks.Proofs.Generation.Naming
import VisualBlocks.Proofs.Generation.Precedence
import VisualBlocks.Proofs.Generation.Recording
import VisualBlocks.Proofs.Generation.Roots
import VisualBlocks.Proofs.Generation.Rules
import VisualBlocks.Proofs.Generation.Serving
import VisualBlocks.Proofs.Generation.Shape
import VisualBlocks.Proofs.Generation.Spelling
import VisualBlocks.Proofs.Generation.Statements
import VisualBlocks.Proofs.Generation.Stubs
import VisualBlocks.Proofs.Generation.Trace
import VisualBlocks.Proofs.Generation.TreeValue
import VisualBlocks.Proofs.Generation.Trees
import VisualBlocks.Proofs.Generation.Values
import VisualBlocks.Proofs.Generation.VariableNames
import VisualBlocks.Proofs.Generation.Visits
import VisualBlocks.Proofs.Generation.Walking
import VisualBlocks.Proofs.JoinedTexts
import VisualBlocks.Proofs.LayoutPasses
import VisualBlocks.Proofs.Json.Objects
import VisualBlocks.Proofs.LifeCycle
import VisualBlocks.Proofs.Lint.Sockets
import VisualBlocks.Proofs.Lint.Tables
import VisualBlocks.Proofs.LoopCounters
import VisualBlocks.Proofs.Number.Bits
import VisualBlocks.Proofs.Number.Numeral
import VisualBlocks.Proofs.Number.RoundTrip
import VisualBlocks.Proofs.Number.Rounding
import VisualBlocks.Proofs.Number.Truncation
import VisualBlocks.Proofs.Placeholders
import VisualBlocks.Proofs.Programs
import VisualBlocks.Proofs.Registration
import VisualBlocks.Proofs.Sandbox.Budget
import VisualBlocks.Proofs.Sandbox.Driving
import VisualBlocks.Proofs.Sandbox.Faultless
import VisualBlocks.Proofs.Sandbox.History
import VisualBlocks.Proofs.Sandbox.Inert
import VisualBlocks.Proofs.Schema.Descriptors
import VisualBlocks.Proofs.Script.Addends
import VisualBlocks.Proofs.Script.Agreement
import VisualBlocks.Proofs.Script.Callees
import VisualBlocks.Proofs.Script.Compilation
import VisualBlocks.Proofs.Script.Cutting
import VisualBlocks.Proofs.Script.Evaluation
import VisualBlocks.Proofs.Script.Grammar
import VisualBlocks.Proofs.Script.Layout
import VisualBlocks.Proofs.Script.Leftward
import VisualBlocks.Proofs.Script.Locations
import VisualBlocks.Proofs.Script.Moves
import VisualBlocks.Proofs.Script.Outline
import VisualBlocks.Proofs.Script.Patching
import VisualBlocks.Proofs.Script.Pieces
import VisualBlocks.Proofs.Script.Printing
import VisualBlocks.Proofs.Script.Progress
import VisualBlocks.Proofs.Script.Reading
import VisualBlocks.Proofs.Script.Regrouping
import VisualBlocks.Proofs.Script.Renaming
import VisualBlocks.Proofs.Script.Respacing
import VisualBlocks.Proofs.Script.Respelling
import VisualBlocks.Proofs.Script.Scanning
import VisualBlocks.Proofs.Script.Scope
import VisualBlocks.Proofs.Script.StackDepth
import VisualBlocks.Proofs.Script.StatementGrammar
import VisualBlocks.Proofs.Script.StatementReading
import VisualBlocks.Proofs.Script.Stepping
import VisualBlocks.Proofs.Script.Termination
import VisualBlocks.Proofs.StatementOrder
import VisualBlocks.Proofs.Table
import VisualBlocks.Proofs.TangledGraphs
import VisualBlocks.Proofs.Text.Candidate
import VisualBlocks.Proofs.Text.Lines
import VisualBlocks.Proofs.ToolboxRoundTrip
import VisualBlocks.Proofs.TwoFormats
import VisualBlocks.Proofs.Workspace.Assembly
import VisualBlocks.Proofs.Workspace.Canvas
import VisualBlocks.Proofs.Workspace.Connecting
import VisualBlocks.Proofs.Workspace.Editing
import VisualBlocks.Proofs.Workspace.Forest
import VisualBlocks.Proofs.Workspace.HandingOut
import VisualBlocks.Proofs.Workspace.History
import VisualBlocks.Proofs.Workspace.InPlace
import VisualBlocks.Proofs.Workspace.JsonForm
import VisualBlocks.Proofs.Workspace.Links
import VisualBlocks.Proofs.Workspace.Reachable
import VisualBlocks.Proofs.Workspace.ReadingOrder
import VisualBlocks.Proofs.Workspace.Removal
import VisualBlocks.Proofs.Workspace.Sketch
import VisualBlocks.Proofs.Workspace.Slots
import VisualBlocks.Proofs.Workspace.Sorted
import VisualBlocks.Proofs.Workspace.XmlForm
import VisualBlocks.Proofs.Xml.Characters
import VisualBlocks.Proofs.Xml.RoundTrip
import VisualBlocks.Sandbox.Capabilities
import VisualBlocks.Sandbox.Run
import VisualBlocks.Sandbox.Surface
import VisualBlocks.Schema.BlockType
import VisualBlocks.Schema.Builtin
import VisualBlocks.Schema.Descriptor
import VisualBlocks.Schema.Fault
import VisualBlocks.Schema.Registry
import VisualBlocks.Script.Code
import VisualBlocks.Script.Lexer
import VisualBlocks.Script.Literal
import VisualBlocks.Script.Machine
import VisualBlocks.Script.Parser
import VisualBlocks.Script.Program
import VisualBlocks.Script.Token
import VisualBlocks.Script.Value
import VisualBlocks.Table
import VisualBlocks.Text.Blank
import VisualBlocks.Text.Candidate
import VisualBlocks.Text.DecimalDigit
import VisualBlocks.Text.Hidden
import VisualBlocks.Text.Lines
import VisualBlocks.Toolbox.Basic
import VisualBlocks.Toolbox.Builtin
import VisualBlocks.Toolbox.Markup
import VisualBlocks.Vocabulary
import VisualBlocks.Workspace.Basic
import VisualBlocks.Workspace.Edit
import VisualBlocks.Workspace.FromJson
import VisualBlocks.Workspace.FromXml
import VisualBlocks.Workspace.Load
import VisualBlocks.Workspace.Saved
import VisualBlocks.Xml.Assignment
import VisualBlocks.Xml.Character
import VisualBlocks.Xml.Doctype
import VisualBlocks.Xml.Encoding
import VisualBlocks.Xml.Heading
import VisualBlocks.Xml.Name
import VisualBlocks.Xml.Namespace
import VisualBlocks.Xml.Reader
import VisualBlocks.Xml.Reference
import VisualBlocks.Xml.Token
import VisualBlocks.Xml.Tree
import VisualBlocks.Xml.Writer
