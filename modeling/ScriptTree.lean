import ScriptTree.Call
import ScriptTree.CommandLine
import ScriptTree.Decimal.Power
import ScriptTree.Decimal.Shortest
import ScriptTree.Entries
import ScriptTree.Expr.Evaluate
import ScriptTree.Expr.Lexer
import ScriptTree.Expr.Parser
import ScriptTree.Expr.Syntax
import ScriptTree.Expr.Token
import ScriptTree.Files.Path
import ScriptTree.Files.Tree
import ScriptTree.Json.Basic
import ScriptTree.Json.Lenient
import ScriptTree.Language
import ScriptTree.Load.Directive
import ScriptTree.Load.Document
import ScriptTree.Load.EntryKind
import ScriptTree.Load.Literal
import ScriptTree.Main
import ScriptTree.Node.Directory
import ScriptTree.Node.Literal
import ScriptTree.Node.Read
import ScriptTree.Node.Write
import ScriptTree.Number.Arithmetic
import ScriptTree.Number.Basic
import ScriptTree.Number.Reading
import ScriptTree.Operation
import ScriptTree.Properties.Basic
import ScriptTree.Properties.Lines
import ScriptTree.Properties.Markup
import ScriptTree.Scope.Context
import ScriptTree.Scope.Frame
import ScriptTree.Script.Fault
import ScriptTree.Script.Statement
import ScriptTree.Steps.Control
import ScriptTree.Steps.Sequence
import ScriptTree.Steps.Text
import ScriptTree.Template
import ScriptTree.Text.Alphabet
import ScriptTree.Text.Blank
import ScriptTree.Text.Casing
import ScriptTree.Text.Lines
import ScriptTree.Text.Printable
import ScriptTree.Text.Quoted
import ScriptTree.Text.Search
import ScriptTree.Time.Calendar
import ScriptTree.Time.Duration
import ScriptTree.Value.Basic
import ScriptTree.Value.Method
import ScriptTree.Value.Operator
import ScriptTree.Value.Text
import ScriptTree.World.Action
import ScriptTree.World.Basic
import ScriptTree.World.Lineage
import ScriptTree.World.Text
import ScriptTree.Xml.Event
import ScriptTree.Xml.Markup
import ScriptTree.Proofs.Load.Circularity
import ScriptTree.Proofs.Load.Directories
import ScriptTree.Proofs.Load.Failure
import ScriptTree.Proofs.Load.Growth
import ScriptTree.Proofs.Load.Kinship
import ScriptTree.Proofs.Load.Merge
import ScriptTree.Proofs.Load.Reload
import ScriptTree.Proofs.Load.Replay
import ScriptTree.Proofs.Run.Continues
import ScriptTree.Proofs.Run.Interpreter
import ScriptTree.Proofs.Run.Orderly
import ScriptTree.Proofs.Run.Visits
import ScriptTree.Proofs.Script.Standing
import ScriptTree.Proofs.Steps.EarlyReturn
import ScriptTree.Proofs.Steps.Frames
import ScriptTree.Proofs.Text.Parts
import ScriptTree.Proofs.World.Alive
import ScriptTree.Proofs.World.Below
import ScriptTree.Proofs.World.Rename
import ScriptTree.Proofs.World.Twin
import ScriptTree.Proofs.Script.Stability
import ScriptTree.Proofs.Script.Origin
import ScriptTree.Proofs.Steps.Whole
import ScriptTree.Proofs.Expr.Brackets
import ScriptTree.Proofs.Script.Separation
import ScriptTree.Proofs.Reading.Shadow
import ScriptTree.Proofs.Reading.Calm
import ScriptTree.Proofs.Place.Nested
import ScriptTree.Proofs.Place.Found
import ScriptTree.Proofs.Place.Slots
import ScriptTree.Proofs.Place.Update
import ScriptTree.Proofs.Reading.Repeats
import ScriptTree.Proofs.Expr.Printing
import ScriptTree.Proofs.Load.Rendering
import ScriptTree.Proofs.Load.Edits
import ScriptTree.Proofs.Load.Paths
import ScriptTree.Proofs.Load.Receipt
import ScriptTree.Proofs.Load.Writing
import ScriptTree.Proofs.Load.Instructions
import ScriptTree.Proofs.Load.Roundtrip
import ScriptTree.Proofs.Steps.LocalFrame
import ScriptTree.Proofs.Time.Spelling
import ScriptTree.Proofs.Properties.Writing
import ScriptTree.Proofs.Xml.Matching
import ScriptTree.Proofs.Load.Outline
import ScriptTree.Proofs.Load.Flattening
import ScriptTree.Proofs.Load.Precedence
import ScriptTree.Proofs.Expr.Blanks
import ScriptTree.Proofs.Template.Placeholders
import ScriptTree.Proofs.Steps.Assigned
import ScriptTree.Proofs.Expr.Dotted
import ScriptTree.Proofs.Reading.Indifferent
import ScriptTree.Proofs.Reading.Dotted
import ScriptTree.Proofs.Place.Rereading
import ScriptTree.Proofs.Number.Nearest
import ScriptTree.Proofs.Number.Doubles
import ScriptTree.Proofs.Number.Comparison
import ScriptTree.Proofs.Value.Equality
import ScriptTree.Proofs.Properties.Escapes
import ScriptTree.Proofs.Properties.Elements
import ScriptTree.Proofs.Number.Finite
import ScriptTree.Proofs.Number.Exactness
import ScriptTree.Proofs.Reading.Integers
import ScriptTree.Proofs.Load.Overrides
import ScriptTree.Proofs.Place.Positions
import ScriptTree.Proofs.Steps.Ending
import ScriptTree.Proofs.Steps.Handler
import ScriptTree.Proofs.Steps.Nesting
import ScriptTree.Proofs.World.Keeps
import ScriptTree.Proofs.Steps.Draining
import ScriptTree.Proofs.Number.Overflow
import ScriptTree.Proofs.Number.Signed
import ScriptTree.Proofs.Expr.Numerals
import ScriptTree.Proofs.Expr.Literals
import ScriptTree.Proofs.Load.WideIntegers
import ScriptTree.Proofs.Text.Counting
import ScriptTree.Proofs.Time.Written
import ScriptTree.Proofs.Script.Conservation
import ScriptTree.Proofs.Steps.Items
import ScriptTree.Proofs.Run.Stacks
