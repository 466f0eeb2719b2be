import Blockwork.Blocks.Action
import Blockwork.Blocks.Control
import Blockwork.Blocks.Data
import Blockwork.Blocks.Operator
import Blockwork.Blocks.Probe
import Blockwork.Cbor.Decode
import Blockwork.Cbor.Item
import Blockwork.Cbor.Record
import Blockwork.Command.Arguments
import Blockwork.Command.Lines
import Blockwork.Command.Run
import Blockwork.Config.Basic
import Blockwork.Config.Load
import Blockwork.Config.Parse
import Blockwork.Files.Basic
import Blockwork.Files.Document
import Blockwork.Files.Path
import Blockwork.Files.Read
import Blockwork.Files.Upward
import Blockwork.Journal.Basic
import Blockwork.Journal.Identifier
import Blockwork.Journal.Record
import Blockwork.Journal.Recorder
import Blockwork.Journal.Session
import Blockwork.Machine.Execute
import Blockwork.Machine.Fault
import Blockwork.Machine.Heap
import Blockwork.Machine.Registry
import Blockwork.Machine.Run
import Blockwork.Machine.Scope
import Blockwork.Main
import Blockwork.Markup.Node
import Blockwork.Markup.Source
import Blockwork.Markup.Xml.Name
import Blockwork.Markup.Xml.Token
import Blockwork.Markup.Xml.Tree
import Blockwork.Markup.Yaml.Cursor
import Blockwork.Markup.Yaml.Element
import Blockwork.Markup.Yaml.Fault
import Blockwork.Markup.Yaml.Input
import Blockwork.Markup.Yaml.Kind
import Blockwork.Markup.Yaml.Lexer
import Blockwork.Markup.Yaml.Print
import Blockwork.Markup.Yaml.Scalar
import Blockwork.Markup.Yaml.Style
import Blockwork.Markup.Yaml.Token
import Blockwork.Markup.Yaml.Tree
import Blockwork.Number.Arithmetic
import Blockwork.Number.Binary64
import Blockwork.Number.Calendar
import Blockwork.Number.Decimal
import Blockwork.Number.Display
import Blockwork.Number.Integer
import Blockwork.Number.Numeral
import Blockwork.Number.Shortest
import Blockwork.Program.Basic
import Blockwork.Program.Parse
import Blockwork.Program.Walk
import Blockwork.Proofs.Cbor.Canonical
import Blockwork.Proofs.Cbor.Reading
import Blockwork.Proofs.Cbor.RoundTrip
import Blockwork.Proofs.Cbor.Width
import Blockwork.Proofs.Config.Nearest
import Blockwork.Proofs.Files.Places
import Blockwork.Proofs.Journal.Recording
import Blockwork.Proofs.Machine.Attribution
import Blockwork.Proofs.Machine.Calls
import Blockwork.Proofs.Machine.Closure
import Blockwork.Proofs.Machine.Correspondence
import Blockwork.Proofs.Machine.Coupling
import Blockwork.Proofs.Machine.Course
import Blockwork.Proofs.Machine.Declared
import Blockwork.Proofs.Machine.Detachment
import Blockwork.Proofs.Machine.Discipline
import Blockwork.Proofs.Machine.Footprint
import Blockwork.Proofs.Machine.Frame
import Blockwork.Proofs.Machine.History
import Blockwork.Proofs.Machine.Identity
import Blockwork.Proofs.Machine.Indexing
import Blockwork.Proofs.Machine.Limits
import Blockwork.Proofs.Machine.ListWrites
import Blockwork.Proofs.Machine.Loops
import Blockwork.Proofs.Machine.Naming
import Blockwork.Proofs.Machine.Nesting
import Blockwork.Proofs.Machine.Observing
import Blockwork.Proofs.Machine.Parts
import Blockwork.Proofs.Machine.Preflight
import Blockwork.Proofs.Machine.Renewal
import Blockwork.Proofs.Machine.Reporting
import Blockwork.Proofs.Machine.Routing
import Blockwork.Proofs.Machine.Termination
import Blockwork.Proofs.Machine.Trail
import Blockwork.Proofs.Machine.Unknown
import Blockwork.Proofs.Machine.Unused
import Blockwork.Proofs.Number.Displayed
import Blockwork.Proofs.Number.Exact
import Blockwork.Proofs.Number.Folded
import Blockwork.Proofs.Number.Nearest
import Blockwork.Proofs.Number.Truncation
import Blockwork.Proofs.Program.Agreement
import Blockwork.Proofs.Program.Decoration
import Blockwork.Proofs.Program.Grammar
import Blockwork.Proofs.Program.Position
import Blockwork.Proofs.Program.Reading
import Blockwork.Proofs.Program.Rendering
import Blockwork.Proofs.Program.Visits
import Blockwork.Proofs.Program.Warnings
import Blockwork.Proofs.Text.ByteOrder
import Blockwork.Proofs.Text.Case
import Blockwork.Proofs.Text.Decoding
import Blockwork.Proofs.Value.Equality
import Blockwork.Proofs.Value.Order
import Blockwork.Proofs.Xml.Names
import Blockwork.Proofs.Xml.Trees
import Blockwork.Proofs.Yaml.Composing
import Blockwork.Proofs.Yaml.Cursor
import Blockwork.Proofs.Yaml.Filling
import Blockwork.Proofs.Yaml.Input
import Blockwork.Proofs.Yaml.Layout
import Blockwork.Proofs.Yaml.Lexing
import Blockwork.Proofs.Yaml.Literal
import Blockwork.Proofs.Yaml.Pages
import Blockwork.Proofs.Yaml.Plain
import Blockwork.Proofs.Yaml.Quoted
import Blockwork.Proofs.Yaml.RoundTrip
import Blockwork.Proofs.Yaml.Texts
import Blockwork.Proofs.Yaml.Tokens
import Blockwork.Text.Base64
import Blockwork.Text.Blank
import Blockwork.Text.Case
import Blockwork.Text.CaseTable
import Blockwork.Text.Letter
import Blockwork.Text.Printable
import Blockwork.Text.Quoted
import Blockwork.Text.Utf8
import Blockwork.Toml.Basic
import Blockwork.Toml.Document
import Blockwork.Toml.Literal
import Blockwork.Toml.Table
import Blockwork.Value.Basic
import Blockwork.Value.Compare
import Blockwork.Value.Convert
import Blockwork.Value.Sequence
