import Stepwise.Check.Finding
import Stepwise.Check.Visit
import Stepwise.CommandLine.Arguments
import Stepwise.CommandLine.Report
import Stepwise.CommandLine.Run
import Stepwise.Document.Access
import Stepwise.Document.Basic
import Stepwise.Document.Fixture
import Stepwise.Explain.Phrase
import Stepwise.Explain.Sentence
import Stepwise.Grammar.Layout
import Stepwise.Grammar.Match
import Stepwise.Grammar.Rule
import Stepwise.Grammar.Token
import Stepwise.Ini.Reader
import Stepwise.Json.Basic
import Stepwise.Json.Printer
import Stepwise.Json.Reader
import Stepwise.Json.Record
import Stepwise.Json5.Reader
import Stepwise.Machine.Basic
import Stepwise.Machine.Call
import Stepwise.Machine.Context
import Stepwise.Machine.Dispatch
import Stepwise.Machine.Eval
import Stepwise.Machine.Event
import Stepwise.Machine.Json
import Stepwise.Machine.Log
import Stepwise.Machine.Member
import Stepwise.Machine.Scope
import Stepwise.Machine.Stack
import Stepwise.Machine.Step
import Stepwise.Machine.Work
import Stepwise.Main
import Stepwise.NameMap
import Stepwise.Number.Decimal
import Stepwise.Number.Layout
import Stepwise.Number.Magnitude
import Stepwise.Number.Shortest
import Stepwise.Number.Word
import Stepwise.Proofs.Check.Offences
import Stepwise.Proofs.Check.Places
import Stepwise.Proofs.Check.Walk
import Stepwise.Proofs.CommandLine.Driving
import Stepwise.Proofs.CommandLine.Printing
import Stepwise.Proofs.Document.Changes
import Stepwise.Proofs.Document.Properties
import Stepwise.Proofs.Grammar.Breaking
import Stepwise.Proofs.Grammar.Derivation
import Stepwise.Proofs.Grammar.Lexeme
import Stepwise.Proofs.Grammar.Numerals
import Stepwise.Proofs.Grammar.Outcome
import Stepwise.Proofs.Grammar.Parts
import Stepwise.Proofs.Grammar.Placement
import Stepwise.Proofs.Grammar.Recognition
import Stepwise.Proofs.Grammar.Relayout
import Stepwise.Proofs.Grammar.Rematching
import Stepwise.Proofs.Grammar.Rescanning
import Stepwise.Proofs.Grammar.Scanning
import Stepwise.Proofs.Json.ReadBack
import Stepwise.Proofs.Machine.Addressed
import Stepwise.Proofs.Machine.Agreement
import Stepwise.Proofs.Machine.Cases
import Stepwise.Proofs.Machine.Commands
import Stepwise.Proofs.Machine.Completions
import Stepwise.Proofs.Machine.Diagnostics
import Stepwise.Proofs.Machine.Ending
import Stepwise.Proofs.Machine.Failures
import Stepwise.Proofs.Machine.Footprint
import Stepwise.Proofs.Machine.Frames
import Stepwise.Proofs.Machine.Held
import Stepwise.Proofs.Machine.Histories
import Stepwise.Proofs.Machine.Invocations
import Stepwise.Proofs.Machine.Keeps
import Stepwise.Proofs.Machine.Listeners
import Stepwise.Proofs.Machine.Moments
import Stepwise.Proofs.Machine.Notes
import Stepwise.Proofs.Machine.Occurrence
import Stepwise.Proofs.Machine.Operations
import Stepwise.Proofs.Machine.Origin
import Stepwise.Proofs.Machine.Pending
import Stepwise.Proofs.Machine.Plan
import Stepwise.Proofs.Machine.Reentry
import Stepwise.Proofs.Machine.Reference
import Stepwise.Proofs.Machine.Registry
import Stepwise.Proofs.Machine.Returns
import Stepwise.Proofs.Machine.Rounds
import Stepwise.Proofs.Machine.Scopes
import Stepwise.Proofs.Machine.Scopings
import Stepwise.Proofs.Machine.Script
import Stepwise.Proofs.Machine.Simulation
import Stepwise.Proofs.Machine.Stopping
import Stepwise.Proofs.Machine.Suspension
import Stepwise.Proofs.Machine.Turns
import Stepwise.Proofs.Machine.Units
import Stepwise.Proofs.Machine.Visible
import Stepwise.Proofs.Machine.Writes
import Stepwise.Proofs.Number.Nearest
import Stepwise.Proofs.Number.Point
import Stepwise.Proofs.Number.Printed
import Stepwise.Proofs.Number.Rounding
import Stepwise.Proofs.Number.Seventeen
import Stepwise.Proofs.Number.Unsigned
import Stepwise.Proofs.Number.Whole
import Stepwise.Proofs.Syntax.Building
import Stepwise.Proofs.Syntax.Encoding
import Stepwise.Proofs.Syntax.Interchange
import Stepwise.Proofs.Syntax.LayoutFree
import Stepwise.Proofs.Syntax.Legible
import Stepwise.Proofs.Syntax.Levels
import Stepwise.Proofs.Syntax.Lines
import Stepwise.Proofs.Syntax.Nesting
import Stepwise.Proofs.Syntax.Opening
import Stepwise.Proofs.Syntax.Outline
import Stepwise.Proofs.Syntax.Positions
import Stepwise.Proofs.Syntax.Proper
import Stepwise.Proofs.Syntax.Readable
import Stepwise.Proofs.Syntax.Rebuilding
import Stepwise.Proofs.Syntax.RoundTrip
import Stepwise.Proofs.Syntax.Shape
import Stepwise.Proofs.Syntax.Totality
import Stepwise.Proofs.Syntax.Unreadable
import Stepwise.Proofs.Syntax.Words
import Stepwise.Proofs.Value.Data
import Stepwise.Proofs.Value.Equality
import Stepwise.Proofs.Value.Radix
import Stepwise.Proofs.Value.Strings
import Stepwise.Ron.Reader
import Stepwise.Settings.Basic
import Stepwise.Settings.Format
import Stepwise.Settings.Layer
import Stepwise.Settings.Load
import Stepwise.Settings.Variable
import Stepwise.Syntax.Json
import Stepwise.Syntax.OfTree
import Stepwise.Syntax.Parse
import Stepwise.Syntax.Render
import Stepwise.Syntax.Same
import Stepwise.Syntax.Span
import Stepwise.Syntax.Tree
import Stepwise.Text.Blank
import Stepwise.Text.Case
import Stepwise.Text.CaseTable
import Stepwise.Text.CharClass
import Stepwise.Text.Quoted
import Stepwise.Text.Units
import Stepwise.Text.Visible
import Stepwise.Toml.Reader
import Stepwise.Toml.Table
import Stepwise.Toml.Token
import Stepwise.Value.Basic
import Stepwise.Value.Convert
import Stepwise.Value.Json
import Stepwise.Value.Operators
import Stepwise.Yaml.Node
import Stepwise.Yaml.Scalar
import Stepwise.Yaml.Scan
import Stepwise.Yaml.Token
