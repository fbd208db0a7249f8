import ViewSync.Source.Diagnostic
import ViewSync.Source.Dedent
import ViewSync.Text.Quoted
import ViewSync.Text.Uppercase
import ViewSync.Text.Hex
import ViewSync.Decimal.Read
import ViewSync.Token.Basic
import ViewSync.Token.Scan
import ViewSync.Token.Lex
import ViewSync.Json.Printer
import ViewSync.Json.Reader
import ViewSync.Parser.Expression
import ViewSync.Parser.Statement
import ViewSync.View.Scope
import ViewSync.View.Lower
import ViewSync.Script.Render
import ViewSync.View.Definition
import ViewSync.View.Receiver
import ViewSync.Source.DiagnosticJson
import ViewSync.Wire.Change
import ViewSync.Wire.Message
import ViewSync.Wire.Config
import ViewSync.Backend.Error
import ViewSync.Backend.Table
import ViewSync.Backend.Component
import ViewSync.Backend.Clock
import ViewSync.Backend.Session
import ViewSync.Backend.State
import ViewSync.Backend.Activation
import ViewSync.Backend.Update
import ViewSync.Backend.Lifecycle
import ViewSync.Backend.Timing
import ViewSync.Backend.Act
import ViewSync.Backend.Run
import ViewSync.Backend.Callbacks.Update
import ViewSync.Backend.Callbacks.Lifecycle
import ViewSync.Backend.Callbacks.Inbound
import ViewSync.Backend.Callbacks.Timing
import ViewSync.Backend.Program
import ViewSync.Scenario.Step
import ViewSync.Scenario.Handles
import ViewSync.Scenario.Play
import ViewSync.Proofs.Backend.Course
import ViewSync.Proofs.Backend.Execute
import ViewSync.Proofs.Backend.Still
import ViewSync.Proofs.Backend.Coherent
import ViewSync.Proofs.Backend.Construction
import ViewSync.Proofs.Backend.Destroyed
import ViewSync.Proofs.Backend.Lifecycle
import ViewSync.Proofs.Backend.Mirror
import ViewSync.Proofs.Backend.Views
import ViewSync.Proofs.Backend.Batches
import ViewSync.Proofs.Backend.Activation
import ViewSync.Proofs.Backend.Failures
import ViewSync.Proofs.View.Resolution
import ViewSync.Proofs.Wire.Message
import ViewSync.Proofs.Wire.KeyOrder
import ViewSync.Proofs.Source.DiagnosticJson
import ViewSync.Proofs.View.Faults
import ViewSync.Proofs.Parser.Leaves
import ViewSync.Proofs.View.Subset
import ViewSync.Proofs.Parser.Targets
import ViewSync.Proofs.View.Redeclaration
import ViewSync.Proofs.Script.Lexemes
import ViewSync.Proofs.Script.Pieces
import ViewSync.Proofs.View.Text
import ViewSync.Proofs.View.Lexemes
import ViewSync.Proofs.Script.Operators
import ViewSync.Proofs.View.Operators
import ViewSync.Proofs.View.Grouping
import ViewSync.Proofs.View.Reading
import ViewSync.Proofs.View.Fragments
import ViewSync.Proofs.Decimal.Sign
import ViewSync.Proofs.Token.Written
import ViewSync.Proofs.Source.Places
import ViewSync.Proofs.Source.Dedent
import ViewSync.Proofs.Token.Spelling
import ViewSync.Proofs.Token.Coverage
import ViewSync.Proofs.Token.Layout
import ViewSync.Proofs.Token.Locality
import ViewSync.Proofs.Token.Ahead
import ViewSync.Proofs.Token.BlankLines
import ViewSync.Proofs.Parser.Phrase
import ViewSync.Proofs.Parser.Takes
import ViewSync.Proofs.Parser.Rules
import ViewSync.Proofs.Parser.Levels
import ViewSync.Proofs.Parser.RoundTrip
import ViewSync.Proofs.Parser.Built
import ViewSync.Proofs.Parser.Nesting
import ViewSync.Proofs.Token.Blocks
import ViewSync.Proofs.Parser.Recovery
import ViewSync.Proofs.Wire.Actions
import ViewSync.Proofs.Backend.Names
import ViewSync.Proofs.Backend.Creation
import ViewSync.Proofs.Backend.Refusals
import ViewSync.Proofs.Backend.Current
import ViewSync.Proofs.Backend.Listeners
import ViewSync.Proofs.Backend.Clock
import ViewSync.Proofs.Backend.Scheduling
import ViewSync.Proofs.Backend.Timely
import ViewSync.Proofs.Backend.Timekeeping
import ViewSync.Proofs.Backend.Debouncers
import ViewSync.Proofs.Backend.Debouncing
import ViewSync.Proofs.Backend.Overtaking
import ViewSync.Proofs.Backend.Periodics
import ViewSync.Proofs.Backend.Rearming
import ViewSync.Proofs.Backend.Ticking
import ViewSync.Proofs.Backend.Periods
import ViewSync.Proofs.Parser.Names
import ViewSync.Proofs.View.Literals
import ViewSync.Proofs.Token.LineEndings
import ViewSync.Proofs.Parser.OneLine
import ViewSync.Proofs.Parser.Refusals
import ViewSync.Proofs.Parser.Halting
import ViewSync.Proofs.Parser.Depth
import ViewSync.Proofs.Json.Grammar
import ViewSync.Proofs.Token.WholeNumbers
import ViewSync.Proofs.Parser.Termination
import ViewSync.Proofs.Parser.Budget
import ViewSync.Proofs.Bytes.Whole
