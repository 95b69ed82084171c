import FuzzyInference.Assignment
import FuzzyInference.Batch
import FuzzyInference.Calendar
import FuzzyInference.Command.Action
import FuzzyInference.Command.Console
import FuzzyInference.Command.Line
import FuzzyInference.Command.Pipeline
import FuzzyInference.Connective
import FuzzyInference.Csv
import FuzzyInference.Curve
import FuzzyInference.Decimal.Binary
import FuzzyInference.Decimal.Layout
import FuzzyInference.Decimal.Numeral
import FuzzyInference.Decimal.Places
import FuzzyInference.Decimal.Power
import FuzzyInference.Decimal.Shortest
import FuzzyInference.Directory
import FuzzyInference.Document.Display
import FuzzyInference.Document.Json.Reader
import FuzzyInference.Document.Json.Writer
import FuzzyInference.Document.Number
import FuzzyInference.Document.Value
import FuzzyInference.Document.Yaml
import FuzzyInference.Document.Yaml.Cursor
import FuzzyInference.Document.Yaml.Digit
import FuzzyInference.Document.Yaml.Fault
import FuzzyInference.Document.Yaml.Node
import FuzzyInference.Document.Yaml.Plain
import FuzzyInference.Document.Yaml.Scalar
import FuzzyInference.Document.Yaml.Time
import FuzzyInference.Document.Yaml.Token
import FuzzyInference.Engine
import FuzzyInference.Engine.Input
import FuzzyInference.Engine.Setup
import FuzzyInference.Fault
import FuzzyInference.Journal
import FuzzyInference.Main
import FuzzyInference.Membership
import FuzzyInference.Membership.Basic
import FuzzyInference.Model
import FuzzyInference.Model.Document
import FuzzyInference.Model.File
import FuzzyInference.Model.Listing
import FuzzyInference.Options
import FuzzyInference.Proofs.Assignment
import FuzzyInference.Proofs.Assignment.Columns
import FuzzyInference.Proofs.Batch.Columns
import FuzzyInference.Proofs.Batch.Rows
import FuzzyInference.Proofs.Command.Applying
import FuzzyInference.Proofs.Command.Loading
import FuzzyInference.Proofs.Curve.Affine
import FuzzyInference.Proofs.Curve.Center
import FuzzyInference.Proofs.Curve.Cover
import FuzzyInference.Proofs.Curve.Cut
import FuzzyInference.Proofs.Curve.Envelope
import FuzzyInference.Proofs.Curve.Scaling
import FuzzyInference.Proofs.Curve.Superposition
import FuzzyInference.Proofs.Decimal.Figure
import FuzzyInference.Proofs.Decimal.Numeral
import FuzzyInference.Proofs.Document.Value
import FuzzyInference.Proofs.Double
import FuzzyInference.Proofs.Engine.Call
import FuzzyInference.Proofs.Engine.Explanation
import FuzzyInference.Proofs.Engine.Fresh
import FuzzyInference.Proofs.Engine.History
import FuzzyInference.Proofs.Engine.Input
import FuzzyInference.Proofs.Engine.Role
import FuzzyInference.Proofs.Engine.Setup
import FuzzyInference.Proofs.Engine.Value
import FuzzyInference.Proofs.Exact
import FuzzyInference.Proofs.Membership
import FuzzyInference.Proofs.Membership.Shape
import FuzzyInference.Proofs.Model.Document
import FuzzyInference.Proofs.Model.DocumentFault
import FuzzyInference.Proofs.Model.Equality
import FuzzyInference.Proofs.Model.Listing
import FuzzyInference.Proofs.Model.RuleLine
import FuzzyInference.Proofs.Model.Spelling
import FuzzyInference.Proofs.Model.WellFormed
import FuzzyInference.Proofs.Order
import FuzzyInference.Proofs.Pairing
import FuzzyInference.Proofs.Rule.Acceptance
import FuzzyInference.Proofs.Rule.Again
import FuzzyInference.Proofs.Rule.Calls
import FuzzyInference.Proofs.Rule.Comparison
import FuzzyInference.Proofs.Rule.Conclusion
import FuzzyInference.Proofs.Rule.Demand
import FuzzyInference.Proofs.Rule.Descent
import FuzzyInference.Proofs.Rule.Grammar
import FuzzyInference.Proofs.Rule.LastOperand
import FuzzyInference.Proofs.Rule.Lexeme
import FuzzyInference.Proofs.Rule.Munch
import FuzzyInference.Proofs.Rule.Nesting
import FuzzyInference.Proofs.Rule.Pass
import FuzzyInference.Proofs.Rule.Printing
import FuzzyInference.Proofs.Rule.Reading
import FuzzyInference.Proofs.Rule.Relevance
import FuzzyInference.Proofs.Rule.Settled
import FuzzyInference.Proofs.Rule.Trace
import FuzzyInference.Proofs.Rule.Vocabulary
import FuzzyInference.Proofs.RuleSet
import FuzzyInference.Proofs.RuleSet.Batches
import FuzzyInference.Proofs.RuleSet.SameValue
import FuzzyInference.Proofs.Session
import FuzzyInference.Proofs.Session.Call
import FuzzyInference.Proofs.Session.Heap
import FuzzyInference.Proofs.Session.Registration
import FuzzyInference.Proofs.SymbolTable.Change
import FuzzyInference.Proofs.SymbolTable.Frozen
import FuzzyInference.Proofs.SymbolTable.Value
import FuzzyInference.Proofs.Text.Lines
import FuzzyInference.Proofs.Text.Lowercase
import FuzzyInference.Proofs.Text.Whole
import FuzzyInference.Proofs.Text.Words
import FuzzyInference.Proofs.Text.Written
import FuzzyInference.Report
import FuzzyInference.Rule
import FuzzyInference.Rule.Error
import FuzzyInference.Rule.Evaluation
import FuzzyInference.Rule.Lexer
import FuzzyInference.Rule.Postfix
import FuzzyInference.Rule.Reading
import FuzzyInference.Rule.Status
import FuzzyInference.Rule.Token
import FuzzyInference.RuleSet
import FuzzyInference.Scalar
import FuzzyInference.Session
import FuzzyInference.SymbolTable
import FuzzyInference.Text.Basic
import FuzzyInference.Text.Blank
import FuzzyInference.Text.Bytes
import FuzzyInference.Text.CodePoint
import FuzzyInference.Text.Digit
import FuzzyInference.Text.Lines
import FuzzyInference.Text.Lowercase
import FuzzyInference.Text.Lowercase.Table
import FuzzyInference.Text.Printable
import FuzzyInference.Text.Quoted
import FuzzyInference.Text.Span
import FuzzyInference.Text.Words
import FuzzyInference.Variable
