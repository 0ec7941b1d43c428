import LedgerReport.Aggregate
import LedgerReport.Classified
import LedgerReport.Command.Arguments
import LedgerReport.Command.Basic
import LedgerReport.Command.Run
import LedgerReport.Decimal.Binary
import LedgerReport.Decimal.Fixed
import LedgerReport.Decimal.Shortest
import LedgerReport.Decimal.Stepwise
import LedgerReport.Document.Csv
import LedgerReport.Document.Json
import LedgerReport.Document.JsonText
import LedgerReport.Document.Yaml
import LedgerReport.Document.YamlScalar
import LedgerReport.Error
import LedgerReport.Expression.Context
import LedgerReport.Expression.Evaluation
import LedgerReport.Expression.Node
import LedgerReport.Expression.Reader
import LedgerReport.Expression.Reference
import LedgerReport.Expression.Token
import LedgerReport.Files
import LedgerReport.Filter
import LedgerReport.Logged
import LedgerReport.Main
import LedgerReport.Movement.Basic
import LedgerReport.Movement.Column
import LedgerReport.Movement.Dataset
import LedgerReport.Movement.Digest
import LedgerReport.Movement.File
import LedgerReport.Movement.Frame
import LedgerReport.Movement.Record
import LedgerReport.Movement.Sign
import LedgerReport.Number
import LedgerReport.Numeral
import LedgerReport.Pattern.Fault
import LedgerReport.Pattern.Reader
import LedgerReport.Pattern.Search
import LedgerReport.Pattern.Tree
import LedgerReport.Period
import LedgerReport.Proofs.Amounts
import LedgerReport.Proofs.Command.Acceptance
import LedgerReport.Proofs.Decimal.Fixed
import LedgerReport.Proofs.Expression.Circular
import LedgerReport.Proofs.Expression.Context
import LedgerReport.Proofs.Expression.Grammar
import LedgerReport.Proofs.Expression.Reading
import LedgerReport.Proofs.Expression.Lexeme
import LedgerReport.Proofs.Expression.Lookups
import LedgerReport.Proofs.Expression.Meaning
import LedgerReport.Proofs.FileName
import LedgerReport.Proofs.Filter
import LedgerReport.Proofs.Numeral
import LedgerReport.Proofs.Period.Key
import LedgerReport.Proofs.Period.Members
import LedgerReport.Proofs.Period.Selection
import LedgerReport.Proofs.Report.CycleSearch
import LedgerReport.Proofs.Report.Cycles
import LedgerReport.Proofs.Report.Decoded
import LedgerReport.Proofs.Report.Flaws
import LedgerReport.Proofs.Report.Order
import LedgerReport.Proofs.Report.Sound
import LedgerReport.Proofs.Report.Validation
import LedgerReport.Proofs.Statement.Answer
import LedgerReport.Proofs.Statement.Cache
import LedgerReport.Proofs.Statement.Columns
import LedgerReport.Proofs.Statement.Display
import LedgerReport.Proofs.Statement.Equations
import LedgerReport.Proofs.Statement.Pass
import LedgerReport.Proofs.Statement.Session
import LedgerReport.Proofs.Statement.Shelf
import LedgerReport.Proofs.Statement.Variables
import LedgerReport.Proofs.Statement.Variance
import LedgerReport.Proofs.Traversal
import LedgerReport.Report.Basic
import LedgerReport.Report.Decoded
import LedgerReport.Report.Graph
import LedgerReport.Report.Read
import LedgerReport.Report.Record
import LedgerReport.Report.Validation
import LedgerReport.Settings
import LedgerReport.Statement.Basic
import LedgerReport.Statement.Cache
import LedgerReport.Statement.Display
import LedgerReport.Statement.Engine
import LedgerReport.Statement.Layout
import LedgerReport.Statement.Listing
import LedgerReport.Statement.Measure
import LedgerReport.Statement.Row
import LedgerReport.Statement.Session
import LedgerReport.Statement.Shelf
import LedgerReport.Statement.Variance
import LedgerReport.Text.Basic
import LedgerReport.Text.Case
import LedgerReport.Text.Printable
import LedgerReport.Text.Quoted
import LedgerReport.Text.Word
import LedgerReport.Value
import LedgerReport.Proofs.Report.Arrangement
import LedgerReport.Proofs.Statement.Selected
import LedgerReport.Proofs.Statement.Arrangement
import LedgerReport.Proofs.Filter.Meaning
import LedgerReport.Proofs.Report.RoundTrip
import LedgerReport.Proofs.Expression.Position
import LedgerReport.Proofs.Expression.Stop
import LedgerReport.Proofs.Expression.Strict
import LedgerReport.Proofs.Decimal.Reading
import LedgerReport.Proofs.Decimal.Shown
import LedgerReport.Proofs.Period.Run
import LedgerReport.Proofs.Period.Wording
import LedgerReport.Proofs.Period.Built
import LedgerReport.Proofs.Period.Ending
import LedgerReport.Proofs.Period.Blocks
import LedgerReport.Proofs.Statement.Key
import LedgerReport.Proofs.Decimal.Distinct
import LedgerReport.Proofs.Text.Quoted
import LedgerReport.Proofs.Movement.Signature
import LedgerReport.Statement.Pool
import LedgerReport.Proofs.Statement.Pool
import LedgerReport.Proofs.Statement.Direct
import LedgerReport.Proofs.Decimal.Whole
import LedgerReport.Proofs.Movement.Record
import LedgerReport.Proofs.Movement.Frame
import LedgerReport.Proofs.Decimal.Order
import LedgerReport.Proofs.Aggregate
import LedgerReport.Proofs.Decimal.Nan
import LedgerReport.Proofs.Movement.Normal
import LedgerReport.Proofs.Movement.RoundTrip
import LedgerReport.Proofs.Statement.Failure
import LedgerReport.Proofs.Numeral.Spelling
import LedgerReport.Proofs.Movement.Sign
import LedgerReport.Proofs.Statement.Settings
import LedgerReport.Proofs.Expression.Identifier
import LedgerReport.Proofs.Report.Identifier
import LedgerReport.Proofs.Decimal.Exact
import LedgerReport.Proofs.Movement.Code
import LedgerReport.Proofs.Document.Json
import LedgerReport.Proofs.Movement.Column
import LedgerReport.Proofs.Movement.Layout
import LedgerReport.Proofs.Movement.File
import LedgerReport.Expression.Stack
import LedgerReport.Proofs.Expression.Stack
import LedgerReport.Proofs.Expression.Spacing
import LedgerReport.Expression.Enumeration
import LedgerReport.Report.Enumerated
import LedgerReport.Proofs.Report.Enumerated
