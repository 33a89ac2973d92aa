import Spreadsheet.Cascade
import Spreadsheet.Cell
import Spreadsheet.Command
import Spreadsheet.CommandLine
import Spreadsheet.Cycle
import Spreadsheet.Document
import Spreadsheet.Edit
import Spreadsheet.Engine
import Spreadsheet.Expression.Arithmetic
import Spreadsheet.Expression.Compilation
import Spreadsheet.Expression.Datum
import Spreadsheet.Expression.Evaluation
import Spreadsheet.Expression.Failure
import Spreadsheet.Expression.Function
import Spreadsheet.Expression.Library
import Spreadsheet.Expression.Numeral
import Spreadsheet.Expression.Operator
import Spreadsheet.Expression.Part
import Spreadsheet.Expression.Quotation
import Spreadsheet.Expression.Reader
import Spreadsheet.Expression.Simplification
import Spreadsheet.Expression.StandardLibrary
import Spreadsheet.Expression.Token
import Spreadsheet.Expression.Tree
import Spreadsheet.Fault
import Spreadsheet.Formula.Builtin
import Spreadsheet.Formula.Compilation
import Spreadsheet.Formula.Listing
import Spreadsheet.Formula.Literal
import Spreadsheet.Formula.Lowering
import Spreadsheet.Formula.Range
import Spreadsheet.Formula.Reference
import Spreadsheet.Formula.Resolution
import Spreadsheet.Input
import Spreadsheet.Main
import Spreadsheet.Occasion
import Spreadsheet.Number.Binary
import Spreadsheet.Number.Notation
import Spreadsheet.Number.Reading
import Spreadsheet.Number.Shortest
import Spreadsheet.Position.Basic
import Spreadsheet.Position.Name
import Spreadsheet.Position.Rectangle
import Spreadsheet.Position.Shift
import Spreadsheet.Refresh
import Spreadsheet.Session
import Spreadsheet.Settings
import Spreadsheet.Sheet
import Spreadsheet.Storage.Csv
import Spreadsheet.Storage.File
import Spreadsheet.Storage.Folder
import Spreadsheet.Storage.Format
import Spreadsheet.Storage.Markdown
import Spreadsheet.Storage.Tbl
import Spreadsheet.Table
import Spreadsheet.Text.Blank
import Spreadsheet.Text.Decimal
import Spreadsheet.Text.EscapedRanges
import Spreadsheet.Text.Quoted
import Spreadsheet.Text.Radix
import Spreadsheet.Text.Word
import Spreadsheet.Text.WordRanges
import Spreadsheet.Value
import Spreadsheet.Proofs.Dialogue
import Spreadsheet.Proofs.Reading
import Spreadsheet.Proofs.Refresh.Pass
import Spreadsheet.Proofs.Refresh.History
import Spreadsheet.Proofs.Refresh.Chronicle
import Spreadsheet.Proofs.Refresh.Invariant
import Spreadsheet.Proofs.Refresh.Consistency
import Spreadsheet.Proofs.CycleSearch
import Spreadsheet.Proofs.Refresh.Cycles
import Spreadsheet.Proofs.Cascade.Freshness
import Spreadsheet.Proofs.Content
import Spreadsheet.Proofs.Cascade.Reports
import Spreadsheet.Proofs.Cascade.Bound
import Spreadsheet.Proofs.Cascade.Agreement
import Spreadsheet.Proofs.Cascade.Locality
import Spreadsheet.Proofs.Cascade.Clearing
import Spreadsheet.Proofs.Expression.Adjacency
import Spreadsheet.Proofs.Expression.Words
import Spreadsheet.Proofs.Position.Name
import Spreadsheet.Proofs.Formula.Lowering
import Spreadsheet.Proofs.Formula.Dependencies
import Spreadsheet.Proofs.Expression.RenamedTokens
import Spreadsheet.Proofs.Formula.Moved
import Spreadsheet.Proofs.Refresh.Moved
import Spreadsheet.Proofs.Insertion
import Spreadsheet.Proofs.Lines
import Spreadsheet.Proofs.Position.MovedRectangle
import Spreadsheet.Proofs.Loading
import Spreadsheet.Proofs.Formula.Counterpart
import Spreadsheet.Proofs.Formula.LoweredCounterpart
import Spreadsheet.Proofs.Formula.CounterpartParts
import Spreadsheet.Proofs.Formula.CounterpartTokens
import Spreadsheet.Proofs.Formula.CompiledCounterpart
import Spreadsheet.Proofs.Formula.SourceCounterpart
import Spreadsheet.Proofs.Formula.Regular
import Spreadsheet.Proofs.Input
import Spreadsheet.Proofs.Draft
import Spreadsheet.Proofs.Storage.Tbl
import Spreadsheet.Proofs.Storage.Csv
import Spreadsheet.Proofs.Storage.Reload
import Spreadsheet.Proofs.Storage.Format
import Spreadsheet.Proofs.Storage.File
import Spreadsheet.Proofs.Storage.Folder
import Spreadsheet.Proofs.Session
import Spreadsheet.Proofs.Attempt
import Spreadsheet.Proofs.Expression.Climbing
import Spreadsheet.Proofs.Formula.Arithmetic
import Spreadsheet.Proofs.Formula.Grammar
import Spreadsheet.Proofs.Formula.Marks
import Spreadsheet.Proofs.Formula.Target
import Spreadsheet.Proofs.Position.Naming
import Spreadsheet.Proofs.Formula.Calculation
import Spreadsheet.Proofs.Formula.Expansion
import Spreadsheet.Proofs.Formula.LostReference
import Spreadsheet.Proofs.Formula.Quotation
import Spreadsheet.Proofs.Literal
import Spreadsheet.Proofs.Expression.Arity
import Spreadsheet.Proofs.Expression.Counting
import Spreadsheet.Proofs.Formula.Counting
import Spreadsheet.Proofs.Formula.ArgumentCount
import Spreadsheet.Proofs.CyclePath
import Spreadsheet.Proofs.Formula.Masking
import Spreadsheet.Proofs.Storage.Markdown
import Spreadsheet.Proofs.Expression.Stopping
import Spreadsheet.Proofs.Formula.Rounds
import Spreadsheet.Proofs.Position.Spelling
import Spreadsheet.Proofs.Storage.LineGrammar
import Spreadsheet.Proofs.Text.Words
import Spreadsheet.Proofs.Text.Case
import Spreadsheet.Proofs.Command
import Spreadsheet.Proofs.Copying
import Spreadsheet.Proofs.Placement
