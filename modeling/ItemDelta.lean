import ItemDelta.Alias.Basic
import ItemDelta.Alias.Limit
import ItemDelta.Alias.Registration
import ItemDelta.CommandLine.Arguments
import ItemDelta.CommandLine.DiffProgram
import ItemDelta.CommandLine.Dispatch
import ItemDelta.CommandLine.ExpressionProgram
import ItemDelta.CommandLine.Files
import ItemDelta.CommandLine.Grammar
import ItemDelta.CommandLine.Timestamp
import ItemDelta.CommandLine.Transcript
import ItemDelta.Config.Merge
import ItemDelta.Config.Sections
import ItemDelta.Diff.Basic
import ItemDelta.Diff.Offered
import ItemDelta.Diff.Partition
import ItemDelta.Diff.Patch
import ItemDelta.Error
import ItemDelta.Expression.Builder
import ItemDelta.Expression.Lock
import ItemDelta.Json.Reader
import ItemDelta.Json.Writer
import ItemDelta.Layout
import ItemDelta.Main
import ItemDelta.Node
import ItemDelta.Number.Binary64
import ItemDelta.Number.Decimal
import ItemDelta.Number.Numeral
import ItemDelta.Number.Shortest
import ItemDelta.Path.Access
import ItemDelta.Path.Parser
import ItemDelta.Path.Printer
import ItemDelta.Report.Diff
import ItemDelta.Report.Document
import ItemDelta.Report.Expression
import ItemDelta.Text.Alphanumeric
import ItemDelta.Text.Blank
import ItemDelta.Text.CaseMap
import ItemDelta.Text.CodeTable
import ItemDelta.Text.Digit
import ItemDelta.Text.Hexadecimal
import ItemDelta.Text.Inspected
import ItemDelta.Text.LetterCase
import ItemDelta.Text.Printable
import ItemDelta.Text.Quoted
import ItemDelta.Text.Words
import ItemDelta.Value.Agreement
import ItemDelta.Value.Basic
import ItemDelta.Value.Element
import ItemDelta.Value.Inspected
import ItemDelta.Proofs.Path.RoundTrip
import ItemDelta.Proofs.Path.Inverse
import ItemDelta.Proofs.Value.Document
import ItemDelta.Proofs.Node.Flattening
import ItemDelta.Proofs.Node.Selection
import ItemDelta.Proofs.Node.Ancestry
import ItemDelta.Proofs.Diff.Structural
import ItemDelta.Proofs.Diff.Buckets
import ItemDelta.Proofs.Diff.Overlap
import ItemDelta.Proofs.Diff.Unchanged
import ItemDelta.Proofs.Diff.Applicable
import ItemDelta.Proofs.Diff.Application
import ItemDelta.Proofs.Path.Write
import ItemDelta.Proofs.Diff.Nested
import ItemDelta.Proofs.Diff.Merge
import ItemDelta.Proofs.Diff.Patching
import ItemDelta.Proofs.Value.Reordering
import ItemDelta.Proofs.Diff.Permutation
import ItemDelta.Proofs.Action
import ItemDelta.Proofs.Alias.Registration
import ItemDelta.Proofs.Expression.Compilation
import ItemDelta.Proofs.Expression.Empty
import ItemDelta.Proofs.Expression.Guard
import ItemDelta.Proofs.Alias.Prefix
import ItemDelta.Proofs.Expression.Versioned
import ItemDelta.Proofs.Lock.Store
import ItemDelta.Proofs.Lock.Edits
import ItemDelta.Proofs.Lock.Frame
import ItemDelta.Proofs.Alias.Success
import ItemDelta.Proofs.Expression.Success
import ItemDelta.Proofs.Lock.Faults
import ItemDelta.Proofs.Lock.Automatic
import ItemDelta.Proofs.Number.Value
import ItemDelta.Proofs.Number.Rounding
import ItemDelta.Proofs.Number.Sum
import ItemDelta.Proofs.Lock.Advance
import ItemDelta.Proofs.Alias.Drawing
import ItemDelta.Proofs.Alias.Search
import ItemDelta.Proofs.Alias.Cut
import ItemDelta.Proofs.Alias.Issue
import ItemDelta.Proofs.Expression.Steps
import ItemDelta.Proofs.Expression.Sharing
import ItemDelta.Proofs.Alias.Kept
import ItemDelta.Proofs.Expression.Issued
import ItemDelta.Proofs.Expression.Tokens
import ItemDelta.Proofs.Expression.Declared
import ItemDelta.Proofs.Diff.Origin
import ItemDelta.Proofs.Expression.Schema
import ItemDelta.Proofs.Expression.Conforming
import ItemDelta.Proofs.Path.Lens
import ItemDelta.Proofs.Path.Missing
import ItemDelta.Proofs.Diff.Patches
import ItemDelta.Proofs.Expression.Refusal
import ItemDelta.Proofs.Text.Quoted
import ItemDelta.Proofs.Text.Splitting
import ItemDelta.Proofs.Number.Numeral
import ItemDelta.Proofs.Json.Plain
import ItemDelta.Proofs.Json.Indented
import ItemDelta.Proofs.Json.RoundTrip
import ItemDelta.Proofs.Config.Merge
import ItemDelta.Proofs.Json.Names
import ItemDelta.Proofs.Config.Precedence
import ItemDelta.Proofs.Expression.Clauses
import ItemDelta.Proofs.Value.Inspected
import ItemDelta.Proofs.Layout
import ItemDelta.Proofs.Report.Lead
