import ParameterHints.Call.Binding
import ParameterHints.Call.Hint
import ParameterHints.Call.Host
import ParameterHints.Config.Basic
import ParameterHints.Config.Format
import ParameterHints.Decimal.Binary64
import ParameterHints.Decimal.Shortest
import ParameterHints.Declaration.Basic
import ParameterHints.Declaration.Table
import ParameterHints.Denylist.Basic
import ParameterHints.Denylist.Merged
import ParameterHints.Denylist.Pattern
import ParameterHints.Glob.Basic
import ParameterHints.Glob.ByteRegex
import ParameterHints.Glob.Lexeme
import ParameterHints.Glob.Token
import ParameterHints.Inlay
import ParameterHints.Json.Error
import ParameterHints.Json.Format
import ParameterHints.Json.Ignored
import ParameterHints.Json.Lexeme
import ParameterHints.Json.Number
import ParameterHints.Json.Printer
import ParameterHints.Json.Reader
import ParameterHints.Language
import ParameterHints.Proofs.Call.Additions
import ParameterHints.Proofs.Call.Agreement
import ParameterHints.Proofs.Call.Alignment
import ParameterHints.Proofs.Call.Anchors
import ParameterHints.Proofs.Call.Appending
import ParameterHints.Proofs.Call.Callees
import ParameterHints.Proofs.Call.Conservation
import ParameterHints.Proofs.Call.Qualifiers
import ParameterHints.Proofs.Call.Rearrangement
import ParameterHints.Proofs.Call.Receivers
import ParameterHints.Proofs.Call.RepeatedNames
import ParameterHints.Proofs.Call.Resolution
import ParameterHints.Proofs.Call.Surroundings
import ParameterHints.Proofs.Call.Wrappers
import ParameterHints.Proofs.Config.Spelling
import ParameterHints.Proofs.Declaration.ClassNames
import ParameterHints.Proofs.Declaration.History
import ParameterHints.Proofs.Declaration.Index
import ParameterHints.Proofs.Declaration.Ledger
import ParameterHints.Proofs.Declaration.Lookup
import ParameterHints.Proofs.Declaration.Narrow
import ParameterHints.Proofs.Denylist.Compilation
import ParameterHints.Proofs.Denylist.ParameterLists
import ParameterHints.Proofs.Denylist.Parentheses
import ParameterHints.Proofs.Denylist.Repetition
import ParameterHints.Proofs.Denylist.Sources
import ParameterHints.Proofs.Denylist.Stars
import ParameterHints.Proofs.FirstOccurrence
import ParameterHints.Proofs.Glob.Language
import ParameterHints.Proofs.Glob.Pieces
import ParameterHints.Proofs.Glob.Wildcards
import ParameterHints.Proofs.Inlay.Denial
import ParameterHints.Proofs.Inlay.LanguageMethods
import ParameterHints.Proofs.Inlay.Origin
import ParameterHints.Proofs.Inlay.Places
import ParameterHints.Proofs.Inlay.Pruning
import ParameterHints.Proofs.Inlay.Range
import ParameterHints.Proofs.Inlay.ReadingOrder
import ParameterHints.Proofs.Json.Grammar
import ParameterHints.Proofs.Json.Quotation
import ParameterHints.Proofs.Json.Reading
import ParameterHints.Proofs.Json.Skipping
import ParameterHints.Proofs.Json.Writing
import ParameterHints.Proofs.Syntax.Attachment
import ParameterHints.Proofs.Syntax.Construction
import ParameterHints.Proofs.Syntax.Content
import ParameterHints.Proofs.Syntax.Continuation
import ParameterHints.Proofs.Syntax.DottedPaths
import ParameterHints.Proofs.Syntax.Growth
import ParameterHints.Proofs.Syntax.Kept
import ParameterHints.Proofs.Syntax.Legible
import ParameterHints.Proofs.Syntax.Marks
import ParameterHints.Proofs.Syntax.Narrow
import ParameterHints.Proofs.Syntax.NodeText
import ParameterHints.Proofs.Syntax.Operations
import ParameterHints.Proofs.Syntax.Paths
import ParameterHints.Proofs.Syntax.Pools
import ParameterHints.Proofs.Syntax.Relocation
import ParameterHints.Proofs.Syntax.Row
import ParameterHints.Proofs.Syntax.Storage
import ParameterHints.Proofs.Syntax.Tree
import ParameterHints.Proofs.Syntax.Walk
import ParameterHints.Proofs.Syntax.WellFormed
import ParameterHints.Proofs.Text.Boundary
import ParameterHints.Proofs.Text.ByteCut
import ParameterHints.Proofs.Text.ByteOrder
import ParameterHints.Proofs.Text.Clamping
import ParameterHints.Proofs.Text.LastDot
import ParameterHints.Proofs.Text.LineStarts
import ParameterHints.Proofs.Text.Lines
import ParameterHints.Proofs.Text.Narrow
import ParameterHints.Proofs.Text.Order
import ParameterHints.Proofs.Text.RoundTrip
import ParameterHints.Proofs.Text.Trimming
import ParameterHints.Syntax.Arena
import ParameterHints.Syntax.Builder
import ParameterHints.Syntax.Node
import ParameterHints.Text.Blank
import ParameterHints.Text.LineMap
import ParameterHints.Text.Printable
import ParameterHints.Text.Quoted
import ParameterHints.Text.Segments
import ParameterHints.Text.Slice
import ParameterHints.Text.Span
import ParameterHints.Wire.Declaration
import ParameterHints.Wire.Hint
import ParameterHints.Wire.Syntax
