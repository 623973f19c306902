import StyleCheck.Checker.Basic
import StyleCheck.Checker.Builtin
import StyleCheck.Checker.ModuleName
import StyleCheck.Decimal.Binary64
import StyleCheck.Decimal.Shortest
import StyleCheck.Host
import StyleCheck.Json
import StyleCheck.Margin
import StyleCheck.ParseTree
import StyleCheck.Position
import StyleCheck.Proofs.Checker.Anchors
import StyleCheck.Proofs.Checker.CollectionLayout
import StyleCheck.Proofs.Checker.CommentBlocks
import StyleCheck.Proofs.Checker.NumberMarkers
import StyleCheck.Proofs.Checker.RelaxedLimits
import StyleCheck.Proofs.Checker.ReportOrder
import StyleCheck.Proofs.Checker.SnakeCase
import StyleCheck.Proofs.Margin.Boundaries
import StyleCheck.Proofs.Margin.LineByLine
import StyleCheck.Proofs.Margin.LongestMargin
import StyleCheck.Proofs.Margin.Reindentation
import StyleCheck.Proofs.Margin.Terminators
import StyleCheck.Proofs.Rule.AuditNumbering
import StyleCheck.Proofs.Rule.Mentions
import StyleCheck.Proofs.Rule.RegistryInvariant
import StyleCheck.Proofs.Scenario.AsyncMargin
import StyleCheck.Proofs.Scenario.AsyncStatements
import StyleCheck.Proofs.Scenario.BracketTracking
import StyleCheck.Proofs.Scenario.Combinations
import StyleCheck.Proofs.Scenario.IgnoredRules
import StyleCheck.Proofs.Scenario.KnownIssues
import StyleCheck.Proofs.Scenario.MatrixRun
import StyleCheck.Proofs.Scenario.RuleComparison
import StyleCheck.Proofs.Scenario.TemplateSegments
import StyleCheck.Proofs.Scenario.TextComparison
import StyleCheck.Proofs.Scenario.Verdict
import StyleCheck.Proofs.Settings.OptionOrder
import StyleCheck.Proofs.Settings.Overrides
import StyleCheck.Proofs.Settings.Rewriting
import StyleCheck.Proofs.Settings.SingleOption
import StyleCheck.Proofs.SyntaxTree.Addresses
import StyleCheck.Proofs.SyntaxTree.Ancestors
import StyleCheck.Proofs.SyntaxTree.CursorWalk
import StyleCheck.Proofs.SyntaxTree.Decoration
import StyleCheck.Proofs.SyntaxTree.FirstFault
import StyleCheck.Proofs.SyntaxTree.Lowering
import StyleCheck.Proofs.SyntaxTree.PassOrder
import StyleCheck.Proofs.SyntaxTree.Preorder
import StyleCheck.Proofs.SyntaxTree.Scopes
import StyleCheck.Proofs.Text.AsciiBytes
import StyleCheck.Proofs.Text.Bytes
import StyleCheck.Proofs.Text.Insertion
import StyleCheck.Proofs.Text.Occurrences
import StyleCheck.Proofs.Text.Pieces
import StyleCheck.Proofs.Token.CarriageReturn
import StyleCheck.Proofs.Token.ClosingQuote
import StyleCheck.Proofs.Token.CommentLines
import StyleCheck.Proofs.Token.Concatenation
import StyleCheck.Proofs.Token.Contents
import StyleCheck.Proofs.Token.Coverage
import StyleCheck.Proofs.Token.Delimiter
import StyleCheck.Proofs.Token.EscapedBreaks
import StyleCheck.Proofs.Token.Layout
import StyleCheck.Proofs.Token.LayoutReading
import StyleCheck.Proofs.Token.LeadingWord
import StyleCheck.Proofs.Token.LexemeCases
import StyleCheck.Proofs.Token.LexemeText
import StyleCheck.Proofs.Token.LineEnds
import StyleCheck.Proofs.Token.LineNumbers
import StyleCheck.Proofs.Token.Locality
import StyleCheck.Proofs.Token.LogicalBreaks
import StyleCheck.Proofs.Token.MaximalMunch
import StyleCheck.Proofs.Token.NumberForm
import StyleCheck.Proofs.Token.Origins
import StyleCheck.Proofs.Token.Parallel
import StyleCheck.Proofs.Token.Reading
import StyleCheck.Proofs.Token.StatementStart
import StyleCheck.Proofs.Token.StringSpan
import StyleCheck.Proofs.Token.TiledReading
import StyleCheck.Proofs.Token.Tiling
import StyleCheck.Proofs.Token.WordCharacters
import StyleCheck.Proofs.Toml.DistinctKeys
import StyleCheck.Proofs.Traversal
import StyleCheck.Rule.Audit
import StyleCheck.Rule.Basic
import StyleCheck.Rule.Catalogue
import StyleCheck.Rule.Registry
import StyleCheck.Rule.Violation
import StyleCheck.Scenario.Expectation
import StyleCheck.Scenario.Failure
import StyleCheck.Scenario.Matrix
import StyleCheck.Scenario.Mode
import StyleCheck.Scenario.Runner
import StyleCheck.Scenario.Template
import StyleCheck.Settings
import StyleCheck.SyntaxTree.Basic
import StyleCheck.SyntaxTree.Build
import StyleCheck.SyntaxTree.Lowering
import StyleCheck.SyntaxTree.Pass
import StyleCheck.Text.Alphanumeric
import StyleCheck.Text.Characters
import StyleCheck.Text.Lines
import StyleCheck.Text.Occurrence
import StyleCheck.Text.Quoted
import StyleCheck.Token.Basic
import StyleCheck.Token.Lexeme
import StyleCheck.Token.Literal
import StyleCheck.Token.Stream
import StyleCheck.Toml.DateTable
import StyleCheck.Toml.Document
import StyleCheck.Toml.Draft
import StyleCheck.Toml.Reader
import StyleCheck.Toml.Scalar
import StyleCheck.Toml.Value
