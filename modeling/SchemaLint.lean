import SchemaLint.Analyzer
import SchemaLint.Cli.CommandLine
import SchemaLint.Cli.ConfigSource
import SchemaLint.Cli.Environment
import SchemaLint.Cli.Report
import SchemaLint.Cli.Response
import SchemaLint.Code.Forest
import SchemaLint.Code.Grammar
import SchemaLint.Code.Grammar.Attribute
import SchemaLint.Code.Grammar.Basic
import SchemaLint.Code.Grammar.Expression
import SchemaLint.Code.Grammar.Item
import SchemaLint.Code.Grammar.Pattern
import SchemaLint.Code.Grammar.Statement
import SchemaLint.Code.Grammar.Type
import SchemaLint.Code.Literal
import SchemaLint.Code.Node
import SchemaLint.Code.Token
import SchemaLint.Comment
import SchemaLint.Config
import SchemaLint.Diagnostic
import SchemaLint.Directive
import SchemaLint.Engine.AnalysisUnit
import SchemaLint.Engine.Fact
import SchemaLint.Engine.Index
import SchemaLint.Engine.Plan
import SchemaLint.Engine.Registry
import SchemaLint.Engine.Rule
import SchemaLint.Engine.Scripted
import SchemaLint.Engine.Session
import SchemaLint.ExcludePattern
import SchemaLint.Failure
import SchemaLint.FilePath
import SchemaLint.FileTree
import SchemaLint.Ignore.Pattern
import SchemaLint.Ignore.Rule
import SchemaLint.Ignore.Walk
import SchemaLint.ImportTable
import SchemaLint.Json
import SchemaLint.LintResult
import SchemaLint.LintResult.Encoding
import SchemaLint.Main
import SchemaLint.PathPattern
import SchemaLint.Position
import SchemaLint.Proofs.Accounting
import SchemaLint.Proofs.Additivity
import SchemaLint.Proofs.Ancestry
import SchemaLint.Proofs.Balance
import SchemaLint.Proofs.Builtin
import SchemaLint.Proofs.Closure
import SchemaLint.Proofs.Collection
import SchemaLint.Proofs.Comment
import SchemaLint.Proofs.Comparison
import SchemaLint.Proofs.ConfigLookup
import SchemaLint.Proofs.Confinement
import SchemaLint.Proofs.Cycle
import SchemaLint.Proofs.Directives
import SchemaLint.Proofs.Discovery
import SchemaLint.Proofs.Encoding
import SchemaLint.Proofs.Exclusion
import SchemaLint.Proofs.ExitStatus
import SchemaLint.Proofs.FirstLine
import SchemaLint.Proofs.Grammar.Draws
import SchemaLint.Proofs.Grammar.Expression
import SchemaLint.Proofs.Grammar.Ground
import SchemaLint.Proofs.Grammar.Item
import SchemaLint.Proofs.Grammar.Place
import SchemaLint.Proofs.Grammar.Progress
import SchemaLint.Proofs.Grammar.Reads
import SchemaLint.Proofs.Grammar.Reads.Expression
import SchemaLint.Proofs.Grammar.Reads.Item
import SchemaLint.Proofs.Grammar.Reads.Type
import SchemaLint.Proofs.Grammar.Recognizer
import SchemaLint.Proofs.Grammar.Standing
import SchemaLint.Proofs.Grammar.Type
import SchemaLint.Proofs.Grammar.Weight
import SchemaLint.Proofs.Hereditary
import SchemaLint.Proofs.History
import SchemaLint.Proofs.Import
import SchemaLint.Proofs.Indirection
import SchemaLint.Proofs.JsonText
import SchemaLint.Proofs.LeastOrder
import SchemaLint.Proofs.Lexical
import SchemaLint.Proofs.LineColumn
import SchemaLint.Proofs.Literals
import SchemaLint.Proofs.Located
import SchemaLint.Proofs.MacroBody
import SchemaLint.Proofs.Memory
import SchemaLint.Proofs.Nesting
import SchemaLint.Proofs.Offset
import SchemaLint.Proofs.Order
import SchemaLint.Proofs.Origin
import SchemaLint.Proofs.Outcome
import SchemaLint.Proofs.Path
import SchemaLint.Proofs.Pointing
import SchemaLint.Proofs.Recursion
import SchemaLint.Proofs.Registration
import SchemaLint.Proofs.Registry
import SchemaLint.Proofs.RuleChoice
import SchemaLint.Proofs.Scoping
import SchemaLint.Proofs.Selection
import SchemaLint.Proofs.Shadowing
import SchemaLint.Proofs.Silencing
import SchemaLint.Proofs.Sink
import SchemaLint.Proofs.Span
import SchemaLint.Proofs.Suppression
import SchemaLint.Proofs.TypePath
import SchemaLint.Rules.Builtin
import SchemaLint.Rules.Schema
import SchemaLint.SchemaLiteral
import SchemaLint.SchemaSettings
import SchemaLint.SetterCall
import SchemaLint.Settings
import SchemaLint.Sink
import SchemaLint.SourceFile
import SchemaLint.Text.Class
import SchemaLint.Text.Ranges
import SchemaLint.Text.Split
import SchemaLint.Toml.Document
import SchemaLint.Toml.Lexical
import SchemaLint.Toml.Scalar
import SchemaLint.Toml.Value
