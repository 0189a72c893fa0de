import LimitSyntax.Ast.Basic
import LimitSyntax.Ast.Datum
import LimitSyntax.Ast.Members
import LimitSyntax.Ast.Names
import LimitSyntax.Command.Arguments
import LimitSyntax.Command.Files
import LimitSyntax.Command.Run
import LimitSyntax.Datum
import LimitSyntax.Diagnostic.Advice
import LimitSyntax.Diagnostic.Code
import LimitSyntax.Diagnostic.Collector
import LimitSyntax.Diagnostic.Datum
import LimitSyntax.Diagnostic.Excerpt
import LimitSyntax.Diagnostic.Message
import LimitSyntax.Diagnostic.Render
import LimitSyntax.Diagnostic.Stage
import LimitSyntax.Grammar.Block
import LimitSyntax.Grammar.Decl
import LimitSyntax.Grammar.Expr
import LimitSyntax.Grammar.Parse
import LimitSyntax.Grammar.Pattern
import LimitSyntax.Grammar.Program
import LimitSyntax.Grammar.State
import LimitSyntax.Grammar.Stmt
import LimitSyntax.Grammar.Type
import LimitSyntax.Json
import LimitSyntax.Main
import LimitSyntax.Proofs.Brackets
import LimitSyntax.Proofs.BuilderOps
import LimitSyntax.Proofs.Carets
import LimitSyntax.Proofs.Checkpoints
import LimitSyntax.Proofs.ClassTables
import LimitSyntax.Proofs.Codes
import LimitSyntax.Proofs.CollectorOps
import LimitSyntax.Proofs.Colors
import LimitSyntax.Proofs.Composition
import LimitSyntax.Proofs.ContextRestored
import LimitSyntax.Proofs.CursorSafety
import LimitSyntax.Proofs.DeclRules
import LimitSyntax.Proofs.DictTypes
import LimitSyntax.Proofs.Dumps
import LimitSyntax.Proofs.ErrorCap
import LimitSyntax.Proofs.ErrorsReported
import LimitSyntax.Proofs.Headers
import LimitSyntax.Proofs.Interpolations
import LimitSyntax.Proofs.Layout
import LimitSyntax.Proofs.Levels
import LimitSyntax.Proofs.Lexemes
import LimitSyntax.Proofs.Lines
import LimitSyntax.Proofs.MakesExprs
import LimitSyntax.Proofs.Numerals
import LimitSyntax.Proofs.Origins
import LimitSyntax.Proofs.Parameters
import LimitSyntax.Proofs.ParseLossless
import LimitSyntax.Proofs.ParseModes
import LimitSyntax.Proofs.ParseSteps
import LimitSyntax.Proofs.Parsers
import LimitSyntax.Proofs.Pieces
import LimitSyntax.Proofs.Precedence
import LimitSyntax.Proofs.Progress
import LimitSyntax.Proofs.ReadBack
import LimitSyntax.Proofs.Recovery
import LimitSyntax.Proofs.ReportOrder
import LimitSyntax.Proofs.Respacing
import LimitSyntax.Proofs.RootNodes
import LimitSyntax.Proofs.Runs
import LimitSyntax.Proofs.ScanLossless
import LimitSyntax.Proofs.ScanModes
import LimitSyntax.Proofs.ScanMoves
import LimitSyntax.Proofs.SpanNesting
import LimitSyntax.Proofs.Spans
import LimitSyntax.Proofs.SpansDecls
import LimitSyntax.Proofs.SpansExprs
import LimitSyntax.Proofs.SpansTypes
import LimitSyntax.Proofs.SparingExprs
import LimitSyntax.Proofs.StringLiterals
import LimitSyntax.Proofs.TandemDecls
import LimitSyntax.Proofs.TandemPrograms
import LimitSyntax.Proofs.TaskBlocks
import LimitSyntax.Proofs.TreeBuilder
import LimitSyntax.Proofs.TreeNotes
import LimitSyntax.Proofs.TypeRules
import LimitSyntax.Proofs.UnclosedBodies
import LimitSyntax.Settings
import LimitSyntax.Span
import LimitSyntax.Text.Basic
import LimitSyntax.Text.Columns
import LimitSyntax.Text.Extending
import LimitSyntax.Text.Ligature
import LimitSyntax.Text.Pictograph
import LimitSyntax.Text.Quoted
import LimitSyntax.Text.Ranges
import LimitSyntax.Text.Unprintable
import LimitSyntax.Text.Width
import LimitSyntax.Token.Basic
import LimitSyntax.Token.Datum
import LimitSyntax.Token.Kind
import LimitSyntax.Token.Lexeme
import LimitSyntax.Token.Scan
import LimitSyntax.Token.Stretch
import LimitSyntax.Toml.Document
import LimitSyntax.Toml.Quoted
import LimitSyntax.Toml.Scalar
import LimitSyntax.Toml.Value
import LimitSyntax.Tree.Basic
import LimitSyntax.Tree.Builder
import LimitSyntax.Tree.Kind
