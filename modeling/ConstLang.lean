import ConstLang.Compilation
import ConstLang.Proofs.Decimal.Value
import ConstLang.Proofs.Decimal.Rounding
import ConstLang.Proofs.Numeral
import ConstLang.Proofs.Evaluation.Success
import ConstLang.Proofs.Resolution.Run
import ConstLang.Proofs.Evaluation.Denotation
import ConstLang.Proofs.Evaluation.Folding
import ConstLang.Proofs.Program.Grammar
import ConstLang.Proofs.Program.Depth
import ConstLang.Proofs.Program.Reading
import ConstLang.Proofs.Program.Soundness
import ConstLang.Proofs.Program.Acceptance
import ConstLang.Proofs.Resolution.Interpreter
import ConstLang.Proofs.Resolution.Refinement
import ConstLang.Proofs.Resolution.Reporting
import ConstLang.Proofs.Lexeme
import ConstLang.Proofs.Position
import ConstLang.Proofs.Span
import ConstLang.Guarded.Token
import ConstLang.Guarded.Program
import ConstLang.Guarded.Diagnostic
import ConstLang.Guarded.Compilation
import ConstLang.Proofs.Guarded.Token
import ConstLang.Proofs.Token.Tiling
import ConstLang.Proofs.Compilation
import ConstLang.Proofs.Guarded.Program
import ConstLang.Proofs.Guarded.Diagnostic
import ConstLang.Proofs.Guarded.Resolution
import ConstLang.Proofs.Guarded.Compilation
import ConstLang.Proofs.Decimal.Canonical
import ConstLang.Proofs.Resolution.Typing
import ConstLang.Proofs.Decimal.Reading
import ConstLang.Proofs.Token.Numeral
import ConstLang.Proofs.Decimal.Text
import ConstLang.Proofs.Token.Row
import ConstLang.Proofs.Program.Node
import ConstLang.Proofs.Program.Spans
import ConstLang.Proofs.Line
import ConstLang.Proofs.Resolution.Origin
import ConstLang.Proofs.Program.Viability
import ConstLang.Proofs.Placement
import ConstLang.Proofs.Token.Solid
import ConstLang.Proofs.Diagnostic.Message
import ConstLang.Proofs.Diagnostic.Excerpt
import ConstLang.Proofs.Diagnostic.Rendering
import ConstLang.Proofs.Token.Reread
import ConstLang.Proofs.Layout.Program
import ConstLang.Proofs.Layout.Evaluation
import ConstLang.Proofs.Layout.Resolution
import ConstLang.Proofs.Layout.Compilation
import ConstLang.Proofs.Token.Spaced
import ConstLang.Proofs.Decimal.Nearest
import ConstLang.Proofs.Resolution.Collection
import ConstLang.Proofs.Resolution.Settling
import ConstLang.Proofs.Resolution.Exchange
import ConstLang.Proofs.Resolution.Reference
import ConstLang.Proofs.Decimal.Size
import ConstLang.Proofs.Evaluation.Size
import ConstLang.Narrow.Resolution
import ConstLang.Proofs.Narrow.Decimal
import ConstLang.Proofs.Narrow.Literal
import ConstLang.Proofs.Narrow.Evaluation
import ConstLang.Proofs.Narrow.Resolution
import ConstLang.Proofs.Decimal.Order
import ConstLang.Proofs.Scalar.Representation
import ConstLang.Proofs.Scalar.Binding
import ConstLang.Proofs.Resolution.Rounded
import ConstLang.Proofs.Program.FirstError
import ConstLang.Proofs.Evaluation.Reports
import ConstLang.Proofs.Evaluation.Integral
import ConstLang.Proofs.Decimal.Grid
import ConstLang.Proofs.Token.Longest
import ConstLang.Proofs.Resolution.TypeExpression
import ConstLang.Proofs.Resolution.Annotation
import ConstLang.Proofs.Decimal.Remainder
import ConstLang.Proofs.Decimal.Runs
import ConstLang.Proofs.LineBounds
import ConstLang.Indexed.Table
import ConstLang.Proofs.Resolution.Calls
import ConstLang.Proofs.Indexed.Table
import ConstLang.Leveled.Program
import ConstLang.Proofs.Leveled.Program
import ConstLang.Proofs.Program.Append
import ConstLang.Proofs.Leveled.Balance
import ConstLang.Proofs.Decimal.Quotient
