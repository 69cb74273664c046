import Vyraz.Binary64.Nearest
import Vyraz.Binary64.Shortest
import Vyraz.Decimal
import Vyraz.Expr.Basic
import Vyraz.Expr.Descent
import Vyraz.Expr.Eval
import Vyraz.Expr.Parse
import Vyraz.Expr.Render
import Vyraz.Failure
import Vyraz.Folder
import Vyraz.Main
import Vyraz.Program
import Vyraz.Prompt.Balance
import Vyraz.Prompt.Command
import Vyraz.Prompt.Completion
import Vyraz.Prompt.Highlight
import Vyraz.Prompt.History
import Vyraz.Prompt.Session
import Vyraz.Prompt.Settings
import Vyraz.Proofs.Blame
import Vyraz.Proofs.Completable
import Vyraz.Proofs.Compose
import Vyraz.Proofs.Concat
import Vyraz.Proofs.Coverage
import Vyraz.Proofs.Cut
import Vyraz.Proofs.Depth
import Vyraz.Proofs.Descent
import Vyraz.Proofs.Ending
import Vyraz.Proofs.Evaluation
import Vyraz.Proofs.Flatten
import Vyraz.Proofs.Grammar
import Vyraz.Proofs.Highlighting
import Vyraz.Proofs.Isolation
import Vyraz.Proofs.KeywordCompletion
import Vyraz.Proofs.Layout
import Vyraz.Proofs.Lexeme
import Vyraz.Proofs.LineCount
import Vyraz.Proofs.Move
import Vyraz.Proofs.Numeral
import Vyraz.Proofs.Outcome
import Vyraz.Proofs.Place
import Vyraz.Proofs.Placed
import Vyraz.Proofs.Provenance
import Vyraz.Proofs.ReadBack
import Vyraz.Proofs.Readability
import Vyraz.Proofs.Rendering
import Vyraz.Proofs.RoundTrip
import Vyraz.Proofs.Turn
import Vyraz.Proofs.Typing
import Vyraz.Proofs.Viable
import Vyraz.Proofs.WholeInput
import Vyraz.Report
import Vyraz.Text.Backspace
import Vyraz.Text.BreakClass
import Vyraz.Text.Cluster
import Vyraz.Text.Lines
import Vyraz.Text.Location
import Vyraz.Text.Offset
import Vyraz.Text.Space
import Vyraz.Token.Basic
import Vyraz.Token.Error
import Vyraz.Token.Keyword
import Vyraz.Token.LineCounter
import Vyraz.Token.Munch
import Vyraz.Token.Scan
import Vyraz.Token.Symbol
import Vyraz.Value
