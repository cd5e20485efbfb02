import Monkey.Arithmetic
import Monkey.Builtin
import Monkey.CommandLine.Arguments
import Monkey.CommandLine.Help
import Monkey.CommandLine.Interactive
import Monkey.CommandLine.Options
import Monkey.CommandLine.Run
import Monkey.Console
import Monkey.Evaluation.Basic
import Monkey.Evaluation.Builtin
import Monkey.Evaluation.Operator
import Monkey.Evaluation.Program
import Monkey.Evaluation.Tree
import Monkey.Files
import Monkey.Integer
import Monkey.Main
import Monkey.Program.Basic
import Monkey.Program.Compare
import Monkey.Program.Outline
import Monkey.Program.Source
import Monkey.Proofs.Arithmetic
import Monkey.Proofs.CommandLine.Interactive
import Monkey.Proofs.CommandLine.Reported
import Monkey.Proofs.Evaluation.Among
import Monkey.Proofs.Evaluation.Basic
import Monkey.Proofs.Evaluation.Branch
import Monkey.Proofs.Evaluation.Breaking
import Monkey.Proofs.Evaluation.Closed
import Monkey.Proofs.Evaluation.Comparison
import Monkey.Proofs.Evaluation.Console
import Monkey.Proofs.Evaluation.Contract
import Monkey.Proofs.Evaluation.Deeper
import Monkey.Proofs.Evaluation.Ending
import Monkey.Proofs.Evaluation.Failing
import Monkey.Proofs.Evaluation.Frame
import Monkey.Proofs.Evaluation.Given
import Monkey.Proofs.Evaluation.InRange
import Monkey.Proofs.Evaluation.Input
import Monkey.Proofs.Evaluation.Known
import Monkey.Proofs.Evaluation.Occurring
import Monkey.Proofs.Evaluation.Records
import Monkey.Proofs.Evaluation.Renamed
import Monkey.Proofs.Evaluation.Returns
import Monkey.Proofs.Evaluation.Rooted
import Monkey.Proofs.Evaluation.Stored
import Monkey.Proofs.Evaluation.Unmentioned
import Monkey.Proofs.Evaluation.Watched
import Monkey.Proofs.Grammar.Basic
import Monkey.Proofs.Grammar.Complete
import Monkey.Proofs.Grammar.Front
import Monkey.Proofs.Grammar.Loosen
import Monkey.Proofs.Grammar.Recognition
import Monkey.Proofs.Grammar.Recovered
import Monkey.Proofs.Grammar.Shown
import Monkey.Proofs.Grammar.Sound
import Monkey.Proofs.Grammar.Spelling
import Monkey.Proofs.Grammar.Written
import Monkey.Proofs.Program.Height
import Monkey.Proofs.Program.Indented
import Monkey.Proofs.Program.Integers
import Monkey.Proofs.Program.Names
import Monkey.Proofs.Program.Outline
import Monkey.Proofs.Program.Returns
import Monkey.Proofs.Program.WellFormed
import Monkey.Proofs.Reader.Basic
import Monkey.Proofs.Reader.Blame
import Monkey.Proofs.Reader.Deeper
import Monkey.Proofs.Reader.Line
import Monkey.Proofs.Reader.Literals
import Monkey.Proofs.Reader.Noted
import Monkey.Proofs.Reader.Portions
import Monkey.Proofs.Reader.Progress
import Monkey.Proofs.Reader.Report
import Monkey.Proofs.Reader.Rounds
import Monkey.Proofs.Reader.Seam
import Monkey.Proofs.Reader.Spread
import Monkey.Proofs.Reader.Tally
import Monkey.Proofs.Reader.Unplaced
import Monkey.Proofs.Reader.WellFormed
import Monkey.Proofs.Repl
import Monkey.Proofs.Scope.Bindings
import Monkey.Proofs.Scope.Built
import Monkey.Proofs.Scope.Visible
import Monkey.Proofs.Scope.Write
import Monkey.Proofs.Session.Again
import Monkey.Proofs.Session.Basic
import Monkey.Proofs.Session.Closed
import Monkey.Proofs.Session.Comparison
import Monkey.Proofs.Session.Deeper
import Monkey.Proofs.Session.InRange
import Monkey.Proofs.Session.Known
import Monkey.Proofs.Session.Line
import Monkey.Proofs.Session.Quiet
import Monkey.Proofs.Session.Rooted
import Monkey.Proofs.Session.Shown
import Monkey.Proofs.Session.Unmentioned
import Monkey.Proofs.Text.Blank
import Monkey.Proofs.Text.Numeral
import Monkey.Proofs.Text.Quoted
import Monkey.Proofs.Text.Signed
import Monkey.Proofs.Token.Boundary
import Monkey.Proofs.Token.Display
import Monkey.Proofs.Token.Layout
import Monkey.Proofs.Token.Lexeme
import Monkey.Proofs.Token.Longest
import Monkey.Proofs.Token.Matches
import Monkey.Proofs.Token.Quoted
import Monkey.Proofs.Token.Spread
import Monkey.Proofs.Token.Words
import Monkey.Reader.Basic
import Monkey.Reader.Construct
import Monkey.Reader.Precedence
import Monkey.Reader.Program
import Monkey.Repl
import Monkey.RuntimeError
import Monkey.Scope
import Monkey.Script
import Monkey.Session
import Monkey.SyntaxError
import Monkey.Text.Blank
import Monkey.Text.Cited
import Monkey.Text.Digit
import Monkey.Text.Hexadecimal
import Monkey.Text.Line
import Monkey.Text.Numeral
import Monkey.Text.Printable
import Monkey.Text.Quoted
import Monkey.Text.Utf8
import Monkey.Token.Basic
import Monkey.Token.Scan
import Monkey.Value
