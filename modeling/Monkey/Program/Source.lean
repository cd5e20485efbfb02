import Monkey.Program.Basic
import Monkey.Text.Quoted

/-!
# Programs as source text

The canonical way to write a tree. Every operator application stands in parentheses. In a sequence
an expression ends with a semicolon unless it is the last: without it an expression that starts
with a parenthesis or a minus sign would be read as part of the one before.
-/

namespace Monkey

set_option autoImplicit false

def braced (text : String) : String :=
  "\x7b" ++ text ++ "\x7d"

mutual

def Expression.source : Expression → String
  | .integer n => toString n
  | .boolean true => "true"
  | .boolean false => "false"
  | .string s => Text.Quoted.quote s
  | .name n => n
  | .unary op e => "(" ++ op ++ e.source ++ ")"
  | .binary l op r => "(" ++ l.source ++ " " ++ op ++ " " ++ r.source ++ ")"
  | .conditional c t none =>
    "if " ++ c.source ++ " " ++ braced (" ".intercalate (Statement.sources t))
  | .conditional c t (some e) =>
    "if " ++ c.source ++ " " ++ braced (" ".intercalate (Statement.sources t)) ++ " else " ++
      braced (" ".intercalate (Statement.sources e))
  | .function ps body =>
    "fn(" ++ ", ".intercalate ps ++ ") " ++ braced (" ".intercalate (Statement.sources body))
  | .call f args => f.source ++ "(" ++ ", ".intercalate (Expression.sources args) ++ ")"
  | .hole => "Expression()"

def Statement.source : Statement → String
  | .binding n e => "let " ++ n ++ " = " ++ e.source ++ ";"
  | .ret e => "return " ++ e.source ++ ";"
  | .expression e => e.source
  | .block ss => " ".intercalate (Statement.sources ss)
  | .hole => "Statement()"

def Expression.sources : List Expression → List String
  | [] => []
  | e :: es => e.source :: Expression.sources es

/-- The statements of a sequence, each with what ends it. -/
def Statement.sources : List Statement → List String
  | [] => []
  | [s] => [s.source]
  | s :: t :: ss =>
    (if s.isExpression then s.source ++ ";" else s.source) :: Statement.sources (t :: ss)

end

/-- A block on one line. -/
def Statement.blockSource (ss : List Statement) : String :=
  " ".intercalate (Statement.sources ss)

/-- A program with one statement a line. -/
def Program.source (p : Program) : String :=
  "\n".intercalate (Statement.sources p.statements)

def Node.source : Node → String
  | .program p => p.source
  | .statement s => s.source
  | .expression e => e.source
  | .missing => "None"

end Monkey
