import Monkey.Text.Numeral

/-!
# Runtime errors

What can be wrong with an evaluation, with the text of each error; and the other reasons for which
an evaluation ends without a value.
-/

namespace Monkey

set_option autoImplicit false

/-- The error of a running program. Operands are given as they are shown. -/
inductive RuntimeError where
  | unboundName (name : String)
  | badUnary (operator operand : String)
  | badBinary (left operator right : String)
  | unaryOverflow (operator operand : String)
  | overflow (left operator right : String)
  | divisionByZero (left operator right : String)
  | moduloByZero (left operator right : String)
  | argumentCount (want got : Nat)
  | notAFunction (value : String)
  | builtinArity (name : String) (want got : Int)
  | builtinArgument (name expected : String) (position : Nat) (got : String)
  | unknownStatement (tag : String)
  | unknownExpression (tag : String)
  | nothingToEvaluate
  deriving Repr, DecidableEq

namespace RuntimeError

def message : RuntimeError → String
  | unboundName n => "identifier not found: " ++ n
  | badUnary op e => "invalid prefix expression: (" ++ op ++ e ++ ")"
  | badBinary l op r => "invalid infix expression: (" ++ l ++ " " ++ op ++ " " ++ r ++ ")"
  | unaryOverflow op e => "integer overflow: (" ++ op ++ e ++ ")"
  | overflow l op r => "integer overflow: (" ++ l ++ " " ++ op ++ " " ++ r ++ ")"
  | divisionByZero l op r => "division by zero: (" ++ l ++ " " ++ op ++ " " ++ r ++ ")"
  | moduloByZero l op r => "modulo by zero: (" ++ l ++ " " ++ op ++ " " ++ r ++ ")"
  | argumentCount want got =>
    "wrong number of arguments: want=" ++ toString want ++ ", got=" ++ toString got
  | notAFunction v => "not a function: " ++ v
  | builtinArity n want got =>
    n ++ " requires " ++ toString want ++ (if want = 1 then " argument" else " arguments") ++
      ", got " ++ toString got
  | builtinArgument n expected i got =>
    n ++ " requires " ++ expected ++ " for argument " ++ toString i ++ ", got " ++ got
  | unknownStatement t => "unknown statement type: " ++ t
  | unknownExpression t => "unknown expression type: " ++ t
  | nothingToEvaluate => "cannot evaluate NoneType"

/-- An error as it is reported, with the statement that failed if that is known and not empty. -/
def report (message : String) (source : Option String) : String :=
  match source with
  | none => "Error: " ++ message
  | some s =>
    if s = "" then "Error: " ++ message
    else "Error: " ++ message ++ "\n  Source: " ++ Text.trim s

end RuntimeError

/-- Why an evaluation has no value. -/
inductive Failure where
  /-- An error of the program, and the top-level statement that it arose in. -/
  | runtime (error : RuntimeError) (source : Option String)
  /-- A value of a foreign kind was asked for its truth value. -/
  | noTruth (tag : String)
  /-- A value of a foreign kind was asked for its text. -/
  | noText (tag : String)
  /-- Something was asked of a value that is not there. -/
  | noValue
  | numeral (error : Text.Numeral.Error)
  /-- The evaluation went deeper than it may. -/
  | tooDeep
  deriving Repr, DecidableEq

/-- A failure in words, without the statement that it arose in. -/
def Failure.message : Failure → String
  | runtime e _ => e.message
  | noTruth t => "No truthiness for type: " ++ t
  | noText t => "No display for type: " ++ t
  | noValue => "no value"
  | numeral e => e.message
  | tooDeep => "maximum recursion depth exceeded"

end Monkey
