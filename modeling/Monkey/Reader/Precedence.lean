import Monkey.Token.Basic

/-!
# Precedence

How tightly an operator holds its operands. A call binds tightest, then the unary operators; what
is no operator binds least.
-/

namespace Monkey.Reader

set_option autoImplicit false

inductive Precedence where
  | lowest | equality | comparison | sum | product | unary | call
  deriving Repr, DecidableEq

namespace Precedence

def rank : Precedence → Nat
  | lowest => 1
  | equality => 2
  | comparison => 3
  | sum => 4
  | product => 5
  | unary => 6
  | call => 7

/-- The precedence of a token that follows an operand. -/
def ofKind : Token.Kind → Precedence
  | .eq | .notEq => equality
  | .lt | .gt => comparison
  | .plus | .minus => sum
  | .asterisk | .slash | .percent => product
  | .lparen => call
  | _ => lowest

end Precedence

end Monkey.Reader
