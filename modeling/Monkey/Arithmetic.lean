import Monkey.Integer
import Monkey.RuntimeError
import Monkey.Value

/-!
# Integer arithmetic

Operators on integers are computed exactly; a result that does not fit into 64 bits is an error.
Division rounds toward zero, and a remainder has the sign of the dividend.
-/

namespace Monkey.Arithmetic

set_option autoImplicit false

/-- Quotient toward zero and remainder, if the divisor is not zero. -/
def divide? (l r : Int) : Option (Int × Int) :=
  if r = 0 then none else some (l.tdiv r, l.tmod r)

def comparison? : String → Option (Int → Int → Bool)
  | "<" => some fun l r => decide (l < r)
  | ">" => some fun l r => decide (l > r)
  | "==" => some fun l r => decide (l = r)
  | "!=" => some fun l r => decide (l ≠ r)
  | _ => none

/-- The exact result of an operator; an error for a divisor that is zero or an unknown operator. -/
def exact (op : String) (l r : Int) : Except RuntimeError Int :=
  match op with
  | "+" => .ok (l + r)
  | "-" => .ok (l - r)
  | "*" => .ok (l * r)
  | "/" =>
    match divide? l r with
    | some (q, _) => .ok q
    | none => .error (.divisionByZero (toString l) op (toString r))
  | "%" =>
    match divide? l r with
    | some (_, m) => .ok m
    | none => .error (.moduloByZero (toString l) op (toString r))
  | _ => .error (.badBinary (toString l) op (toString r))

def binary (op : String) (l r : Int) : Except RuntimeError Value :=
  match comparison? op with
  | some compare => .ok (.boolean (compare l r))
  | none =>
    match exact op l r with
    | .error e => .error e
    | .ok n =>
      if Integer.fits n then .ok (.integer n) else .error (.overflow (toString l) op (toString r))

def negate (op : String) (n : Int) : Except RuntimeError Value :=
  if Integer.fits (-n) then .ok (.integer (-n)) else .error (.unaryOverflow op (toString n))

end Monkey.Arithmetic
