import Monkey.Arithmetic
import Monkey.Evaluation.Basic

/-!
# Operators on values

`!` takes any value, `-` an integer; the binary operators take two integers, and `==` and `!=` also
two booleans.
-/

namespace Monkey.Run

set_option autoImplicit false

def unary (depth : Nat) (op : String) (v : Value) : Run Value :=
  if op = "!" then do
    let b ← truth v
    return .boolean (!b)
  else
    match op, v with
    | "-", .integer n => ofExcept (Arithmetic.negate op n)
    | _, _ => do
      let t ← inspected depth v
      fail (.badUnary op t)

/-- No operator takes these two values. -/
def badBinary (depth : Nat) (op : String) (l r : Value) : Run Value := do
  let s ← inspected depth l
  let t ← inspected depth r
  fail (.badBinary s op t)

def binary (depth : Nat) (op : String) (l r : Value) : Run Value :=
  match l, r with
  | .integer m, .integer n => ofExcept (Arithmetic.binary op m n)
  | .boolean a, .boolean b =>
    match op with
    | "==" => pure (.boolean (a == b))
    | "!=" => pure (.boolean (a != b))
    | _ => badBinary depth op l r
  | _, _ => badBinary depth op l r

end Monkey.Run
