/-!
# Integers

The integers that a program can compute with are those of 64 bits.
-/

namespace Monkey.Integer

set_option autoImplicit false

def least : Int := -9223372036854775808

def greatest : Int := 9223372036854775807

/-- Is the integer one of 64 bits? -/
def fits (n : Int) : Bool :=
  decide (least ≤ n) && decide (n ≤ greatest)

theorem fits_iff {n : Int} : fits n = true ↔ least ≤ n ∧ n ≤ greatest := by
  simp [fits]

end Monkey.Integer
