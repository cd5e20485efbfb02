/-!
# Hexadecimal digits

Numbers written with a fixed number of lower-case hexadecimal digits.
-/

namespace Monkey.Text.Hexadecimal

set_option autoImplicit false

def digit (n : Nat) : Char :=
  if n < 10 then Char.ofNat (0x30 + n) else Char.ofNat (0x57 + n)

def digits : Nat → Nat → List Char
  | 0, _ => []
  | k + 1, n => digits k (n / 16) ++ [digit (n % 16)]

@[simp] theorem length_digits (k n : Nat) : (digits k n).length = k := by
  induction k generalizing n with
  | zero => rfl
  | succ k ih => simp [digits, ih]

example : digits 2 0xC3 = ['c', '3'] ∧ digits 4 0x2028 = ['2', '0', '2', '8'] := by decide

end Monkey.Text.Hexadecimal
