/-!
# Blanks

The characters that separate tokens and are stripped from the ends of a line: the Unicode spaces
and line separators, and the control characters that Unicode treats as separators.
-/

namespace Monkey.Text

set_option autoImplicit false

/-- Tab to carriage return, the four information separators, and every Unicode space. -/
def isBlank (c : Char) : Bool :=
  let n := c.toNat
  (0x09 ≤ n && n ≤ 0x0D) || (0x1C ≤ n && n ≤ 0x20) || n == 0x85 || n == 0xA0 || n == 0x1680 ||
    (0x2000 ≤ n && n ≤ 0x200A) || n == 0x2028 || n == 0x2029 || n == 0x202F || n == 0x205F ||
    n == 0x3000

example : isBlank ' ' ∧ isBlank '\n' ∧ isBlank '\x1c' ∧ isBlank '\u3000' := by decide

example : ¬ isBlank 'a' ∧ ¬ isBlank '\u200b' ∧ ¬ isBlank '\x00' := by decide

def trimEnds (p : Char → Bool) (cs : List Char) : List Char :=
  ((cs.dropWhile p).reverse.dropWhile p).reverse

def trim (s : String) : String :=
  String.ofList (trimEnds isBlank s.toList)

end Monkey.Text
