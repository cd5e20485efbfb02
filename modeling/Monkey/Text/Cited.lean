import Monkey.Text.Hexadecimal
import Monkey.Text.Printable

/-!
# Cited text

How a message cites a text that came from outside: in single quotes, or in double quotes if it has
single quotes and no double ones. What would end the quotation, break the line or not show is
written with a backslash.
-/

namespace Monkey.Text.Cited

set_option autoImplicit false

def quoteFor (cs : List Char) : Char :=
  if '\'' ∈ cs ∧ '"' ∉ cs then '"' else '\''

/-- A character by its number, with as few digits as its size allows. -/
def numbered (c : Char) : List Char :=
  let n := c.toNat
  if n < 0x100 then '\\' :: 'x' :: Hexadecimal.digits 2 n
  else if n < 0x10000 then '\\' :: 'u' :: Hexadecimal.digits 4 n
  else '\\' :: 'U' :: Hexadecimal.digits 8 n

def escape (quote c : Char) : List Char :=
  if c = quote ∨ c = '\\' then ['\\', c]
  else if c = '\n' then ['\\', 'n']
  else if c = '\t' then ['\\', 't']
  else if c = '\r' then ['\\', 'r']
  else if isPrintable c then [c]
  else numbered c

/-- A text between quotes, on one line and in printable characters. -/
def cite (s : String) : String :=
  let cs := s.toList
  let quote := quoteFor cs
  String.ofList (quote :: (cs.flatMap (escape quote) ++ [quote]))

end Monkey.Text.Cited
