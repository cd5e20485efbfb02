import Monkey.Token.Basic

/-!
# Syntax errors

What is wrong with a statement that could not be read, and how a list of such errors is reported.
-/

namespace Monkey

set_option autoImplicit false

inductive SyntaxError where
  /-- A token of this kind had to follow. -/
  | expected (kind : Token.Kind) (found : Token)
  /-- No expression starts with this token. -/
  | unexpected (found : Token)
  /-- The integer does not fit into 64 bits. -/
  | integerTooLarge (numeral : String)
  deriving Repr, DecidableEq

namespace SyntaxError

def message : SyntaxError → String
  | expected kind found =>
    "expected next token to be " ++ kind.tag ++ ", got " ++ found.display ++ " instead"
  | unexpected found => "no prefix parse function for " ++ found.display
  | integerTooLarge numeral => "could not parse " ++ numeral ++ " as integer"

/-- A banner, a heading, and one indented line for each message. -/
def report (messages : List String) : String :=
  "\n".intercalate
    ("Woops! We ran into some monkey business here!" :: " parser errors:" ::
      messages.map ("\t" ++ ·))

end SyntaxError

end Monkey
