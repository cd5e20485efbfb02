/-!
# Built-in functions

The functions that a program finds under their names without binding them.
-/

namespace Monkey

set_option autoImplicit false

inductive Builtin where
  /-- The length of a string. -/
  | len
  /-- The text of any value. -/
  | str
  /-- Writes the text of a value as a line. -/
  | println
  /-- Reads a line after showing a prompt. -/
  | input
  deriving Repr, DecidableEq

namespace Builtin

def name : Builtin → String
  | len => "len"
  | str => "str"
  | println => "println"
  | input => "input"

/-- What each argument has to be, by the name of its type; nothing where any value will do. -/
def signature : Builtin → List (Option String)
  | len => [some "String"]
  | str => [none]
  | println => [none]
  | input => [some "String"]

def arity (b : Builtin) : Nat := b.signature.length

def all : List Builtin := [input, len, println, str]

def ofName? (n : String) : Option Builtin :=
  all.find? fun b => b.name == n

theorem ofName?_name (b : Builtin) : ofName? b.name = some b := by
  cases b <;> rfl

end Builtin

end Monkey
