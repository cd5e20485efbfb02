import Monkey.Builtin
import Monkey.Program.Source

/-!
# Values

What expressions evaluate to. A function keeps the scope that it was written in by its number. A
value of a foreign kind can be passed around, but has neither a truth value nor a text. What stands
in the place of a value that is not there can be passed around and bound as well; a name that is
bound to it is as good as unbound, and hides what the name means further out.
-/

namespace Monkey

set_option autoImplicit false

inductive Value where
  | integer (value : Int)
  | boolean (value : Bool)
  | string (value : String)
  | function (parameters : List String) (body : List Statement) (scope : Nat)
  | builtin (builtin : Builtin)
  | null
  /-- A value of a kind that is not of this language. -/
  | foreign (tag : String)
  /-- The place of a value that is not there. -/
  | missing

instance : Inhabited Value := ⟨.null⟩

namespace Value

def tag : Value → String
  | integer _ => "Integer"
  | boolean _ => "Boolean"
  | string _ => "String"
  | function .. => "Function"
  | builtin _ => "BuiltIn"
  | null => "Null"
  | foreign t => t
  | missing => "Unknown"

def isNull : Value → Bool
  | null => true
  | _ => false

/-- Positive integers and `true` are true; every other value of the language is false. -/
def truth? : Value → Option Bool
  | integer n => some (decide (0 < n))
  | boolean b => some b
  | string _ => some false
  | function .. => some false
  | builtin _ => some false
  | null => some false
  | foreign _ => none
  | missing => none

/-- The text of a value: of a string its characters, of a function its source. -/
def text? : Value → Option String
  | integer n => some (toString n)
  | boolean true => some "true"
  | boolean false => some "false"
  | string s => some s
  | function ps body _ =>
    some ("fn(" ++ ", ".intercalate ps ++ ") " ++
      braced ("\n" ++ Statement.blockSource body ++ "\n"))
  | builtin b => some ("builtin function " ++ b.name)
  | null => some "null"
  | foreign _ => none
  | missing => none

/-- The text of a value with quotes around a string. -/
def quoted? : Value → Option String
  | string s => some (Text.Quoted.quote s)
  | v => v.text?

/-- Is the program text inside a value at most so many levels high? -/
def fits (d : Nat) : Value → Bool
  | function _ body _ => body.all (Statement.fits d)
  | _ => true

end Value

end Monkey
