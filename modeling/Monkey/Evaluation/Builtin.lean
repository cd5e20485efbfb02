import Monkey.Evaluation.Basic
import Monkey.Integer

/-!
# Applying built-in functions

A built-in function first checks its arguments against its signature. A line that is read becomes an
integer if it is nothing but one of 64 bits, and a string otherwise.
-/

namespace Monkey

set_option autoImplicit false

namespace Builtin

/-- The first argument whose type is not the expected one. -/
def checkTypes (name : String) (position : Nat) :
    List (Option String) → List String → Except RuntimeError Unit
  | some t :: ts, tag :: tags =>
    if tag = t then checkTypes name (position + 1) ts tags
    else .error (.builtinArgument name t position tag)
  | none :: ts, _ :: tags => checkTypes name (position + 1) ts tags
  | _, _ => .ok ()

/-- Checks the number of the arguments, then the type of each. -/
def check (name : String) (signature : List (Option String)) (tags : List String) :
    Except RuntimeError Unit :=
  if tags.length = signature.length then checkTypes name 1 signature tags
  else .error (.builtinArity name signature.length tags.length)

/-- What a line stands for once the blanks around it are gone. -/
def lineValue (line : String) : Except Text.Numeral.Error Value :=
  let text := Text.trim line
  match Text.Numeral.plain? text.toList with
  | none => .ok (.string text)
  | some (.error e) => .error e
  | some (.ok n) => .ok (if Integer.fits n then .integer n else .string text)

end Builtin

namespace Run

/-- Applies a built-in function to arguments that fit its signature. -/
def builtinBody (depth : Nat) (b : Builtin) (args : List Value) : Run Value :=
  match b, args with
  | .len, [.string s] => pure (.integer s.length)
  | .str, [v] => do
    let t ← shown depth v
    return .string t
  | .println, [v] => do
    let t ← shown depth v
    event (.line t)
    return .null
  | .input, [.string prompt] => do
    let line ← ask prompt
    match Builtin.lineValue (line.getD "") with
    | .ok v => pure v
    | .error e => stop (.numeral e)
  | _, _ => pure .null

def builtin (depth : Nat) (b : Builtin) (args : List Value) : Run Value := do
  ofExcept (Builtin.check b.name b.signature (args.map Value.tag))
  builtinBody depth b args

end Run

end Monkey
