import Monkey.Text.Cited

/-!
# Options of the command line

The options by name, what they can be set to, and what can be wrong with their use.
-/

namespace Monkey.CommandLine

set_option autoImplicit false

inductive Flag where
  | help | interactive | parse | tokens | debug | recursionLimit | version
  deriving Repr, DecidableEq

namespace Flag

def all : List Flag := [help, interactive, parse, tokens, debug, recursionLimit, version]

def letter? : Flag → Option Char
  | help => some 'h'
  | interactive => some 'i'
  | _ => none

def name : Flag → String
  | help => "--help"
  | interactive => "--interactive"
  | parse => "--parse"
  | tokens => "--tokens"
  | debug => "--debug"
  | recursionLimit => "--recursion-limit"
  | version => "--version"

def takesValue : Flag → Bool
  | recursionLimit => true
  | _ => false

/-- How a message names an option: by its letter, if it has one, and its name. -/
def display (f : Flag) : String :=
  match f.letter? with
  | some c => String.ofList ['-', c] ++ "/" ++ f.name
  | none => f.name

def ofLetter? (c : Char) : Option Flag :=
  all.find? fun f => f.letter? == some c

end Flag

/-- What the program is asked to do. The limit can be set to nothing. -/
structure Options where
  script : Option String
  interactive : Bool
  parse : Bool
  tokens : Bool
  debug : Bool
  recursionLimit : Option Int
  deriving Repr, DecidableEq

def Options.default : Options := ⟨none, false, false, false, false, some 10000⟩

inductive UsageError where
  /-- More than one option starts like this. -/
  | ambiguous (argument : String) (candidates : List String)
  /-- The option takes no value, but one is attached to it. -/
  | needlessValue (flag : Flag) (value : String)
  | missingValue (flag : Flag)
  | notANumber (flag : Flag) (value : String)
  | unrecognized (arguments : List String)
  deriving Repr, DecidableEq

def UsageError.message : UsageError → String
  | ambiguous a cs => "ambiguous option: " ++ a ++ " could match " ++ ", ".intercalate cs
  | needlessValue f v =>
    "argument " ++ f.display ++ ": ignored explicit argument " ++ Text.Cited.cite v
  | missingValue f => "argument " ++ f.display ++ ": expected one argument"
  | notANumber f v => "argument " ++ f.display ++ ": invalid int value: " ++ Text.Cited.cite v
  | unrecognized as => "unrecognized arguments: " ++ " ".intercalate as

end Monkey.CommandLine
