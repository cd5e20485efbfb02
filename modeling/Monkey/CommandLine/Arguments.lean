import Monkey.CommandLine.Options
import Monkey.Text.Line
import Monkey.Text.Numeral

/-!
# Reading the arguments

Arguments are first sorted into options and operands. The name of an option may be cut short as long
as one option only starts like this; a value may follow an equals sign; letters may be joined behind
one dash, and each of them has to be an option. What looks like a negative number or has a space in
it is an operand, and so is everything behind the first lone double dash. Then the options take
effect from left to right. The first operand is the script; there is no place for another one.
-/

namespace Monkey.CommandLine

set_option autoImplicit false

inductive Argument where
  | operand (text : String)
  /-- The double dash behind which everything is an operand. -/
  | divider
  /-- An option by its name, with the value that is attached to it. -/
  | named (flag : Flag) (value : Option String)
  /-- An option by its letter, with the letters that are joined to it. -/
  | lettered (flag : Flag) (joined : List Char)
  /-- What looks like an option but is none. -/
  | unknown (text : String)
  deriving Repr, DecidableEq

/-- Does an argument look like a negative number? It may end in one line feed. -/
def looksNegative (cs : List Char) : Bool :=
  match cs with
  | '-' :: rest =>
    let isDigit (c : Char) : Bool := (Text.digitValue? c).isSome
    let body := if rest.getLast? = some '\n' then rest.dropLast else rest
    match body.dropWhile isDigit with
    | [] => !body.isEmpty
    | '.' :: fraction => !fraction.isEmpty && fraction.all isDigit
    | _ => false
  | _ => false

/-- An argument cut at its first equals sign. -/
def splitValue (cs : List Char) : String × Option String :=
  match cs.dropWhile (· != '=') with
  | [] => (String.ofList cs, none)
  | _ :: value => (String.ofList (cs.takeWhile (· != '=')), some (String.ofList value))

def candidates (start : String) : List Flag :=
  Flag.all.filter fun f => (Text.after? start f.name).isSome

/-- An argument that starts with a dash and is no option. -/
def withoutOption (text : String) : Argument :=
  if looksNegative text.toList ∨ ' ' ∈ text.toList then .operand text else .unknown text

/-- An option by its letter. An equals sign behind the letter only sets off what is joined to it. -/
def Argument.ofLetter (f : Flag) : List Char → Argument
  | ['='] => .named f (some "")
  | '=' :: joined => .lettered f joined
  | joined => .lettered f joined

/-- Sorts one argument. A name in full is not ambiguous even if others start with it. -/
def Argument.of (text : String) : Except UsageError Argument :=
  match text.toList with
  | '-' :: '-' :: _ =>
    let (name, value) := splitValue text.toList
    match Flag.all.find? fun f => f.name == name with
    | some f => .ok (.named f value)
    | none =>
      match candidates name with
      | [f] => .ok (.named f value)
      | [] => .ok (withoutOption text)
      | fs => .error (.ambiguous text (fs.map Flag.name))
  | '-' :: c :: joined =>
    match Flag.ofLetter? c with
    | some f => .ok (.ofLetter f joined)
    | none => .ok (withoutOption text)
  | _ => .ok (.operand text)

def sortArguments : List String → Except UsageError (List Argument)
  | [] => .ok []
  | t :: ts =>
    if t = "--" then .ok (.divider :: ts.map .operand)
    else do
      let a ← Argument.of t
      let as ← sortArguments ts
      return a :: as

/-- An option and those that the letters joined to it stand for. From the first letter on that is no
option, the letters are a value, and none of these options takes one. -/
def joinedFlags (first : Flag) : List Char → Except UsageError (List Flag)
  | [] => .ok [first]
  | c :: rest =>
    match Flag.ofLetter? c with
    | some f => (joinedFlags f rest).map (first :: ·)
    | none => .error (.needlessValue first (String.ofList (c :: rest)))

inductive Request where
  | help
  | version
  | run (options : Options)
  deriving Repr, DecidableEq

/-- Lets options without a value take effect. Help and the version leave the rest undone. -/
def Options.setAll (o : Options) : List Flag → Request
  | [] => .run o
  | .help :: _ => .help
  | .version :: _ => .version
  | .interactive :: fs => { o with interactive := true }.setAll fs
  | .parse :: fs => { o with parse := true }.setAll fs
  | .tokens :: fs => { o with tokens := true }.setAll fs
  | .debug :: fs => { o with debug := true }.setAll fs
  | .recursionLimit :: fs => o.setAll fs

/-- Gives an option its value. A double dash is no value, so it sets the option to nothing. -/
def Options.setValue (o : Options) (f : Flag) (value : String) : Except UsageError Options :=
  if f.takesValue then
    if value = "--" then .ok { o with recursionLimit := none }
    else
      match Text.Numeral.read value with
      | .ok n => .ok { o with recursionLimit := some n }
      | .error _ => .error (.notANumber f value)
  else .error (.needlessValue f value)

/-- Lets arguments take effect one by one. A divider has no effect in the place of the script and
right behind it; elsewhere it is one operand too many. -/
def requestFrom (o : Options) (behindScript : Bool) (extra : List String) :
    List Argument → Except UsageError Request
  | [] => if extra = [] then .ok (.run o) else .error (.unrecognized extra.reverse)
  | .operand t :: rest =>
    if o.script = none then requestFrom { o with script := some t } true extra rest
    else requestFrom o false (t :: extra) rest
  | .divider :: rest =>
    if o.script = none ∨ behindScript then requestFrom o false extra rest
    else requestFrom o false ("--" :: extra) rest
  | .unknown t :: rest => requestFrom o false (t :: extra) rest
  | .lettered f joined :: rest => do
    let fs ← joinedFlags f joined
    match o.setAll fs with
    | .run o => requestFrom o false extra rest
    | r => return r
  | .named f (some v) :: rest => do
    let o ← o.setValue f v
    requestFrom o false extra rest
  | .named f none :: rest =>
    if f.takesValue then
      match rest with
      | .operand v :: rest => do
        let o ← o.setValue f v
        requestFrom o false extra rest
      | _ => .error (.missingValue f)
    else
      match o.setAll [f] with
      | .run o => requestFrom o false extra rest
      | r => .ok r

def Request.of (arguments : List String) : Except UsageError Request := do
  let as ← sortArguments arguments
  requestFrom .default false [] as

end Monkey.CommandLine
