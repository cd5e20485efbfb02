import Monkey.Program.Outline
import Monkey.Session
import Monkey.Text.Line

/-!
# The line interpreter

One line at a time is evaluated in a session, or is a command that shows how the line would be read
or what is bound. Errors are reported as lines of output.
-/

namespace Monkey.Repl

set_option autoImplicit false

def exitCommand : String := "exit"

def helpLines : List String :=
  ["REPL Commands:",
    "  :parse <src>      - Show the parsed AST",
    "  :tokens <src>     - Show the token stream",
    "  :env              - Show current global bindings",
    "  :help             - Show this help",
    "  exit              - Exit REPL",
    "",
    "Language features:",
    "  let x = 5;                      - Value binding",
    "  let add = fn(a, b) \x7b a + b \x7d;   - Function literal",
    "  add(1, 2)                       - Function call",
    "  if x > 1 \x7b x \x7d else \x7b 0 \x7d       - Conditional expression",
    "  println(len(\"monkey\"))          - Built-ins: len, str, println, input"]

def sayAll (lines : List String) (s : Session) : Session :=
  lines.foldl (fun s l => s.say l) s

def showOutline (text : String) (s : Session) : Except Failure Unit × Session :=
  match s.read text "<input>" with
  | (.error f, s) => (.error f, s)
  | (.ok r, s) =>
    if r.errors ≠ [] then (.ok (), s.say (SyntaxError.report r.messages))
    else if r.program.fits s.depth then
      (.ok (), s.onConsole fun c => c.add (.text (renderOutline r.program.outline)))
    else (.error .tooDeep, s)

def showTokens (text : String) (s : Session) : Session :=
  sayAll ((Token.scan text "<input>").map fun t => t.kind.tag ++ "\t" ++ t.display) s

def showEach : Bindings → Session → Except Failure Unit × Session
  | [], s => (.ok (), s)
  | (name, v) :: rest, s =>
    match s.lift (Run.shown s.depth v) with
    | (.error f, s) => (.error f, s)
    | (.ok t, s) => showEach rest (s.say ("  " ++ name ++ " = " ++ Text.onOneLine t))

def showBindings (s : Session) : Except Failure Unit × Session :=
  match s.bindings with
  | [] => (.ok (), s.say "  (no user-defined bindings)")
  | bs => showEach bs s

/-- Reports why a text has no value. Only a failure that is no error of a program is left over. -/
def reportFault (fault : Session.Fault) (s : Session) : Except Failure Unit × Session :=
  match fault with
  | .unreadable messages _ => (.ok (), s.say (SyntaxError.report messages))
  | .failed (.runtime e source) => (.ok (), s.say (RuntimeError.report e.message source))
  | .failed .tooDeep => (.ok (), s.say "Error: maximum recursion depth exceeded")
  | .failed f => (.error f, s)

/-- Evaluates a line and shows its value unless that is null. -/
def evaluate (line : String) (s : Session) : Except Failure Unit × Session :=
  match s.run line "<input>" with
  | (.error fault, s) => reportFault fault s
  | (.ok v, s) =>
    if v.isNull then (.ok (), s)
    else
      match s.lift (Run.shown s.depth v) with
      | (.ok t, s) => (.ok (), s.say t)
      | (.error f, s) => reportFault (.failed f) s

inductive Request where
  | exit
  | nothing
  | outline (text : String)
  | tokens (text : String)
  | bindings
  | help
  | evaluate (line : String)
  deriving Repr, DecidableEq

/-- A command is recognised once the blanks around it are gone. -/
def Request.ofLine (line : String) : Request :=
  let stripped := Text.trim line
  if stripped = exitCommand then .exit
  else if stripped = "" then .nothing
  else
    match Text.after? ":parse " stripped with
    | some text => .outline text
    | none =>
      match Text.after? ":tokens " stripped with
      | some text => .tokens text
      | none =>
        if stripped = ":env" then .bindings
        else if stripped = ":help" then .help
        else .evaluate line

def perform (r : Request) (s : Session) : Except Failure Unit × Session :=
  match r with
  | .exit => (.ok (), s)
  | .nothing => (.ok (), s)
  | .outline text => showOutline text s
  | .tokens text => (.ok (), showTokens text s)
  | .bindings => showBindings s
  | .help => (.ok (), sayAll helpLines s)
  | .evaluate line => evaluate line s

/-- Handles one line, and tells whether the session goes on. -/
def handle (line : String) (s : Session) : Except Failure Bool × Session :=
  match perform (.ofLine line) s with
  | (.ok (), s) => (.ok (Request.ofLine line != .exit), s)
  | (.error f, s) => (.error f, s)

/-- The words that a beginning can be completed to: keywords, built-in functions, commands. -/
def completions (beginning : String) : List String :=
  (Token.Kind.keywords.map Token.Kind.tag ++ Builtin.all.map Builtin.name ++
    [":parse", ":tokens", ":env", ":help", exitCommand]).filter fun w =>
      (Text.after? beginning w).isSome

end Monkey.Repl
