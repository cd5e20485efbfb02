import Monkey.CommandLine.Help
import Monkey.Repl

/-!
# The interactive mode

Lines are asked for and handled until one of them ends the session or the input ends. A failure
that the line interpreter leaves over is told, and the session goes on.
-/

namespace Monkey.CommandLine.Interactive

set_option autoImplicit false

def prompt : String := ">> "

def greeting (debug : Bool) : List String :=
  [version ++ " - Interactive Mode",
    "Type '" ++ Repl.exitCommand ++ "' to quit, ':help' for commands",
    "Readline enabled: Use ↑/↓ for history, Tab for completion"] ++
    (if debug then ["Debug mode enabled"] else []) ++ [""]

def farewell : String := "\nGoodbye!"

def ask (s : Session) : Option String × Session :=
  let (line, console) := s.machine.console.ask prompt
  (line, s.onConsole fun _ => console)

/-- Handles one line, and tells whether the session goes on. -/
def handle (line : String) (s : Session) : Bool × Session :=
  match Repl.handle line s with
  | (.ok goesOn, s) => (goesOn, s)
  | (.error f, s) => (true, s.say ("Unexpected error: " ++ f.message))

/-- Asks for lines and handles them. Every round uses up at least one of the lines that are
pending, so there is nothing left to read after as many rounds as there are lines in `bound`. -/
def converse (bound : List String) (s : Session) : Session :=
  match ask s with
  | (none, s) => s.say farewell
  | (some line, s) =>
    match handle line s with
    | (false, s) => s
    | (true, s) =>
      match bound with
      | [] => s
      | _ :: bound => converse bound s

def run (s : Session) : Session :=
  let s := Repl.sayAll (greeting s.debug) s
  converse s.machine.console.pending s

end Monkey.CommandLine.Interactive
