import Monkey.CommandLine.Arguments
import Monkey.CommandLine.Interactive
import Monkey.Script

/-!
# The command line

What the program does with its arguments, the files around it and its input: a script is run or
shown, and without one the interactive mode starts.
-/

namespace Monkey.CommandLine

set_option autoImplicit false

/-- How a run ended, and all that it did on its console. -/
structure Outcome where
  ending : Ending
  console : Console

def Outcome.ofEvents (code : Nat) (events : List Event) : Outcome :=
  ⟨.status code, ⟨[], events.toArray⟩⟩

def maxLimit : Int := 2147483647

/-- The levels that the command line itself takes up. -/
def ownLevels : Nat := 10

/-- No evaluation goes deeper than this, whatever limit is asked for. -/
def maxDepth : Nat := 10000

def Options.depth (o : Options) : Except Ending Nat :=
  match o.recursionLimit with
  | none => .error .limitMissing
  | some limit =>
    if maxLimit < limit ∨ limit < -maxLimit - 1 then .error .limitTooHigh
    else if limit < 1 then .error .limitTooLow
    else if limit < ownLevels then .error (.broken .tooDeep)
    else .ok (min maxDepth limit.toNat)

def Options.useScript (o : Options) (path : String) (found : Files.Finding) (s : Session) :
    Ending × Session :=
  match found.present with
  | .error f => (.noScript f, s)
  | .ok false => (.status 1, s.say ("Error: Script file '" ++ path ++ "' does not exist"))
  | .ok true =>
    if o.parse then Script.outline path found.content s
    else if o.tokens then Script.tokens path found.content s
    else Script.run path found.content s

/-- Does what the options say. A path without characters is no script. -/
def Options.perform (o : Options) (find : String → Files.Finding) (input : List String) :
    Outcome :=
  match o.depth with
  | .error e => ⟨e, .ofLines input⟩
  | .ok depth =>
    let s := Session.start o.debug depth input
    let path := o.script.getD ""
    let (ending, s) :=
      if path = "" then (.status 0, Interactive.run s) else o.useScript path (find path) s
    ⟨ending, s.machine.console⟩

def run (program : String) (arguments : List String) (find : String → Files.Finding)
    (input : List String) : Outcome :=
  match Request.of arguments with
  | .error e => .ofEvents 2 ((e.lines program).map .record)
  | .ok .help => .ofEvents 0 ((helpLines program).map .line)
  | .ok .version => .ofEvents 0 [.line version]
  | .ok (.run o) => o.perform find input

end Monkey.CommandLine
