import Monkey.Evaluation.Program
import Monkey.Reader.Program

/-!
# Sessions

A session evaluates one text after another in the same global scope. A text with syntax errors is
not evaluated at all; a text that fails while it is evaluated leaves what it did before.
-/

namespace Monkey

set_option autoImplicit false

namespace Reader

def Refusal.failure : Refusal → Failure
  | .tooDeep => .tooDeep
  | .numeral e => .numeral e

namespace Reading

/-- The records that reading leaves in a log: one for each statement as it is read, and the number
of errors at the end. -/
def records (depth : Nat) (file : String) (r : Reading) : List String :=
  let told := r.statements.takeWhile (Statement.fits depth)
  let count := "DEBUG parsing: " ++ toString r.errors.length ++ " parse errors in " ++ file
  told.map (fun s => "DEBUG parsing: Parsed statement: " ++ s.source) ++
    if told.length = r.statements.length ∧ r.refusal = none ∧ r.errors ≠ [] then [count] else []

/-- Why a text is not read when each statement is also written to a log. -/
def refusalRecorded? (depth : Nat) (r : Reading) : Option Refusal :=
  if r.statements.all (Statement.fits depth) then r.refusal else some .tooDeep

end Reading

end Reader

/-- A machine with a global scope, and how deep and how talkative evaluation is. -/
structure Session where
  machine : Machine
  globalScope : Nat
  debug : Bool
  depth : Nat

namespace Session

/-- Why a text has no value. -/
inductive Fault where
  | unreadable (messages : List String) (file : String)
  | failed (failure : Failure)
  deriving Repr, DecidableEq

def start (debug : Bool) (depth : Nat) (input : List String) : Session :=
  let (scope, store) := Store.empty.add none []
  ⟨⟨store, .ofLines input⟩, scope, debug, depth⟩

variable {α : Type}

def lift (run : Run α) (s : Session) : Except Failure α × Session :=
  match run s.machine with
  | .ok a m => (.ok a, { s with machine := m })
  | .error f m => (.error f, { s with machine := m })

def onConsole (f : Console → Console) (s : Session) : Session :=
  { s with machine := { s.machine with console := f s.machine.console } }

def say (text : String) (s : Session) : Session :=
  s.onConsole fun c => c.add (.line text)

def read (text file : String) (s : Session) : Except Failure Reader.Reading × Session :=
  let r := Reader.readText s.depth text file
  let refusal := if s.debug then r.refusalRecorded? s.depth else r.refusal
  let records := if s.debug then r.records s.depth file else []
  let s := s.onConsole fun c => records.foldl (fun c t => c.add (.record t)) c
  match refusal with
  | some why => (.error why.failure, s)
  | none => (.ok r, s)

def evaluate (p : Program) (s : Session) : Except Failure Value × Session :=
  s.lift (Run.program s.debug s.depth s.globalScope p)

def run (text file : String) (s : Session) : Except Fault Value × Session :=
  match s.read text file with
  | (.error f, s) => (.error (.failed f), s)
  | (.ok r, s) =>
    if r.errors = [] then
      match s.evaluate r.program with
      | (.ok v, s) => (.ok v, s)
      | (.error f, s) => (.error (.failed f), s)
    else (.error (.unreadable r.messages file), s)

/-- Evaluates what could be read of a text, whatever the errors. -/
def runPartial (text file : String) (s : Session) :
    Except Failure (List String × Value) × Session :=
  match s.read text file with
  | (.error f, s) => (.error f, s)
  | (.ok r, s) =>
    match s.evaluate r.program with
    | (.ok v, s) => (.ok (r.messages, v), s)
    | (.error f, s) => (.error f, s)

/-- Goes on in a new global scope. -/
def reset (s : Session) : Session :=
  let (scope, store) := s.machine.store.add none []
  { s with machine := { s.machine with store }, globalScope := scope }

def bindings (s : Session) : Bindings :=
  s.machine.store.visible s.globalScope

/-- The value of a global name; built-in functions do not count. -/
def lookup? (name : String) (s : Session) : Except Failure (Option Value) :=
  s.machine.store.lookup? name s.depth s.globalScope

def bind (name : String) (v : Value) (s : Session) : Session :=
  { s with machine := { s.machine with store := s.machine.store.set s.globalScope name v } }

def call (name : String) (args : List Value) (s : Session) : Except Failure Value × Session :=
  s.lift do
    let f ← Run.resolve s.depth s.globalScope name
    Run.apply s.debug s.depth f args

end Session

end Monkey
