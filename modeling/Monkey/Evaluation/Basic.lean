import Monkey.Console
import Monkey.RuntimeError
import Monkey.Scope

/-!
# Evaluation

An evaluation runs on a machine: the store of all scopes and the console. It ends with a result or
with a failure, and the machine is kept in either case. What a statement or an expression gives is a
value, and whether that value is on its way out of a function because of a return.
-/

namespace Monkey

set_option autoImplicit false

structure Machine where
  store : Store
  console : Console

/-- The value of a statement or an expression, and whether a return is carrying it outward. -/
structure Outcome where
  value : Value
  returned : Bool

/-- An evaluation that ends with an `α` or fails; a failure keeps the machine as it is. -/
abbrev Run (α : Type) : Type := EStateM Failure Machine α

namespace Run

variable {α : Type}

def stop (f : Failure) : Run α := fun m => .error f m

def fail (e : RuntimeError) : Run α := stop (.runtime e none)

def ofExcept : Except RuntimeError α → Run α
  | .ok a => pure a
  | .error e => fail e

def event (e : Event) : Run Unit := fun m => .ok () { m with console := m.console.add e }

/-- Leaves a record in the log, if a log is kept. -/
def note (debug : Bool) (text : String) : Run Unit :=
  if debug then event (.record ("DEBUG interpreter: " ++ text)) else pure ()

def ask (prompt : String) : Run (Option String) := fun m =>
  let (line, console) := m.console.ask prompt
  .ok line { m with console }

def bindName (scope : Nat) (name : String) (v : Value) : Run Unit := fun m =>
  .ok () { m with store := m.store.set scope name v }

/-- Opens a scope, inside another one if there is one to be inside of. -/
def openScope (parent : Option Nat) (bs : Bindings) : Run Nat := fun m =>
  let (scope, store) := m.store.add parent bs
  .ok scope { m with store }

def resolveBuiltin (name : String) : Run Value :=
  match Builtin.ofName? name with
  | some b => pure (.builtin b)
  | none => fail (.unboundName name)

/-- The value of a name in a scope; the built-in function of that name if it has no value there. -/
def resolve (depth scope : Nat) (name : String) : Run Value := fun m =>
  match m.store.lookup? name depth scope with
  | .error f => .error f m
  | .ok none => resolveBuiltin name m
  | .ok (some .missing) => resolveBuiltin name m
  | .ok (some v) => .ok v m

/-- Stops because a value lacks what it was asked for. -/
def lacking (v : Value) (failure : String → Failure) : Run α :=
  match v with
  | .missing => stop .noValue
  | v => stop (failure v.tag)

/-- The text of a value, unless showing it would go too deep. -/
def shown (depth : Nat) (v : Value) : Run String :=
  if v.fits depth then
    match v.text? with
    | some t => pure t
    | none => lacking v .noText
  else stop .tooDeep

def inspected (depth : Nat) (v : Value) : Run String :=
  if v.fits depth then
    match v.quoted? with
    | some t => pure t
    | none => lacking v .noText
  else stop .tooDeep

def truth (v : Value) : Run Bool :=
  match v.truth? with
  | some b => pure b
  | none => lacking v .noTruth

end Run

end Monkey
