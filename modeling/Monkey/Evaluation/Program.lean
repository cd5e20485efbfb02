import Monkey.Evaluation.Tree

/-!
# Evaluating programs

A program is evaluated statement by statement; its value is that of the last one, and a return ends
it. An error is marked with the statement at the top that it arose in.
-/

namespace Monkey.Run

set_option autoImplicit false

/-- Marks an error with the source of a statement, unless it is marked already. -/
def markedWith (depth : Nat) (s : Statement) (run : Run Outcome) : Run Outcome := fun m =>
  match run m with
  | .error (.runtime e none) m' =>
    .error (if s.fits depth then .runtime e (some s.source) else .tooDeep) m'
  | result => result

def programFrom (debug : Bool) (depth scope : Nat) (last : Value) : List Statement → Run Value
  | [] => pure last
  | s :: ss => do
    let o ← markedWith depth s (statement debug depth scope s)
    if o.returned then return o.value
    programFrom debug depth scope o.value ss

/-- Evaluates a program in a scope. An empty program has the value null. -/
def program (debug : Bool) (depth scope : Nat) (p : Program) : Run Value :=
  programFrom debug depth scope .null p.statements

/-- Evaluates anything that can be evaluated by itself. A return at the top just ends it. -/
def node (debug : Bool) (depth scope : Nat) : Node → Run Value
  | .program p => program debug depth scope p
  | .statement s => do
    let o ← statement debug depth scope s
    return o.value
  | .expression e => do
    let o ← expression debug depth scope e
    return o.value
  | .missing => fail .nothingToEvaluate

end Monkey.Run
