import Monkey.Evaluation.Builtin
import Monkey.Evaluation.Operator

/-!
# Evaluating trees

Statements and expressions are evaluated in a scope, from left to right. A block opens no scope; a
call does, inside the scope of the function. A return ends every construct around it up to the call
or the program. Evaluation goes down to a given depth and fails below it.
-/

namespace Monkey

set_option autoImplicit false

namespace Run

/-- Evaluates the statements of a block in turn; the last value counts, and a return ends the
block. -/
def blockFrom (statement : Statement → Run Outcome) (last : Outcome) :
    List Statement → Run Outcome
  | [] => pure last
  | s :: ss => do
    let o ← statement s
    if o.returned then return o
    blockFrom statement o ss

/-- A block without statements has the value null. -/
def block (statement : Statement → Run Outcome) (ss : List Statement) : Run Outcome :=
  blockFrom statement ⟨.null, false⟩ ss

/-- Evaluates arguments in turn; a return in one of them is given back instead of the values. -/
def argumentsFrom (expression : Expression → Run Outcome) (done : List Value) :
    List Expression → Run (Except Outcome (List Value))
  | [] => pure (.ok done.reverse)
  | e :: es => do
    let o ← expression e
    if o.returned then return .error o
    argumentsFrom expression (o.value :: done) es

def arguments (expression : Expression → Run Outcome) (es : List Expression) :
    Run (Except Outcome (List Value)) :=
  argumentsFrom expression [] es

/-- Opens the scope of a call, with the parameters bound in order. -/
def enter (parameters : List String) (scope : Nat) (args : List Value) : Run Nat :=
  if parameters.length = args.length then
    openScope (some scope) (Bindings.merge [] (parameters.zip args))
  else fail (.argumentCount parameters.length args.length)

end Run

mutual

def Run.statement (debug : Bool) : Nat → Nat → Statement → Run Outcome
  | 0, _, _ => Run.stop .tooDeep
  | d + 1, scope, s => do
    Run.note debug ("Evaluating: " ++ s.tag)
    match s with
    | .expression e => Run.expression debug d scope e
    | .binding n e => do
      let o ← Run.expression debug d scope e
      if o.returned then return o
      Run.bindName scope n o.value
      return o
    | .ret e => do
      let o ← Run.expression debug d scope e
      return ⟨o.value, true⟩
    | .block ss => Run.block (Run.statement debug d scope) ss
    | .hole => Run.fail (.unknownStatement s.tag)

def Run.expression (debug : Bool) : Nat → Nat → Expression → Run Outcome
  | 0, _, _ => Run.stop .tooDeep
  | d + 1, scope, e => do
    Run.note debug ("Evaluating: " ++ e.tag)
    match e with
    | .integer n => return ⟨.integer n, false⟩
    | .boolean b => return ⟨.boolean b, false⟩
    | .string s => return ⟨.string s, false⟩
    | .name n => do
      let v ← Run.resolve d scope n
      return ⟨v, false⟩
    | .unary op operand => do
      let o ← Run.expression debug d scope operand
      if o.returned then return o
      let v ← Run.unary d op o.value
      return ⟨v, false⟩
    | .binary left op right => do
      let l ← Run.expression debug d scope left
      if l.returned then return l
      let r ← Run.expression debug d scope right
      if r.returned then return r
      let v ← Run.binary d op l.value r.value
      return ⟨v, false⟩
    | .conditional c t alternative => do
      let o ← Run.expression debug d scope c
      if o.returned then return o
      if ← Run.truth o.value then Run.block (Run.statement debug d scope) t
      else
        match alternative with
        | some e => Run.block (Run.statement debug d scope) e
        | none => return ⟨.null, false⟩
    | .function ps body => return ⟨.function ps body scope, false⟩
    | .call callee args => do
      let f ← Run.expression debug d scope callee
      if f.returned then return f
      match ← Run.arguments (Run.expression debug d scope) args with
      | .error o => return o
      | .ok vs =>
        let v ← Run.apply debug d f.value vs
        return ⟨v, false⟩
    | .hole => Run.fail (.unknownExpression e.tag)

/-- Applies a function to arguments. A return inside it ends here. -/
def Run.apply (debug : Bool) : Nat → Value → List Value → Run Value
  | 0, _, _ => Run.stop .tooDeep
  | d + 1, f, args =>
    match f with
    | .function ps body scope => do
      let inner ← Run.enter ps scope args
      let o ← Run.block (Run.statement debug d inner) body
      return o.value
    | .builtin b => Run.builtin d b args
    | v => do
      let t ← Run.inspected d v
      Run.fail (.notAFunction t)

end

end Monkey
