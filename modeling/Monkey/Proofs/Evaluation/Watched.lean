import Monkey.Proofs.Evaluation.Basic

/-!
# Watched evaluation

Evaluation together with the values that occur in it: the value of every expression, what is passed
to a function and what the function returns, what is written, and what is bound to a name. What
occurred before a failure is seen as well. Watching changes nothing about the evaluation.
-/

namespace Monkey

set_option autoImplicit false

inductive Use where
  /-- As the value of an expression. -/
  | evaluated
  | passed
  | returned
  | printed
  | stored
  deriving Repr, DecidableEq

structure Occurrence where
  use : Use
  value : Value

/-- A run, and what occurs in it from a machine on, in order. -/
structure Watched (α : Type) where
  run : Run α
  occurrences : Machine → List Occurrence

namespace Watched

variable {α β : Type}

def lift (run : Run α) : Watched α := ⟨run, fun _ => []⟩

def see (use : Use) (vs : List Value) : Watched Unit :=
  ⟨pure (), fun _ => vs.map fun v => ⟨use, v⟩⟩

instance : Monad Watched where
  pure a := lift (pure a)
  bind w next := ⟨w.run >>= fun a => (next a).run, fun m => w.occurrences m ++
    match w.run m with
    | .ok a n => (next a).occurrences n
    | .error _ _ => []⟩

def evaluated (w : Watched Outcome) : Watched Outcome := do
  let o ← w
  see .evaluated [o.value]
  return o

def returned (w : Watched Value) : Watched Value := do
  let v ← w
  see .returned [v]
  return v

def blockFrom (statement : Statement → Watched Outcome) (last : Outcome) :
    List Statement → Watched Outcome
  | [] => pure last
  | s :: ss => do
    let o ← statement s
    if o.returned then return o
    blockFrom statement o ss

def block (statement : Statement → Watched Outcome) (ss : List Statement) : Watched Outcome :=
  blockFrom statement ⟨.null, false⟩ ss

def argumentsFrom (expression : Expression → Watched Outcome) (done : List Value) :
    List Expression → Watched (Except Outcome (List Value))
  | [] => pure (.ok done.reverse)
  | e :: es => do
    let o ← expression e
    if o.returned then return .error o
    argumentsFrom expression (o.value :: done) es

/-- Applies a built-in function; its arguments are printed if it is the one that prints. -/
def builtin (depth : Nat) (b : Builtin) (args : List Value) : Watched Value := do
  let v ← lift (Run.builtin depth b args)
  see .printed (if b = .println then args else [])
  return v

mutual

def statement (debug : Bool) : Nat → Nat → Statement → Watched Outcome
  | 0, _, _ => lift (Run.stop .tooDeep)
  | d + 1, scope, s => do
    lift (Run.note debug ("Evaluating: " ++ s.tag))
    match s with
    | .expression e => expression debug d scope e
    | .binding n e => do
      let o ← expression debug d scope e
      if o.returned then return o
      see .stored [o.value]
      lift (Run.bindName scope n o.value)
      return o
    | .ret e => do
      let o ← expression debug d scope e
      return ⟨o.value, true⟩
    | .block ss => block (statement debug d scope) ss
    | .hole => lift (Run.fail (.unknownStatement s.tag))

def expression (debug : Bool) : Nat → Nat → Expression → Watched Outcome
  | 0, _, _ => lift (Run.stop .tooDeep)
  | d + 1, scope, e => do
    lift (Run.note debug ("Evaluating: " ++ e.tag))
    evaluated <|
      match e with
      | .integer n => return ⟨.integer n, false⟩
      | .boolean b => return ⟨.boolean b, false⟩
      | .string s => return ⟨.string s, false⟩
      | .name n => do
        let v ← lift (Run.resolve d scope n)
        return ⟨v, false⟩
      | .unary op operand => do
        let o ← expression debug d scope operand
        if o.returned then return o
        let v ← lift (Run.unary d op o.value)
        return ⟨v, false⟩
      | .binary left op right => do
        let l ← expression debug d scope left
        if l.returned then return l
        let r ← expression debug d scope right
        if r.returned then return r
        let v ← lift (Run.binary d op l.value r.value)
        return ⟨v, false⟩
      | .conditional c t alternative => do
        let o ← expression debug d scope c
        if o.returned then return o
        if ← lift (Run.truth o.value) then block (statement debug d scope) t
        else
          match alternative with
          | some e => block (statement debug d scope) e
          | none => return ⟨.null, false⟩
      | .function ps body => return ⟨.function ps body scope, false⟩
      | .call callee args => do
        let f ← expression debug d scope callee
        if f.returned then return f
        match ← argumentsFrom (expression debug d scope) [] args with
        | .error o => return o
        | .ok vs =>
          let v ← apply debug d f.value vs
          return ⟨v, false⟩
      | .hole => lift (Run.fail (.unknownExpression e.tag))

def apply (debug : Bool) : Nat → Value → List Value → Watched Value
  | 0, _, _ => lift (Run.stop .tooDeep)
  | d + 1, f, args => do
    see .passed args
    returned <|
      match f with
      | .function ps body scope => do
        let inner ← lift (Run.enter ps scope args)
        see .stored args
        let o ← block (statement debug d inner) body
        return o.value
      | .builtin b => builtin d b args
      | v => lift do
        let t ← Run.inspected d v
        Run.fail (.notAFunction t)

end

def top (debug : Bool) (depth scope : Nat) (s : Statement) : Watched Outcome :=
  let w := statement debug depth scope s
  ⟨Run.markedWith depth s w.run, w.occurrences⟩

def program (debug : Bool) (depth scope : Nat) (p : Program) : Watched Value :=
  returned do
    let o ← block (top debug depth scope) p.statements
    return o.value

theorem occurrences_bind (w : Watched α) (next : α → Watched β) (m : Machine) :
    (w >>= next).occurrences m = w.occurrences m ++
      match w.run m with
      | .ok a n => (next a).occurrences n
      | .error _ _ => [] := rfl

section Erasure

theorem run_pure (a : α) : (pure a : Watched α).run = pure a := rfl

theorem run_lift (run : Run α) : (lift run).run = run := rfl

theorem run_bind (w : Watched α) (next : α → Watched β) :
    (w >>= next).run = w.run >>= fun a => (next a).run := rfl

theorem run_see (use : Use) (vs : List Value) : (see use vs).run = pure () := rfl

theorem run_evaluated (w : Watched Outcome) : (evaluated w).run = w.run :=
  bind_pure w.run

theorem run_returned (w : Watched Value) : (returned w).run = w.run :=
  bind_pure w.run

theorem run_builtin (depth : Nat) (b : Builtin) (args : List Value) :
    (builtin depth b args).run = Run.builtin depth b args :=
  bind_pure (Run.builtin depth b args)

theorem run_blockFrom (statement : Statement → Watched Outcome) (last : Outcome)
    (ss : List Statement) :
    (blockFrom statement last ss).run = Run.blockFrom (fun s => (statement s).run) last ss := by
  induction ss generalizing last with
  | nil => rfl
  | cons s ss ih =>
    rw [blockFrom, Run.blockFrom, run_bind]
    congr 1
    funext o
    split
    · rfl
    · exact ih o

theorem run_argumentsFrom (expression : Expression → Watched Outcome) (done : List Value)
    (es : List Expression) :
    (argumentsFrom expression done es).run =
      Run.argumentsFrom (fun e => (expression e).run) done es := by
  induction es generalizing done with
  | nil => rfl
  | cons e es ih =>
    rw [argumentsFrom, Run.argumentsFrom, run_bind]
    congr 1
    funext o
    split
    · rfl
    · exact ih (o.value :: done)

end Erasure

/-- Watching changes nothing down to a depth. -/
structure Erased (debug : Bool) (d : Nat) : Prop where
  statement : ∀ scope s, (statement debug d scope s).run = Run.statement debug d scope s
  expression : ∀ scope e, (expression debug d scope e).run = Run.expression debug d scope e
  apply : ∀ f args, (apply debug d f args).run = Run.apply debug d f args

section Erased

variable {debug : Bool} {d : Nat}

theorem Erased.block (h : Erased debug d) (scope : Nat) (ss : List Statement) :
    (Watched.block (Watched.statement debug d scope) ss).run =
      Run.block (Run.statement debug d scope) ss := by
  rw [Watched.block, run_blockFrom]
  simp only [h.statement]
  rfl

theorem Erased.arguments (h : Erased debug d) (scope : Nat) (es : List Expression) :
    (argumentsFrom (Watched.expression debug d scope) [] es).run =
      Run.arguments (Run.expression debug d scope) es := by
  rw [run_argumentsFrom]
  simp only [h.expression]
  rfl

theorem Erased.statement_succ (h : Erased debug d) (scope : Nat) (s : Statement) :
    (Watched.statement debug (d + 1) scope s).run = Run.statement debug (d + 1) scope s := by
  rw [Watched.statement.eq_def, Run.statement.eq_def]
  dsimp only
  rw [run_bind, run_lift]
  congr 1
  funext _
  cases s with
  | expression e => exact h.expression scope e
  | binding n e =>
    simp only [run_bind, apply_ite Watched.run, run_pure, run_lift, run_see, pure_bind,
      h.expression]
  | ret e => simp only [run_bind, run_pure, h.expression]
  | block ss => exact h.block scope ss
  | hole => rfl

theorem Erased.expression_succ (h : Erased debug d) (scope : Nat) (e : Expression) :
    (Watched.expression debug (d + 1) scope e).run = Run.expression debug (d + 1) scope e := by
  rw [Watched.expression.eq_def, Run.expression.eq_def]
  dsimp only
  rw [run_bind, run_lift]
  congr 1
  funext _
  rw [run_evaluated]
  cases e with
  | name n => rfl
  | unary op e =>
    simp only [run_bind, apply_ite Watched.run, run_pure, run_lift, h.expression]
  | binary l op r =>
    simp only [run_bind, apply_ite Watched.run, run_pure, run_lift, h.expression]
  | conditional c t a =>
    simp only [run_bind, apply_ite Watched.run, run_pure, run_lift, h.expression, h.block]
    cases a with
    | none => rfl
    | some e => simp only [h.block]
  | call f args =>
    simp only [run_bind, apply_ite Watched.run, run_pure, h.expression, h.arguments]
    congr 1
    funext o
    split
    · rfl
    · congr 1
      funext r
      cases r with
      | error o => rfl
      | ok vs => rw [run_bind, h.apply]; rfl
  | _ => rfl

theorem Erased.apply_succ (h : Erased debug d) (f : Value) (args : List Value) :
    (Watched.apply debug (d + 1) f args).run = Run.apply debug (d + 1) f args := by
  cases f with
  | function ps body scope =>
    rw [Watched.apply, Run.apply, run_bind, run_see, pure_bind, run_returned]
    simp only [run_bind, run_lift, run_see, pure_bind, run_pure, h.block]
  | builtin b =>
    rw [Watched.apply, Run.apply, run_bind, run_see, pure_bind, run_returned]
    exact run_builtin d b args
  | _ =>
    rw [Watched.apply.eq_def, Run.apply.eq_def]
    dsimp only
    rw [run_bind, run_see, pure_bind, run_returned]
    rfl

theorem erased (debug : Bool) (d : Nat) : Erased debug d := by
  induction d with
  | zero =>
    constructor
    · intro scope s
      rw [Watched.statement, Run.statement, run_lift]
    · intro scope e
      rw [Watched.expression, Run.expression, run_lift]
    · intro f args
      rw [Watched.apply, Run.apply, run_lift]
  | succ d ih =>
    constructor
    · exact ih.statement_succ
    · exact ih.expression_succ
    · exact ih.apply_succ

end Erased

theorem run_program (debug : Bool) (depth scope : Nat) (p : Program) :
    (program debug depth scope p).run = Run.program debug depth scope p := by
  have htop : (fun s => (top debug depth scope s).run) = Run.top debug depth scope := by
    funext s
    exact congrArg (Run.markedWith depth s) ((erased debug depth).statement scope s)
  rw [program, run_returned, run_bind, block, run_blockFrom, htop, Run.program_eq_block]
  rfl

end Watched

end Monkey
