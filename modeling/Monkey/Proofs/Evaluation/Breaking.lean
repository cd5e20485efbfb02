import Monkey.Evaluation.Program
import Monkey.Proofs.Evaluation.Basic

/-!
# Returns as exceptions

A second way to evaluate: a return breaks off everything around it at once, with its value, and only
the application of a function and the program as a whole catch it. No construct asks whether one of
its parts has returned. Evaluation that carries a return outward together with the value comes to
the same: the same value or failure, in the same machine.
-/

namespace Monkey

set_option autoImplicit false

/-- Why an evaluation is broken off. -/
inductive Break where
  | returned (value : Value)
  | failed (failure : Failure)

/-- An evaluation that ends with an `α` or is broken off. -/
abbrev Breaking (α : Type) : Type := EStateM Break Machine α

namespace Breaking

variable {α : Type}

/-- A run in which nothing returns. -/
def lift (run : Run α) : Breaking α := fun m =>
  match run m with
  | .ok a n => .ok a n
  | .error f n => .error (.failed f) n

/-- A return ends here, with its value. -/
def caught (body : Breaking Value) : Run Value := fun m =>
  match body m with
  | .ok v n => .ok v n
  | .error (.returned v) n => .ok v n
  | .error (.failed f) n => .error f n

/-- The statements in turn; the value is that of the last one, or null. -/
def block (statement : Statement → Breaking Value) (ss : List Statement) : Breaking Value :=
  ss.foldlM (fun _ s => statement s) .null

mutual

def statement (debug : Bool) : Nat → Nat → Statement → Breaking Value
  | 0, _, _ => lift (Run.stop .tooDeep)
  | d + 1, scope, s => do
    lift (Run.note debug ("Evaluating: " ++ s.tag))
    match s with
    | .expression e => expression debug d scope e
    | .binding n e => do
      let v ← expression debug d scope e
      lift (Run.bindName scope n v)
      return v
    | .ret e => do
      let v ← expression debug d scope e
      throw (.returned v)
    | .block ss => block (statement debug d scope) ss
    | .hole => lift (Run.fail (.unknownStatement s.tag))

/-- Evaluates an expression: operands, callee and arguments from left to right. -/
def expression (debug : Bool) : Nat → Nat → Expression → Breaking Value
  | 0, _, _ => lift (Run.stop .tooDeep)
  | d + 1, scope, e => do
    lift (Run.note debug ("Evaluating: " ++ e.tag))
    match e with
    | .integer n => return .integer n
    | .boolean b => return .boolean b
    | .string s => return .string s
    | .name n => lift (Run.resolve d scope n)
    | .unary op operand => do
      let v ← expression debug d scope operand
      lift (Run.unary d op v)
    | .binary left op right => do
      let l ← expression debug d scope left
      let r ← expression debug d scope right
      lift (Run.binary d op l r)
    | .conditional c t alternative => do
      let v ← expression debug d scope c
      if ← lift (Run.truth v) then block (statement debug d scope) t
      else
        match alternative with
        | some e => block (statement debug d scope) e
        | none => return .null
    | .function ps body => return .function ps body scope
    | .call callee args => do
      let f ← expression debug d scope callee
      let vs ← args.mapM (expression debug d scope)
      lift (apply debug d f vs)
    | .hole => lift (Run.fail (.unknownExpression e.tag))

/-- Applies a function to arguments, and catches a return inside it. -/
def apply (debug : Bool) : Nat → Value → List Value → Run Value
  | 0, _, _ => Run.stop .tooDeep
  | d + 1, f, args =>
    match f with
    | .function ps body scope => do
      let inner ← Run.enter ps scope args
      caught (block (statement debug d inner) body)
    | .builtin b => Run.builtin d b args
    | v => do
      let t ← Run.inspected d v
      Run.fail (.notAFunction t)

end

def markedWith (depth : Nat) (s : Statement) (run : Breaking Value) : Breaking Value := fun m =>
  match run m with
  | .error (.failed (.runtime e none)) n =>
    .error (.failed (if s.fits depth then .runtime e (some s.source) else .tooDeep)) n
  | result => result

/-- Evaluates a program in a scope, and catches a return at its top. -/
def program (debug : Bool) (depth scope : Nat) (p : Program) : Run Value :=
  caught (block (fun s => markedWith depth s (statement debug depth scope s)) p.statements)

/-- The evaluation in which a return breaks off what it is carried out of. -/
def raised (run : Run Outcome) : Breaking Value := fun m =>
  match run m with
  | .ok ⟨v, false⟩ n => .ok v n
  | .ok ⟨v, true⟩ n => .error (.returned v) n
  | .error f n => .error (.failed f) n

section Raised

variable {m n : Machine} {run : Run Outcome}

theorem raised_of_ok {v : Value} (h : run m = .ok ⟨v, false⟩ n) : raised run m = .ok v n := by
  rw [raised, h]

theorem raised_of_returned {v : Value} (h : run m = .ok ⟨v, true⟩ n) :
    raised run m = .error (.returned v) n := by
  rw [raised, h]

theorem raised_of_error {f : Failure} (h : run m = .error f n) :
    raised run m = .error (.failed f) n := by
  rw [raised, h]

theorem lift_of_ok {run : Run α} {a : α} (h : run m = .ok a n) : lift run m = .ok a n := by
  rw [lift, h]

theorem lift_of_error {run : Run α} {f : Failure} (h : run m = .error f n) :
    lift run m = .error (.failed f) n := by
  rw [lift, h]

theorem raised_stop (f : Failure) : raised (Run.stop f) = lift (Run.stop f) := rfl

/-- Nothing returns in the run in front. -/
theorem raised_lift_bind (run : Run α) (next : α → Run Outcome) :
    raised (run >>= next) = lift run >>= fun a => raised (next a) := by
  funext m
  cases hr : run m with
  | ok a n =>
    rw [bind_of_ok (lift_of_ok hr)]
    unfold raised
    rw [bind_of_ok hr]
  | error f n =>
    rw [bind_of_error (lift_of_error hr)]
    exact raised_of_error (bind_of_error hr)

theorem raised_completed (run : Run Value) :
    raised (run >>= fun v => pure ⟨v, false⟩) = lift run := by
  rw [raised_lift_bind]
  exact bind_pure (lift run)

/-- A return in the run in front is the end of the whole. -/
theorem raised_bind (run : Run Outcome) (next : Outcome → Run Outcome) :
    raised (run >>= fun o => if o.returned then pure o else next o) =
      raised run >>= fun v => raised (next ⟨v, false⟩) := by
  funext m
  cases hr : run m with
  | ok o n =>
    obtain ⟨v, returned⟩ := o
    cases returned with
    | true =>
      rw [bind_of_error (raised_of_returned hr)]
      exact raised_of_returned (bind_of_ok hr)
    | false =>
      rw [bind_of_ok (raised_of_ok hr)]
      unfold raised
      rw [bind_of_ok hr]
      rfl
  | error f n =>
    rw [bind_of_error (raised_of_error hr)]
    exact raised_of_error (bind_of_error hr)

/-- A return in the value of a return is the return. -/
theorem raised_ret (run : Run Outcome) :
    raised (run >>= fun o => pure ⟨o.value, true⟩) =
      raised run >>= fun v => throw (.returned v) := by
  funext m
  cases hr : run m with
  | ok o n =>
    obtain ⟨v, returned⟩ := o
    have hret : raised (run >>= fun o => pure ⟨o.value, true⟩) m = .error (.returned v) n := by
      apply raised_of_returned
      rw [bind_of_ok hr]
      rfl
    rw [hret]
    cases returned with
    | true => exact (bind_of_error (raised_of_returned hr)).symm
    | false =>
      rw [bind_of_ok (raised_of_ok hr)]
      rfl
  | error f n =>
    rw [bind_of_error (raised_of_error hr)]
    exact raised_of_error (bind_of_error hr)

theorem caught_raised (run : Run Outcome) :
    caught (raised run) = run >>= fun o => pure o.value := by
  funext m
  unfold caught
  cases hr : run m with
  | ok o n =>
    obtain ⟨v, returned⟩ := o
    rw [bind_of_ok hr]
    cases returned with
    | true =>
      rw [raised_of_returned hr]
      rfl
    | false =>
      rw [raised_of_ok hr]
      rfl
  | error f n =>
    rw [raised_of_error hr, bind_of_error hr]

end Raised

section Sequences

theorem raised_blockFrom (run : Statement → Run Outcome) (last : Value) (ss : List Statement) :
    raised (Run.blockFrom run ⟨last, false⟩ ss) =
      ss.foldlM (fun _ s => raised (run s)) last := by
  induction ss generalizing last with
  | nil => rfl
  | cons s ss ih =>
    rw [Run.blockFrom, raised_bind, List.foldlM_cons]
    congr 1
    funext v
    exact ih v

theorem raised_block (run : Statement → Run Outcome) (ss : List Statement) :
    raised (Run.block run ss) = block (fun s => raised (run s)) ss :=
  raised_blockFrom run .null ss

/-- Arguments before the rest of a call: a return in one of them is the end of the call. -/
theorem raised_argumentsFrom (run : Expression → Run Outcome) (done : List Value)
    (es : List Expression) (next : List Value → Run Outcome) :
    raised (Run.argumentsFrom run done es >>= fun r =>
        match r with
        | .error o => pure o
        | .ok vs => next vs) =
      es.mapM (fun e => raised (run e)) >>= fun vs => raised (next (done.reverse ++ vs)) := by
  induction es generalizing done with
  | nil =>
    rw [Run.argumentsFrom, pure_bind, List.mapM_nil, pure_bind, List.append_nil]
  | cons e es ih =>
    have hparts : (Run.argumentsFrom run done (e :: es) >>= fun r =>
        match r with
        | .error o => pure o
        | .ok vs => next vs) = run e >>= fun o => if o.returned then pure o else
          Run.argumentsFrom run (o.value :: done) es >>= fun r =>
            match r with
            | .error o => pure o
            | .ok vs => next vs := by
      rw [Run.argumentsFrom, bind_assoc]
      congr 1
      funext o
      split
      · rw [pure_bind]
      · rfl
    rw [hparts, raised_bind, List.mapM_cons, bind_assoc]
    congr 1
    funext v
    rw [ih, bind_assoc]
    congr 1
    funext vs
    rw [pure_bind, List.reverse_cons, List.append_assoc]
    rfl

end Sequences

/-- Both ways to evaluate come to the same down to a depth. -/
structure Same (debug : Bool) (d : Nat) : Prop where
  statement : ∀ scope s, raised (Run.statement debug d scope s) = statement debug d scope s
  expression : ∀ scope e, raised (Run.expression debug d scope e) = expression debug d scope e
  apply : ∀ f args, Run.apply debug d f args = apply debug d f args

section Same

variable {debug : Bool} {d : Nat}

theorem Same.block (h : Same debug d) (scope : Nat) (ss : List Statement) :
    raised (Run.block (Run.statement debug d scope) ss) =
      Breaking.block (Breaking.statement debug d scope) ss := by
  rw [raised_block]
  congr 1
  funext s
  exact h.statement scope s

theorem Same.statement_succ (h : Same debug d) (scope : Nat) (s : Statement) :
    raised (Run.statement debug (d + 1) scope s) = Breaking.statement debug (d + 1) scope s := by
  rw [Run.statement.eq_def, Breaking.statement.eq_def]
  dsimp only
  rw [raised_lift_bind]
  congr 1
  funext _
  cases s with
  | expression e => exact h.expression scope e
  | binding n e =>
    rw [raised_bind, h.expression]
    rfl
  | ret e => rw [raised_ret, h.expression]
  | block ss => exact h.block scope ss
  | hole => rfl

theorem Same.call (h : Same debug d) (scope : Nat) (f : Value) (args : List Expression) :
    raised (Run.arguments (Run.expression debug d scope) args >>= fun r =>
        match r with
        | .error o => pure o
        | .ok vs => Run.apply debug d f vs >>= fun v => pure ⟨v, false⟩) =
      args.mapM (Breaking.expression debug d scope) >>= fun vs =>
        lift (Breaking.apply debug d f vs) := by
  have hargs : (fun e => raised (Run.expression debug d scope e)) =
      Breaking.expression debug d scope := funext (h.expression scope)
  refine (raised_argumentsFrom _ [] args _).trans ?_
  rw [hargs]
  congr 1
  funext vs
  rw [raised_completed, h.apply]
  rfl

theorem Same.expression_succ (h : Same debug d) (scope : Nat) (e : Expression) :
    raised (Run.expression debug (d + 1) scope e) = Breaking.expression debug (d + 1) scope e := by
  rw [Run.expression.eq_def, Breaking.expression.eq_def]
  dsimp only
  rw [raised_lift_bind]
  congr 1
  funext _
  cases e with
  | name n => exact raised_completed _
  | unary op e =>
    rw [raised_bind, h.expression]
    congr 1
    funext v
    exact raised_completed _
  | binary l op r =>
    rw [raised_bind, h.expression]
    congr 1
    funext v
    rw [raised_bind, h.expression]
    congr 1
    funext w
    exact raised_completed _
  | conditional c t a =>
    rw [raised_bind, h.expression]
    congr 1
    funext v
    rw [raised_lift_bind]
    congr 1
    funext b
    cases b with
    | true => exact h.block scope t
    | false =>
      cases a with
      | none => rfl
      | some e => exact h.block scope e
  | call f args =>
    rw [raised_bind, h.expression]
    congr 1
    funext v
    exact h.call scope v args
  | _ => rfl

theorem Same.apply_succ (h : Same debug d) (f : Value) (args : List Value) :
    Run.apply debug (d + 1) f args = Breaking.apply debug (d + 1) f args := by
  cases f with
  | function ps body scope =>
    rw [Run.apply, Breaking.apply]
    congr 1
    funext inner
    rw [← h.block, caught_raised]
  | _ => rw [Run.apply.eq_def, Breaking.apply.eq_def]

theorem same (debug : Bool) (d : Nat) : Same debug d := by
  induction d with
  | zero =>
    constructor
    · intro scope s
      rw [Run.statement, Breaking.statement, raised_stop]
    · intro scope e
      rw [Run.expression, Breaking.expression, raised_stop]
    · intro f args
      rw [Run.apply, Breaking.apply]
  | succ d ih =>
    constructor
    · exact ih.statement_succ
    · exact ih.expression_succ
    · exact ih.apply_succ

end Same

section Programs

theorem raised_markedWith (depth : Nat) (s : Statement) (run : Run Outcome) :
    raised (Run.markedWith depth s run) = markedWith depth s (raised run) := by
  funext m
  cases hr : run m with
  | ok o n =>
    have hmarked : Run.markedWith depth s run m = .ok o n := by rw [Run.markedWith, hr]
    obtain ⟨v, returned⟩ := o
    cases returned with
    | true => rw [raised_of_returned hmarked, markedWith, raised_of_returned hr]
    | false => rw [raised_of_ok hmarked, markedWith, raised_of_ok hr]
  | error f n =>
    rw [raised, Run.markedWith, markedWith, raised_of_error hr, hr]
    cases f with
    | runtime e source => cases source <;> rfl
    | _ => rfl

theorem raised_marked (debug : Bool) (depth scope : Nat) :
    (fun s => markedWith depth s (statement debug depth scope s)) =
      fun s => raised (Run.markedWith depth s (Run.statement debug depth scope s)) := by
  funext s
  rw [raised_markedWith, (same debug depth).statement]

end Programs

/-- Returns that are carried outward and returns that break off what they are in come to the same:
the same value or failure, and the same machine. -/
theorem program_eq_run (debug : Bool) (depth scope : Nat) (p : Program) :
    Breaking.program debug depth scope p = Run.program debug depth scope p := by
  rw [Breaking.program, raised_marked, ← raised_block, caught_raised]
  exact (Run.program_eq_block debug depth scope p).symm

end Breaking

end Monkey
