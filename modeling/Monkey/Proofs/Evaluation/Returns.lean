import Monkey.Proofs.Evaluation.Given
import Monkey.Proofs.Program.Returns

/-!
# Where a return ends

The application of a function gives a value, whatever returns inside it. So a tree in which no
return stands, outside the functions in it, is never left by a return, whatever functions it calls.
A program of such statements evaluates one after another until one fails, and has the value of the
last one.
-/

namespace Monkey

set_option autoImplicit false

namespace Run

/-- The statements in turn, each evaluated whatever the one before it gave. The value is that of the
last one, or null. -/
def each (statement : Statement → Run Outcome) (ss : List Statement) : Run Value :=
  ss.foldlM (fun _ s => do
    let o ← statement s
    return o.value) .null

def Completes (run : Run Outcome) : Prop := run.Gives fun o => o.returned = false

variable {debug : Bool} {d scope : Nat} {run : Run Outcome}

section Completes

theorem completes_value (v : Value) : Completes (pure ⟨v, false⟩) := gives_pure rfl

theorem completes_stop (f : Failure) : Completes (stop f) := gives_stop f

theorem completes_of_value (run : Run Value) : Completes (run >>= fun v => pure ⟨v, false⟩) :=
  gives_bind fun v => completes_value v

/-- A construct whose first part is not left by a return goes on. -/
theorem Completes.goes_on {next : Outcome → Run Outcome} (h : run.Completes)
    (hn : ∀ o, o.returned = false → (next o).Completes) :
    Completes (run >>= fun o => if o.returned then pure o else next o) := by
  refine Gives.bind h ?_
  intro o ho
  rw [if_neg (ne_true_of_eq_false ho)]
  exact hn o ho

theorem Completes.markedWith (h : run.Completes) (depth : Nat) (s : Statement) :
    Completes (markedWith depth s run) :=
  fun m o n ho => h m o n (ok_of_markedWith ho)

theorem completes_blockFrom {run : Statement → Run Outcome} {ss : List Statement}
    (h : ∀ s ∈ ss, (run s).Completes) {last : Outcome} (hlast : last.returned = false) :
    Completes (blockFrom run last ss) := by
  induction ss generalizing last with
  | nil => exact gives_pure hlast
  | cons s ss ih =>
    rw [blockFrom]
    apply (h s List.mem_cons_self).goes_on
    intro o ho
    exact ih (fun t ht => h t (List.mem_cons_of_mem s ht)) ho

theorem completes_block {run : Statement → Run Outcome} {ss : List Statement}
    (h : ∀ s ∈ ss, (run s).Completes) : Completes (block run ss) :=
  completes_blockFrom h rfl

theorem gives_argumentsFrom {run : Expression → Run Outcome} {es : List Expression}
    (h : ∀ e ∈ es, (run e).Completes) (done : List Value) :
    (argumentsFrom run done es).Gives fun r => ∃ vs, r = .ok vs := by
  induction es generalizing done with
  | nil => exact gives_pure ⟨_, rfl⟩
  | cons e es ih =>
    rw [argumentsFrom]
    refine Gives.bind (h e List.mem_cons_self) ?_
    intro o ho
    rw [if_neg (ne_true_of_eq_false ho)]
    exact ih (fun f hf => h f (List.mem_cons_of_mem e hf)) _

end Completes

/-- Down to a depth, no tree is left by a return unless a return stands in it. -/
structure Completing (debug : Bool) (d : Nat) : Prop where
  statement : ∀ scope s, s.returns = false → (Run.statement debug d scope s).Completes
  expression : ∀ scope e, e.returns = false → (Run.expression debug d scope e).Completes

section Evaluation

theorem Completing.block (h : Completing debug d) {ss : List Statement}
    (hss : Statement.anyReturns ss = false) :
    (Run.block (Run.statement debug d scope) ss).Completes :=
  completes_block fun s hs => h.statement scope s (Statement.returns_eq_false_of_mem hss s hs)

theorem Completing.statement_succ (h : Completing debug d) (scope : Nat) {s : Statement}
    (hs : s.returns = false) : (Run.statement debug (d + 1) scope s).Completes := by
  rw [Run.statement.eq_def]
  apply gives_bind
  intro _
  cases s with
  | expression e => exact h.expression scope e hs
  | binding n e =>
    apply (h.expression scope e hs).goes_on
    intro o ho
    apply gives_bind
    intro _
    exact gives_pure ho
  | ret e => cases hs
  | block ss => exact h.block hs
  | hole => exact completes_stop _

theorem Completing.conditional (h : Completing debug d) {c : Expression} {t : List Statement}
    {a : Option (List Statement)} (he : (Expression.conditional c t a).returns = false) (v : Value) :
    Completes (do
      if ← truth v then Run.block (Run.statement debug d scope) t
      else
        match a with
        | some e => Run.block (Run.statement debug d scope) e
        | none => return ⟨.null, false⟩) := by
  apply gives_bind
  intro b
  cases a with
  | none =>
    rw [Expression.returns, Bool.or_eq_false_iff] at he
    cases b with
    | true => exact h.block he.2
    | false => exact completes_value _
  | some e =>
    rw [Expression.returns, Bool.or_eq_false_iff, Bool.or_eq_false_iff] at he
    cases b with
    | true => exact h.block he.2.1
    | false => exact h.block he.2.2

theorem Completing.call (h : Completing debug d) {args : List Expression}
    (hargs : Expression.anyReturns args = false) (f : Value) :
    Completes (do
      match ← arguments (Run.expression debug d scope) args with
      | .error o => return o
      | .ok vs =>
        let v ← apply debug d f vs
        return ⟨v, false⟩) := by
  refine Gives.bind (gives_argumentsFrom (fun e he =>
    h.expression scope e (Expression.returns_eq_false_of_mem hargs e he)) []) ?_
  rintro _ ⟨vs, rfl⟩
  -- whatever the function does, what comes of the call is its value
  exact completes_of_value _

theorem Completing.expression_succ (h : Completing debug d) (scope : Nat) {e : Expression}
    (he : e.returns = false) : (Run.expression debug (d + 1) scope e).Completes := by
  rw [Run.expression.eq_def]
  apply gives_bind
  intro _
  cases e with
  | integer n => exact completes_value _
  | boolean b => exact completes_value _
  | string s => exact completes_value _
  | function ps body => exact completes_value _
  | hole => exact completes_stop _
  | name n => exact completes_of_value _
  | unary op e =>
    apply (h.expression scope e he).goes_on
    intro o _
    exact completes_of_value _
  | binary l op r =>
    rw [Expression.returns, Bool.or_eq_false_iff] at he
    apply (h.expression scope l he.1).goes_on
    intro o _
    apply (h.expression scope r he.2).goes_on
    intro p _
    exact completes_of_value _
  | conditional c t a =>
    have hc : c.returns = false := by
      cases a with
      | none =>
        rw [Expression.returns, Bool.or_eq_false_iff] at he
        exact he.1
      | some e =>
        rw [Expression.returns, Bool.or_eq_false_iff] at he
        exact he.1
    apply (h.expression scope c hc).goes_on
    intro o _
    exact h.conditional he o.value
  | call f args =>
    rw [Expression.returns, Bool.or_eq_false_iff] at he
    apply (h.expression scope f he.1).goes_on
    intro o _
    exact h.call he.2 o.value

theorem completing (debug : Bool) (d : Nat) : Completing debug d := by
  induction d with
  | zero =>
    constructor
    · intro scope s _
      rw [Run.statement]
      exact completes_stop _
    · intro scope e _
      rw [Run.expression]
      exact completes_stop _
  | succ d ih =>
    constructor
    · intro scope s hs
      exact ih.statement_succ scope hs
    · intro scope e he
      exact ih.expression_succ scope he

end Evaluation

/-- Statements that are not left by a return are all evaluated, unless one fails. -/
theorem blockFrom_eq_foldlM {run : Statement → Run Outcome} {ss : List Statement}
    (h : ∀ s ∈ ss, (run s).Completes) (last : Value) :
    (blockFrom run ⟨last, false⟩ ss >>= fun o => pure o.value) =
      ss.foldlM (fun _ s => run s >>= fun o => pure o.value) last := by
  induction ss generalizing last with
  | nil => rfl
  | cons s ss ih =>
    rw [blockFrom, List.foldlM_cons, bind_assoc, bind_assoc]
    apply Gives.bind_congr (h s List.mem_cons_self)
    rintro ⟨v, _⟩ rfl
    exact ih (fun t ht => h t (List.mem_cons_of_mem s ht)) v

/-- A statement or an expression in which no return stands, outside the functions in it, is never
left by a return: whatever functions it calls, and however these return. A program of such
statements evaluates each of them unless one fails, and its value is that of the last one. -/
theorem completes_of_not_returns (debug : Bool) (depth scope : Nat) :
    (∀ s, s.returns = false → ∀ m o n,
      statement debug depth scope s m = .ok o n → o.returned = false) ∧
    (∀ e, e.returns = false → ∀ m o n,
      expression debug depth scope e m = .ok o n → o.returned = false) ∧
    ∀ p : Program, (∀ s ∈ p.statements, s.returns = false) →
      program debug depth scope p = each (top debug depth scope) p.statements := by
  have hcompleting := completing debug depth
  refine ⟨hcompleting.statement scope, hcompleting.expression scope, ?_⟩
  intro p hp
  rw [program_eq_block]
  apply blockFrom_eq_foldlM
  intro s hs
  exact (hcompleting.statement scope s (hp s hs)).markedWith depth s

/-- Calls a function that returns early if its argument is true. -/
def callEarly (argument : Bool) : Expression :=
  .call (.function ["x"] [.expression (.conditional (.name "x") [.ret (.integer 1)] none),
    .expression (.integer 2)]) [.boolean argument]

theorem completes_of_not_returns_early :
    (∃ o n, statement false 20 0 (.binding "a" (callEarly true))
      ⟨(Store.empty.add none []).2, .ofLines []⟩ = .ok o n ∧ o.returned = false) ∧
    (∃ o n, expression false 20 0 (.binary (callEarly true) "+" (callEarly false))
      ⟨(Store.empty.add none []).2, .ofLines []⟩ = .ok o n ∧ o.returned = false) ∧
    program false 20 0 ⟨[.binding "a" (callEarly true), .expression (callEarly false)]⟩ =
      each (top false 20 0) [.binding "a" (callEarly true), .expression (callEarly false)] := by
  obtain ⟨hstatement, hexpression, hprogram⟩ := completes_of_not_returns false 20 0
  refine ⟨?_, ?_, hprogram ⟨_⟩ (by decide)⟩
  · have hends : (statement false 20 0 (.binding "a" (callEarly true))).succeeds
        ⟨(Store.empty.add none []).2, .ofLines []⟩ = true := by decide +kernel
    obtain ⟨o, n, hr⟩ := exists_ok_of_succeeds hends
    exact ⟨o, n, hr, hstatement _ (by decide) _ o n hr⟩
  · have hends : (expression false 20 0 (.binary (callEarly true) "+" (callEarly false))).succeeds
        ⟨(Store.empty.add none []).2, .ofLines []⟩ = true := by decide +kernel
    obtain ⟨o, n, hr⟩ := exists_ok_of_succeeds hends
    exact ⟨o, n, hr, hexpression _ (by decide) _ o n hr⟩

end Run

end Monkey
