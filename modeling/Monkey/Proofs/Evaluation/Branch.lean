import Monkey.Proofs.Evaluation.Deeper
import Monkey.Proofs.Evaluation.Records

/-!
# Conditionals in front of other statements

A conditional opens no scope, hides no value and stops no return. In front of other statements it is
its condition and then one block: the branch that the condition chooses and these statements behind
it. Only the depth tells the difference, since the branch of a conditional stands two levels deeper.
-/

namespace Monkey.Run

set_option autoImplicit false

open Comparison (unlogged)

variable {α β : Type} {run run' : Run α} {debug : Bool} {d d' scope : Nat}

def GoesTooDeep (run : Run α) (m : Machine) : Prop := ∃ n, run m = .error .tooDeep n

/-- On machines that differ only in their logs, the first run goes too deep, or the second one ends
in the same way, on machines that differ only in their logs again. -/
def ComesTo (run run' : Run α) : Prop := ∀ m n, m.unlogged = n.unlogged →
  run.GoesTooDeep m ∨ unlogged.Meets Eq (run m) (run' n)

/-- Evaluates a condition and then the block that it chooses. -/
def branch (debug : Bool) (depth scope : Nat) (c : Expression) (t e : List Statement) :
    Run Outcome := do
  let o ← expression debug depth scope c
  if o.returned then return o
  block (statement debug depth scope) (if ← truth o.value then t else e)

section ComesTo

theorem comesTo_of_agree (h : unlogged.Agree run run' Eq) : run.ComesTo run' :=
  fun m n hmn => .inr (h m n hmn)

theorem comesTo_pure (a : α) : (pure a : Run α).ComesTo (pure a) :=
  comesTo_of_agree (Comparison.agree_pure rfl)

theorem Deepens.comesTo (h : Deepens run run') (hself : unlogged.Agree run' run' Eq) :
    run.ComesTo run' := by
  intro m n hmn
  rcases h.result m with hsame | ⟨u, hdeep, _⟩
  · rw [← hsame]
    exact .inr (hself m n hmn)
  · exact .inl ⟨u, hdeep⟩

theorem ComesTo.bind {next next' : α → Run β} (h : run.ComesTo run')
    (hn : ∀ a, (next a).ComesTo (next' a)) : (run >>= next).ComesTo (run' >>= next') := by
  intro m n hmn
  rcases h m n hmn with ⟨u, hdeep⟩ | hmeets
  · exact .inl ⟨u, bind_of_error hdeep⟩
  · revert hmeets
    cases hr : run m with
    | ok a m' =>
      cases hr' : run' n with
      | ok b n' =>
        rintro (⟨hmn', rfl⟩ | _)
        rw [bind_of_ok hr, bind_of_ok hr']
        rcases hn a m' n' hmn' with ⟨u, hdeep⟩ | hmeets
        · exact .inl ⟨u, (bind_of_ok hr).trans hdeep⟩
        · exact .inr hmeets
      | error f n' => rintro ⟨⟩
    | error f m' =>
      cases hr' : run' n with
      | ok b n' => rintro ⟨⟩
      | error g n' =>
        rintro (_ | ⟨_, hmn'⟩)
        rw [bind_of_error hr, bind_of_error hr']
        exact .inr (.error f hmn')

theorem ComesTo.of_noted (h : run.ComesTo run') (text : String) :
    (note debug text >>= fun _ => run).ComesTo run' := by
  intro m n hmn
  obtain ⟨m', hm, hm'⟩ := Comparison.note_unlogged debug text m
  rw [bind_of_ok hm]
  rcases h m' n (hm'.trans hmn) with ⟨u, hdeep⟩ | hmeets
  · exact .inl ⟨u, (bind_of_ok hm).trans hdeep⟩
  · exact .inr hmeets

theorem ComesTo.noted (h : run.ComesTo run') (text : String) :
    run.ComesTo (note debug text >>= fun _ => run') := by
  intro m n hmn
  obtain ⟨n', hn, hn'⟩ := Comparison.note_unlogged debug text n
  rw [bind_of_ok hn]
  exact h m n' (hmn.trans hn'.symm)

end ComesTo

section Evaluation

theorem comesTo_statement (h : d ≤ d') (s : Statement) :
    (statement debug d scope s).ComesTo (statement debug d' scope s) := by
  have hagree := ((Comparison.unlogged_lawful debug debug).agreeing d').statement (s := s)
    (rfl : scope = scope) trivial
  exact ((deeper debug h).statement scope s).comesTo
    (hagree.imp fun _ _ hop => hop.eq fun _ _ hij => hij)

theorem comesTo_expression (h : d ≤ d') (e : Expression) :
    (expression debug d scope e).ComesTo (expression debug d' scope e) := by
  have hagree := ((Comparison.unlogged_lawful debug debug).agreeing d').expression (e := e)
    (rfl : scope = scope) trivial
  exact ((deeper debug h).expression scope e).comesTo
    (hagree.imp fun _ _ hop => hop.eq fun _ _ hij => hij)

theorem comesTo_truth (v : Value) : (truth v).ComesTo (truth v) :=
  comesTo_of_agree (Comparison.agree_truth (Comparison.alike_self v))

/-- What follows a part of a construct unless that part returns. -/
theorem ComesTo.next {next next' : Run Outcome} (h : next.ComesTo next') (o : Outcome) :
    Run.ComesTo (if o.returned then pure o else next) (if o.returned then pure o else next') := by
  split
  · exact comesTo_pure o
  · exact h

theorem comesTo_blockFrom (h : d ≤ d') (last : Outcome) (ss : List Statement) :
    (blockFrom (statement debug d scope) last ss).ComesTo
      (blockFrom (statement debug d' scope) last ss) := by
  induction ss generalizing last with
  | nil => exact comesTo_pure last
  | cons s ss ih =>
    apply (comesTo_statement h s).bind
    intro o
    exact (ih o).next o

theorem comesTo_branch (h : d ≤ d') (c : Expression) (t e : List Statement) :
    (branch debug d scope c t e).ComesTo (branch debug d' scope c t e) := by
  apply (comesTo_expression h c).bind
  intro o
  apply ComesTo.next
  apply (comesTo_truth o.value).bind
  intro b
  exact comesTo_blockFrom h _ _

/-- Statements behind both branches are evaluated behind the one that is chosen, unless that one
returns. -/
theorem branch_append (c : Expression) (t e rest : List Statement) :
    branch debug d scope c (t ++ rest) (e ++ rest) = branch debug d scope c t e >>= fun o =>
      if o.returned then pure o else blockFrom (statement debug d scope) o rest := by
  unfold branch
  rw [bind_assoc]
  congr 1
  funext o
  cases ho : o.returned with
  | true =>
    rw [if_pos rfl, if_pos rfl, pure_bind, if_pos ho]
  | false =>
    rw [if_neg Bool.false_ne_true, if_neg Bool.false_ne_true, bind_assoc]
    congr 1
    funext b
    rw [← block_append]
    cases b <;> rfl

theorem expression_conditional (c : Expression) (t : List Statement)
    (a : Option (List Statement)) :
    expression debug (d + 1) scope (.conditional c t a) =
      note debug "Evaluating: IF" >>= fun _ => branch debug d scope c t (a.getD []) := by
  rw [expression.eq_def]
  apply congrArg (note debug "Evaluating: IF" >>= ·)
  funext _
  apply congrArg (expression debug d scope c >>= ·)
  funext o
  split
  · rfl
  · apply congrArg (truth o.value >>= ·)
    funext b
    cases b with
    | true => rfl
    | false => cases a <;> rfl

/-- A conditional in a block: its branch is two levels less deep than the statements behind it. -/
theorem block_conditional (c : Expression) (t : List Statement) (a : Option (List Statement))
    (rest : List Statement) :
    block (statement debug (d + 2) scope) (.expression (.conditional c t a) :: rest) =
      note debug "Evaluating: EXPRESSION_STATEMENT" >>= fun _ =>
        note debug "Evaluating: IF" >>= fun _ =>
          branch debug d scope c t (a.getD []) >>= fun o =>
            if o.returned then pure o else blockFrom (statement debug (d + 2) scope) o rest := by
  have hstatement : statement debug (d + 2) scope (.expression (.conditional c t a)) =
      note debug "Evaluating: EXPRESSION_STATEMENT" >>= fun _ =>
        expression debug (d + 1) scope (.conditional c t a) := by
    rw [statement.eq_def]
    rfl
  rw [block, blockFrom, hstatement, expression_conditional]
  simp only [bind_assoc]

theorem comesTo_branch_blockFrom {k k' : Nat} (h : d ≤ d') (hk : k ≤ k') (c : Expression)
    (t e rest : List Statement) :
    (branch debug d scope c t e >>= fun o =>
        if o.returned then pure o else blockFrom (statement debug k scope) o rest).ComesTo
      (branch debug d' scope c t e >>= fun o =>
        if o.returned then pure o else blockFrom (statement debug k' scope) o rest) := by
  apply (comesTo_branch h c t e).bind
  intro o
  exact (comesTo_blockFrom hk o rest).next o

theorem block_conditional_comesTo (c : Expression) (t : List Statement)
    (a : Option (List Statement)) (rest : List Statement) :
    (block (statement debug d scope) (.expression (.conditional c t a) :: rest)).ComesTo
      (branch debug d scope c (t ++ rest) (a.getD [] ++ rest)) := by
  match d with
  -- a conditional takes two levels before its condition is evaluated
  | 0 =>
    intro m _ _
    exact .inl ⟨m, rfl⟩
  | 1 =>
    intro m _ _
    obtain ⟨n, hn, _⟩ := Comparison.note_unlogged debug "Evaluating: EXPRESSION_STATEMENT" m
    exact .inl ⟨n, bind_of_error ((bind_of_ok hn).trans rfl)⟩
  | d + 2 =>
    rw [block_conditional, branch_append]
    apply ComesTo.of_noted
    apply ComesTo.of_noted
    exact comesTo_branch_blockFrom (Nat.le_add_right d 2) (Nat.le_refl _) c t _ rest

theorem branch_comesTo_block_conditional (c : Expression) (t : List Statement)
    (a : Option (List Statement)) (rest : List Statement) :
    (branch debug d scope c (t ++ rest) (a.getD [] ++ rest)).ComesTo
      (block (statement debug (d + 2) scope) (.expression (.conditional c t a) :: rest)) := by
  rw [block_conditional, branch_append]
  apply ComesTo.noted
  apply ComesTo.noted
  exact comesTo_branch_blockFrom (Nat.le_refl d) (Nat.le_add_right d 2) c t _ rest

end Evaluation

/-- A conditional in front of other statements comes to its condition and then one block in the same
scope, the chosen branch with these statements behind it: the same outcome or failure, the same
scopes, and the same lines and prompts on the console. The one goes too deep where the other one
does not only because a branch stands two levels deeper in the conditional. -/
theorem conditional_transparent (debug : Bool) (depth scope : Nat) (c : Expression)
    (t : List Statement) (a : Option (List Statement)) (rest : List Statement) (m : Machine) :
    (¬ (block (statement debug depth scope)
          (.expression (.conditional c t a) :: rest)).GoesTooDeep m →
      unlogged.Meets Eq
        (block (statement debug depth scope) (.expression (.conditional c t a) :: rest) m)
        (branch debug depth scope c (t ++ rest) (a.getD [] ++ rest) m)) ∧
    (¬ (branch debug depth scope c (t ++ rest) (a.getD [] ++ rest)).GoesTooDeep m →
      unlogged.Meets Eq (branch debug depth scope c (t ++ rest) (a.getD [] ++ rest) m)
        (block (statement debug (depth + 2) scope)
          (.expression (.conditional c t a) :: rest) m)) :=
  ⟨(block_conditional_comesTo c t a rest m m rfl).resolve_left,
    (branch_comesTo_block_conditional c t a rest m m rfl).resolve_left⟩

theorem not_goesTooDeep_of_succeeds {m : Machine} (h : run.succeeds m = true) :
    ¬ run.GoesTooDeep m := by
  rintro ⟨n, hdeep⟩
  obtain ⟨a, n', hr⟩ := exists_ok_of_succeeds h
  cases hr.symm.trans hdeep

def reading : Statement := .binding "y" (.call (.name "input") [.string "?"])

def writing : Statement := .expression (.call (.name "println") [.name "y"])

theorem conditional_transparent_reading :
    unlogged.Meets Eq
        (block (statement true 20 0)
          [.expression (.conditional (.boolean true) [reading] (some [.ret (.integer 0)])), writing]
          ⟨(Store.empty.add none []).2, .ofLines ["4"]⟩)
        (branch true 20 0 (.boolean true) [reading, writing] [.ret (.integer 0), writing]
          ⟨(Store.empty.add none []).2, .ofLines ["4"]⟩) ∧
      unlogged.Meets Eq
        (branch true 20 0 (.boolean true) [reading, writing] [.ret (.integer 0), writing]
          ⟨(Store.empty.add none []).2, .ofLines ["4"]⟩)
        (block (statement true 22 0)
          [.expression (.conditional (.boolean true) [reading] (some [.ret (.integer 0)])), writing]
          ⟨(Store.empty.add none []).2, .ofLines ["4"]⟩) := by
  obtain ⟨hblock, hbranch⟩ := conditional_transparent true 20 0 (.boolean true) [reading]
    (some [.ret (.integer 0)]) [writing] ⟨(Store.empty.add none []).2, .ofLines ["4"]⟩
  constructor
  · exact hblock (not_goesTooDeep_of_succeeds (by decide +kernel))
  · exact hbranch (not_goesTooDeep_of_succeeds (by decide +kernel))

end Monkey.Run
