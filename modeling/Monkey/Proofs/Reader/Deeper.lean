import Monkey.Reader.Program

/-!
# Readers that may go deeper

A reader that may go deeper reads the same, unless the other one stops because it may not. Then the
statements in front of the one that is too deep are still the first ones that are read.
-/

namespace Monkey.Reader

set_option autoImplicit false

namespace Outcome

variable {α β : Type} {o o' : Outcome α}

/-- The second outcome is the first one, unless the first reader would have had to go too deep. -/
def Deepens (o o' : Outcome α) : Prop := o = .refused .tooDeep ∨ o' = o

theorem Deepens.refl (o : Outcome α) : o.Deepens o := .inr rfl

theorem Deepens.tooDeep (o : Outcome α) : (refused .tooDeep).Deepens o := .inl rfl

theorem Deepens.behind (h : o.Deepens o') (es : List SyntaxError) :
    (o.behind es).Deepens (o'.behind es) := by
  rcases h with rfl | rfl
  · exact .tooDeep _
  · exact .refl _

theorem Deepens.map (h : o.Deepens o') (f : α → β) : (o.map f).Deepens (o'.map f) := by
  rcases h with rfl | rfl
  · exact .tooDeep _
  · exact .refl _

theorem Deepens.andThen {next next' : α → List Token → Outcome β} (h : o.Deepens o')
    (hn : ∀ a rest, (next a rest).Deepens (next' a rest)) :
    (o.andThen next).Deepens (o'.andThen next') := by
  rcases h with rfl | rfl
  · exact .tooDeep _
  · cases o' with
    | read a es rest => exact (hn a rest).behind es
    | dropped es rest => exact .refl _
    | refused r => exact .refl _

end Outcome

open Outcome (Deepens)

structure Deeper (expression expression' : ExpressionReader)
    (statement statement' : StatementReader) : Prop where
  expression : ∀ floor ts, (expression floor ts).Deepens (expression' floor ts)
  statement : ∀ ts, (statement ts).Deepens (statement' ts)

section Constructs

variable {expression expression' : ExpressionReader} {statement statement' : StatementReader}

theorem blockFrom_deepens (h : Deeper expression expression' statement statement')
    (bound : List Token) (done : List Statement) (errors : List SyntaxError) (ts : List Token) :
    (blockFrom statement bound done errors ts).Deepens
      (blockFrom statement' bound done errors ts) := by
  induction bound generalizing done errors ts with
  | nil => simp [blockFrom, Deepens]
  | cons b bound ih =>
    cases ts with
    | nil => simp [blockFrom, Deepens]
    | cons t ts =>
      rw [blockFrom, blockFrom]
      split
      · exact .refl _
      · rcases h.statement (t :: ts) with hdeep | hsame
        · rw [hdeep]
          exact .tooDeep _
        · rw [hsame]
          split
          · exact ih _ _ _
          · exact ih _ _ _
          · exact .refl _

theorem block_deepens (h : Deeper expression expression' statement statement')
    (ts : List Token) : (block statement ts).Deepens (block statement' ts) :=
  blockFrom_deepens h ts [] [] ts

theorem grouped_deepens (h : Deeper expression expression' statement statement')
    (ts : List Token) : (grouped expression ts).Deepens (grouped expression' ts) :=
  (h.expression .lowest ts).andThen fun _ _ => .refl _

theorem alternative_deepens (h : Deeper expression expression' statement statement')
    (ts : List Token) : (alternative statement ts).Deepens (alternative statement' ts) := by
  rw [alternative, alternative]
  split
  · apply (Deepens.refl (expect .lbrace ts.tail)).andThen
    intro _ rest
    exact (block_deepens h rest).map some
  · exact .refl _

theorem conditional_deepens (h : Deeper expression expression' statement statement')
    (ts : List Token) :
    (conditional expression statement ts).Deepens (conditional expression' statement' ts) := by
  apply (h.expression .lowest ts).andThen
  intro c rest
  apply (Deepens.refl (expect .lbrace rest)).andThen
  intro _ rest
  apply (block_deepens h rest).andThen
  intro t rest
  exact (alternative_deepens h rest).map _

theorem function_deepens (h : Deeper expression expression' statement statement')
    (ts : List Token) : (function statement ts).Deepens (function statement' ts) := by
  apply (Deepens.refl (expect .lparen ts)).andThen
  intro _ rest
  apply (Deepens.refl (parameters rest)).andThen
  intro ps rest
  apply (Deepens.refl (expect .lbrace rest)).andThen
  intro _ rest
  exact (block_deepens h rest).map _

theorem operand_deepens (h : Deeper expression expression' statement statement')
    (ts : List Token) :
    (operand expression statement ts).Deepens (operand expression' statement' ts) := by
  cases ts with
  | nil => exact .refl _
  | cons t ts =>
    rw [operand, operand]
    split
    · exact .refl _
    · exact .refl _
    · exact .refl _
    · exact .refl _
    · exact .refl _
    · exact (h.expression .unary ts).map _
    · exact (h.expression .unary ts).map _
    · exact grouped_deepens h ts
    · exact conditional_deepens h ts
    · exact function_deepens h ts
    · exact .refl _

theorem moreArguments_deepens (h : Deeper expression expression' statement statement')
    (bound : List Token) (done : List Expression) (errors : List SyntaxError) (ts : List Token) :
    (moreArguments expression bound done errors ts).Deepens
      (moreArguments expression' bound done errors ts) := by
  induction bound generalizing done errors ts with
  | nil => simp [moreArguments, Deepens]
  | cons b bound ih =>
    cases ts with
    | nil => simp [moreArguments, Deepens]
    | cons t ts =>
      rw [moreArguments, moreArguments]
      split
      · rcases h.expression .lowest ts with hdeep | hsame
        · rw [hdeep]
          exact .tooDeep _
        · rw [hsame]
          split
          · exact ih _ _ _
          · exact .refl _
          · exact .refl _
      · exact .refl _

theorem arguments_deepens (h : Deeper expression expression' statement statement')
    (ts : List Token) : (arguments expression ts).Deepens (arguments expression' ts) := by
  rw [arguments, arguments]
  split
  · exact .refl _
  · apply (h.expression .lowest ts).andThen
    intro e rest
    exact moreArguments_deepens h rest [e] [] rest

theorem application_deepens (h : Deeper expression expression' statement statement')
    (left : Expression) (t : Token) (ts : List Token) :
    (application expression left t ts).Deepens (application expression' left t ts) := by
  rw [application, application]
  split
  · exact (arguments_deepens h ts).map _
  · exact (h.expression _ ts).map _

theorem operators_deepens (h : Deeper expression expression' statement statement')
    (floor : Precedence) (bound : List Token) (left : Expression) (errors : List SyntaxError)
    (ts : List Token) : (operators expression floor bound left errors ts).Deepens
      (operators expression' floor bound left errors ts) := by
  induction bound generalizing left errors ts with
  | nil => simp [operators, Deepens]
  | cons b bound ih =>
    cases ts with
    | nil => simp [operators, Deepens]
    | cons t ts =>
      rw [operators, operators]
      split
      · rcases application_deepens h left t ts with hdeep | hsame
        · rw [hdeep]
          exact .tooDeep _
        · rw [hsame]
          split
          · exact ih _ _ _
          · exact .refl _
          · exact .refl _
      · exact .refl _

theorem binding_deepens (h : Deeper expression expression' statement statement')
    (ts : List Token) : (binding expression ts).Deepens (binding expression' ts) := by
  apply (Deepens.refl (expect .ident ts)).andThen
  intro name rest
  apply (Deepens.refl (expect .assign rest)).andThen
  intro _ rest
  exact (h.expression .lowest rest).andThen fun _ _ => .refl _

/-- What the readers of the parts do, the readers one level up do as well. -/
theorem Deeper.succ {d d' : Nat}
    (h : Deeper (Reader.expression d) (Reader.expression d') (Reader.statement d)
      (Reader.statement d')) :
    Deeper (Reader.expression (d + 1)) (Reader.expression (d' + 1)) (Reader.statement (d + 1))
      (Reader.statement (d' + 1)) := by
  constructor
  · intro floor ts
    rw [Reader.expression, Reader.expression]
    rcases operand_deepens h ts with hdeep | hsame
    · rw [hdeep]
      exact .tooDeep _
    · rw [hsame]
      split
      · exact operators_deepens h floor _ _ _ _
      · exact .refl _
      · exact .refl _
  · intro ts
    rw [Reader.statement, Reader.statement]
    split
    · exact binding_deepens h ts.tail
    · exact (h.expression .lowest ts.tail).andThen fun _ _ => .refl _
    · exact (h.expression .lowest ts).andThen fun _ _ => .refl _

end Constructs

theorem deeper {d d' : Nat} (h : d ≤ d') :
    Deeper (expression d) (expression d') (statement d) (statement d') := by
  induction d generalizing d' with
  | zero =>
    constructor
    · intro floor ts
      rw [expression]
      exact .tooDeep _
    · intro ts
      rw [statement]
      exact .tooDeep _
  | succ d ih =>
    cases d' with
    | zero => exact absurd h (Nat.not_succ_le_zero d)
    | succ d' => exact (ih (Nat.le_of_succ_le_succ h)).succ

/-- The second reading is the first one, or the first one stopped because it went too deep, and the
second one starts with its statements. -/
def Reading.Deepens (r r' : Reading) : Prop :=
  r' = r ∨ r.refusal = some .tooDeep ∧ r.statements <+: r'.statements

theorem prefix_statementsFrom (statement : StatementReader) (bound : List Token)
    (done : List Statement) (errors : List SyntaxError) (ts : List Token) :
    done.reverse <+: (statementsFrom statement bound done errors ts).statements := by
  induction bound generalizing done errors ts with
  | nil => simp [statementsFrom]
  | cons b bound ih =>
    cases ts with
    | nil => simp [statementsFrom]
    | cons t ts =>
      rw [statementsFrom]
      split
      · exact List.prefix_rfl
      · split
        · next s es rest _ =>
          refine List.IsPrefix.trans ?_ (ih (s :: done) _ rest)
          rw [List.reverse_cons]
          exact List.prefix_append _ _
        · exact ih _ _ _
        · exact List.prefix_rfl

theorem statementsFrom_deepens {expression expression' : ExpressionReader}
    {statement statement' : StatementReader}
    (h : Deeper expression expression' statement statement') (bound : List Token)
    (done : List Statement) (errors : List SyntaxError) (ts : List Token) :
    (statementsFrom statement bound done errors ts).Deepens
      (statementsFrom statement' bound done errors ts) := by
  induction bound generalizing done errors ts with
  | nil => simp [statementsFrom, Reading.Deepens]
  | cons b bound ih =>
    cases ts with
    | nil => simp [statementsFrom, Reading.Deepens]
    | cons t ts =>
      -- the statements so far stay in front, however the second reading goes on
      have hprefix := prefix_statementsFrom statement' (b :: bound) done errors (t :: ts)
      rw [statementsFrom] at hprefix
      rw [statementsFrom, statementsFrom]
      split
      · exact .inl rfl
      · next hk =>
        rw [if_neg hk] at hprefix
        rcases h.statement (t :: ts) with hdeep | hsame
        · rw [hdeep]
          exact .inr ⟨rfl, hprefix⟩
        · rw [hsame]
          split
          · exact ih _ _ _
          · exact ih _ _ _
          · exact .inl rfl

/-- Who may go deeper reads the same of a text, or reads on where the other one has to stop. -/
theorem readText_deepens {d d' : Nat} (h : d ≤ d') (text file : String) :
    (readText d text file).Deepens (readText d' text file) :=
  statementsFrom_deepens (deeper h) _ [] [] _

end Monkey.Reader
