import Monkey.Proofs.Token.Boundary
import Monkey.Reader.Program

/-!
# Readers and places

No reader looks at the places of its tokens: without their places the same is read, and the errors
are the same apart from the places in them.
-/

namespace Monkey

set_option autoImplicit false

open Token (unplaced)

def SyntaxError.unplaced : SyntaxError → SyntaxError
  | expected k t => expected k t.unplaced
  | unexpected t => unexpected t.unplaced
  | integerTooLarge n => integerTooLarge n

/-- A message tells of a token, but not where it is. -/
@[simp] theorem SyntaxError.message_unplaced (e : SyntaxError) :
    e.unplaced.message = e.message := by
  unfold SyntaxError.unplaced message
  cases e <;> dsimp only <;> rw [Token.display_unplaced]

namespace Reader

def Outcome.unplaced {α : Type} : Outcome α → Outcome α
  | read a es rest => read a (es.map SyntaxError.unplaced) (rest.map Token.unplaced)
  | dropped es rest => dropped (es.map SyntaxError.unplaced) (rest.map Token.unplaced)
  | refused r => refused r

namespace Outcome

variable {α β : Type}

theorem unplaced_behind (es : List SyntaxError) (o : Outcome α) :
    (o.behind es).unplaced = o.unplaced.behind (es.map SyntaxError.unplaced) := by
  cases o <;> simp [behind, unplaced]

theorem unplaced_map (f : α → β) (o : Outcome α) : (o.map f).unplaced = o.unplaced.map f := by
  cases o <;> rfl

/-- What was taken may have lost its place before the next reader goes on with it. -/
theorem unplaced_andThen {f : α → α} {next : α → List Token → Outcome β} {o : Outcome α}
    (hn : ∀ a rest, next (f a) (rest.map Token.unplaced) = (next a rest).unplaced) :
    (o.unplaced.map f).andThen next = (o.andThen next).unplaced := by
  cases o with
  | read a es rest =>
    change (next (f a) _).behind _ = ((next a rest).behind es).unplaced
    rw [hn, unplaced_behind]
  | dropped es rest => rfl
  | refused r => rfl

theorem unplaced_andThen_self {next : α → List Token → Outcome β} {o : Outcome α}
    (hn : ∀ a rest, next a (rest.map Token.unplaced) = (next a rest).unplaced) :
    o.unplaced.andThen next = (o.andThen next).unplaced := by
  cases o with
  | read a es rest =>
    change (next a _).behind _ = ((next a rest).behind es).unplaced
    rw [hn, unplaced_behind]
  | dropped es rest => rfl
  | refused r => rfl

end Outcome

theorem nextKind_unplaced (ts : List Token) : nextKind (ts.map unplaced) = nextKind ts := by
  cases ts <;> rfl

theorem skipSemicolon_unplaced (ts : List Token) :
    skipSemicolon (ts.map unplaced) = (skipSemicolon ts).map unplaced := by
  cases ts with
  | nil => rfl
  | cons t ts =>
    rw [List.map_cons, skipSemicolon, skipSemicolon, Token.unplaced_kind]
    split <;> rfl

theorem expect_unplaced (k : Token.Kind) (ts : List Token) :
    expect k (ts.map unplaced) = (expect k ts).unplaced.map unplaced := by
  cases ts with
  | nil => rfl
  | cons t ts =>
    rw [List.map_cons, expect, expect, Token.unplaced_kind]
    split <;> rfl

structure Placeless (expression : ExpressionReader) (statement : StatementReader) : Prop where
  expression : ∀ floor ts, expression floor (ts.map unplaced) = (expression floor ts).unplaced
  statement : ∀ ts, statement (ts.map unplaced) = (statement ts).unplaced

section Constructs

variable {expression : ExpressionReader} {statement : StatementReader}

theorem expect_andThen_unplaced {β : Type} {k : Token.Kind} {next : Token → List Token → Outcome β}
    (hn : ∀ t rest, next t.unplaced (rest.map unplaced) = (next t rest).unplaced)
    (ts : List Token) :
    (expect k (ts.map unplaced)).andThen next = ((expect k ts).andThen next).unplaced := by
  rw [expect_unplaced]
  exact Outcome.unplaced_andThen hn

theorem expect_map_unplaced {β : Type} (k : Token.Kind) (b : β) (ts : List Token) :
    (expect k (ts.map unplaced)).map (fun _ => b) = ((expect k ts).map fun _ => b).unplaced := by
  rw [expect_unplaced, Outcome.unplaced_map]
  cases expect k ts <;> rfl

theorem blockFrom_unplaced (h : Placeless expression statement) (bound : List Token)
    (done : List Statement) (errors : List SyntaxError) (ts : List Token) :
    blockFrom statement (bound.map unplaced) done (errors.map SyntaxError.unplaced)
        (ts.map unplaced) = (blockFrom statement bound done errors ts).unplaced := by
  induction bound generalizing done errors ts with
  | nil => simp [blockFrom, Outcome.unplaced]
  | cons b bound ih =>
    cases ts with
    | nil => simp [blockFrom, Outcome.unplaced]
    | cons t ts =>
      have hs := h.statement (t :: ts)
      rw [List.map_cons] at hs
      rw [List.map_cons, List.map_cons, blockFrom, blockFrom, Token.unplaced_kind, hs]
      split
      · simp [Outcome.unplaced]
      · cases statement (t :: ts) with
        | read s es rest =>
          simpa [Outcome.unplaced] using ih (s :: done) (es.reverse ++ errors) rest
        | dropped es rest => simpa [Outcome.unplaced] using ih done (es.reverse ++ errors) rest
        | refused r => rfl

theorem block_unplaced (h : Placeless expression statement) (ts : List Token) :
    block statement (ts.map unplaced) = (block statement ts).unplaced :=
  blockFrom_unplaced h ts [] [] ts

theorem integerLiteral_unplaced (t : Token) (ts : List Token) :
    integerLiteral t.unplaced (ts.map unplaced) = (integerLiteral t ts).unplaced := by
  rw [integerLiteral, integerLiteral, Token.unplaced_literal]
  split
  · rfl
  · split <;> rfl

theorem grouped_unplaced (h : Placeless expression statement) (ts : List Token) :
    grouped expression (ts.map unplaced) = (grouped expression ts).unplaced := by
  rw [grouped, h.expression]
  apply Outcome.unplaced_andThen_self
  intro e rest
  exact expect_map_unplaced .rparen e rest

theorem alternative_unplaced (h : Placeless expression statement) (ts : List Token) :
    alternative statement (ts.map unplaced) = (alternative statement ts).unplaced := by
  rw [alternative, alternative, nextKind_unplaced]
  split
  · rw [← List.map_tail]
    apply expect_andThen_unplaced
    intro _ rest
    rw [block_unplaced h, Outcome.unplaced_map]
  · rfl

theorem conditional_unplaced (h : Placeless expression statement) (ts : List Token) :
    conditional expression statement (ts.map unplaced) =
      (conditional expression statement ts).unplaced := by
  rw [conditional, h.expression]
  apply Outcome.unplaced_andThen_self
  intro c rest
  apply expect_andThen_unplaced
  intro _ rest
  rw [block_unplaced h]
  apply Outcome.unplaced_andThen_self
  intro t rest
  rw [alternative_unplaced h, Outcome.unplaced_map]

theorem moreParameters_unplaced (done : List String) (ts : List Token) :
    moreParameters done (ts.map unplaced) = (moreParameters done ts).unplaced := by
  fun_induction moreParameters done ts with
  | case1 done => rfl
  | case2 done t ht =>
    rw [List.map_cons, List.map_nil, moreParameters, if_pos (by simpa using ht)]
    rfl
  | case3 done t ht p rest hp ih =>
    rw [List.map_cons, List.map_cons, moreParameters, if_pos (by simpa using ht)]
    rw [if_pos (by simpa using hp)]
    exact ih
  | case4 done t ht p rest hp =>
    rw [List.map_cons, List.map_cons, moreParameters, if_pos (by simpa using ht)]
    rw [if_neg (by simpa using hp)]
    rfl
  | case5 done t rest ht =>
    rw [List.map_cons, moreParameters.eq_def]
    dsimp only
    rw [if_neg (by simpa using ht)]
    exact expect_map_unplaced .rparen done.reverse (t :: rest)

theorem parameters_unplaced (ts : List Token) :
    parameters (ts.map unplaced) = (parameters ts).unplaced := by
  rw [parameters, parameters, nextKind_unplaced]
  split
  · rw [← List.map_tail]
    rfl
  · apply expect_andThen_unplaced
    intro p rest
    exact moreParameters_unplaced [p.literal] rest

theorem function_unplaced (h : Placeless expression statement) (ts : List Token) :
    function statement (ts.map unplaced) = (function statement ts).unplaced := by
  rw [function, function]
  apply expect_andThen_unplaced
  intro _ rest
  rw [parameters_unplaced]
  apply Outcome.unplaced_andThen_self
  intro ps rest
  apply expect_andThen_unplaced
  intro _ rest
  rw [block_unplaced h, Outcome.unplaced_map]

theorem operand_unplaced (h : Placeless expression statement) (ts : List Token) :
    operand expression statement (ts.map unplaced) =
      (operand expression statement ts).unplaced := by
  cases ts with
  | nil => rfl
  | cons t ts =>
    rw [List.map_cons, operand, operand, Token.unplaced_kind]
    split
    · rfl
    · exact integerLiteral_unplaced t ts
    · rfl
    · rfl
    · rfl
    · rw [h.expression, Outcome.unplaced_map]
      rfl
    · rw [h.expression, Outcome.unplaced_map]
      rfl
    · exact grouped_unplaced h ts
    · exact conditional_unplaced h ts
    · exact function_unplaced h ts
    · rfl

theorem moreArguments_unplaced (h : Placeless expression statement) (bound : List Token)
    (done : List Expression) (errors : List SyntaxError) (ts : List Token) :
    moreArguments expression (bound.map unplaced) done (errors.map SyntaxError.unplaced)
        (ts.map unplaced) = (moreArguments expression bound done errors ts).unplaced := by
  have hlast : ∀ done errors ts, ((expect .rparen (ts.map unplaced)).map fun _ =>
      (done : List Expression).reverse).behind (errors.map SyntaxError.unplaced) =
      (((expect .rparen ts).map fun _ => done.reverse).behind errors).unplaced := by
    intro done errors ts
    rw [expect_map_unplaced, Outcome.unplaced_behind]
  induction bound generalizing done errors ts with
  | nil =>
    rw [List.map_nil, moreArguments, moreArguments]
    · exact hlast done errors ts
    · simp
    · simp
  | cons b bound ih =>
    cases ts with
    | nil =>
      rw [List.map_nil, moreArguments, moreArguments]
      · exact hlast done errors []
      · simp
      · simp
    | cons t ts =>
      have he := h.expression .lowest ts
      rw [List.map_cons, List.map_cons, moreArguments, moreArguments, Token.unplaced_kind, he]
      split
      · cases expression .lowest ts with
        | read e es rest => simpa [Outcome.unplaced] using ih (e :: done) (errors ++ es) rest
        | dropped es rest => simp [Outcome.unplaced]
        | refused r => rfl
      · exact hlast done errors (t :: ts)

theorem arguments_unplaced (h : Placeless expression statement) (ts : List Token) :
    arguments expression (ts.map unplaced) = (arguments expression ts).unplaced := by
  rw [arguments, arguments, nextKind_unplaced]
  split
  · rw [← List.map_tail]
    rfl
  · rw [h.expression]
    apply Outcome.unplaced_andThen_self
    intro e rest
    exact moreArguments_unplaced h rest [e] [] rest

theorem application_unplaced (h : Placeless expression statement) (left : Expression) (t : Token)
    (ts : List Token) :
    application expression left t.unplaced (ts.map unplaced) =
      (application expression left t ts).unplaced := by
  rw [application, application, Token.unplaced_kind, Token.unplaced_literal]
  split
  · rw [arguments_unplaced h, Outcome.unplaced_map]
  · rw [h.expression, Outcome.unplaced_map]

theorem operators_unplaced (h : Placeless expression statement) (floor : Precedence)
    (bound : List Token) (left : Expression) (errors : List SyntaxError) (ts : List Token) :
    operators expression floor (bound.map unplaced) left (errors.map SyntaxError.unplaced)
        (ts.map unplaced) = (operators expression floor bound left errors ts).unplaced := by
  induction bound generalizing left errors ts with
  | nil => simp [operators, Outcome.unplaced]
  | cons b bound ih =>
    cases ts with
    | nil => simp [operators, Outcome.unplaced]
    | cons t ts =>
      rw [List.map_cons, List.map_cons, operators, operators, Token.unplaced_kind,
        application_unplaced h]
      split
      · cases application expression left t ts with
        | read e es rest => simpa [Outcome.unplaced] using ih e (errors ++ es) rest
        | dropped es rest => simp [Outcome.unplaced]
        | refused r => rfl
      · simp [Outcome.unplaced]

theorem last_unplaced (h : Placeless expression statement) (f : Expression → Statement)
    (ts : List Token) :
    ((expression .lowest (ts.map unplaced)).andThen fun e rest =>
        .read (f e) [] (skipSemicolon rest)) =
      ((expression .lowest ts).andThen fun e rest =>
        .read (f e) [] (skipSemicolon rest)).unplaced := by
  rw [h.expression]
  apply Outcome.unplaced_andThen_self
  intro e rest
  rw [skipSemicolon_unplaced]
  rfl

theorem binding_unplaced (h : Placeless expression statement) (ts : List Token) :
    binding expression (ts.map unplaced) = (binding expression ts).unplaced := by
  rw [binding, binding]
  apply expect_andThen_unplaced
  intro name rest
  apply expect_andThen_unplaced
  intro _ rest
  exact last_unplaced h (.binding name.literal) rest

end Constructs

theorem placeless (d : Nat) : Placeless (expression d) (statement d) := by
  induction d with
  | zero =>
    constructor
    · intro floor ts
      rw [expression, expression]
      rfl
    · intro ts
      rw [statement, statement]
      rfl
  | succ d ih =>
    constructor
    · intro floor ts
      rw [expression, expression, operand_unplaced ih]
      cases operand (expression d) (statement d) ts with
      | read left es rest => exact operators_unplaced ih floor rest left es rest
      | dropped es rest => rfl
      | refused r => rfl
    · intro ts
      rw [statement, statement, nextKind_unplaced, ← List.map_tail]
      split
      · exact binding_unplaced ih ts.tail
      · exact last_unplaced ih .ret ts.tail
      · exact last_unplaced ih .expression ts

def Reading.unplaced (r : Reading) : Reading :=
  ⟨r.statements, r.errors.map SyntaxError.unplaced, r.refusal⟩

theorem statementsFrom_unplaced {expression : ExpressionReader} {statement : StatementReader}
    (h : Placeless expression statement) (bound : List Token) (done : List Statement)
    (errors : List SyntaxError) (ts : List Token) :
    statementsFrom statement (bound.map unplaced) done (errors.map SyntaxError.unplaced)
        (ts.map unplaced) = (statementsFrom statement bound done errors ts).unplaced := by
  induction bound generalizing done errors ts with
  | nil => simp [statementsFrom, Reading.unplaced]
  | cons b bound ih =>
    cases ts with
    | nil => simp [statementsFrom, Reading.unplaced]
    | cons t ts =>
      have hs := h.statement (t :: ts)
      rw [List.map_cons] at hs
      rw [List.map_cons, List.map_cons, statementsFrom, statementsFrom, Token.unplaced_kind, hs]
      split
      · simp [Reading.unplaced]
      · cases statement (t :: ts) with
        | read s es rest =>
          simpa [Outcome.unplaced] using ih (s :: done) (es.reverse ++ errors) rest
        | dropped es rest => simpa [Outcome.unplaced] using ih done (es.reverse ++ errors) rest
        | refused r => simp [Reading.unplaced, Outcome.unplaced]

theorem readTokens_unplaced (depth : Nat) (ts : List Token) :
    readTokens depth (ts.map unplaced) = (readTokens depth ts).unplaced :=
  statementsFrom_unplaced (placeless depth) ts [] [] ts

end Reader

end Monkey
