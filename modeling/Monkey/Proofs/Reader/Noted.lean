import Monkey.Reader.Program

/-!
# One error for each statement that is dropped

A reader can leave a note wherever it has tried a statement and dropped it, at the top and in blocks
at any depth. It leaves one note right behind every error, and no other one: what makes a statement
fail is told once, where it happens, and nothing that is read adds an error of its own.
-/

namespace Monkey.Reader

set_option autoImplicit false

/-- What to note about a statement that is dropped: how deep its reader may go, and the tokens that
it starts at. -/
abbrev Note : Type := Nat → List Token → SyntaxError

def Outcome.noting {α : Type} (note : SyntaxError) : Outcome α → Outcome α
  | read a es rest => read a es rest
  | dropped es rest => dropped (es ++ [note]) rest
  | refused r => refused r

/-- A statement whose expressions are read by a given reader. -/
def statementBy (expression : ExpressionReader) (ts : List Token) : Outcome Statement :=
  if nextKind ts = .letKw then binding expression ts.tail
  else if nextKind ts = .returnKw then returning expression ts.tail
  else expressionStatement expression ts

theorem statement_eq_by (d : Nat) (ts : List Token) :
    statement (d + 1) ts = statementBy (expression d) ts := by
  rw [statement, statementBy]
  split <;> simp_all

mutual

/-- Reads a statement, with a note on every statement that is dropped. -/
def statementNoting (note : Note) : Nat → List Token → Outcome Statement
  | 0, _ => .refused .tooDeep
  | d + 1, ts => (statementBy (expressionNoting note d) ts).noting (note (d + 1) ts)

def expressionNoting (note : Note) : Nat → Precedence → List Token → Outcome Expression
  | 0, _, _ => .refused .tooDeep
  | d + 1, floor, ts =>
    match operand (expressionNoting note d) (statementNoting note d) ts with
    | .read left errors rest => operators (expressionNoting note d) floor rest left errors rest
    | .dropped errors rest => .dropped errors rest
    | .refused r => .refused r

end

def readTokensNoting (note : Note) (depth : Nat) (ts : List Token) : Reading :=
  statementsFrom (statementNoting note depth) ts [] [] ts

/-- A statement that was tried and dropped, and the error that it was dropped for. -/
structure Drop where
  depth : Nat
  tokens : List Token
  error : SyntaxError

namespace Drop

/-- The reader of the statement gives it up, and this error is its last one. -/
def Occurs (d : Drop) : Prop :=
  ∃ es rest, statement d.depth d.tokens = .dropped (es ++ [d.error]) rest

def errors (ds : List Drop) : List SyntaxError := ds.map Drop.error

def noted (note : Note) (ds : List Drop) : List SyntaxError :=
  ds.flatMap fun d => [d.error, note d.depth d.tokens]

@[simp] theorem errors_append (ds fs : List Drop) : errors (ds ++ fs) = errors ds ++ errors fs :=
  List.map_append

@[simp] theorem noted_append (note : Note) (ds fs : List Drop) :
    noted note (ds ++ fs) = noted note ds ++ noted note fs :=
  List.flatMap_append

theorem occurs_nil : ∀ d ∈ ([] : List Drop), d.Occurs :=
  fun _ hd => absurd hd List.not_mem_nil

theorem occurs_append {ds fs : List Drop} (hd : ∀ d ∈ ds, d.Occurs) (hf : ∀ d ∈ fs, d.Occurs) :
    ∀ d ∈ ds ++ fs, d.Occurs :=
  fun d h => (List.mem_append.mp h).elim (hd d) (hf d)

end Drop

namespace Outcome

variable {α β : Type} {o : Outcome α} {o' : Note → Outcome α}

/-- With notes the outcome is the same but for a note behind each error of a statement inside. If it
is given up, one more error tells why, and there is no note on it yet. -/
def Noted (o : Outcome α) (o' : Note → Outcome α) : Prop :=
  match o with
  | read a es rest => ∃ ds : List Drop, (∀ d ∈ ds, d.Occurs) ∧ es = Drop.errors ds ∧
      ∀ note, o' note = read a (Drop.noted note ds) rest
  | dropped es rest => ∃ (ds : List Drop) (e : SyntaxError), (∀ d ∈ ds, d.Occurs) ∧
      es = Drop.errors ds ++ [e] ∧ ∀ note, o' note = dropped (Drop.noted note ds ++ [e]) rest
  | refused r => ∀ note, o' note = refused r

/-- With notes the outcome of a statement is the same but for a note behind every error, its own one
included. -/
def Settled (o : Outcome α) (o' : Note → Outcome α) : Prop :=
  match o with
  | read a es rest => ∃ ds : List Drop, (∀ d ∈ ds, d.Occurs) ∧ es = Drop.errors ds ∧
      ∀ note, o' note = read a (Drop.noted note ds) rest
  | dropped es rest => ∃ ds : List Drop, (∀ d ∈ ds, d.Occurs) ∧ es = Drop.errors ds ∧
      ∀ note, o' note = dropped (Drop.noted note ds) rest
  | refused r => ∀ note, o' note = refused r

theorem noted_read (a : α) (rest : List Token) :
    (read a [] rest).Noted fun _ => read a [] rest :=
  ⟨[], by simp, rfl, fun _ => rfl⟩

theorem noted_dropped (e : SyntaxError) (rest : List Token) :
    (dropped [e] rest : Outcome α).Noted fun _ => dropped [e] rest :=
  ⟨[], e, by simp, rfl, fun _ => rfl⟩

theorem noted_refused (r : Refusal) : (refused r : Outcome α).Noted fun _ => refused r :=
  fun _ => rfl

theorem Noted.behind {ds : List Drop} (hds : ∀ d ∈ ds, d.Occurs) (h : o.Noted o') :
    (o.behind (Drop.errors ds)).Noted fun note => (o' note).behind (Drop.noted note ds) := by
  cases o with
  | read a es rest =>
    obtain ⟨fs, hfs, rfl, hread⟩ := h
    refine ⟨ds ++ fs, Drop.occurs_append hds hfs, by rw [Drop.errors_append], fun note => ?_⟩
    simp only [hread, Drop.noted_append, Outcome.behind]
  | dropped es rest =>
    obtain ⟨fs, e, hfs, rfl, hread⟩ := h
    refine ⟨ds ++ fs, e, Drop.occurs_append hds hfs, ?_, fun note => ?_⟩
    · rw [Drop.errors_append, List.append_assoc]
    · simp only [hread, Drop.noted_append, Outcome.behind, List.append_assoc]
  | refused r =>
    intro note
    simp only [h note, Outcome.behind]

theorem Noted.map (h : o.Noted o') (f : α → β) : (o.map f).Noted fun note => (o' note).map f := by
  cases o with
  | read a es rest =>
    obtain ⟨ds, hds, rfl, hread⟩ := h
    exact ⟨ds, hds, rfl, fun note => by simp only [hread, Outcome.map]⟩
  | dropped es rest =>
    obtain ⟨ds, e, hds, rfl, hread⟩ := h
    exact ⟨ds, e, hds, rfl, fun note => by simp only [hread, Outcome.map]⟩
  | refused r => exact fun note => by simp only [h note, Outcome.map]

theorem Noted.andThen {next : α → List Token → Outcome β}
    {next' : Note → α → List Token → Outcome β} (h : o.Noted o')
    (hn : ∀ a rest, (next a rest).Noted fun note => next' note a rest) :
    (o.andThen next).Noted fun note => (o' note).andThen (next' note) := by
  cases o with
  | read a es rest =>
    obtain ⟨ds, hds, rfl, hread⟩ := h
    have hnext := (hn a rest).behind hds
    simpa only [hread, Outcome.andThen] using hnext
  | dropped es rest =>
    obtain ⟨ds, e, hds, rfl, hread⟩ := h
    exact ⟨ds, e, hds, rfl, fun note => by simp only [hread, Outcome.andThen]⟩
  | refused r => exact fun note => by simp only [h note, Outcome.andThen]

end Outcome

theorem expect_noted (k : Token.Kind) (ts : List Token) :
    (expect k ts).Noted fun _ => expect k ts := by
  cases ts with
  | nil => exact Outcome.noted_dropped _ _
  | cons t ts =>
    rw [expect]
    split
    · exact Outcome.noted_read _ _
    · exact Outcome.noted_dropped _ _

structure Noting (expression : ExpressionReader) (expression' : Note → ExpressionReader)
    (statement : StatementReader) (statement' : Note → StatementReader) : Prop where
  expression : ∀ floor ts, (expression floor ts).Noted fun note => expression' note floor ts
  statement : ∀ ts, (statement ts).Settled fun note => statement' note ts

section Constructs

variable {expression : ExpressionReader} {expression' : Note → ExpressionReader}
  {statement : StatementReader} {statement' : Note → StatementReader}

theorem blockFrom_noted (h : Noting expression expression' statement statement')
    (bound : List Token) (done : List Statement) {ds : List Drop} (hds : ∀ d ∈ ds, d.Occurs)
    (ts : List Token) : (blockFrom statement bound done (Drop.errors ds).reverse ts).Noted
      fun note => blockFrom (statement' note) bound done (Drop.noted note ds).reverse ts := by
  have hend : ∀ (done : List Statement) (ds : List Drop) (rest : List Token),
      (∀ d ∈ ds, d.Occurs) →
      (Outcome.read done.reverse (Drop.errors ds).reverse.reverse rest).Noted
        fun note => .read done.reverse (Drop.noted note ds).reverse.reverse rest := by
    intro done ds rest hds
    exact ⟨ds, hds, List.reverse_reverse _, fun note => by simp only [List.reverse_reverse]⟩
  induction bound generalizing done ds ts with
  | nil =>
    simp only [blockFrom]
    exact hend done ds ts hds
  | cons b bound ih =>
    cases ts with
    | nil =>
      simp only [blockFrom]
      exact hend done ds [] hds
    | cons t ts =>
      have hs := h.statement (t :: ts)
      simp only [blockFrom]
      split
      · exact hend done ds ts hds
      · cases hread : statement (t :: ts) with
        | read s es rest =>
          rw [hread] at hs
          obtain ⟨fs, hfs, rfl, hs'⟩ := hs
          have hrest := ih (s :: done) (Drop.occurs_append hds hfs) rest
          simpa only [hs', Drop.errors_append, Drop.noted_append, List.reverse_append] using hrest
        | dropped es rest =>
          rw [hread] at hs
          obtain ⟨fs, hfs, rfl, hs'⟩ := hs
          have hrest := ih done (Drop.occurs_append hds hfs) rest
          simpa only [hs', Drop.errors_append, Drop.noted_append, List.reverse_append] using hrest
        | refused r =>
          rw [hread] at hs
          have hs' : ∀ note, statement' note (t :: ts) = .refused r := hs
          exact fun note => by simp only [hs']

theorem block_noted (h : Noting expression expression' statement statement') (ts : List Token) :
    (block statement ts).Noted fun note => block (statement' note) ts :=
  blockFrom_noted h ts [] Drop.occurs_nil ts

theorem integerLiteral_noted (t : Token) (ts : List Token) :
    (integerLiteral t ts).Noted fun _ => integerLiteral t ts := by
  rw [integerLiteral]
  split
  · exact Outcome.noted_refused _
  · split
    · exact Outcome.noted_dropped _ _
    · exact Outcome.noted_read _ _

theorem grouped_noted (h : Noting expression expression' statement statement')
    (ts : List Token) :
    (grouped expression ts).Noted fun note => grouped (expression' note) ts := by
  apply (h.expression .lowest ts).andThen
  intro e rest
  exact (expect_noted .rparen rest).map _

theorem alternative_noted (h : Noting expression expression' statement statement')
    (ts : List Token) :
    (alternative statement ts).Noted fun note => alternative (statement' note) ts := by
  simp only [alternative]
  split
  · apply (expect_noted .lbrace ts.tail).andThen
    intro _ rest
    exact (block_noted h rest).map some
  · exact Outcome.noted_read _ _

theorem conditional_noted (h : Noting expression expression' statement statement')
    (ts : List Token) : (conditional expression statement ts).Noted
      fun note => conditional (expression' note) (statement' note) ts := by
  apply (h.expression .lowest ts).andThen
  intro c rest
  apply (expect_noted .lbrace rest).andThen
  intro _ rest
  apply (block_noted h rest).andThen
  intro t rest
  exact (alternative_noted h rest).map _

theorem moreParameters_noted (done : List String) (ts : List Token) :
    (moreParameters done ts).Noted fun _ => moreParameters done ts := by
  fun_induction moreParameters done ts with
  | case1 => exact Outcome.noted_dropped _ _
  | case2 => exact Outcome.noted_dropped _ _
  | case3 done t _ p rest _ ih => exact ih
  | case4 => exact Outcome.noted_dropped _ _
  | case5 done t rest _ => exact (expect_noted .rparen (t :: rest)).map _

theorem parameters_noted (ts : List Token) : (parameters ts).Noted fun _ => parameters ts := by
  simp only [parameters]
  split
  · exact Outcome.noted_read _ _
  · apply (expect_noted .ident ts).andThen
    intro p rest
    exact moreParameters_noted [p.literal] rest

theorem function_noted (h : Noting expression expression' statement statement')
    (ts : List Token) : (function statement ts).Noted fun note => function (statement' note) ts := by
  apply (expect_noted .lparen ts).andThen
  intro _ rest
  apply (parameters_noted rest).andThen
  intro ps rest
  apply (expect_noted .lbrace rest).andThen
  intro _ rest
  exact (block_noted h rest).map _

theorem operand_noted (h : Noting expression expression' statement statement')
    (ts : List Token) : (operand expression statement ts).Noted
      fun note => operand (expression' note) (statement' note) ts := by
  cases ts with
  | nil => exact Outcome.noted_dropped _ _
  | cons t ts =>
    simp only [operand]
    split
    · exact Outcome.noted_read _ _
    · exact integerLiteral_noted t ts
    · exact Outcome.noted_read _ _
    · exact Outcome.noted_read _ _
    · exact Outcome.noted_read _ _
    · exact (h.expression .unary ts).map _
    · exact (h.expression .unary ts).map _
    · exact grouped_noted h ts
    · exact conditional_noted h ts
    · exact function_noted h ts
    · exact Outcome.noted_dropped _ _

theorem moreArguments_noted (h : Noting expression expression' statement statement')
    (bound : List Token) (done : List Expression) {ds : List Drop} (hds : ∀ d ∈ ds, d.Occurs)
    (ts : List Token) : (moreArguments expression bound done (Drop.errors ds) ts).Noted
      fun note => moreArguments (expression' note) bound done (Drop.noted note ds) ts := by
  have hlast : ∀ (done : List Expression) (ds : List Drop) (ts : List Token),
      (∀ d ∈ ds, d.Occurs) →
      (((expect .rparen ts).map fun _ => done.reverse).behind (Drop.errors ds)).Noted
        fun note => ((expect .rparen ts).map fun _ => done.reverse).behind (Drop.noted note ds) :=
    fun _ _ ts hds => ((expect_noted .rparen ts).map _).behind hds
  induction bound generalizing done ds ts with
  | nil =>
    simp only [moreArguments]
    exact hlast done ds ts hds
  | cons b bound ih =>
    cases ts with
    | nil =>
      simp only [moreArguments]
      exact hlast done ds [] hds
    | cons t ts =>
      have he := h.expression .lowest ts
      simp only [moreArguments]
      split
      · cases hread : expression .lowest ts with
        | read e es rest =>
          rw [hread] at he
          obtain ⟨fs, hfs, rfl, he'⟩ := he
          have hrest := ih (e :: done) (Drop.occurs_append hds hfs) rest
          simpa only [he', Drop.errors_append, Drop.noted_append] using hrest
        | dropped es rest =>
          rw [hread] at he
          obtain ⟨fs, e, hfs, rfl, he'⟩ := he
          refine ⟨ds ++ fs, e, Drop.occurs_append hds hfs, ?_, fun note => ?_⟩
          · rw [Drop.errors_append, List.append_assoc]
          · simp only [he', Drop.noted_append, List.append_assoc]
        | refused r =>
          rw [hread] at he
          have he' : ∀ note, expression' note .lowest ts = .refused r := he
          exact fun note => by simp only [he']
      · exact hlast done ds (t :: ts) hds

theorem arguments_noted (h : Noting expression expression' statement statement')
    (ts : List Token) :
    (arguments expression ts).Noted fun note => arguments (expression' note) ts := by
  simp only [arguments]
  split
  · exact Outcome.noted_read _ _
  · apply (h.expression .lowest ts).andThen
    intro e rest
    exact moreArguments_noted h rest [e] Drop.occurs_nil rest

theorem application_noted (h : Noting expression expression' statement statement')
    (left : Expression) (t : Token) (ts : List Token) :
    (application expression left t ts).Noted
      fun note => application (expression' note) left t ts := by
  simp only [application]
  split
  · exact (arguments_noted h ts).map _
  · exact (h.expression _ ts).map _

theorem operators_noted (h : Noting expression expression' statement statement')
    (floor : Precedence) (bound : List Token) (left : Expression) {ds : List Drop}
    (hds : ∀ d ∈ ds, d.Occurs) (ts : List Token) :
    (operators expression floor bound left (Drop.errors ds) ts).Noted
      fun note => operators (expression' note) floor bound left (Drop.noted note ds) ts := by
  have hend : ∀ (left : Expression) (ds : List Drop) (ts : List Token), (∀ d ∈ ds, d.Occurs) →
      (Outcome.read left (Drop.errors ds) ts).Noted
        fun note => .read left (Drop.noted note ds) ts :=
    fun _ ds _ hds => ⟨ds, hds, rfl, fun _ => rfl⟩
  induction bound generalizing left ds ts with
  | nil =>
    simp only [operators]
    exact hend left ds ts hds
  | cons b bound ih =>
    cases ts with
    | nil =>
      simp only [operators]
      exact hend left ds [] hds
    | cons t ts =>
      have ha := application_noted h left t ts
      simp only [operators]
      split
      · cases hread : application expression left t ts with
        | read e es rest =>
          rw [hread] at ha
          obtain ⟨fs, hfs, rfl, ha'⟩ := ha
          have hrest := ih e (Drop.occurs_append hds hfs) rest
          simpa only [ha', Drop.errors_append, Drop.noted_append] using hrest
        | dropped es rest =>
          rw [hread] at ha
          obtain ⟨fs, e, hfs, rfl, ha'⟩ := ha
          refine ⟨ds ++ fs, e, Drop.occurs_append hds hfs, ?_, fun note => ?_⟩
          · rw [Drop.errors_append, List.append_assoc]
          · simp only [ha', Drop.noted_append, List.append_assoc]
        | refused r =>
          rw [hread] at ha
          have ha' : ∀ note, application (expression' note) left t ts = .refused r := ha
          exact fun note => by simp only [ha']
      · exact hend left ds (t :: ts) hds

theorem last_noted (h : Noting expression expression' statement statement')
    (f : Expression → Statement) (ts : List Token) :
    ((expression .lowest ts).andThen fun e rest =>
        .read (f e) [] (skipSemicolon rest)).Noted
      fun note => (expression' note .lowest ts).andThen fun e rest =>
        .read (f e) [] (skipSemicolon rest) := by
  apply (h.expression .lowest ts).andThen
  intro e rest
  exact Outcome.noted_read _ _

theorem binding_noted (h : Noting expression expression' statement statement')
    (ts : List Token) : (binding expression ts).Noted fun note => binding (expression' note) ts := by
  apply (expect_noted .ident ts).andThen
  intro name rest
  apply (expect_noted .assign rest).andThen
  intro _ rest
  exact last_noted h (.binding name.literal) rest

theorem statementBy_noted (h : Noting expression expression' statement statement')
    (ts : List Token) :
    (statementBy expression ts).Noted fun note => statementBy (expression' note) ts := by
  by_cases hlet : nextKind ts = .letKw
  · simp only [statementBy, if_pos hlet]
    exact binding_noted h ts.tail
  by_cases hreturn : nextKind ts = .returnKw
  · simp only [statementBy, if_neg hlet, if_pos hreturn]
    exact last_noted h .ret ts.tail
  · simp only [statementBy, if_neg hlet, if_neg hreturn]
    exact last_noted h .expression ts

end Constructs

/-- A statement that is dropped adds one drop to those inside it. -/
theorem settled_of_noted {d : Nat} {ts : List Token} {o' : Note → Outcome Statement}
    (h : (statement d ts).Noted o') :
    (statement d ts).Settled fun note => (o' note).noting (note d ts) := by
  generalize ho : statement d ts = o at h
  cases o with
  | read s es rest =>
    obtain ⟨ds, hds, rfl, hread⟩ := h
    exact ⟨ds, hds, rfl, fun note => by simp only [hread, Outcome.noting]⟩
  | dropped es rest =>
    obtain ⟨ds, e, hds, rfl, hread⟩ := h
    have hdrop : Drop.Occurs ⟨d, ts, e⟩ := ⟨Drop.errors ds, rest, ho⟩
    refine ⟨ds ++ [⟨d, ts, e⟩], Drop.occurs_append hds (by simpa using hdrop), ?_, fun note => ?_⟩
    · rw [Drop.errors_append]
      rfl
    · simp only [hread, Outcome.noting, Drop.noted_append, List.append_assoc]
      rfl
  | refused r => exact fun note => by simp only [h note, Outcome.noting]

/-- However deep the readers may go, notes change nothing but the errors. -/
theorem noting (d : Nat) : Noting (expression d) (fun note => expressionNoting note d)
    (statement d) (fun note => statementNoting note d) := by
  induction d with
  | zero =>
    constructor
    · intro floor ts
      simp only [expression, expressionNoting]
      exact Outcome.noted_refused _
    · intro ts
      simp only [statement, statementNoting]
      exact fun _ => rfl
  | succ d ih =>
    constructor
    · intro floor ts
      have ho := operand_noted ih ts
      simp only [expression, expressionNoting]
      cases hread : operand (expression d) (statement d) ts with
      | read left es rest =>
        rw [hread] at ho
        obtain ⟨ds, hds, rfl, ho'⟩ := ho
        simpa only [ho'] using operators_noted ih floor rest left hds rest
      | dropped es rest =>
        rw [hread] at ho
        obtain ⟨ds, e, hds, rfl, ho'⟩ := ho
        exact ⟨ds, e, hds, rfl, fun note => by simp only [ho']⟩
      | refused r =>
        rw [hread] at ho
        have ho' : ∀ note, operand (expressionNoting note d) (statementNoting note d) ts =
          .refused r := ho
        exact fun note => by simp only [ho']
    · intro ts
      have hbody := statementBy_noted ih ts
      rw [← statement_eq_by] at hbody
      simpa only [statementNoting] using settled_of_noted hbody

def Reading.Noted (r : Reading) (r' : Note → Reading) : Prop :=
  ∃ drops : List Drop, (∀ d ∈ drops, d.Occurs) ∧ r.errors = Drop.errors drops ∧
    ∀ note, r' note = ⟨r.statements, Drop.noted note drops, r.refusal⟩

theorem statementsFrom_noted {expression : ExpressionReader}
    {expression' : Note → ExpressionReader} {statement : StatementReader}
    {statement' : Note → StatementReader} (h : Noting expression expression' statement statement')
    (bound : List Token) (done : List Statement) {ds : List Drop} (hds : ∀ d ∈ ds, d.Occurs)
    (ts : List Token) : (statementsFrom statement bound done (Drop.errors ds).reverse ts).Noted
      fun note => statementsFrom (statement' note) bound done (Drop.noted note ds).reverse ts := by
  have hend : ∀ (done : List Statement) (ds : List Drop) (why : Option Refusal),
      (∀ d ∈ ds, d.Occurs) →
      (⟨done.reverse, (Drop.errors ds).reverse.reverse, why⟩ : Reading).Noted
        fun note => ⟨done.reverse, (Drop.noted note ds).reverse.reverse, why⟩ := by
    intro done ds why hds
    exact ⟨ds, hds, List.reverse_reverse _, fun note => by simp only [List.reverse_reverse]⟩
  induction bound generalizing done ds ts with
  | nil =>
    simp only [statementsFrom]
    exact hend done ds none hds
  | cons b bound ih =>
    cases ts with
    | nil =>
      simp only [statementsFrom]
      exact hend done ds none hds
    | cons t ts =>
      have hs := h.statement (t :: ts)
      simp only [statementsFrom]
      split
      · exact hend done ds none hds
      · cases hread : statement (t :: ts) with
        | read s es rest =>
          rw [hread] at hs
          obtain ⟨fs, hfs, rfl, hs'⟩ := hs
          have hrest := ih (s :: done) (Drop.occurs_append hds hfs) rest
          simpa only [hs', Drop.errors_append, Drop.noted_append, List.reverse_append] using hrest
        | dropped es rest =>
          rw [hread] at hs
          obtain ⟨fs, hfs, rfl, hs'⟩ := hs
          have hrest := ih done (Drop.occurs_append hds hfs) rest
          simpa only [hs', Drop.errors_append, Drop.noted_append, List.reverse_append] using hrest
        | refused r =>
          rw [hread] at hs
          have hs' : ∀ note, statement' note (t :: ts) = .refused r := hs
          simpa only [hs'] using hend done ds (some r) hds

/-- There are as many errors as statements that were tried and dropped, at the top and in blocks at
any depth: a reader that leaves a note on each of these leaves one right behind every error, and
changes nothing else. Inside a statement, what is read adds no error of its own, and what fails adds
one. -/
theorem readTokens_drops (depth : Nat) (ts : List Token) :
    (∃ drops : List Drop, (∀ d ∈ drops, d.Occurs) ∧
        (∀ note, readTokensNoting note depth ts =
          ⟨(readTokens depth ts).statements, Drop.noted note drops, (readTokens depth ts).refusal⟩) ∧
        (readTokens depth ts).errors = drops.map Drop.error ∧
        (readTokens depth ts).errors.length = drops.length ∧
        ((readTokens depth ts).errors = [] ↔ drops = [])) ∧
      ∀ d, Noting (expression d) (fun note => expressionNoting note d)
        (statement d) (fun note => statementNoting note d) := by
  obtain ⟨drops, hdrops, herrors, hnoted⟩ :=
    statementsFrom_noted (noting depth) ts [] Drop.occurs_nil ts
  have herrors : (readTokens depth ts).errors = drops.map Drop.error := herrors
  refine ⟨⟨drops, hdrops, hnoted, herrors, ?_, ?_⟩, noting⟩
  · rw [herrors, List.length_map]
  · rw [herrors, List.map_eq_nil_iff]

/-- A statement in a block is dropped, and the one around it is dropped behind the block. -/
example : (readTokensNoting (fun _ _ => .integerTooLarge "note") 9
    (Token.scan "fn() \x7b let 5 \x7d +" "")).messages =
    ["expected next token to be IDENT, got 5 instead", "could not parse note as integer",
      "no prefix parse function for EOF", "could not parse note as integer"] := by
  decide +kernel

end Monkey.Reader
