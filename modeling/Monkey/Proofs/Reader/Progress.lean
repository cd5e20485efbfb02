import Monkey.Proofs.Reader.Contract

/-!
# Readers get on

A reader of a statement or of an expression takes at least one token, whatever comes of it, unless
no token is left; and it drops nothing without an error. So a repetition has rounds enough, and a
longer bound on them changes nothing.
-/

namespace Monkey.Reader

set_option autoImplicit false

/-- At most `n` tokens are left, and nothing is dropped without an error. -/
def Outcome.AtMost {α : Type} (n : Nat) : Outcome α → Prop
  | read _ _ rest => rest.length ≤ n
  | dropped es rest => es ≠ [] ∧ rest.length ≤ n
  | refused _ => True

theorem Outcome.AtMost.mono {α : Type} {n k : Nat} {o : Outcome α} (h : o.AtMost n) (hk : n ≤ k) :
    o.AtMost k := by
  cases o with
  | read a es rest => exact Nat.le_trans h hk
  | dropped es rest => exact ⟨h.1, Nat.le_trans h.2 hk⟩
  | refused r => trivial

theorem Outcome.Keeps.atMost {α : Type} {C : Contract} {xs : List Token} {Q : α → Prop}
    {o : Outcome α} (h : o.Keeps C xs Q) : o.AtMost xs.length := by
  cases o with
  | read a es rest => exact h.2.1.length_le
  | dropped es rest => exact ⟨h.1, h.2.2.length_le⟩
  | refused r => trivial

def Contract.anything : Contract where
  token _ := True
  error _ := True
  name _ := True
  expression _ := True
  statement _ := True

theorem Contract.anything_lawful : Contract.anything.Lawful := by
  constructor <;> intros <;> trivial

theorem Contract.holds_anything (xs : List Token) : Contract.anything.Holds xs :=
  fun _ _ => trivial

/-- The readers take at least one token, and the last of the tokens are left. -/
def Progressive (expression : ExpressionReader) (statement : StatementReader) : Prop :=
  Contract.anything.Kept expression statement

section Progressive

variable {e : ExpressionReader} {s : StatementReader}

theorem Progressive.expression (h : Progressive e s) (floor : Precedence)
    (ts : List Token) : (e floor ts).AtMost (ts.length - 1) := by
  rw [← List.length_tail]
  exact (Contract.Kept.expression h floor (Contract.holds_anything ts)).atMost

theorem Progressive.statement (h : Progressive e s) (ts : List Token) :
    (s ts).AtMost (ts.length - 1) := by
  rw [← List.length_tail]
  exact (Contract.Kept.statement h (Contract.holds_anything ts)).atMost

theorem Progressive.lowest (h : Progressive e s) (ts : List Token) :
    (e .lowest ts).AtMost ts.length :=
  (h.expression .lowest ts).mono (Nat.sub_le _ _)

theorem Progressive.operand (h : Progressive e s) (ts : List Token) :
    (Reader.operand e s ts).AtMost (ts.length - 1) := by
  rw [← List.length_tail]
  exact (Contract.Kept.operand h Contract.anything_lawful (Contract.holds_anything ts)).atMost

theorem Progressive.application (h : Progressive e s) (left : Expression)
    {floor : Precedence} {t : Token} (ht : floor.rank < (Precedence.ofKind t.kind).rank)
    (ts : List Token) : (Reader.application e left t ts).AtMost ts.length :=
  (Contract.Kept.application h Contract.anything_lawful trivial
    (Contract.holds_anything (t :: ts)) ht).atMost

end Progressive

/-- However deep the readers may go, they take at least one token. -/
theorem progressive (d : Nat) : Progressive (expression d) (statement d) :=
  Contract.anything_lawful.kept d

def Reading.behind (ss : List Statement) (es : List SyntaxError) (r : Reading) : Reading :=
  ⟨ss ++ r.statements, es ++ r.errors, r.refusal⟩

theorem Reading.behind_behind (ss ss' : List Statement) (es es' : List SyntaxError)
    (r : Reading) : (r.behind ss' es').behind ss es = r.behind (ss ++ ss') (es ++ es') := by
  simp [behind]

/-- A repetition that has rounds enough goes on as if nothing had been read before. -/
theorem statementsFrom_eq_behind {expression : ExpressionReader} {statement : StatementReader}
    (h : Progressive expression statement) (done : List Statement) (errors : List SyntaxError)
    {bound ts : List Token} (hb : ts.length ≤ bound.length) :
    statementsFrom statement bound done errors ts =
      (statementsFrom statement ts [] [] ts).behind done.reverse errors.reverse := by
  -- By induction on the rounds, for all bounds: both repetitions go on with shorter ones.
  have hrounds : ∀ n (bound ts : List Token) done errors, ts.length ≤ n →
      ts.length ≤ bound.length → statementsFrom statement bound done errors ts =
        (statementsFrom statement ts [] [] ts).behind done.reverse errors.reverse := by
    intro n
    induction n with
    | zero =>
      intro bound ts done errors hn _
      cases ts with
      | nil => cases bound <;> simp [statementsFrom, Reading.behind]
      | cons t ts => exact absurd hn (by simp)
    | succ n ih =>
      intro bound ts done errors hn hb
      cases ts with
      | nil => cases bound <;> simp [statementsFrom, Reading.behind]
      | cons t ts =>
        cases bound with
        | nil => exact absurd hb (by simp)
        | cons b bound =>
          have hs := h.statement (t :: ts)
          simp only [List.length_cons, Nat.add_le_add_iff_right, Nat.add_sub_cancel] at hn hb hs
          rw [statementsFrom, statementsFrom]
          split
          · simp [Reading.behind]
          · split
            · next s es rest hread =>
              rw [hread] at hs
              have hs : rest.length ≤ ts.length := hs
              rw [ih bound rest _ _ (by omega) (by omega), ih ts rest _ _ (by omega) hs,
                Reading.behind_behind]
              simp
            · next es rest hread =>
              rw [hread] at hs
              have hs : rest.length ≤ ts.length := hs.2
              rw [ih bound rest _ _ (by omega) (by omega), ih ts rest _ _ (by omega) hs,
                Reading.behind_behind]
              simp
            · simp [Reading.behind]
  exact hrounds ts.length bound ts done errors (Nat.le_refl _) hb

end Monkey.Reader
