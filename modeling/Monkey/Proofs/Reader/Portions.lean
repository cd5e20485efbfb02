import Monkey.Proofs.Reader.Progress
import Monkey.Proofs.Reader.WellFormed

/-!
# Statements one after another

A block and a program are read alike: one statement is tried after another, each at the first token
that is left, until a token is reached that ends the repetition. A statement that is dropped is left
out and gives its errors; the statements in front of it and behind it are read as if it had stood
alone.
-/

namespace Monkey.Reader

set_option autoImplicit false

/-- The tokens that a statement took, the statement if it was not dropped, and the errors. -/
structure Portion where
  tokens : List Token
  statement : Option Statement
  errors : List SyntaxError

namespace Portion

def outcome (p : Portion) (rest : List Token) : Outcome Statement :=
  match p.statement with
  | some s => .read s p.errors rest
  | none => .dropped p.errors rest

def kept (ps : List Portion) : List Statement := ps.filterMap Portion.statement

def mistakes (ps : List Portion) : List SyntaxError := ps.flatMap Portion.errors

end Portion

/-- The reader tries one statement after another, none of them at a token that ends the
repetition. -/
inductive Portions (statement : StatementReader) (ends : List Token.Kind) :
    List Token → List Portion → List Token → Prop where
  | nil (xs : List Token) : Portions statement ends xs [] xs
  | cons {p : Portion} {ps : List Portion} {xs rest : List Token} :
      nextKind (p.tokens ++ xs) ∉ ends → p.tokens ≠ [] →
      statement (p.tokens ++ xs) = p.outcome xs → Portions statement ends xs ps rest →
      Portions statement ends (p.tokens ++ xs) (p :: ps) rest

section Portions

variable {expression : ExpressionReader} {statement : StatementReader} {ends : List Token.Kind}
  {xs rest : List Token} {ps : List Portion}

/-- The portions are the tokens that were taken, without a gap. -/
theorem Portions.eq_append (h : Portions statement ends xs ps rest) :
    xs = ps.flatMap Portion.tokens ++ rest := by
  induction h with
  | nil xs => rfl
  | @cons p ps xs rest _ _ _ _ ih =>
    rw [List.flatMap_cons, List.append_assoc, ← ih]

/-- The portions end where the repetition does, or where the whole text is refused. -/
theorem exists_portions (ends : List Token.Kind) (hends : .eof ∈ ends)
    (hp : Progressive expression statement) (xs : List Token) :
    ∃ ps rest, Portions statement ends xs ps rest ∧
      (nextKind rest ∈ ends ∨ nextKind rest ∉ ends ∧ ∃ r, statement rest = .refused r) := by
  induction hn : xs.length using Nat.strongRecOn generalizing xs with
  | ind n ih =>
    by_cases hend : nextKind xs ∈ ends
    · exact ⟨[], xs, .nil xs, .inl hend⟩
    cases xs with
    | nil => exact absurd hends hend
    | cons x xs =>
      -- one more portion in front of those that the rest is divided into
      have hcons : ∀ s es taken ys, statement (x :: xs) =
          (Portion.mk (x :: taken) s es).outcome ys → taken ++ ys = xs →
          ∃ ps rest, Portions statement ends (x :: xs) ps rest ∧
            (nextKind rest ∈ ends ∨ nextKind rest ∉ ends ∧ ∃ r, statement rest = .refused r) := by
        rintro s es taken ys hread rfl
        have hlen : ys.length < n := by
          rw [← hn, List.length_cons, List.length_append]
          omega
        obtain ⟨ps, rest, hps, hrest⟩ := ih ys.length hlen ys rfl
        have hne : x :: taken ≠ [] := List.cons_ne_nil x taken
        exact ⟨_ :: ps, rest, .cons (p := ⟨x :: taken, s, es⟩) hend hne hread hps, hrest⟩
      have hkeeps := Contract.Kept.statement hp (Contract.holds_anything (x :: xs))
      cases hread : statement (x :: xs) with
      | read s es ys =>
        rw [hread] at hkeeps
        obtain ⟨_, ⟨taken, htaken⟩, _⟩ := hkeeps
        exact hcons (some s) es taken ys hread htaken
      | dropped es ys =>
        rw [hread] at hkeeps
        obtain ⟨_, _, taken, htaken⟩ := hkeeps
        exact hcons none es taken ys hread htaken
      | refused r => exact ⟨[], x :: xs, .nil _, .inr ⟨hend, r, hread⟩⟩

theorem Portions.blockFrom (h : Portions statement [.rbrace, .eof] xs ps rest)
    (done : List Statement) (errors : List SyntaxError) (bound : List Token)
    (hb : xs.length ≤ bound.length) :
    ∃ bound' : List Token, rest.length ≤ bound'.length ∧
      blockFrom statement bound done errors xs = blockFrom statement bound'
        ((Portion.kept ps).reverse ++ done) ((Portion.mistakes ps).reverse ++ errors) rest := by
  induction h generalizing done errors bound with
  | nil xs => exact ⟨bound, hb, rfl⟩
  | @cons p ps xs rest hend hne hread _ ih =>
    obtain ⟨tokens, s, es⟩ := p
    cases tokens with
    | nil => exact absurd rfl hne
    | cons t ts =>
      cases bound with
      | nil => exact absurd hb (by simp)
      | cons b bound =>
        have ht : ¬ (t.kind = .rbrace ∨ t.kind = .eof) := by
          simpa [nextKind] using hend
        simp only [List.cons_append, List.length_cons, List.length_append] at hb hread ⊢
        rw [Reader.blockFrom, if_neg ht, hread]
        cases s with
        | some s =>
          obtain ⟨bound', hb', h⟩ := ih (s :: done) (es.reverse ++ errors) bound (by omega)
          exact ⟨bound', hb', by simpa [Portion.outcome, Portion.kept, Portion.mistakes] using h⟩
        | none =>
          obtain ⟨bound', hb', h⟩ := ih done (es.reverse ++ errors) bound (by omega)
          exact ⟨bound', hb', by simpa [Portion.outcome, Portion.kept, Portion.mistakes] using h⟩

theorem Portions.statementsFrom (h : Portions statement [.eof] xs ps rest)
    (done : List Statement) (errors : List SyntaxError) (bound : List Token)
    (hb : xs.length ≤ bound.length) :
    ∃ bound' : List Token, rest.length ≤ bound'.length ∧
      statementsFrom statement bound done errors xs = statementsFrom statement bound'
        ((Portion.kept ps).reverse ++ done) ((Portion.mistakes ps).reverse ++ errors) rest := by
  induction h generalizing done errors bound with
  | nil xs => exact ⟨bound, hb, rfl⟩
  | @cons p ps xs rest hend hne hread _ ih =>
    obtain ⟨tokens, s, es⟩ := p
    cases tokens with
    | nil => exact absurd rfl hne
    | cons t ts =>
      cases bound with
      | nil => exact absurd hb (by simp)
      | cons b bound =>
        have ht : ¬ t.kind = .eof := by
          simpa [nextKind] using hend
        simp only [List.cons_append, List.length_cons, List.length_append] at hb hread ⊢
        rw [Reader.statementsFrom, if_neg ht, hread]
        cases s with
        | some s =>
          obtain ⟨bound', hb', h⟩ := ih (s :: done) (es.reverse ++ errors) bound (by omega)
          exact ⟨bound', hb', by simpa [Portion.outcome, Portion.kept, Portion.mistakes] using h⟩
        | none =>
          obtain ⟨bound', hb', h⟩ := ih done (es.reverse ++ errors) bound (by omega)
          exact ⟨bound', hb', by simpa [Portion.outcome, Portion.kept, Portion.mistakes] using h⟩

/-- A block is what its portions keep, unless the whole text is refused. -/
theorem block_portions (hp : Progressive expression statement) (xs : List Token) :
    ∃ ps rest, Portions statement [.rbrace, .eof] xs ps rest ∧
      ((nextKind rest = .rbrace ∨ nextKind rest = .eof) ∧
          block statement xs = .read (Portion.kept ps) (Portion.mistakes ps) rest.tail ∨
        ∃ r, statement rest = .refused r ∧ block statement xs = .refused r) := by
  obtain ⟨ps, rest, hps, hrest⟩ := exists_portions [.rbrace, .eof] (by simp) hp xs
  obtain ⟨bound, hb, hblock⟩ := hps.blockFrom [] [] xs (Nat.le_refl _)
  refine ⟨ps, rest, hps, ?_⟩
  rw [block, hblock]
  rcases hrest with hend | ⟨hend, r, hr⟩
  · left
    have hkind : nextKind rest = .rbrace ∨ nextKind rest = .eof := by simpa using hend
    refine ⟨hkind, ?_⟩
    cases rest with
    | nil => cases bound <;> simp [Reader.blockFrom]
    | cons t rest =>
      cases bound with
      | nil => exact absurd hb (by simp)
      | cons b bound =>
        have ht : t.kind = .rbrace ∨ t.kind = .eof := hkind
        simp [Reader.blockFrom, ht]
  · right
    refine ⟨r, hr, ?_⟩
    cases rest with
    | nil => exact absurd (by simp [nextKind]) hend
    | cons t rest =>
      cases bound with
      | nil => exact absurd hb (by simp)
      | cons b bound =>
        have ht : ¬ (t.kind = .rbrace ∨ t.kind = .eof) := by
          simpa [nextKind] using hend
        rw [Reader.blockFrom, if_neg ht, hr]

/-- A program is what its portions keep; where the whole text is refused, what was kept so far. -/
theorem statementsFrom_portions (hp : Progressive expression statement) (xs : List Token) :
    ∃ ps rest, Portions statement [.eof] xs ps rest ∧
      (nextKind rest = .eof ∧
          statementsFrom statement xs [] [] xs = ⟨Portion.kept ps, Portion.mistakes ps, none⟩ ∨
        ∃ r, statement rest = .refused r ∧
          statementsFrom statement xs [] [] xs =
            ⟨Portion.kept ps, Portion.mistakes ps, some r⟩) := by
  obtain ⟨ps, rest, hps, hrest⟩ := exists_portions [.eof] (by simp) hp xs
  obtain ⟨bound, hb, hprogram⟩ := hps.statementsFrom [] [] xs (Nat.le_refl _)
  refine ⟨ps, rest, hps, ?_⟩
  rw [hprogram]
  rcases hrest with hend | ⟨hend, r, hr⟩
  · left
    have hkind : nextKind rest = .eof := by simpa using hend
    refine ⟨hkind, ?_⟩
    cases rest with
    | nil => cases bound <;> simp [Reader.statementsFrom]
    | cons t rest =>
      cases bound with
      | nil => exact absurd hb (by simp)
      | cons b bound =>
        have ht : t.kind = .eof := hkind
        simp [Reader.statementsFrom, ht]
  · right
    refine ⟨r, hr, ?_⟩
    cases rest with
    | nil => exact absurd (by simp [nextKind]) hend
    | cons t rest =>
      cases bound with
      | nil => exact absurd hb (by simp)
      | cons b bound =>
        have ht : ¬ t.kind = .eof := by
          simpa [nextKind] using hend
        rw [Reader.statementsFrom, if_neg ht, hr]
        simp

end Portions

end Monkey.Reader
