import Monkey.Proofs.Reader.Deeper
import Monkey.Proofs.Reader.Literals

/-!
# Readers come to an end

The bound on the rounds of a repetition is never what ends it, since a round takes a token: any
bound that is long enough gives the same. So two levels for each token are all that a reader needs
to get to the end of the input, whatever the tokens are and in whatever order they come.
-/

namespace Monkey.Reader

set_option autoImplicit false

/-- A repetition with a state. It ends at once where no token is left; else it ends, or goes on with
another state and fewer tokens, and in neither case it looks at the bound. -/
structure Repetition {σ β : Type} (run : List Token → σ → List Token → β) : Prop where
  nil : ∀ bound s, run bound s [] = run [] s []
  cons : ∀ s t ts, (∃ out, ∀ b bound, run (b :: bound) s (t :: ts) = out) ∨
    ∃ s' rest, rest.length ≤ ts.length ∧
      ∀ b bound, run (b :: bound) s (t :: ts) = run bound s' rest

/-- The rounds that there are tokens for are enough. -/
theorem Repetition.eq_of_length_le {σ β : Type} {run : List Token → σ → List Token → β}
    (h : Repetition run) {bound ts : List Token} (s : σ) (hb : ts.length ≤ bound.length) :
    run bound s ts = run ts s ts := by
  induction hn : ts.length using Nat.strongRecOn generalizing bound ts s with
  | ind n ih =>
    cases ts with
    | nil => exact h.nil bound s
    | cons t ts =>
      cases bound with
      | nil => exact absurd hb (by simp)
      | cons b bound =>
        simp only [List.length_cons, Nat.add_le_add_iff_right] at hn hb
        rcases h.cons s t ts with ⟨out, hout⟩ | ⟨s', rest, hrest, hrun⟩
        · rw [hout, hout]
        · rw [hrun, hrun, ih rest.length (by omega) s' (by omega) rfl,
            ih rest.length (by omega) s' hrest rfl]

structure Unbounded (expression : ExpressionReader) (statement : StatementReader) : Prop where
  blocks : ∀ bound done errors ts, ts.length ≤ bound.length →
    blockFrom statement bound done errors ts = blockFrom statement ts done errors ts
  arguments : ∀ bound done errors ts, ts.length ≤ bound.length →
    moreArguments expression bound done errors ts = moreArguments expression ts done errors ts
  operators : ∀ floor bound left errors ts, ts.length ≤ bound.length →
    operators expression floor bound left errors ts = operators expression floor ts left errors ts
  programs : ∀ bound done errors ts, ts.length ≤ bound.length →
    statementsFrom statement bound done errors ts = statementsFrom statement ts done errors ts

section Repetitions

variable {expression : ExpressionReader} {statement : StatementReader}

theorem repetition_blockFrom (h : Progressive expression statement) :
    Repetition fun bound (s : List Statement × List SyntaxError) ts =>
      blockFrom statement bound s.1 s.2 ts := by
  constructor
  · intro bound s
    cases bound <;> simp [blockFrom]
  · rintro ⟨done, errors⟩ t ts
    have hs := h.statement (t :: ts)
    simp only [blockFrom]
    split
    · exact .inl ⟨_, fun _ _ => rfl⟩
    · cases hread : statement (t :: ts) with
      | read s es rest =>
        rw [hread] at hs
        exact .inr ⟨(s :: done, es.reverse ++ errors), rest, hs, fun _ _ => rfl⟩
      | dropped es rest =>
        rw [hread] at hs
        exact .inr ⟨(done, es.reverse ++ errors), rest, hs.2, fun _ _ => rfl⟩
      | refused r => exact .inl ⟨_, fun _ _ => rfl⟩

theorem repetition_moreArguments (h : Progressive expression statement) :
    Repetition fun bound (s : List Expression × List SyntaxError) ts =>
      moreArguments expression bound s.1 s.2 ts := by
  constructor
  · intro bound s
    cases bound <;> simp [moreArguments]
  · rintro ⟨done, errors⟩ t ts
    have he := h.lowest ts
    simp only [moreArguments]
    split
    · cases hread : expression .lowest ts with
      | read e es rest =>
        rw [hread] at he
        exact .inr ⟨(e :: done, errors ++ es), rest, he, fun _ _ => rfl⟩
      | dropped es rest => exact .inl ⟨_, fun _ _ => rfl⟩
      | refused r => exact .inl ⟨_, fun _ _ => rfl⟩
    · exact .inl ⟨_, fun _ _ => rfl⟩

theorem repetition_operators (h : Progressive expression statement) (floor : Precedence) :
    Repetition fun bound (s : Expression × List SyntaxError) ts =>
      operators expression floor bound s.1 s.2 ts := by
  constructor
  · intro bound s
    cases bound <;> simp [operators]
  · rintro ⟨left, errors⟩ t ts
    simp only [operators]
    split
    · next hbinds =>
      have ha := h.application left hbinds ts
      cases hread : application expression left t ts with
      | read e es rest =>
        rw [hread] at ha
        exact .inr ⟨(e, errors ++ es), rest, ha, fun _ _ => rfl⟩
      | dropped es rest => exact .inl ⟨_, fun _ _ => rfl⟩
      | refused r => exact .inl ⟨_, fun _ _ => rfl⟩
    · exact .inl ⟨_, fun _ _ => rfl⟩

theorem repetition_statementsFrom (h : Progressive expression statement) :
    Repetition fun bound (s : List Statement × List SyntaxError) ts =>
      statementsFrom statement bound s.1 s.2 ts := by
  constructor
  · intro bound s
    cases bound <;> simp [statementsFrom]
  · rintro ⟨done, errors⟩ t ts
    have hs := h.statement (t :: ts)
    simp only [statementsFrom]
    split
    · exact .inl ⟨_, fun _ _ => rfl⟩
    · cases hread : statement (t :: ts) with
      | read s es rest =>
        rw [hread] at hs
        exact .inr ⟨(s :: done, es.reverse ++ errors), rest, hs, fun _ _ => rfl⟩
      | dropped es rest =>
        rw [hread] at hs
        exact .inr ⟨(done, es.reverse ++ errors), rest, hs.2, fun _ _ => rfl⟩
      | refused r => exact .inl ⟨_, fun _ _ => rfl⟩

theorem unbounded (h : Progressive expression statement) : Unbounded expression statement where
  blocks _ done errors _ hb := (repetition_blockFrom h).eq_of_length_le (done, errors) hb
  arguments _ done errors _ hb := (repetition_moreArguments h).eq_of_length_le (done, errors) hb
  operators floor _ left errors _ hb :=
    (repetition_operators h floor).eq_of_length_le (left, errors) hb
  programs _ done errors _ hb := (repetition_statementsFrom h).eq_of_length_le (done, errors) hb

end Repetitions

/-- Every number among the tokens is a row of digits that is not too long to have a value. -/
def Numbered (ts : List Token) : Prop :=
  ∀ t ∈ ts, t.kind = .int →
    Text.Numeral.IsPlain t.literal.toList ∧ t.literal.toList.length ≤ Text.Numeral.maxDigits

section Ends

variable {ts : List Token} {depth : Nat}

theorem Numbered.within (h : Numbered ts) : Within ts.length ts :=
  ⟨Nat.le_refl _, fun t ht hk => (h t ht hk).1⟩

theorem Numbered.isOverlong (h : Numbered ts) {t : Token} (ht : t ∈ ts) : t.isOverlong = false := by
  by_cases hk : t.kind = .int
  · rw [(Token.of_number hk).1]
    exact decide_eq_false (Nat.not_lt.mpr (h t ht hk).2)
  · exact (Token.not_number hk).1

/-- Tokens of any kinds in any order are read up to the end of the input, statement by statement,
with two levels for each token and two more. A reader that may go deeper reads the same, and so does
one with longer bounds on its repetitions. -/
theorem readTokens_ends (hnumbers : Numbered ts) (hd : 2 * (ts.length + 1) ≤ depth) :
    (∃ ps rest, Portions (statement depth) [.eof] ts ps rest ∧ nextKind rest = .eof ∧
        readTokens depth ts = ⟨Portion.kept ps, Portion.mistakes ps, none⟩) ∧
      (∀ deeper, depth ≤ deeper → readTokens deeper ts = readTokens depth ts) ∧
      ∀ d, Unbounded (expression d) (statement d) := by
  obtain ⟨ps, rest, hps, -, hread⟩ := readTokens_accounted hd hnumbers.within
  have hends : nextKind rest = .eof ∧
      readTokens depth ts = ⟨Portion.kept ps, Portion.mistakes ps, none⟩ := by
    rcases hread with hread | ⟨t, hfind, -⟩
    · exact hread
    · have hlong := List.find?_some hfind
      rw [hnumbers.isOverlong (List.mem_of_find?_eq_some hfind)] at hlong
      exact Bool.noConfusion hlong
  refine ⟨⟨ps, rest, hps, hends⟩, ?_, fun d => unbounded (progressive d)⟩
  intro deeper hle
  have hdeepens : (readTokens depth ts).Deepens (readTokens deeper ts) :=
    statementsFrom_deepens (Reader.deeper hle) ts [] [] ts
  rcases hdeepens with heq | ⟨hdeep, -⟩
  · exact heq
  · rw [hends.2] at hdeep
    cases hdeep

/-- A parenthesis that is not closed, an end of the input with more tokens behind it, a brace that
was not opened, a number, and a token of no kind. -/
theorem readTokens_ends_jumble :
    let ts : List Token := [⟨.lparen, "(", none⟩, ⟨.eof, "", none⟩, ⟨.rbrace, "\x7d", none⟩,
      ⟨.int, "007", none⟩, ⟨.other "@", "@", none⟩]
    Numbered ts ∧ 2 * (ts.length + 1) ≤ 12 ∧
      ∃ ps rest, Portions (statement 12) [.eof] ts ps rest ∧ nextKind rest = .eof ∧
        readTokens 12 ts = ⟨Portion.kept ps, Portion.mistakes ps, none⟩ := by
  intro ts
  have hnumbers : Numbered ts := by
    simp only [Numbered, Text.Numeral.isPlain_iff_all]
    decide
  exact ⟨hnumbers, by decide, (readTokens_ends hnumbers (by decide)).1⟩

end Ends

end Monkey.Reader
