import Monkey.Proofs.Grammar.Loosen
import Monkey.Proofs.Program.WellFormed
import Monkey.Proofs.Reader.Contract

/-!
# What is read is well-formed

From tokens of the shape that a scanner gives them only well-formed trees are read, whatever errors
there are in other statements.
-/

namespace Monkey.Reader

set_option autoImplicit false

theorem admits_operator {k : Token.Kind} {p : Grammar.Level} (hk : k ∈ p.operators)
    {literal : String} (h : k.Admits literal) : literal ∈ binaryOperators := by
  have htag : literal = k.tag ∧ k.tag ∈ binaryOperators := by
    cases p <;> simp only [Grammar.Level.operators, List.mem_cons, List.not_mem_nil, or_false] at hk
    · rcases hk with rfl | rfl <;> exact ⟨h, by decide⟩
    · rcases hk with rfl | rfl <;> exact ⟨h, by decide⟩
    · rcases hk with rfl | rfl <;> exact ⟨h, by decide⟩
    · rcases hk with rfl | rfl | rfl <;> exact ⟨h, by decide⟩
  rw [htag.1]
  exact htag.2

/-- The literal of every token goes with its kind, and what is read is well-formed. -/
def Contract.wellFormed : Contract where
  token t := t.kind.Admits t.literal
  error _ := True
  name := Token.IsName
  expression := Expression.WellFormed
  statement := Statement.WellFormed

theorem Contract.wellFormed_lawful : Contract.wellFormed.Lawful where
  expected _ _ := trivial
  unexpected _ := trivial
  tooLarge _ _ := trivial
  name := by
    intro t ht hk
    change t.kind.Admits t.literal at ht
    rwa [hk] at ht
  identifier hn := .name hn
  integer := by
    intro t n ht hk hn hle
    change t.kind.Admits t.literal at ht
    rw [hk] at ht
    rw [Text.Numeral.read_of_isPlain ht] at hn
    split at hn
    · cases hn
    · cases hn
      exact .integer (Int.natCast_nonneg _) hle
  boolean b := .boolean b
  string s := .string s
  unary := by
    intro t e ht hk he
    change t.kind.Admits t.literal at ht
    have hop : t.literal ∈ unaryOperators := by
      rcases hk with hk | hk
      · rw [hk] at ht
        rw [show t.literal = "!" from ht]
        decide
      · rw [hk] at ht
        rw [show t.literal = "-" from ht]
        decide
    exact .unary hop he
  binary := by
    intro floor t l r ht hbinds hk hleft hright
    have hone := Nat.lt_of_le_of_lt floor.one_le_rank hbinds
    obtain ⟨p, hp, _⟩ := Precedence.exists_operators hone hk
    exact .binary hleft (admits_operator hp ht) hright
  conditional hc ht := .conditional hc ht
  alternative hc ht he := .alternative hc ht he
  function hps hbody := .function hps hbody
  call hf hargs := .call hf hargs
  binding hn he := .binding hn he
  ret he := .ret he
  only he := .expression he

theorem scan_holds (text file : String) : Contract.wellFormed.Holds (Token.scan text file) := by
  intro t ht
  rw [Token.scan, Token.scanFrom_eq_words] at ht
  rcases List.mem_append.mp ht with ht | ht
  · exact (Token.mem_words ht).1
  · rw [List.mem_singleton.mp ht]
    trivial

/-- Whatever errors a text has, the statements that were read of it are well-formed. -/
theorem readText_wellFormed (depth : Nat) (text file : String) :
    (readText depth text file).program.WellFormed :=
  (Contract.wellFormed_lawful.readTokens depth (scan_holds text file)).1

end Monkey.Reader
