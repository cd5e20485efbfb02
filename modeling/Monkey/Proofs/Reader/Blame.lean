import Monkey.Proofs.Reader.Contract

/-!
# What errors are about

A reader blames nothing but what it was given. Every error is about one of its tokens or about the
end of the input behind them, and what is missed there is a name, an assignment, a parenthesis or an
opening brace.
-/

namespace Monkey

set_option autoImplicit false

def SyntaxError.About (P : Token → Prop) : SyntaxError → Prop
  | expected k t => k ∈ Reader.required ∧ (P t ∨ t = .endOfInput)
  | unexpected t => P t ∨ t = .endOfInput
  | integerTooLarge numeral => ∃ t, P t ∧ t.kind = .int ∧ t.literal = numeral

namespace Reader

/-- All tokens have the property, and errors are about such tokens. -/
def Contract.blaming (P : Token → Prop) : Contract where
  token := P
  error := SyntaxError.About P
  name _ := True
  expression _ := True
  statement _ := True

theorem Contract.blaming_lawful (P : Token → Prop) : (Contract.blaming P).Lawful where
  expected hk ht := ⟨hk, ht⟩
  unexpected ht := ht
  tooLarge ht hk := ⟨_, ht, hk, rfl⟩
  name _ _ := trivial
  identifier _ := trivial
  integer _ _ _ _ := trivial
  boolean _ := trivial
  string _ := trivial
  unary _ _ _ := trivial
  binary _ _ _ _ _ := trivial
  conditional _ _ := trivial
  alternative _ _ _ := trivial
  function _ _ := trivial
  call _ _ := trivial
  binding _ _ := trivial
  ret _ := trivial
  only _ := trivial

/-- Every error is about one of the tokens that were read, or about the end of the input. -/
theorem readTokens_about (depth : Nat) (ts : List Token) :
    ∀ e ∈ (readTokens depth ts).errors, e.About (· ∈ ts) :=
  ((Contract.blaming_lawful (· ∈ ts)).readTokens depth fun _ ht => ht).2

end Reader

end Monkey
