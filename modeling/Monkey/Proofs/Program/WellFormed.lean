import Monkey.Integer
import Monkey.Program.Basic
import Monkey.Proofs.Token.Lexeme

/-!
# Well-formed trees

The trees that a source text can stand for: numbers are within the range of numerals, names are
names, operators are those of the language, statements in a row are no blocks, and nothing is
missing.
-/

namespace Monkey

set_option autoImplicit false

def unaryOperators : List String := ["!", "-"]

def binaryOperators : List String := ["==", "!=", "<", ">", "+", "-", "*", "/", "%"]

mutual

inductive Expression.WellFormed : Expression → Prop where
  | integer {n : Int} : 0 ≤ n → n ≤ Integer.greatest → Expression.WellFormed (.integer n)
  | boolean (b : Bool) : Expression.WellFormed (.boolean b)
  | string (s : String) : Expression.WellFormed (.string s)
  | name {n : String} : Token.IsName n → Expression.WellFormed (.name n)
  | unary {op : String} {e : Expression} : op ∈ unaryOperators → Expression.WellFormed e →
      Expression.WellFormed (.unary op e)
  | binary {l r : Expression} {op : String} : Expression.WellFormed l → op ∈ binaryOperators →
      Expression.WellFormed r → Expression.WellFormed (.binary l op r)
  | conditional {c : Expression} {t : List Statement} : Expression.WellFormed c →
      (∀ s ∈ t, Statement.WellFormed s) → Expression.WellFormed (.conditional c t none)
  | alternative {c : Expression} {t e : List Statement} : Expression.WellFormed c →
      (∀ s ∈ t, Statement.WellFormed s) → (∀ s ∈ e, Statement.WellFormed s) →
      Expression.WellFormed (.conditional c t (some e))
  | function {ps : List String} {body : List Statement} : (∀ p ∈ ps, Token.IsName p) →
      (∀ s ∈ body, Statement.WellFormed s) → Expression.WellFormed (.function ps body)
  | call {f : Expression} {args : List Expression} : Expression.WellFormed f →
      (∀ a ∈ args, Expression.WellFormed a) → Expression.WellFormed (.call f args)

inductive Statement.WellFormed : Statement → Prop where
  | binding {n : String} {e : Expression} : Token.IsName n → Expression.WellFormed e →
      Statement.WellFormed (.binding n e)
  | ret {e : Expression} : Expression.WellFormed e → Statement.WellFormed (.ret e)
  | expression {e : Expression} : Expression.WellFormed e → Statement.WellFormed (.expression e)

end

/-- Every statement of the program is well-formed, and is no block. -/
def Program.WellFormed (p : Program) : Prop := ∀ s ∈ p.statements, s.WellFormed

end Monkey
