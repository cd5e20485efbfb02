import Monkey.Integer
import Monkey.Program.Basic
import Monkey.Token.Basic

/-!
# The grammar

Which phrase a list of tokens starts with, which tree the phrase stands for, and which tokens are
left behind it. The end of the input is not among the tokens: where nothing is left, the input
is at its end.

The levels of expressions are, from the loosest to the tightest,

    equality   = equality (== | !=) comparison | comparison
    comparison = comparison (< | >) sum        | sum
    sum        = sum (+ | -) product           | product
    product    = product (* | / | %) unary     | unary
    unary      = (! | -) unary                 | call
    call       = call ( arguments              | atom

and the operators of one level group from the left because only the left operand is of that level.
-/

namespace Monkey.Grammar

set_option autoImplicit false

/-- How tightly an expression holds together. -/
inductive Level where
  | equality | comparison | sum | product | unary | call | atom
  deriving Repr, DecidableEq

namespace Level

def tighter : Level → Level
  | equality => comparison
  | comparison => sum
  | sum => product
  | product => unary
  | unary => call
  | call => atom
  | atom => atom

def operators : Level → List Token.Kind
  | equality => [.eq, .notEq]
  | comparison => [.lt, .gt]
  | sum => [.plus, .minus]
  | product => [.asterisk, .slash, .percent]
  | _ => []

end Level

def value (t : Token) : Nat := Nat.ofDigitChars 10 t.literal.toList 0

/-- The parameters of a function after the opening parenthesis, with the closing one. -/
inductive Parameters : List Token → List String → List Token → Prop where
  | none {r : Token} {rest : List Token} : r.kind = .rparen → Parameters (r :: rest) [] rest
  | last {n r : Token} {rest : List Token} : n.kind = .ident → r.kind = .rparen →
      Parameters (n :: r :: rest) [n.literal] rest
  | more {n c : Token} {ts rest : List Token} {ns : List String} : n.kind = .ident →
      c.kind = .comma → Parameters ts ns rest → ns ≠ [] →
      Parameters (n :: c :: ts) (n.literal :: ns) rest

mutual

inductive Expression : Level → List Token → Monkey.Expression → List Token → Prop where
  | binary {p : Level} {ts us rest : List Token} {op : Token} {l r : Monkey.Expression} :
      op.kind ∈ p.operators → Expression p ts l (op :: us) → Expression p.tighter us r rest →
      Expression p ts (.binary l op.literal r) rest
  | tighter {p : Level} {ts rest : List Token} {e : Monkey.Expression} :
      Expression p.tighter ts e rest → Expression p ts e rest
  | unary {op : Token} {ts rest : List Token} {e : Monkey.Expression} :
      op.kind = .bang ∨ op.kind = .minus → Expression .unary ts e rest →
      Expression .unary (op :: ts) (.unary op.literal e) rest
  | call {l : Token} {ts us rest : List Token} {f : Monkey.Expression}
      {args : List Monkey.Expression} :
      Expression .call ts f (l :: us) → l.kind = .lparen → Arguments us args rest →
      Expression .call ts (.call f args) rest
  | name {t : Token} {rest : List Token} : t.kind = .ident →
      Expression .atom (t :: rest) (.name t.literal) rest
  | integer {t : Token} {rest : List Token} : t.kind = .int → value t ≤ Integer.greatest →
      Expression .atom (t :: rest) (.integer (value t)) rest
  | string {t : Token} {rest : List Token} : t.kind = .string →
      Expression .atom (t :: rest) (.string t.literal) rest
  | yes {t : Token} {rest : List Token} : t.kind = .trueKw →
      Expression .atom (t :: rest) (.boolean true) rest
  | no {t : Token} {rest : List Token} : t.kind = .falseKw →
      Expression .atom (t :: rest) (.boolean false) rest
  | grouped {l r : Token} {ts rest : List Token} {e : Monkey.Expression} : l.kind = .lparen →
      Expression .equality ts e (r :: rest) → r.kind = .rparen →
      Expression .atom (l :: ts) e rest
  | conditional {i : Token} {ts us rest : List Token} {c : Monkey.Expression}
      {t : List Statement} : i.kind = .ifKw → Expression .equality ts c us → Block us t rest →
      Expression .atom (i :: ts) (.conditional c t none) rest
  | alternative {i o : Token} {ts us vs rest : List Token} {c : Monkey.Expression}
      {t e : List Statement} : i.kind = .ifKw → Expression .equality ts c us →
      Block us t (o :: vs) → o.kind = .elseKw → Block vs e rest →
      Expression .atom (i :: ts) (.conditional c t (some e)) rest
  | function {f l : Token} {ts us rest : List Token} {ps : List String}
      {body : List Statement} : f.kind = .fn → l.kind = .lparen → Parameters ts ps us →
      Block us body rest → Expression .atom (f :: l :: ts) (.function ps body) rest

/-- The arguments of a call after the opening parenthesis, with the closing one. -/
inductive Arguments : List Token → List Monkey.Expression → List Token → Prop where
  | none {r : Token} {rest : List Token} : r.kind = .rparen → Arguments (r :: rest) [] rest
  | last {r : Token} {ts rest : List Token} {e : Monkey.Expression} :
      Expression .equality ts e (r :: rest) → r.kind = .rparen → Arguments ts [e] rest
  | more {c : Token} {ts us rest : List Token} {e : Monkey.Expression}
      {es : List Monkey.Expression} : Expression .equality ts e (c :: us) → c.kind = .comma →
      Arguments us es rest → es ≠ [] → Arguments ts (e :: es) rest

/-- A block with its braces. The closing brace may be missing at the end of the input. -/
inductive Block : List Token → List Statement → List Token → Prop where
  | closed {l r : Token} {ts rest : List Token} {ss : List Statement} : l.kind = .lbrace →
      Sequence ts ss (r :: rest) → r.kind = .rbrace → Block (l :: ts) ss rest
  | unclosed {l : Token} {ts : List Token} {ss : List Statement} : l.kind = .lbrace →
      Sequence ts ss [] → Block (l :: ts) ss []

/-- A statement without the semicolon that may end it. -/
inductive Clause : List Token → Statement → List Token → Prop where
  | binding {k n a : Token} {ts rest : List Token} {e : Monkey.Expression} : k.kind = .letKw →
      n.kind = .ident → a.kind = .assign → Expression .equality ts e rest →
      Clause (k :: n :: a :: ts) (.binding n.literal e) rest
  | ret {k : Token} {ts rest : List Token} {e : Monkey.Expression} : k.kind = .returnKw →
      Expression .equality ts e rest → Clause (k :: ts) (.ret e) rest
  | expression {ts rest : List Token} {e : Monkey.Expression} : Expression .equality ts e rest →
      Clause ts (.expression e) rest

/-- A sequence of statements. The next statement starts neither with a minus sign nor with a
parenthesis where no semicolon stands in front of it. -/
inductive Sequence : List Token → List Statement → List Token → Prop where
  | nil {ts : List Token} : Sequence ts [] ts
  | ended {d : Token} {ts us rest : List Token} {s : Statement} {ss : List Statement} :
      Clause ts s (d :: us) → d.kind = .semicolon → Sequence us ss rest →
      Sequence ts (s :: ss) rest
  | unended {ts us rest : List Token} {s : Statement} {ss : List Statement} : Clause ts s us →
      Sequence us ss rest → (ss ≠ [] → ∀ t ∈ us.head?, t.kind ≠ .minus ∧ t.kind ≠ .lparen) →
      Sequence ts (s :: ss) rest

end

def Derives (ts : List Token) (p : Program) : Prop := Sequence ts p.statements []

end Monkey.Grammar
