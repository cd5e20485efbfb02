import Monkey.SyntaxError
import Monkey.Text.Numeral

/-!
# Reading from a token list

A reader takes the tokens from some point on. It gives what it read together with the errors of the
statements that were dropped inside, or it gives up its own statement with one error more, or it
refuses the whole text. Past the last token there is only the end of input.
-/

namespace Monkey.Reader

set_option autoImplicit false

inductive Refusal where
  /-- Constructs are nested deeper than the reader may follow. -/
  | tooDeep
  /-- A number has too many digits, or a number token holds no number. -/
  | numeral (error : Text.Numeral.Error)
  deriving Repr, DecidableEq

inductive Outcome (α : Type) where
  | read (value : α) (errors : List SyntaxError) (rest : List Token)
  | dropped (errors : List SyntaxError) (rest : List Token)
  | refused (reason : Refusal)

namespace Outcome

variable {α β : Type}

/-- The outcome with earlier errors in front of its own. -/
def behind (earlier : List SyntaxError) : Outcome α → Outcome α
  | read a es rest => read a (earlier ++ es) rest
  | dropped es rest => dropped (earlier ++ es) rest
  | refused r => refused r

/-- Goes on from the rest unless the statement has to be dropped. -/
def andThen (o : Outcome α) (next : α → List Token → Outcome β) : Outcome β :=
  match o with
  | read a es rest => (next a rest).behind es
  | dropped es rest => dropped es rest
  | refused r => refused r

def map (f : α → β) (o : Outcome α) : Outcome β :=
  match o with
  | read a es rest => read (f a) es rest
  | dropped es rest => dropped es rest
  | refused r => refused r

@[simp] theorem behind_nil (o : Outcome α) : o.behind [] = o := by
  cases o <;> simp [behind]

end Outcome

def nextKind : List Token → Token.Kind
  | [] => .eof
  | t :: _ => t.kind

/-- Takes a token of one kind; any other token stays where it is. -/
def expect (kind : Token.Kind) : List Token → Outcome Token
  | [] => .dropped [.expected kind .endOfInput] []
  | t :: rest => if t.kind = kind then .read t [] rest else .dropped [.expected kind t] (t :: rest)

/-- A semicolon may end a statement. -/
def skipSemicolon : List Token → List Token
  | [] => []
  | t :: rest => if t.kind = .semicolon then rest else t :: rest

end Monkey.Reader
