import Monkey.Reader.Construct
import Monkey.Token.Scan

/-!
# Reading programs

The readers of statements and expressions, tied together. They follow nested constructs down to a
given depth; a chain of operators or a sequence of statements is not nesting. A statement that
cannot be read is dropped with one error, and reading goes on with the token after the one that the
error stopped at.
-/

namespace Monkey.Reader

set_option autoImplicit false

mutual

/-- Reads a statement that is nested at most so deep. -/
def statement : Nat → List Token → Outcome Statement
  | 0, _ => .refused .tooDeep
  | d + 1, ts =>
    match nextKind ts with
    | .letKw => binding (expression d) ts.tail
    | .returnKw => returning (expression d) ts.tail
    | _ => expressionStatement (expression d) ts

def expression : Nat → Precedence → List Token → Outcome Expression
  | 0, _, _ => .refused .tooDeep
  | d + 1, floor, ts =>
    match operand (expression d) (statement d) ts with
    | .read left errors rest => operators (expression d) floor rest left errors rest
    | .dropped errors rest => .dropped errors rest
    | .refused r => .refused r

end

/-- What was read of a text: the statements that could be read, the errors of those that could
not, and why reading stopped before the end if it did. -/
structure Reading where
  statements : List Statement
  errors : List SyntaxError
  refusal : Option Refusal

namespace Reading

/-- The statements that were read, whatever the errors. -/
def program (r : Reading) : Program := ⟨r.statements⟩

def messages (r : Reading) : List String :=
  r.errors.map SyntaxError.message

end Reading

def statementsFrom (statement : StatementReader) :
    List Token → List Statement → List SyntaxError → List Token → Reading
  | _ :: bound, done, errors, t :: rest =>
    if t.kind = .eof then ⟨done.reverse, errors.reverse, none⟩
    else
      match statement (t :: rest) with
      | .read s es rest => statementsFrom statement bound (s :: done) (es.reverse ++ errors) rest
      | .dropped es rest => statementsFrom statement bound done (es.reverse ++ errors) rest
      | .refused r => ⟨done.reverse, errors.reverse, some r⟩
  | _, done, errors, _ => ⟨done.reverse, errors.reverse, none⟩

/-- Reads a program from tokens, following nested constructs down to the given depth. -/
def readTokens (depth : Nat) (ts : List Token) : Reading :=
  statementsFrom (statement depth) ts [] [] ts

def readText (depth : Nat) (text file : String) : Reading :=
  readTokens depth (Token.scan text file)

end Monkey.Reader
