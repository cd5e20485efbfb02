import Monkey.Integer
import Monkey.Program.Basic
import Monkey.Reader.Basic
import Monkey.Reader.Precedence

/-!
# Constructs

One reader for each construct of the language. A construct with parts takes the readers of its parts
as arguments, so that none of the definitions here is recursive through the grammar. A repetition
takes at least one token in each round; its first list bounds the rounds, and is never the shorter
one of its two lists.
-/

namespace Monkey.Reader

set_option autoImplicit false

/-- A reader of expressions, up to the first operator that does not bind tighter. -/
abbrev ExpressionReader : Type := Precedence → List Token → Outcome Expression

abbrev StatementReader : Type := List Token → Outcome Statement

def integerLiteral (t : Token) (rest : List Token) : Outcome Expression :=
  match Text.Numeral.read t.literal with
  | .error e => .refused (.numeral e)
  | .ok n =>
    if Integer.greatest < n then .dropped [.integerTooLarge t.literal] rest
    else .read (.integer n) [] rest

/-- The statements of a block after its opening brace, and the closing brace. At the end of input
the block ends as well. -/
def blockFrom (statement : StatementReader) :
    List Token → List Statement → List SyntaxError → List Token → Outcome (List Statement)
  | _ :: bound, done, errors, t :: rest =>
    if t.kind = .rbrace ∨ t.kind = .eof then .read done.reverse errors.reverse rest
    else
      match statement (t :: rest) with
      | .read s es rest => blockFrom statement bound (s :: done) (es.reverse ++ errors) rest
      | .dropped es rest => blockFrom statement bound done (es.reverse ++ errors) rest
      | .refused r => .refused r
  | _, done, errors, ts => .read done.reverse errors.reverse ts

def block (statement : StatementReader) (ts : List Token) : Outcome (List Statement) :=
  blockFrom statement ts [] [] ts

/-- An expression in parentheses, after the opening one. -/
def grouped (expression : ExpressionReader) (ts : List Token) : Outcome Expression :=
  (expression .lowest ts).andThen fun e rest => (expect .rparen rest).map fun _ => e

def alternative (statement : StatementReader) (ts : List Token) :
    Outcome (Option (List Statement)) :=
  if nextKind ts = .elseKw then
    (expect .lbrace ts.tail).andThen fun _ rest => (block statement rest).map some
  else .read none [] ts

def conditional (expression : ExpressionReader) (statement : StatementReader)
    (ts : List Token) : Outcome Expression :=
  (expression .lowest ts).andThen fun c rest =>
    (expect .lbrace rest).andThen fun _ rest =>
      (block statement rest).andThen fun t rest =>
        (alternative statement rest).map fun e => .conditional c t e

/-- The parameters after the first, and the closing parenthesis. -/
def moreParameters (done : List String) : List Token → Outcome (List String)
  | [] => .dropped [.expected .rparen .endOfInput] []
  | t :: rest =>
    if t.kind = .comma then
      match rest with
      | [] => .dropped [.expected .ident .endOfInput] []
      | p :: rest =>
        if p.kind = .ident then moreParameters (p.literal :: done) rest
        else .dropped [.expected .ident p] (p :: rest)
    else (expect .rparen (t :: rest)).map fun _ => done.reverse

def parameters (ts : List Token) : Outcome (List String) :=
  if nextKind ts = .rparen then .read [] [] ts.tail
  else (expect .ident ts).andThen fun p rest => moreParameters [p.literal] rest

def function (statement : StatementReader) (ts : List Token) : Outcome Expression :=
  (expect .lparen ts).andThen fun _ rest =>
    (parameters rest).andThen fun ps rest =>
      (expect .lbrace rest).andThen fun _ rest =>
        (block statement rest).map fun body => .function ps body

/-- An expression up to its first operator. -/
def operand (expression : ExpressionReader) (statement : StatementReader) :
    List Token → Outcome Expression
  | [] => .dropped [.unexpected .endOfInput] []
  | t :: rest =>
    match t.kind with
    | .ident => .read (.name t.literal) [] rest
    | .int => integerLiteral t rest
    | .string => .read (.string t.literal) [] rest
    | .trueKw => .read (.boolean true) [] rest
    | .falseKw => .read (.boolean false) [] rest
    | .bang => (expression .unary rest).map (.unary t.literal)
    | .minus => (expression .unary rest).map (.unary t.literal)
    | .lparen => grouped expression rest
    | .ifKw => conditional expression statement rest
    | .fn => function statement rest
    | _ => .dropped [.unexpected t] rest

/-- The arguments after the first, and the closing parenthesis. -/
def moreArguments (expression : ExpressionReader) :
    List Token → List Expression → List SyntaxError → List Token → Outcome (List Expression)
  | _ :: bound, done, errors, t :: rest =>
    if t.kind = .comma then
      match expression .lowest rest with
      | .read e es rest => moreArguments expression bound (e :: done) (errors ++ es) rest
      | .dropped es rest => .dropped (errors ++ es) rest
      | .refused r => .refused r
    else ((expect .rparen (t :: rest)).map fun _ => done.reverse).behind errors
  | _, done, errors, ts => ((expect .rparen ts).map fun _ => done.reverse).behind errors

def arguments (expression : ExpressionReader) (ts : List Token) : Outcome (List Expression) :=
  if nextKind ts = .rparen then .read [] [] ts.tail
  else
    (expression .lowest ts).andThen fun e rest => moreArguments expression rest [e] [] rest

/-- The application of an operator or of a call to an operand, after the operator itself. -/
def application (expression : ExpressionReader) (left : Expression) (t : Token)
    (rest : List Token) : Outcome Expression :=
  if t.kind = .lparen then (arguments expression rest).map (.call left)
  else (expression (.ofKind t.kind) rest).map (.binary left t.literal)

/-- The operators that follow an operand and bind tighter than `floor`, from left to right. -/
def operators (expression : ExpressionReader) (floor : Precedence) :
    List Token → Expression → List SyntaxError → List Token → Outcome Expression
  | _ :: bound, left, errors, t :: rest =>
    if floor.rank < (Precedence.ofKind t.kind).rank then
      match application expression left t rest with
      | .read e es rest => operators expression floor bound e (errors ++ es) rest
      | .dropped es rest => .dropped (errors ++ es) rest
      | .refused r => .refused r
    else .read left errors (t :: rest)
  | _, left, errors, ts => .read left errors ts

def binding (expression : ExpressionReader) (ts : List Token) : Outcome Statement :=
  (expect .ident ts).andThen fun name rest =>
    (expect .assign rest).andThen fun _ rest =>
      (expression .lowest rest).andThen fun e rest =>
        .read (.binding name.literal e) [] (skipSemicolon rest)

def returning (expression : ExpressionReader) (ts : List Token) : Outcome Statement :=
  (expression .lowest ts).andThen fun e rest => .read (.ret e) [] (skipSemicolon rest)

def expressionStatement (expression : ExpressionReader) (ts : List Token) : Outcome Statement :=
  (expression .lowest ts).andThen fun e rest => .read (.expression e) [] (skipSemicolon rest)

end Monkey.Reader
