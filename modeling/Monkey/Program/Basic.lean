/-!
# Programs

The syntax trees of the language. A block is a list of statements; it occurs as the branch of a
conditional and as the body of a function. Operators are kept as text, so that a tree can also hold
an operator the language does not have; such a tree can be shown, and fails when it is evaluated.
-/

namespace Monkey

set_option autoImplicit false

mutual

inductive Expression where
  | integer (value : Int)
  | boolean (value : Bool)
  | string (value : String)
  | name (name : String)
  | unary (operator : String) (operand : Expression)
  | binary (left : Expression) (operator : String) (right : Expression)
  | conditional (condition : Expression) (consequence : List Statement)
      (alternative : Option (List Statement))
  | function (parameters : List String) (body : List Statement)
  | call (callee : Expression) (arguments : List Expression)
  /-- The place of an expression that is not there. -/
  | hole

inductive Statement where
  | binding (name : String) (value : Expression)
  | ret (value : Expression)
  | expression (value : Expression)
  | block (statements : List Statement)
  /-- The place of a statement that is not there. -/
  | hole

end

instance : Inhabited Expression := ⟨.hole⟩

instance : Inhabited Statement := ⟨.hole⟩

structure Program where
  statements : List Statement

/-- Anything that can be shown and evaluated by itself. -/
inductive Node where
  | program (program : Program)
  | statement (statement : Statement)
  | expression (expression : Expression)
  /-- Nothing at all. -/
  | missing

namespace Expression

def tag : Expression → String
  | integer _ => "INTEGER"
  | boolean _ => "BOOLEAN"
  | string _ => "STRING"
  | name _ => "IDENTIFIER"
  | unary .. => "PREFIX"
  | binary .. => "INFIX"
  | conditional .. => "IF"
  | function .. => "FUNCTION"
  | call .. => "CALL"
  | hole => "EXPRESSION"

end Expression

namespace Statement

def tag : Statement → String
  | binding .. => "LET"
  | ret _ => "RETURN"
  | expression _ => "EXPRESSION_STATEMENT"
  | block _ => "BLOCK"
  | hole => "STATEMENT"

def isExpression : Statement → Bool
  | expression _ => true
  | _ => false

end Statement

mutual

/-- Is the tree at most so many levels high? -/
def Expression.fits : Nat → Expression → Bool
  | 0, _ => false
  | _ + 1, .integer _ => true
  | _ + 1, .boolean _ => true
  | _ + 1, .string _ => true
  | _ + 1, .name _ => true
  | d + 1, .unary _ e => e.fits d
  | d + 1, .binary l _ r => l.fits d && r.fits d
  | d + 1, .conditional c t none => c.fits d && t.all (Statement.fits d)
  | d + 1, .conditional c t (some e) =>
    c.fits d && t.all (Statement.fits d) && e.all (Statement.fits d)
  | d + 1, .function _ body => body.all (Statement.fits d)
  | d + 1, .call f args => f.fits d && args.all (Expression.fits d)
  | _ + 1, .hole => true

def Statement.fits : Nat → Statement → Bool
  | 0, _ => false
  | d + 1, .binding _ e => e.fits d
  | d + 1, .ret e => e.fits d
  | d + 1, .expression e => e.fits d
  | d + 1, .block ss => ss.all (Statement.fits d)
  | _ + 1, .hole => true

end

def Program.fits (d : Nat) (p : Program) : Bool :=
  p.statements.all (Statement.fits d)

def Node.fits (d : Nat) : Node → Bool
  | .program p => p.fits d
  | .statement s => s.fits d
  | .expression e => e.fits d
  | .missing => true

end Monkey
