import Monkey.Program.Source

/-!
# Programs as outlines

A tree as indented lines: one line for each node, two spaces for each level. A statement that is an
expression only has no line of its own, and the branches of a conditional stand beside each other.
-/

namespace Monkey

set_option autoImplicit false

structure OutlineLine where
  indent : Nat
  label : String
  deriving Repr, DecidableEq

def OutlineLine.render (l : OutlineLine) : String :=
  "".pushn ' ' (2 * l.indent) ++ l.label ++ "\n"

mutual

def Expression.outline (i : Nat) : Expression → List OutlineLine
  | .unary op e => ⟨i, "PREFIX " ++ op⟩ :: e.outline (i + 1)
  | .binary l op r => ⟨i, "INFIX " ++ op⟩ :: (l.outline (i + 1) ++ r.outline (i + 1))
  | .conditional c t none =>
    ⟨i, "IF"⟩ :: (c.outline (i + 1) ++ ⟨i + 1, "BLOCK"⟩ :: Statement.outlines (i + 2) t)
  | .conditional c t (some e) =>
    ⟨i, "IF"⟩ :: (c.outline (i + 1) ++ ⟨i + 1, "BLOCK"⟩ :: Statement.outlines (i + 2) t ++
      ⟨i, "ELSE"⟩ :: ⟨i + 1, "BLOCK"⟩ :: Statement.outlines (i + 2) e)
  | .function ps body =>
    ⟨i, "FUNCTION(" ++ ", ".intercalate ps ++ ")"⟩ :: ⟨i + 1, "BLOCK"⟩ ::
      Statement.outlines (i + 2) body
  | .call f args => ⟨i, "CALL"⟩ :: (f.outline (i + 1) ++ Expression.outlines (i + 1) args)
  | e@(.integer _) => [⟨i, e.tag ++ "(" ++ e.source ++ ")"⟩]
  | e@(.boolean _) => [⟨i, e.tag ++ "(" ++ e.source ++ ")"⟩]
  | e@(.string _) => [⟨i, e.tag ++ "(" ++ e.source ++ ")"⟩]
  | e@(.name _) => [⟨i, e.tag ++ "(" ++ e.source ++ ")"⟩]
  | e@.hole => [⟨i, e.tag ++ "(" ++ e.source ++ ")"⟩]

def Statement.outline (i : Nat) : Statement → List OutlineLine
  | .binding n e => ⟨i, "LET " ++ n⟩ :: e.outline (i + 1)
  | .ret e => ⟨i, "RETURN"⟩ :: e.outline (i + 1)
  | .expression e => e.outline i
  | .block ss => ⟨i, "BLOCK"⟩ :: Statement.outlines (i + 1) ss
  | s@.hole => [⟨i, s.tag ++ "(" ++ s.source ++ ")"⟩]

def Expression.outlines (i : Nat) : List Expression → List OutlineLine
  | [] => []
  | e :: es => e.outline i ++ Expression.outlines i es

def Statement.outlines (i : Nat) : List Statement → List OutlineLine
  | [] => []
  | s :: ss => s.outline i ++ Statement.outlines i ss

end

def Program.outline (p : Program) : List OutlineLine :=
  ⟨0, "PROGRAM"⟩ :: Statement.outlines 1 p.statements

def renderOutline (ls : List OutlineLine) : String :=
  String.join (ls.map OutlineLine.render)

def Node.outline? : Node → Option (List OutlineLine)
  | .program p => some p.outline
  | .statement s => some (s.outline 0)
  | .expression e => some (e.outline 0)
  | .missing => none

end Monkey
