import Monkey.Program.Basic

/-!
# Integers in trees

The integers that are written in a tree, from left to right.
-/

namespace Monkey

set_option autoImplicit false

mutual

def Expression.integers : Expression → List Int
  | .integer n => [n]
  | .boolean _ => []
  | .string _ => []
  | .name _ => []
  | .unary _ e => e.integers
  | .binary l _ r => l.integers ++ r.integers
  | .conditional c t none => c.integers ++ Statement.allIntegers t
  | .conditional c t (some e) =>
    c.integers ++ (Statement.allIntegers t ++ Statement.allIntegers e)
  | .function _ body => Statement.allIntegers body
  | .call f args => f.integers ++ Expression.allIntegers args
  | .hole => []

def Statement.integers : Statement → List Int
  | .binding _ e => e.integers
  | .ret e => e.integers
  | .expression e => e.integers
  | .block ss => Statement.allIntegers ss
  | .hole => []

def Expression.allIntegers : List Expression → List Int
  | [] => []
  | e :: es => e.integers ++ Expression.allIntegers es

def Statement.allIntegers : List Statement → List Int
  | [] => []
  | s :: ss => s.integers ++ Statement.allIntegers ss

end

def Program.integers (p : Program) : List Int := Statement.allIntegers p.statements

theorem Expression.allIntegers_concat (es : List Expression) (e : Expression) :
    allIntegers (es ++ [e]) = allIntegers es ++ e.integers := by
  induction es with
  | nil => simp [allIntegers]
  | cons f es ih => simp [allIntegers, ih]

theorem Statement.allIntegers_append (ss us : List Statement) :
    allIntegers (ss ++ us) = allIntegers ss ++ allIntegers us := by
  induction ss with
  | nil => rfl
  | cons s ss ih => simp [allIntegers, ih]

end Monkey
