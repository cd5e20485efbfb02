import Monkey.Program.Basic

/-!
# Returns in trees

A return belongs to the innermost function around it. The returns that stand inside the functions of
a tree are not returns of the tree.
-/

namespace Monkey

set_option autoImplicit false

mutual

/-- Does a return stand in the expression, outside the functions in it? -/
def Expression.returns : Expression → Bool
  | .integer _ => false
  | .boolean _ => false
  | .string _ => false
  | .name _ => false
  | .unary _ e => e.returns
  | .binary l _ r => l.returns || r.returns
  | .conditional c t none => c.returns || Statement.anyReturns t
  | .conditional c t (some e) =>
    c.returns || (Statement.anyReturns t || Statement.anyReturns e)
  | .function _ _ => false
  | .call f args => f.returns || Expression.anyReturns args
  | .hole => false

/-- Is the statement a return, or does one stand in it, outside the functions in it? -/
def Statement.returns : Statement → Bool
  | .binding _ e => e.returns
  | .ret _ => true
  | .expression e => e.returns
  | .block ss => Statement.anyReturns ss
  | .hole => false

def Expression.anyReturns : List Expression → Bool
  | [] => false
  | e :: es => e.returns || Expression.anyReturns es

def Statement.anyReturns : List Statement → Bool
  | [] => false
  | s :: ss => s.returns || Statement.anyReturns ss

end

theorem Statement.anyReturns_eq_any (ss : List Statement) :
    anyReturns ss = ss.any Statement.returns := by
  induction ss with
  | nil => rfl
  | cons s ss ih => rw [anyReturns, List.any_cons, ih]

theorem Expression.anyReturns_eq_any (es : List Expression) :
    anyReturns es = es.any Expression.returns := by
  induction es with
  | nil => rfl
  | cons e es ih => rw [anyReturns, List.any_cons, ih]

theorem Statement.returns_eq_false_of_mem {ss : List Statement} (h : anyReturns ss = false) :
    ∀ s ∈ ss, s.returns = false := by
  rw [anyReturns_eq_any, List.any_eq_false] at h
  intro s hs
  exact Bool.eq_false_iff.mpr (h s hs)

theorem Expression.returns_eq_false_of_mem {es : List Expression} (h : anyReturns es = false) :
    ∀ e ∈ es, e.returns = false := by
  rw [anyReturns_eq_any, List.any_eq_false] at h
  intro e he
  exact Bool.eq_false_iff.mpr (h e he)

end Monkey
