import Monkey.Program.Basic

/-!
# Comparing programs

Two trees are compared from the left, part by part, and the first difference decides. The comparison
gives up when it would have to go deeper than a given number of levels.
-/

namespace Monkey

set_option autoImplicit false

def andSame (first : Option Bool) (second : Unit → Option Bool) : Option Bool :=
  match first with
  | some true => second ()
  | other => other

/-- Compares item by item; of two lists that agree as far as both go, the shorter one differs. -/
def sameItems {α : Type} (same : α → α → Option Bool) : List α → List α → Option Bool
  | [], [] => some true
  | a :: as, b :: bs => andSame (same a b) fun _ => sameItems same as bs
  | _, _ => some false

mutual

def Expression.sameWithin : Nat → Expression → Expression → Option Bool
  | 0, _, _ => none
  | d + 1, a, b =>
    match a, b with
    | .integer m, .integer n => some (m == n)
    | .boolean m, .boolean n => some (m == n)
    | .string m, .string n => some (m == n)
    | .name m, .name n => some (m == n)
    | .unary o e, .unary p f => andSame (some (o == p)) fun _ => e.sameWithin d f
    | .binary l o r, .binary m p s =>
      andSame (l.sameWithin d m) fun _ => andSame (some (o == p)) fun _ => r.sameWithin d s
    | .conditional c t e, .conditional c' t' e' =>
      andSame (c.sameWithin d c') fun _ =>
        andSame (sameItems (Statement.sameWithin d) t t') fun _ =>
          match e, e' with
          | none, none => some true
          | some e, some e' => sameItems (Statement.sameWithin d) e e'
          | _, _ => some false
    | .function ps body, .function qs body' =>
      andSame (some (ps == qs)) fun _ => sameItems (Statement.sameWithin d) body body'
    | .call f as, .call g bs =>
      andSame (f.sameWithin d g) fun _ => sameItems (Expression.sameWithin d) as bs
    | .hole, .hole => some true
    | _, _ => some false

def Statement.sameWithin : Nat → Statement → Statement → Option Bool
  | 0, _, _ => none
  | d + 1, a, b =>
    match a, b with
    | .binding m e, .binding n f => andSame (some (m == n)) fun _ => e.sameWithin d f
    | .ret e, .ret f => e.sameWithin d f
    | .expression e, .expression f => e.sameWithin d f
    | .block ss, .block ts => sameItems (Statement.sameWithin d) ss ts
    | .hole, .hole => some true
    | _, _ => some false

end

/-- Are two programs the same tree? No answer where that would take more than `d` levels. -/
def Program.sameWithin (d : Nat) (p q : Program) : Option Bool :=
  sameItems (Statement.sameWithin d) p.statements q.statements

end Monkey
