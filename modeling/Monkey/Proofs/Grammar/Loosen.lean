import Monkey.Proofs.Grammar.Complete

/-!
# Looser levels

An expression of a level is an expression of every looser level. Above a floor the reader reads
expressions of one level, and the operators above the floor belong to this level or to a tighter
one.
-/

namespace Monkey.Grammar

set_option autoImplicit false

open Reader (Precedence)

namespace Level

/-- How many levels are looser. -/
def height : Level → Nat
  | equality => 0
  | comparison => 1
  | sum => 2
  | product => 3
  | unary => 4
  | call => 5
  | atom => 6

theorem repeat_tighter {p q : Level} (h : q.height ≤ p.height) :
    Nat.repeat tighter (p.height - q.height) q = p := by
  revert h
  cases p <;> cases q <;> decide

/-- Only of atoms and calls the ranks do not tell which of them is looser. -/
theorem height_le {p q : Level} (h : q.rank ≤ p.rank) (hq : q ≠ atom) : q.height ≤ p.height := by
  revert h hq
  cases p <;> cases q <;> decide

theorem ne_atom_of_mem {p : Level} {k : Token.Kind} (h : k ∈ p.operators) : p ≠ atom := by
  rintro rfl
  exact absurd h List.not_mem_nil

/-- The operands of every operator are looser than calls, or calls. -/
theorem height_le_call {p : Level} {k : Token.Kind} (h : k ∈ p.operators) :
    p.height ≤ call.height ∧ p.tighter.height ≤ call.height := by
  revert k
  cases p <;> decide

end Level

theorem Expression.loosen_repeat {q : Level} {ts rest : List Token} {e : Monkey.Expression}
    (n : Nat) (h : Expression (Nat.repeat Level.tighter n q) ts e rest) :
    Expression q ts e rest := by
  induction n with
  | zero => exact h
  | succ n ih => exact ih (.tighter h)

theorem Expression.loosen {p q : Level} {ts rest : List Token} {e : Monkey.Expression}
    (h : Expression p ts e rest) (hq : q.height ≤ p.height) : Expression q ts e rest := by
  rw [← Level.repeat_tighter hq] at h
  exact loosen_repeat _ h

end Monkey.Grammar

namespace Monkey.Reader.Precedence

set_option autoImplicit false

open Grammar (Level)

/-- The level of the expressions that are read above a floor. -/
def level : Precedence → Level
  | lowest => .equality
  | equality => .comparison
  | comparison => .sum
  | sum => .product
  | product => .unary
  | unary => .unary
  | call => .unary

theorem one_le_rank (p : Precedence) : 1 ≤ p.rank := by cases p <;> decide

theorem rank_le (p : Precedence) : p.rank ≤ 7 := by cases p <;> decide

theorem level_height_le (floor : Precedence) {p : Level} (h : floor.rank < p.rank) :
    floor.level.height ≤ p.height := by
  revert h
  cases floor <;> cases p <;> decide

theorem level_height_le_unary (floor : Precedence) :
    floor.level.height ≤ Level.unary.height := by
  cases floor <;> decide

/-- What binds at all and opens no call is an operator, whose right operand is of the next tighter
level. -/
theorem exists_operators {k : Token.Kind} (h : 1 < (ofKind k).rank) (hk : k ≠ .lparen) :
    ∃ p : Level, k ∈ p.operators ∧ (ofKind k).level = p.tighter := by
  revert h hk
  cases k with
  | eq | notEq => exact fun _ _ => ⟨.equality, by decide, rfl⟩
  | lt | gt => exact fun _ _ => ⟨.comparison, by decide, rfl⟩
  | plus | minus => exact fun _ _ => ⟨.sum, by decide, rfl⟩
  | asterisk | slash | percent => exact fun _ _ => ⟨.product, by decide, rfl⟩
  | lparen => exact fun _ hk => absurd rfl hk
  | _ => exact fun h _ => absurd h (Nat.lt_irrefl 1)

end Monkey.Reader.Precedence
