import Monkey.Program.Basic

/-!
# Heights, and trees without functions

The height of a tree is the number of its levels: the least depth that the tree fits in. A function
in a tree is one that is written in it.
-/

namespace Monkey

set_option autoImplicit false

mutual

/-- The number of levels of an expression. -/
def Expression.height : Expression → Nat
  | .integer _ => 1
  | .boolean _ => 1
  | .string _ => 1
  | .name _ => 1
  | .unary _ e => e.height + 1
  | .binary l _ r => max l.height r.height + 1
  | .conditional c t none => max c.height (Statement.heights t) + 1
  | .conditional c t (some e) =>
    max (max c.height (Statement.heights t)) (Statement.heights e) + 1
  | .function _ body => Statement.heights body + 1
  | .call f args => max f.height (Expression.heights args) + 1
  | .hole => 1

def Statement.height : Statement → Nat
  | .binding _ e => e.height + 1
  | .ret e => e.height + 1
  | .expression e => e.height + 1
  | .block ss => Statement.heights ss + 1
  | .hole => 1

def Expression.heights : List Expression → Nat
  | [] => 0
  | e :: es => max e.height (Expression.heights es)

def Statement.heights : List Statement → Nat
  | [] => 0
  | s :: ss => max s.height (Statement.heights ss)

end

def Program.height (p : Program) : Nat := Statement.heights p.statements

theorem Expression.all_fits_iff {d : Nat} (h : ∀ e : Expression, e.fits d = true ↔ e.height ≤ d)
    (es : List Expression) : es.all (Expression.fits d) = true ↔ heights es ≤ d := by
  induction es with
  | nil => simp [heights]
  | cons e es ih => rw [List.all_cons, Bool.and_eq_true, h e, ih, heights, Nat.max_le]

theorem Statement.all_fits_iff {d : Nat} (h : ∀ s : Statement, s.fits d = true ↔ s.height ≤ d)
    (ss : List Statement) : ss.all (Statement.fits d) = true ↔ heights ss ≤ d := by
  induction ss with
  | nil => simp [heights]
  | cons s ss ih => rw [List.all_cons, Bool.and_eq_true, h s, ih, heights, Nat.max_le]

/-- By induction on the depth, one kind of tree after the other. -/
theorem fits_iff_height (d : Nat) :
    (∀ e : Expression, e.fits d = true ↔ e.height ≤ d) ∧
      ∀ s : Statement, s.fits d = true ↔ s.height ≤ d := by
  induction d with
  | zero =>
    constructor
    · intro e
      cases e with
      | conditional c t a => cases a <;> simp [Expression.fits, Expression.height]
      | _ => simp [Expression.fits, Expression.height]
    · intro s
      cases s <;> simp [Statement.fits, Statement.height]
  | succ d ih =>
    obtain ⟨hexpression, hstatement⟩ := ih
    have hexpressions := Expression.all_fits_iff hexpression
    have hstatements := Statement.all_fits_iff hstatement
    constructor
    · intro e
      cases e with
      | conditional c t a =>
        cases a <;> simp only [Expression.fits, Expression.height, Bool.and_eq_true, hexpression,
          hstatements, Nat.add_le_add_iff_right, Nat.max_le]
      | binary l op r =>
        simp only [Expression.fits, Expression.height, Bool.and_eq_true, hexpression,
          Nat.add_le_add_iff_right, Nat.max_le]
      | call f args =>
        simp only [Expression.fits, Expression.height, Bool.and_eq_true, hexpression, hexpressions,
          Nat.add_le_add_iff_right, Nat.max_le]
      | _ =>
        simp [Expression.fits, Expression.height, hexpression, hstatements, -List.all_eq_true]
    · intro s
      cases s <;>
        simp [Statement.fits, Statement.height, hexpression, hstatements, -List.all_eq_true]

theorem Statement.fits_mono {d d' : Nat} (s : Statement) (h : d ≤ d') (hs : s.fits d = true) :
    s.fits d' = true :=
  ((fits_iff_height d').2 s).mpr (Nat.le_trans (((fits_iff_height d).2 s).mp hs) h)

theorem Program.fits_iff_height (p : Program) (d : Nat) : p.fits d = true ↔ p.height ≤ d :=
  Statement.all_fits_iff (Monkey.fits_iff_height d).2 p.statements

mutual

def Expression.hasFunction : Expression → Bool
  | .integer _ => false
  | .boolean _ => false
  | .string _ => false
  | .name _ => false
  | .unary _ e => e.hasFunction
  | .binary l _ r => l.hasFunction || r.hasFunction
  | .conditional c t none => c.hasFunction || Statement.anyFunction t
  | .conditional c t (some e) =>
    c.hasFunction || (Statement.anyFunction t || Statement.anyFunction e)
  | .function _ _ => true
  | .call f args => f.hasFunction || Expression.anyFunction args
  | .hole => false

def Statement.hasFunction : Statement → Bool
  | .binding _ e => e.hasFunction
  | .ret e => e.hasFunction
  | .expression e => e.hasFunction
  | .block ss => Statement.anyFunction ss
  | .hole => false

def Expression.anyFunction : List Expression → Bool
  | [] => false
  | e :: es => e.hasFunction || Expression.anyFunction es

def Statement.anyFunction : List Statement → Bool
  | [] => false
  | s :: ss => s.hasFunction || Statement.anyFunction ss

end

def Program.hasFunction (p : Program) : Bool := Statement.anyFunction p.statements

theorem Expression.hasFunction_of_mem {es : List Expression} (h : anyFunction es = false) :
    ∀ e ∈ es, e.hasFunction = false := by
  induction es with
  | nil => exact fun _ he => absurd he List.not_mem_nil
  | cons e es ih =>
    rw [anyFunction, Bool.or_eq_false_iff] at h
    exact List.forall_mem_cons.mpr ⟨h.1, ih h.2⟩

theorem Statement.hasFunction_of_mem {ss : List Statement} (h : anyFunction ss = false) :
    ∀ s ∈ ss, s.hasFunction = false := by
  induction ss with
  | nil => exact fun _ hs => absurd hs List.not_mem_nil
  | cons s ss ih =>
    rw [anyFunction, Bool.or_eq_false_iff] at h
    exact List.forall_mem_cons.mpr ⟨h.1, ih h.2⟩

end Monkey
