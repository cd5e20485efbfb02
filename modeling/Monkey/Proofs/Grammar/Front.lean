import Monkey.Proofs.Grammar.Basic
import Monkey.Reader.Basic

/-!
# What a phrase takes

A phrase takes tokens from the front of a list and leaves the others as they are; a phrase that is
not a sequence takes at least one. Only some kinds of token start a statement or an expression.
-/

namespace Monkey.Grammar

set_option autoImplicit false

/-- The second list is what is left of the first when some tokens are taken from its front. -/
def Leaves (ts rest : List Token) : Prop := rest <:+ ts ∧ rest.length < ts.length

section Leaves

variable {t : Token} {ts us rest : List Token}

theorem leaves_cons (t : Token) (ts : List Token) : Leaves (t :: ts) ts :=
  ⟨List.suffix_cons t ts, by simp⟩

theorem Leaves.trans (h : Leaves ts us) (hu : Leaves us rest) : Leaves ts rest :=
  ⟨hu.1.trans h.1, Nat.lt_trans hu.2 h.2⟩

theorem Leaves.cons (h : Leaves ts rest) : Leaves (t :: ts) rest := (leaves_cons t ts).trans h

theorem Leaves.tail (h : Leaves ts (t :: rest)) : Leaves ts rest := h.trans (leaves_cons t rest)

end Leaves

theorem Parameters.leaves {ts rest : List Token} {ns : List String} (h : Parameters ts ns rest) :
    Leaves ts rest := by
  induction h with
  | none _ => exact leaves_cons _ _
  | last _ _ => exact (leaves_cons _ _).cons
  | more _ _ _ _ ih => exact ih.cons.cons

mutual

theorem Expression.leaves {p : Level} {ts rest : List Token} {e : Monkey.Expression} :
    Expression p ts e rest → Leaves ts rest
  | .binary _ hl hr => hl.leaves.tail.trans hr.leaves
  | .tighter h => h.leaves
  | .unary _ h => h.leaves.cons
  | .call hf _ ha => hf.leaves.tail.trans ha.leaves
  | .name _ => leaves_cons _ _
  | .integer _ _ => leaves_cons _ _
  | .string _ => leaves_cons _ _
  | .yes _ => leaves_cons _ _
  | .no _ => leaves_cons _ _
  | .grouped _ h _ => h.leaves.tail.cons
  | .conditional _ hc ht => (hc.leaves.trans ht.leaves).cons
  | .alternative _ hc ht _ he => ((hc.leaves.trans ht.leaves.tail).trans he.leaves).cons
  | .function _ _ hp hb => (hp.leaves.trans hb.leaves).cons.cons

theorem Arguments.leaves {ts rest : List Token} {es : List Monkey.Expression} :
    Arguments ts es rest → Leaves ts rest
  | .none _ => leaves_cons _ _
  | .last h _ => h.leaves.tail
  | .more h _ hs _ => h.leaves.tail.trans hs.leaves

theorem Block.leaves {ts rest : List Token} {ss : List Statement} :
    Block ts ss rest → Leaves ts rest
  | .closed _ h _ => ⟨(List.suffix_cons _ _).trans (h.suffix.trans (List.suffix_cons _ _)), by
      have := h.suffix.length_le
      simp only [List.length_cons] at this ⊢
      omega⟩
  | .unclosed _ _ => ⟨List.nil_suffix, by simp⟩

theorem Clause.leaves {ts rest : List Token} {s : Statement} : Clause ts s rest → Leaves ts rest
  | .binding _ _ _ h => h.leaves.cons.cons.cons
  | .ret _ h => h.leaves.cons
  | .expression h => h.leaves

theorem Sequence.suffix {ts rest : List Token} {ss : List Statement} :
    Sequence ts ss rest → rest <:+ ts
  | .nil => List.suffix_rfl
  | .ended h _ hs => hs.suffix.trans h.leaves.tail.1
  | .unended h hs _ => hs.suffix.trans h.leaves.1

end

def starts : List Token.Kind :=
  [.ident, .int, .string, .trueKw, .falseKw, .bang, .minus, .lparen, .ifKw, .fn]

open Reader (nextKind)

theorem Expression.first {p : Level} {ts rest : List Token} {e : Monkey.Expression} :
    Expression p ts e rest → nextKind ts ∈ starts
  | .binary _ hl _ => hl.first
  | .tighter h => h.first
  | .unary hk _ => by rcases hk with hk | hk <;> simp [nextKind, starts, hk]
  | .call hf _ _ => hf.first
  | .name hk => by simp [nextKind, starts, hk]
  | .integer hk _ => by simp [nextKind, starts, hk]
  | .string hk => by simp [nextKind, starts, hk]
  | .yes hk => by simp [nextKind, starts, hk]
  | .no hk => by simp [nextKind, starts, hk]
  | .grouped hk _ _ => by simp [nextKind, starts, hk]
  | .conditional hk _ _ => by simp [nextKind, starts, hk]
  | .alternative hk _ _ _ _ => by simp [nextKind, starts, hk]
  | .function hk _ _ _ => by simp [nextKind, starts, hk]

theorem Arguments.first {ts rest : List Token} {es : List Monkey.Expression}
    (h : Arguments ts es rest) (hes : es ≠ []) : nextKind ts ∈ starts := by
  cases h with
  | none _ => exact absurd rfl hes
  | last h _ => exact h.first
  | more h _ _ _ => exact h.first

theorem Block.first {ts rest : List Token} {ss : List Statement} (h : Block ts ss rest) :
    nextKind ts = .lbrace := by
  cases h with
  | closed hk _ _ => exact hk
  | unclosed hk _ => exact hk

theorem Clause.first {ts rest : List Token} {s : Statement} (h : Clause ts s rest) :
    nextKind ts ∈ .letKw :: .returnKw :: starts := by
  cases h with
  | binding hk _ _ _ => simp [nextKind, hk]
  | ret hk _ => simp [nextKind, hk]
  | expression h => exact List.mem_cons_of_mem _ (List.mem_cons_of_mem _ h.first)

theorem Sequence.first {ts rest : List Token} {ss : List Statement} (h : Sequence ts ss rest)
    (hs : ss ≠ []) : nextKind ts ∈ .letKw :: .returnKw :: starts := by
  cases h with
  | nil => exact absurd rfl hs
  | ended h _ _ => exact h.first
  | unended h _ _ => exact h.first

end Monkey.Grammar
