import Monkey.Proofs.Grammar.Sound

/-!
# What is read is what the grammar derives

A program is read from a list of tokens, without an error, exactly where the grammar derives it, and
the grammar derives at most one.
-/

namespace Monkey.Grammar

set_option autoImplicit false

open Reader
open Token (front)

section Recognition

variable {ts : List Token} {z : Token} {p : Program}

theorem derives_of_readTokens (hts : Token.Legible ts) (hz : z.kind = .eof) {depth : Nat}
    (h : readTokens depth (ts ++ [z]) = ⟨p.statements, [], none⟩) : Derives ts p := by
  obtain ⟨ss, hss, hseq⟩ := statementsFrom_sound (faithful depth) (ts ++ [z]) []
    (readable_append_eof hts hz) (Nat.le_refl _) (congrArg Reading.errors h)
    (congrArg Reading.refusal h)
  rw [Token.front_append_eof (fun t ht => (hts t ht).1) hz] at hseq
  have he : p.statements = ss := (congrArg Reading.statements h).symm.trans hss
  rw [Derives, he]
  exact hseq

theorem Derives.readTokens_eq (h : Derives ts p) (hts : Token.Legible ts) (hz : z.kind = .eof)
    {depth : Nat} (hd : 2 * ts.length + 1 ≤ depth) :
    readTokens depth (ts ++ [z]) = ⟨p.statements, [], none⟩ := by
  have hfront := Token.front_append_eof (fun t ht => (hts t ht).1) hz
  obtain ⟨ys, hys, hchain⟩ := Sequence.complete h (readable_append_eof hts hz) hfront (.inr rfl)
    (d := depth) (by simpa using hd)
  exact hchain.statementsFrom [] (Nat.le_refl _) hys.nextKind

/-- A reader that may follow nested constructs deep enough reads what the grammar derives, no reader
reads anything else without an error, and what the grammar derives is unique. -/
theorem reads_iff_derives (hts : Token.Legible ts) (hz : z.kind = .eof) (p : Program) :
    (∀ depth, readTokens depth (ts ++ [z]) = ⟨p.statements, [], none⟩ → Derives ts p) ∧
      (∀ depth, 2 * ts.length + 1 ≤ depth →
        (readTokens depth (ts ++ [z]) = ⟨p.statements, [], none⟩ ↔ Derives ts p)) ∧
      ∀ q, Derives ts p → Derives ts q → p = q := by
  refine ⟨fun depth h => derives_of_readTokens hts hz h, fun depth hd => ?_, fun q hp hq => ?_⟩
  · exact ⟨derives_of_readTokens hts hz, fun h => h.readTokens_eq hts hz hd⟩
  · have hread := (hp.readTokens_eq hts hz (Nat.le_refl _)).symm.trans
      (hq.readTokens_eq hts hz (Nat.le_refl _))
    have hstatements := congrArg Reading.statements hread
    cases p
    cases q
    exact congrArg Program.mk hstatements

end Recognition

/-- Operators of one level group from the left, and the end of the input closes a block. -/
theorem derives_unclosed_difference :
    Derives [⟨.fn, "fn", none⟩, ⟨.lparen, "(", none⟩, ⟨.rparen, ")", none⟩,
      ⟨.lbrace, "\x7b", none⟩, ⟨.ident, "a", none⟩, ⟨.minus, "-", none⟩, ⟨.int, "1", none⟩,
      ⟨.minus, "-", none⟩, ⟨.ident, "b", none⟩]
      ⟨[.expression (.function [] [.expression
        (.binary (.binary (.name "a") "-" (.integer 1)) "-" (.name "b"))])]⟩ := by
  refine (reads_iff_derives (z := .endOfInput) ?_ rfl _).1 10 rfl
  simp only [Token.Legible, Text.Numeral.isPlain_iff_all]
  decide

end Monkey.Grammar
