import Monkey.Proofs.Grammar.Written
import Monkey.Proofs.Reader.WellFormed

/-!
# Recovered programs

What could be read of a text with errors is a program like any other: its own text is read as the
same program, without an error.
-/

namespace Monkey.Grammar

set_option autoImplicit false

/-- Whatever errors a text has, what was read of it is well-formed, and the text of what was read is
read as the same again, without an error, by every reader that may go deep enough. -/
theorem readText_recovered (depth : Nat) (text file : String) :
    (Reader.readText depth text file).program.WellFormed ∧
      ∀ file' depth',
        2 * (Reader.readText depth text file).program.source.length + 1 ≤ depth' →
        Reader.readText depth' (Reader.readText depth text file).program.source file' =
          ⟨(Reader.readText depth text file).statements, [], none⟩ := by
  have hwell := Reader.readText_wellFormed depth text file
  refine ⟨hwell, fun file' depth' hd => ?_⟩
  have hline : Spells Free Eq "\n".toList := spells_blank (by decide)
  have hs := spells_sequence hline fun s hs => spellsStatement_of_wellFormed (hwell s hs)
  exact Spells.readText_eq hs file' hd

/-- A binding without its sign, a condition without its end, and an open body. -/
theorem readText_recovered_unclosed :
    (Reader.readText 20 "let x 5; if (y fn(z) \x7b z" "").errors.length = 2 ∧
      Reader.readText 33 "5;\nfn(z) \x7bz\x7d" "" =
        ⟨(Reader.readText 20 "let x 5; if (y fn(z) \x7b z" "").statements, [], none⟩ := by
  refine ⟨by decide +kernel, ?_⟩
  have hsource : (Reader.readText 20 "let x 5; if (y fn(z) \x7b z" "").program.source =
      "5;\nfn(z) \x7bz\x7d" := by decide +kernel
  have hread := (readText_recovered 20 "let x 5; if (y fn(z) \x7b z" "").2 "" 33
  rw [hsource] at hread
  exact hread (by decide)

end Monkey.Grammar
