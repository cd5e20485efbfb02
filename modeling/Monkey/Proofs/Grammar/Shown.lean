import Monkey.Proofs.Grammar.Recovered
import Monkey.Value

/-!
# Functions that are shown

The text of a function has its body on lines of its own. Nothing else sets it apart from the way in
which a function is written in a program, so it is read as that function.
-/

namespace Monkey.Grammar

set_option autoImplicit false

open Token (Apart IsName apart_cons)

theorem Spells.between_lines {P : List Token → List Token → Prop} {as : List Char}
    (h : Spells Apart P as) : Spells Apart P ("\n".toList ++ (as ++ "\n".toList)) := by
  have hline : Spells Free Eq "\n".toList := spells_blank (by decide)
  have hbehind := h.append hline.free fun rest (_ : Apart rest) => apart_cons rest (by decide)
  apply (hline.followed hbehind).imp
  rintro _ rest ⟨_, rfl, _, hp, rfl⟩
  exact hp

/-- The text of a function that can be written is read as a program of this function only, by every
reader that may go deep enough. -/
theorem readText_text? {ps : List String} {body : List Statement}
    (h : (Monkey.Expression.function ps body).WellFormed) {scope : Nat} {text : String}
    (ht : (Value.function ps body scope).text? = some text) (file : String) {depth : Nat}
    (hd : 2 * text.length + 1 ≤ depth) :
    Reader.readText depth text file = ⟨[.expression (.function ps body)], [], none⟩ := by
  cases h with
  | function hps hbody =>
    have hsequence := spells_sequence spells_space fun s hs =>
      spellsStatement_of_wellFormed (hbody s hs)
    have hblock : Spells Free (fun ts rest => Block ts body rest)
        (braced ("\n" ++ Statement.blockSource body ++ "\n")).toList := by
      apply spells_braced
      rw [String.toList_append, String.toList_append, List.append_assoc]
      exact hsequence.between_lines
    have hfunction := spells_function_of_block hps hblock
    cases ht
    refine Spells.readText_eq (hfunction.imp fun ts rest hts => ?_) file hd
    exact .unended (.expression (hts.loosen (Nat.zero_le _))) .nil fun hne => absurd rfl hne

/-- A string with a closing brace and a line feed in it, and a function without a body. -/
example : (Value.function ["a", "b"] [.binding "s" (.string "\x7d\n"),
      .expression (.function [] [])] 7).text? =
    some "fn(a, b) \x7b\nlet s = \"\x7d\\n\"; fn() \x7b\x7d\n\x7d" := by
  decide

end Monkey.Grammar
