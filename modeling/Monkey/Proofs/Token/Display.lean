import Monkey.Proofs.Token.Boundary
import Monkey.Proofs.Token.Longest

/-!
# Tokens on one line

A token of a text is shown by its own characters, and an illegal one by its character and a name.
None of these is a line feed: where a token could start a line feed is a blank, and no token reaches
over one.
-/

namespace Monkey.Token

set_option autoImplicit false

theorem Means.literal_eq {cs : List Char} {k : Kind} {s : String} (h : Means cs k s)
    (hk : k ≠ .string) : s = String.ofList cs := by
  cases h with
  | string hbody => exact absurd rfl hk
  | number hplain => rfl
  | keyword hmem => exact String.ofList_toList.symm
  | name hname => exact String.ofList_toList.symm
  | operator hmem => exact String.ofList_toList.symm

theorem lexeme_literal_eq (c : Char) (cs : List Char) (hk : (lexeme c cs).1.kind ≠ .string) :
    (lexeme c cs).1.literal = String.ofList (lexeme c cs).1.text := by
  rcases lexeme_longest c cs with hlongest | ⟨-, hillegal⟩
  · exact ((hlongest.means _ _).mpr ⟨rfl, rfl⟩).literal_eq hk
  · rw [hillegal]

theorem newline_not_mem_lexeme {c : Char} (hc : c ≠ '\n') (cs : List Char) :
    '\n' ∉ (lexeme c cs).1.text := by
  have hfree : ∀ as, '\n' ∉ as → '\n' ∉ (lexeme c as).1.text := by
    intro as has hmem
    have hall : '\n' ∈ c :: as := by
      rw [← lexeme_append c as]
      exact List.mem_append_left _ hmem
    exact (List.mem_cons.mp hall).elim (fun he => hc he.symm) has
  -- up to the first line feed the text is cut as if it ended there
  by_cases hmem : '\n' ∈ cs
  · obtain ⟨as, bs, rfl, has⟩ := List.eq_append_cons_of_mem hmem
    rw [lexeme_line]
    exact hfree as has
  · exact hfree cs hmem

theorem newline_not_mem_display_token {l : Lexeme} (hliteral : l.kind ≠ .string →
    l.literal = String.ofList l.text) (hl : '\n' ∉ l.text) (file : String) (here : Position) :
    '\n' ∉ (l.token file here).display.toList := by
  have hother : l.kind ≠ .string → '\n' ∉ l.literal.toList := by
    intro hk
    rwa [hliteral hk, String.toList_ofList]
  unfold display
  split
  · rwa [Lexeme.token, String.toList_ofList]
  · next hk =>
    have hk : l.kind = .illegal := hk
    simpa [Lexeme.token] using hother (by simp [hk])
  · decide
  · next hk _ _ => exact hother hk

theorem newline_not_mem_display {text file : String} {t : Token} (ht : t ∈ scan text file) :
    '\n' ∉ t.display.toList := by
  by_cases hk : t.kind = .eof
  · have hend : t.display = "EOF" := by rw [display, hk]
    rw [hend]
    decide
  · obtain ⟨before, c, cs, -, hb, rfl⟩ := exists_lexeme_of_mem file [] text.toList ht hk
    have hc : c ≠ '\n' := by
      rintro rfl
      exact absurd hb (by decide)
    exact newline_not_mem_display_token (lexeme_literal_eq c cs) (newline_not_mem_lexeme hc cs)
      file _

end Monkey.Token
