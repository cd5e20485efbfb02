import Monkey.Proofs.Token.Boundary
import Monkey.Proofs.Token.Layout

/-!
# Quoted strings in a text

The written form of a string tells by itself where it ends. A text that starts with it is cut behind
its closing quote whatever follows there, and what follows is cut as if it stood alone.
-/

namespace Monkey.Token

set_option autoImplicit false

open Text

theorem scanFrom_unplaced (file file' : String) (here here' : Position) (cs : List Char) :
    (scanFrom file here cs).map unplaced = (scanFrom file' here' cs).map unplaced := by
  rw [scanFrom_eq_words, scanFrom_eq_words, List.map_append, List.map_append,
    words_unplaced file file' here here']
  rfl

theorem exists_body_quote (s : String) :
    ∃ body, Quoted.quote s = "\"" ++ body ++ "\"" ∧ Quoted.unescape body = s := by
  refine ⟨String.ofList (Quoted.encode s.toList), ?_, ?_⟩
  · rw [← String.toList_inj, Quoted.toList_quote]
    simp
  · rw [Quoted.unescape, String.toList_ofList, Quoted.decode_encode, String.ofList_toList]

theorem scanFrom_quote (file : String) (here : Position) (s : String) (rest : List Char) :
    scanFrom file here ((Quoted.quote s).toList ++ rest) =
      ⟨.string, s, some ⟨file, here, here.after (Quoted.quote s).toList, Quoted.quote s⟩⟩ ::
        scanFrom file (here.after (Quoted.quote s).toList) rest := by
  have htext : String.ofList ('"' :: (Quoted.encode s.toList ++ ['"'])) = Quoted.quote s := rfl
  rw [Quoted.toList_quote, List.cons_append, List.append_assoc, List.singleton_append,
    scanFrom_lexeme file here _ (by decide), lexeme_quoted, Lexeme.token, htext,
    String.ofList_toList]

/-- Between its quotes a quoted string reads back as the string. In front of any text it is one
token, which stands for the string and reaches from the start of the text to the closing quote;
behind it come the tokens of the text as if it stood alone, apart from their places. -/
theorem scan_quote_append (s rest file : String) :
    (∃ body, Quoted.quote s = "\"" ++ body ++ "\"" ∧ Quoted.unescape body = s) ∧
      ∃ ts,
        scan (Quoted.quote s ++ rest) file =
          ⟨.string, s,
            some (.over file (Quoted.quote s ++ rest).toList 0 (Quoted.quote s).length)⟩ :: ts ∧
        ts.map unplaced = (scan rest file).map unplaced := by
  have hover := over_append file [] (Quoted.quote s).toList rest.toList
  rw [List.nil_append, List.length_nil, Nat.zero_add, String.ofList_toList, String.length_toList,
    ← String.toList_append] at hover
  refine ⟨exists_body_quote s, _, ?_, scanFrom_unplaced file file
    (Position.start.after (Quoted.quote s).toList) .start rest.toList⟩
  rw [hover, scan, String.toList_append, scanFrom_quote]
  rfl

/-- Neither a backslash at the end of the string nor a quote behind it moves the closing quote. -/
example : (scan (Quoted.quote "a\\" ++ "\"") "").map Token.literal = ["a\\", "\"", ""] := by
  decide +kernel

end Monkey.Token
