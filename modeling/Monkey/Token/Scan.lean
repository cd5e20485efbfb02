import Monkey.Text.Blank
import Monkey.Text.Quoted
import Monkey.Token.Basic

/-!
# Scanning

A text is cut into lexemes from left to right: blanks are dropped, the longest string literal,
number, word or operator is taken, and a character that starts none of them is a lexeme of its
own. No character other than a blank is lost (`lexeme_append`).
-/

namespace Monkey.Token

set_option autoImplicit false

/-- A kind, what it stands for, and the characters that were read for it. -/
structure Lexeme where
  kind : Kind
  literal : String
  text : List Char
  deriving Repr, DecidableEq

def isDigit (c : Char) : Bool :=
  '0' ≤ c && c ≤ '9'

def isNameStart (c : Char) : Bool :=
  ('A' ≤ c && c ≤ 'Z') || ('a' ≤ c && c ≤ 'z') || c == '_'

def isNameChar (c : Char) : Bool :=
  isNameStart c || isDigit c

/-- The body of a string literal whose opening quote has been read, and what follows its closing
quote. A backslash takes the next character with it; a line feed is never part of a string. -/
def stringBody? : List Char → Option (List Char × List Char)
  | [] => none
  | c :: cs =>
    if c = '"' then some ([], cs)
    else if c = '\n' then none
    else if c = '\\' then
      match cs with
      | [] => none
      | d :: ds =>
        if d = '\n' then none else (stringBody? ds).map fun p => (c :: d :: p.1, p.2)
    else (stringBody? cs).map fun p => (c :: p.1, p.2)

theorem stringBody?_append {cs body rest : List Char} (h : stringBody? cs = some (body, rest)) :
    body ++ '"' :: rest = cs := by
  fun_induction stringBody? cs generalizing body rest with
  | case1 => simp at h
  | case2 => simp_all
  | case3 => simp at h
  | case4 => simp at h
  | case5 => simp at h
  | case6 d ds _ _ _ ih =>
    obtain ⟨⟨b, r⟩, hb, he⟩ := Option.map_eq_some_iff.1 h
    simp only [Prod.mk.injEq] at he
    obtain ⟨rfl, rfl⟩ := he
    simp [ih hb]
  | case7 c cs _ _ _ ih =>
    obtain ⟨⟨b, r⟩, hb, he⟩ := Option.map_eq_some_iff.1 h
    simp only [Prod.mk.injEq] at he
    obtain ⟨rfl, rfl⟩ := he
    simp [ih hb]

def symbol? : Char → Option Kind
  | '=' => some .assign
  | '!' => some .bang
  | '+' => some .plus
  | '-' => some .minus
  | '*' => some .asterisk
  | '/' => some .slash
  | '%' => some .percent
  | '<' => some .lt
  | '>' => some .gt
  | ',' => some .comma
  | ';' => some .semicolon
  | '(' => some .lparen
  | ')' => some .rparen
  | '\x7b' => some .lbrace
  | '\x7d' => some .rbrace
  | _ => none

def symbolPair? : Char → Char → Option Kind
  | '=', '=' => some .eq
  | '!', '=' => some .notEq
  | _, _ => none

/-- The longest operator at the start of a text, or its first character as an illegal one. -/
def symbolLexeme (c : Char) (cs : List Char) : Lexeme × List Char :=
  match cs with
  | d :: ds =>
    match symbolPair? c d with
    | some k => (⟨k, k.tag, [c, d]⟩, ds)
    | none => (⟨(symbol? c).getD .illegal, String.ofList [c], [c]⟩, cs)
  | [] => (⟨(symbol? c).getD .illegal, String.ofList [c], [c]⟩, [])

/-- The lexeme that starts with `c`, and the text after it. -/
def lexeme (c : Char) (cs : List Char) : Lexeme × List Char :=
  if c = '"' then
    match stringBody? cs with
    | some (body, rest) =>
      (⟨.string, String.ofList (Text.Quoted.decode body), c :: (body ++ [c])⟩, rest)
    | none => symbolLexeme c cs
  else if isDigit c then
    let digits := c :: cs.takeWhile isDigit
    (⟨.int, String.ofList digits, digits⟩, cs.dropWhile isDigit)
  else if isNameStart c then
    let word := c :: cs.takeWhile isNameChar
    (⟨.ofWord (String.ofList word), String.ofList word, word⟩, cs.dropWhile isNameChar)
  else symbolLexeme c cs

theorem symbolLexeme_append (c : Char) (cs : List Char) :
    (symbolLexeme c cs).1.text ++ (symbolLexeme c cs).2 = c :: cs := by
  unfold symbolLexeme
  split
  · split <;> simp
  · simp

theorem lexeme_append (c : Char) (cs : List Char) :
    (lexeme c cs).1.text ++ (lexeme c cs).2 = c :: cs := by
  unfold lexeme
  split
  · next hc =>
    split
    · next h => subst hc; simp [stringBody?_append h]
    · exact symbolLexeme_append c cs
  · split
    · simp [List.takeWhile_append_dropWhile]
    · split
      · simp [List.takeWhile_append_dropWhile]
      · exact symbolLexeme_append c cs

theorem lexeme_text_ne_nil (c : Char) (cs : List Char) : (lexeme c cs).1.text ≠ [] := by
  unfold lexeme symbolLexeme
  repeat' split
  all_goals simp

theorem lexeme_rest_length (c : Char) (cs : List Char) : (lexeme c cs).2.length ≤ cs.length := by
  have h := congrArg List.length (lexeme_append c cs)
  have := List.length_pos_iff.2 (lexeme_text_ne_nil c cs)
  simp only [List.length_append, List.length_cons] at h
  omega

def Lexeme.token (l : Lexeme) (file : String) (here : Position) : Token :=
  ⟨l.kind, l.literal, some ⟨file, here, here.after l.text, String.ofList l.text⟩⟩

def eofAt (file : String) (here : Position) : Token :=
  ⟨.eof, "", some ⟨file, here, here, ""⟩⟩

/-- Scans a text, in front of which stand the tokens `done` in reverse. -/
def scanOnto (file : String) (done : List Token) (here : Position) :
    List Char → List Token
  | [] => (eofAt file here :: done).reverse
  | c :: cs =>
    if Text.isBlank c then scanOnto file done (here.advance c) cs
    else
      scanOnto file ((lexeme c cs).1.token file here :: done)
        (here.after (lexeme c cs).1.text) (lexeme c cs).2
termination_by cs => cs.length
decreasing_by
  · simp
  · have := lexeme_rest_length c cs
    simp only [List.length_cons]
    omega

/-- The tokens of a text whose first character is at `here`, with the end of the file last. -/
def scanFrom (file : String) (here : Position) (cs : List Char) : List Token :=
  scanOnto file [] here cs

theorem scanOnto_eq (file : String) (done : List Token) (here : Position) :
    (cs : List Char) → scanOnto file done here cs = done.reverse ++ scanFrom file here cs
  | [] => by simp [scanFrom, scanOnto]
  | c :: cs => by
    have := lexeme_rest_length c cs
    rw [scanFrom, scanOnto, scanOnto]
    split
    · exact scanOnto_eq file done _ cs
    · rw [scanOnto_eq file (_ :: done), scanOnto_eq file [_]]
      simp
termination_by cs => cs.length

theorem scanFrom_nil (file : String) (here : Position) :
    scanFrom file here [] = [eofAt file here] := by
  simp [scanFrom, scanOnto]

theorem scanFrom_blank (file : String) (here : Position) {c : Char} (cs : List Char)
    (h : Text.isBlank c = true) :
    scanFrom file here (c :: cs) = scanFrom file (here.advance c) cs := by
  rw [scanFrom, scanOnto]
  simp [h, scanFrom]

theorem scanFrom_lexeme (file : String) (here : Position) {c : Char} (cs : List Char)
    (h : Text.isBlank c = false) :
    scanFrom file here (c :: cs) =
      (lexeme c cs).1.token file here ::
        scanFrom file (here.after (lexeme c cs).1.text) (lexeme c cs).2 := by
  rw [scanFrom, scanOnto]
  simp [h, scanOnto_eq]

def scan (text file : String) : List Token :=
  scanFrom file .start text.toList

end Monkey.Token
