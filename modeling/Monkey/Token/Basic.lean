/-!
# Tokens

The kinds of token of the language, the places in a source text, and the tokens themselves with
the text they are shown as in messages.
-/

namespace Monkey

set_option autoImplicit false

namespace Token

/-- What a token is. A token that was not scanned from text may have a kind of its own. -/
inductive Kind where
  | illegal | eof | ident | int | string
  | assign | bang | plus | minus | asterisk | slash | percent
  | eq | notEq | lt | gt
  | comma | semicolon | lparen | rparen | lbrace | rbrace
  | fn | letKw | trueKw | falseKw | ifKw | elseKw | returnKw
  | other (tag : String)
  deriving Repr, DecidableEq, Inhabited

namespace Kind

/-- The name of a kind: operators, brackets and keywords are named by themselves. -/
def tag : Kind → String
  | illegal => "ILLEGAL"
  | eof => "EOF"
  | ident => "IDENT"
  | int => "INT"
  | string => "STRING"
  | assign => "="
  | bang => "!"
  | plus => "+"
  | minus => "-"
  | asterisk => "*"
  | slash => "/"
  | percent => "%"
  | eq => "=="
  | notEq => "!="
  | lt => "<"
  | gt => ">"
  | comma => ","
  | semicolon => ";"
  | lparen => "("
  | rparen => ")"
  | lbrace => "\x7b"
  | rbrace => "\x7d"
  | fn => "fn"
  | letKw => "let"
  | trueKw => "true"
  | falseKw => "false"
  | ifKw => "if"
  | elseKw => "else"
  | returnKw => "return"
  | other t => t

def all : List Kind :=
  [illegal, eof, ident, int, string, assign, bang, plus, minus, asterisk, slash, percent, eq,
    notEq, lt, gt, comma, semicolon, lparen, rparen, lbrace, rbrace, fn, letKw, trueKw, falseKw,
    ifKw, elseKw, returnKw]

def keywords : List Kind :=
  [elseKw, falseKw, fn, ifKw, letKw, returnKw, trueKw]

/-- The kind with a given name; a name of no kind makes a kind of its own. -/
def ofTag (t : String) : Kind :=
  (all.find? fun k => k.tag == t).getD (other t)

def ofWord (w : String) : Kind :=
  (keywords.find? fun k => k.tag == w).getD ident

theorem ofWord_eq_ident {w : String} (h : ∀ k ∈ keywords, k.tag ≠ w) : ofWord w = ident := by
  have : keywords.find? (fun k => k.tag == w) = none := by
    simpa [List.find?_eq_none] using h
  simp [ofWord, this]

end Kind

/-- A place in a text: lines and columns count from one. -/
structure Position where
  line : Int
  column : Int
  deriving Repr, DecidableEq

namespace Position

def start : Position := ⟨1, 1⟩

/-- The place after one character. Only a line feed ends a line. -/
def advance (p : Position) (c : Char) : Position :=
  if c = '\n' then ⟨p.line + 1, 1⟩ else ⟨p.line, p.column + 1⟩

def after (p : Position) (cs : List Char) : Position :=
  cs.foldl advance p

@[simp] theorem after_nil (p : Position) : p.after [] = p := rfl

@[simp] theorem after_cons (p : Position) (c : Char) (cs : List Char) :
    p.after (c :: cs) = (p.advance c).after cs := rfl

@[simp] theorem after_append (p : Position) (as bs : List Char) :
    p.after (as ++ bs) = (p.after as).after bs := by
  simp [after]

end Position

/-- A stretch of a source text and the characters in it. -/
structure Span where
  file : String
  first : Position
  last : Position
  text : String
  deriving Repr, DecidableEq

/-- Within one line the end is a column only. -/
def Span.render (s : Span) : String :=
  let head := s.file ++ ":" ++ toString s.first.line ++ ":" ++ toString s.first.column ++ "-"
  if s.first.line = s.last.line then head ++ toString s.last.column
  else head ++ toString s.last.line ++ ":" ++ toString s.last.column

end Token

/-- A token: its kind, what it stands for, and where it was found. -/
structure Token where
  kind : Token.Kind
  literal : String
  span : Option Token.Span
  deriving Repr, DecidableEq

namespace Token

def endOfInput : Token := ⟨.eof, "", none⟩

/-- How a message shows the token: a string as it was written, an illegal character by name. -/
def display (t : Token) : String :=
  match t.kind with
  | .string =>
    match t.span with
    | some s => s.text
    | none => "\"" ++ t.literal ++ "\""
  | .illegal => "ILLEGAL(" ++ t.literal ++ ")"
  | .eof => "EOF"
  | _ => t.literal

end Token

end Monkey
