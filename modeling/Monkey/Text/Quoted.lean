/-!
# Quoted strings

The written form of a string: double quotes around it, and a backslash before each of the six
characters that would end it, break the line or be lost. Reading leaves a backslash alone when
what follows it is no escape.
-/

namespace Monkey.Text.Quoted

set_option autoImplicit false

/-- The letter that stands for a character after a backslash. -/
def letter? : Char → Option Char
  | '\\' => some '\\'
  | '"' => some '"'
  | '\n' => some 'n'
  | '\t' => some 't'
  | '\r' => some 'r'
  | '\x00' => some '0'
  | _ => none

def meaning? : Char → Option Char
  | '\\' => some '\\'
  | '"' => some '"'
  | 'n' => some '\n'
  | 't' => some '\t'
  | 'r' => some '\r'
  | '0' => some '\x00'
  | _ => none

def escape (c : Char) : List Char :=
  match letter? c with
  | some l => ['\\', l]
  | none => [c]

def encode (cs : List Char) : List Char :=
  cs.flatMap escape

def decode : List Char → List Char
  | [] => []
  | [c] => [c]
  | c :: l :: rest =>
    if c = '\\' then
      match meaning? l with
      | some m => m :: decode rest
      | none => c :: decode (l :: rest)
    else c :: decode (l :: rest)

/-- The string as it is written in a program. -/
def quote (s : String) : String :=
  String.ofList ('"' :: (encode s.toList ++ ['"']))

/-- The string that the text between two quotes stands for. -/
def unescape (s : String) : String :=
  String.ofList (decode s.toList)

theorem meaning?_of_letter? {c l : Char} (h : letter? c = some l) : meaning? l = some c := by
  unfold letter? at h
  split at h <;> cases h <;> rfl

end Monkey.Text.Quoted
