import Monkey.Text.Blank

/-!
# Lines

Cutting text into lines, and cutting a line short.
-/

namespace Monkey.Text

set_option autoImplicit false

/-- Makes every line end in a single line feed, whichever of the three usual ways it ended in. -/
def unifyNewlines : List Char → List Char
  | [] => []
  | ['\r'] => ['\n']
  | '\r' :: '\n' :: cs => '\n' :: unifyNewlines cs
  | '\r' :: c :: cs => '\n' :: unifyNewlines (c :: cs)
  | c :: cs => c :: unifyNewlines cs

/-- The lines of a text without their line feeds. A last line needs no line feed. -/
def splitLines (cs : List Char) : List (List Char) :=
  match cs.getLast? with
  | none => []
  | some '\n' => cs.dropLast.splitOn '\n'
  | some _ => cs.splitOn '\n'

def inputLines (text : String) : List String :=
  (splitLines (unifyNewlines text.toList)).map String.ofList

def after? (beginning text : String) : Option String :=
  (beginning.toList.isPrefixOf? text.toList).map String.ofList

/-- A text as one line of at most sixty characters; three dots stand for what is cut off. -/
def onOneLine (text : String) : String :=
  let cs := text.toList.map fun c => if c = '\n' then ' ' else c
  if 60 < cs.length then String.ofList (cs.take 57) ++ "..." else String.ofList cs

end Monkey.Text
