import Monkey.Text.Blank
import Monkey.Text.Digit

/-!
# Numerals

Reading an integer from text: blanks at both ends, one optional sign, then decimal digits of any
scripts, with single underscores allowed between two digits. A numeral of more than `maxDigits`
digits is refused whatever its value, leading zeros included, so that reading stays cheap.
-/

namespace Monkey.Text.Numeral

set_option autoImplicit false

inductive Error where
  | malformed
  | tooLong (digits : Nat)
  deriving Repr, DecidableEq

/-- The longest numeral that is read. -/
def maxDigits : Nat := 4300

def Error.message : Error → String
  | malformed => "malformed numeral"
  | tooLong n =>
    "Exceeds the limit (" ++ toString maxDigits ++ " digits) for integer string conversion: " ++
      "value has " ++ toString n ++ " digits; " ++
      "use sys.set_int_max_str_digits() to increase the limit"

/-- The value of a row of digits, the most significant one first. -/
def ofDigits (ds : List Nat) : Nat :=
  ds.foldl (fun n d => 10 * n + d) 0

@[simp] theorem ofDigits_concat (ds : List Nat) (d : Nat) :
    ofDigits (ds ++ [d]) = 10 * ofDigits ds + d := by
  simp [ofDigits]

/-- The digits of a non-empty row in which single underscores may stand between two digits. -/
def digits? : List Char → Option (List Nat)
  | [] => none
  | c :: rest =>
    (digitValue? c).bind fun d =>
      match rest with
      | [] => some [d]
      | '_' :: more => (digits? more).map (d :: ·)
      | next :: more => (digits? (next :: more)).map (d :: ·)

def bounded (ds : List Nat) : Except Error Nat :=
  if maxDigits < ds.length then .error (.tooLong ds.length) else .ok (ofDigits ds)

def magnitude (cs : List Char) : Except Error Nat :=
  match digits? cs with
  | none => .error .malformed
  | some ds => bounded ds

/-- The blanks that may surround a numeral: all but the information separators. -/
def isPadding (c : Char) : Bool :=
  isBlank c && !(0x1C ≤ c.toNat && c.toNat ≤ 0x1F)

def read (text : String) : Except Error Int :=
  match trimEnds isPadding text.toList with
  | '-' :: cs => (magnitude cs).map fun n => -(n : Int)
  | '+' :: cs => (magnitude cs).map Int.ofNat
  | cs => (magnitude cs).map Int.ofNat

/-- The value of a text that is nothing but an optional sign and digits, if it is one. -/
def plain? (cs : List Char) : Option (Except Error Int) :=
  match cs with
  | '-' :: c :: rest =>
    ((c :: rest).mapM digitValue?).map fun ds => (bounded ds).map fun n => -(n : Int)
  | '+' :: c :: rest => ((c :: rest).mapM digitValue?).map fun ds => (bounded ds).map Int.ofNat
  | c :: rest => ((c :: rest).mapM digitValue?).map fun ds => (bounded ds).map Int.ofNat
  | [] => none

example : digits? ['1', '_', '0'] = some [1, 0] ∧ digits? ['1', '_'] = none ∧
    digits? ['_', '1'] = none ∧ digits? ['1', '_', '_', '2'] = none := by
  decide

end Monkey.Text.Numeral
