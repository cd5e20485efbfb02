import Monkey.Evaluation.Builtin
import Monkey.Proofs.Evaluation.Basic
import Monkey.Proofs.Text.Blank
import Monkey.Proofs.Text.Signed

/-!
# Lines that a program asks for

The line is stripped first. What is left is an integer if it is nothing but an optional sign and
digits with a value of 64 bits, and a string otherwise; numerals with more digits than are read make
the evaluation fail, whatever their value.
-/

namespace Monkey

set_option autoImplicit false

open Text.Numeral

namespace Builtin

variable {line : String} {n : Int}

theorem lineValue_of_signed (h : Signed (Text.trim line).toList n)
    (hlen : digitCount (Text.trim line).toList ≤ maxDigits) :
    lineValue line = .ok (if Integer.fits n then .integer n else .string (Text.trim line)) := by
  have hplain := plain?_of_signed h
  rw [if_neg (Nat.not_lt.mpr hlen)] at hplain
  simp only [lineValue, hplain]

theorem lineValue_of_tooLong (h : Signed (Text.trim line).toList n)
    (hlen : maxDigits < digitCount (Text.trim line).toList) :
    lineValue line = .error (.tooLong (digitCount (Text.trim line).toList)) := by
  have hplain := plain?_of_signed h
  rw [if_pos hlen] at hplain
  simp only [lineValue, hplain]

theorem lineValue_of_not_signed (h : ∀ n, ¬ Signed (Text.trim line).toList n) :
    lineValue line = .ok (.string (Text.trim line)) := by
  have hplain : plain? (Text.trim line).toList = none := by
    cases hp : plain? (Text.trim line).toList with
    | none => rfl
    | some r =>
      obtain ⟨n, hn⟩ := signed_of_plain? hp
      exact absurd hn (h n)
  simp only [lineValue, hplain]

end Builtin

namespace Run

section Input

variable {depth : Nat} {prompt : String} {m : Machine}

/-- Nothing but the console is touched, whether the line stands for a value or not. -/
theorem builtin_input (depth : Nat) (prompt : String) (m : Machine) :
    builtin depth .input [.string prompt] m =
      match Builtin.lineValue ((m.console.ask prompt).1.getD "") with
      | .ok v => .ok v { m with console := (m.console.ask prompt).2 }
      | .error e => .error (.numeral e) { m with console := (m.console.ask prompt).2 } := by
  have hask : ask prompt m =
      .ok (m.console.ask prompt).1 { m with console := (m.console.ask prompt).2 } := rfl
  have hcheck : Builtin.check Builtin.input.name Builtin.input.signature
      [Value.tag (.string prompt)] = .ok () := rfl
  rw [builtin, List.map_cons, List.map_nil, hcheck, ofExcept, pure_bind, builtinBody,
    bind_of_ok hask]
  cases Builtin.lineValue ((m.console.ask prompt).1.getD "") with
  | ok v => rfl
  | error e => rfl

theorem builtin_input_of_ok {v : Value}
    (h : Builtin.lineValue ((m.console.ask prompt).1.getD "") = .ok v) :
    builtin depth .input [.string prompt] m =
      .ok v { m with console := (m.console.ask prompt).2 } := by
  rw [builtin_input, h]

theorem builtin_input_of_error {e : Error}
    (h : Builtin.lineValue ((m.console.ask prompt).1.getD "") = .error e) :
    builtin depth .input [.string prompt] m =
      .error (.numeral e) { m with console := (m.console.ask prompt).2 } := by
  rw [builtin_input, h]

end Input

/-- What asking for a line gives, by what is left of the line between the blanks at its ends. At the
end of input the line is empty. -/
theorem input_classifies (depth : Nat) (prompt : String) (m : Machine) :
    let run := builtin depth .input [.string prompt] m
    let after : Machine := { m with console := (m.console.ask prompt).2 }
    ∃ text, Text.Stripped ((m.console.ask prompt).1.getD "") text ∧
      (∀ n, Signed text.toList n → digitCount text.toList ≤ maxDigits → Integer.fits n = true →
        run = .ok (.integer n) after) ∧
      (∀ n, Signed text.toList n → digitCount text.toList ≤ maxDigits → Integer.fits n = false →
        run = .ok (.string text) after) ∧
      ((∀ n, ¬ Signed text.toList n) → run = .ok (.string text) after) ∧
      (∀ n, Signed text.toList n → maxDigits < digitCount text.toList →
        run = .error (.numeral (.tooLong (digitCount text.toList))) after) := by
  intro run after
  refine ⟨Text.trim _, Text.stripped_trim _, ?_, ?_, ?_, ?_⟩
  · intro n hn hlen hfits
    apply builtin_input_of_ok
    rw [Builtin.lineValue_of_signed hn hlen, if_pos hfits]
  · intro n hn hlen hfits
    apply builtin_input_of_ok
    rw [Builtin.lineValue_of_signed hn hlen, hfits]
    rfl
  · intro hn
    exact builtin_input_of_ok (Builtin.lineValue_of_not_signed hn)
  · intro n hn hlen
    exact builtin_input_of_error (Builtin.lineValue_of_tooLong hn hlen)

/-- A line of zeros in front of a seven is a numeral of value seven, and asking for it fails. -/
theorem input_zeros_fails : ∃ line : String, Text.Stripped line line ∧ Signed line.toList 7 ∧
    Integer.fits 7 = true ∧ ∀ (depth : Nat) (prompt : String) (s : Store), ∃ f t,
      builtin depth .input [.string prompt] ⟨s, .ofLines [line]⟩ = .error f t := by
  have hrow : Row (List.replicate maxDigits '0' ++ ['7']) 7 := row_zeros maxDigits (by decide)
  have hlen : maxDigits < digitCount (List.replicate maxDigits '0' ++ ['7']) := by
    rw [hrow.digitCount_eq, List.length_append, List.length_replicate]
    exact Nat.lt_succ_self maxDigits
  have hblank : ∀ c ∈ List.replicate maxDigits '0' ++ ['7'], Text.isBlank c = false := by
    intro c hc
    rcases List.mem_append.mp hc with hc | hc
    · rw [List.eq_of_mem_replicate hc]
      decide
    · rw [List.mem_singleton.mp hc]
      decide
  generalize List.replicate maxDigits '0' ++ ['7'] = cs at hrow hlen hblank
  have htrim : Text.trim (String.ofList cs) = String.ofList cs := by
    rw [Text.trim, String.toList_ofList, Text.trimEnds_eq_self hblank]
  have hsigned : Signed (String.ofList cs).toList 7 := by
    rw [String.toList_ofList]
    exact .unsigned hrow
  have hstripped := Text.stripped_trim (String.ofList cs)
  rw [htrim] at hstripped
  refine ⟨String.ofList cs, hstripped, hsigned, by decide, fun depth prompt s =>
    ⟨_, _, builtin_input_of_error (Builtin.lineValue_of_tooLong (n := 7) ?_ ?_)⟩⟩
  · change Signed (Text.trim (String.ofList cs)).toList 7
    rw [htrim]
    exact hsigned
  · change maxDigits < digitCount (Text.trim (String.ofList cs)).toList
    rw [htrim, String.toList_ofList]
    exact hlen

end Run

end Monkey
