import Monkey.Text.Quoted
import Monkey.Token.Scan

/-!
# Reading back quoted strings

The written form of a string is one string literal whatever follows it, and what stands between its
quotes stands for the string.
-/

namespace Monkey.Text.Quoted

set_option autoImplicit false

theorem ne_of_letter?_eq_none {c : Char} (h : letter? c = none) :
    c ≠ '\\' ∧ c ≠ '"' ∧ c ≠ '\n' := by
  refine ⟨?_, ?_, ?_⟩ <;>
  · rintro rfl
    exact absurd h (by decide)

theorem ne_of_letter?_eq_some {c l : Char} (h : letter? c = some l) : l ≠ '\n' := by
  rintro rfl
  exact absurd (meaning?_of_letter? h) (by simp [meaning?])

theorem newline_not_mem_escape (c : Char) : '\n' ∉ escape c := by
  cases hc : letter? c with
  | some l => simp [escape, hc, (ne_of_letter?_eq_some hc).symm]
  | none => simp [escape, hc, (ne_of_letter?_eq_none hc).2.2.symm]

theorem newline_not_mem_encode (cs : List Char) : '\n' ∉ encode cs := by
  simp only [encode, List.mem_flatMap, not_exists, not_and]
  exact fun c _ => newline_not_mem_escape c

theorem decode_escape (c : Char) (rest : List Char) :
    decode (escape c ++ rest) = c :: decode rest := by
  cases hc : letter? c with
  | some l => simp [escape, hc, decode, meaning?_of_letter? hc]
  | none =>
    have hne := (ne_of_letter?_eq_none hc).1
    cases rest <;> simp [escape, hc, decode, hne]

theorem decode_encode (cs : List Char) : decode (encode cs) = cs := by
  induction cs with
  | nil => rfl
  | cons c cs ih =>
    rw [encode, List.flatMap_cons, decode_escape]
    exact congrArg (c :: ·) ih

theorem stringBody?_escape (c : Char) (cs : List Char) :
    Token.stringBody? (escape c ++ cs) =
      (Token.stringBody? cs).map fun p => (escape c ++ p.1, p.2) := by
  cases hc : letter? c with
  | some l => simp [escape, hc, Token.stringBody?, ne_of_letter?_eq_some hc]
  | none =>
    obtain ⟨hb, hq, hn⟩ := ne_of_letter?_eq_none hc
    simp only [escape, hc, List.singleton_append]
    rw [Token.stringBody?.eq_def]
    simp [hb, hq, hn]

/-- The closing quote ends the literal: no escape hides it and none is taken for it. -/
theorem stringBody?_encode (cs rest : List Char) :
    Token.stringBody? (encode cs ++ '"' :: rest) = some (encode cs, rest) := by
  induction cs with
  | nil =>
    change Token.stringBody? ('"' :: rest) = some ([], rest)
    rw [Token.stringBody?.eq_def]
    simp
  | cons c cs ih =>
    rw [encode, List.flatMap_cons, List.append_assoc, stringBody?_escape, ← encode, ih]
    rfl

theorem toList_quote (s : String) : (quote s).toList = '"' :: (encode s.toList ++ ['"']) := by
  simp [quote]

theorem quote_inj {s t : String} (h : quote s = quote t) : s = t := by
  have hchars := congrArg String.toList h
  rw [toList_quote, toList_quote, List.cons.injEq, List.append_left_inj] at hchars
  have hdecoded := congrArg decode hchars.2
  rw [decode_encode, decode_encode] at hdecoded
  exact String.toList_inj.mp hdecoded

end Monkey.Text.Quoted
