import Monkey.Proofs.Text.Blank
import Monkey.Text.Numeral
import Monkey.Token.Scan

/-!
# Plain decimal numerals

A row of the digits `0` to `9` is read as its decimal value unless it is too long, and an integer
that is not negative is written as such a row.
-/

namespace Monkey.Text.Numeral

set_option autoImplicit false

/-- A row of one or more of the digits `0` to `9`. -/
def IsPlain (cs : List Char) : Prop := cs ≠ [] ∧ ∀ c ∈ cs, Token.isDigit c = true

theorem isPlain_iff_all (cs : List Char) : IsPlain cs ↔ cs ≠ [] ∧ cs.all Token.isDigit = true := by
  rw [IsPlain, List.all_eq_true]

theorem isDigit_iff (c : Char) : Token.isDigit c = true ↔ 48 ≤ c.toNat ∧ c.toNat ≤ 57 := by
  simp only [Token.isDigit, Bool.and_eq_true, decide_eq_true_eq]
  exact Iff.rfl

theorem digitValue?_of_isDigit {c : Char} (h : Token.isDigit c = true) :
    digitValue? c = some (c.toNat - 48) := by
  have hc := (isDigit_iff c).mp h
  have hz : decide (48 ≤ c.toNat) = true ∧ decide (c.toNat < 48 + 10) = true := by
    simp only [decide_eq_true_eq]
    omega
  simp [digitValue?, digitZeros, hz.1, hz.2]

theorem isPadding_of_isDigit {c : Char} (h : Token.isDigit c = true) : isPadding c = false := by
  have hc := (isDigit_iff c).mp h
  simp only [isPadding, isBlank, Bool.and_eq_false_iff, Bool.or_eq_false_iff, decide_eq_false_iff_not,
    beq_eq_false_iff_ne, Bool.and_eq_false_iff]
  omega

theorem ne_of_isDigit {c d : Char} (hc : Token.isDigit c = true) (hd : Token.isDigit d = false) :
    c ≠ d := by
  rintro rfl
  exact Bool.noConfusion (hc.symm.trans hd)

theorem digits?_of_isPlain {cs : List Char} (h : IsPlain cs) :
    digits? cs = some (cs.map fun c => c.toNat - 48) := by
  obtain ⟨hne, hd⟩ := h
  induction cs with
  | nil => exact absurd rfl hne
  | cons c cs ih =>
    have hc := digitValue?_of_isDigit (hd c List.mem_cons_self)
    cases cs with
    | nil => simp [digits?, hc]
    | cons d ds =>
      have ht := ih (by simp) fun x hx => hd x (List.mem_cons_of_mem c hx)
      have hu : d ≠ '_' := ne_of_isDigit (hd d (by simp)) (by decide)
      rw [digits?, hc, Option.bind_some]
      simp [ht]

theorem ofDigits_map (cs : List Char) :
    ofDigits (cs.map fun c => c.toNat - 48) = Nat.ofDigitChars 10 cs 0 := by
  simp [ofDigits, Nat.ofDigitChars_eq_foldl, List.foldl_map]

theorem trimEnds_of_isPlain {cs : List Char} (h : IsPlain cs) : trimEnds isPadding cs = cs :=
  trimEnds_eq_self fun c hc => isPadding_of_isDigit (h.2 c hc)

/-- Only the length of a plain numeral can keep it from being read. -/
theorem read_of_isPlain {s : String} (h : IsPlain s.toList) :
    read s =
      if maxDigits < s.toList.length then .error (.tooLong s.toList.length)
      else .ok (Nat.ofDigitChars 10 s.toList 0 : Nat) := by
  have hmag : magnitude s.toList = bounded (s.toList.map fun c => c.toNat - 48) := by
    rw [magnitude, digits?_of_isPlain h]
  have hread : read s = (magnitude s.toList).map Int.ofNat := by
    unfold read
    rw [trimEnds_of_isPlain h]
    split
    · next cs he =>
      exact absurd rfl (ne_of_isDigit (h.2 '-' (by simp [he])) (by decide))
    · next cs he =>
      exact absurd rfl (ne_of_isDigit (h.2 '+' (by simp [he])) (by decide))
    · rfl
  rw [hread, hmag, bounded, List.length_map, ofDigits_map]
  split <;> rfl

theorem isPlain_toDigits (n : Nat) : IsPlain (Nat.toDigits 10 n) := by
  refine ⟨Nat.toDigits_ne_nil, fun c hc => ?_⟩
  have hd := Nat.isDigit_of_mem_toDigits (by omega) (by omega) hc
  rw [Char.isDigit] at hd
  rw [isDigit_iff]
  simpa [UInt32.le_iff_toNat_le] using hd

end Monkey.Text.Numeral
