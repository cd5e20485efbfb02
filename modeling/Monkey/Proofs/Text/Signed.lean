import Mathlib.Data.List.Induction
import Monkey.Text.Numeral

/-!
# Signed numerals

An optional sign and a row of decimal digits of any scripts, and the value of such a numeral. Where
nothing but a numeral is read, it has this value unless it has more digits than are read.
-/

namespace Monkey.Text.Numeral

set_option autoImplicit false

inductive Row : List Char → Nat → Prop where
  | digit {c : Char} {d : Nat} : digitValue? c = some d → Row [c] d
  | concat {cs : List Char} {c : Char} {n d : Nat} : Row cs n → digitValue? c = some d →
      Row (cs ++ [c]) (10 * n + d)

/-- An optional sign and a row of decimal digits, and their value. -/
inductive Signed : List Char → Int → Prop where
  | unsigned {cs : List Char} {n : Nat} : Row cs n → Signed cs n
  | plus {cs : List Char} {n : Nat} : Row cs n → Signed ('+' :: cs) n
  | minus {cs : List Char} {n : Nat} : Row cs n → Signed ('-' :: cs) (-n)

def digitCount (cs : List Char) : Nat := cs.countP fun c => (digitValue? c).isSome

section Row

variable {cs : List Char} {n : Nat}

theorem mapM_concat {c : Char} {ds : List Nat} : (cs ++ [c]).mapM digitValue? = some ds ↔
    ∃ es e, cs.mapM digitValue? = some es ∧ digitValue? c = some e ∧ ds = es ++ [e] := by
  rw [List.mapM_append, List.mapM_cons, List.mapM_nil]
  cases cs.mapM digitValue? <;> cases digitValue? c <;> simp [eq_comm]

theorem Row.exists_mapM (h : Row cs n) :
    ∃ ds, cs.mapM digitValue? = some ds ∧ ds.length = digitCount cs ∧ ofDigits ds = n := by
  induction h with
  | @digit c d hc => exact ⟨[d], by simp [hc], by simp [digitCount, hc], by simp [ofDigits]⟩
  | @concat cs c n d _ hc ih =>
    obtain ⟨ds, hds, hlen, rfl⟩ := ih
    refine ⟨ds ++ [d], mapM_concat.mpr ⟨ds, d, hds, hc, rfl⟩, ?_, ofDigits_concat ds d⟩
    simp [digitCount, hc, hlen]

theorem row_of_mapM (hne : cs ≠ []) {ds : List Nat} (hds : cs.mapM digitValue? = some ds) :
    Row cs (ofDigits ds) := by
  induction cs using List.reverseRecOn generalizing ds with
  | nil => exact absurd rfl hne
  | append_singleton cs c ih =>
    obtain ⟨es, e, hes, he, rfl⟩ := mapM_concat.mp hds
    cases cs with
    | nil =>
      cases hes
      simpa [ofDigits] using Row.digit he
    | cons b bs =>
      rw [ofDigits_concat]
      exact .concat (ih (List.cons_ne_nil b bs) hes) he

theorem Row.eq_cons (h : Row cs n) : ∃ c rest, cs = c :: rest ∧ (digitValue? c).isSome = true := by
  induction h with
  | @digit c d hc => exact ⟨c, [], rfl, by rw [hc]; rfl⟩
  | @concat cs c n d _ _ ih =>
    obtain ⟨b, rest, rfl, hb⟩ := ih
    exact ⟨b, rest ++ [c], rfl, hb⟩

theorem Row.isSome (h : Row cs n) : ∀ c ∈ cs, (digitValue? c).isSome = true := by
  induction h with
  | @digit c d hc =>
    intro x hx
    rw [List.mem_singleton.mp hx, hc]
    rfl
  | @concat cs c n d _ hc ih =>
    intro x hx
    rcases List.mem_append.mp hx with hx | hx
    · exact ih x hx
    · rw [List.mem_singleton.mp hx, hc]
      rfl

theorem Row.digitCount_eq (h : Row cs n) : digitCount cs = cs.length :=
  List.countP_eq_length.mpr h.isSome

/-- Zeros in front of a digit do not change its value. -/
theorem row_zeros (k : Nat) {c : Char} {d : Nat} (hc : digitValue? c = some d) :
    Row (List.replicate k '0' ++ [c]) d := by
  have hzero : digitValue? '0' = some 0 := by decide
  have hzeros : ∀ k, Row (List.replicate (k + 1) '0') 0 := by
    intro k
    induction k with
    | zero => exact .digit hzero
    | succ k ih =>
      rw [List.replicate_succ']
      exact ih.concat hzero
  cases k with
  | zero => exact .digit hc
  | succ k => simpa using (hzeros k).concat hc

theorem Row.bounded_eq (h : Row cs n) : ∃ ds, cs.mapM digitValue? = some ds ∧
    bounded ds = if maxDigits < digitCount cs then .error (.tooLong (digitCount cs)) else .ok n := by
  obtain ⟨ds, hds, hlen, rfl⟩ := h.exists_mapM
  exact ⟨ds, hds, by rw [bounded, hlen]⟩

end Row

section Signed

variable {cs : List Char} {n : Int}

theorem digitCount_cons {c : Char} (h : digitValue? c = none) (cs : List Char) :
    digitCount (c :: cs) = digitCount cs := by
  simp [digitCount, h]

theorem plain?_of_signed (h : Signed cs n) : plain? cs =
    some (if maxDigits < digitCount cs then .error (.tooLong (digitCount cs)) else .ok n) := by
  cases h with
  | @unsigned cs m hrow =>
    obtain ⟨ds, hds, hbounded⟩ := hrow.bounded_eq
    obtain ⟨c, rest, rfl, hc⟩ := hrow.eq_cons
    have hplain : plain? (c :: rest) =
        ((c :: rest).mapM digitValue?).map fun ds => (bounded ds).map Int.ofNat := by
      unfold plain?
      split
      · next he =>
        cases he
        exact absurd hc (by decide)
      · next he =>
        cases he
        exact absurd hc (by decide)
      · next he =>
        cases he
        rfl
      · next he => cases he
    rw [hplain, hds, Option.map_some, hbounded]
    split <;> rfl
  | @plus cs m hrow =>
    obtain ⟨ds, hds, hbounded⟩ := hrow.bounded_eq
    obtain ⟨c, rest, rfl, _⟩ := hrow.eq_cons
    rw [digitCount_cons (by decide), plain?, hds, Option.map_some, hbounded]
    split <;> rfl
  | @minus cs m hrow =>
    obtain ⟨ds, hds, hbounded⟩ := hrow.bounded_eq
    obtain ⟨c, rest, rfl, _⟩ := hrow.eq_cons
    rw [digitCount_cons (by decide), plain?, hds, Option.map_some, hbounded]
    split <;> rfl

theorem signed_of_plain? {r : Except Error Int} (h : plain? cs = some r) : ∃ n, Signed cs n := by
  unfold plain? at h
  split at h
  · next c rest =>
    obtain ⟨ds, hds, _⟩ := Option.map_eq_some_iff.mp h
    exact ⟨_, .minus (row_of_mapM (List.cons_ne_nil c rest) hds)⟩
  · next c rest =>
    obtain ⟨ds, hds, _⟩ := Option.map_eq_some_iff.mp h
    exact ⟨_, .plus (row_of_mapM (List.cons_ne_nil c rest) hds)⟩
  · next c rest _ _ =>
    obtain ⟨ds, hds, _⟩ := Option.map_eq_some_iff.mp h
    exact ⟨_, .unsigned (row_of_mapM (List.cons_ne_nil c rest) hds)⟩
  · cases h

end Signed

end Monkey.Text.Numeral
