import Monkey.Proofs.Program.Integers
import Monkey.Proofs.Reader.WellFormed

/-!
# Accounts of numbers

What becomes of the numbers among the tokens that a reader takes. A number of 64 bits is kept as an
integer, or it is left out together with a statement around it that is dropped; a larger number
makes the reader drop the innermost statement around it right there, with an error that names the
number. Nothing else happens to a number, unless one has more digits than are read.
-/

namespace Monkey

set_option autoImplicit false

namespace Token

def isOverlong (t : Token) : Bool :=
  t.kind == .int && decide (Text.Numeral.maxDigits < t.literal.toList.length)

def isTooLarge (t : Token) : Bool :=
  t.kind == .int && decide (Integer.greatest < Grammar.value t)

def isInteger (t : Token) : Bool :=
  t.kind == .int && decide (Grammar.value t ≤ Integer.greatest)

def integers (ts : List Token) : List Int :=
  (ts.filter isInteger).map fun t => (Grammar.value t : Int)

def tooLarge (ts : List Token) : List String :=
  (ts.filter isTooLarge).map fun t => t.literal

theorem integers_append (ts us : List Token) :
    integers (ts ++ us) = integers ts ++ integers us := by
  simp [integers]

theorem tooLarge_append (ts us : List Token) :
    tooLarge (ts ++ us) = tooLarge ts ++ tooLarge us := by
  simp [tooLarge]

theorem of_number {t : Token} (h : t.kind = .int) :
    t.isOverlong = decide (Text.Numeral.maxDigits < t.literal.toList.length) ∧
      t.isTooLarge = decide (Integer.greatest < Grammar.value t) ∧
      t.isInteger = decide (Grammar.value t ≤ Integer.greatest) := by
  simp [isOverlong, isTooLarge, isInteger, h]

theorem not_number {t : Token} (h : t.kind ≠ .int) :
    t.isOverlong = false ∧ t.isTooLarge = false ∧ t.isInteger = false := by
  simp [isOverlong, isTooLarge, isInteger, h]

theorem not_isTooLarge_of_isInteger {t : Token} (h : t.isInteger = true) :
    t.isTooLarge = false := by
  rw [isInteger, Bool.and_eq_true, decide_eq_true_eq] at h
  rw [isTooLarge, decide_eq_false (Int.not_lt.mpr h.2), Bool.and_false]

end Token

def SyntaxError.numeral? : SyntaxError → Option String
  | integerTooLarge s => some s
  | _ => none

namespace Reader

/-- The tokens that were taken, the integers that were kept of them, and the errors. Every number is
kept, or it was left out with the statement around it that the reader dropped; such a statement has
one error of its own, behind those of the statements inside it. If this error is about a number, the
number is the last token of the statement. -/
inductive Tally : List Token → List Int → List SyntaxError → Prop where
  | nil : Tally [] [] []
  | append {taken taken' : List Token} {kept kept' : List Int} {es es' : List SyntaxError} :
      Tally taken kept es → Tally taken' kept' es' →
      Tally (taken ++ taken') (kept ++ kept') (es ++ es')
  | other {t : Token} : t.kind ≠ .int → Tally [t] [] []
  | integer {t : Token} : t.isOverlong = false → t.isInteger = true →
      Tally [t] [(Grammar.value t : Int)] []
  | tooLarge {d : Nat} {taken rest : List Token} {t : Token} {kept : List Int}
      {es : List SyntaxError} : t.isOverlong = false → t.isTooLarge = true → Tally taken kept es →
      statement d (taken ++ t :: rest) = .dropped (es ++ [.integerTooLarge t.literal]) rest →
      Tally (taken ++ [t]) [] (es ++ [.integerTooLarge t.literal])
  | dropped {d : Nat} {taken rest : List Token} {kept : List Int} {es : List SyntaxError}
      {e : SyntaxError} : e.numeral? = none → Tally taken kept es →
      statement d (taken ++ rest) = .dropped (es ++ [e]) rest → Tally taken [] (es ++ [e])

/-- The tokens up to the point where a statement is given up, and the errors. -/
inductive Abandoned : List Token → List SyntaxError → Prop where
  | tooLarge {taken : List Token} {t : Token} {kept : List Int} {es : List SyntaxError} :
      t.isOverlong = false → t.isTooLarge = true → Tally taken kept es →
      Abandoned (taken ++ [t]) (es ++ [.integerTooLarge t.literal])
  | other {taken : List Token} {kept : List Int} {es : List SyntaxError} {e : SyntaxError} :
      e.numeral? = none → Tally taken kept es → Abandoned taken (es ++ [e])

section Tally

variable {taken taken' rest : List Token} {kept : List Int} {es es' : List SyntaxError} {t : Token}

theorem Tally.brief (h : Tally taken kept es) : ∀ t ∈ taken, t.isOverlong = false := by
  induction h with
  | nil => exact fun _ ht => absurd ht List.not_mem_nil
  | append _ _ ih ih' => exact fun t ht => (List.mem_append.mp ht).elim (ih t) (ih' t)
  | other hk =>
    intro u hu
    rw [List.mem_singleton.mp hu]
    exact (Token.not_number hk).1
  | integer hbrief _ =>
    intro u hu
    rwa [List.mem_singleton.mp hu]
  | tooLarge hbrief _ _ _ ih =>
    intro u hu
    rcases List.mem_append.mp hu with hu | hu
    · exact ih u hu
    · rwa [List.mem_singleton.mp hu]
  | dropped _ _ _ ih => exact ih

/-- The numbers that are too large are recorded once each, in order. -/
theorem Tally.recorded (h : Tally taken kept es) :
    es.filterMap SyntaxError.numeral? = Token.tooLarge taken := by
  induction h with
  | nil => rfl
  | append _ _ ih ih' => rw [List.filterMap_append, ih, ih', Token.tooLarge_append]
  | other hk => simp [Token.tooLarge, (Token.not_number hk).2.1]
  | integer _ hint => simp [Token.tooLarge, Token.not_isTooLarge_of_isInteger hint]
  | tooLarge _ hlarge _ _ ih =>
    rw [List.filterMap_append, ih, Token.tooLarge_append]
    simp [Token.tooLarge, hlarge, SyntaxError.numeral?]
  | dropped he _ _ ih => simp [ih, he]

/-- Nothing is kept but integers that are written in the tokens, in order. -/
theorem Tally.sublist (h : Tally taken kept es) : kept.Sublist (Token.integers taken) := by
  induction h with
  | nil => exact List.Sublist.refl _
  | append _ _ ih ih' =>
    rw [Token.integers_append]
    exact ih.append ih'
  | integer _ hint => simp [Token.integers, hint]
  | other _ => exact List.nil_sublist _
  | tooLarge _ _ _ _ _ => exact List.nil_sublist _
  | dropped _ _ _ _ => exact List.nil_sublist _

/-- Where there is no error, all of them are kept. -/
theorem Tally.complete (h : Tally taken kept es) (he : es = []) : kept = Token.integers taken := by
  induction h with
  | nil => rfl
  | append _ _ ih ih' =>
    obtain ⟨he, he'⟩ := List.append_eq_nil_iff.mp he
    rw [ih he, ih' he', Token.integers_append]
  | other hk => simp [Token.integers, (Token.not_number hk).2.2]
  | integer _ hint => simp [Token.integers, hint]
  | tooLarge _ _ _ _ _ => exact absurd he (by simp)
  | dropped _ _ _ _ => exact absurd he (by simp)

theorem Tally.token {k : Token.Kind} (hk : t.kind = k) (hne : k ≠ .int) : Tally [t] [] [] :=
  .other (hk ▸ hne)

theorem Tally.concat (h : Tally taken kept es) {k : Token.Kind} (hk : t.kind = k)
    (hne : k ≠ .int) : Tally (taken ++ [t]) kept es := by
  have h' := h.append (.token hk hne)
  rwa [List.append_nil, List.append_nil] at h'

/-- No token in them keeps the text from being read. -/
theorem Tally.find?_eq_none (h : Tally taken kept es) : taken.find? Token.isOverlong = none := by
  rw [List.find?_eq_none]
  intro t ht
  rw [h.brief t ht]
  exact Bool.false_ne_true

theorem Abandoned.behind (ht : Tally taken kept es) (h : Abandoned taken' es') :
    Abandoned (taken ++ taken') (es ++ es') := by
  cases h with
  | tooLarge hbrief hlarge h =>
    rw [← List.append_assoc, ← List.append_assoc]
    exact .tooLarge hbrief hlarge (ht.append h)
  | other he h =>
    rw [← List.append_assoc]
    exact .other he (ht.append h)

/-- A statement that is given up is left out whole. -/
theorem Abandoned.tally {d : Nat} (h : Abandoned taken es)
    (hread : statement d (taken ++ rest) = .dropped es rest) : Tally taken [] es := by
  cases h with
  | tooLarge hbrief hlarge h =>
    rw [List.append_assoc] at hread
    exact .tooLarge hbrief hlarge h hread
  | other he h => exact .dropped he h hread

end Tally

namespace Outcome

variable {α β : Type} {xs ys taken : List Token} {kept : List Int} {es : List SyntaxError}
  {R : α → List Int → Prop} {S : β → List Int → Prop}

/-- The numbers in the tokens that were taken are accounted for, and what was read has the kept ones
by `R`; only a number with too many digits, the first one, keeps the text from being read. -/
def Tallies (xs : List Token) (R : α → List Int → Prop) : Outcome α → Prop
  | read a es rest => ∃ taken kept, xs = taken ++ rest ∧ R a kept ∧ Tally taken kept es
  | dropped es rest => ∃ taken, xs = taken ++ rest ∧ Abandoned taken es
  | refused r => ∃ t, xs.find? Token.isOverlong = some t ∧
      r = .numeral (.tooLong t.literal.toList.length)

theorem Tallies.map {o : Outcome α} {f : α → β} (h : o.Tallies xs R)
    (hf : ∀ a kept, R a kept → S (f a) kept) : (o.map f).Tallies xs S := by
  cases o with
  | read a es rest =>
    obtain ⟨taken, kept, he, ha, ht⟩ := h
    exact ⟨taken, kept, he, hf a kept ha, ht⟩
  | dropped es rest => exact h
  | refused r => exact h

theorem Tallies.behind {o : Outcome α} (ht : Tally taken kept es)
    (h : o.Tallies ys fun a more => R a (kept ++ more)) :
    (o.behind es).Tallies (taken ++ ys) R := by
  cases o with
  | read a fs rest =>
    obtain ⟨taken', more, rfl, ha, ht'⟩ := h
    exact ⟨taken ++ taken', kept ++ more, by rw [List.append_assoc], ha, ht.append ht'⟩
  | dropped fs rest =>
    obtain ⟨taken', rfl, ha⟩ := h
    exact ⟨taken ++ taken', by rw [List.append_assoc], .behind ht ha⟩
  | refused r =>
    obtain ⟨t, hfind, hr⟩ := h
    exact ⟨t, by rw [List.find?_append, ht.find?_eq_none, Option.none_or, hfind], hr⟩

theorem Tallies.cons {o : Outcome α} {t : Token} {k : Token.Kind} (hk : t.kind = k)
    (hne : k ≠ .int) (h : o.Tallies ys R) : o.Tallies (t :: ys) R := by
  have hb := Tallies.behind (R := R) (o := o) (Tally.token hk hne) h
  rwa [behind_nil] at hb

theorem Tallies.andThen {o : Outcome α} {next : α → List Token → Outcome β} (h : o.Tallies xs R)
    (hn : ∀ a kept rest, rest <:+ xs → R a kept →
      (next a rest).Tallies rest fun b more => S b (kept ++ more)) :
    (o.andThen next).Tallies xs S := by
  cases o with
  | read a es rest =>
    obtain ⟨taken, kept, rfl, ha, ht⟩ := h
    exact Tallies.behind ht (hn a kept rest (List.suffix_append taken rest) ha)
  | dropped es rest => exact h
  | refused r => exact h

end Outcome

end Reader

end Monkey
