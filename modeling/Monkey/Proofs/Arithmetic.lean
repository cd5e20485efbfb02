import Mathlib.Algebra.Order.Group.Unbundled.Int
import Monkey.Evaluation.Operator

/-!
# Exact operators

Division toward zero is told apart from every other division by the size and the sign of its
remainder, and it can be computed from absolute values and one comparison of signs. An operator
gives the exact result of two integers of 64 bits, or it fails for one of four reasons.
-/

namespace Monkey.Arithmetic

set_option autoImplicit false

/-- The integer `q` is the quotient of `l` and `r` toward zero, and `m` is what remains: it is
smaller than the divisor, and it is zero or has the sign of the dividend. -/
structure Division (l r q m : Int) : Prop where
  sum : l = r * q + m
  smaller : m.natAbs < r.natAbs
  sign : m = 0 ∨ m.sign = l.sign

/-- The quotient of the absolute values; it is negative unless the two signs agree, where zero
counts as positive on the left and as negative on the right. -/
def signedQuotient (l r : Int) : Int :=
  if 0 ≤ l ↔ 0 < r then ((l.natAbs / r.natAbs : Nat) : Int) else -((l.natAbs / r.natAbs : Nat) : Int)

section Division

variable {l r q m q' m' : Int}

theorem signedQuotient_eq_tdiv (l r : Int) : signedQuotient l r = l.tdiv r := by
  unfold signedQuotient
  cases l with
  | ofNat a =>
    cases r with
    | ofNat b =>
      by_cases hb : b = 0
      · subst hb
        simp
      · simp [Int.tdiv, hb]
    | negSucc b => simp [Int.tdiv]
  | negSucc a =>
    cases r with
    | ofNat b =>
      by_cases hb : b = 0
      · subst hb
        simp
      · simp [Int.tdiv, hb]
    | negSucc b => simp [Int.tdiv]

theorem division_tdiv (h : r ≠ 0) : Division l r (l.tdiv r) (l.tmod r) := by
  refine ⟨(Int.mul_tdiv_add_tmod l r).symm, ?_, ?_⟩
  · rw [Int.natAbs_tmod]
    exact Nat.mod_lt _ (Int.natAbs_pos.mpr h)
  · rw [Int.sign_tmod]
    split
    · next hd => exact .inl (Int.tmod_eq_zero_of_dvd hd)
    · exact .inr rfl

theorem Division.divisor_ne_zero (h : Division l r q m) : r ≠ 0 := by
  rintro rfl
  exact Nat.not_lt_zero _ h.smaller

/-- Two remainders lie on the same side of zero, so they are less than a divisor apart. -/
theorem Division.natAbs_sub_lt (h : Division l r q m) (h' : Division l r q' m') :
    (m - m').natAbs < r.natAbs := by
  have hside : 0 ≤ m ∧ 0 ≤ m' ∨ m ≤ 0 ∧ m' ≤ 0 := by
    rcases Int.lt_trichotomy l 0 with hl | rfl | hl
    · have hm := h.sign
      have hm' := h'.sign
      rw [Int.sign_eq_neg_one_of_neg hl, Int.sign_eq_neg_one_iff_neg] at hm hm'
      omega
    · have hm := h.sign
      have hm' := h'.sign
      rw [Int.sign_zero, Int.sign_eq_zero_iff_zero] at hm hm'
      omega
    · have hm := h.sign
      have hm' := h'.sign
      rw [Int.sign_eq_one_of_pos hl, Int.sign_eq_one_iff_pos] at hm hm'
      omega
  have hlt := h.smaller
  have hlt' := h'.smaller
  omega

theorem Division.unique (h : Division l r q m) (h' : Division l r q' m') : q = q' ∧ m = m' := by
  have hsum : r * (q' - q) = m - m' := by
    have he : r * q + m = r * q' + m' := h.sum.symm.trans h'.sum
    rw [Int.mul_sub]
    omega
  have hzero : m - m' = 0 :=
    Int.eq_zero_of_dvd_of_natAbs_lt_natAbs ⟨q' - q, hsum.symm⟩ (h.natAbs_sub_lt h')
  have hq : q' - q = 0 := by
    rw [hzero] at hsum
    exact (Int.mul_eq_zero.mp hsum).resolve_left h.divisor_ne_zero
  omega

/-- The quotient toward zero and the remainder, and nothing else, are what division gives. -/
theorem divide?_eq_some_iff : divide? l r = some (q, m) ↔ Division l r q m := by
  unfold divide?
  split
  · next hr =>
    subst hr
    constructor
    · intro h
      cases h
    · intro h
      exact absurd rfl h.divisor_ne_zero
  · next hr =>
    constructor
    · intro h
      cases h
      exact division_tdiv hr
    · intro h
      obtain ⟨rfl, rfl⟩ := (division_tdiv hr).unique h
      rfl

theorem divide?_eq_signedQuotient (hr : r ≠ 0) :
    divide? l r = some (signedQuotient l r, l - r * signedQuotient l r) := by
  rw [divide?, if_neg hr, signedQuotient_eq_tdiv, Int.tmod_def]

end Division

inductive Compared (l r : Int) : String → Bool → Prop where
  | less : Compared l r "<" (decide (l < r))
  | greater : Compared l r ">" (decide (r < l))
  | equal : Compared l r "==" (decide (l = r))
  | different : Compared l r "!=" (decide (l ≠ r))

/-- The exact result of an operator, whether it is an integer of 64 bits or not. -/
inductive Computed (l r : Int) : String → Int → Prop where
  | sum : Computed l r "+" (l + r)
  | difference : Computed l r "-" (l - r)
  | product : Computed l r "*" (l * r)
  | quotient {q m : Int} : Division l r q m → Computed l r "/" q
  | remainder {q m : Int} : Division l r q m → Computed l r "%" m

def operators : List String := ["<", ">", "==", "!=", "+", "-", "*", "/", "%"]

inductive Fails (l r : Int) : String → String → Prop where
  | overflow {op : String} {n : Int} : Computed l r op n →
      ¬ (Integer.least ≤ n ∧ n ≤ Integer.greatest) → Fails l r op "integer overflow"
  | divisionByZero : r = 0 → Fails l r "/" "division by zero"
  | moduloByZero : r = 0 → Fails l r "%" "modulo by zero"
  | unknown {op : String} : op ∉ operators → Fails l r op "invalid infix expression"

/-- An error tells its reason, and cites the operator between its operands. -/
def complaint (reason : String) (l : Int) (op : String) (r : Int) : String :=
  reason ++ ": (" ++ toString l ++ " " ++ op ++ " " ++ toString r ++ ")"

/-- What an operator gives for two integers: a value, or the text of an error. -/
inductive Answer (l r : Int) : String → Except String Value → Prop where
  | compared {op : String} {b : Bool} : Compared l r op b → Answer l r op (.ok (.boolean b))
  | computed {op : String} {n : Int} : Computed l r op n →
      Integer.least ≤ n ∧ n ≤ Integer.greatest → Answer l r op (.ok (.integer n))
  | failed {op reason : String} : Fails l r op reason →
      Answer l r op (.error (complaint reason l op r))

section Answer

variable {l r n : Int} {op reason : String} {answer : Except String Value}

theorem complaint_eq {start : String} (h : reason ++ ": (" = start) (l : Int) (op : String)
    (r : Int) : start ++ toString l ++ " " ++ op ++ " " ++ toString r ++ ")" =
      complaint reason l op r := by
  rw [complaint, h]

theorem complaint_inj {reason' : String} (h : complaint reason l op r = complaint reason' l op r) :
    reason = reason' := by
  simpa only [complaint, String.append_left_inj] using h

def told (op : String) (l r : Int) : Except String Value :=
  (binary op l r).mapError RuntimeError.message

theorem Compared.told_eq {b : Bool} (h : Compared l r op b) : told op l r = .ok (.boolean b) := by
  cases h <;> rfl

theorem told_of_exact (hc : comparison? op = none) (h : exact op l r = .ok n) :
    told op l r = if Integer.fits n then .ok (.integer n)
      else .error (complaint "integer overflow" l op r) := by
  simp only [told, binary, hc, h]
  split
  · rfl
  · exact congrArg Except.error (complaint_eq (by decide) l op r)

/-- The operators that compute an integer do so exactly, whatever its size. -/
theorem Computed.told_eq (h : Computed l r op n) :
    told op l r = if Integer.fits n then .ok (.integer n)
      else .error (complaint "integer overflow" l op r) := by
  cases h with
  | sum => exact told_of_exact rfl rfl
  | difference => exact told_of_exact rfl rfl
  | product => exact told_of_exact rfl rfl
  | quotient hd =>
    refine told_of_exact rfl ?_
    simp only [exact, divide?_eq_some_iff.mpr hd]
  | remainder hd =>
    refine told_of_exact rfl ?_
    simp only [exact, divide?_eq_some_iff.mpr hd]

theorem told_of_error {e : RuntimeError} (hc : comparison? op = none)
    (h : exact op l r = .error e) : told op l r = .error e.message := by
  simp only [told, binary, hc, h, Except.mapError]

/-- No comparison and no result: such an operator is unknown. -/
theorem exact_of_unknown (h : op ∉ operators) : comparison? op = none ∧
    exact op l r = .error (.badBinary (toString l) op (toString r)) := by
  simp only [operators, List.mem_cons, List.not_mem_nil, or_false, not_or] at h
  constructor
  · unfold comparison?
    split <;> simp_all
  · unfold exact
    split <;> simp_all

theorem Fails.told_eq (h : Fails l r op reason) :
    told op l r = .error (complaint reason l op r) := by
  cases h with
  | overflow hn hout => rw [hn.told_eq, if_neg (fun hf => hout (Integer.fits_iff.mp hf))]
  | divisionByZero hr =>
    subst hr
    rw [told_of_error rfl rfl]
    exact congrArg Except.error (complaint_eq (by decide) l "/" 0)
  | moduloByZero hr =>
    subst hr
    rw [told_of_error rfl rfl]
    exact congrArg Except.error (complaint_eq (by decide) l "%" 0)
  | unknown hop =>
    obtain ⟨hc, he⟩ := exact_of_unknown hop
    rw [told_of_error hc he]
    exact congrArg Except.error (complaint_eq (by decide) l op r)

theorem Answer.told_eq (h : Answer l r op answer) : told op l r = answer := by
  cases h with
  | compared hb => exact hb.told_eq
  | computed hn hfits => rw [hn.told_eq, if_pos (Integer.fits_iff.mpr hfits)]
  | failed hf => exact hf.told_eq

theorem Computed.exists_answer (h : Computed l r op n) : ∃ answer, Answer l r op answer := by
  by_cases hn : Integer.least ≤ n ∧ n ≤ Integer.greatest
  · exact ⟨_, .computed h hn⟩
  · exact ⟨_, .failed (.overflow h hn)⟩

theorem exists_answer (l r : Int) (op : String) : ∃ answer, Answer l r op answer := by
  by_cases hop : op ∈ operators
  · simp only [operators, List.mem_cons, List.not_mem_nil, or_false] at hop
    rcases hop with rfl | rfl | rfl | rfl | rfl | rfl | rfl | rfl | rfl
    · exact ⟨_, .compared .less⟩
    · exact ⟨_, .compared .greater⟩
    · exact ⟨_, .compared .equal⟩
    · exact ⟨_, .compared .different⟩
    · exact Computed.sum.exists_answer
    · exact Computed.difference.exists_answer
    · exact Computed.product.exists_answer
    · by_cases hr : r = 0
      · exact ⟨_, .failed (.divisionByZero hr)⟩
      · exact (Computed.quotient (division_tdiv hr)).exists_answer
    · by_cases hr : r = 0
      · exact ⟨_, .failed (.moduloByZero hr)⟩
      · exact (Computed.remainder (division_tdiv hr)).exists_answer
  · exact ⟨_, .failed (.unknown hop)⟩

theorem answer_iff : Answer l r op answer ↔ answer = told op l r := by
  constructor
  · exact fun h => h.told_eq.symm
  · rintro rfl
    obtain ⟨answer, h⟩ := exists_answer l r op
    rwa [h.told_eq]

theorem answer_error_iff :
    Answer l r op (.error (complaint reason l op r)) ↔ Fails l r op reason := by
  constructor
  · generalize he : Except.error (complaint reason l op r) = answer
    rintro (hb | ⟨hn, hfits⟩ | hf)
    · cases he
    · cases he
    · rwa [complaint_inj (Except.error.inj he)]
  · exact .failed

end Answer

section Range

variable {l r q m : Int}

/-- Only by minus one does a quotient become too large, and only that of the least integer. -/
theorem Division.quotient_overflow_iff (h : Division l r q m) (hl : Integer.fits l = true) :
    ¬ (Integer.least ≤ q ∧ q ≤ Integer.greatest) ↔ l = Integer.least ∧ r = -1 := by
  obtain ⟨rfl, -⟩ := h.unique (division_tdiv h.divisor_ne_zero)
  have hr := h.divisor_ne_zero
  rw [Integer.fits_iff] at hl
  unfold Integer.least Integer.greatest at *
  by_cases hone : r = 1
  · subst hone
    rw [Int.tdiv_one]
    omega
  by_cases hminus : r = -1
  · subst hminus
    rw [Int.tdiv_neg, Int.tdiv_one]
    omega
  -- by any other divisor the absolute value of the dividend is halved at least
  · have hhalf : (l.tdiv r).natAbs ≤ l.natAbs / 2 := by
      rw [Int.natAbs_tdiv]
      exact Nat.div_le_div_left (by omega) (by decide)
    omega

theorem Division.remainder_fits (h : Division l r q m) (hr : Integer.fits r = true) :
    Integer.least ≤ m ∧ m ≤ Integer.greatest := by
  have hsmaller := h.smaller
  rw [Integer.fits_iff] at hr
  unfold Integer.least Integer.greatest at *
  omega

end Range

/-- The results of the two operators that divide are the two parts of one division. -/
theorem Computed.exists_division {l r n : Int} {op : String} (h : Computed l r op n) :
    (op = "/" → ∃ m, Division l r n m) ∧ (op = "%" → ∃ q, Division l r q n) := by
  cases h with
  | sum => simp
  | difference => simp
  | product => simp
  | quotient hd => exact ⟨fun _ => ⟨_, hd⟩, by simp⟩
  | remainder hd => exact ⟨by simp, fun _ => ⟨_, hd⟩⟩

/-- Division gives the quotient toward zero and the remainder, for integers of any size, and both
can be had from absolute values. On two integers of 64 bits every operator has exactly one answer,
and it is what an evaluation gives: a comparison, an exact result that fits, or an error that tells
one of four reasons. A quotient fits unless the least integer is divided by minus one, and a
remainder always fits. -/
theorem operators_exact :
    (∀ l r q m : Int, divide? l r = some (q, m) ↔ Division l r q m) ∧
      (∀ l r : Int, r ≠ 0 →
        divide? l r = some (signedQuotient l r, l - r * signedQuotient l r)) ∧
      ∀ l r : Int, Integer.fits l = true → Integer.fits r = true →
        (∀ op : String, ∃ answer, (∀ other, Answer l r op other ↔ other = answer) ∧
          ∀ (depth : Nat) (machine : Machine),
            (∃ v, answer = .ok v ∧
              Run.binary depth op (.integer l) (.integer r) machine = .ok v machine) ∨
            ∃ e, answer = .error e.message ∧
              Run.binary depth op (.integer l) (.integer r) machine =
                .error (.runtime e none) machine) ∧
        (∀ op reason : String,
          Answer l r op (.error (complaint reason l op r)) ↔ Fails l r op reason) ∧
        (∀ q, Computed l r "/" q →
          (¬ (Integer.least ≤ q ∧ q ≤ Integer.greatest) ↔ l = Integer.least ∧ r = -1)) ∧
        ∀ m, Computed l r "%" m → Integer.least ≤ m ∧ m ≤ Integer.greatest := by
  refine ⟨fun l r q m => divide?_eq_some_iff, fun l r hr => divide?_eq_signedQuotient hr, ?_⟩
  intro l r hl hr
  refine ⟨fun op => ⟨told op l r, fun other => answer_iff, fun depth machine => ?_⟩,
    fun op reason => answer_error_iff, ?_, ?_⟩
  · rw [told, Run.binary]
    cases binary op l r with
    | ok v => exact .inl ⟨v, rfl, rfl⟩
    | error e => exact .inr ⟨e, rfl, rfl⟩
  · intro q hq
    obtain ⟨m, hd⟩ := hq.exists_division.1 rfl
    exact hd.quotient_overflow_iff hl
  · intro m hm
    obtain ⟨q, hd⟩ := hm.exists_division.2 rfl
    exact hd.remainder_fits hr

/-- The one quotient that does not fit, in front of its remainder, which does. -/
theorem operators_exact_least :
    (Integer.fits Integer.least = true ∧ Integer.fits (-1) = true) ∧
      Answer Integer.least (-1) "/"
        (.error "integer overflow: (-9223372036854775808 / -1)") ∧
      ∀ m, Computed Integer.least (-1) "%" m → Integer.least ≤ m ∧ m ≤ Integer.greatest := by
  obtain ⟨hdivide, -, hfits⟩ := operators_exact
  obtain ⟨-, hfails, hquotient, hremainder⟩ := hfits Integer.least (-1) (by decide) (by decide)
  have hd : Division Integer.least (-1) (-Integer.least) 0 := (hdivide _ _ _ _).mp (by decide)
  have hout := (hquotient _ (.quotient hd)).mpr ⟨rfl, rfl⟩
  exact ⟨⟨by decide, by decide⟩, (hfails "/" "integer overflow").mpr (.overflow (.quotient hd) hout),
    hremainder⟩

end Monkey.Arithmetic
