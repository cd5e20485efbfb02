import Monkey.Proofs.Program.Indented
import Monkey.Proofs.Reader.WellFormed

/-!
# Programs from their outlines

No two well-formed programs have the same outline. The first line of a tree tells its kind, and the
level of a line tells where the trees before it end; a conditional with one branch ends because no
tree starts with a line for the other branch.
-/

namespace Monkey

set_option autoImplicit false

def Expression.label : Expression → String
  | .unary op _ => "PREFIX " ++ op
  | .binary _ op _ => "INFIX " ++ op
  | .conditional .. => "IF"
  | .function ps _ => "FUNCTION(" ++ ", ".intercalate ps ++ ")"
  | .call .. => "CALL"
  | e => e.tag ++ "(" ++ e.source ++ ")"

def Statement.label : Statement → String
  | .binding n _ => "LET " ++ n
  | .ret _ => "RETURN"
  | .expression e => e.label
  | .block _ => "BLOCK"
  | s@.hole => s.tag ++ "(" ++ s.source ++ ")"

/-- The kind that the first line of a statement shows. -/
def Statement.shownTag : Statement → String
  | .expression e => e.tag
  | s => s.tag

theorem Expression.outline_eq_cons (i : Nat) (e : Expression) :
    ∃ ls, e.outline i = ⟨i, e.label⟩ :: ls := by
  cases e with
  | conditional c t e => cases e <;> exact ⟨_, rfl⟩
  | _ => exact ⟨_, rfl⟩

theorem Statement.outline_eq_cons (i : Nat) (s : Statement) :
    ∃ ls, s.outline i = ⟨i, s.label⟩ :: ls := by
  cases s with
  | expression e => exact e.outline_eq_cons i
  | _ => exact ⟨_, rfl⟩

/-- The capitals that a label starts with. -/
def heading (label : String) : List Char :=
  label.toList.takeWhile Char.isUpper

theorem Expression.tag_ne (e : Expression) : e.tag ≠ "LET" ∧ e.tag ≠ "RETURN" := by
  cases e <;> simp [tag]

theorem Expression.heading_label (e : Expression) : heading e.label = e.tag.toList := by
  cases e <;> simp [heading, label, tag]

theorem Statement.heading_label (s : Statement) : heading s.label = s.shownTag.toList := by
  cases s with
  | expression e => exact e.heading_label
  | _ => simp [heading, label, shownTag, tag]

theorem Expression.label_ne_else (e : Expression) : e.label ≠ "ELSE" := by
  intro h
  have htag := e.heading_label
  rw [h] at htag
  cases e <;> simp [heading, tag] at htag

theorem Statement.label_ne_else (s : Statement) : s.label ≠ "ELSE" := by
  intro h
  have htag := s.heading_label
  rw [h] at htag
  cases s with
  | expression e => exact e.label_ne_else h
  | _ => simp [heading, shownTag, tag] at htag

theorem Expression.tag_eq_of_outline {e e' : Expression} {i : Nat} {rest rest' : List OutlineLine}
    (h : e.outline i ++ rest = e'.outline i ++ rest') : e.tag = e'.tag := by
  obtain ⟨ls, hls⟩ := e.outline_eq_cons i
  obtain ⟨ls', hls'⟩ := e'.outline_eq_cons i
  rw [hls, hls', List.cons_append, List.cons_append, List.cons.injEq, OutlineLine.mk.injEq] at h
  rw [← String.toList_inj, ← e.heading_label, ← e'.heading_label, h.1.2]

theorem Statement.tag_eq_of_outline {s s' : Statement} {i : Nat} {rest rest' : List OutlineLine}
    (h : s.outline i ++ rest = s'.outline i ++ rest') : s.shownTag = s'.shownTag := by
  obtain ⟨ls, hls⟩ := s.outline_eq_cons i
  obtain ⟨ls', hls'⟩ := s'.outline_eq_cons i
  rw [hls, hls', List.cons_append, List.cons_append, List.cons.injEq, OutlineLine.mk.injEq] at h
  rw [← String.toList_inj, ← s.heading_label, ← s'.heading_label, h.1.2]

/-! ### Where the lines of a tree end -/

/-- What follows goes on with nothing at the level. -/
def Ends (i : Nat) (rest : List OutlineLine) : Prop :=
  ∀ l ∈ rest.head?, l.indent < i

/-- What follows goes on with no tree that starts at the level. -/
def Closes (i : Nat) (rest : List OutlineLine) : Prop :=
  ∀ l ∈ rest.head?, l.indent ≤ i ∧ (l.indent = i → l.label ≠ "ELSE")

theorem Ends.closes {i : Nat} {rest : List OutlineLine} (h : Ends i rest) : Closes i rest :=
  fun l hl => ⟨Nat.le_of_lt (h l hl), fun he => absurd he (Nat.ne_of_lt (h l hl))⟩

theorem Closes.ends {i : Nat} {rest : List OutlineLine} (h : Closes i rest) : Ends (i + 1) rest :=
  fun l hl => Nat.lt_succ_of_le (h l hl).1

theorem Ends.deeper {i : Nat} {rest : List OutlineLine} (h : Ends i rest) : Ends (i + 1) rest :=
  fun l hl => Nat.lt_succ_of_lt (h l hl)

theorem ends_cons {i j : Nat} (label : String) (rest : List OutlineLine) (h : j < i) :
    Ends i (⟨j, label⟩ :: rest) := by
  intro l hl
  cases hl
  exact h

theorem closes_cons {i : Nat} {label : String} (rest : List OutlineLine) (h : label ≠ "ELSE") :
    Closes i (⟨i, label⟩ :: rest) := by
  intro l hl
  cases hl
  exact ⟨Nat.le_refl i, fun _ => h⟩

theorem ends_nil (i : Nat) : Ends i [] := fun _ hl => absurd hl (by simp)

/-- No other tree has the lines of this one, whatever follows the two. -/
def Recovered {α : Type} (outline : Nat → α → List OutlineLine) (WellFormed : α → Prop) (a : α) :
    Prop :=
  ∀ {b : α} {i : Nat} {rest rest' : List OutlineLine}, WellFormed b → Closes i rest →
    Closes i rest' → outline i a ++ rest = outline i b ++ rest' → a = b ∧ rest = rest'

abbrev RecoveredExpression : Expression → Prop :=
  Recovered Expression.outline Expression.WellFormed

abbrev RecoveredStatement : Statement → Prop :=
  Recovered Statement.outline Statement.WellFormed

section Sequences

variable {α : Type} {outline : Nat → α → List OutlineLine} {label : α → String}
  {WellFormed : α → Prop} {i : Nat}

theorem closes_sequence (hfirst : ∀ i a, ∃ ls, outline i a = ⟨i, label a⟩ :: ls)
    (hlabel : ∀ a, label a ≠ "ELSE") {rest : List OutlineLine} (hr : Ends i rest) (as : List α) :
    Closes i (as.flatMap (outline i) ++ rest) := by
  cases as with
  | nil => exact hr.closes
  | cons a as =>
    obtain ⟨ls, hls⟩ := hfirst i a
    rw [List.flatMap_cons, hls]
    exact closes_cons _ (hlabel a)

/-- A sequence ends where a line is not as deep as its members. -/
theorem recovered_sequence (hfirst : ∀ i a, ∃ ls, outline i a = ⟨i, label a⟩ :: ls)
    (hlabel : ∀ a, label a ≠ "ELSE") {rest rest' : List OutlineLine} (hr : Ends i rest)
    (hr' : Ends i rest') {as bs : List α} (has : ∀ a ∈ as, Recovered outline WellFormed a)
    (hbs : ∀ b ∈ bs, WellFormed b)
    (h : as.flatMap (outline i) ++ rest = bs.flatMap (outline i) ++ rest') :
    as = bs ∧ rest = rest' := by
  have hnone : ∀ {rest : List OutlineLine} (tail : List OutlineLine) (a : α), Ends i rest →
      rest ≠ outline i a ++ tail := by
    rintro rest tail a hrest rfl
    obtain ⟨ls, hls⟩ := hfirst i a
    exact Nat.lt_irrefl i (hrest ⟨i, label a⟩ (by simp [hls]))
  induction as generalizing bs with
  | nil =>
    cases bs with
    | nil => exact ⟨rfl, h⟩
    | cons b bs =>
      rw [List.flatMap_cons, List.append_assoc] at h
      exact absurd h (hnone _ b hr)
  | cons a as ih =>
    cases bs with
    | nil =>
      rw [List.flatMap_cons, List.append_assoc] at h
      exact absurd h.symm (hnone _ a hr')
    | cons b bs =>
      obtain ⟨ha, has'⟩ := List.forall_mem_cons.mp has
      obtain ⟨hb, hbs'⟩ := List.forall_mem_cons.mp hbs
      rw [List.flatMap_cons, List.flatMap_cons, List.append_assoc, List.append_assoc] at h
      obtain ⟨rfl, htail⟩ := ha hb (closes_sequence hfirst hlabel hr as)
        (closes_sequence hfirst hlabel hr' bs) h
      obtain ⟨rfl, hrest⟩ := ih has' hbs' htail
      exact ⟨rfl, hrest⟩

end Sequences

theorem Expression.outlines_eq_flatMap (i : Nat) (es : List Expression) :
    Expression.outlines i es = es.flatMap (Expression.outline i) := by
  induction es with
  | nil => rfl
  | cons e es ih => rw [Expression.outlines, ih, List.flatMap_cons]

theorem Statement.outlines_eq_flatMap (i : Nat) (ss : List Statement) :
    Statement.outlines i ss = ss.flatMap (Statement.outline i) := by
  induction ss with
  | nil => rfl
  | cons s ss ih => rw [Statement.outlines, ih, List.flatMap_cons]

theorem recovered_statements {i : Nat} {rest rest' : List OutlineLine} (hr : Ends i rest)
    (hr' : Ends i rest') {ss ts : List Statement} (hss : ∀ s ∈ ss, RecoveredStatement s)
    (hts : ∀ t ∈ ts, t.WellFormed)
    (h : Statement.outlines i ss ++ rest = Statement.outlines i ts ++ rest') :
    ss = ts ∧ rest = rest' := by
  rw [Statement.outlines_eq_flatMap, Statement.outlines_eq_flatMap] at h
  exact recovered_sequence Statement.outline_eq_cons Statement.label_ne_else hr hr' hss hts h

/-! ### Labels that tell what they are about -/

theorem toString_inj {n m : Int} (hn : 0 ≤ n) (hm : 0 ≤ m) (h : toString n = toString m) :
    n = m := by
  obtain ⟨k, rfl⟩ := Int.eq_ofNat_of_zero_le hn
  obtain ⟨l, rfl⟩ := Int.eq_ofNat_of_zero_le hm
  have hdigits : Nat.toDigits 10 k = Nat.toDigits 10 l := by
    rw [← toList_toString_ofNat, ← toList_toString_ofNat]
    exact congrArg String.toList h
  have hvalue := congrArg (Nat.ofDigitChars 10 · 0) hdigits
  simp only [Nat.ofDigitChars_ten_toDigits] at hvalue
  rw [hvalue]

theorem parameters_inj {ps qs : List String} (hps : ∀ p ∈ ps, Token.IsName p)
    (hqs : ∀ q ∈ qs, Token.IsName q) (h : ", ".intercalate ps = ", ".intercalate qs) :
    ps = qs := by
  have hcomma : ∀ {n : String}, Token.IsName n → ',' ∉ n.toList :=
    fun hn hm => absurd (hn.1.isNameChar _ hm) (by decide)
  have hnonempty : ∀ {n : String} (ns : List String), Token.IsName n →
      ", ".intercalate (n :: ns) ≠ "" := by
    intro n ns hn
    obtain ⟨c, cs, hcs, -⟩ := hn.1
    have hne : n ≠ "" := by
      rintro rfl
      simp at hcs
    cases ns <;> simp [String.intercalate_cons_cons, hne]
  induction ps generalizing qs with
  | nil =>
    cases qs with
    | nil => rfl
    | cons q qs => exact absurd h.symm (hnonempty qs (List.forall_mem_cons.mp hqs).1)
  | cons p ps ih =>
    obtain ⟨hp, hps'⟩ := List.forall_mem_cons.mp hps
    cases qs with
    | nil => exact absurd h (hnonempty ps hp)
    | cons q qs =>
      obtain ⟨hq, hqs'⟩ := List.forall_mem_cons.mp hqs
      have hchars := congrArg String.toList h
      cases ps with
      | nil =>
        cases qs with
        | nil => simpa using h
        | cons r qs =>
          refine absurd ?_ (hcomma hp)
          simp [show p.toList = _ by simpa [String.intercalate_cons_cons] using hchars]
      | cons p' ps =>
        cases qs with
        | nil =>
          refine absurd ?_ (hcomma hq)
          simp [← show _ = q.toList by simpa [String.intercalate_cons_cons] using hchars]
        | cons q' qs =>
          simp only [String.intercalate_cons_cons, String.toList_append, List.append_assoc]
            at hchars
          obtain ⟨hfirst, hrest⟩ := OutlineLine.split_unique (hcomma hp) (hcomma hq) hchars
          rw [String.toList_inj.mp hfirst,
            ih hps' hqs' (String.toList_inj.mp (List.append_cancel_left hrest))]

/-! ### One kind of expression after the other -/

theorem Expression.source_eq_of_leaf {e e' : Expression} {i : Nat} {rest rest' : List OutlineLine}
    (htag : e.tag = e'.tag) (h : (⟨i, e.tag ++ "(" ++ e.source ++ ")"⟩ : OutlineLine) :: rest =
      ⟨i, e'.tag ++ "(" ++ e'.source ++ ")"⟩ :: rest') : e.source = e'.source ∧ rest = rest' := by
  rw [List.cons.injEq, OutlineLine.mk.injEq, htag, String.append_left_inj,
    String.append_right_inj] at h
  exact ⟨h.1.2, h.2⟩

theorem recovered_integer {n : Int} (hn : 0 ≤ n) : RecoveredExpression (.integer n) := by
  intro e' i rest rest' hwf _ _ h
  have htag := Expression.tag_eq_of_outline h
  cases hwf with
  | integer hm =>
    obtain ⟨hsource, hrest⟩ := Expression.source_eq_of_leaf htag h
    exact ⟨congrArg _ (toString_inj hn hm hsource), hrest⟩
  | _ => simp [Expression.tag] at htag

theorem recovered_boolean (b : Bool) : RecoveredExpression (.boolean b) := by
  intro e' i rest rest' hwf _ _ h
  have htag := Expression.tag_eq_of_outline h
  cases hwf with
  | boolean b' =>
    obtain ⟨hsource, hrest⟩ := Expression.source_eq_of_leaf htag h
    refine ⟨?_, hrest⟩
    cases b <;> cases b' <;> first | rfl | exact absurd hsource (by decide)
  | _ => simp [Expression.tag] at htag

theorem recovered_string (s : String) : RecoveredExpression (.string s) := by
  intro e' i rest rest' hwf _ _ h
  have htag := Expression.tag_eq_of_outline h
  cases hwf with
  | string s' =>
    obtain ⟨hsource, hrest⟩ := Expression.source_eq_of_leaf htag h
    exact ⟨congrArg _ (Text.Quoted.quote_inj hsource), hrest⟩
  | _ => simp [Expression.tag] at htag

theorem recovered_name (n : String) : RecoveredExpression (.name n) := by
  intro e' i rest rest' hwf _ _ h
  have htag := Expression.tag_eq_of_outline h
  cases hwf with
  | name _ =>
    obtain ⟨hsource, hrest⟩ := Expression.source_eq_of_leaf htag h
    exact ⟨congrArg _ hsource, hrest⟩
  | _ => simp [Expression.tag] at htag

theorem recovered_unary {op : String} {e : Expression} (he : RecoveredExpression e) :
    RecoveredExpression (.unary op e) := by
  intro e' i rest rest' hwf hr hr' h
  have htag := Expression.tag_eq_of_outline h
  cases hwf with
  | unary _ hwf =>
    obtain ⟨hline, hlines⟩ := List.cons.inj h
    have hop := (String.append_right_inj _).mp (OutlineLine.mk.inj hline).2
    obtain ⟨rfl, hrest⟩ := he hwf hr.ends.closes hr'.ends.closes hlines
    exact ⟨by rw [hop], hrest⟩
  | _ => simp [Expression.tag] at htag

theorem closes_expression (e : Expression) (i : Nat) (rest : List OutlineLine) :
    Closes i (e.outline i ++ rest) := by
  obtain ⟨ls, hls⟩ := e.outline_eq_cons i
  rw [hls]
  exact closes_cons _ e.label_ne_else

theorem recovered_binary {l r : Expression} {op : String} (hleft : RecoveredExpression l)
    (hright : RecoveredExpression r) : RecoveredExpression (.binary l op r) := by
  intro e' i rest rest' hwf hr hr' h
  have htag := Expression.tag_eq_of_outline h
  cases hwf with
  | binary hwfl _ hwfr =>
    obtain ⟨hline, hlines⟩ := List.cons.inj h
    have hop := (String.append_right_inj _).mp (OutlineLine.mk.inj hline).2
    rw [List.append_eq, List.append_assoc, List.append_eq, List.append_assoc] at hlines
    obtain ⟨rfl, hoperand⟩ :=
      hleft hwfl (closes_expression _ _ _) (closes_expression _ _ _) hlines
    obtain ⟨rfl, hrest⟩ := hright hwfr hr.ends.closes hr'.ends.closes hoperand
    exact ⟨by rw [hop], hrest⟩
  | _ => simp [Expression.tag] at htag

theorem recovered_branch {c c' : Expression} {t t' : List Statement} {i : Nat}
    {rest rest' : List OutlineLine} (hc : RecoveredExpression c)
    (ht : ∀ s ∈ t, RecoveredStatement s) (hwfc : c'.WellFormed) (hwft : ∀ s ∈ t', s.WellFormed)
    (hr : Ends (i + 2) rest) (hr' : Ends (i + 2) rest')
    (h : c.outline (i + 1) ++ ⟨i + 1, "BLOCK"⟩ :: Statement.outlines (i + 2) t ++ rest =
      c'.outline (i + 1) ++ ⟨i + 1, "BLOCK"⟩ :: Statement.outlines (i + 2) t' ++ rest') :
    c = c' ∧ t = t' ∧ rest = rest' := by
  rw [List.append_assoc, List.append_assoc] at h
  obtain ⟨hsame, hlines⟩ := hc hwfc (closes_cons _ (by decide)) (closes_cons _ (by decide)) h
  exact ⟨hsame, recovered_statements hr hr' ht hwft (List.cons.inj hlines).2⟩

theorem Closes.ne_else {i : Nat} {rest : List OutlineLine} (h : Closes i rest)
    (ls : List OutlineLine) : rest ≠ ⟨i, "ELSE"⟩ :: ls := by
  rintro rfl
  exact (h _ rfl).2 rfl rfl

theorem recovered_conditional {c : Expression} {t : List Statement} (hc : RecoveredExpression c)
    (ht : ∀ s ∈ t, RecoveredStatement s) : RecoveredExpression (.conditional c t none) := by
  intro e' i rest rest' hwf hr hr' h
  have htag := Expression.tag_eq_of_outline h
  cases hwf with
  | conditional hwfc hwft =>
    obtain ⟨rfl, rfl, hrest⟩ := recovered_branch hc ht hwfc hwft hr.ends.deeper hr'.ends.deeper
      (List.cons.inj h).2
    exact ⟨rfl, hrest⟩
  | alternative hwfc hwft _ =>
    have hlines := (List.cons.inj h).2
    rw [List.append_eq, List.append_eq, List.append_assoc _ (_ :: _ :: _)] at hlines
    obtain ⟨-, -, hrest⟩ := recovered_branch hc ht hwfc hwft hr.ends.deeper
      (ends_cons _ _ (by omega)) hlines
    exact absurd hrest (hr.ne_else _)
  | _ => simp [Expression.tag] at htag

theorem recovered_alternative {c : Expression} {t e : List Statement} (hc : RecoveredExpression c)
    (ht : ∀ s ∈ t, RecoveredStatement s) (he : ∀ s ∈ e, RecoveredStatement s) :
    RecoveredExpression (.conditional c t (some e)) := by
  intro e' i rest rest' hwf hr hr' h
  have htag := Expression.tag_eq_of_outline h
  cases hwf with
  | conditional hwfc hwft =>
    have hlines := (List.cons.inj h).2
    rw [List.append_eq, List.append_eq, List.append_assoc _ (_ :: _ :: _)] at hlines
    obtain ⟨-, -, hrest⟩ := recovered_branch hc ht hwfc hwft (ends_cons _ _ (by omega))
      hr'.ends.deeper hlines
    exact absurd hrest.symm (hr'.ne_else _)
  | alternative hwfc hwft hwfe =>
    have hlines := (List.cons.inj h).2
    rw [List.append_eq, List.append_eq, List.append_assoc _ (_ :: _ :: _),
      List.append_assoc _ (_ :: _ :: _)] at hlines
    obtain ⟨rfl, rfl, hother⟩ := recovered_branch hc ht hwfc hwft (ends_cons _ _ (by omega))
      (ends_cons _ _ (by omega)) hlines
    obtain ⟨rfl, hrest⟩ := recovered_statements hr.ends.deeper hr'.ends.deeper he hwfe
      (List.cons.inj (List.cons.inj hother).2).2
    exact ⟨rfl, hrest⟩
  | _ => simp [Expression.tag] at htag

theorem recovered_function {ps : List String} {body : List Statement}
    (hps : ∀ p ∈ ps, Token.IsName p) (hbody : ∀ s ∈ body, RecoveredStatement s) :
    RecoveredExpression (.function ps body) := by
  intro e' i rest rest' hwf hr hr' h
  have htag := Expression.tag_eq_of_outline h
  cases hwf with
  | function hwfps hwfbody =>
    obtain ⟨hline, hlines⟩ := List.cons.inj h
    have hlabel := (OutlineLine.mk.inj hline).2
    rw [String.append_left_inj, String.append_right_inj] at hlabel
    obtain ⟨rfl, hrest⟩ := recovered_statements hr.ends.deeper hr'.ends.deeper hbody hwfbody
      (List.cons.inj hlines).2
    exact ⟨by rw [parameters_inj hps hwfps hlabel], hrest⟩
  | _ => simp [Expression.tag] at htag

theorem recovered_call {f : Expression} {args : List Expression} (hf : RecoveredExpression f)
    (hargs : ∀ a ∈ args, RecoveredExpression a) : RecoveredExpression (.call f args) := by
  intro e' i rest rest' hwf hr hr' h
  have htag := Expression.tag_eq_of_outline h
  cases hwf with
  | call hwff hwfargs =>
    have hlines := (List.cons.inj h).2
    rw [List.append_eq, List.append_assoc, List.append_eq, List.append_assoc,
      Expression.outlines_eq_flatMap, Expression.outlines_eq_flatMap] at hlines
    have hclose := closes_sequence Expression.outline_eq_cons Expression.label_ne_else hr.ends
    have hclose' := closes_sequence Expression.outline_eq_cons Expression.label_ne_else hr'.ends
    obtain ⟨rfl, harguments⟩ := hf hwff (hclose _) (hclose' _) hlines
    obtain ⟨rfl, hrest⟩ := recovered_sequence Expression.outline_eq_cons Expression.label_ne_else
      hr.ends hr'.ends hargs hwfargs harguments
    exact ⟨rfl, hrest⟩
  | _ => simp [Expression.tag] at htag

/-! ### One kind of statement after the other -/

theorem recovered_binding {n : String} {e : Expression} (he : RecoveredExpression e) :
    RecoveredStatement (.binding n e) := by
  intro s' i rest rest' hwf hr hr' h
  have htag := Statement.tag_eq_of_outline h
  cases hwf with
  | binding _ hwfe =>
    obtain ⟨hline, hlines⟩ := List.cons.inj h
    have hn := (String.append_right_inj _).mp (OutlineLine.mk.inj hline).2
    obtain ⟨rfl, hrest⟩ := he hwfe hr.ends.closes hr'.ends.closes hlines
    exact ⟨by rw [hn], hrest⟩
  | ret _ => simp [Statement.shownTag, Statement.tag] at htag
  | expression _ => exact absurd htag.symm (Expression.tag_ne _).1

theorem recovered_ret {e : Expression} (he : RecoveredExpression e) :
    RecoveredStatement (.ret e) := by
  intro s' i rest rest' hwf hr hr' h
  have htag := Statement.tag_eq_of_outline h
  cases hwf with
  | binding _ _ => simp [Statement.shownTag, Statement.tag] at htag
  | ret hwfe =>
    obtain ⟨rfl, hrest⟩ := he hwfe hr.ends.closes hr'.ends.closes (List.cons.inj h).2
    exact ⟨rfl, hrest⟩
  | expression _ => exact absurd htag.symm (Expression.tag_ne _).2

theorem recovered_expressionStatement {e : Expression} (he : RecoveredExpression e) :
    RecoveredStatement (.expression e) := by
  intro s' i rest rest' hwf hr hr' h
  have htag := Statement.tag_eq_of_outline h
  cases hwf with
  | expression hwfe =>
    obtain ⟨rfl, hrest⟩ := he hwfe hr hr' h
    exact ⟨rfl, hrest⟩
  | binding _ _ => exact absurd htag e.tag_ne.1
  | ret _ => exact absurd htag e.tag_ne.2

mutual

theorem recovered_of_wellFormed {e : Expression} : e.WellFormed → RecoveredExpression e
  | .integer h _ => recovered_integer h
  | .boolean b => recovered_boolean b
  | .string s => recovered_string s
  | .name _ => recovered_name _
  | .unary _ he => recovered_unary (recovered_of_wellFormed he)
  | .binary hl _ hr => recovered_binary (recovered_of_wellFormed hl) (recovered_of_wellFormed hr)
  | .conditional hc ht => recovered_conditional (recovered_of_wellFormed hc)
      fun s hs => recoveredStatement_of_wellFormed (ht s hs)
  | .alternative hc ht he => recovered_alternative (recovered_of_wellFormed hc)
      (fun s hs => recoveredStatement_of_wellFormed (ht s hs))
      fun s hs => recoveredStatement_of_wellFormed (he s hs)
  | .function hps hbody => recovered_function hps
      fun s hs => recoveredStatement_of_wellFormed (hbody s hs)
  | .call hf hargs => recovered_call (recovered_of_wellFormed hf)
      fun a ha => recovered_of_wellFormed (hargs a ha)

theorem recoveredStatement_of_wellFormed {s : Statement} : s.WellFormed → RecoveredStatement s
  | .binding _ he => recovered_binding (recovered_of_wellFormed he)
  | .ret he => recovered_ret (recovered_of_wellFormed he)
  | .expression he => recovered_expressionStatement (recovered_of_wellFormed he)

end

/-- The text of an outline tells which program it is the outline of. -/
theorem Program.eq_of_renderOutline {p q : Program} (hp : p.WellFormed) (hq : q.WellFormed)
    (h : renderOutline p.outline = renderOutline q.outline) : p = q := by
  have hlines := renderOutline_inj hp.plain hq.plain h
  have hstatements : p.statements = q.statements := by
    refine (recovered_statements (ends_nil 1) (ends_nil 1)
      (fun s hs => recoveredStatement_of_wellFormed (hp s hs)) hq ?_).1
    rw [List.append_nil, List.append_nil]
    exact (List.cons.inj hlines).2
  cases p
  cases q
  exact congrArg Program.mk hstatements

/-- A text on one line and one on several, with a string that has a line feed in it. -/
theorem Program.eq_of_renderOutline_layout :
    (Reader.readText 40 "if (a) \x7b f(\"\\n\", 07) \x7d else \x7b\x7d; b" "").program =
      (Reader.readText 50 "if a \x7bf(\"\\n\", 7);\x7d\nelse\n\x7b\x7d\nb;" "x").program :=
  Program.eq_of_renderOutline (Reader.readText_wellFormed _ _ _)
    (Reader.readText_wellFormed _ _ _) (by decide +kernel)

end Monkey
