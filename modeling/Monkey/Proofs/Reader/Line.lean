import Monkey.Proofs.Reader.Seam
import Monkey.Proofs.Reader.Unplaced

/-!
# Texts one line after another

A text that is read without an error, with as many closing braces as opening ones, can be put in
front of another text: its statements are read first, and then what is read of the other text.
-/

namespace Monkey.Reader

set_option autoImplicit false

open Grammar (Closing)
open Token (words unplaced)

section Programs

variable {ts us : List Token} {expression : ExpressionReader} {statement : StatementReader}

theorem statementsFrom_end {zs : List Token} (h : nextKind zs = .eof) (bound : List Token)
    (done : List Statement) (errors : List SyntaxError) :
    statementsFrom statement bound done errors zs = ⟨done.reverse, errors.reverse, none⟩ := by
  cases bound with
  | nil => rw [statementsFrom]; simp
  | cons b bound =>
    cases zs with
    | nil => rw [statementsFrom]; simp
    | cons z zs => exact if_pos h

/-- A round without an error and without a refusal: the input ends, or a statement is read. -/
theorem statementsFrom_eq_read (hp : Progressive expression statement) {b x : Token}
    {bound xs : List Token} {done : List Statement} {ss : List Statement}
    (h : statementsFrom statement (b :: bound) done [] (x :: xs) = ⟨ss, [], none⟩) :
    x.kind = .eof ∨ x.kind ≠ .eof ∧ ∃ s vs, statement (x :: xs) = .read s [] vs ∧
      vs.length ≤ xs.length ∧
      statementsFrom statement bound (s :: done) [] vs = ⟨ss, [], none⟩ := by
  have hs := hp.statement (x :: xs)
  rw [statementsFrom] at h
  split at h
  · next hk => exact .inl hk
  · next hk =>
    cases ho : statement (x :: xs) with
    | read s es vs =>
      rw [ho] at h hs
      by_cases hes : es = []
      · subst hes
        exact .inr ⟨hk, s, vs, rfl, hs, h⟩
      · have hne : es.reverse ++ [] ≠ [] := by simpa using hes
        exact absurd (congrArg Reading.errors h) (statementsFrom_errors bound (s :: done) hne vs)
    | dropped es vs =>
      rw [ho] at h hs
      have hne : es.reverse ++ [] ≠ [] := by simpa using hs.1
      exact absurd (congrArg Reading.errors h) (statementsFrom_errors bound done hne vs)
    | refused r =>
      rw [ho] at h
      cases h

theorem Steady.statement_ne (hseam : Seam ts us) (hp : Progressive expression statement)
    (h : Steady ts us expression statement) (s : Statement) (rest : List Token) :
    statement ts ≠ .read s [] rest := by
  intro hread
  have hlen := hp.statement ts
  rw [hread] at hlen
  have hlen : rest.length ≤ ts.length - 1 := hlen
  have hpos := List.length_pos_iff.mpr hseam.nonempty
  rcases h.statement [] (fun _ hx => absurd hx List.not_mem_nil) s rest hread with
    hopen | ⟨ys, hys, _, rfl, _⟩ | ⟨hne, _⟩
  · exact absurd hopen (Int.lt_irrefl 0)
  · rw [List.suffix_nil.mp hys, List.nil_append] at hlen
    omega
  · exact hne rfl

/-- What is left of `us` where the input ends with `ts`: a semicolon belongs to the last
statement. -/
def beyond (ts us : List Token) : List Token :=
  if nextKind ts = .semicolon then us.tail else us

/-- Statements that close all of their braces are read across the seam, and then the others. -/
theorem statementsFrom_seam (hseam : Seam ts us) (hp : Progressive expression statement)
    (h : Steady ts us expression statement) (bound : List Token) (done : List Statement)
    {xs : List Token} (hx : ∀ x ∈ xs, x.kind ≠ .eof) (hb : (xs ++ ts).length ≤ bound.length)
    (hbal : balance xs = 0) {ss : List Statement}
    (hread : statementsFrom statement bound done [] (xs ++ ts) = ⟨ss, [], none⟩) :
    ∃ ss', ss = done.reverse ++ ss' ∧
      statementsFrom statement (xs ++ us) [] [] (xs ++ us) =
        (statementsFrom statement (beyond ts us) [] [] (beyond ts us)).behind ss' [] := by
  induction bound generalizing done xs with
  | nil =>
    have hpos := List.length_pos_iff.mpr hseam.nonempty
    rw [List.length_append] at hb
    exact absurd (Nat.le_zero.mp hb) (by omega)
  | cons b bound ih =>
    cases xs with
    | nil =>
      rw [List.nil_append] at hread
      rcases hseam.stop with hend | hsemi
      · have hbeyond : beyond ts us = us := if_neg (by rw [hend]; decide)
        rw [statementsFrom_end hend] at hread
        cases hread
        exact ⟨[], (List.append_nil _).symm, by rw [hbeyond]; rfl⟩
      · exfalso
        cases ts with
        | nil => exact hseam.nonempty rfl
        | cons t ts =>
          have hk : t.kind = .semicolon := hsemi
          rcases statementsFrom_eq_read hp hread with hend | ⟨_, s, vs, hs, _⟩
          · rw [hk] at hend
            cases hend
          · exact h.statement_ne hseam hp s vs hs
    | cons x xs =>
      simp only [List.cons_append, List.length_cons, List.length_append,
        Nat.add_le_add_iff_right] at hb
      rw [List.cons_append] at hread
      rcases statementsFrom_eq_read hp hread with hend | ⟨hk, s, vs, hs, hlen, hnext⟩
      · exact absurd hend (hx x List.mem_cons_self)
      · -- The statement is read in front of the other tokens as well, and leaves `ws` of them.
        have hgo : ∀ ws, ws.length ≤ (xs ++ us).length →
            statement (x :: (xs ++ us)) = .read s [] ws →
            statementsFrom statement (x :: xs ++ us) [] [] (x :: xs ++ us) =
              (statementsFrom statement ws [] [] ws).behind [s] [] := by
          intro ws hws ho
          rw [List.cons_append, statementsFrom, if_neg hk, ho]
          exact statementsFrom_eq_behind hp [s] [] hws
        rcases h.statement (x :: xs) hx s vs hs with
          hopen | ⟨ys, hys, hybal, rfl, ho⟩ | ⟨_, _, hsemi, rfl, ho⟩
        · omega
        · have hle : ys.length ≤ xs.length := by
            rw [List.length_append, List.length_append] at hlen
            omega
          obtain ⟨ss', rfl, hrest⟩ := ih (s :: done) (ne_eof_of_suffix hx hys)
            (by rw [List.length_append]; omega) (hybal.trans hbal) hnext
          refine ⟨s :: ss', by simp, ?_⟩
          rw [hgo (ys ++ us) (by simpa using hle) ho, hrest, Reading.behind_behind]
          rfl
        · rw [statementsFrom_end (hseam.ended hsemi)] at hnext
          cases hnext
          have hbeyond : beyond ts us = us.tail := if_pos hsemi
          refine ⟨[s], by simp, ?_⟩
          rw [hbeyond]
          exact hgo us.tail (by simp; omega) ho

theorem readTokens_seam (hseam : Seam ts us) {xs : List Token} (hx : ∀ x ∈ xs, x.kind ≠ .eof)
    (hbal : balance xs = 0) {d : Nat} {ss : List Statement}
    (h : readTokens d (xs ++ ts) = ⟨ss, [], none⟩) :
    readTokens d (xs ++ us) = (readTokens d (beyond ts us)).behind ss [] := by
  obtain ⟨ss', rfl, hrest⟩ := statementsFrom_seam hseam (progressive d) (steady hseam d) _ [] hx
    (Nat.le_refl _) hbal h
  exact hrest

end Programs

/-- Nothing at the end of the first tokens goes on with the others: there are none, or a semicolon
is the last one, or the others start with a token that ends every statement in front of it. -/
def Apart (as bs : List Token) : Prop :=
  as = [] ∨ (∃ t ∈ as.getLast?, t.kind = .semicolon) ∨
    Closing (nextKind bs) ∧ nextKind bs ≠ .semicolon

def continuations : List Token.Kind :=
  [.eq, .notEq, .lt, .gt, .plus, .minus, .asterisk, .slash, .percent, .lparen, .semicolon, .elseKw]

theorem closing_of_notMem {k : Token.Kind} (h : k ∉ continuations) :
    Closing k ∧ k ≠ .semicolon := by
  cases k <;> first | exact absurd (by decide) h | exact ⟨⟨rfl, nofun⟩, nofun⟩

theorem apart_of_head {as bs : List Token} (h : as = [] ∨ (∃ t ∈ as.getLast?, t.kind = .semicolon) ∨
    ∀ t ∈ bs.head?, t.kind ∉ continuations) : Apart as bs := by
  refine h.imp_right (Or.imp_right fun hfirst => closing_of_notMem ?_)
  cases bs with
  | nil => decide
  | cons b bs => exact hfirst b rfl

section Join

variable {as bs : List Token} {y z : Token}

theorem balance_append (as bs : List Token) : balance (as ++ bs) = balance as + balance bs := by
  induction as with
  | nil => simp [balance]
  | cons t as ih =>
    rw [List.cons_append, balance_cons, balance_cons, ih]
    omega

theorem seam_semicolon {t : Token} (ht : t.kind = .semicolon) (hy : y.kind = .eof)
    (us : List Token) : Seam [t, y] (t :: us) := by
  refine ⟨List.cons_ne_nil _ _, .inr ht, fun _ => hy, ?_, ?_⟩
  · exact Grammar.closing_cons us ht (by decide)
  · exact Iff.rfl

theorem nextKind_append_eof (hz : z.kind = .eof) (bs : List Token) :
    nextKind (bs ++ [z]) = nextKind bs := by
  cases bs with
  | nil => exact hz
  | cons b bs => rfl

theorem seam_eof (hy : y.kind = .eof) {us : List Token} (hc : Closing (nextKind us))
    (hs : nextKind us ≠ .semicolon) : Seam [y] us := by
  have hne : nextKind [y] ≠ .semicolon := by
    rw [nextKind, hy]
    decide
  exact ⟨List.cons_ne_nil _ _, .inl hy, fun h => absurd h hne, hc,
    fun h => absurd h hs, fun h => absurd h hne⟩

/-- Tokens that are read without an error and close all of their braces, in front of others. -/
theorem readTokens_append (ha : ∀ a ∈ as, a.kind ≠ .eof) (hy : y.kind = .eof) (hz : z.kind = .eof)
    (hbal : balance as = 0) (hapart : Apart as bs) {d : Nat} {ss : List Statement}
    (h : readTokens d (as ++ [y]) = ⟨ss, [], none⟩) :
    readTokens d (as ++ (bs ++ [z])) = (readTokens d (bs ++ [z])).behind ss [] := by
  rcases hapart with rfl | ⟨t, ht, hk⟩ | ⟨hclosing, hne⟩
  · have hnil : ss = [] := by
      rw [List.nil_append, readTokens, statementsFrom_end (show nextKind [y] = .eof from hy)] at h
      exact (congrArg Reading.statements h).symm
    rw [hnil]
    rfl
  · obtain ⟨cs, rfl⟩ := List.getLast?_eq_some_iff.mp ht
    have hbrace : brace t.kind = 0 := by rw [hk]; rfl
    have hcs : balance cs = 0 := by
      rw [balance_append, balance_cons, hbrace] at hbal
      simpa [balance] using hbal
    have hseam := seam_semicolon hk hy (bs ++ [z])
    rw [List.append_assoc] at h ⊢
    have hread := readTokens_seam hseam (fun c hc => ha c (List.mem_append_left _ hc)) hcs h
    rwa [beyond, if_pos (show nextKind [t, y] = .semicolon from hk)] at hread
  · rw [← nextKind_append_eof hz] at hclosing hne
    have hseam := seam_eof hy hclosing hne
    have hread := readTokens_seam hseam ha hbal h
    have hends : nextKind [y] ≠ .semicolon := by
      rw [nextKind, hy]
      decide
    rwa [beyond, if_neg hends] at hread

end Join

section Starts

variable {ts rest : List Token}

theorem nextKind_of_operand {expression : ExpressionReader} {statement : StatementReader}
    {e : Expression} (h : operand expression statement ts = .read e [] rest) :
    nextKind ts ∈ Grammar.starts := by
  cases ts with
  | nil => cases h
  | cons t ts =>
    rw [nextKind]
    rw [operand] at h
    split at h <;> first | (next hk => rw [hk]; decide) | cases h

theorem nextKind_of_expression {d : Nat} {floor : Precedence} {e : Expression}
    (h : expression d floor ts = .read e [] rest) : nextKind ts ∈ Grammar.starts := by
  cases d with
  | zero =>
    rw [expression] at h
    cases h
  | succ d =>
    obtain ⟨left, vs, hleft, _⟩ := expression_eq_read h
    exact nextKind_of_operand hleft

theorem nextKind_of_statement {d : Nat} {s : Statement}
    (h : statement d ts = .read s [] rest) :
    nextKind ts ∈ .letKw :: .returnKw :: Grammar.starts := by
  cases d with
  | zero =>
    rw [statement] at h
    cases h
  | succ d =>
    rw [statement] at h
    split at h
    · next hk =>
      rw [hk]
      exact List.mem_cons_self
    · next hk =>
      rw [hk]
      exact List.mem_cons_of_mem _ List.mem_cons_self
    · obtain ⟨e, vs, he, _⟩ := Outcome.eq_read_of_andThen h
      exact List.mem_cons_of_mem _ (List.mem_cons_of_mem _ (nextKind_of_expression he))

theorem nextKind_of_readTokens {d : Nat} {ss : List Statement}
    (h : readTokens d ts = ⟨ss, [], none⟩) (hss : ss ≠ []) :
    nextKind ts ∈ .letKw :: .returnKw :: Grammar.starts := by
  cases ts with
  | nil => exact absurd (congrArg Reading.statements h).symm hss
  | cons t ts =>
    rcases statementsFrom_eq_read (progressive d) h with hk | ⟨_, s, vs, hs, _⟩
    · rw [readTokens, statementsFrom_end (show nextKind (t :: ts) = .eof from hk)] at h
      exact absurd (congrArg Reading.statements h).symm hss
    · exact nextKind_of_statement hs

end Starts

section Texts

theorem balance_unplaced (ts : List Token) : balance (ts.map unplaced) = balance ts := by
  induction ts with
  | nil => rfl
  | cons t ts ih => rw [List.map_cons, balance_cons, balance_cons, ih, Token.unplaced_kind]

theorem Apart.unplaced {as bs : List Token} (h : Apart as bs) :
    Apart (as.map Token.unplaced) (bs.map Token.unplaced) := by
  rcases h with rfl | ⟨t, ht, hk⟩ | hclosing
  · exact .inl rfl
  · refine .inr (.inl ⟨t.unplaced, ?_, hk⟩)
    rw [List.getLast?_map]
    exact Option.mem_map_of_mem _ ht
  · refine .inr (.inr ?_)
    rwa [nextKind_unplaced]

/-- A text without an error that closes all of its braces, in front of another line: apart from the
places of the errors, its statements are read, and then what is read of the other line. -/
theorem readText_line {depth : Nat} {a b filea fileb : String} {ss : List Statement}
    (h : readText depth a filea = ⟨ss, [], none⟩)
    (hbal : balance (words filea .start a.toList) = 0)
    (hapart : Apart (words filea .start a.toList) (words fileb .start b.toList))
    (file : String) : (readText depth (a ++ "\n" ++ b) file).unplaced =
      (readText depth b fileb).unplaced.behind ss [] := by
  have htokens : ∀ text file, (readText depth text file).unplaced =
      readTokens depth ((words file .start text.toList).map unplaced ++
        [(Token.eofAt "" .start).unplaced]) := by
    intro text file
    rw [readText, Token.scan, Token.scanFrom_eq_words, ← readTokens_unplaced, List.map_append]
    rfl
  have hline : (a ++ "\n" ++ b).toList = a.toList ++ '\n' :: b.toList := by
    rw [String.toList_append, String.toList_append, List.append_assoc]
    rfl
  have ha := htokens a filea
  rw [h] at ha
  rw [htokens, htokens, hline, Token.words_line, List.map_append, List.append_assoc,
    Token.words_unplaced file filea _ .start, Token.words_unplaced file fileb _ .start]
  refine readTokens_append ?_ rfl rfl ?_ hapart.unplaced ha.symm
  · intro t ht
    obtain ⟨u, hu, rfl⟩ := List.mem_map.mp ht
    exact (Token.mem_words hu).2
  · rw [balance_unplaced, hbal]

/-- The same with the errors of the other line, which are reported in the same words. -/
theorem exists_readText_line {depth : Nat} {a b filea fileb : String} {ss us : List Statement}
    {es : List SyntaxError} (ha : readText depth a filea = ⟨ss, [], none⟩)
    (hb : readText depth b fileb = ⟨us, es, none⟩)
    (hbal : balance (words filea .start a.toList) = 0)
    (hapart : Apart (words filea .start a.toList) (words fileb .start b.toList))
    (file : String) : ∃ fs, readText depth (a ++ "\n" ++ b) file = ⟨ss ++ us, fs, none⟩ ∧
      fs.map SyntaxError.message = es.map SyntaxError.message := by
  have hline := readText_line ha hbal hapart file
  rw [hb] at hline
  generalize readText depth (a ++ "\n" ++ b) file = r at hline ⊢
  obtain ⟨vs, fs, why⟩ := r
  obtain ⟨hstatements, herrors, hrefusal⟩ := Reading.mk.inj hline
  have hstatements : vs = ss ++ us := hstatements
  have herrors : fs.map SyntaxError.unplaced = es.map SyntaxError.unplaced := herrors
  have hrefusal : why = none := hrefusal
  refine ⟨fs, by rw [hstatements, hrefusal], ?_⟩
  have hmessages := congrArg (List.map SyntaxError.message) herrors
  simpa [Function.comp_def] using hmessages

/-- Two texts without errors, one line after the other: the first one closes all of its braces, and
nothing at its end goes on with the second one, which is not empty. -/
theorem readText_line_eq {depth : Nat} {a b filea fileb : String} {ss us : List Statement}
    (ha : readText depth a filea = ⟨ss, [], none⟩) (hb : readText depth b fileb = ⟨us, [], none⟩)
    (hus : us ≠ []) (hbal : balance (words filea .start a.toList) = 0)
    (hapart : words filea .start a.toList = [] ∨
      (∃ t ∈ (words filea .start a.toList).getLast?, t.kind = .semicolon) ∨
      ∀ t ∈ (words fileb .start b.toList).head?, t.kind ≠ .minus ∧ t.kind ≠ .lparen)
    (file : String) : readText depth (a ++ "\n" ++ b) file = ⟨ss ++ us, [], none⟩ := by
  have hstarts : nextKind (words fileb .start b.toList) ∈
      .letKw :: .returnKw :: Grammar.starts := by
    rw [readText, Token.scan, Token.scanFrom_eq_words] at hb
    have hnext := nextKind_of_readTokens hb hus
    rwa [nextKind_append_eof rfl] at hnext
  have hjoin : Apart (words filea .start a.toList) (words fileb .start b.toList) := by
    rcases hapart with hnil | hlast | hfirst
    · exact .inl hnil
    · exact .inr (.inl hlast)
    · refine .inr (.inr ?_)
      revert hstarts hfirst
      cases words fileb .start b.toList with
      | nil => exact fun hstarts => absurd hstarts (by decide)
      | cons t ts =>
        intro hstarts hfirst
        obtain ⟨hminus, hparen⟩ := hfirst t rfl
        refine ⟨Grammar.closing_of_mem hstarts hminus hparen, fun hk => ?_⟩
        rw [hk] at hstarts
        exact absurd hstarts (by decide)
  obtain ⟨fs, hline, hmessages⟩ := exists_readText_line ha hb hbal hjoin file
  rw [hline, List.map_eq_nil_iff.mp hmessages]

end Texts

end Monkey.Reader
