import Monkey.Proofs.Grammar.Sound
import Monkey.Proofs.Reader.Progress

/-!
# Seams between statements

What is read without an error in front of the end of the input is read in front of other tokens as
well, if their first one does not go on with it. Only a block that is still open takes the other
tokens for its own; then more braces are opened than closed.
-/

namespace Monkey.Reader

set_option autoImplicit false

open Grammar (Closing operators_stop)

def brace (k : Token.Kind) : Int :=
  if k = .lbrace then 1 else if k = .rbrace then -1 else 0

/-- The braces that are opened less those that are closed. -/
def balance : List Token → Int
  | [] => 0
  | t :: ts => brace t.kind + balance ts

theorem balance_cons (t : Token) (ts : List Token) :
    balance (t :: ts) = brace t.kind + balance ts := rfl

theorem balance_eq_count (ts : List Token) :
    balance ts =
      (ts.countP (·.kind = .lbrace) : Int) - (ts.countP (·.kind = .rbrace) : Int) := by
  induction ts with
  | nil => rfl
  | cons t ts ih =>
    rw [balance_cons, ih, brace, List.countP_cons, List.countP_cons]
    split
    · next hopen =>
      simp [hopen]
      omega
    · split
      · next hclose =>
        simp [hclose]
        omega
      · next hopen hclose => simp [hopen, hclose]

/-- The tokens `us` can stand where the input ends with `ts`. -/
structure Seam (ts us : List Token) : Prop where
  nonempty : ts ≠ []
  stop : nextKind ts = .eof ∨ nextKind ts = .semicolon
  ended : nextKind ts = .semicolon → nextKind ts.tail = .eof
  closing : Closing (nextKind us)
  semicolon : nextKind us = .semicolon ↔ nextKind ts = .semicolon

/-- What is read of the tokens `xs` in front of `ts` without an error is read in front of `us` as
well, unless `xs` opens more braces than it closes. -/
def Onward {α : Type} (ts us xs : List Token) (o o' : Outcome α) : Prop :=
  (∀ x ∈ xs, x.kind ≠ .eof) → ∀ a rest, o = .read a [] rest → 0 < balance xs ∨
    ∃ ys, ys <:+ xs ∧ balance ys = balance xs ∧ rest = ys ++ ts ∧ o' = .read a [] (ys ++ us)

/-- The same for a statement, which may also take the semicolon behind `xs`. -/
def Stands (ts us xs : List Token) (o o' : Outcome Statement) : Prop :=
  (∀ x ∈ xs, x.kind ≠ .eof) → ∀ s rest, o = .read s [] rest → 0 < balance xs ∨
    (∃ ys, ys <:+ xs ∧ balance ys = balance xs ∧ rest = ys ++ ts ∧ o' = .read s [] (ys ++ us)) ∨
    (xs ≠ [] ∧ balance xs = 0 ∧ nextKind ts = .semicolon ∧ rest = ts.tail ∧
      o' = .read s [] us.tail)

namespace Outcome

variable {α β : Type}

theorem eq_read_of_behind {es : List SyntaxError} {o : Outcome α} {a : α} {rest : List Token}
    (h : o.behind es = .read a [] rest) : es = [] ∧ o = .read a [] rest := by
  cases o with
  | read b fs us =>
    cases es with
    | nil => exact ⟨rfl, h⟩
    | cons e es => cases h
  | dropped fs us => cases h
  | refused r => cases h

theorem eq_read_of_andThen {o : Outcome α} {next : α → List Token → Outcome β} {b : β}
    {rest : List Token} (h : o.andThen next = .read b [] rest) :
    ∃ a us, o = .read a [] us ∧ next a us = .read b [] rest := by
  cases o with
  | read a es us =>
    obtain ⟨rfl, hn⟩ := eq_read_of_behind h
    exact ⟨a, us, rfl, hn⟩
  | dropped es us => cases h
  | refused r => cases h

theorem map_eq_andThen (f : α → β) (o : Outcome α) :
    o.map f = o.andThen fun a rest => .read (f a) [] rest := by
  cases o with
  | read a es rest => simp [map, andThen, behind]
  | dropped es rest => rfl
  | refused r => rfl

end Outcome

theorem Outcome.Sound.ne_read {α : Type} {o : Outcome α} (h : o.Sound fun _ _ => False) (a : α)
    (rest : List Token) : o ≠ .read a [] rest := by
  rintro rfl
  exact h rfl

section Rounds

variable {expression : ExpressionReader} {statement : StatementReader} {b x : Token}
  {bound xs rest : List Token}

/-- A round of a block without an error: the block ends, or a statement is read. -/
theorem blockFrom_eq_read (hp : Progressive expression statement) {done ss : List Statement}
    (h : blockFrom statement (b :: bound) done [] (x :: xs) = .read ss [] rest) :
    (x.kind = .rbrace ∨ x.kind = .eof) ∧ ss = done.reverse ∧ rest = xs ∨
      ¬ (x.kind = .rbrace ∨ x.kind = .eof) ∧ ∃ s vs, statement (x :: xs) = .read s [] vs ∧
        vs.length ≤ xs.length ∧ blockFrom statement bound (s :: done) [] vs = .read ss [] rest := by
  have hs := hp.statement (x :: xs)
  rw [blockFrom] at h
  split at h
  · next hk =>
    cases h
    exact .inl ⟨hk, rfl, rfl⟩
  · next hk =>
    cases ho : statement (x :: xs) with
    | read s es vs =>
      rw [ho] at h hs
      by_cases hes : es = []
      · subst hes
        exact .inr ⟨hk, s, vs, rfl, hs, h⟩
      · exact absurd h ((blockFrom_errors bound _ (by simp [hes]) vs).ne_read ss rest)
    | dropped es vs =>
      rw [ho] at h hs
      exact absurd h ((blockFrom_errors bound _ (by simp [hs.1]) vs).ne_read ss rest)
    | refused r =>
      rw [ho] at h
      cases h

/-- A round of a chain of operators without an error: the next operator does not bind tighter than
the floor, or it is applied. -/
theorem operators_eq_read {floor : Precedence} {left e : Expression}
    (h : operators expression floor (b :: bound) left [] (x :: xs) = .read e [] rest) :
    ¬ floor.rank < (Precedence.ofKind x.kind).rank ∧ e = left ∧ rest = x :: xs ∨
      floor.rank < (Precedence.ofKind x.kind).rank ∧ ∃ f vs,
        application expression left x xs = .read f [] vs ∧
        operators expression floor bound f [] vs = .read e [] rest := by
  rw [operators] at h
  split at h
  · next hk =>
    cases ho : application expression left x xs with
    | read f es vs =>
      rw [ho] at h
      by_cases hes : es = []
      · subst hes
        exact .inr ⟨hk, f, vs, rfl, h⟩
      · exact absurd h ((operators_errors floor bound f (by simp [hes]) vs).ne_read e rest)
    | dropped es vs =>
      rw [ho] at h
      cases h
    | refused r =>
      rw [ho] at h
      cases h
  · next hk =>
    cases h
    exact .inl ⟨hk, rfl, rfl⟩

/-- A round of arguments without an error: the last argument has been read, or another follows. -/
theorem moreArguments_eq_read {done es : List Expression}
    (h : moreArguments expression (b :: bound) done [] (x :: xs) = .read es [] rest) :
    x.kind ≠ .comma ∧ ((expect .rparen (x :: xs)).map fun _ => done.reverse) = .read es [] rest ∨
      x.kind = .comma ∧ ∃ e vs, expression .lowest xs = .read e [] vs ∧
        moreArguments expression bound (e :: done) [] vs = .read es [] rest := by
  rw [moreArguments] at h
  split at h
  · next hk =>
    cases ho : expression .lowest xs with
    | read e fs vs =>
      rw [ho] at h
      by_cases hfs : fs = []
      · subst hfs
        exact .inr ⟨hk, e, vs, rfl, h⟩
      · exact absurd h ((moreArguments_errors bound _ (by simp [hfs]) vs).ne_read es rest)
    | dropped fs vs =>
      rw [ho] at h
      cases h
    | refused r =>
      rw [ho] at h
      cases h
  · next hk =>
    rw [Outcome.behind_nil] at h
    exact .inl ⟨hk, h⟩

end Rounds

theorem ne_eof_of_suffix {xs ys : List Token} (h : ∀ x ∈ xs, x.kind ≠ .eof) (hys : ys <:+ xs) :
    ∀ y ∈ ys, y.kind ≠ .eof :=
  fun y hy => h y (hys.subset hy)

section Onward

variable {α β : Type} {ts us xs : List Token}

theorem onward_of_ne {o o' : Outcome α} (h : ∀ a rest, o ≠ .read a [] rest) :
    Onward ts us xs o o' :=
  fun _ a rest ha => absurd ha (h a rest)

theorem onward_read (a : α) : Onward ts us xs (.read a [] (xs ++ ts)) (.read a [] (xs ++ us)) := by
  intro _ b rest hb
  cases hb
  exact .inr ⟨xs, List.suffix_rfl, rfl, rfl, rfl⟩

/-- Tokens in front that are read already and are balanced. -/
theorem Onward.widen {ys : List Token} {o o' : Outcome α} (h : Onward ts us ys o o')
    (hys : ys <:+ xs) (hbal : balance ys = balance xs) : Onward ts us xs o o' := by
  intro hx a rest ha
  rw [← hbal]
  rcases h (ne_eof_of_suffix hx hys) a rest ha with hopen | ⟨zs, hzs, hbal', hrest, ho⟩
  · exact .inl hopen
  · exact .inr ⟨zs, hzs.trans hys, hbal', hrest, ho⟩

theorem Stands.widen {ys : List Token} {o o' : Outcome Statement} (h : Stands ts us ys o o')
    (hys : ys <:+ xs) (hbal : balance ys = balance xs) : Stands ts us xs o o' := by
  intro hx s rest hs
  rw [← hbal]
  rcases h (ne_eof_of_suffix hx hys) s rest hs with
    hopen | ⟨zs, hzs, hbal', hrest, ho⟩ | ⟨hne, htaken⟩
  · exact .inl hopen
  · exact .inr (.inl ⟨zs, hzs.trans hys, hbal', hrest, ho⟩)
  · refine .inr (.inr ⟨?_, htaken⟩)
    rintro rfl
    exact hne (List.suffix_nil.mp hys)

theorem balance_cons_of_brace {t : Token} (ht : brace t.kind = 0) :
    balance xs = balance (t :: xs) := by
  rw [balance_cons, ht, Int.zero_add]

theorem Onward.cons {t : Token} {o o' : Outcome α} (h : Onward ts us xs o o')
    (ht : brace t.kind = 0) : Onward ts us (t :: xs) o o' :=
  h.widen (List.suffix_cons t xs) (balance_cons_of_brace ht)

theorem Stands.cons {t : Token} {o o' : Outcome Statement} (h : Stands ts us xs o o')
    (ht : brace t.kind = 0) : Stands ts us (t :: xs) o o' :=
  h.widen (List.suffix_cons t xs) (balance_cons_of_brace ht)

theorem read_andThen (a : α) (rest : List Token) (next : α → List Token → Outcome β) :
    (Outcome.read a [] rest).andThen next = next a rest :=
  Outcome.behind_nil _

theorem Onward.andThen {o o' : Outcome α} {next next' : α → List Token → Outcome β}
    (h : Onward ts us xs o o')
    (hn : ∀ a ys, Onward ts us ys (next a (ys ++ ts)) (next' a (ys ++ us))) :
    Onward ts us xs (o.andThen next) (o'.andThen next') := by
  intro hx b rest hb
  obtain ⟨a, vs, rfl, hnext⟩ := Outcome.eq_read_of_andThen hb
  rcases h hx a vs rfl with hopen | ⟨ys, hys, hbal, rfl, rfl⟩
  · exact .inl hopen
  · rw [read_andThen]
    exact (hn a ys).widen hys hbal hx b rest hnext

theorem Onward.andThen_stands {o o' : Outcome α} {next next' : α → List Token → Outcome Statement}
    (h : Onward ts us xs o o')
    (hn : ∀ a ys, Stands ts us ys (next a (ys ++ ts)) (next' a (ys ++ us))) :
    Stands ts us xs (o.andThen next) (o'.andThen next') := by
  intro hx b rest hb
  obtain ⟨a, vs, rfl, hnext⟩ := Outcome.eq_read_of_andThen hb
  rcases h hx a vs rfl with hopen | ⟨ys, hys, hbal, rfl, rfl⟩
  · exact .inl hopen
  · rw [read_andThen]
    exact (hn a ys).widen hys hbal hx b rest hnext

theorem Onward.map {o o' : Outcome α} (h : Onward ts us xs o o') (f : α → β) :
    Onward ts us xs (o.map f) (o'.map f) := by
  rw [Outcome.map_eq_andThen, Outcome.map_eq_andThen]
  apply h.andThen
  intro a ys
  exact onward_read (f a)

end Onward

namespace Seam

variable {ts us : List Token}

theorem nextKind_ne (h : Seam ts us) {k : Token.Kind} (he : k ≠ .eof) (hs : k ≠ .semicolon) :
    nextKind ts ≠ k := by
  rcases h.stop with hk | hk <;> rw [hk]
  · exact he.symm
  · exact hs.symm

theorem expect_ne (h : Seam ts us) {k : Token.Kind} (he : k ≠ .eof) (hs : k ≠ .semicolon)
    (t : Token) (rest : List Token) : expect k ts ≠ .read t [] rest := by
  intro hread
  have hne := h.nextKind_ne he hs
  cases ts with
  | nil => cases hread
  | cons t ts =>
    have hne : t.kind ≠ k := hne
    rw [expect, if_neg hne] at hread
    cases hread

theorem expect_onward (h : Seam ts us) {k : Token.Kind} (he : k ≠ .eof) (hs : k ≠ .semicolon)
    (hk : brace k = 0) (xs : List Token) :
    Onward ts us xs (expect k (xs ++ ts)) (expect k (xs ++ us)) := by
  cases xs with
  | nil => exact onward_of_ne (h.expect_ne he hs)
  | cons x xs =>
    rw [List.cons_append, List.cons_append, expect, expect]
    split
    · next hx =>
      rw [← hx] at hk
      exact (onward_read x).cons hk
    · exact onward_of_ne fun _ _ hread => by cases hread

end Seam

structure Steady (ts us : List Token) (expression : ExpressionReader)
    (statement : StatementReader) : Prop where
  expression : ∀ floor xs,
    Onward ts us xs (expression floor (xs ++ ts)) (expression floor (xs ++ us))
  statement : ∀ xs, Stands ts us xs (statement (xs ++ ts)) (statement (xs ++ us))

section Constructs

variable {ts us xs : List Token} {expression : ExpressionReader} {statement : StatementReader}

/-- A block is closed in front of the seam, or opens a brace that is not closed. -/
theorem blockFrom_onward (hp : Progressive expression statement)
    (h : Steady ts us expression statement) (bound bound' : List Token) (done : List Statement)
    {xs : List Token} (hx : ∀ x ∈ xs, x.kind ≠ .eof) (hb : (xs ++ ts).length ≤ bound.length)
    (hb' : (xs ++ us).length ≤ bound'.length) {ss : List Statement} {rest : List Token}
    (hread : blockFrom statement bound done [] (xs ++ ts) = .read ss [] rest) :
    0 ≤ balance xs ∨ ∃ ys, ys <:+ xs ∧ balance ys = balance xs + 1 ∧ rest = ys ++ ts ∧
      blockFrom statement bound' done [] (xs ++ us) = .read ss [] (ys ++ us) := by
  induction bound generalizing bound' done xs with
  | nil =>
    cases xs with
    | nil => exact .inl (Int.le_refl 0)
    | cons x xs => exact absurd hb (by simp)
  | cons b bound ih =>
    cases xs with
    | nil => exact .inl (Int.le_refl 0)
    | cons x xs =>
      cases bound' with
      | nil => exact absurd hb' (by simp)
      | cons b' bound' =>
        simp only [List.cons_append, List.length_cons, List.length_append,
          Nat.add_le_add_iff_right] at hb hb'
        rw [List.cons_append] at hread ⊢
        rcases blockFrom_eq_read hp hread with
          ⟨hk, rfl, rfl⟩ | ⟨hk, s, vs, hs, hlen, hnext⟩
        · have hclose : x.kind = .rbrace := hk.resolve_right (hx x List.mem_cons_self)
          have hbrace : brace x.kind = -1 := by rw [hclose]; rfl
          refine .inr ⟨xs, List.suffix_cons x xs, ?_, rfl, ?_⟩
          · rw [balance_cons, hbrace]
            omega
          · rw [blockFrom, if_pos hk]
            rfl
        · rcases h.statement (x :: xs) hx s vs hs with
            hopen | ⟨ys, hys, hbal, rfl, ho⟩ | ⟨_, hbal, _⟩
          · exact .inl (Int.le_of_lt hopen)
          · have hle : ys.length ≤ xs.length := by
              simp only [List.length_append] at hlen
              omega
            rw [← hbal, blockFrom, if_neg hk]
            rw [List.cons_append] at ho
            rw [ho]
            have hrest := ih bound' (s :: done) (ne_eof_of_suffix hx hys)
              (by rw [List.length_append]; omega) (by rw [List.length_append]; omega) hnext
            rcases hrest with hopen | ⟨zs, hzs, hbal', hrest, ho'⟩
            · exact .inl hopen
            · exact .inr ⟨zs, hzs.trans hys, hbal', hrest, ho'⟩
          · exact .inl (Int.le_of_eq hbal.symm)

theorem braced_onward {β : Type} (hseam : Seam ts us) (hp : Progressive expression statement)
    (h : Steady ts us expression statement) {next next' : List Statement → List Token → Outcome β}
    (hn : ∀ ss ys, Onward ts us ys (next ss (ys ++ ts)) (next' ss (ys ++ us))) (xs : List Token) :
    Onward ts us xs
      ((expect .lbrace (xs ++ ts)).andThen fun _ rest => (block statement rest).andThen next)
      ((expect .lbrace (xs ++ us)).andThen fun _ rest => (block statement rest).andThen next') := by
  intro hx b rest hb
  obtain ⟨l, vs, hl, hrest⟩ := Outcome.eq_read_of_andThen hb
  obtain ⟨ss, ws, hss, hnext⟩ := Outcome.eq_read_of_andThen hrest
  cases xs with
  | nil => exact absurd hl (hseam.expect_ne (by decide) (by decide) l vs)
  | cons x xs =>
    rw [List.cons_append, expect] at hl
    split at hl
    · next hk =>
      cases hl
      have hbrace : brace l.kind = 1 := by rw [hk]; rfl
      have hinner := ne_eof_of_suffix hx (List.suffix_cons l xs)
      rw [balance_cons, hbrace, List.cons_append, expect, if_pos hk]
      rcases blockFrom_onward hp h _ (xs ++ us) [] hinner (Nat.le_refl _) (Nat.le_refl _) hss with
        hopen | ⟨ys, hys, hbal, rfl, ho⟩
      · exact .inl (by omega)
      · rcases hn ss ys (ne_eof_of_suffix hinner hys) b rest hnext with
          hopen | ⟨zs, hzs, hbal', hzrest, ho'⟩
        · exact .inl (by omega)
        · refine .inr ⟨zs, (hzs.trans hys).trans (List.suffix_cons l xs), by omega, hzrest, ?_⟩
          have hblock : block statement (xs ++ us) = .read ss [] (ys ++ us) := ho
          simp only [Outcome.andThen, hblock, ho', Outcome.behind_nil]
    · cases hl

theorem grouped_onward (hseam : Seam ts us) (h : Steady ts us expression statement)
    (xs : List Token) :
    Onward ts us xs (grouped expression (xs ++ ts)) (grouped expression (xs ++ us)) := by
  apply (h.expression .lowest xs).andThen
  intro e ys
  exact (hseam.expect_onward (by decide) (by decide) rfl ys).map _

theorem alternative_onward (hseam : Seam ts us) (hp : Progressive expression statement)
    (h : Steady ts us expression statement) (xs : List Token) :
    Onward ts us xs (alternative statement (xs ++ ts)) (alternative statement (xs ++ us)) := by
  cases xs with
  | nil =>
    rw [List.nil_append, List.nil_append, alternative, alternative,
      if_neg (hseam.nextKind_ne (by decide) (by decide)), if_neg hseam.closing.2]
    exact onward_read none
  | cons x xs =>
    rw [alternative, alternative]
    by_cases hk : x.kind = .elseKw
    · have hbrace : brace x.kind = 0 := by rw [hk]; rfl
      rw [if_pos (show nextKind (x :: xs ++ ts) = .elseKw from hk),
        if_pos (show nextKind (x :: xs ++ us) = .elseKw from hk)]
      simp only [List.cons_append, List.tail_cons, Outcome.map_eq_andThen]
      exact (braced_onward hseam hp h (fun ss ys => onward_read (some ss)) xs).cons hbrace
    · rw [if_neg (show nextKind (x :: xs ++ ts) ≠ .elseKw from hk),
        if_neg (show nextKind (x :: xs ++ us) ≠ .elseKw from hk)]
      exact onward_read none

theorem conditional_onward (hseam : Seam ts us) (hp : Progressive expression statement)
    (h : Steady ts us expression statement) (xs : List Token) :
    Onward ts us xs (conditional expression statement (xs ++ ts))
      (conditional expression statement (xs ++ us)) := by
  apply (h.expression .lowest xs).andThen
  intro c ys
  apply braced_onward hseam hp h
  intro t zs
  exact (alternative_onward hseam hp h zs).map _

theorem moreParameters_onward (hseam : Seam ts us) (done : List String) :
    (xs : List Token) →
      Onward ts us xs (moreParameters done (xs ++ ts)) (moreParameters done (xs ++ us))
  | [] => by
    apply onward_of_ne
    intro ps rest hread
    have hcomma := hseam.nextKind_ne (k := .comma) (by decide) (by decide)
    rw [List.nil_append, moreParameters.eq_def] at hread
    cases ts with
    | nil => cases hread
    | cons t ts =>
      dsimp only at hread
      rw [if_neg (show ¬ t.kind = .comma from hcomma), Outcome.map_eq_andThen] at hread
      obtain ⟨r, vs, hr, _⟩ := Outcome.eq_read_of_andThen hread
      exact hseam.expect_ne (by decide) (by decide) r vs hr
  | [x] => by
    by_cases hk : x.kind = .comma
    · apply onward_of_ne
      intro ps rest hread
      have hident := hseam.nextKind_ne (k := .ident) (by decide) (by decide)
      rw [List.cons_append, List.nil_append, moreParameters.eq_def] at hread
      dsimp only at hread
      rw [if_pos hk] at hread
      cases ts with
      | nil => cases hread
      | cons t ts =>
        dsimp only at hread
        rw [if_neg (show ¬ t.kind = .ident from hident)] at hread
        cases hread
    · rw [moreParameters.eq_def, moreParameters.eq_def]
      simp only [List.cons_append, List.nil_append, if_neg hk]
      exact (hseam.expect_onward (by decide) (by decide) rfl [x]).map _
  | x :: p :: xs => by
    by_cases hk : x.kind = .comma
    · rw [moreParameters.eq_def, moreParameters.eq_def]
      simp only [List.cons_append, if_pos hk]
      split
      · next hp =>
        have ih := moreParameters_onward hseam (p.literal :: done) xs
        exact (ih.cons (by rw [hp]; rfl)).cons (by rw [hk]; rfl)
      · exact onward_of_ne fun _ _ hread => by cases hread
    · rw [moreParameters.eq_def, moreParameters.eq_def]
      simp only [List.cons_append, if_neg hk]
      exact (hseam.expect_onward (by decide) (by decide) rfl (x :: p :: xs)).map _

theorem parameters_onward (hseam : Seam ts us) (xs : List Token) :
    Onward ts us xs (parameters (xs ++ ts)) (parameters (xs ++ us)) := by
  cases xs with
  | nil =>
    apply onward_of_ne
    intro ps rest hread
    rw [List.nil_append, parameters, if_neg (hseam.nextKind_ne (by decide) (by decide))] at hread
    obtain ⟨p, vs, hp, _⟩ := Outcome.eq_read_of_andThen hread
    exact hseam.expect_ne (by decide) (by decide) p vs hp
  | cons x xs =>
    rw [parameters, parameters]
    by_cases hk : x.kind = .rparen
    · rw [if_pos (show nextKind (x :: xs ++ ts) = .rparen from hk),
        if_pos (show nextKind (x :: xs ++ us) = .rparen from hk)]
      exact (onward_read []).cons (by rw [hk]; rfl)
    · rw [if_neg (show nextKind (x :: xs ++ ts) ≠ .rparen from hk),
        if_neg (show nextKind (x :: xs ++ us) ≠ .rparen from hk)]
      apply (hseam.expect_onward (by decide) (by decide) rfl (x :: xs)).andThen
      intro p ys
      exact moreParameters_onward hseam [p.literal] ys

theorem function_onward (hseam : Seam ts us) (hp : Progressive expression statement)
    (h : Steady ts us expression statement) (xs : List Token) :
    Onward ts us xs (function statement (xs ++ ts)) (function statement (xs ++ us)) := by
  apply (hseam.expect_onward (by decide) (by decide) rfl xs).andThen
  intro _ ys
  apply (parameters_onward hseam ys).andThen
  intro ps zs
  simp only [Outcome.map_eq_andThen]
  apply braced_onward hseam hp h
  intro body ws
  exact onward_read (Expression.function ps body)

/-- A token that stands for an expression, or opens one, is no brace. -/
theorem operand_onward (hseam : Seam ts us) (hp : Progressive expression statement)
    (h : Steady ts us expression statement) (xs : List Token) :
    Onward ts us xs (operand expression statement (xs ++ ts))
      (operand expression statement (xs ++ us)) := by
  cases xs with
  | nil =>
    apply onward_of_ne
    intro e rest hread
    cases ts with
    | nil => cases hread
    | cons t ts =>
      have hk : t.kind = .eof ∨ t.kind = .semicolon := hseam.stop
      rw [List.nil_append, operand] at hread
      rcases hk with hk | hk <;> rw [hk] at hread <;> cases hread
  | cons t xs =>
    rw [List.cons_append, List.cons_append, operand, operand]
    split
    · next hk => exact (onward_read _).cons (by rw [hk]; rfl)
    · next hk =>
      refine Onward.cons ?_ (by rw [hk]; rfl)
      rw [integerLiteral, integerLiteral]
      split
      · exact onward_of_ne fun _ _ hread => by cases hread
      · split
        · exact onward_of_ne fun _ _ hread => by cases hread
        · exact onward_read _
    · next hk => exact (onward_read _).cons (by rw [hk]; rfl)
    · next hk => exact (onward_read _).cons (by rw [hk]; rfl)
    · next hk => exact (onward_read _).cons (by rw [hk]; rfl)
    · next hk => exact ((h.expression .unary xs).map _).cons (by rw [hk]; rfl)
    · next hk => exact ((h.expression .unary xs).map _).cons (by rw [hk]; rfl)
    · next hk => exact (grouped_onward hseam h xs).cons (by rw [hk]; rfl)
    · next hk => exact (conditional_onward hseam hp h xs).cons (by rw [hk]; rfl)
    · next hk => exact (function_onward hseam hp h xs).cons (by rw [hk]; rfl)
    · exact onward_of_ne fun _ _ hread => by cases hread

theorem moreArguments_ne (hseam : Seam ts us) (bound : List Token) (done es : List Expression)
    (rest : List Token) : moreArguments expression bound done [] ts ≠ .read es [] rest := by
  intro hread
  have hlast : ((expect .rparen ts).map fun _ => done.reverse) ≠ .read es [] rest := by
    intro hlast
    rw [Outcome.map_eq_andThen] at hlast
    obtain ⟨r, vs, hr, _⟩ := Outcome.eq_read_of_andThen hlast
    exact hseam.expect_ne (by decide) (by decide) r vs hr
  cases bound with
  | nil =>
    rw [moreArguments, Outcome.behind_nil] at hread
    · exact hlast hread
    · simp
  | cons b bound =>
    cases ts with
    | nil =>
      rw [moreArguments, Outcome.behind_nil] at hread
      · exact hlast hread
      · simp
    | cons t ts =>
      rcases moreArguments_eq_read hread with ⟨_, hread⟩ | ⟨hk, _⟩
      · exact hlast hread
      · exact hseam.nextKind_ne (k := .comma) (by decide) (by decide) hk

theorem moreArguments_onward (hseam : Seam ts us) (h : Steady ts us expression statement)
    (bound bound' : List Token) (done : List Expression) {xs : List Token}
    (hb : (xs ++ ts).length ≤ bound.length) (hb' : (xs ++ us).length ≤ bound'.length) :
    Onward ts us xs (moreArguments expression bound done [] (xs ++ ts))
      (moreArguments expression bound' done [] (xs ++ us)) := by
  induction bound generalizing bound' done xs with
  | nil =>
    cases xs with
    | nil => exact onward_of_ne (moreArguments_ne hseam [] done)
    | cons x xs => exact absurd hb (by simp)
  | cons b bound ih =>
    cases xs with
    | nil => exact onward_of_ne (moreArguments_ne hseam (b :: bound) done)
    | cons x xs =>
      cases bound' with
      | nil => exact absurd hb' (by simp)
      | cons b' bound' =>
        simp only [List.cons_append, List.length_cons, List.length_append,
          Nat.add_le_add_iff_right] at hb hb'
        intro hx es rest hread
        rcases moreArguments_eq_read hread with ⟨hk, hlast⟩ | ⟨hk, e, vs, he, hnext⟩
        · have honward := (hseam.expect_onward (k := .rparen) (by decide) (by decide) rfl
            (x :: xs)).map fun _ => done.reverse
          rw [List.cons_append, moreArguments, if_neg hk, Outcome.behind_nil]
          exact honward hx es rest hlast
        · have hbal : balance xs = balance (x :: xs) := balance_cons_of_brace (by rw [hk]; rfl)
          have hsuffix := List.suffix_cons x xs
          rw [List.cons_append, moreArguments, if_pos hk]
          rcases h.expression .lowest xs (ne_eof_of_suffix hx hsuffix) e vs he with
            hopen | ⟨ys, hys, hbal', rfl, ho⟩
          · exact .inl (hbal ▸ hopen)
          · have hle := hys.length_le
            rw [ho]
            have hrest := ih bound' (e :: done)
              (show (ys ++ ts).length ≤ bound.length by rw [List.length_append]; omega)
              (show (ys ++ us).length ≤ bound'.length by rw [List.length_append]; omega)
            exact hrest.widen (hys.trans hsuffix) (hbal'.trans hbal) hx es rest hnext

theorem Steady.expression_ne (hseam : Seam ts us) (hp : Progressive expression statement)
    (h : Steady ts us expression statement) (floor : Precedence) (e : Expression)
    (rest : List Token) : expression floor ts ≠ .read e [] rest := by
  intro hread
  have hlen := hp.expression floor ts
  rw [hread] at hlen
  rcases h.expression floor [] (fun _ hx => absurd hx List.not_mem_nil) e rest hread with
    hopen | ⟨ys, hys, _, rfl, _⟩
  · exact absurd hopen (Int.lt_irrefl 0)
  · rw [List.suffix_nil.mp hys] at hlen
    have hpos := List.length_pos_iff.mpr hseam.nonempty
    have hlen : ts.length ≤ ts.length - 1 := hlen
    omega

theorem arguments_onward (hseam : Seam ts us) (hp : Progressive expression statement)
    (h : Steady ts us expression statement) (xs : List Token) :
    Onward ts us xs (arguments expression (xs ++ ts)) (arguments expression (xs ++ us)) := by
  have hmore : ∀ xs, Onward ts us xs
      ((expression .lowest (xs ++ ts)).andThen fun e rest =>
        moreArguments expression rest [e] [] rest)
      ((expression .lowest (xs ++ us)).andThen fun e rest =>
        moreArguments expression rest [e] [] rest) := by
    intro xs
    apply (h.expression .lowest xs).andThen
    intro e ys
    exact moreArguments_onward hseam h _ _ [e] (Nat.le_refl _) (Nat.le_refl _)
  cases xs with
  | nil =>
    apply onward_of_ne
    intro es rest hread
    rw [List.nil_append, arguments, if_neg (hseam.nextKind_ne (by decide) (by decide))] at hread
    obtain ⟨e, vs, he, _⟩ := Outcome.eq_read_of_andThen hread
    exact h.expression_ne hseam hp .lowest e vs he
  | cons x xs =>
    rw [arguments, arguments]
    by_cases hk : x.kind = .rparen
    · rw [if_pos (show nextKind (x :: xs ++ ts) = .rparen from hk),
        if_pos (show nextKind (x :: xs ++ us) = .rparen from hk)]
      exact (onward_read []).cons (by rw [hk]; rfl)
    · rw [if_neg (show nextKind (x :: xs ++ ts) ≠ .rparen from hk),
        if_neg (show nextKind (x :: xs ++ us) ≠ .rparen from hk)]
      exact hmore (x :: xs)

/-- An operator is no brace, and neither is the parenthesis of a call. -/
theorem brace_of_binds {floor : Precedence} {k : Token.Kind}
    (h : floor.rank < (Precedence.ofKind k).rank) : brace k = 0 := by
  unfold brace
  split
  · next hk =>
    subst hk
    exact absurd h (Nat.not_lt.mpr floor.one_le_rank)
  · split
    · next hk =>
      subst hk
      exact absurd h (Nat.not_lt.mpr floor.one_le_rank)
    · rfl

theorem application_onward (hseam : Seam ts us) (hp : Progressive expression statement)
    (h : Steady ts us expression statement)
    (left : Expression) (t : Token) (xs : List Token) :
    Onward ts us xs (application expression left t (xs ++ ts))
      (application expression left t (xs ++ us)) := by
  rw [application, application]
  split
  · exact (arguments_onward hseam hp h xs).map _
  · exact (h.expression _ xs).map _

theorem operators_onward (hseam : Seam ts us) (hp : Progressive expression statement)
    (h : Steady ts us expression statement) (floor : Precedence) (bound bound' : List Token)
    (left : Expression) {xs : List Token}
    (hb : (xs ++ ts).length ≤ bound.length) (hb' : (xs ++ us).length ≤ bound'.length) :
    Onward ts us xs (operators expression floor bound left [] (xs ++ ts))
      (operators expression floor bound' left [] (xs ++ us)) := by
  have hstop : ∀ bound bound' left, Onward ts us [] (operators expression floor bound left [] ts)
      (operators expression floor bound' left [] us) := by
    intro bound bound' left
    have hts : (Precedence.ofKind (nextKind ts)).rank ≤ floor.rank := by
      rcases hseam.stop with hk | hk <;> rw [hk] <;> exact floor.one_le_rank
    have hus : (Precedence.ofKind (nextKind us)).rank ≤ floor.rank := by
      rw [hseam.closing.1]
      exact floor.one_le_rank
    rw [operators_stop hts, operators_stop hus]
    exact onward_read left
  induction bound generalizing bound' left xs with
  | nil =>
    cases xs with
    | nil => exact hstop [] bound' left
    | cons x xs => exact absurd hb (by simp)
  | cons b bound ih =>
    cases xs with
    | nil => exact hstop (b :: bound) bound' left
    | cons x xs =>
      cases bound' with
      | nil => exact absurd hb' (by simp)
      | cons b' bound' =>
        simp only [List.cons_append, List.length_cons, List.length_append,
          Nat.add_le_add_iff_right] at hb hb'
        intro hx e rest hread
        rcases operators_eq_read hread with ⟨hk, rfl, rfl⟩ | ⟨hk, f, vs, hf, hnext⟩
        · rw [List.cons_append, operators, if_neg hk]
          exact .inr ⟨x :: xs, List.suffix_rfl, rfl, rfl, rfl⟩
        · have hbal : balance xs = balance (x :: xs) := balance_cons_of_brace (brace_of_binds hk)
          have hsuffix := List.suffix_cons x xs
          rw [List.cons_append, operators, if_pos hk]
          rcases application_onward hseam hp h left x xs (ne_eof_of_suffix hx hsuffix) f vs hf with
            hopen | ⟨ys, hys, hbal', rfl, ho⟩
          · exact .inl (hbal ▸ hopen)
          · have hle := hys.length_le
            rw [ho]
            have hrest := ih bound' f
              (show (ys ++ ts).length ≤ bound.length by rw [List.length_append]; omega)
              (show (ys ++ us).length ≤ bound'.length by rw [List.length_append]; omega)
            exact hrest.widen (hys.trans hsuffix) (hbal'.trans hbal) hx e rest hnext

theorem skipSemicolon_cons_append (y : Token) (ys zs : List Token) :
    skipSemicolon (y :: ys ++ zs) = skipSemicolon (y :: ys) ++ zs := by
  rw [List.cons_append, skipSemicolon, skipSemicolon]
  split <;> rfl

theorem skipSemicolon_eq_tail {zs : List Token} (h : nextKind zs = .semicolon) :
    skipSemicolon zs = zs.tail := by
  cases zs with
  | nil => rfl
  | cons z zs => exact if_pos h

theorem balance_skipSemicolon (zs : List Token) : balance (skipSemicolon zs) = balance zs := by
  cases zs with
  | nil => rfl
  | cons z zs =>
    rw [skipSemicolon]
    split
    · next hk =>
      have hbrace : brace z.kind = 0 := by rw [hk]; rfl
      rw [balance_cons, hbrace, Int.zero_add]
    · rfl

theorem last_stands (hseam : Seam ts us) (hp : Progressive expression statement)
    (h : Steady ts us expression statement) (f : Expression → Statement) (xs : List Token) :
    Stands ts us xs
      ((expression .lowest (xs ++ ts)).andThen fun e rest =>
        .read (f e) [] (skipSemicolon rest))
      ((expression .lowest (xs ++ us)).andThen fun e rest =>
        .read (f e) [] (skipSemicolon rest)) := by
  intro hx s rest hs
  obtain ⟨e, vs, he, hlast⟩ := Outcome.eq_read_of_andThen hs
  cases hlast
  rcases h.expression .lowest xs hx e vs he with hopen | ⟨ys, hys, hbal, rfl, ho⟩
  · exact .inl hopen
  · rw [ho]
    cases ys with
    | cons y ys =>
      have hsuffix := (skipSemicolon_suffix (y :: ys)).trans hys
      refine .inr (.inl ⟨skipSemicolon (y :: ys), hsuffix, ?_, ?_, ?_⟩)
      · rw [balance_skipSemicolon, hbal]
      · rw [skipSemicolon_cons_append]
      · rw [← skipSemicolon_cons_append]
        rfl
    | nil =>
      by_cases hsemi : nextKind ts = .semicolon
      · have hne : xs ≠ [] := by
          rintro rfl
          exact h.expression_ne hseam hp .lowest e _ he
        refine .inr (.inr ⟨hne, hbal.symm, hsemi, skipSemicolon_eq_tail hsemi, ?_⟩)
        rw [← skipSemicolon_eq_tail (hseam.semicolon.mpr hsemi)]
        rfl
      · have hus : nextKind us ≠ .semicolon := fun hk => hsemi (hseam.semicolon.mp hk)
        refine .inr (.inl ⟨[], hys, hbal, Grammar.skipSemicolon_eq hsemi, ?_⟩)
        change Outcome.read (f e) [] (skipSemicolon us) = .read (f e) [] us
        rw [Grammar.skipSemicolon_eq hus]

theorem binding_stands (hseam : Seam ts us) (hp : Progressive expression statement)
    (h : Steady ts us expression statement) (xs : List Token) :
    Stands ts us xs (binding expression (xs ++ ts)) (binding expression (xs ++ us)) := by
  apply (hseam.expect_onward (by decide) (by decide) rfl xs).andThen_stands
  intro name ys
  apply (hseam.expect_onward (by decide) (by decide) rfl ys).andThen_stands
  intro _ zs
  exact last_stands hseam hp h (.binding name.literal) zs

end Constructs

section Steady

variable {ts us : List Token}

theorem statement_succ_stands (hseam : Seam ts us) {d : Nat}
    (h : Steady ts us (expression d) (statement d)) (xs : List Token) :
    Stands ts us xs (statement (d + 1) (xs ++ ts)) (statement (d + 1) (xs ++ us)) := by
  cases xs with
  | nil =>
    intro _ s rest hread
    have hlet := hseam.nextKind_ne (k := .letKw) (by decide) (by decide)
    have hret := hseam.nextKind_ne (k := .returnKw) (by decide) (by decide)
    rw [List.nil_append, statement] at hread
    split at hread
    · next hk => exact absurd hk hlet
    · next hk => exact absurd hk hret
    · obtain ⟨e, vs, he, _⟩ := Outcome.eq_read_of_andThen hread
      exact absurd he (h.expression_ne hseam (progressive d) .lowest e vs)
  | cons x xs =>
    have hnext : ∀ zs : List Token, nextKind (x :: xs ++ zs) = x.kind := fun _ => rfl
    rw [statement, statement, hnext, hnext]
    split
    · next hk => exact (binding_stands hseam (progressive d) h xs).cons (by rw [hk]; rfl)
    · next hk => exact (last_stands hseam (progressive d) h .ret xs).cons (by rw [hk]; rfl)
    · exact last_stands hseam (progressive d) h .expression (x :: xs)

theorem expression_eq_read {d : Nat} {floor : Precedence} {zs rest : List Token}
    {e : Expression} (h : expression (d + 1) floor zs = .read e [] rest) :
    ∃ left vs, operand (expression d) (statement d) zs = .read left [] vs ∧
      operators (expression d) floor vs left [] vs = .read e [] rest := by
  rw [expression] at h
  cases ho : operand (expression d) (statement d) zs with
  | read left es vs =>
    rw [ho] at h
    by_cases hes : es = []
    · subst hes
      exact ⟨left, vs, rfl, h⟩
    · exact absurd h ((operators_errors floor vs left hes vs).ne_read e rest)
  | dropped es vs =>
    rw [ho] at h
    cases h
  | refused r =>
    rw [ho] at h
    cases h

theorem expression_succ_onward (hseam : Seam ts us) {d : Nat}
    (h : Steady ts us (expression d) (statement d)) (floor : Precedence) (xs : List Token) :
    Onward ts us xs (expression (d + 1) floor (xs ++ ts))
      (expression (d + 1) floor (xs ++ us)) := by
  intro hx e rest hread
  obtain ⟨left, vs, hleft, hops⟩ := expression_eq_read hread
  rcases operand_onward hseam (progressive d) h xs hx left vs hleft with
    hopen | ⟨ys, hys, hbal, rfl, ho⟩
  · exact .inl hopen
  · have honward := operators_onward hseam (progressive d) h floor _ _ left
      (Nat.le_refl (ys ++ ts).length) (Nat.le_refl (ys ++ us).length)
    rw [expression, ho]
    exact honward.widen hys hbal hx e rest hops

theorem steady (hseam : Seam ts us) (d : Nat) : Steady ts us (expression d) (statement d) := by
  induction d with
  | zero =>
    constructor
    · intro floor xs
      rw [expression]
      exact onward_of_ne fun _ _ hread => by cases hread
    · intro xs _ s rest hread
      rw [statement] at hread
      cases hread
  | succ d ih =>
    constructor
    · exact expression_succ_onward hseam ih
    · exact statement_succ_stands hseam ih

end Steady

end Monkey.Reader
