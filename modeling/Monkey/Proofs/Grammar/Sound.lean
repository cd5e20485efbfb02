import Monkey.Proofs.Grammar.Loosen

/-!
# What is read is a phrase

Whatever is read without an error is derived by the grammar, with the tree that was read. The
constructs are treated one by one under the assumption that the readers of their parts are sound.
-/

namespace Monkey.Reader

set_option autoImplicit false

open Token (front)
open Grammar (Level)

namespace Outcome

variable {α β : Type} {P : α → List Token → Prop} {Q : β → List Token → Prop}

/-- A reading without errors satisfies `P`, and nothing is dropped without an error. -/
def Sound (P : α → List Token → Prop) : Outcome α → Prop
  | read a es rest => es = [] → P a rest
  | dropped es _ => es ≠ []
  | refused _ => True

theorem Sound.imp {R : α → List Token → Prop} {o : Outcome α} (h : o.Sound P)
    (hi : ∀ a rest, P a rest → R a rest) : o.Sound R := by
  cases o with
  | read a es rest => exact fun he => hi a rest (h he)
  | dropped es rest => exact h
  | refused r => trivial

theorem Sound.behind {o : Outcome α} (h : o.Sound P) (es : List SyntaxError) :
    (o.behind es).Sound P := by
  cases o with
  | read a fs rest => exact fun he => h (List.append_eq_nil_iff.mp he).2
  | dropped fs rest => exact fun he => h (List.append_eq_nil_iff.mp he).2
  | refused r => trivial

theorem sound_behind {es : List SyntaxError} (hes : es ≠ []) (o : Outcome α) :
    (o.behind es).Sound P := by
  cases o with
  | read a fs rest => exact fun he => absurd (List.append_eq_nil_iff.mp he).1 hes
  | dropped fs rest => exact fun he => absurd (List.append_eq_nil_iff.mp he).1 hes
  | refused r => trivial

theorem Sound.andThen {o : Outcome α} {next : α → List Token → Outcome β} (h : o.Sound P)
    (hn : ∀ a rest, P a rest → (next a rest).Sound Q) : (o.andThen next).Sound Q := by
  cases o with
  | read a es rest =>
    by_cases hes : es = []
    · exact (hn a rest (h hes)).behind es
    · exact sound_behind hes _
  | dropped es rest => exact h
  | refused r => trivial

theorem Sound.map {o : Outcome α} {f : α → β} (h : o.Sound P)
    (hf : ∀ a rest, P a rest → Q (f a) rest) : (o.map f).Sound Q := by
  cases o with
  | read a es rest => exact fun hes => hf a rest (h hes)
  | dropped es rest => exact h
  | refused r => trivial

end Outcome

theorem expect_sound (k : Token.Kind) (ts : List Token) :
    (expect k ts).Sound fun t rest => ts = t :: rest ∧ t.kind = k := by
  cases ts with
  | nil => simp [expect, Outcome.Sound]
  | cons t ts =>
    rw [expect]
    split
    · next h => exact fun _ => ⟨rfl, h⟩
    · exact List.cons_ne_nil _ _

/-- No operator follows that binds tighter than the rank. -/
def Rests (rank : Nat) (ys : List Token) : Prop := (Precedence.ofKind (nextKind ys)).rank ≤ rank

def Stated (xs : List Token) (s : Statement) (ys : List Token) : Prop :=
  ∃ zs, zs <:+ xs ∧ Grammar.Clause (front xs) s (front zs) ∧ Rests 1 zs ∧ ys = skipSemicolon zs

/-- An expression of a level has been read that is no looser than `q`, up to an operator that binds
no tighter than its level. -/
def Held (q : Level) (ts : List Token) (e : Expression) (ys : List Token) : Prop :=
  ∃ p, q.height ≤ p.height ∧ Grammar.Expression p ts e (front ys) ∧ Rests p.rank ys

theorem Held.mono {q r : Level} {ts ys : List Token} {e : Expression} (h : Held q ts e ys)
    (hr : r.height ≤ q.height) : Held r ts e ys := by
  obtain ⟨p, hp, hrest⟩ := h
  exact ⟨p, Nat.le_trans hr hp, hrest⟩

/-- The readers only read what the grammar derives, and stop only where the floor lets them. -/
structure Faithful (expression : ExpressionReader) (statement : StatementReader) : Prop where
  expression : ∀ floor xs, Readable xs → (expression floor xs).Sound fun e ys =>
    ys <:+ xs ∧ Grammar.Expression floor.level (front xs) e (front ys) ∧ Rests floor.rank ys
  statement : ∀ xs, Readable xs → (statement xs).Sound (Stated xs)

section Constructs

variable {expression : ExpressionReader} {statement : StatementReader}

theorem sequence_cons {xs zs rest : List Token} {s : Statement} {ss : List Statement}
    (h : Grammar.Clause (front xs) s (front zs))
    (hz : Rests 1 zs)
    (hs : Grammar.Sequence (front (skipSemicolon zs)) ss rest) :
    Grammar.Sequence (front xs) (s :: ss) rest := by
  cases zs with
  | nil => exact .unended h hs (by simp)
  | cons z zs =>
    rw [skipSemicolon] at hs
    split at hs
    · next hk =>
      rw [Token.front_cons zs (by simp [hk])] at h
      exact .ended h hk hs
    · refine .unended h hs fun _ t ht => ?_
      have hk : nextKind (front (z :: zs)) = t.kind := by
        cases hf : front (z :: zs) with
        | nil => simp [hf] at ht
        | cons u us =>
          rw [hf] at ht
          cases ht
          rfl
      rw [nextKind_front] at hk
      rw [Rests, hk] at hz
      constructor <;> intro he <;> simp [he, Precedence.ofKind, Precedence.rank] at hz

theorem blockFrom_errors (bound : List Token) (done : List Statement)
    {errors : List SyntaxError} (he : errors ≠ []) (xs : List Token) :
    (blockFrom statement bound done errors xs).Sound fun _ _ => False := by
  induction bound generalizing done errors xs with
  | nil => simpa [blockFrom, Outcome.Sound] using he
  | cons b bound ih =>
    cases xs with
    | nil => simpa [blockFrom, Outcome.Sound] using he
    | cons x xs =>
      rw [blockFrom]
      split
      · simpa [Outcome.Sound] using he
      · split
        · exact ih _ (by simp [he]) _
        · exact ih _ (by simp [he]) _
        · trivial

theorem blockFrom_sound (h : Faithful expression statement) (bound : List Token)
    (done : List Statement) {xs : List Token} (hx : Readable xs)
    (hb : xs.length ≤ bound.length) :
    (blockFrom statement bound done [] xs).Sound fun ss ys =>
      ys <:+ xs ∧ ∃ ss', ss = done.reverse ++ ss' ∧
        ((∃ r, r.kind = .rbrace ∧ Grammar.Sequence (front xs) ss' (r :: front ys)) ∨
          Grammar.Sequence (front xs) ss' [] ∧ front ys = []) := by
  induction bound generalizing done xs with
  | nil =>
    cases xs with
    | nil =>
      rw [blockFrom]
      · exact fun _ => ⟨List.suffix_rfl, [], by simp, .inr ⟨.nil, rfl⟩⟩
      · simp
    | cons x xs => exact absurd hb (by simp)
  | cons b bound ih =>
    cases xs with
    | nil =>
      rw [blockFrom]
      · exact fun _ => ⟨List.suffix_rfl, [], by simp, .inr ⟨.nil, rfl⟩⟩
      · simp
    | cons x xs =>
      rw [blockFrom]
      split
      · next hk =>
        refine fun _ => ⟨List.suffix_cons x xs, [], by simp, ?_⟩
        rcases hk with hk | hk
        · rw [Token.front_cons xs (by simp [hk])]
          exact .inl ⟨x, hk, .nil⟩
        · rw [Token.front_eof xs hk, hx.ended x xs List.suffix_rfl hk]
          exact .inr ⟨.nil, rfl⟩
      · have hs := h.statement (x :: xs) hx
        split
        · next s es ys hread =>
          rw [hread] at hs
          by_cases hes : es = []
          · subst hes
            obtain ⟨zs, hzs, hclause, hrank, rfl⟩ := hs rfl
            have hys : skipSemicolon zs <:+ x :: xs := (skipSemicolon_suffix zs).trans hzs
            have hlen := length_lt_of_front hzs hclause.leaves.2
            have hle := (skipSemicolon_suffix zs).length_le
            simp only [List.length_cons] at hb hlen
            apply (ih (s :: done) (hx.suffix hys) (by omega)).imp
            rintro _ us ⟨hus, ss, rfl, hend⟩
            refine ⟨hus.trans hys, s :: ss, by simp, ?_⟩
            rcases hend with ⟨r, hr, hseq⟩ | ⟨hseq, hnil⟩
            · exact .inl ⟨r, hr, sequence_cons hclause hrank hseq⟩
            · exact .inr ⟨sequence_cons hclause hrank hseq, hnil⟩
          · exact (blockFrom_errors bound (s :: done) (by simp [hes]) ys).imp
              fun _ _ hf => hf.elim
        · next es ys hread =>
          rw [hread] at hs
          have hes : es ≠ [] := hs
          exact (blockFrom_errors bound done (by simp [hes]) ys).imp fun _ _ hf => hf.elim
        · trivial

theorem block_sound (h : Faithful expression statement) {l : Token} {xs : List Token}
    (hx : Readable (l :: xs)) (hl : l.kind = .lbrace) :
    (block statement xs).Sound fun ss ys =>
      ys <:+ l :: xs ∧ Grammar.Block (front (l :: xs)) ss (front ys) := by
  rw [Token.front_cons xs (by simp [hl])]
  apply (blockFrom_sound h xs [] hx.tail (Nat.le_refl _)).imp
  rintro _ ys ⟨hys, ss, rfl, ⟨r, hr, hseq⟩ | ⟨hseq, hnil⟩⟩
  · exact ⟨hys.trans (List.suffix_cons l xs), .closed hl hseq hr⟩
  · rw [hnil]
    exact ⟨hys.trans (List.suffix_cons l xs), .unclosed hl hseq⟩

theorem grouped_sound (h : Faithful expression statement) {xs : List Token} (hx : Readable xs) :
    (grouped expression xs).Sound fun e ys => ys <:+ xs ∧
      ∃ r, r.kind = .rparen ∧ Grammar.Expression .equality (front xs) e (r :: front ys) := by
  apply (h.expression .lowest xs hx).andThen
  intro e us hparts
  obtain ⟨hus, he, _⟩ := hparts
  apply (expect_sound _ us).map
  rintro r ys ⟨rfl, hr⟩
  rw [Token.front_cons ys (by simp [hr])] at he
  exact ⟨(List.suffix_cons r ys).trans hus, r, hr, he⟩

theorem alternative_sound (h : Faithful expression statement) {xs : List Token}
    (hx : Readable xs) {i : Token} (hi : i.kind = .ifKw) {c : Expression} {t : List Statement}
    {ts us : List Token} (hc : Grammar.Expression .equality ts c us)
    (ht : Grammar.Block us t (front xs)) :
    (alternative statement xs).Sound fun o ys => ys <:+ xs ∧
      Grammar.Expression .atom (i :: ts) (.conditional c t o) (front ys) := by
  rw [alternative]
  split
  · next hk =>
    cases xs with
    | nil => exact absurd hk (by decide)
    | cons o xs =>
      have ho : o.kind = .elseKw := hk
      rw [Token.front_cons xs (by simp [ho])] at ht
      apply (expect_sound .lbrace xs).andThen
      rintro l vs ⟨rfl, hl⟩
      apply (block_sound h hx.tail hl).map
      intro e ys hparts
      obtain ⟨hys, hblock⟩ := hparts
      exact ⟨hys.trans (List.suffix_cons o _), .alternative hi hc ht ho hblock⟩
  · exact fun _ => ⟨List.suffix_rfl, .conditional hi hc ht⟩

theorem conditional_sound (h : Faithful expression statement) {xs : List Token}
    (hx : Readable xs) {i : Token} (hi : i.kind = .ifKw) :
    (conditional expression statement xs).Sound fun e ys => ys <:+ xs ∧
      Grammar.Expression .atom (i :: front xs) e (front ys) := by
  apply (h.expression .lowest xs hx).andThen
  intro c us hparts
  obtain ⟨hus, hc, _⟩ := hparts
  apply (expect_sound .lbrace us).andThen
  rintro l vs ⟨rfl, hl⟩
  apply (block_sound h (hx.suffix hus) hl).andThen
  intro t ws hparts
  obtain ⟨hws, ht⟩ := hparts
  have hread := hx.suffix (hws.trans hus)
  apply (alternative_sound h hread hi hc ht).map
  intro o ys hparts
  obtain ⟨hys, he⟩ := hparts
  exact ⟨hys.trans (hws.trans hus), he⟩

theorem moreParameters_sound (done : List String) (xs : List Token) :
    (moreParameters done xs).Sound fun ns ys => ys <:+ xs ∧
      ∃ ns', ns = done.reverse ++ ns' ∧ ∀ n : Token, n.kind = .ident →
        Grammar.Parameters (n :: front xs) (n.literal :: ns') (front ys) := by
  fun_induction moreParameters done xs with
  | case1 done => exact List.cons_ne_nil _ _
  | case2 done c hc => exact List.cons_ne_nil _ _
  | case3 done c hc p rest hp ih =>
    apply ih.imp
    rintro _ ys ⟨hys, ns, rfl, hmore⟩
    have hsuffix := hys.trans ((List.suffix_cons p rest).trans (List.suffix_cons c _))
    refine ⟨hsuffix, p.literal :: ns, by simp, fun n hn => ?_⟩
    rw [Token.front_cons _ (by simp [hc]), Token.front_cons _ (by simp [hp])]
    exact .more hn hc (hmore p hp) (List.cons_ne_nil _ _)
  | case4 done c hc p rest hp => exact List.cons_ne_nil _ _
  | case5 done c rest hc =>
    apply (expect_sound .rparen (c :: rest)).map
    rintro r ys ⟨he, hr⟩
    rw [he, Token.front_cons ys (by simp [hr])]
    exact ⟨List.suffix_cons r ys, [], by simp, fun n hn => .last hn hr⟩

theorem parameters_sound (xs : List Token) :
    (parameters xs).Sound fun ns ys => ys <:+ xs ∧
      Grammar.Parameters (front xs) ns (front ys) := by
  rw [parameters]
  split
  · next hk =>
    cases xs with
    | nil => exact absurd hk (by decide)
    | cons r xs =>
      have hr : r.kind = .rparen := hk
      rw [Token.front_cons xs (by simp [hr])]
      exact fun _ => ⟨List.suffix_cons r xs, .none hr⟩
  · apply (expect_sound .ident xs).andThen
    rintro n us ⟨rfl, hn⟩
    apply (moreParameters_sound [n.literal] us).imp
    rintro _ ys ⟨hys, ns, rfl, hmore⟩
    rw [Token.front_cons us (by simp [hn])]
    exact ⟨hys.trans (List.suffix_cons n us), hmore n hn⟩

theorem function_sound (h : Faithful expression statement) {xs : List Token}
    (hx : Readable xs) {f : Token} (hf : f.kind = .fn) :
    (function statement xs).Sound fun e ys => ys <:+ xs ∧
      Grammar.Expression .atom (f :: front xs) e (front ys) := by
  apply (expect_sound .lparen xs).andThen
  rintro p us ⟨rfl, hp⟩
  apply (parameters_sound us).andThen
  intro ns vs hparts
  obtain ⟨hvs, hns⟩ := hparts
  apply (expect_sound .lbrace vs).andThen
  rintro l ws ⟨rfl, hl⟩
  apply (block_sound h (hx.tail.suffix hvs) hl).map
  intro body ys hparts
  obtain ⟨hys, hbody⟩ := hparts
  rw [Token.front_cons us (by simp [hp])]
  exact ⟨hys.trans (hvs.trans (List.suffix_cons p us)), .function hf hp hns hbody⟩

theorem integerLiteral_sound {t : Token} (ht : t.kind = .int)
    (hread : Text.Numeral.read t.literal = .ok (Grammar.value t)) (xs : List Token) :
    (integerLiteral t xs).Sound fun e ys => ys <:+ xs ∧
      Grammar.Expression .atom (t :: front xs) e (front ys) := by
  rw [integerLiteral, hread]
  dsimp only
  split
  · exact List.cons_ne_nil _ _
  · next hn => exact fun _ => ⟨List.suffix_rfl, .integer ht (Int.not_lt.mp hn)⟩

theorem unary_sound (h : Faithful expression statement) {t : Token} {xs : List Token}
    (hx : Readable (t :: xs)) (hk : t.kind = .bang ∨ t.kind = .minus) :
    ((expression .unary xs).map (.unary t.literal)).Sound fun e ys =>
      ys <:+ t :: xs ∧ Held .unary (front (t :: xs)) e ys := by
  rw [Token.front_cons xs (by rcases hk with hk | hk <;> simp [hk])]
  apply (h.expression .unary xs hx.tail).map
  intro e ys hparts
  obtain ⟨hys, he, hnext⟩ := hparts
  exact ⟨hys.trans (List.suffix_cons t xs), .unary, Nat.le_refl _, .unary hk he, hnext⟩

theorem operand_sound (h : Faithful expression statement) {xs : List Token}
    (hx : Readable xs) :
    (operand expression statement xs).Sound fun e ys =>
      ys <:+ xs ∧ Held .unary (front xs) e ys := by
  cases xs with
  | nil => exact List.cons_ne_nil _ _
  | cons t xs =>
    -- A token that is an expression, or opens one, leaves the others.
    have htake : ∀ e (k : Token.Kind), t.kind = k → k ≠ .eof → ∀ ys, ys <:+ xs →
        Grammar.Expression .atom (t :: front xs) e (front ys) →
        ys <:+ t :: xs ∧ Held .unary (front (t :: xs)) e ys := by
      intro e k hk hne ys hys he
      rw [Token.front_cons xs (by rwa [hk])]
      exact ⟨hys.trans (List.suffix_cons t xs), .atom, by decide, he, Precedence.rank_le _⟩
    rw [operand]
    split
    · next hk => exact fun _ => htake _ _ hk (by decide) xs List.suffix_rfl (.name hk)
    · next hk =>
      have hread := hx.legible t List.mem_cons_self hk
      apply (integerLiteral_sound hk hread xs).imp
      intro e ys hparts
      obtain ⟨hys, he⟩ := hparts
      exact htake e _ hk (by decide) ys hys he
    · next hk => exact fun _ => htake _ _ hk (by decide) xs List.suffix_rfl (.string hk)
    · next hk => exact fun _ => htake _ _ hk (by decide) xs List.suffix_rfl (.yes hk)
    · next hk => exact fun _ => htake _ _ hk (by decide) xs List.suffix_rfl (.no hk)
    · next hk => exact unary_sound h hx (.inl hk)
    · next hk => exact unary_sound h hx (.inr hk)
    · next hk =>
      apply (grouped_sound h hx.tail).imp
      intro e ys hparts
      obtain ⟨hys, r, hr, he⟩ := hparts
      exact htake e _ hk (by decide) ys hys (.grouped hk he hr)
    · next hk =>
      apply (conditional_sound h hx.tail hk).imp
      intro e ys hparts
      obtain ⟨hys, he⟩ := hparts
      exact htake e _ hk (by decide) ys hys he
    · next hk =>
      apply (function_sound h hx.tail hk).imp
      intro e ys hparts
      obtain ⟨hys, he⟩ := hparts
      exact htake e _ hk (by decide) ys hys he
    · exact List.cons_ne_nil _ _

theorem moreArguments_errors (bound : List Token) (done : List Expression)
    {errors : List SyntaxError} (he : errors ≠ []) (xs : List Token) :
    (moreArguments expression bound done errors xs).Sound fun _ _ => False := by
  induction bound generalizing done errors xs with
  | nil =>
    rw [moreArguments]
    · exact Outcome.sound_behind he _
    · simp
  | cons b bound ih =>
    cases xs with
    | nil =>
      rw [moreArguments]
      · exact Outcome.sound_behind he _
      · simp
    | cons x xs =>
      rw [moreArguments]
      split
      · split
        · exact ih _ (by simp [he]) _
        · simpa [Outcome.Sound] using fun h => absurd h he
        · trivial
      · exact Outcome.sound_behind he _

theorem moreArguments_sound (h : Faithful expression statement) (bound : List Token)
    (done : List Expression) {xs : List Token} (hx : Readable xs)
    (hb : xs.length ≤ bound.length) :
    (moreArguments expression bound done [] xs).Sound fun es ys => ys <:+ xs ∧
      ∃ es', es = done.reverse ++ es' ∧ ∀ ts e, Grammar.Expression .equality ts e (front xs) →
        Grammar.Arguments ts (e :: es') (front ys) := by
  induction bound generalizing done xs with
  | nil =>
    cases xs with
    | nil => rw [moreArguments] <;> simp [expect, Outcome.map, Outcome.Sound]
    | cons x xs => exact absurd hb (by simp)
  | cons b bound ih =>
    cases xs with
    | nil => rw [moreArguments] <;> simp [expect, Outcome.map, Outcome.Sound]
    | cons x xs =>
      rw [moreArguments]
      split
      · next hc =>
        have he := h.expression .lowest xs hx.tail
        split
        · next e es ys hread =>
          rw [hread] at he
          by_cases hes : es = []
          · subst hes
            obtain ⟨hys, he, _⟩ := he rfl
            have hle := hys.length_le
            simp only [List.length_cons] at hb
            apply (ih (e :: done) (hx.tail.suffix hys) (by omega)).imp
            rintro _ us ⟨hus, es, rfl, hmore⟩
            refine ⟨(hus.trans hys).trans (List.suffix_cons x xs), e :: es, by simp, ?_⟩
            intro ts f hf
            rw [Token.front_cons xs (by simp [hc])] at hf
            exact .more hf hc (hmore (front xs) e he) (List.cons_ne_nil _ _)
          · exact (moreArguments_errors bound (e :: done) (by simp [hes]) ys).imp
              fun _ _ hf => hf.elim
        · next es ys hread =>
          rw [hread] at he
          exact he
        · trivial
      · rw [Outcome.behind_nil]
        apply (expect_sound .rparen (x :: xs)).map
        rintro r ys ⟨heq, hr⟩
        rw [heq, Token.front_cons ys (by simp [hr])]
        exact ⟨List.suffix_cons r ys, [], by simp, fun ts e he => .last he hr⟩

theorem arguments_sound (h : Faithful expression statement) {xs : List Token}
    (hx : Readable xs) :
    (arguments expression xs).Sound fun es ys => ys <:+ xs ∧
      Grammar.Arguments (front xs) es (front ys) := by
  rw [arguments]
  split
  · next hk =>
    cases xs with
    | nil => exact absurd hk (by decide)
    | cons r xs =>
      have hr : r.kind = .rparen := hk
      rw [Token.front_cons xs (by simp [hr])]
      exact fun _ => ⟨List.suffix_cons r xs, .none hr⟩
  · apply (h.expression .lowest xs hx).andThen
    intro e us hparts
    obtain ⟨hus, he, _⟩ := hparts
    apply (moreArguments_sound h us [e] (hx.suffix hus) (Nat.le_refl _)).imp
    rintro _ ys ⟨hys, es, rfl, hmore⟩
    exact ⟨hys.trans hus, hmore (front xs) e he⟩

theorem application_sound (h : Faithful expression statement) {floor : Precedence}
    {ts xs : List Token} {t : Token} {left : Expression} (hx : Readable (t :: xs))
    (hleft : Held floor.level ts left (t :: xs))
    (hfloor : floor.rank < (Precedence.ofKind t.kind).rank) :
    (application expression left t xs).Sound fun e ys =>
      ys <:+ xs ∧ Held floor.level ts e ys := by
  obtain ⟨p, -, hleft, hp⟩ := hleft
  have hp : (Precedence.ofKind t.kind).rank ≤ p.rank := hp
  have hone := Nat.lt_of_le_of_lt floor.one_le_rank hfloor
  rw [Token.front_cons xs fun he => by simp [he, Precedence.ofKind, Precedence.rank] at hone]
    at hleft
  rw [application]
  split
  · next hk =>
    rw [hk] at hfloor hp
    apply (arguments_sound h hx.tail).map
    intro es ys hparts
    obtain ⟨hys, hargs⟩ := hparts
    have hcallee := hleft.loosen (q := .call) (Level.height_le hp (by decide))
    exact ⟨hys, .call, floor.level_height_le hfloor, .call hcallee hk hargs,
      Precedence.rank_le _⟩
  · next hk =>
    obtain ⟨q, hq, hlevel⟩ := Precedence.exists_operators hone hk
    obtain ⟨hrank, _⟩ := Level.of_mem_operators hq
    have hread := h.expression (.ofKind t.kind) xs hx.tail
    rw [hrank] at hfloor hp
    rw [hlevel] at hread
    apply hread.map
    intro e ys hparts
    obtain ⟨hys, hright, hnext⟩ := hparts
    have hloose := hleft.loosen (Level.height_le hp (Level.ne_atom_of_mem hq))
    exact ⟨hys, q, floor.level_height_le hfloor, .binary hq hloose hright, hrank ▸ hnext⟩

theorem operators_errors (floor : Precedence) (bound : List Token) (left : Expression)
    {errors : List SyntaxError} (he : errors ≠ []) (xs : List Token) :
    (operators expression floor bound left errors xs).Sound fun _ _ => False := by
  induction bound generalizing left errors xs with
  | nil =>
    rw [operators]
    · exact fun h => absurd h he
    · simp
  | cons b bound ih =>
    cases xs with
    | nil =>
      rw [operators]
      · exact fun h => absurd h he
      · simp
    | cons x xs =>
      rw [operators]
      split
      · split
        · exact ih _ (by simp [he]) _
        · simpa [Outcome.Sound] using fun h => absurd h he
        · trivial
      · exact fun h => absurd h he

/-- The loop stops where no operator is left that binds tighter than the floor. In each round the
next operator binds no tighter than the level of what has been read. -/
theorem operators_sound (h : Faithful expression statement) (floor : Precedence)
    (bound : List Token) {ts xs : List Token} {left : Expression} (hx : Readable xs)
    (hb : xs.length ≤ bound.length) (hleft : Held floor.level ts left xs) :
    (operators expression floor bound left [] xs).Sound fun e ys => ys <:+ xs ∧
      Grammar.Expression floor.level ts e (front ys) ∧ Rests floor.rank ys := by
  have hstop : ∀ {left xs}, Held floor.level ts left xs → Rests floor.rank xs →
      (Outcome.read left [] xs).Sound fun e ys => ys <:+ xs ∧
        Grammar.Expression floor.level ts e (front ys) ∧ Rests floor.rank ys := by
    intro left xs hleft hrests _
    obtain ⟨p, hp, hleft, _⟩ := hleft
    exact ⟨List.suffix_rfl, hleft.loosen hp, hrests⟩
  induction bound generalizing left xs with
  | nil =>
    cases xs with
    | nil =>
      rw [operators]
      · exact hstop hleft floor.one_le_rank
      · simp
    | cons x xs => exact absurd hb (by simp)
  | cons b bound ih =>
    cases xs with
    | nil =>
      rw [operators]
      · exact hstop hleft floor.one_le_rank
      · simp
    | cons x xs =>
      rw [operators]
      split
      · next hlt =>
        have ha := application_sound h hx hleft hlt
        split
        · next e es ys hread =>
          rw [hread] at ha
          by_cases hes : es = []
          · subst hes
            obtain ⟨hys, he⟩ := ha rfl
            have hle := hys.length_le
            simp only [List.length_cons] at hb
            apply (ih (hx.tail.suffix hys) (by omega) he).imp
            intro _ us hrest
            exact ⟨(hrest.1.trans hys).trans (List.suffix_cons x xs), hrest.2⟩
          · exact (operators_errors floor bound e (by simp [hes]) ys).imp fun _ _ hf => hf.elim
        · next es ys hread =>
          rw [hread] at ha
          exact ha
        · trivial
      · next hlt => exact hstop hleft (Nat.not_lt.mp hlt)

theorem statement_sound (h : Faithful expression statement) {xs us : List Token}
    (hx : Readable xs) (hus : us <:+ xs) {f : Expression → Statement}
    (hf : ∀ e rest, Grammar.Expression .equality (front us) e rest →
      Grammar.Clause (front xs) (f e) rest) :
    ((expression .lowest us).andThen fun e rest =>
      .read (f e) [] (skipSemicolon rest)).Sound (Stated xs) := by
  apply (h.expression .lowest us (hx.suffix hus)).andThen
  intro e zs hparts
  obtain ⟨hzs, he, hnext⟩ := hparts
  exact fun _ => ⟨zs, hzs.trans hus, hf e _ he, hnext, rfl⟩

theorem binding_sound (h : Faithful expression statement) {k : Token} {xs : List Token}
    (hx : Readable (k :: xs)) (hk : k.kind = .letKw) :
    (binding expression xs).Sound (Stated (k :: xs)) := by
  apply (expect_sound .ident xs).andThen
  rintro n us ⟨rfl, hn⟩
  apply (expect_sound .assign us).andThen
  rintro a vs ⟨rfl, ha⟩
  refine statement_sound h hx ⟨[k, n, a], rfl⟩ fun e rest he => ?_
  rw [Token.front_cons _ (by simp [hk]), Token.front_cons _ (by simp [hn]),
    Token.front_cons _ (by simp [ha])]
  exact .binding hk hn ha he

end Constructs

theorem statement_succ_sound {d : Nat} (h : Faithful (expression d) (statement d))
    {xs : List Token} (hx : Readable xs) :
    (statement (d + 1) xs).Sound (Stated xs) := by
  rw [statement]
  split
  · next hk =>
    cases xs with
    | nil => exact absurd hk (by decide)
    | cons k xs => exact binding_sound h hx hk
  · next hk =>
    cases xs with
    | nil => exact absurd hk (by decide)
    | cons k xs =>
      have hret : k.kind = .returnKw := hk
      refine statement_sound h hx (List.suffix_cons k xs) fun e rest he => ?_
      rw [Token.front_cons xs (by simp [hret])]
      exact .ret hret he
  · exact statement_sound h hx List.suffix_rfl fun e rest he => .expression he

theorem expression_succ_sound {d : Nat} (h : Faithful (expression d) (statement d))
    (floor : Precedence) {xs : List Token} (hx : Readable xs) :
    (expression (d + 1) floor xs).Sound fun e ys => ys <:+ xs ∧
      Grammar.Expression floor.level (front xs) e (front ys) ∧ Rests floor.rank ys := by
  have ho := operand_sound h hx
  rw [expression]
  split
  · next e es ys hread =>
    rw [hread] at ho
    by_cases hes : es = []
    · subst hes
      obtain ⟨hys, he⟩ := ho rfl
      have hheld := he.mono floor.level_height_le_unary
      apply (operators_sound h floor ys (hx.suffix hys) (Nat.le_refl _) hheld).imp
      intro _ us hrest
      exact ⟨hrest.1.trans hys, hrest.2⟩
    · exact (operators_errors floor ys e hes ys).imp fun _ _ hf => hf.elim
  · next es ys hread =>
    rw [hread] at ho
    exact ho
  · trivial

/-- However deep the readers may go, they are sound. -/
theorem faithful (d : Nat) : Faithful (expression d) (statement d) := by
  induction d with
  | zero =>
    refine ⟨fun _ _ _ => ?_, fun _ _ => ?_⟩
    · rw [expression]
      trivial
    · rw [statement]
      trivial
  | succ d ih => exact ⟨fun floor _ => expression_succ_sound ih floor,
      fun _ => statement_succ_sound ih⟩

theorem statementsFrom_errors {statement : StatementReader} (bound : List Token)
    (done : List Statement) {errors : List SyntaxError} (he : errors ≠ []) (xs : List Token) :
    (statementsFrom statement bound done errors xs).errors ≠ [] := by
  induction bound generalizing done errors xs with
  | nil =>
    rw [statementsFrom]
    · simpa using he
    · simp
  | cons b bound ih =>
    cases xs with
    | nil =>
      rw [statementsFrom]
      · simpa using he
      · simp
    | cons x xs =>
      rw [statementsFrom]
      split
      · simpa using he
      · split
        · exact ih _ (by simp [he]) _
        · exact ih _ (by simp [he]) _
        · simpa using he

/-- Without an error and without a refusal a sequence is read up to the end. -/
theorem statementsFrom_sound {statement : StatementReader} {expression : ExpressionReader}
    (h : Faithful expression statement) (bound : List Token) (done : List Statement)
    {xs : List Token} (hx : Readable xs) (hb : xs.length ≤ bound.length)
    (he : (statementsFrom statement bound done [] xs).errors = [])
    (hr : (statementsFrom statement bound done [] xs).refusal = none) :
    ∃ ss, (statementsFrom statement bound done [] xs).statements = done.reverse ++ ss ∧
      Grammar.Sequence (front xs) ss [] := by
  induction bound generalizing done xs with
  | nil =>
    cases xs with
    | nil =>
      rw [statementsFrom]
      · exact ⟨[], by simp, .nil⟩
      · simp
    | cons x xs => exact absurd hb (by simp)
  | cons b bound ih =>
    cases xs with
    | nil =>
      rw [statementsFrom]
      · exact ⟨[], by simp, .nil⟩
      · simp
    | cons x xs =>
      have hs := h.statement (x :: xs) hx
      rw [statementsFrom] at he hr ⊢
      split at he
      · next hk =>
        rw [if_pos hk, Token.front_eof xs hk]
        exact ⟨[], by simp, .nil⟩
      · next hk =>
        rw [if_neg hk] at hr ⊢
        split at he
        · next s es ys hread =>
          rw [hread] at hs
          by_cases hes : es = []
          · subst hes
            obtain ⟨zs, hzs, hclause, hrank, rfl⟩ := hs rfl
            have hys : skipSemicolon zs <:+ x :: xs := (skipSemicolon_suffix zs).trans hzs
            have hlen := length_lt_of_front hzs hclause.leaves.2
            have hle := (skipSemicolon_suffix zs).length_le
            simp only [List.length_cons] at hb hlen
            simp only [hread] at hr ⊢
            obtain ⟨ss, hss, hseq⟩ := ih (s :: done) (hx.suffix hys) (by omega) he hr
            exact ⟨s :: ss, by simpa using hss, sequence_cons hclause hrank hseq⟩
          · exact absurd he (statementsFrom_errors bound (s :: done) (by simp [hes]) ys)
        · next es ys hread =>
          rw [hread] at hs
          have hes : es ≠ [] := hs
          exact absurd he (statementsFrom_errors bound done (by simp [hes]) ys)
        · next r hread =>
          rw [hread] at hr
          exact absurd hr (by simp)

end Monkey.Reader
