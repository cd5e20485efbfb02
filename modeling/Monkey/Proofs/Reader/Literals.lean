import Monkey.Proofs.Reader.Portions
import Monkey.Proofs.Reader.Tally

/-!
# What becomes of numbers

Every number among the tokens is read exactly once, wherever it stands, and it is accounted for
whatever errors there are. The first number with more digits than are read makes the reader refuse
the whole text, and nothing else does where the reader may go deep enough: two levels for each token
are enough.
-/

namespace Monkey.Reader

set_option autoImplicit false

/-- At most `n` tokens, and every number among them is a row of digits. -/
structure Within (n : Nat) (xs : List Token) : Prop where
  length : xs.length ≤ n
  plain : ∀ t ∈ xs, t.kind = .int → Text.Numeral.IsPlain t.literal.toList

namespace Within

variable {n : Nat} {x : Token} {xs ys : List Token}

theorem suffix (h : Within n xs) (hs : ys <:+ xs) : Within n ys :=
  ⟨Nat.le_trans hs.length_le h.length, fun t ht => h.plain t (hs.subset ht)⟩

theorem of_cons (h : Within (n + 1) (x :: xs)) : Within n xs :=
  ⟨Nat.le_of_succ_le_succ h.length, fun t ht => h.plain t (List.mem_cons_of_mem x ht)⟩

end Within

/-- A statement that is dropped for a token that is not taken. -/
theorem dropped_tallies {α : Type} {e : SyntaxError} (he : e.numeral? = none) (xs : List Token)
    (R : α → List Int → Prop) : (Outcome.dropped [e] xs).Tallies xs R :=
  ⟨[], rfl, .other he .nil⟩

theorem expect_tallies (k : Token.Kind) (xs : List Token) (hk : k ≠ .int) :
    (expect k xs).Tallies xs fun _ kept => kept = [] := by
  cases xs with
  | nil => exact dropped_tallies rfl [] _
  | cons x xs =>
    rw [expect]
    split
    · next hx => exact ⟨[x], [], rfl, rfl, .token hx hk⟩
    · exact dropped_tallies rfl (x :: xs) _

/-- The readers of parts account for the numbers in at most `n` tokens, and statements are read to
some depth. -/
structure Tallying (n : Nat) (expression : ExpressionReader) (statement : StatementReader) :
    Prop where
  depth : ∃ d, statement = Reader.statement d
  expression : ∀ floor xs, Within n xs →
    (expression floor xs).Tallies xs fun e kept => e.integers = kept
  statement : ∀ xs, Within n xs → (statement xs).Tallies xs fun s kept => s.integers = kept

/-- The numbers of a portion are accounted for; and if its statement was dropped for a number, the
number is its last token. -/
structure Portion.Accounted (p : Portion) : Prop where
  tally : Tally p.tokens (Statement.allIntegers p.statement.toList) p.errors
  abandoned : p.statement = none → Abandoned p.tokens p.errors

theorem Portion.accounted_of_tallies {d : Nat} {p : Portion} {rest : List Token}
    (hread : Reader.statement d (p.tokens ++ rest) = p.outcome rest)
    (h : (p.outcome rest).Tallies (p.tokens ++ rest) fun s kept => s.integers = kept) :
    p.Accounted := by
  obtain ⟨tokens, s, es⟩ := p
  cases s with
  | some s =>
    obtain ⟨taken, kept, he, rfl, ht⟩ := h
    obtain rfl := List.append_cancel_right he
    refine ⟨?_, fun hnone => by cases hnone⟩
    simpa [Statement.allIntegers] using ht
  | none =>
    obtain ⟨taken, he, ha⟩ := h
    obtain rfl := List.append_cancel_right he
    exact ⟨ha.tally hread, fun _ => ha⟩

theorem tally_portions {ps : List Portion} (h : ∀ p ∈ ps, p.Accounted) :
    Tally (ps.flatMap Portion.tokens) (Statement.allIntegers (Portion.kept ps))
      (Portion.mistakes ps) := by
  induction ps with
  | nil => exact .nil
  | cons p ps ih =>
    have hp := (h p List.mem_cons_self).tally
    have hps := hp.append (ih fun q hq => h q (List.mem_cons_of_mem p hq))
    have hkept : Portion.kept (p :: ps) = p.statement.toList ++ Portion.kept ps := by
      rw [Portion.kept, List.filterMap_cons]
      cases p.statement <;> rfl
    rwa [hkept, Statement.allIntegers_append]

section Constructs

variable {n : Nat} {expression : ExpressionReader} {statement : StatementReader}
  {xs rest : List Token} {ends : List Token.Kind} {ps : List Portion}

theorem Portions.accounted (h : Portions statement ends xs ps rest)
    (hd : ∃ d, statement = Reader.statement d)
    (hs : ∀ ys, ys <:+ xs → (statement ys).Tallies ys fun s kept => s.integers = kept) :
    ∀ p ∈ ps, p.Accounted := by
  obtain ⟨d, rfl⟩ := hd
  induction h with
  | nil xs => exact fun _ hp => absurd hp List.not_mem_nil
  | @cons p ps xs rest _ _ hread _ ih =>
    intro q hq
    rcases List.mem_cons.mp hq with rfl | hq
    · have ht := hs _ List.suffix_rfl
      rw [hread] at ht
      exact Portion.accounted_of_tallies hread ht
    · exact ih (fun ys hys => hs ys (hys.trans (List.suffix_append _ _))) q hq

theorem Tallying.suffix (h : Tallying n expression statement) (hx : Within n xs) (ys : List Token)
    (hys : ys <:+ xs) : (statement ys).Tallies ys fun s kept => s.integers = kept :=
  h.statement ys (hx.suffix hys)

theorem block_tallies (h : Tallying n expression statement)
    (hp : Progressive expression statement) (hx : Within n xs) :
    (block statement xs).Tallies xs fun ss kept => Statement.allIntegers ss = kept := by
  have hs := h.suffix hx
  obtain ⟨ps, rest, hps, hblock⟩ := block_portions hp xs
  have ht := tally_portions (hps.accounted h.depth hs)
  have hxs := hps.eq_append
  rcases hblock with ⟨hend, hread⟩ | ⟨r, hrest, hread⟩
  · rw [hread]
    cases rest with
    | nil => exact ⟨_, _, hxs, rfl, ht⟩
    | cons t rest =>
      have hlast : Tally (ps.flatMap Portion.tokens ++ [t])
          (Statement.allIntegers (Portion.kept ps)) (Portion.mistakes ps) :=
        hend.elim (fun hk => ht.concat hk (by decide)) fun hk => ht.concat hk (by decide)
      exact ⟨_, _, by rw [hxs, List.append_assoc]; rfl, rfl, hlast⟩
  · have hr := hs rest (hxs ▸ List.suffix_append _ _)
    rw [hrest] at hr
    rw [hread, hxs]
    exact Outcome.Tallies.behind (o := .refused r) ht hr

theorem integerLiteral_tallies {t : Token} (hk : t.kind = .int)
    (ht : Text.Numeral.IsPlain t.literal.toList) (xs : List Token) :
    (integerLiteral t xs).Tallies (t :: xs) fun e kept => e.integers = kept := by
  obtain ⟨hoverlong, htooLarge, hinteger⟩ := Token.of_number hk
  rw [integerLiteral, Text.Numeral.read_of_isPlain ht]
  by_cases hlong : Text.Numeral.maxDigits < t.literal.toList.length
  · rw [decide_eq_true hlong] at hoverlong
    rw [if_pos hlong]
    exact ⟨t, List.find?_cons_of_pos hoverlong, rfl⟩
  · rw [decide_eq_false hlong] at hoverlong
    rw [if_neg hlong]
    change (if Integer.greatest < Grammar.value t then _ else _ : Outcome Expression).Tallies _ _
    split
    · next hlarge =>
      rw [decide_eq_true hlarge] at htooLarge
      exact ⟨[t], rfl, .tooLarge hoverlong htooLarge .nil⟩
    · next hfits =>
      rw [decide_eq_true (Int.not_lt.mp hfits)] at hinteger
      exact ⟨[t], _, rfl, rfl, .integer hoverlong hinteger⟩

theorem grouped_tallies (h : Tallying n expression statement) (hx : Within n xs) :
    (grouped expression xs).Tallies xs fun e kept => e.integers = kept := by
  apply (h.expression .lowest xs hx).andThen
  rintro e kept ys hys rfl
  apply (expect_tallies .rparen ys (by decide)).map
  rintro _ more rfl
  rw [List.append_nil]

theorem alternative_tallies (h : Tallying n expression statement)
    (hp : Progressive expression statement) (hx : Within n xs) :
    (alternative statement xs).Tallies xs
      fun o kept => Statement.allIntegers (o.getD []) = kept := by
  rw [alternative]
  split
  · next hk =>
    obtain ⟨x, xs, rfl, hx'⟩ := eq_cons_of_nextKind hk (by decide)
    have htail := hx.suffix (List.suffix_cons x xs)
    refine .cons hx' (by decide) ?_
    apply (expect_tallies .lbrace xs (by decide)).andThen
    rintro _ kept ys hys rfl
    apply (block_tallies h hp (htail.suffix hys)).map
    intro ss more hss
    exact hss
  · exact ⟨[], [], rfl, rfl, .nil⟩

theorem conditional_tallies (h : Tallying n expression statement)
    (hp : Progressive expression statement) (hx : Within n xs) :
    (conditional expression statement xs).Tallies xs fun e kept => e.integers = kept := by
  apply (h.expression .lowest xs hx).andThen
  rintro c kept us hus rfl
  have hu := hx.suffix hus
  apply (expect_tallies .lbrace us (by decide)).andThen
  rintro _ kept vs hvs rfl
  have hv := hu.suffix hvs
  apply (block_tallies h hp hv).andThen
  rintro t kept ws hws rfl
  apply (alternative_tallies h hp (hv.suffix hws)).map
  rintro o kept rfl
  cases o with
  | none => simp [Expression.integers, Statement.allIntegers]
  | some e => simp [Expression.integers]

theorem moreParameters_tallies (done : List String) (xs : List Token) :
    (moreParameters done xs).Tallies xs fun _ kept => kept = [] := by
  fun_induction moreParameters done xs with
  | case1 => exact dropped_tallies rfl [] _
  | case2 done c hc => exact .cons hc (by decide) (dropped_tallies rfl [] _)
  | case3 done c hc p rest hp ih => exact .cons hc (by decide) (.cons hp (by decide) ih)
  | case4 done c hc p rest hp => exact .cons hc (by decide) (dropped_tallies rfl (p :: rest) _)
  | case5 done t rest _ => exact (expect_tallies .rparen (t :: rest) (by decide)).map fun _ _ h => h

theorem parameters_tallies (xs : List Token) :
    (parameters xs).Tallies xs fun _ kept => kept = [] := by
  rw [parameters]
  split
  · next hk =>
    obtain ⟨x, xs, rfl, hx'⟩ := eq_cons_of_nextKind hk (by decide)
    exact ⟨[x], [], rfl, rfl, .token hx' (by decide)⟩
  · apply (expect_tallies .ident xs (by decide)).andThen
    rintro p kept ys hys rfl
    exact moreParameters_tallies [p.literal] ys

theorem function_tallies (h : Tallying n expression statement)
    (hp : Progressive expression statement) (hx : Within n xs) :
    (function statement xs).Tallies xs fun e kept => e.integers = kept := by
  apply (expect_tallies .lparen xs (by decide)).andThen
  rintro _ kept us hus rfl
  have hu := hx.suffix hus
  apply (parameters_tallies us).andThen
  rintro ps kept vs hvs rfl
  have hv := hu.suffix hvs
  apply (expect_tallies .lbrace vs (by decide)).andThen
  rintro _ kept ws hws rfl
  apply (block_tallies h hp (hv.suffix hws)).map
  intro body kept hbody
  exact hbody

/-- The operand takes one token at least, so its parts have one token less. -/
theorem operand_tallies (h : Tallying n expression statement)
    (hp : Progressive expression statement) {t : Token} (hx : Within (n + 1) (t :: xs)) :
    (operand expression statement (t :: xs)).Tallies (t :: xs)
      fun e kept => e.integers = kept := by
  have hxs := hx.of_cons
  have hunary : ((expression .unary xs).map (Expression.unary t.literal)).Tallies xs
      fun e kept => e.integers = kept := by
    apply (h.expression .unary xs hxs).map
    intro e kept he
    exact he
  rw [operand]
  split <;> rename_i hk
  · exact ⟨[t], [], rfl, rfl, .token hk (by decide)⟩
  · exact integerLiteral_tallies hk (hx.plain t List.mem_cons_self hk) xs
  · exact ⟨[t], [], rfl, rfl, .token hk (by decide)⟩
  · exact ⟨[t], [], rfl, rfl, .token hk (by decide)⟩
  · exact ⟨[t], [], rfl, rfl, .token hk (by decide)⟩
  · exact .cons hk (by decide) hunary
  · exact .cons hk (by decide) hunary
  · exact .cons hk (by decide) (grouped_tallies h hxs)
  · exact .cons hk (by decide) (conditional_tallies h hp hxs)
  · exact .cons hk (by decide) (function_tallies h hp hxs)
  · exact .cons rfl (by assumption) (dropped_tallies rfl xs _)

/-- The integers `before` are those of arguments that were read in front of the tokens `taken`. -/
theorem moreArguments_tallies (h : Tallying n expression statement) (bound : List Token)
    {done : List Expression} {errors : List SyntaxError} {taken : List Token}
    {before kept : List Int} (hdone : Expression.allIntegers done.reverse = before ++ kept)
    (ht : Tally taken kept errors) (hx : Within n xs) :
    (moreArguments expression bound done errors xs).Tallies (taken ++ xs)
      fun es kept => Expression.allIntegers es = before ++ kept := by
  have hclose : ∀ {ys taken : List Token} {done : List Expression} {errors : List SyntaxError}
      {kept : List Int}, Expression.allIntegers done.reverse = before ++ kept →
      Tally taken kept errors →
      (((expect .rparen ys).map fun _ => done.reverse).behind errors).Tallies (taken ++ ys)
        fun es kept => Expression.allIntegers es = before ++ kept := by
    intro ys taken done errors kept hdone ht
    apply Outcome.Tallies.behind ht
    apply (expect_tallies .rparen ys (by decide)).map
    rintro _ more rfl
    rw [hdone, List.append_nil]
  induction bound generalizing done errors taken kept xs with
  | nil =>
    rw [moreArguments]
    · exact hclose hdone ht
    · simp
  | cons b bound ih =>
    cases xs with
    | nil =>
      rw [moreArguments]
      · exact hclose hdone ht
      · simp
    | cons x xs =>
      rw [moreArguments]
      split
      · next hk =>
        have htail := hx.suffix (List.suffix_cons x xs)
        have he := h.expression .lowest xs htail
        have hcomma := ht.concat hk (by decide)
        rw [List.append_cons]
        split
        · next e es ys hread =>
          rw [hread] at he
          obtain ⟨taken', kept', rfl, rfl, ht'⟩ := he
          rw [← List.append_assoc]
          refine ih ?_ (hcomma.append ht') (htail.suffix (List.suffix_append _ _))
          rw [List.reverse_cons, Expression.allIntegers_concat, hdone, List.append_assoc]
        · next es ys hread =>
          rw [hread] at he
          obtain ⟨taken', he⟩ := he
          exact Outcome.Tallies.behind (o := .dropped es ys) hcomma ⟨taken', he⟩
        · next r hread =>
          rw [hread] at he
          exact Outcome.Tallies.behind (o := .refused r) hcomma he
      · exact hclose hdone ht

theorem arguments_tallies (h : Tallying n expression statement) (hx : Within n xs) :
    (arguments expression xs).Tallies xs fun es kept => Expression.allIntegers es = kept := by
  rw [arguments]
  split
  · next hk =>
    obtain ⟨x, xs, rfl, hx'⟩ := eq_cons_of_nextKind hk (by decide)
    exact ⟨[x], [], rfl, rfl, .token hx' (by decide)⟩
  · apply (h.expression .lowest xs hx).andThen
    rintro e kept ys hys rfl
    exact moreArguments_tallies h ys (by simp [Expression.allIntegers]) .nil (hx.suffix hys)

theorem application_tallies (h : Tallying n expression statement) (left : Expression) {t : Token}
    (hk : t.kind ≠ .int) (hx : Within n xs) :
    (application expression left t xs).Tallies (t :: xs)
      fun e more => e.integers = left.integers ++ more := by
  rw [application]
  split
  · refine .cons rfl hk ?_
    apply (arguments_tallies h hx).map
    rintro es more rfl
    rfl
  · refine .cons rfl hk ?_
    apply (h.expression _ xs hx).map
    rintro e more rfl
    rfl

theorem operators_tallies (h : Tallying n expression statement) (floor : Precedence)
    (bound : List Token) {left : Expression} {errors : List SyntaxError} {taken : List Token}
    (ht : Tally taken left.integers errors) (hx : Within n xs) :
    (operators expression floor bound left errors xs).Tallies (taken ++ xs)
      fun e kept => e.integers = kept := by
  induction bound generalizing left errors taken xs with
  | nil =>
    rw [operators]
    · exact ⟨taken, _, rfl, rfl, ht⟩
    · simp
  | cons b bound ih =>
    cases xs with
    | nil =>
      rw [operators]
      · exact ⟨taken, _, rfl, rfl, ht⟩
      · simp
    | cons x xs =>
      rw [operators]
      split
      · next hbinds =>
        have hk : x.kind ≠ .int := by
          intro hk
          have hone := Nat.lt_of_le_of_lt floor.one_le_rank hbinds
          rw [hk] at hone
          exact Nat.lt_irrefl 1 hone
        have ha := application_tallies h left hk (hx.suffix (List.suffix_cons x xs))
        split
        · next e es ys hread =>
          rw [hread] at ha
          obtain ⟨taken', kept', he, hkept, ht'⟩ := ha
          rw [he] at hx ⊢
          rw [← List.append_assoc]
          refine ih ?_ (hx.suffix (List.suffix_append _ _))
          rw [hkept]
          exact ht.append ht'
        · next es ys hread =>
          rw [hread] at ha
          obtain ⟨taken', ha⟩ := ha
          exact Outcome.Tallies.behind (o := .dropped es ys) ht ⟨taken', ha⟩
        · next r hread =>
          rw [hread] at ha
          exact Outcome.Tallies.behind (o := .refused r) ht ha
      · exact ⟨taken, _, rfl, rfl, ht⟩

theorem last_tallies {f : Expression → Statement} (hf : ∀ e, (f e).integers = e.integers)
    (h : (expression .lowest xs).Tallies xs fun e kept => e.integers = kept) :
    ((expression .lowest xs).andThen fun e rest =>
      .read (f e) [] (skipSemicolon rest)).Tallies xs fun s kept => s.integers = kept := by
  apply h.andThen
  rintro e kept ys _ rfl
  have hkept : (f e).integers = e.integers ++ [] := by rw [hf, List.append_nil]
  cases ys with
  | nil => exact ⟨[], [], rfl, hkept, .nil⟩
  | cons y ys =>
    rw [skipSemicolon]
    split
    · next hk => exact ⟨[y], [], rfl, hkept, .token hk (by decide)⟩
    · exact ⟨[], [], rfl, hkept, .nil⟩

theorem binding_tallies (h : ∀ ys, ys <:+ xs →
    (expression .lowest ys).Tallies ys fun e kept => e.integers = kept) :
    (binding expression xs).Tallies xs fun s kept => s.integers = kept := by
  apply (expect_tallies .ident xs (by decide)).andThen
  rintro name kept us hus rfl
  apply (expect_tallies .assign us (by decide)).andThen
  rintro _ kept vs hvs rfl
  exact last_tallies (fun _ => rfl) (h vs (hvs.trans hus))

end Constructs

/-- Two levels for each token are enough, and one for a statement itself. -/
theorem tallying (d n : Nat) :
    (2 * n + 1 ≤ d → ∀ floor xs, Within n xs →
      (expression d floor xs).Tallies xs fun e kept => e.integers = kept) ∧
    (2 * n + 2 ≤ d → ∀ xs, Within n xs →
      (statement d xs).Tallies xs fun s kept => s.integers = kept) := by
  induction d generalizing n with
  | zero => exact ⟨fun hd => absurd hd (by omega), fun hd => absurd hd (by omega)⟩
  | succ d ih =>
    constructor
    · intro hd floor xs hx
      cases xs with
      | nil => exact dropped_tallies rfl [] _
      | cons t xs =>
        cases n with
        | zero => exact absurd hx.length (by simp)
        | succ n =>
          have h : Tallying n (expression d) (statement d) :=
            ⟨⟨d, rfl⟩, (ih n).1 (by omega), (ih n).2 (by omega)⟩
          have ho := operand_tallies h (progressive d) hx
          have hlen := (progressive d).operand (t :: xs)
          rw [expression]
          split
          · next left es ys hread =>
            rw [hread] at ho hlen
            obtain ⟨taken, kept, he, rfl, ht⟩ := ho
            have hy : Within n ys :=
              ⟨Nat.le_trans hlen hx.of_cons.length, (hx.suffix ⟨taken, he.symm⟩).plain⟩
            rw [he]
            exact operators_tallies h floor ys ht hy
          · next es ys hread =>
            rw [hread] at ho
            exact ho
          · next r hread =>
            rw [hread] at ho
            exact ho
    · intro hd xs hx
      have he := (ih n).1 (by omega) .lowest
      rw [statement]
      split <;> rename_i hk
      · obtain ⟨x, xs, rfl, hx'⟩ := eq_cons_of_nextKind hk (by decide)
        refine .cons hx' (by decide) (binding_tallies ?_)
        intro ys hys
        exact he ys (hx.suffix (hys.trans (List.suffix_cons x xs)))
      · obtain ⟨x, xs, rfl, hx'⟩ := eq_cons_of_nextKind hk (by decide)
        exact .cons hx' (by decide)
          (last_tallies (fun _ => rfl) (he xs (hx.suffix (List.suffix_cons x xs))))
      · exact last_tallies (fun _ => rfl) (he xs hx)

section Read

variable {d n : Nat} {xs : List Token}

theorem statement_tallies (hd : 2 * n + 2 ≤ d) (hx : Within n xs) (ys : List Token)
    (hys : ys <:+ xs) : (statement d ys).Tallies ys fun s kept => s.integers = kept :=
  (tallying d n).2 hd ys (hx.suffix hys)

/-- Of a block without numbers of too many digits every statement is kept or left out by itself. -/
theorem block_accounted (hd : 2 * n + 2 ≤ d) (hx : Within n xs)
    (hbrief : ∀ t ∈ xs, t.isOverlong = false) :
    ∃ ps rest, Portions (statement d) [.rbrace, .eof] xs ps rest ∧ (∀ p ∈ ps, p.Accounted) ∧
      (nextKind rest = .rbrace ∨ nextKind rest = .eof) ∧
      block (statement d) xs = .read (Portion.kept ps) (Portion.mistakes ps) rest.tail := by
  have hs := statement_tallies hd hx
  obtain ⟨ps, rest, hps, hblock⟩ := block_portions (progressive d) xs
  rcases hblock with ⟨hend, hread⟩ | ⟨r, hrest, _⟩
  · exact ⟨ps, rest, hps, hps.accounted ⟨d, rfl⟩ hs, hend, hread⟩
  · have hsuffix : rest <:+ xs := hps.eq_append ▸ List.suffix_append _ _
    have hr := hs rest hsuffix
    rw [hrest] at hr
    obtain ⟨t, hfind, _⟩ := hr
    have hlong := List.find?_some hfind
    rw [hbrief t (hsuffix.subset (List.mem_of_find?_eq_some hfind))] at hlong
    exact Bool.noConfusion hlong

/-- Only the first number with too many digits keeps the rest of the tokens from being read. -/
theorem readTokens_accounted (hd : 2 * n + 2 ≤ d) (hx : Within n xs) :
    ∃ ps rest, Portions (statement d) [.eof] xs ps rest ∧ (∀ p ∈ ps, p.Accounted) ∧
      (nextKind rest = .eof ∧
          readTokens d xs = ⟨Portion.kept ps, Portion.mistakes ps, none⟩ ∨
        ∃ t, xs.find? Token.isOverlong = some t ∧
          readTokens d xs = ⟨Portion.kept ps, Portion.mistakes ps,
            some (.numeral (.tooLong t.literal.toList.length))⟩) := by
  have hs := statement_tallies hd hx
  obtain ⟨ps, rest, hps, hread⟩ := statementsFrom_portions (progressive d) xs
  have haccounted := hps.accounted ⟨d, rfl⟩ hs
  refine ⟨ps, rest, hps, haccounted, ?_⟩
  rcases hread with ⟨hend, hread⟩ | ⟨r, hrest, hread⟩
  · exact .inl ⟨hend, hread⟩
  · have hr := hs rest (hps.eq_append ▸ List.suffix_append _ _)
    rw [hrest] at hr
    obtain ⟨t, hfind, rfl⟩ := hr
    refine .inr ⟨t, ?_, hread⟩
    rw [hps.eq_append, List.find?_append, (tally_portions haccounted).find?_eq_none,
      Option.none_or, hfind]

end Read

theorem scan_within (text file : String) :
    Within (Token.scan text file).length (Token.scan text file) := by
  refine ⟨Nat.le_refl _, fun t ht hk => ?_⟩
  have ha : t.kind.Admits t.literal := scan_holds text file t ht
  rwa [hk] at ha

/-- Nothing but the end of the input is left of a text where its end is reached. -/
theorem scan_ended {text file : String} {rest : List Token} (hs : rest <:+ Token.scan text file)
    (hk : nextKind rest = .eof) : ∀ t ∈ rest, t.kind = .eof := by
  cases rest with
  | nil => exact fun _ ht => absurd ht List.not_mem_nil
  | cons z rest =>
    rw [Token.scan, Token.scanFrom_eq_words] at hs
    rw [eq_nil_of_eof (fun t ht => (Token.mem_words ht).2) hs hk]
    intro t ht
    rw [List.mem_singleton.mp ht]
    exact hk

theorem tally_others {ts : List Token} (h : ∀ t ∈ ts, t.kind ≠ .int) : Tally ts [] [] := by
  induction ts with
  | nil => exact .nil
  | cons t ts ih =>
    exact (Tally.other (h t List.mem_cons_self)).append
      (ih fun u hu => h u (List.mem_cons_of_mem t hu))

section Text

variable {text file : String} {depth : Nat}

/-- A text is read to its end, unless there is a number with too many digits in it. -/
theorem readText_accounted (hd : 2 * (Token.scan text file).length + 2 ≤ depth) :
    (∃ ps rest, Portions (statement depth) [.eof] (Token.scan text file) ps rest ∧
        (∀ p ∈ ps, p.Accounted) ∧ nextKind rest = .eof ∧
        readText depth text file = ⟨Portion.kept ps, Portion.mistakes ps, none⟩ ∧
        Tally (Token.scan text file) (Statement.allIntegers (Portion.kept ps))
          (Portion.mistakes ps)) ∨
      ∃ t, (Token.scan text file).find? Token.isOverlong = some t ∧
        (readText depth text file).refusal =
          some (.numeral (.tooLong t.literal.toList.length)) := by
  obtain ⟨ps, rest, hps, haccounted, hread⟩ := readTokens_accounted hd (scan_within text file)
  rcases hread with ⟨hend, hread⟩ | ⟨t, hfind, hread⟩
  · have hrest : ∀ t ∈ rest, t.kind ≠ .int := by
      intro t ht
      rw [scan_ended (hps.eq_append ▸ List.suffix_append _ _) hend t ht]
      decide
    have htally := (tally_portions haccounted).append (tally_others hrest)
    rw [← hps.eq_append, List.append_nil, List.append_nil] at htally
    exact .inl ⟨ps, rest, hps, haccounted, hend, hread, htally⟩
  · exact .inr ⟨t, hfind, congrArg Reading.refusal hread⟩

theorem readText_refusal (hd : 2 * (Token.scan text file).length + 2 ≤ depth) :
    (readText depth text file).refusal = ((Token.scan text file).find? Token.isOverlong).map
      fun t => .numeral (.tooLong t.literal.toList.length) := by
  rcases readText_accounted hd with ⟨ps, rest, -, -, -, hread, htally⟩ | ⟨t, hfind, hread⟩
  · rw [hread, htally.find?_eq_none]
    rfl
  · rw [hread, hfind]
    rfl

end Text

/-- What becomes of the numbers in a text, and of the statements around those that are too large:
all statements of the program, and all statements of a block wherever it starts, are kept or left
out one by one. -/
theorem readText_accounts (text file : String) {depth : Nat}
    (hd : 2 * (Token.scan text file).length + 2 ≤ depth) :
    let tokens := Token.scan text file
    let reading := readText depth text file
    reading.refusal =
        (tokens.find? Token.isOverlong).map
          (fun t => .numeral (.tooLong t.literal.toList.length)) ∧
      (reading.refusal = none →
        Tally tokens reading.program.integers reading.errors ∧
        reading.errors.filterMap SyntaxError.numeral? = Token.tooLarge tokens ∧
        reading.program.integers.Sublist (Token.integers tokens) ∧
        (reading.errors = [] → reading.program.integers = Token.integers tokens) ∧
        (∃ ps rest, Portions (statement depth) [.eof] tokens ps rest ∧
          (∀ p ∈ ps, p.Accounted) ∧ nextKind rest = .eof ∧
          reading = ⟨Portion.kept ps, Portion.mistakes ps, none⟩) ∧
        ∀ d xs, xs <:+ tokens → 2 * xs.length + 2 ≤ d →
          ∃ ps rest, Portions (statement d) [.rbrace, .eof] xs ps rest ∧
            (∀ p ∈ ps, p.Accounted) ∧ (nextKind rest = .rbrace ∨ nextKind rest = .eof) ∧
            block (statement d) xs = .read (Portion.kept ps) (Portion.mistakes ps) rest.tail) := by
  intro tokens reading
  refine ⟨readText_refusal hd, fun hnone => ?_⟩
  rcases readText_accounted hd with
    ⟨ps, rest, hps, haccounted, hend, hread, htally⟩ | ⟨t, -, hrefused⟩
  · have hread : reading = ⟨Portion.kept ps, Portion.mistakes ps, none⟩ := hread
    have htally : Tally tokens reading.program.integers reading.errors := by
      rw [hread]
      exact htally
    refine ⟨htally, htally.recorded, htally.sublist, htally.complete,
      ⟨ps, rest, hps, haccounted, hend, hread⟩, ?_⟩
    intro d xs hxs hd
    have hwithin : Within xs.length xs :=
      ⟨Nat.le_refl _, ((scan_within text file).suffix hxs).plain⟩
    exact block_accounted hd hwithin fun t ht => htally.brief t (hxs.subset ht)
  · exact absurd (hnone.symm.trans hrefused) (by simp)

/-- A number that is too large in front of a binding. -/
theorem readText_accounts_too_large :
    2 * (Token.scan "7 9223372036854775808 let b = 6;" "").length + 2 ≤ 18 ∧
      (readText 18 "7 9223372036854775808 let b = 6;" "").refusal = none ∧
      (readText 18 "7 9223372036854775808 let b = 6;" "").errors.filterMap
        SyntaxError.numeral? = ["9223372036854775808"] := by
  have hd : 2 * (Token.scan "7 9223372036854775808 let b = 6;" "").length + 2 ≤ 18 := by
    decide +kernel
  have hrefusal : (readText 18 "7 9223372036854775808 let b = 6;" "").refusal = none := by
    decide +kernel
  have h := readText_accounts "7 9223372036854775808 let b = 6;" "" hd
  refine ⟨hd, hrefusal, (h.2 hrefusal).2.1.trans ?_⟩
  decide +kernel

theorem scan_digits {text : String} (h : Text.Numeral.IsPlain text.toList) (file : String) :
    ∃ t z, Token.scan text file = [t, z] ∧ t.kind = .int ∧ t.literal = text := by
  obtain ⟨hne, hdigits⟩ := h
  cases hcs : text.toList with
  | nil => exact absurd hcs hne
  | cons c cs =>
    rw [hcs] at hdigits
    have hc := hdigits c List.mem_cons_self
    have hname : Token.isNameChar c = true := by simp [Token.isNameChar, hc]
    have hlexeme := Token.lexeme_digits hc (fun d hd => hdigits d (List.mem_cons_of_mem c hd))
      Token.apart_nil
    rw [List.append_nil] at hlexeme
    rw [Token.scan, Token.scanFrom_eq_words, hcs,
      Token.words_lexeme file .start cs (Token.not_blank_of_isNameChar hname), hlexeme,
      Token.words_nil]
    exact ⟨_, _, rfl, rfl, by rw [← hcs]; exact String.ofList_toList⟩

/-- Zeros in front of a seven are a number of value seven, and keep the text from being read. -/
theorem readText_zeros_refused : ∃ text : String, Text.Numeral.IsPlain text.toList ∧
    Nat.ofDigitChars 10 text.toList 0 = 7 ∧ ∀ (file : String) (depth : Nat), 6 ≤ depth →
      (readText depth text file).refusal =
        some (.numeral (.tooLong (Text.Numeral.maxDigits + 1))) := by
  have hplain : Text.Numeral.IsPlain (List.replicate Text.Numeral.maxDigits '0' ++ ['7']) := by
    refine ⟨List.append_ne_nil_of_right_ne_nil _ (List.cons_ne_nil _ _), fun c hc => ?_⟩
    rcases List.mem_append.mp hc with hc | hc
    · rw [List.eq_of_mem_replicate hc]
      decide
    · rw [List.mem_singleton.mp hc]
      decide
  have hzeros : ∀ k, Nat.ofDigitChars 10 (List.replicate k '0') 0 = 0 := by
    intro k
    induction k with
    | zero => rfl
    | succ k ih =>
      rw [List.replicate_succ, Nat.ofDigitChars_cons]
      exact ih
  have hlen : (List.replicate Text.Numeral.maxDigits '0' ++ ['7']).length =
      Text.Numeral.maxDigits + 1 := by
    rw [List.length_append, List.length_replicate]
    rfl
  have hvalue :
      Nat.ofDigitChars 10 (List.replicate Text.Numeral.maxDigits '0' ++ ['7']) 0 = 7 := by
    rw [Nat.ofDigitChars_append, hzeros]
    rfl
  generalize List.replicate Text.Numeral.maxDigits '0' ++ ['7'] = cs at hplain hlen hvalue
  rw [← String.toList_ofList (l := cs)] at hplain hlen hvalue
  generalize String.ofList cs = text at hplain hlen hvalue
  refine ⟨text, hplain, hvalue, fun file depth hd => ?_⟩
  obtain ⟨t, z, hscan, hk, rfl⟩ := scan_digits hplain file
  have hoverlong : t.isOverlong = true := by
    rw [(Token.of_number hk).1, hlen, decide_eq_true (Nat.lt_succ_self _)]
  rw [readText_refusal (by rw [hscan]; exact hd), hscan, List.find?_cons_of_pos hoverlong,
    Option.map_some, hlen]

end Monkey.Reader
