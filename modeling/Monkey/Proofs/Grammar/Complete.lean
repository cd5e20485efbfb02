import Monkey.Proofs.Reader.Basic

/-!
# Phrases are read

What the grammar derives, the reader reads, with the same tree and without an error, provided that
it may go deep enough: two levels for each token are enough. An operator loop stops where the
level of its operands ends, so an expression of a level is read whole above every looser floor.
-/

namespace Monkey.Grammar

set_option autoImplicit false

open Reader
open Token (front)

namespace Level

/-- How tightly a token may bind that follows an expression of the level. -/
def rank : Level → Nat
  | equality => 2
  | comparison => 3
  | sum => 4
  | product => 5
  | unary => 6
  | call => 7
  | atom => 7

/-- The floors below are those above which an expression of the level is read whole. -/
def limit : Level → Nat
  | equality => 2
  | comparison => 3
  | sum => 4
  | product => 5
  | unary => 7
  | call => 7
  | atom => 7

/-- The expression is not continued by what is left. -/
def Ends (p : Level) (rest : List Token) : Prop :=
  (Precedence.ofKind (nextKind rest)).rank ≤ p.rank ∧ nextKind rest ≠ .elseKw

theorem rank_le_tighter (p : Level) : p.rank ≤ p.tighter.rank := by cases p <;> decide

theorem limit_le_tighter (p : Level) : p.limit ≤ p.tighter.limit := by cases p <;> decide

theorem Ends.tighter {p : Level} {rest : List Token} (h : p.Ends rest) : p.tighter.Ends rest :=
  ⟨Nat.le_trans h.1 p.rank_le_tighter, h.2⟩

/-- An operator of a level binds as tightly as the level and opens neither a call nor a branch. -/
theorem of_mem_operators {p : Level} {k : Token.Kind} (h : k ∈ p.operators) :
    (Precedence.ofKind k).rank = p.rank ∧ p.limit = p.rank ∧ p.rank < p.tighter.limit ∧
      k ≠ .lparen ∧ k ≠ .elseKw := by
  revert k
  cases p <;> decide

theorem ends_of_mem_operators {p : Level} {op : Token} (h : op.kind ∈ p.operators)
    (rest : List Token) : p.Ends (op :: rest) :=
  ⟨Nat.le_of_eq (of_mem_operators h).1, (of_mem_operators h).2.2.2.2⟩

theorem ends_lparen {l : Token} (h : l.kind = .lparen) (rest : List Token) :
    call.Ends (l :: rest) := by
  simp [Ends, nextKind, h, Precedence.ofKind, Precedence.rank, rank]

end Level

/-- A token of the kind ends every expression in front of it. -/
def Closing (k : Token.Kind) : Prop := (Precedence.ofKind k).rank = 1 ∧ k ≠ .elseKw

theorem Closing.ends {rest : List Token} (h : Closing (nextKind rest)) (p : Level) : p.Ends rest :=
  ⟨h.1 ▸ (by cases p <;> decide), h.2⟩

theorem closing_of_eq {k : Token.Kind}
    (h : k ∈ [.rparen, .comma, .lbrace, .rbrace, .semicolon, .eof]) : Closing k := by
  revert k
  simp [Closing, Precedence.ofKind, Precedence.rank]

theorem closing_cons {t : Token} {k : Token.Kind} (rest : List Token) (h : t.kind = k)
    (hk : k ∈ [.rparen, .comma, .lbrace, .rbrace, .semicolon, .eof]) :
    Closing (nextKind (t :: rest)) := by
  rw [nextKind, h]
  exact closing_of_eq hk

theorem Block.closing {ts rest : List Token} {ss : List Statement} (h : Block ts ss rest) :
    Closing (nextKind ts) := by
  rw [h.first]
  exact closing_of_eq (by decide)

/-- What can start a statement ends the expression in front of it, two kinds of token excepted. -/
theorem closing_of_mem {k : Token.Kind} (h : k ∈ .letKw :: .returnKw :: starts)
    (hm : k ≠ .minus) (hl : k ≠ .lparen) : Closing k := by
  revert k
  simp [starts, Closing, Precedence.ofKind, Precedence.rank]

theorem operators_stop {reader : ExpressionReader} {floor : Precedence} {ts : List Token}
    (h : (Precedence.ofKind (nextKind ts)).rank ≤ floor.rank) (bound : List Token)
    (e : Monkey.Expression) : operators reader floor bound e [] ts = .read e [] ts := by
  cases bound with
  | nil => rw [operators]; simp
  | cons b bound =>
    cases ts with
    | nil => rw [operators]; simp
    | cons t ts =>
      have ht : ¬ floor.rank < (Precedence.ofKind t.kind).rank := Nat.not_lt.mpr h
      rw [operators, if_neg ht]

theorem expect_eq {k : Token.Kind} {t : Token} (ts : List Token) (h : t.kind = k) :
    expect k (t :: ts) = .read t [] ts := by
  rw [expect, if_pos h]

theorem skipSemicolon_eq {ts : List Token} (h : nextKind ts ≠ .semicolon) :
    skipSemicolon ts = ts := by
  cases ts with
  | nil => rfl
  | cons t ts => exact if_neg h

theorem statement_of_starts {d : Nat} {ts : List Token} (h : nextKind ts ∈ starts) :
    statement (d + 1) ts = expressionStatement (expression d) ts := by
  rw [statement]
  split
  · next hk => simp [hk, starts] at h
  · next hk => simp [hk, starts] at h
  · rfl

/-- What starts a statement neither ends a sequence nor separates its statements. -/
theorem ne_of_mem {k : Token.Kind} (h : k ∈ .letKw :: .returnKw :: starts) :
    k ≠ .rbrace ∧ k ≠ .eof ∧ k ≠ .semicolon := by
  revert k
  simp [starts]

/-- Above the floor the expression is read from the front of the tokens, and reading goes on with
the operators that are left. -/
def Reads (d : Nat) (floor : Precedence) (xs : List Token) (e : Monkey.Expression)
    (rest : List Token) : Prop :=
  ∃ ys bound, Remains xs ys rest ∧ ys.length ≤ bound.length ∧
    expression (d + 1) floor xs = operators (expression d) floor bound e [] ys

section Reads

variable {d : Nat} {floor : Precedence} {xs ts us rest : List Token} {e : Monkey.Expression}

theorem Reads.stop (h : Reads d floor xs e rest)
    (hr : (Precedence.ofKind (nextKind rest)).rank ≤ floor.rank) :
    ∃ ys, Remains xs ys rest ∧ expression (d + 1) floor xs = .read e [] ys := by
  obtain ⟨ys, bound, hys, _, he⟩ := h
  rw [← hys.nextKind] at hr
  exact ⟨ys, hys, he.trans (operators_stop hr bound e)⟩

theorem Reads.close (h : Reads d .lowest xs e rest) (hr : Closing (nextKind rest)) :
    ∃ ys, Remains xs ys rest ∧ expression (d + 1) .lowest xs = .read e [] ys :=
  h.stop (Nat.le_of_eq hr.1)

theorem reads_of_operand {ys : List Token}
    (h : operand (expression d) (statement d) xs = .read e [] ys) (hs : Remains xs ys rest) :
    Reads d floor xs e rest :=
  ⟨ys, ys, hs, Nat.le_refl _, by rw [expression, h]⟩

theorem Reads.binary {p : Level} {op : Token} {l r : Monkey.Expression}
    (hl : Reads d floor xs l (op :: us)) (hop : op.kind ∈ p.operators)
    (hfloor : floor.rank < p.limit)
    (hr : ∀ ys, Remains xs ys us → ∃ zs, Remains ys zs rest ∧
      expression d (.ofKind op.kind) ys = .read r [] zs) :
    Reads d floor xs (.binary l op.literal r) rest := by
  obtain ⟨_, bound, hleft, hb, he⟩ := hl
  obtain ⟨ys, rfl, hys⟩ := hleft.eq_cons
  obtain ⟨zs, hzs, hz⟩ := hr ys hys
  obtain ⟨hrank, hlimit, _, hparen, _⟩ := Level.of_mem_operators hop
  cases bound with
  | nil => exact absurd hb (by simp)
  | cons b bound =>
    have hlen := hzs.1.length_le
    simp only [List.length_cons] at hb
    refine ⟨zs, bound, hys.trans hzs, by omega, ?_⟩
    rw [he, operators, if_pos (by omega), application, if_neg hparen, hz]
    rfl

theorem Reads.call {t : Token} {f : Monkey.Expression} {args : List Monkey.Expression}
    (h : Reads d floor xs f (t :: us)) (ht : t.kind = .lparen) (hfloor : floor.rank < 7)
    (ha : ∀ ys, Remains xs ys us → ∃ zs, Remains ys zs rest ∧
      arguments (expression d) ys = .read args [] zs) :
    Reads d floor xs (.call f args) rest := by
  obtain ⟨_, bound, hcallee, hb, he⟩ := h
  obtain ⟨ys, rfl, hys⟩ := hcallee.eq_cons
  obtain ⟨zs, hzs, hz⟩ := ha ys hys
  cases bound with
  | nil => exact absurd hb (by simp)
  | cons b bound =>
    have hlen := hzs.1.length_le
    simp only [List.length_cons] at hb
    have hrank : floor.rank < (Precedence.ofKind t.kind).rank := by rw [ht]; exact hfloor
    refine ⟨zs, bound, hys.trans hzs, by omega, ?_⟩
    rw [he, operators, if_pos hrank, application, if_pos ht, hz]
    rfl

end Reads

theorem moreParameters_of_parameters {ts rest : List Token} {ns : List String}
    (h : Parameters ts ns rest) (hns : ns ≠ []) {xs : List Token} (hx : front xs = ts) :
    ∃ n ys zs, xs = n :: ys ∧ n.kind = .ident ∧ Remains ys zs rest ∧
      ∀ done, moreParameters (n.literal :: done) ys = .read (done.reverse ++ ns) [] zs := by
  induction h generalizing xs with
  | none _ => exact absurd rfl hns
  | @last n r rest hn hr =>
    obtain ⟨ys, rfl, hys⟩ := front_eq_cons hx
    obtain ⟨zs, rfl, hzs⟩ := front_eq_cons hys
    refine ⟨n, r :: zs, zs, rfl, hn, remains_cons r hzs, fun done => ?_⟩
    rw [moreParameters.eq_def]
    simp [expect, hr, Outcome.map]
  | @more n c ts rest ns hn hc _ hne ih =>
    obtain ⟨ys, rfl, hys⟩ := front_eq_cons hx
    obtain ⟨zs, rfl, hzs⟩ := front_eq_cons hys
    obtain ⟨m, us, vs, rfl, hm, hvs, hread⟩ := ih hne hzs
    refine ⟨n, c :: m :: us, vs, rfl, hn, hvs.cons.cons, fun done => ?_⟩
    rw [moreParameters, if_pos hc, if_pos hm, hread (n.literal :: done)]
    simp

theorem Parameters.complete {ts rest : List Token} {ns : List String}
    (h : Parameters ts ns rest) {xs : List Token} (hx : front xs = ts) :
    ∃ ys, Remains xs ys rest ∧ parameters xs = .read ns [] ys := by
  by_cases hns : ns = []
  · subst hns
    cases h with
    | none hr =>
      obtain ⟨ys, rfl, hys⟩ := front_eq_cons hx
      exact ⟨ys, remains_cons _ hys, by simp [parameters, nextKind, hr]⟩
  · obtain ⟨n, ys, zs, rfl, hn, hzs, hread⟩ := moreParameters_of_parameters h hns hx
    refine ⟨zs, hzs.cons, ?_⟩
    simpa [parameters, nextKind, hn, expect, Outcome.andThen] using hread []

theorem Sequence.closing {ts rest : List Token} {ss : List Statement} (h : Sequence ts ss rest)
    (hr : nextKind rest = .rbrace ∨ nextKind rest = .eof)
    (hstart : ss ≠ [] → ∀ t ∈ ts.head?, t.kind ≠ .minus ∧ t.kind ≠ .lparen) :
    Closing (nextKind ts) ∧ nextKind ts ≠ .semicolon := by
  by_cases hss : ss = []
  · subst hss
    cases h with
    | nil =>
      rcases hr with hr | hr <;> rw [hr] <;> exact ⟨closing_of_eq (by decide), by decide⟩
  · have hfirst := h.first hss
    cases ts with
    | nil => simp [nextKind, starts] at hfirst
    | cons t ts =>
      obtain ⟨hm, hl⟩ := hstart hss t rfl
      exact ⟨closing_of_mem hfirst hm hl, (ne_of_mem hfirst).2.2⟩

def ReadsArguments (d : Nat) (xs : List Token) (es : List Monkey.Expression)
    (rest : List Token) : Prop :=
  ∃ e ys zs, expression d .lowest xs = .read e [] ys ∧ ys.length ≤ xs.length ∧
    Remains xs zs rest ∧ ∀ done bound, ys.length ≤ bound.length →
      moreArguments (expression d) bound (e :: done) [] ys = .read (done.reverse ++ es) [] zs

section ReadsArguments

variable {d : Nat} {xs us rest : List Token} {e : Monkey.Expression} {es : List Monkey.Expression}

theorem ReadsArguments.last {r : Token} (hus : Remains xs us (r :: rest)) (hr : r.kind = .rparen)
    (h : expression d .lowest xs = .read e [] us) : ReadsArguments d xs [e] rest := by
  obtain ⟨zs, rfl, hzs⟩ := hus.eq_cons
  refine ⟨e, _, zs, h, hus.1.length_le, hzs, fun done bound hb => ?_⟩
  cases bound with
  | nil => exact absurd hb (by simp)
  | cons b bound => simp [moreArguments, hr, expect, Outcome.map]

theorem ReadsArguments.more {c : Token} {ts : List Token} (hus : Remains xs us (c :: ts))
    (hc : c.kind = .comma) (h : expression d .lowest xs = .read e [] us)
    (hes : ∀ ys, Remains xs ys ts → ReadsArguments d ys es rest) :
    ReadsArguments d xs (e :: es) rest := by
  obtain ⟨ys, rfl, hys⟩ := hus.eq_cons
  obtain ⟨e', us, zs, hu, hul, hzs, hmore⟩ := hes ys hys
  refine ⟨e, _, zs, h, hus.1.length_le, hys.trans hzs, fun done bound hb => ?_⟩
  cases bound with
  | nil => exact absurd hb (by simp)
  | cons b bound =>
    simp only [List.length_cons] at hb
    rw [moreArguments, if_pos hc, hu]
    simpa using hmore (e :: done) bound (by omega)

end ReadsArguments

theorem Arguments.arguments_eq {d : Nat} {ts xs rest : List Token} {es : List Monkey.Expression}
    (h : Arguments ts es rest) (hf : front xs = ts)
    (hreads : es ≠ [] → ReadsArguments d xs es rest) :
    ∃ ys, Remains xs ys rest ∧ arguments (expression d) xs = .read es [] ys := by
  by_cases hes : es = []
  · subst hes
    cases h with
    | none hr =>
      obtain ⟨ys, rfl, hys⟩ := front_eq_cons hf
      exact ⟨ys, remains_cons _ hys, by simp [arguments, nextKind, hr]⟩
  · obtain ⟨e, ys, zs, he, _, hzs, hmore⟩ := hreads hes
    have hparen : nextKind xs ≠ .rparen := by
      have hfirst := h.first hes
      rw [← hf, nextKind_front] at hfirst
      intro hp
      simp [hp, starts] at hfirst
    refine ⟨zs, hzs, ?_⟩
    rw [arguments, if_neg hparen, he]
    simpa [Outcome.andThen] using hmore [] ys (Nat.le_refl _)

mutual

theorem Expression.complete {p : Level} {ts rest : List Token} {e : Monkey.Expression} {d : Nat}
    {floor : Precedence} {xs : List Token} :
    Expression p ts e rest → Readable xs → front xs = ts → p.Ends rest → floor.rank < p.limit →
      2 * ts.length ≤ 2 * rest.length + d + 1 → Reads d floor xs e rest
  | .binary hop hl hr, hx, hf, hends, hfloor, hd => by
    obtain ⟨hrank, hlimit, htight, _⟩ := Level.of_mem_operators hop
    have hll := hl.leaves.2
    have hrl := hr.leaves.2
    simp only [List.length_cons] at hll
    obtain ⟨d, rfl⟩ : ∃ d', d = d' + 1 := ⟨d - 1, by omega⟩
    have hleft := hl.complete hx hf (Level.ends_of_mem_operators hop _) hfloor
      (d := d + 1) (by simp only [List.length_cons]; omega)
    refine hleft.binary hop hfloor fun ys hys => ?_
    have hright := hr.complete (hys.readable hx) hys.2 hends.tighter (hrank ▸ htight)
      (d := d) (by omega)
    exact hright.stop (hrank ▸ hends.1)
  | .tighter h, hx, hf, hends, hfloor, hd =>
    h.complete hx hf hends.tighter (Nat.lt_of_lt_of_le hfloor (Level.limit_le_tighter p)) hd
  | .unary hk h, hx, hf, hends, _, hd => by
    obtain ⟨ys, rfl, hys⟩ := front_eq_cons hf
    have hlen := h.leaves.2
    simp only [List.length_cons] at hd
    obtain ⟨d, rfl⟩ : ∃ d', d = d' + 1 := ⟨d - 1, by omega⟩
    have hreads : Reads d .unary ys _ rest := h.complete hx.tail hys hends (by decide) (by omega)
    obtain ⟨zs, hzs, hz⟩ := hreads.stop hends.1
    refine reads_of_operand ?_ hzs.cons
    rcases hk with hk | hk <;> simp [operand, hk, hz, Outcome.map]
  | .call hcallee hparen hargs, hx, hf, _, hfloor, hd => by
    have hcl := hcallee.leaves.2
    have hal := hargs.leaves.2
    simp only [List.length_cons] at hcl
    obtain ⟨d, rfl⟩ : ∃ d', d = d' + 1 := ⟨d - 1, by omega⟩
    have hleft := hcallee.complete hx hf (Level.ends_lparen hparen _) hfloor (d := d + 1)
      (by simp only [List.length_cons]; omega)
    refine hleft.call hparen hfloor fun ys hys => hargs.arguments_eq hys.2 fun hne => ?_
    exact hargs.complete hne (hys.readable hx) hys.2 (by omega)
  | .name hk, hx, hf, _, _, _ => by
    obtain ⟨ys, rfl, hys⟩ := front_eq_cons hf
    exact reads_of_operand (by simp [operand, hk]) (remains_cons _ hys)
  | .integer hk hn, hx, hf, _, _, _ => by
    obtain ⟨ys, rfl, hys⟩ := front_eq_cons hf
    have hread := hx.legible _ List.mem_cons_self hk
    have hle := Int.not_lt.mpr hn
    exact reads_of_operand (by simp [operand, hk, integerLiteral, hread, hle])
      (remains_cons _ hys)
  | .string hk, hx, hf, _, _, _ => by
    obtain ⟨ys, rfl, hys⟩ := front_eq_cons hf
    exact reads_of_operand (by simp [operand, hk]) (remains_cons _ hys)
  | .yes hk, hx, hf, _, _, _ => by
    obtain ⟨ys, rfl, hys⟩ := front_eq_cons hf
    exact reads_of_operand (by simp [operand, hk]) (remains_cons _ hys)
  | .no hk, hx, hf, _, _, _ => by
    obtain ⟨ys, rfl, hys⟩ := front_eq_cons hf
    exact reads_of_operand (by simp [operand, hk]) (remains_cons _ hys)
  | .grouped hl h hr, hx, hf, _, _, hd => by
    obtain ⟨ys, rfl, hys⟩ := front_eq_cons hf
    have hlen := h.leaves.2
    simp only [List.length_cons] at hd hlen
    obtain ⟨d, rfl⟩ : ∃ d', d = d' + 1 := ⟨d - 1, by omega⟩
    have hclosing := fun us => closing_cons us hr (by decide)
    have hreads : Reads d .lowest _ _ _ := h.complete hx.tail hys ((hclosing _).ends _) (by decide)
      (by simp only [List.length_cons]; omega)
    obtain ⟨_, hus, hu⟩ := hreads.close (hclosing _)
    obtain ⟨zs, rfl, hzs⟩ := hus.eq_cons
    refine reads_of_operand ?_ hzs.cons
    simp [operand, hl, grouped, hu, Outcome.andThen, expect_eq _ hr, Outcome.map]
  | .conditional hi hc ht, hx, hf, hends, _, hd => by
    obtain ⟨ys, rfl, hys⟩ := front_eq_cons hf
    have hcl := hc.leaves.2
    have htl := ht.leaves.2
    simp only [List.length_cons] at hd
    obtain ⟨d, rfl⟩ : ∃ d', d = d' + 1 := ⟨d - 1, by omega⟩
    have hreads : Reads d .lowest _ _ _ := hc.complete hx.tail hys (ht.closing.ends _) (by decide)
      (by omega)
    obtain ⟨us, hus, hu⟩ := hreads.close ht.closing
    obtain ⟨l, vs, zs, rfl, hl, hzs, hz⟩ := ht.complete (d := d + 1) (hus.readable hx.tail) hus.2
      (by omega)
    have helse : nextKind zs ≠ .elseKw := by
      rw [hzs.nextKind]
      exact hends.2
    refine reads_of_operand ?_ (hus.trans hzs.cons).cons
    simp [operand, hi, conditional, hu, Outcome.andThen, expect_eq _ hl, hz, alternative, helse,
      Outcome.map]
  | .alternative hi hc ht ho he, hx, hf, _, _, hd => by
    obtain ⟨ys, rfl, hys⟩ := front_eq_cons hf
    have hcl := hc.leaves.2
    have htl := ht.leaves.2
    have hel := he.leaves.2
    simp only [List.length_cons] at hd htl
    obtain ⟨d, rfl⟩ : ∃ d', d = d' + 1 := ⟨d - 1, by omega⟩
    have hreads : Reads d .lowest _ _ _ := hc.complete hx.tail hys (ht.closing.ends _) (by decide)
      (by omega)
    obtain ⟨us, hus, hu⟩ := hreads.close ht.closing
    obtain ⟨l, vs, _, rfl, hl, hblock, hz⟩ := ht.complete (d := d + 1) (hus.readable hx.tail) hus.2
      (by simp only [List.length_cons]; omega)
    obtain ⟨zs, rfl, hrest⟩ := hblock.eq_cons
    have hzs := hus.trans hrest.cons
    obtain ⟨m, ws, as, rfl, hm, has, ha⟩ := he.complete (d := d + 1) (hzs.readable hx.tail) hzs.2
      (by omega)
    refine reads_of_operand ?_ (hzs.trans has.cons).cons
    simp [operand, hi, conditional, hu, Outcome.andThen, expect_eq _ hl, hz, alternative, nextKind,
      ho, expect_eq _ hm, ha, Outcome.map]
  | .function hk hl hp hb, hx, hf, _, _, hd => by
    obtain ⟨_, rfl, hparen⟩ := front_eq_cons hf
    obtain ⟨ys, rfl, hys⟩ := front_eq_cons hparen
    have hpl := hp.leaves.2
    have hbl := hb.leaves.2
    simp only [List.length_cons] at hd
    obtain ⟨us, hus, hu⟩ := hp.complete hys
    obtain ⟨l, vs, zs, rfl, hl', hzs, hz⟩ := hb.complete (hus.readable hx.tail.tail) hus.2 (d := d)
      (by omega)
    refine reads_of_operand ?_ (hus.trans hzs.cons).cons.cons
    simp [operand, hk, function, expect_eq _ hl, Outcome.andThen, hu, expect_eq _ hl', hz,
      Outcome.map]

theorem Arguments.complete {ts rest : List Token} {es : List Monkey.Expression} {d : Nat}
    {xs : List Token} :
    Arguments ts es rest → es ≠ [] → Readable xs → front xs = ts →
      2 * ts.length ≤ 2 * rest.length + d + 1 → ReadsArguments (d + 1) xs es rest
  | .none _, hne, _, _, _ => absurd rfl hne
  | .last h hr, _, hx, hf, hd => by
    have hclosing := fun us => closing_cons us hr (by decide)
    have hreads : Reads d .lowest _ _ _ := h.complete hx hf ((hclosing _).ends _) (by decide)
      (by simp only [List.length_cons]; omega)
    obtain ⟨_, hus, hu⟩ := hreads.close (hclosing _)
    exact .last hus hr hu
  | .more h hc hs hne, _, hx, hf, hd => by
    have hel := h.leaves.2
    have hsl := hs.leaves.2
    simp only [List.length_cons] at hel
    have hclosing := fun us => closing_cons us hc (by decide)
    have hreads : Reads d .lowest _ _ _ := h.complete hx hf ((hclosing _).ends _) (by decide)
      (by simp only [List.length_cons]; omega)
    obtain ⟨_, hus, hu⟩ := hreads.close (hclosing _)
    exact .more hus hc hu fun ys hys => hs.complete hne (hys.readable hx) hys.2 (by omega)

theorem Block.complete {ts rest : List Token} {ss : List Statement} {d : Nat}
    {xs : List Token} :
    Block ts ss rest → Readable xs → front xs = ts → 2 * ts.length ≤ 2 * rest.length + d + 1 →
      ∃ l ys zs, xs = l :: ys ∧ l.kind = .lbrace ∧ Remains ys zs rest ∧
        block (statement d) ys = .read ss [] zs
  | .closed hl h hr, hx, hf, hd => by
    obtain ⟨ys, rfl, hys⟩ := front_eq_cons hf
    simp only [List.length_cons] at hd
    obtain ⟨_, hus, hchain⟩ := h.complete hx.tail hys (.inl hr) (d := d)
      (by simp only [List.length_cons]; omega)
    obtain ⟨zs, rfl, hzs⟩ := hus.eq_cons
    exact ⟨_, ys, zs, rfl, hl, hzs, hchain.blockFrom [] (Nat.le_refl _) (.inl hr)⟩
  | .unclosed hl h, hx, hf, hd => by
    obtain ⟨ys, rfl, hys⟩ := front_eq_cons hf
    simp only [List.length_cons, List.length_nil] at hd
    obtain ⟨us, hus, hchain⟩ := h.complete hx.tail hys (.inr rfl) (d := d)
      (by simp only [List.length_nil]; omega)
    refine ⟨_, ys, us.tail, rfl, hl, ⟨(List.tail_suffix us).trans hus.1, ?_⟩,
      hchain.blockFrom [] (Nat.le_refl _) (.inr hus.nextKind)⟩
    exact (hus.readable hx.tail).front_tail_of_nil hus.2

theorem Clause.complete {ts rest : List Token} {s : Statement} {d : Nat} {xs : List Token} :
    Clause ts s rest → Readable xs → front xs = ts → Closing (nextKind rest) →
      2 * ts.length ≤ 2 * rest.length + d + 1 →
      ∃ ys, Remains xs ys rest ∧ statement (d + 2) xs = .read s [] (skipSemicolon ys)
  | .binding hk hn ha h, hx, hf, hclosing, hd => by
    obtain ⟨_, rfl, hname⟩ := front_eq_cons hf
    obtain ⟨_, rfl, hassign⟩ := front_eq_cons hname
    obtain ⟨ys, rfl, hys⟩ := front_eq_cons hassign
    simp only [List.length_cons] at hd
    have hreads : Reads d .lowest _ _ _ := h.complete hx.tail.tail.tail hys (hclosing.ends _)
      (by decide) (by omega)
    obtain ⟨us, hus, hu⟩ := hreads.close hclosing
    refine ⟨us, hus.cons.cons.cons, ?_⟩
    simp [statement, nextKind, hk, binding, expect_eq _ hn, expect_eq _ ha, hu, Outcome.andThen,
      Outcome.behind]
  | .ret hk h, hx, hf, hclosing, hd => by
    obtain ⟨ys, rfl, hys⟩ := front_eq_cons hf
    simp only [List.length_cons] at hd
    have hreads : Reads d .lowest _ _ _ := h.complete hx.tail hys (hclosing.ends _) (by decide)
      (by omega)
    obtain ⟨us, hus, hu⟩ := hreads.close hclosing
    refine ⟨us, hus.cons, ?_⟩
    simp [statement, nextKind, hk, returning, hu, Outcome.andThen]
  | .expression h, hx, hf, hclosing, hd => by
    have hreads : Reads d .lowest _ _ _ := h.complete hx hf (hclosing.ends _) (by decide) hd
    obtain ⟨us, hus, hu⟩ := hreads.close hclosing
    refine ⟨us, hus, ?_⟩
    have hfirst := h.first
    rw [← hf, nextKind_front] at hfirst
    simp [statement_of_starts hfirst, expressionStatement, hu, Outcome.andThen]

theorem Sequence.complete {ts rest : List Token} {ss : List Statement} {d : Nat}
    {xs : List Token} :
    Sequence ts ss rest → Readable xs → front xs = ts →
      nextKind rest = .rbrace ∨ nextKind rest = .eof → 2 * ts.length + 1 ≤ 2 * rest.length + d →
      ∃ ys, Remains xs ys rest ∧ Chain (statement d) xs ss ys
  | .nil, _, hf, _, _ => ⟨xs, ⟨List.suffix_rfl, hf⟩, .nil xs⟩
  | .ended h hsemi hs, hx, hf, hr, hd => by
    have hcl := h.leaves.2
    have hsl := hs.suffix.length_le
    simp only [List.length_cons] at hcl
    obtain ⟨d, rfl⟩ : ∃ d', d = d' + 2 := ⟨d - 2, by omega⟩
    obtain ⟨hbrace, heof, _⟩ := ne_of_mem h.first
    obtain ⟨_, hus, hu⟩ := h.complete (d := d) hx hf (closing_cons _ hsemi (by decide))
      (by simp only [List.length_cons]; omega)
    obtain ⟨ys, rfl, hys⟩ := hus.eq_cons
    rw [skipSemicolon, if_pos hsemi] at hu
    obtain ⟨zs, hzs, hchain⟩ := hs.complete (d := d + 2) (hys.readable hx) hys.2 hr (by omega)
    rw [← hf, nextKind_front] at hbrace heof
    exact ⟨zs, hys.trans hzs, .cons hbrace heof hus.1.length_le hu hchain⟩
  | .unended h hs hstart, hx, hf, hr, hd => by
    have hcl := h.leaves.2
    have hsl := hs.suffix.length_le
    obtain ⟨d, rfl⟩ : ∃ d', d = d' + 2 := ⟨d - 2, by omega⟩
    obtain ⟨hbrace, heof, _⟩ := ne_of_mem h.first
    obtain ⟨hclosing, hsemi⟩ := hs.closing hr hstart
    obtain ⟨us, hus, hu⟩ := h.complete (d := d) hx hf hclosing (by omega)
    rw [skipSemicolon_eq (hus.nextKind ▸ hsemi)] at hu
    obtain ⟨zs, hzs, hchain⟩ := hs.complete (d := d + 2) (hus.readable hx) hus.2 hr (by omega)
    have hlen := length_lt_of_front hus.1 (by rw [hf, hus.2]; exact hcl)
    rw [← hf, nextKind_front] at hbrace heof
    exact ⟨zs, hus.trans hzs, .cons hbrace heof hlen hu hchain⟩

end

end Monkey.Grammar
