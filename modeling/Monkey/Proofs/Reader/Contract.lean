import Monkey.Proofs.Reader.Basic

/-!
# Contracts of readers

A contract says which tokens there may be, which names and trees may be read from them, and what
errors may be about. If it allows what can be made of single tokens and of trees that it allows,
then the readers keep it, one construct after another. Whatever the contract is, a statement or an
expression takes at least one token, if there is one, what it leaves are the last of its tokens, and
it is not dropped without an error.
-/

namespace Monkey.Reader

set_option autoImplicit false

/-- The kinds of token that a construct cannot do without. -/
def required : List Token.Kind := [.ident, .assign, .lparen, .rparen, .lbrace]

structure Contract where
  token : Token → Prop
  error : SyntaxError → Prop
  name : String → Prop
  expression : Expression → Prop
  statement : Statement → Prop

namespace Contract

def Holds (C : Contract) (xs : List Token) : Prop := ∀ t ∈ xs, C.token t

/-- What may be made of single tokens, and of names and trees. -/
structure Lawful (C : Contract) : Prop where
  expected : ∀ {k t}, k ∈ required → C.token t ∨ t = .endOfInput → C.error (.expected k t)
  unexpected : ∀ {t}, C.token t ∨ t = .endOfInput → C.error (.unexpected t)
  tooLarge : ∀ {t}, C.token t → t.kind = .int → C.error (.integerTooLarge t.literal)
  name : ∀ {t}, C.token t → t.kind = .ident → C.name t.literal
  identifier : ∀ {n}, C.name n → C.expression (.name n)
  integer : ∀ {t n}, C.token t → t.kind = .int → Text.Numeral.read t.literal = .ok n →
    n ≤ Integer.greatest → C.expression (.integer n)
  boolean : ∀ b, C.expression (.boolean b)
  string : ∀ s, C.expression (.string s)
  unary : ∀ {t e}, C.token t → t.kind = .bang ∨ t.kind = .minus → C.expression e →
    C.expression (.unary t.literal e)
  binary : ∀ {floor : Precedence} {t l r}, C.token t →
    floor.rank < (Precedence.ofKind t.kind).rank → t.kind ≠ .lparen → C.expression l →
    C.expression r → C.expression (.binary l t.literal r)
  conditional : ∀ {c t}, C.expression c → (∀ s ∈ t, C.statement s) →
    C.expression (.conditional c t none)
  alternative : ∀ {c t e}, C.expression c → (∀ s ∈ t, C.statement s) → (∀ s ∈ e, C.statement s) →
    C.expression (.conditional c t (some e))
  function : ∀ {ps body}, (∀ n ∈ ps, C.name n) → (∀ s ∈ body, C.statement s) →
    C.expression (.function ps body)
  call : ∀ {f args}, C.expression f → (∀ a ∈ args, C.expression a) → C.expression (.call f args)
  binding : ∀ {n e}, C.name n → C.expression e → C.statement (.binding n e)
  ret : ∀ {e}, C.expression e → C.statement (.ret e)
  only : ∀ {e}, C.expression e → C.statement (.expression e)

variable {C : Contract} {xs ys : List Token}

theorem Holds.suffix (h : C.Holds xs) (hs : ys <:+ xs) : C.Holds ys :=
  fun t ht => h t (hs.subset ht)

theorem Holds.tail (h : C.Holds xs) : C.Holds xs.tail := h.suffix (List.tail_suffix xs)

end Contract

namespace Outcome

variable {α β : Type} {C : Contract} {xs ys rest : List Token} {Q : α → Prop} {R : β → Prop}
  {o : Outcome α} {es : List SyntaxError}

/-- What is left are the last of the tokens `xs`, and `Q` holds of what was read. The errors are as
the contract has them, and nothing is dropped without one. -/
def Keeps (C : Contract) (xs : List Token) (Q : α → Prop) : Outcome α → Prop
  | read a es rest => (∀ e ∈ es, C.error e) ∧ rest <:+ xs ∧ Q a
  | dropped es rest => es ≠ [] ∧ (∀ e ∈ es, C.error e) ∧ rest <:+ xs
  | refused _ => True

theorem keeps_read {a : α} (hs : rest <:+ xs) (ha : Q a) : (read a [] rest).Keeps C xs Q :=
  ⟨List.forall_mem_nil _, hs, ha⟩

theorem keeps_dropped {e : SyntaxError} (he : C.error e) (hs : rest <:+ xs) :
    (dropped [e] rest).Keeps C xs Q :=
  ⟨List.cons_ne_nil _ _, List.forall_mem_singleton.mpr he, hs⟩

theorem Keeps.behind (h : o.Keeps C xs Q) (hes : ∀ e ∈ es, C.error e) :
    (o.behind es).Keeps C xs Q := by
  cases o with
  | read a fs rest => exact ⟨List.forall_mem_append.mpr ⟨hes, h.1⟩, h.2⟩
  | dropped fs rest =>
    obtain ⟨hne, hfs, hs⟩ := h
    exact ⟨List.append_ne_nil_of_right_ne_nil es hne, List.forall_mem_append.mpr ⟨hes, hfs⟩, hs⟩
  | refused r => trivial

theorem Keeps.widen (h : o.Keeps C ys Q) (hs : ys <:+ xs) : o.Keeps C xs Q := by
  cases o with
  | read a es rest => exact ⟨h.1, h.2.1.trans hs, h.2.2⟩
  | dropped es rest => exact ⟨h.1, h.2.1, h.2.2.trans hs⟩
  | refused r => trivial

theorem Keeps.map {f : α → β} (h : o.Keeps C xs Q) (hf : ∀ a, Q a → R (f a)) :
    (o.map f).Keeps C xs R := by
  cases o with
  | read a es rest => exact ⟨h.1, h.2.1, hf a h.2.2⟩
  | dropped es rest => exact h
  | refused r => trivial

theorem Keeps.andThen {next : α → List Token → Outcome β} (h : o.Keeps C xs Q) (hx : C.Holds xs)
    (hn : ∀ a rest, C.Holds rest → Q a → (next a rest).Keeps C rest R) :
    (o.andThen next).Keeps C xs R := by
  cases o with
  | read a es rest =>
    obtain ⟨hes, hs, ha⟩ := h
    exact ((hn a rest (hx.suffix hs) ha).widen hs).behind hes
  | dropped es rest => exact h
  | refused r => trivial

end Outcome

namespace Contract

open Outcome (keeps_read keeps_dropped)

structure Kept (C : Contract) (expression : ExpressionReader) (statement : StatementReader) :
    Prop where
  expression : ∀ floor {xs}, C.Holds xs → (expression floor xs).Keeps C xs.tail C.expression
  statement : ∀ {xs}, C.Holds xs → (statement xs).Keeps C xs.tail C.statement

section Constructs

variable {C : Contract} {expression : ExpressionReader} {statement : StatementReader}
  {xs : List Token}

theorem Kept.inner (h : C.Kept expression statement) (floor : Precedence) (hx : C.Holds xs) :
    (expression floor xs).Keeps C xs C.expression :=
  (h.expression floor hx).widen (List.tail_suffix xs)

theorem Lawful.expect (hl : C.Lawful) {k : Token.Kind} (hk : k ∈ required) (hx : C.Holds xs) :
    (expect k xs).Keeps C xs fun t => C.token t ∧ t.kind = k := by
  cases xs with
  | nil => exact keeps_dropped (hl.expected hk (.inr rfl)) List.suffix_rfl
  | cons t xs =>
    have ht := hx t List.mem_cons_self
    rw [Reader.expect]
    split
    · next hkind => exact keeps_read (List.suffix_cons t xs) ⟨ht, hkind⟩
    · exact keeps_dropped (hl.expected hk (.inl ht)) List.suffix_rfl

/-- What a repetition has collected in reverse, statements and errors. -/
theorem keeps_collected {done : List Statement} (hdone : ∀ s ∈ done, C.statement s)
    {errors : List SyntaxError} (herrors : ∀ e ∈ errors, C.error e) {rest : List Token}
    (hs : rest <:+ xs) :
    (Outcome.read done.reverse errors.reverse rest).Keeps C xs fun ss => ∀ s ∈ ss, C.statement s :=
  ⟨fun e he => herrors e (List.mem_reverse.mp he), hs, fun s hs => hdone s (List.mem_reverse.mp hs)⟩

theorem errors_stacked {es errors : List SyntaxError} (hes : ∀ e ∈ es, C.error e)
    (herrors : ∀ e ∈ errors, C.error e) : ∀ e ∈ es.reverse ++ errors, C.error e :=
  List.forall_mem_append.mpr ⟨fun e he => hes e (List.mem_reverse.mp he), herrors⟩

theorem Kept.blockFrom (h : C.Kept expression statement) (bound : List Token)
    {done : List Statement} (hdone : ∀ s ∈ done, C.statement s) {errors : List SyntaxError}
    (herrors : ∀ e ∈ errors, C.error e) (hx : C.Holds xs) :
    (blockFrom statement bound done errors xs).Keeps C xs fun ss => ∀ s ∈ ss, C.statement s := by
  induction bound generalizing done errors xs with
  | nil =>
    rw [Reader.blockFrom]
    · exact keeps_collected hdone herrors List.suffix_rfl
    · simp
  | cons b bound ih =>
    cases xs with
    | nil =>
      rw [Reader.blockFrom]
      · exact keeps_collected hdone herrors List.suffix_rfl
      · simp
    | cons x xs =>
      have hs := (h.statement hx).widen (List.tail_suffix (x :: xs))
      rw [Reader.blockFrom]
      split
      · exact keeps_collected hdone herrors (List.suffix_cons x xs)
      · split
        · next s es rest hread =>
          rw [hread] at hs
          obtain ⟨hes, hrest, hstatement⟩ := hs
          exact (ih (List.forall_mem_cons.mpr ⟨hstatement, hdone⟩) (errors_stacked hes herrors)
            (hx.suffix hrest)).widen hrest
        · next es rest hread =>
          rw [hread] at hs
          obtain ⟨_, hes, hrest⟩ := hs
          exact (ih hdone (errors_stacked hes herrors) (hx.suffix hrest)).widen hrest
        · trivial

theorem Kept.block (h : C.Kept expression statement) (hx : C.Holds xs) :
    (block statement xs).Keeps C xs fun ss => ∀ s ∈ ss, C.statement s :=
  h.blockFrom xs (List.forall_mem_nil _) (List.forall_mem_nil _) hx

theorem Lawful.integerLiteral (hl : C.Lawful) {t : Token} (ht : C.token t) (hk : t.kind = .int)
    (xs : List Token) : (integerLiteral t xs).Keeps C xs C.expression := by
  rw [Reader.integerLiteral]
  split
  · trivial
  · next n hn =>
    split
    · exact keeps_dropped (hl.tooLarge ht hk) List.suffix_rfl
    · next hle => exact keeps_read List.suffix_rfl (hl.integer ht hk hn (Int.not_lt.mp hle))

theorem Kept.grouped (h : C.Kept expression statement) (hl : C.Lawful) (hx : C.Holds xs) :
    (grouped expression xs).Keeps C xs C.expression := by
  apply (h.inner .lowest hx).andThen hx
  intro e rest hrest he
  apply (hl.expect (by decide) hrest).map
  intro _ _
  exact he

theorem Kept.alternative (h : C.Kept expression statement) (hl : C.Lawful) (hx : C.Holds xs) :
    (alternative statement xs).Keeps C xs fun o => ∀ ss ∈ o, ∀ s ∈ ss, C.statement s := by
  rw [Reader.alternative]
  split
  · apply Outcome.Keeps.widen _ (List.tail_suffix xs)
    apply (hl.expect (by decide) hx.tail).andThen hx.tail
    intro _ rest hrest _
    apply (h.block hrest).map
    intro ss hss _ ho
    cases ho
    exact hss
  · exact keeps_read List.suffix_rfl fun _ hss => absurd hss (by simp)

theorem Kept.conditional (h : C.Kept expression statement) (hl : C.Lawful) (hx : C.Holds xs) :
    (conditional expression statement xs).Keeps C xs C.expression := by
  apply (h.inner .lowest hx).andThen hx
  intro c us hu hc
  apply (hl.expect (by decide) hu).andThen hu
  intro _ vs hv _
  apply (h.block hv).andThen hv
  intro t ws hw ht
  apply (h.alternative hl hw).map
  intro o ho
  cases o with
  | none => exact hl.conditional hc ht
  | some e => exact hl.alternative hc ht (ho e rfl)

theorem Lawful.moreParameters (hl : C.Lawful) {done : List String} (hdone : ∀ n ∈ done, C.name n)
    (hx : C.Holds xs) : (moreParameters done xs).Keeps C xs fun ns => ∀ n ∈ ns, C.name n := by
  fun_induction Reader.moreParameters done xs with
  | case1 done => exact keeps_dropped (hl.expected (by decide) (.inr rfl)) List.suffix_rfl
  | case2 done c hc => exact keeps_dropped (hl.expected (by decide) (.inr rfl)) List.nil_suffix
  | case3 done c hc p rest hp ih =>
    have hname := hl.name (hx p (List.mem_cons_of_mem c List.mem_cons_self)) hp
    exact (ih (List.forall_mem_cons.mpr ⟨hname, hdone⟩) hx.tail.tail).widen
      ((List.suffix_cons p rest).trans (List.suffix_cons c (p :: rest)))
  | case4 done c hc p rest hp =>
    have ht := hx p (List.mem_cons_of_mem c List.mem_cons_self)
    exact keeps_dropped (hl.expected (by decide) (.inl ht)) (List.suffix_cons c (p :: rest))
  | case5 done c rest hc =>
    apply (hl.expect (by decide) hx).map
    intro _ _ n hn
    exact hdone n (List.mem_reverse.mp hn)

theorem Lawful.parameters (hl : C.Lawful) (hx : C.Holds xs) :
    (parameters xs).Keeps C xs fun ns => ∀ n ∈ ns, C.name n := by
  rw [Reader.parameters]
  split
  · exact keeps_read (List.tail_suffix xs) (List.forall_mem_nil _)
  · apply (hl.expect (by decide) hx).andThen hx
    intro p rest hrest hp
    exact hl.moreParameters (List.forall_mem_singleton.mpr (hl.name hp.1 hp.2)) hrest

theorem Kept.function (h : C.Kept expression statement) (hl : C.Lawful) (hx : C.Holds xs) :
    (function statement xs).Keeps C xs C.expression := by
  apply (hl.expect (by decide) hx).andThen hx
  intro _ us hu _
  apply (hl.parameters hu).andThen hu
  intro ps vs hv hps
  apply (hl.expect (by decide) hv).andThen hv
  intro _ ws hw _
  apply (h.block hw).map
  intro body hbody
  exact hl.function hps hbody

theorem Kept.operand (h : C.Kept expression statement) (hl : C.Lawful) (hx : C.Holds xs) :
    (operand expression statement xs).Keeps C xs.tail C.expression := by
  cases xs with
  | nil => exact keeps_dropped (hl.unexpected (.inr rfl)) List.suffix_rfl
  | cons t xs =>
    have ht := hx t List.mem_cons_self
    have hxs : C.Holds xs := hx.tail
    have hunary : t.kind = .bang ∨ t.kind = .minus →
        ((expression .unary xs).map (.unary t.literal)).Keeps C xs C.expression := by
      intro hk
      apply (h.inner .unary hxs).map
      intro e he
      exact hl.unary ht hk he
    rw [Reader.operand]
    split
    · next hk => exact keeps_read List.suffix_rfl (hl.identifier (hl.name ht hk))
    · next hk => exact hl.integerLiteral ht hk xs
    · exact keeps_read List.suffix_rfl (hl.string t.literal)
    · exact keeps_read List.suffix_rfl (hl.boolean true)
    · exact keeps_read List.suffix_rfl (hl.boolean false)
    · next hk => exact hunary (.inl hk)
    · next hk => exact hunary (.inr hk)
    · exact h.grouped hl hxs
    · exact h.conditional hl hxs
    · exact h.function hl hxs
    · exact keeps_dropped (hl.unexpected (.inl ht)) List.suffix_rfl

theorem Kept.moreArguments (h : C.Kept expression statement) (hl : C.Lawful) (bound : List Token)
    {done : List Expression} (hdone : ∀ e ∈ done, C.expression e) {errors : List SyntaxError}
    (herrors : ∀ e ∈ errors, C.error e) (hx : C.Holds xs) :
    (moreArguments expression bound done errors xs).Keeps C xs
      fun es => ∀ e ∈ es, C.expression e := by
  have hclose : ∀ {ys : List Token} {done : List Expression} {errors : List SyntaxError},
      C.Holds ys → (∀ e ∈ done, C.expression e) → (∀ e ∈ errors, C.error e) →
      (((Reader.expect .rparen ys).map fun _ => done.reverse).behind errors).Keeps C ys
        fun es => ∀ e ∈ es, C.expression e := by
    intro ys done errors hy hdone herrors
    refine Outcome.Keeps.behind ((hl.expect (by decide) hy).map ?_) herrors
    intro _ _ e he
    exact hdone e (List.mem_reverse.mp he)
  induction bound generalizing done errors xs with
  | nil =>
    rw [Reader.moreArguments]
    · exact hclose hx hdone herrors
    · simp
  | cons b bound ih =>
    cases xs with
    | nil =>
      rw [Reader.moreArguments]
      · exact hclose hx hdone herrors
      · simp
    | cons x xs =>
      have hxs : C.Holds xs := hx.tail
      have he := h.inner .lowest hxs
      have hcons := List.suffix_cons x xs
      rw [Reader.moreArguments]
      split
      · split
        · next e es rest hread =>
          rw [hread] at he
          obtain ⟨hes, hrest, hexpression⟩ := he
          exact (ih (List.forall_mem_cons.mpr ⟨hexpression, hdone⟩)
            (List.forall_mem_append.mpr ⟨herrors, hes⟩) (hxs.suffix hrest)).widen
              (hrest.trans hcons)
        · next es rest hread =>
          rw [hread] at he
          obtain ⟨hne, hes, hrest⟩ := he
          exact ⟨List.append_ne_nil_of_right_ne_nil errors hne,
            List.forall_mem_append.mpr ⟨herrors, hes⟩, hrest.trans hcons⟩
        · trivial
      · exact hclose hx hdone herrors

theorem Kept.arguments (h : C.Kept expression statement) (hl : C.Lawful) (hx : C.Holds xs) :
    (arguments expression xs).Keeps C xs fun es => ∀ e ∈ es, C.expression e := by
  rw [Reader.arguments]
  split
  · exact keeps_read (List.tail_suffix xs) (List.forall_mem_nil _)
  · apply (h.inner .lowest hx).andThen hx
    intro e rest hrest he
    exact h.moreArguments hl rest (List.forall_mem_singleton.mpr he) (List.forall_mem_nil _) hrest

theorem Kept.application (h : C.Kept expression statement) (hl : C.Lawful) {left : Expression}
    (hleft : C.expression left) {floor : Precedence} {t : Token} (hx : C.Holds (t :: xs))
    (hbinds : floor.rank < (Precedence.ofKind t.kind).rank) :
    (application expression left t xs).Keeps C xs C.expression := by
  have hxs : C.Holds xs := hx.tail
  rw [Reader.application]
  split
  · apply (h.arguments hl hxs).map
    intro es hes
    exact hl.call hleft hes
  · next hk =>
    apply (h.inner _ hxs).map
    intro e he
    exact hl.binary (hx t List.mem_cons_self) hbinds hk hleft he

theorem Kept.operators (h : C.Kept expression statement) (hl : C.Lawful) (floor : Precedence)
    (bound : List Token) {left : Expression} (hleft : C.expression left)
    {errors : List SyntaxError} (herrors : ∀ e ∈ errors, C.error e) (hx : C.Holds xs) :
    (operators expression floor bound left errors xs).Keeps C xs C.expression := by
  induction bound generalizing left errors xs with
  | nil =>
    rw [Reader.operators]
    · exact ⟨herrors, List.suffix_rfl, hleft⟩
    · simp
  | cons b bound ih =>
    cases xs with
    | nil =>
      rw [Reader.operators]
      · exact ⟨herrors, List.suffix_rfl, hleft⟩
      · simp
    | cons x xs =>
      have hcons := List.suffix_cons x xs
      rw [Reader.operators]
      split
      · next hbinds =>
        have ha := h.application hl hleft hx hbinds
        split
        · next e es rest hread =>
          rw [hread] at ha
          obtain ⟨hes, hrest, he⟩ := ha
          exact (ih he (List.forall_mem_append.mpr ⟨herrors, hes⟩)
            (hx.suffix (hrest.trans hcons))).widen (hrest.trans hcons)
        · next es rest hread =>
          rw [hread] at ha
          obtain ⟨hne, hes, hrest⟩ := ha
          exact ⟨List.append_ne_nil_of_right_ne_nil errors hne,
            List.forall_mem_append.mpr ⟨herrors, hes⟩, hrest.trans hcons⟩
        · trivial
      · exact ⟨herrors, List.suffix_rfl, hleft⟩

theorem Kept.last (h : C.Kept expression statement) {f : Expression → Statement}
    (hf : ∀ e, C.expression e → C.statement (f e)) (hx : C.Holds xs) :
    ((expression .lowest xs).andThen fun e rest =>
      .read (f e) [] (skipSemicolon rest)).Keeps C xs.tail C.statement := by
  apply (h.expression .lowest hx).andThen hx.tail
  intro e rest _ he
  exact keeps_read (skipSemicolon_suffix rest) (hf e he)

theorem Kept.binding (h : C.Kept expression statement) (hl : C.Lawful) (hx : C.Holds xs) :
    (binding expression xs).Keeps C xs C.statement := by
  apply (hl.expect (by decide) hx).andThen hx
  intro n us hu hn
  apply (hl.expect (by decide) hu).andThen hu
  intro _ vs hv _
  exact (h.last (fun e he => hl.binding (hl.name hn.1 hn.2) he) hv).widen (List.tail_suffix vs)

end Constructs

section Readers

variable {C : Contract} {xs : List Token}

/-- However deep the readers may go, they keep the contract. -/
theorem Lawful.kept (hl : C.Lawful) (d : Nat) :
    C.Kept (Reader.expression d) (Reader.statement d) := by
  induction d with
  | zero =>
    constructor
    · intro floor xs _
      rw [Reader.expression]
      trivial
    · intro xs _
      rw [Reader.statement]
      trivial
  | succ d ih =>
    constructor
    · intro floor xs hx
      have ho := ih.operand hl hx
      rw [Reader.expression]
      split
      · next left es rest hread =>
        rw [hread] at ho
        obtain ⟨hes, hrest, hleft⟩ := ho
        exact (ih.operators hl floor rest hleft hes (hx.tail.suffix hrest)).widen hrest
      · next es rest hread =>
        rw [hread] at ho
        exact ho
      · trivial
    · intro xs hx
      rw [Reader.statement]
      split
      · exact ih.binding hl hx.tail
      · exact (ih.last (fun _ he => hl.ret he) hx.tail).widen (List.tail_suffix xs.tail)
      · exact ih.last (fun _ he => hl.only he) hx

def Covers (C : Contract) (r : Reading) : Prop :=
  (∀ s ∈ r.statements, C.statement s) ∧ ∀ e ∈ r.errors, C.error e

theorem covers_collected {done : List Statement} (hdone : ∀ s ∈ done, C.statement s)
    {errors : List SyntaxError} (herrors : ∀ e ∈ errors, C.error e) (why : Option Refusal) :
    C.Covers ⟨done.reverse, errors.reverse, why⟩ :=
  ⟨fun s hs => hdone s (List.mem_reverse.mp hs), fun e he => herrors e (List.mem_reverse.mp he)⟩

theorem Kept.statementsFrom {expression : ExpressionReader} {statement : StatementReader}
    (h : C.Kept expression statement) (bound : List Token) {done : List Statement}
    (hdone : ∀ s ∈ done, C.statement s) {errors : List SyntaxError}
    (herrors : ∀ e ∈ errors, C.error e) (hx : C.Holds xs) :
    C.Covers (statementsFrom statement bound done errors xs) := by
  induction bound generalizing done errors xs with
  | nil =>
    rw [Reader.statementsFrom]
    · exact covers_collected hdone herrors none
    · simp
  | cons b bound ih =>
    cases xs with
    | nil =>
      rw [Reader.statementsFrom]
      · exact covers_collected hdone herrors none
      · simp
    | cons x xs =>
      have hs := (h.statement hx).widen (List.tail_suffix (x :: xs))
      rw [Reader.statementsFrom]
      split
      · exact covers_collected hdone herrors none
      · split
        · next s es rest hread =>
          rw [hread] at hs
          obtain ⟨hes, hrest, hstatement⟩ := hs
          exact ih (List.forall_mem_cons.mpr ⟨hstatement, hdone⟩) (errors_stacked hes herrors)
            (hx.suffix hrest)
        · next es rest hread =>
          rw [hread] at hs
          obtain ⟨_, hes, hrest⟩ := hs
          exact ih hdone (errors_stacked hes herrors) (hx.suffix hrest)
        · exact covers_collected hdone herrors _

theorem Lawful.readTokens (hl : C.Lawful) (depth : Nat) (hx : C.Holds xs) :
    C.Covers (readTokens depth xs) :=
  (hl.kept depth).statementsFrom xs (List.forall_mem_nil _) (List.forall_mem_nil _) hx

end Readers

end Contract

end Monkey.Reader
