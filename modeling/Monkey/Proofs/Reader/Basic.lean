import Monkey.Proofs.Grammar.Front
import Monkey.Proofs.Token.Words
import Monkey.Reader.Program

/-!
# Readers at work

What a reader may expect of its tokens, the outcomes of compound readers, and the statements that a
reader takes one after another.
-/

namespace Monkey.Reader

set_option autoImplicit false

open Token (front)
open Grammar (Leaves)

/-- Nothing follows the end of the input, and every number has a value. -/
structure Readable (ts : List Token) : Prop where
  ended : ∀ t rest, t :: rest <:+ ts → t.kind = .eof → rest = []
  legible : ∀ t ∈ ts, t.kind = .int → Text.Numeral.read t.literal = .ok (Grammar.value t)

theorem Readable.suffix {ts us : List Token} (h : Readable ts) (hs : us <:+ ts) : Readable us :=
  ⟨fun t rest ht => h.ended t rest (ht.trans hs), fun t ht => h.legible t (hs.subset ht)⟩

theorem Readable.tail {t : Token} {ts : List Token} (h : Readable (t :: ts)) : Readable ts :=
  h.suffix (List.suffix_cons t ts)

theorem eq_nil_of_eof {ts rest : List Token} {t z : Token} (h : ∀ t ∈ ts, t.kind ≠ .eof)
    (hs : t :: rest <:+ ts ++ [z]) (ht : t.kind = .eof) : rest = [] := by
  rcases List.suffix_concat_iff.mp hs with he | ⟨us, he, hus⟩
  · exact absurd he (List.cons_ne_nil _ _)
  · cases us with
    | nil =>
      rw [List.nil_append] at he
      exact (List.cons.inj he).2
    | cons u us =>
      obtain ⟨rfl, -⟩ := List.cons.inj he
      exact absurd ht (h t (hus.subset List.mem_cons_self))

theorem readable_append_eof {ts : List Token} {z : Token} (h : Token.Legible ts)
    (hz : z.kind = .eof) : Readable (ts ++ [z]) := by
  refine ⟨fun t rest hs ht => eq_nil_of_eof (fun t ht => (h t ht).1) hs ht, fun t ht hk => ?_⟩
  rcases List.mem_append.mp ht with ht | ht
  · obtain ⟨hplain, hlen⟩ := (h t ht).2 hk
    rw [Text.Numeral.read_of_isPlain hplain, if_neg (Nat.not_lt.mpr hlen)]
    rfl
  · rw [List.mem_singleton.mp ht, hz] at hk
    exact absurd hk (by decide)

theorem nextKind_front (ts : List Token) : nextKind (front ts) = nextKind ts := by
  cases ts with
  | nil => rfl
  | cons t ts =>
    by_cases h : t.kind = .eof
    · rw [Token.front_eof ts h]
      exact h.symm
    · rw [Token.front_cons ts h]
      rfl

/-- Any next kind but the end of the input is that of a token. -/
theorem eq_cons_of_nextKind {xs : List Token} {k : Token.Kind} (h : nextKind xs = k)
    (hk : k ≠ .eof) : ∃ t ts, xs = t :: ts ∧ t.kind = k := by
  cases xs with
  | nil => exact absurd h.symm hk
  | cons t ts => exact ⟨t, ts, rfl, h⟩

theorem front_eq_cons {xs ts : List Token} {t : Token} (h : front xs = t :: ts) :
    ∃ ys, xs = t :: ys ∧ front ys = ts := by
  cases xs with
  | nil => exact absurd h (by simp)
  | cons x xs =>
    by_cases hx : x.kind = .eof
    · rw [Token.front_eof xs hx] at h
      exact absurd h (by simp)
    · rw [Token.front_cons xs hx] at h
      cases h
      exact ⟨xs, rfl, rfl⟩

theorem skipSemicolon_suffix (xs : List Token) : skipSemicolon xs <:+ xs := by
  cases xs with
  | nil => exact List.suffix_rfl
  | cons x xs =>
    rw [skipSemicolon]
    split
    · exact List.suffix_cons x xs
    · exact List.suffix_rfl

/-- The tokens `ys` are what a reader of `xs` still has, and show `ts` up to the end of the input.
-/
def Remains (xs ys ts : List Token) : Prop := ys <:+ xs ∧ front ys = ts

section Remains

variable {x t : Token} {xs ys zs ts us : List Token}

theorem Remains.trans (h : Remains xs ys us) (hy : Remains ys zs ts) : Remains xs zs ts :=
  ⟨hy.1.trans h.1, hy.2⟩

theorem Remains.cons (h : Remains xs ys ts) : Remains (x :: xs) ys ts :=
  ⟨h.1.trans (List.suffix_cons x xs), h.2⟩

theorem remains_cons (x : Token) (hf : front xs = ts) : Remains (x :: xs) xs ts :=
  ⟨List.suffix_cons x xs, hf⟩

theorem Remains.eq_cons (h : Remains xs ys (t :: ts)) : ∃ zs, ys = t :: zs ∧ Remains xs zs ts := by
  obtain ⟨zs, rfl, hz⟩ := front_eq_cons h.2
  exact ⟨zs, rfl, (List.suffix_cons t zs).trans h.1, hz⟩

theorem Remains.nextKind (h : Remains xs ys ts) : nextKind ys = nextKind ts := by
  rw [← h.2, nextKind_front]

theorem Remains.readable (h : Remains xs ys ts) (hx : Readable xs) : Readable ys := hx.suffix h.1

end Remains

/-- Where no token is left, the end of the input may have been taken or not. -/
theorem Readable.front_tail_of_nil {xs : List Token} (h : Readable xs) (hx : front xs = []) :
    front xs.tail = [] := by
  cases xs with
  | nil => rfl
  | cons x xs =>
    by_cases hk : x.kind = .eof
    · rw [List.tail_cons, h.ended x xs List.suffix_rfl hk]
      rfl
    · rw [Token.front_cons xs hk] at hx
      exact absurd hx (by simp)

theorem length_lt_of_front {xs ys : List Token} (hs : ys <:+ xs)
    (h : (front ys).length < (front xs).length) : ys.length < xs.length := by
  refine Nat.lt_of_le_of_ne hs.length_le fun he => ?_
  rw [hs.eq_of_length he] at h
  exact Nat.lt_irrefl _ h

/-- The reader takes the statements one after another without an error, none of them at a closing
brace or at the end of the input. -/
inductive Chain (statement : StatementReader) :
    List Token → List Statement → List Token → Prop where
  | nil (ts : List Token) : Chain statement ts [] ts
  | cons {ts us rest : List Token} {s : Statement} {ss : List Statement} :
      nextKind ts ≠ .rbrace → nextKind ts ≠ .eof → us.length < ts.length →
      statement ts = .read s [] us → Chain statement us ss rest → Chain statement ts (s :: ss) rest

section Chain

variable {statement : StatementReader} {ts rest : List Token} {ss : List Statement}

theorem Chain.blockFrom (h : Chain statement ts ss rest) (done : List Statement)
    {bound : List Token} (hb : ts.length ≤ bound.length)
    (hr : nextKind rest = .rbrace ∨ nextKind rest = .eof) :
    blockFrom statement bound done [] ts = .read (done.reverse ++ ss) [] rest.tail := by
  induction h generalizing done bound with
  | nil ts =>
    cases ts with
    | nil => cases bound <;> simp [Reader.blockFrom]
    | cons t ts =>
      cases bound with
      | nil => exact absurd hb (by simp)
      | cons b bound =>
        have ht : t.kind = .rbrace ∨ t.kind = .eof := hr
        simp [Reader.blockFrom, ht]
  | @cons ts us rest s ss hbrace heof hlen hs _ ih =>
    cases ts with
    | nil => exact absurd rfl heof
    | cons t ts =>
      cases bound with
      | nil => exact absurd hb (by simp)
      | cons b bound =>
        have ht : ¬ (t.kind = .rbrace ∨ t.kind = .eof) := fun h => h.elim hbrace heof
        simp only [List.length_cons] at hb hlen
        rw [Reader.blockFrom, if_neg ht, hs]
        simpa using ih (s :: done) (by omega) hr

theorem Chain.statementsFrom (h : Chain statement ts ss rest) (done : List Statement)
    {bound : List Token} (hb : ts.length ≤ bound.length) (hr : nextKind rest = .eof) :
    statementsFrom statement bound done [] ts = ⟨done.reverse ++ ss, [], none⟩ := by
  induction h generalizing done bound with
  | nil ts =>
    cases ts with
    | nil => cases bound <;> simp [Reader.statementsFrom]
    | cons t ts =>
      cases bound with
      | nil => exact absurd hb (by simp)
      | cons b bound =>
        have ht : t.kind = .eof := hr
        simp [Reader.statementsFrom, ht]
  | @cons ts us rest s ss _ heof hlen hs _ ih =>
    cases ts with
    | nil => exact absurd rfl heof
    | cons t ts =>
      cases bound with
      | nil => exact absurd hb (by simp)
      | cons b bound =>
        have ht : t.kind ≠ .eof := heof
        simp only [List.length_cons] at hb hlen
        rw [Reader.statementsFrom, if_neg ht, hs]
        simpa using ih (s :: done) (by omega) hr

end Chain

end Monkey.Reader
