import Monkey.Program.Outline
import Monkey.Proofs.Program.WellFormed

/-!
# Outlines as text

A line feed ends a line and the spaces in front of a label are its level, so the text of an outline
gives its lines back when no label has a line feed in it or starts with a space. The lines of
well-formed trees are such lines: in a string a line feed is written with a backslash.
-/

namespace Monkey

set_option autoImplicit false

/-- The label is on one line, and starts with no space. -/
structure OutlineLine.Plain (l : OutlineLine) : Prop where
  unbroken : '\n' ∉ l.label.toList
  flush : l.label.toList.head? ≠ some ' '

namespace OutlineLine

theorem toList_pushn (s : String) (c : Char) (n : Nat) :
    (s.pushn c n).toList = s.toList ++ List.replicate n c := by
  induction n with
  | zero => simp [String.pushn, Nat.repeat]
  | succ n ih =>
    rw [String.pushn] at ih ⊢
    rw [Nat.repeat, String.toList_push, ih, List.append_assoc, List.replicate_succ']

theorem toList_render (l : OutlineLine) :
    l.render.toList = List.replicate (2 * l.indent) ' ' ++ l.label.toList ++ ['\n'] := by
  simp [render, toList_pushn]

theorem split_unique {α : Type} [DecidableEq α] {x : α} {as bs rest rest' : List α} (ha : x ∉ as)
    (hb : x ∉ bs) (h : as ++ x :: rest = bs ++ x :: rest') : as = bs ∧ rest = rest' := by
  have htake : ∀ {cs : List α} (tail : List α), x ∉ cs →
      (cs ++ x :: tail).takeWhile (· != x) = cs := by
    intro cs tail hc
    rw [List.takeWhile_append_of_pos fun c hm => by simpa using ne_of_mem_of_not_mem hm hc]
    simp
  have hsame : as = bs := by rw [← htake rest ha, h, htake rest' hb]
  subst hsame
  exact ⟨rfl, List.cons.inj (List.append_cancel_left h) |>.2⟩

theorem indentation_unique {n m : Nat} {as bs : List Char} (ha : as.head? ≠ some ' ')
    (hb : bs.head? ≠ some ' ') (h : List.replicate n ' ' ++ as = List.replicate m ' ' ++ bs) :
    n = m ∧ as = bs := by
  have hdrop : ∀ {cs : List Char} (k : Nat), cs.head? ≠ some ' ' →
      (List.replicate k ' ' ++ cs).dropWhile (· == ' ') = cs := by
    intro cs k hc
    rw [List.dropWhile_append_of_pos fun c hm => by simpa using List.eq_of_mem_replicate hm]
    cases cs with
    | nil => rfl
    | cons c cs => exact List.dropWhile_cons_of_neg (by simpa using hc)
  have hsame : as = bs := by rw [← hdrop n ha, h, hdrop m hb]
  subst hsame
  have hlength := congrArg List.length h
  simp only [List.length_append, List.length_replicate] at hlength
  exact ⟨by omega, rfl⟩

theorem Plain.not_mem {l : OutlineLine} (h : l.Plain) :
    '\n' ∉ List.replicate (2 * l.indent) ' ' ++ l.label.toList := by
  simp [h.unbroken]

theorem Plain.eq {l l' : OutlineLine} (h : l.Plain) (h' : l'.Plain)
    (hs : List.replicate (2 * l.indent) ' ' ++ l.label.toList =
      List.replicate (2 * l'.indent) ' ' ++ l'.label.toList) : l = l' := by
  obtain ⟨hindent, hlabel⟩ := indentation_unique h.flush h'.flush hs
  cases l
  cases l'
  simp only [OutlineLine.mk.injEq]
  exact ⟨Nat.eq_of_mul_eq_mul_left (by decide) hindent, String.toList_inj.mp hlabel⟩

end OutlineLine

theorem renderOutline_inj {ls ls' : List OutlineLine} (hls : ∀ l ∈ ls, l.Plain)
    (hls' : ∀ l ∈ ls', l.Plain) (h : renderOutline ls = renderOutline ls') : ls = ls' := by
  have hchars : (ls.flatMap fun l => l.render.toList) = ls'.flatMap fun l => l.render.toList := by
    simpa [renderOutline, String.toList_join, List.flatMap_map] using congrArg String.toList h
  clear h
  induction ls generalizing ls' with
  | nil =>
    cases ls' with
    | nil => rfl
    | cons l' ls' => simp [OutlineLine.toList_render] at hchars
  | cons l ls ih =>
    cases ls' with
    | nil => simp [OutlineLine.toList_render] at hchars
    | cons l' ls' =>
      simp only [List.flatMap_cons, OutlineLine.toList_render, List.append_assoc,
        List.singleton_append] at hchars
      simp only [← List.append_assoc _ l.label.toList, ← List.append_assoc _ l'.label.toList]
        at hchars
      obtain ⟨hl, hl'⟩ := List.forall_mem_cons.mp hls, List.forall_mem_cons.mp hls'
      obtain ⟨hfirst, hrest⟩ := OutlineLine.split_unique hl.1.not_mem hl'.1.not_mem hchars
      rw [hl.1.eq hl'.1 hfirst, ih hl.2 hl'.2]
      simpa [OutlineLine.toList_render] using hrest

/-! ### The lines of a tree -/

theorem newline_not_mem_of_isName {n : String} (h : Token.IsName n) : '\n' ∉ n.toList :=
  fun hm => absurd (h.1.isNameChar _ hm) (by decide)

theorem toList_toString_ofNat (m : Nat) : (toString (m : Int)).toList = Nat.toDigits 10 m :=
  Nat.toList_repr

theorem newline_not_mem_toString {n : Int} (h : 0 ≤ n) : '\n' ∉ (toString n).toList := by
  obtain ⟨m, rfl⟩ := Int.eq_ofNat_of_zero_le h
  intro hm
  rw [toList_toString_ofNat] at hm
  have hall := ((Text.Numeral.isPlain_iff_all _).mp (Text.Numeral.isPlain_toDigits m)).2
  exact absurd (List.all_eq_true.mp hall _ hm) (by decide)

theorem newline_not_mem_parameters {ps : List String} (h : ∀ p ∈ ps, Token.IsName p) :
    '\n' ∉ (", ".intercalate ps).toList := by
  induction ps with
  | nil => simp
  | cons p ps ih =>
    obtain ⟨hp, hps⟩ := List.forall_mem_cons.mp h
    have hp' := newline_not_mem_of_isName hp
    cases ps with
    | nil => simpa using hp'
    | cons q ps => simpa [String.intercalate_cons_cons, hp'] using ih hps

theorem Expression.forall_mem_outlines {P : OutlineLine → Prop} {i : Nat} {es : List Expression}
    (h : ∀ e ∈ es, ∀ l ∈ e.outline i, P l) : ∀ l ∈ Expression.outlines i es, P l := by
  induction es with
  | nil => simp [Expression.outlines]
  | cons e es ih =>
    obtain ⟨he, hes⟩ := List.forall_mem_cons.mp h
    exact List.forall_mem_append.mpr ⟨he, ih hes⟩

theorem Statement.forall_mem_outlines {P : OutlineLine → Prop} {i : Nat} {ss : List Statement}
    (h : ∀ s ∈ ss, ∀ l ∈ s.outline i, P l) : ∀ l ∈ Statement.outlines i ss, P l := by
  induction ss with
  | nil => simp [Statement.outlines]
  | cons s ss ih =>
    obtain ⟨hs, hss⟩ := List.forall_mem_cons.mp h
    exact List.forall_mem_append.mpr ⟨hs, ih hss⟩

theorem newline_not_mem_operator {op : String} (h : op ∈ unaryOperators ++ binaryOperators) :
    '\n' ∉ op.toList := by
  revert op
  decide

theorem plain_leaf {e : Expression} (i : Nat) (h : '\n' ∉ e.source.toList) :
    ∀ l ∈ [(⟨i, e.tag ++ "(" ++ e.source ++ ")"⟩ : OutlineLine)], l.Plain := by
  rw [List.forall_mem_singleton]
  cases e <;> exact ⟨by simpa [Expression.tag] using h, by simp [Expression.tag]⟩

theorem plain_block {ss : List Statement} {i : Nat}
    (h : ∀ s ∈ ss, ∀ l ∈ s.outline (i + 1), l.Plain) :
    ∀ l ∈ ⟨i, "BLOCK"⟩ :: Statement.outlines (i + 1) ss, l.Plain :=
  List.forall_mem_cons.mpr ⟨⟨by simp, by simp⟩, Statement.forall_mem_outlines h⟩

mutual

theorem Expression.WellFormed.plain {e : Expression} :
    e.WellFormed → ∀ (i : Nat), ∀ l ∈ e.outline i, l.Plain
  | .integer h _, i => plain_leaf i (newline_not_mem_toString h)
  | .boolean b, i => plain_leaf i (by cases b <;> decide)
  | .string s, i => plain_leaf i (by
      simp [Expression.source, Text.Quoted.toList_quote, Text.Quoted.newline_not_mem_encode])
  | .name h, i => plain_leaf i (newline_not_mem_of_isName h)
  | .unary hop he, i =>
    have hnl := newline_not_mem_operator (List.mem_append_left _ hop)
    List.forall_mem_cons.mpr ⟨⟨by simpa using hnl, by simp⟩, he.plain (i + 1)⟩
  | .binary hl hop hr, i =>
    have hnl := newline_not_mem_operator (List.mem_append_right _ hop)
    List.forall_mem_cons.mpr ⟨⟨by simpa using hnl, by simp⟩,
      List.forall_mem_append.mpr ⟨hl.plain (i + 1), hr.plain (i + 1)⟩⟩
  | .conditional hc ht, i =>
    have hbranch := plain_block fun s hs => (ht s hs).plain (i + 2)
    List.forall_mem_cons.mpr ⟨⟨by simp, by simp⟩,
      List.forall_mem_append.mpr ⟨hc.plain (i + 1), hbranch⟩⟩
  | .alternative hc ht he, i =>
    have hbranch := plain_block fun s hs => (ht s hs).plain (i + 2)
    have hother := plain_block fun s hs => (he s hs).plain (i + 2)
    List.forall_mem_cons.mpr ⟨⟨by simp, by simp⟩, List.forall_mem_append.mpr
      ⟨List.forall_mem_append.mpr ⟨hc.plain (i + 1), hbranch⟩,
        List.forall_mem_cons.mpr ⟨⟨by simp, by simp⟩, hother⟩⟩⟩
  | .function hps hbody, i =>
    List.forall_mem_cons.mpr ⟨⟨by simpa using newline_not_mem_parameters hps, by simp⟩,
      plain_block fun s hs => (hbody s hs).plain (i + 2)⟩
  | .call hf hargs, i =>
    List.forall_mem_cons.mpr ⟨⟨by simp, by simp⟩, List.forall_mem_append.mpr ⟨hf.plain (i + 1),
      Expression.forall_mem_outlines fun a ha => (hargs a ha).plain (i + 1)⟩⟩

theorem Statement.WellFormed.plain {s : Statement} :
    s.WellFormed → ∀ (i : Nat), ∀ l ∈ s.outline i, l.Plain
  | .binding hn he, i => List.forall_mem_cons.mpr
      ⟨⟨by simpa using newline_not_mem_of_isName hn, by simp⟩, he.plain (i + 1)⟩
  | .ret he, i => List.forall_mem_cons.mpr ⟨⟨by simp, by simp⟩, he.plain (i + 1)⟩
  | .expression he, i => he.plain i

end

/-- Also when strings of the program have line feeds in them. -/
theorem Program.WellFormed.plain {p : Program} (h : p.WellFormed) : ∀ l ∈ p.outline, l.Plain :=
  List.forall_mem_cons.mpr
    ⟨⟨by simp, by simp⟩, Statement.forall_mem_outlines fun s hs => (h s hs).plain 1⟩

end Monkey
