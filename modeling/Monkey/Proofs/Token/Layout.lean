import Monkey.Proofs.Token.Lexeme

/-!
# Where tokens stand

The place of an offset into a text is found by counting line feeds. The tokens of a text stand on
stretches of it, one behind another, with nothing but blanks around them; each has the characters
and the places of its stretch. So the blanks and the tokens in turn make up the text.
-/

namespace Monkey.Token

set_option autoImplicit false

namespace Position

/-- The last offset in front of `n` at which a line feed stands. -/
def lastLineFeed? (cs : List Char) (n : Nat) : Option Nat :=
  ((List.range n).filter fun k => cs[k]? = some '\n').getLast?

/-- The place of an offset: its line is one more than the line feeds in front of it, and its column
is the distance to the last of them, or to `-1` if there is none. -/
def ofOffset (cs : List Char) (n : Nat) : Position :=
  ⟨1 + (cs.take n).count '\n', n - ((lastLineFeed? cs n).elim (-1) fun k => (k : Int))⟩

theorem lastLineFeed?_succ (cs : List Char) (n : Nat) :
    lastLineFeed? cs (n + 1) = if cs[n]? = some '\n' then some n else lastLineFeed? cs n := by
  rw [lastLineFeed?, List.range_succ, List.filter_append]
  split
  · next h => simp [h]
  · next h => simp [h, lastLineFeed?]

theorem ofOffset_succ {cs : List Char} {n : Nat} {c : Char} (h : cs[n]? = some c) :
    ofOffset cs (n + 1) = (ofOffset cs n).advance c := by
  obtain ⟨hn, rfl⟩ := List.getElem?_eq_some_iff.mp h
  rw [ofOffset, lastLineFeed?_succ, h, List.take_succ_eq_append_getElem hn, List.count_append,
    advance]
  by_cases hc : cs[n] = '\n'
  · simp [hc, ofOffset]
    omega
  · simp [hc, ofOffset]
    omega

/-- Counting line feeds and going on character by character come to the same place. -/
theorem start_after_take {cs : List Char} {n : Nat} (h : n ≤ cs.length) :
    start.after (cs.take n) = ofOffset cs n := by
  induction n with
  | zero => rfl
  | succ n ih =>
    have hn : n < cs.length := h
    rw [List.take_succ_eq_append_getElem hn, after_append, ih (Nat.le_of_lt hn),
      ofOffset_succ (List.getElem?_eq_getElem hn)]
    rfl

theorem start_after (before rest : List Char) :
    start.after before = ofOffset (before ++ rest) before.length := by
  rw [← start_after_take (by simp), List.take_left']
  rfl

/-- On an earlier line, or further to the left on the same one. -/
def Precedes (p q : Position) : Prop :=
  p.line < q.line ∨ p.line = q.line ∧ p.column < q.column

theorem Precedes.trans {p q r : Position} (h : p.Precedes q) (h' : q.Precedes r) :
    p.Precedes r := by
  unfold Precedes at *
  omega

theorem Precedes.ne {p q : Position} (h : p.Precedes q) : p ≠ q := by
  rintro rfl
  unfold Precedes at h
  omega

theorem precedes_advance (p : Position) (c : Char) : p.Precedes (p.advance c) := by
  unfold advance
  split
  · exact .inl (Int.lt_succ p.line)
  · exact .inr ⟨rfl, Int.lt_succ p.column⟩

theorem ofOffset_precedes_succ (cs : List Char) (n : Nat) :
    (ofOffset cs n).Precedes (ofOffset cs (n + 1)) := by
  cases hc : cs[n]? with
  | some c =>
    rw [ofOffset_succ hc]
    exact precedes_advance _ c
  | none =>
    -- behind the end of the text only the columns go on
    have hn : cs.length ≤ n := List.getElem?_eq_none_iff.mp hc
    refine .inr ⟨?_, ?_⟩
    · simp only [ofOffset, List.take_of_length_le hn, List.take_of_length_le (Nat.le_succ_of_le hn)]
    · simp only [ofOffset, lastLineFeed?_succ, hc, reduceCtorEq, if_false]
      omega

theorem ofOffset_precedes (cs : List Char) {m n : Nat} (h : m < n) :
    (ofOffset cs m).Precedes (ofOffset cs n) := by
  induction h with
  | refl => exact ofOffset_precedes_succ cs m
  | @step n _ ih => exact ih.trans (ofOffset_precedes_succ cs n)

theorem ofOffset_inj (cs : List Char) {m n : Nat} (h : ofOffset cs m = ofOffset cs n) : m = n := by
  rcases Nat.lt_trichotomy m n with hlt | heq | hlt
  · exact absurd h (ofOffset_precedes cs hlt).ne
  · exact heq
  · exact absurd h.symm (ofOffset_precedes cs hlt).ne

end Position

def Span.over (file : String) (cs : List Char) (i j : Nat) : Span :=
  ⟨file, .ofOffset cs i, .ofOffset cs j, String.ofList (cs.extract i j)⟩

theorem Span.over_inj {file : String} {cs : List Char} {i j m n : Nat}
    (h : Span.over file cs i j = Span.over file cs m n) : i = m ∧ j = n :=
  ⟨Position.ofOffset_inj cs (Span.mk.inj h).2.1, Position.ofOffset_inj cs (Span.mk.inj h).2.2.1⟩

/-- The characters that a token stands for in its text. -/
def spelled (t : Token) : List Char :=
  match t.span with
  | some s => s.text.toList
  | none => []

/-- What lies around stretches of a text, from an offset on. -/
def gaps (cs : List Char) : Nat → List (Nat × Nat) → List (List Char)
  | n, [] => [cs.drop n]
  | n, p :: ps => cs.extract n p.1 :: gaps cs p.2 ps

/-- The lists of both kinds in turn, one of the first kind before each of the second kind. -/
def interleave : List (List Char) → List (List Char) → List Char
  | g :: gs, t :: ts => g ++ t ++ interleave gs ts
  | gs, [] => gs.flatten
  | [], ts => ts.flatten

/-- The tokens stand in the text on the stretches between these pairs of offsets. -/
structure Layout (file : String) (cs : List Char) (ts : List Token) (ps : List (Nat × Nat)) :
    Prop where
  /-- Every token has the characters and the places of its stretch. -/
  spans : ts.map Token.span = ps.map fun p => some (Span.over file cs p.1 p.2)
  within : ∀ p ∈ ps, p.1 ≤ p.2 ∧ p.2 ≤ cs.length
  /-- No stretch starts before the ones in front of it have ended. -/
  ordered : ps.Pairwise fun p q => p.2 ≤ q.1
  /-- A character that belongs to no token is a blank. -/
  blank : ∀ k c, cs[k]? = some c → (∀ p ∈ ps, ¬ (p.1 ≤ k ∧ k < p.2)) → Text.isBlank c = true
  /-- The end of the input is the last token and no other one, and it alone is empty. -/
  ended : ∃ us qs, ts = us ++ [eofAt file (.ofOffset cs cs.length)] ∧
    ps = qs ++ [(cs.length, cs.length)] ∧ (∀ u ∈ us, u.kind ≠ .eof) ∧ ∀ q ∈ qs, q.1 < q.2
  /-- Blanks and tokens in turn make up the text. -/
  rebuilt : (∀ g ∈ gaps cs 0 ps, ∀ c ∈ g, Text.isBlank c = true) ∧
    interleave (gaps cs 0 ps) (ts.map spelled) = cs

/-- The tokens stand in the text one behind another from the offset on, with only blanks around
them. -/
inductive Laid (file : String) (cs : List Char) : Nat → List Token → List (Nat × Nat) → Prop where
  | last {n : Nat} : n ≤ cs.length → (∀ c ∈ cs.drop n, Text.isBlank c = true) →
      Laid file cs n [eofAt file (.ofOffset cs cs.length)] [(cs.length, cs.length)]
  | cons {n i j : Nat} {t : Token} {ts : List Token} {ps : List (Nat × Nat)} :
      n ≤ i → i < j → j ≤ cs.length → (∀ c ∈ cs.extract n i, Text.isBlank c = true) →
      t.kind ≠ .eof → t.span = some (.over file cs i j) → Laid file cs j ts ps →
      Laid file cs n (t :: ts) ((i, j) :: ps)

section Laid

variable {file : String} {cs : List Char} {n : Nat} {ts : List Token} {ps : List (Nat × Nat)}

theorem drop_eq_cons {k : Nat} {c : Char} (h : cs[k]? = some c) :
    cs.drop k = c :: cs.drop (k + 1) := by
  obtain ⟨hk, rfl⟩ := List.getElem?_eq_some_iff.mp h
  exact List.drop_eq_getElem_cons hk

theorem Laid.blank {c : Char} (h : Laid file cs (n + 1) ts ps) (hc : cs[n]? = some c)
    (hblank : Text.isBlank c = true) : Laid file cs n ts ps := by
  have hdrop := drop_eq_cons hc
  cases h with
  | last hn hrest =>
    refine .last (Nat.le_of_succ_le hn) ?_
    rw [hdrop]
    exact List.forall_mem_cons.mpr ⟨hblank, hrest⟩
  | @cons _ i j t ts ps hi hij hj hgap hk hspan hrest =>
    refine .cons (Nat.le_of_succ_le hi) hij hj ?_ hk hspan hrest
    have hextract : cs.extract n i = c :: cs.extract (n + 1) i := by
      rw [List.extract_eq_take_drop, hdrop, show i - n = i - (n + 1) + 1 by omega,
        List.take_succ_cons]
    rw [hextract]
    exact List.forall_mem_cons.mpr ⟨hblank, hgap⟩

theorem over_append (file : String) (before text rest : List Char) :
    Span.over file (before ++ (text ++ rest)) before.length (before.length + text.length) =
      ⟨file, Position.start.after before, (Position.start.after before).after text,
        String.ofList text⟩ := by
  have hfirst := Position.start_after before (text ++ rest)
  have hlast := Position.start_after (before ++ text) rest
  rw [List.append_assoc, List.length_append, Position.after_append] at hlast
  have htext : (before ++ (text ++ rest)).extract before.length (before.length + text.length) =
      text := by simp
  rw [Span.over, ← hfirst, ← hlast, htext]

/-- Scanning lays out tokens on what is left of a text. -/
theorem laid_scanFrom (file : String) (before : List Char) : (rest : List Char) →
    ∃ ps, Laid file (before ++ rest) before.length
      (scanFrom file (Position.start.after before) rest) ps
  | [] => by
    rw [scanFrom_nil, Position.start_after before []]
    refine ⟨[((before ++ []).length, (before ++ []).length)], ?_⟩
    rw [show before.length = (before ++ []).length by simp]
    exact .last (Nat.le_refl _) (by simp)
  | c :: cs => by
    have hlen := lexeme_rest_length c cs
    cases hb : Text.isBlank c with
    | true =>
      obtain ⟨ps, hps⟩ := laid_scanFrom file (before ++ [c]) cs
      rw [List.append_assoc, List.length_append, Position.after_append] at hps
      rw [scanFrom_blank file _ cs hb]
      exact ⟨ps, hps.blank (by simp) hb⟩
    | false =>
      -- the text in front grows by the lexeme: its length is the offset where the rest starts
      have hover := over_append file before (lexeme c cs).1.text (lexeme c cs).2
      obtain ⟨ps, hps⟩ := laid_scanFrom file (before ++ (lexeme c cs).1.text) (lexeme c cs).2
      rw [List.append_assoc, lexeme_append, List.length_append, Position.after_append] at hps
      rw [lexeme_append] at hover
      rw [scanFrom_lexeme file _ cs hb]
      have hpos := List.length_pos_iff.mpr (lexeme_text_ne_nil c cs)
      refine ⟨_, .cons (Nat.le_refl _) (Nat.lt_add_of_pos_right hpos) ?_ (by simp)
        (lexeme_admits c cs).2 (congrArg some hover.symm) hps⟩
      rw [← lexeme_append c cs]
      simp
termination_by rest => rest.length

theorem Laid.spans (h : Laid file cs n ts ps) :
    ts.map Token.span = ps.map fun p => some (Span.over file cs p.1 p.2) := by
  induction h with
  | last hn hrest => simp [Span.over, eofAt]
  | cons _ _ _ _ _ hspan _ ih => rw [List.map_cons, List.map_cons, hspan, ih]

theorem Laid.within (h : Laid file cs n ts ps) :
    ∀ p ∈ ps, n ≤ p.1 ∧ p.1 ≤ p.2 ∧ p.2 ≤ cs.length := by
  induction h with
  | last hn hrest =>
    intro p hp
    rw [List.mem_singleton.mp hp]
    exact ⟨hn, Nat.le_refl _, Nat.le_refl _⟩
  | cons hi hij hj _ _ _ _ ih =>
    intro p hp
    rcases List.mem_cons.mp hp with rfl | hp
    · exact ⟨hi, Nat.le_of_lt hij, hj⟩
    · obtain ⟨hstart, hrest⟩ := ih p hp
      exact ⟨by omega, hrest⟩

theorem Laid.ordered (h : Laid file cs n ts ps) : ps.Pairwise fun p q => p.2 ≤ q.1 := by
  induction h with
  | last hn hrest => exact List.pairwise_singleton _ _
  | cons _ _ _ _ _ _ hrest ih =>
    refine List.pairwise_cons.mpr ⟨?_, ih⟩
    intro p hp
    exact (hrest.within p hp).1

theorem Laid.isBlank (h : Laid file cs n ts ps) {k : Nat} {c : Char} (hn : n ≤ k)
    (hc : cs[k]? = some c) (hout : ∀ p ∈ ps, ¬ (p.1 ≤ k ∧ k < p.2)) :
    Text.isBlank c = true := by
  induction h with
  | @last n hle hrest =>
    apply hrest
    refine List.mem_of_getElem? (i := k - n) ?_
    rw [List.getElem?_drop, show n + (k - n) = k by omega]
    exact hc
  | @cons n i j t ts ps hi hij hj hgap _ _ _ ih =>
    obtain ⟨hfirst, hothers⟩ := List.forall_mem_cons.mp hout
    by_cases hk : k < i
    · apply hgap
      rw [List.extract_eq_take_drop]
      refine List.mem_of_getElem? (i := k - n) ?_
      rw [List.getElem?_take_of_lt (by omega), List.getElem?_drop, show n + (k - n) = k by omega]
      exact hc
    · exact ih (by omega) hothers

theorem Laid.ended (h : Laid file cs n ts ps) :
    ∃ us qs, ts = us ++ [eofAt file (.ofOffset cs cs.length)] ∧
      ps = qs ++ [(cs.length, cs.length)] ∧ (∀ u ∈ us, u.kind ≠ .eof) ∧ ∀ q ∈ qs, q.1 < q.2 := by
  induction h with
  | last hn hrest =>
    exact ⟨[], [], rfl, rfl, fun _ hu => absurd hu List.not_mem_nil,
      fun _ hq => absurd hq List.not_mem_nil⟩
  | @cons n i j t ts ps _ hij _ _ hk _ _ ih =>
    obtain ⟨us, qs, rfl, rfl, hus, hqs⟩ := ih
    exact ⟨t :: us, (i, j) :: qs, rfl, rfl, List.forall_mem_cons.mpr ⟨hk, hus⟩,
      List.forall_mem_cons.mpr ⟨hij, hqs⟩⟩

theorem extract_length (cs : List Char) (n : Nat) : cs.extract n cs.length = cs.drop n := by
  rw [List.extract_eq_take_drop]
  exact List.take_of_length_le (by simp)

theorem Laid.gaps_isBlank (h : Laid file cs n ts ps) :
    ∀ g ∈ gaps cs n ps, ∀ c ∈ g, Text.isBlank c = true := by
  induction h with
  | last hn hrest =>
    rw [gaps, gaps, extract_length, List.drop_length]
    exact List.forall_mem_cons.mpr ⟨hrest, by simp⟩
  | cons hi hij hj hgap _ _ _ ih => exact List.forall_mem_cons.mpr ⟨hgap, ih⟩

theorem spelled_of_span {t : Token} {i j : Nat} (h : t.span = some (Span.over file cs i j)) :
    spelled t = cs.extract i j := by
  rw [spelled, h]
  exact String.toList_ofList

theorem extract_append_drop {i j : Nat} (h : i ≤ j) :
    cs.extract i j ++ cs.drop j = cs.drop i := by
  rw [List.extract_eq_take_drop, show cs.drop j = (cs.drop i).drop (j - i) by
    rw [List.drop_drop, Nat.add_sub_cancel' h]]
  exact List.take_append_drop _ _

theorem Laid.interleave_eq (h : Laid file cs n ts ps) :
    interleave (gaps cs n ps) (ts.map spelled) = cs.drop n := by
  induction h with
  | last hn hrest =>
    rw [gaps, gaps, extract_length, List.drop_length]
    simp [interleave, spelled, eofAt]
  | cons hi hij hj hgap _ hspan _ ih =>
    rw [gaps, List.map_cons, interleave, ih, spelled_of_span hspan, List.append_assoc,
      extract_append_drop (Nat.le_of_lt hij), extract_append_drop hi]

end Laid

theorem exists_layout (text file : String) :
    ∃ ps, Layout file text.toList (scan text file) ps := by
  obtain ⟨ps, h⟩ : ∃ ps, Laid file text.toList 0 (scan text file) ps :=
    laid_scanFrom file [] text.toList
  refine ⟨ps, h.spans, fun p hp => (h.within p hp).2, h.ordered, ?_, h.ended, h.gaps_isBlank,
    h.interleave_eq⟩
  intro k c hc hout
  exact h.isBlank (Nat.zero_le k) hc hout

end Monkey.Token
