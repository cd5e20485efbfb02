import Monkey.Proofs.Text.Blank
import Monkey.Proofs.Token.Boundary
import Monkey.Proofs.Token.Layout
import Monkey.Proofs.Token.Longest

/-!
# Blanks between tokens

Blanks can be inserted into a text wherever no token is cut in two, at its ends and between any two
tokens. The tokens stay the same apart from their places: a token ends where it did, since no token
goes on with a blank, and behind it the text goes on with a blank or as it did.
-/

namespace Monkey.Token

set_option autoImplicit false

/-- The text with one piece more in front of each character and one behind the last. The pieces are
counted from `n` on. -/
def spread (pieces : Nat → List Char) (n : Nat) : List Char → List Char
  | [] => pieces n
  | c :: cs => pieces n ++ c :: spread pieces (n + 1) cs

/-- The text starts with a blank, or as the other one does. -/
def Follows (s rest : List Char) : Prop :=
  ∀ d ∈ s.head?, Text.isBlank d = true ∨ d ∈ rest.head?

section Spread

variable {pieces : Nat → List Char} {cs rest s : List Char}

theorem spread_follows (hblank : ∀ k, ∀ c ∈ pieces k, Text.isBlank c = true) (n : Nat)
    (cs : List Char) : Follows (spread pieces n cs) cs := by
  intro d hd
  cases hp : pieces n with
  | nil =>
    refine .inr ?_
    cases cs with
    | nil =>
      rw [spread, hp] at hd
      exact hd
    | cons c cs =>
      rw [spread, hp, List.nil_append] at hd
      exact hd
  | cons b bs =>
    refine .inl (hblank n d ?_)
    have hhead : (spread pieces n cs).head? = some b := by
      cases cs <;> simp [spread, hp]
    rw [hhead, Option.mem_some_iff] at hd
    rw [hp, ← hd]
    exact List.mem_cons_self

theorem spread_append {n : Nat} (cs rest : List Char)
    (hnil : ∀ k, n ≤ k → k < n + cs.length → pieces k = []) :
    spread pieces n (cs ++ rest) = cs ++ spread pieces (n + cs.length) rest := by
  induction cs generalizing n with
  | nil => rfl
  | cons c cs ih =>
    rw [List.cons_append, spread, hnil n (Nat.le_refl n) (by simp), List.nil_append,
      ih fun k hk hlt => hnil k (by omega) (by rw [List.length_cons]; omega), List.length_cons,
      show n + 1 + cs.length = n + (cs.length + 1) by omega]
    rfl

theorem takeWhile_follows {p : Char → Bool} (hp : ∀ c, p c = true → Text.isBlank c = false)
    (h : Follows s (cs.dropWhile p)) :
    (cs.takeWhile p ++ s).takeWhile p = cs.takeWhile p ∧
      (cs.takeWhile p ++ s).dropWhile p = s := by
  apply takeWhile_append_of_head (List.all_eq_true.mp List.all_takeWhile)
  intro d hd
  rcases h d hd with hblank | hsame
  · cases hpd : p d with
    | false => rfl
    | true =>
      rw [hp d hpd] at hblank
      cases hblank
  · exact Text.head?_dropWhile_eq_false d hsame

theorem symbolPair?_of_isBlank (c : Char) {d : Char} (h : Text.isBlank d = true) :
    symbolPair? c d = none := by
  unfold symbolPair?
  split
  · exact absurd h (by decide)
  · exact absurd h (by decide)
  · rfl

theorem symbolLexeme_follows (c : Char) (h : Follows s (symbolLexeme c cs).2) :
    ∃ ts, (symbolLexeme c cs).1.text = c :: ts ∧
      symbolLexeme c (ts ++ s) = ((symbolLexeme c cs).1, s) := by
  -- a character by itself stays by itself, unless it makes an operator with the next one
  have hone : (∀ d ∈ s.head?, symbolPair? c d = none) → symbolLexeme c s =
      (⟨(symbol? c).getD .illegal, String.ofList [c], [c]⟩, s) := by
    intro hnone
    cases s with
    | nil => rfl
    | cons d ds => rw [symbolLexeme, hnone d rfl]
  cases cs with
  | nil =>
    refine ⟨[], rfl, hone fun d hd => ?_⟩
    rcases h d hd with hblank | hnil
    · exact symbolPair?_of_isBlank c hblank
    · cases hnil
  | cons e es =>
    cases hpair : symbolPair? c e with
    | some k =>
      refine ⟨[e], ?_, ?_⟩
      · simp only [symbolLexeme, hpair]
      · simp only [List.singleton_append, symbolLexeme, hpair]
    | none =>
      simp only [symbolLexeme, hpair] at h ⊢
      refine ⟨[], rfl, hone fun d hd => ?_⟩
      rcases h d hd with hblank | hsame
      · exact symbolPair?_of_isBlank c hblank
      · cases hsame
        exact hpair

theorem lexeme_follows {c : Char} (hk : (lexeme c cs).1.kind ≠ .illegal)
    (h : Follows s (lexeme c cs).2) :
    ∃ ts, (lexeme c cs).1.text = c :: ts ∧ lexeme c (ts ++ s) = ((lexeme c cs).1, s) := by
  by_cases hquote : c = '"'
  · subst hquote
    cases hbody : stringBody? cs with
    | some r =>
      obtain ⟨body, rest⟩ := r
      have hstring := (isBody_of_stringBody? hbody).stringBody?_eq s
      refine ⟨body ++ ['"'], ?_, ?_⟩
      · simp [lexeme, hbody]
      · simp [lexeme, hbody, hstring]
    | none =>
      refine absurd ?_ hk
      cases cs <;> simp [lexeme, hbody, symbolLexeme, symbolPair?, symbol?]
  by_cases hdigit : isDigit c = true
  · have hlexeme : lexeme c cs = (⟨.int, String.ofList (c :: cs.takeWhile isDigit),
        c :: cs.takeWhile isDigit⟩, cs.dropWhile isDigit) := by
      simp [lexeme, hquote, hdigit]
    rw [hlexeme] at h ⊢
    have hblank : ∀ d, isDigit d = true → Text.isBlank d = false :=
      fun d hd => not_blank_of_isNameChar (by rw [isNameChar, hd, Bool.or_true])
    obtain ⟨htake, hdrop⟩ := takeWhile_follows hblank h
    exact ⟨cs.takeWhile isDigit, rfl, by simp [lexeme, hquote, hdigit, htake, hdrop]⟩
  by_cases hname : isNameStart c = true
  · have hlexeme : lexeme c cs = (⟨.ofWord (String.ofList (c :: cs.takeWhile isNameChar)),
        String.ofList (c :: cs.takeWhile isNameChar), c :: cs.takeWhile isNameChar⟩,
        cs.dropWhile isNameChar) := by
      simp [lexeme, hquote, hdigit, hname]
    rw [hlexeme] at h ⊢
    obtain ⟨htake, hdrop⟩ := takeWhile_follows (fun _ => not_blank_of_isNameChar) h
    exact ⟨cs.takeWhile isNameChar, rfl, by simp [lexeme, hquote, hdigit, hname, htake, hdrop]⟩
  · have hsymbol : ∀ ds, lexeme c ds = symbolLexeme c ds := by
      intro ds
      simp [lexeme, hquote, hdigit, hname]
    simp only [hsymbol] at h ⊢
    exact symbolLexeme_follows c h

end Spread

theorem words_blanks (file : String) (here : Position) {gap : List Char}
    (hblank : ∀ c ∈ gap, Text.isBlank c = true) (cs : List Char) :
    words file here (gap ++ cs) = words file (here.after gap) cs := by
  induction gap generalizing here with
  | nil => rfl
  | cons b gap ih =>
    rw [List.cons_append, words_blank file here _ (hblank b List.mem_cons_self)]
    exact ih (here.advance b) fun c hc => hblank c (List.mem_cons_of_mem b hc)

/-- The offset is strictly inside one of the tokens: some of the token's characters are in front of
it and some behind. -/
def Inside (ts : List Token) (file : String) (cs : List Char) (k : Nat) : Prop :=
  ∃ t ∈ ts, ∃ i j, t.span = some (.over file cs i j) ∧ i < k ∧ k < j

/-- Blanks that cut no token in two leave all of the tokens as they are, apart from their places.
What is left of a text is known with what stands in front of it, since the pieces are inserted at
offsets into the whole. -/
theorem words_spread {pieces : Nat → List Char}
    (hblank : ∀ k, ∀ c ∈ pieces k, Text.isBlank c = true) (file : String) (before : List Char)
    (here : Position) : (rest : List Char) →
    (∀ t ∈ words file (Position.start.after before) rest, t.kind ≠ .illegal) →
    (∀ k, Inside (words file (Position.start.after before) rest) file (before ++ rest) k →
      pieces k = []) →
    (words file here (spread pieces before.length rest)).map unplaced =
      (words file (Position.start.after before) rest).map unplaced
  | [], _, _ => by
    rw [spread, ← List.append_nil (pieces _), words_blanks file here (hblank _), words_nil,
      words_nil]
  | c :: cs, hlegal, hinside => by
    have hlen := lexeme_rest_length c cs
    rw [spread, words_blanks file here (hblank _)]
    cases hb : Text.isBlank c with
    | true =>
      have hrest := words_spread hblank file (before ++ [c])
        ((here.after (pieces before.length)).advance c) cs
      rw [List.append_assoc, List.length_append, Position.after_append] at hrest
      rw [words_blank file _ _ hb] at hlegal hinside ⊢
      rw [words_blank file _ cs hb]
      exact hrest hlegal hinside
    | false =>
      rw [words_lexeme file _ cs hb] at hlegal hinside ⊢
      obtain ⟨hfirst, hlegal⟩ := List.forall_mem_cons.mp hlegal
      have hover := over_append file before (lexeme c cs).1.text (lexeme c cs).2
      rw [lexeme_append] at hover
      -- nothing is inserted behind the first character of the lexeme, up to its end
      have hnil : ∀ k, before.length < k → k < before.length + (lexeme c cs).1.text.length →
          pieces k = [] := fun k hk hlt =>
        hinside k ⟨_, List.mem_cons_self, _, _, congrArg some hover.symm, hk, hlt⟩
      have hrest := words_spread hblank file (before ++ (lexeme c cs).1.text)
        ((here.after (pieces before.length)).after (lexeme c cs).1.text) (lexeme c cs).2
      rw [List.append_assoc, lexeme_append, List.length_append, Position.after_append] at hrest
      obtain ⟨ts, htext, hlexeme⟩ := lexeme_follows hfirst
        (spread_follows hblank (before.length + (lexeme c cs).1.text.length) (lexeme c cs).2)
      have hcs : ts ++ (lexeme c cs).2 = cs := by
        have happend := lexeme_append c cs
        rw [htext, List.cons_append] at happend
        exact (List.cons.inj happend).2
      have hspread : spread pieces (before.length + 1) cs =
          ts ++ spread pieces (before.length + (lexeme c cs).1.text.length) (lexeme c cs).2 := by
        rw [htext, List.length_cons] at hnil ⊢
        rw [show before.length + (ts.length + 1) = before.length + 1 + ts.length by omega,
          ← spread_append ts (lexeme c cs).2 fun k hk hlt => hnil k hk (by omega), hcs]
      rw [hspread, words_lexeme file _ _ hb, hlexeme, List.map_cons, List.map_cons,
        hrest hlegal fun k ⟨t, ht, hk⟩ => hinside k ⟨t, List.mem_cons_of_mem _ ht, hk⟩]
      rfl
termination_by rest => rest.length

def spaced (pieces : Nat → List Char) (text : String) : String :=
  String.ofList (spread pieces 0 text.toList)

section Scan

variable {pieces : Nat → List Char} {text file : String}

theorem scan_spaced (hblank : ∀ k, ∀ c ∈ pieces k, Text.isBlank c = true)
    (hlegal : ∀ t ∈ scan text file, t.kind ≠ .illegal)
    (hinside : ∀ k, Inside (scan text file) file text.toList k → pieces k = []) :
    (scan (spaced pieces text) file).map unplaced = (scan text file).map unplaced := by
  have hscan : scan text file =
      words file .start text.toList ++ [eofAt file (Position.start.after text.toList)] :=
    scanFrom_eq_words file .start text.toList
  rw [hscan] at hlegal hinside
  have hwords := words_spread hblank file [] .start text.toList
    (fun t ht => hlegal t (List.mem_append_left _ ht))
    fun k ⟨t, ht, hk⟩ => hinside k ⟨t, List.mem_append_left _ ht, hk⟩
  rw [hscan, scan, scanFrom_eq_words, spaced, String.toList_ofList, List.map_append,
    List.map_append]
  exact congrArg (· ++ [unplaced (eofAt file .start)]) hwords

/-- An offset is inside a token if it is inside the stretch that the token stands on. -/
theorem inside_iff {ts : List Token} {cs : List Char} {ps : List (Nat × Nat)}
    (hspans : ts.map Token.span = ps.map fun p => some (Span.over file cs p.1 p.2)) (k : Nat) :
    Inside ts file cs k ↔ ∃ p ∈ ps, p.1 < k ∧ k < p.2 := by
  constructor
  · rintro ⟨t, ht, i, j, hspan, hk⟩
    have hmem : t.span ∈ ts.map Token.span := List.mem_map_of_mem ht
    rw [hspans, hspan] at hmem
    obtain ⟨p, hp, hover⟩ := List.mem_map.mp hmem
    obtain ⟨rfl, rfl⟩ := Span.over_inj (Option.some.inj hover)
    exact ⟨p, hp, hk⟩
  · rintro ⟨p, hp, hk⟩
    have hmem : some (Span.over file cs p.1 p.2) ∈ ps.map fun p => some (Span.over file cs p.1 p.2) :=
      List.mem_map_of_mem hp
    rw [← hspans] at hmem
    obtain ⟨t, ht, hspan⟩ := List.mem_map.mp hmem
    exact ⟨t, ht, p.1, p.2, hspan, hk⟩

end Scan

end Monkey.Token
