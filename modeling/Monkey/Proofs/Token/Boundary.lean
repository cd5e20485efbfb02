import Monkey.Proofs.Token.Words

/-!
# Line feeds between tokens

No token reaches over a line feed, not even a string that is not closed. So a text in front of a
line feed is cut as if nothing followed, and the text behind it as if nothing stood in front, apart
from the places of its tokens: these are further down by the lines that have ended.
-/

namespace Monkey.Token

set_option autoImplicit false

section Boundary

variable (bs : List Char)

theorem stringBody?_line (cs : List Char) :
    stringBody? (cs ++ '\n' :: bs) =
      (stringBody? cs).map fun p => (p.1, p.2 ++ '\n' :: bs) := by
  fun_induction stringBody? cs with
  | case1 => simp [stringBody?.eq_def ('\n' :: bs)]
  | case2 cs => simp [stringBody?.eq_def ('"' :: (cs ++ _))]
  | case3 cs h => simp [stringBody?.eq_def ('\n' :: (cs ++ _))]
  | case4 => simp [stringBody?]
  | case5 => simp [stringBody?]
  | case6 d ds hd _ _ ih => simp [stringBody?, hd, ih, Function.comp_def]
  | case7 c cs hquote hline hescape ih =>
    rw [List.cons_append, stringBody?.eq_def]
    simp [hquote, hline, hescape, ih, Function.comp_def]

theorem symbolLexeme_line (c : Char) (cs : List Char) :
    symbolLexeme c (cs ++ '\n' :: bs) =
      ((symbolLexeme c cs).1, (symbolLexeme c cs).2 ++ '\n' :: bs) := by
  cases cs with
  | nil =>
    have hpair : symbolPair? c '\n' = none := by
      unfold symbolPair?
      split <;> simp_all
    simp [symbolLexeme, hpair]
  | cons d ds =>
    unfold symbolLexeme
    cases h : symbolPair? c d <;> simp [h]

theorem takeWhile_line {p : Char → Bool} (hp : p '\n' = false) (cs : List Char) :
    (cs ++ '\n' :: bs).takeWhile p = cs.takeWhile p ∧
      (cs ++ '\n' :: bs).dropWhile p = cs.dropWhile p ++ '\n' :: bs := by
  induction cs with
  | nil => simp [hp]
  | cons c cs ih =>
    cases hc : p c with
    | true => simp [hc, ih.1, ih.2]
    | false => simp [hc]

theorem lexeme_line (c : Char) (cs : List Char) :
    lexeme c (cs ++ '\n' :: bs) = ((lexeme c cs).1, (lexeme c cs).2 ++ '\n' :: bs) := by
  obtain ⟨hd, hdrop⟩ := takeWhile_line bs (p := isDigit) (by decide) cs
  obtain ⟨hn, hndrop⟩ := takeWhile_line bs (p := isNameChar) (by decide) cs
  unfold lexeme
  rw [stringBody?_line, hd, hdrop, hn, hndrop, symbolLexeme_line]
  split
  · cases stringBody? cs <;> rfl
  · split
    · rfl
    · split <;> rfl

end Boundary

theorem words_line (file : String) (bs : List Char) : (here : Position) → (as : List Char) →
    words file here (as ++ '\n' :: bs) =
      words file here as ++ words file ((here.after as).advance '\n') bs
  | here, [] => by
    rw [List.nil_append, words_blank file here bs (by decide)]
    simp
  | here, c :: cs => by
    have hlen := lexeme_rest_length c cs
    rw [List.cons_append]
    cases hb : Text.isBlank c with
    | true =>
      rw [words_blank file here _ hb, words_blank file here _ hb, words_line file bs _ cs]
      rfl
    | false =>
      rw [words_lexeme file here _ hb, words_lexeme file here _ hb, lexeme_line,
        words_line file bs _ (lexeme c cs).2, ← Position.after_append, lexeme_append]
      rfl
termination_by _ as => as.length

/-- A token without its place; the characters of its text are still known. -/
def unplaced (t : Token) : Token :=
  ⟨t.kind, t.literal, t.span.map fun s => ⟨"", .start, .start, s.text⟩⟩

@[simp] theorem unplaced_kind (t : Token) : t.unplaced.kind = t.kind := rfl

@[simp] theorem unplaced_literal (t : Token) : t.unplaced.literal = t.literal := rfl

@[simp] theorem display_unplaced (t : Token) : t.unplaced.display = t.display := by
  unfold display
  rw [unplaced_kind, unplaced_literal, unplaced]
  cases t.span <;> rfl

/-- Wherever a text stands, it has the same tokens apart from their places. -/
theorem words_unplaced (file file' : String) : (here here' : Position) → (cs : List Char) →
    (words file here cs).map unplaced = (words file' here' cs).map unplaced
  | here, here', [] => by simp
  | here, here', c :: cs => by
    have hlen := lexeme_rest_length c cs
    cases hb : Text.isBlank c with
    | true =>
      rw [words_blank file here cs hb, words_blank file' here' cs hb]
      exact words_unplaced file file' _ _ cs
    | false =>
      rw [words_lexeme file here cs hb, words_lexeme file' here' cs hb, List.map_cons,
        List.map_cons, words_unplaced file file' _ (here'.after (lexeme c cs).1.text)]
      rfl
termination_by _ _ cs => cs.length

namespace Position

def below (n : Nat) (p : Position) : Position := ⟨p.line + n, p.column⟩

theorem advance_below (n : Nat) (p : Position) (c : Char) :
    (p.below n).advance c = (p.advance c).below n := by
  unfold advance
  split
  · rw [below, below, show p.line + 1 + (n : Int) = p.line + n + 1 by omega]
  · rfl

theorem after_below (n : Nat) (p : Position) (cs : List Char) :
    (p.below n).after cs = (p.after cs).below n := by
  induction cs generalizing p with
  | nil => rfl
  | cons c cs ih => rw [after_cons, after_cons, advance_below, ih]

/-- As many lines end in a text as it has line feeds. -/
theorem line_after (p : Position) (cs : List Char) :
    (p.after cs).line = p.line + cs.count '\n' := by
  induction cs generalizing p with
  | nil => simp
  | cons c cs ih =>
    rw [after_cons, ih, advance]
    by_cases hc : c = '\n'
    · simp [hc]
      omega
    · simp [hc]

/-- Behind a text and a line feed a line starts, below all the lines that have ended. -/
theorem start_after_line (cs : List Char) :
    (start.after cs).advance '\n' = start.below (1 + cs.count '\n') := by
  rw [advance, if_pos rfl, line_after, below]
  simp [start]
  omega

end Position

def Span.below (n : Nat) (s : Span) : Span := ⟨s.file, s.first.below n, s.last.below n, s.text⟩

def below (n : Nat) (t : Token) : Token := ⟨t.kind, t.literal, t.span.map (.below n)⟩

theorem scanFrom_below (file : String) (n : Nat) : (here : Position) → (cs : List Char) →
    scanFrom file (here.below n) cs = (scanFrom file here cs).map (below n)
  | here, [] => by
    rw [scanFrom_nil, scanFrom_nil]
    rfl
  | here, c :: cs => by
    have hlen := lexeme_rest_length c cs
    cases hb : Text.isBlank c with
    | true =>
      rw [scanFrom_blank file _ cs hb, scanFrom_blank file _ cs hb, Position.advance_below,
        scanFrom_below file n _ cs]
    | false =>
      rw [scanFrom_lexeme file _ cs hb, scanFrom_lexeme file _ cs hb, Position.after_below,
        scanFrom_below file n _ (lexeme c cs).2, List.map_cons, Lexeme.token, Position.after_below]
      rfl
termination_by _ cs => cs.length

/-- A line feed keeps two texts apart: the tokens in front of it are those of the first text without
the end of the input, and behind it come those of the second one, further down by the lines of the
first. -/
theorem scan_line (a b file : String) :
    ∃ ts, scan a file = ts ++ [eofAt file (Position.start.after a.toList)] ∧
      scan (a ++ "\n" ++ b) file =
        ts ++ (scan b file).map (below (1 + a.toList.count '\n')) := by
  have hline : (a ++ "\n" ++ b).toList = a.toList ++ '\n' :: b.toList := by simp
  refine ⟨words file .start a.toList, scanFrom_eq_words file .start a.toList, ?_⟩
  rw [scan, scan, scanFrom_eq_words, hline, words_line, List.append_assoc, Position.after_append,
    Position.after_cons, ← scanFrom_eq_words, Position.start_after_line, scanFrom_below]

end Monkey.Token
