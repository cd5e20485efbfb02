import Monkey.Proofs.Token.Lexeme

/-!
# Cutting texts of known form

The tokens of a text without the end of its input, and how a text is cut that starts with an
operator, a word, a numeral or a quoted string.
-/

namespace Monkey.Token

set_option autoImplicit false

def front (ts : List Token) : List Token :=
  ts.takeWhile fun t => t.kind ≠ .eof

@[simp] theorem front_nil : front [] = [] := rfl

theorem front_cons {t : Token} (ts : List Token) (h : t.kind ≠ .eof) :
    front (t :: ts) = t :: front ts := by
  simp [front, h]

theorem front_eof {t : Token} (ts : List Token) (h : t.kind = .eof) : front (t :: ts) = [] := by
  simp [front, h]

/-- What the tokens of a text are in front of its end: a number is a row of digits, and it is not
too long to have a value. -/
def Legible (ts : List Token) : Prop :=
  ∀ t ∈ ts, t.kind ≠ .eof ∧ (t.kind = .int →
    Text.Numeral.IsPlain t.literal.toList ∧ t.literal.toList.length ≤ Text.Numeral.maxDigits)

theorem front_append_eof {ts : List Token} {z : Token} (h : ∀ t ∈ ts, t.kind ≠ .eof)
    (hz : z.kind = .eof) : front (ts ++ [z]) = ts := by
  induction ts with
  | nil => exact front_eof [] hz
  | cons t ts ih =>
    rw [List.cons_append, front_cons _ (h t List.mem_cons_self),
      ih fun u hu => h u (List.mem_cons_of_mem t hu)]

def words (file : String) (here : Position) (cs : List Char) : List Token :=
  front (scanFrom file here cs)

@[simp] theorem words_nil (file : String) (here : Position) : words file here [] = [] := by
  rw [words, scanFrom_nil]
  exact front_eof [] rfl

theorem words_blank (file : String) (here : Position) {c : Char} (cs : List Char)
    (h : Text.isBlank c = true) :
    words file here (c :: cs) = words file (here.advance c) cs := by
  rw [words, scanFrom_blank file here cs h, words]

theorem words_lexeme (file : String) (here : Position) {c : Char} (cs : List Char)
    (h : Text.isBlank c = false) :
    words file here (c :: cs) =
      (lexeme c cs).1.token file here ::
        words file (here.after (lexeme c cs).1.text) (lexeme c cs).2 := by
  rw [words, scanFrom_lexeme file here cs h, words]
  exact front_cons _ (lexeme_admits c cs).2

/-- Only the end of the input is not among the words. -/
theorem scanFrom_eq_words (file : String) (here : Position) :
    (cs : List Char) →
      scanFrom file here cs = words file here cs ++ [eofAt file (here.after cs)]
  | [] => by simp [scanFrom_nil]
  | c :: cs => by
    have hlen := lexeme_rest_length c cs
    cases hb : Text.isBlank c with
    | true =>
      rw [scanFrom_blank file here cs hb, words_blank file here cs hb, scanFrom_eq_words]
      rfl
    | false =>
      rw [scanFrom_lexeme file here cs hb, words_lexeme file here cs hb, scanFrom_eq_words,
        ← Position.after_append, lexeme_append]
      rfl
termination_by cs => cs.length

theorem mem_words {file : String} {here : Position} {t : Token} :
    {cs : List Char} → t ∈ words file here cs → t.kind.Admits t.literal ∧ t.kind ≠ .eof
  | [], h => by simp at h
  | c :: cs, h => by
    have hlen := lexeme_rest_length c cs
    cases hb : Text.isBlank c with
    | true =>
      rw [words_blank file here cs hb] at h
      exact mem_words h
    | false =>
      rw [words_lexeme file here cs hb] at h
      rcases List.mem_cons.mp h with rfl | h
      · exact lexeme_admits c cs
      · exact mem_words h
termination_by cs => cs.length

theorem length_words_le (file : String) (here : Position) :
    (cs : List Char) → (words file here cs).length ≤ cs.length
  | [] => by simp
  | c :: cs => by
    have hlen := lexeme_rest_length c cs
    cases hb : Text.isBlank c with
    | true =>
      rw [words_blank file here cs hb]
      have := length_words_le file (here.advance c) cs
      simp only [List.length_cons]
      omega
    | false =>
      rw [words_lexeme file here cs hb]
      have := length_words_le file (here.after (lexeme c cs).1.text) (lexeme c cs).2
      simp only [List.length_cons]
      omega
termination_by cs => cs.length

def Apart (cs : List Char) : Prop := ∀ c ∈ cs.head?, isNameChar c = false

theorem apart_nil : Apart [] := by simp [Apart]

theorem apart_cons {c : Char} (cs : List Char) (h : isNameChar c = false) : Apart (c :: cs) := by
  simpa [Apart] using h

theorem Apart.not_digit {cs : List Char} (h : Apart cs) : ∀ c ∈ cs.head?, isDigit c = false := by
  intro c hc
  have := h c hc
  rw [isNameChar, Bool.or_eq_false_iff] at this
  exact this.2

theorem takeWhile_append_of_head {p : Char → Bool} {ds cs : List Char}
    (hd : ∀ d ∈ ds, p d = true) (hc : ∀ c ∈ cs.head?, p c = false) :
    (ds ++ cs).takeWhile p = ds ∧ (ds ++ cs).dropWhile p = cs := by
  rw [List.takeWhile_append_of_pos hd, List.dropWhile_append_of_pos hd]
  cases cs with
  | nil => simp
  | cons c cs => simp [hc c rfl]

theorem lexeme_symbol {c : Char} {k : Kind} {cs : List Char} (h : symbol? c = some k)
    (hpair : ∀ d ∈ cs.head?, symbolPair? c d = none) :
    lexeme c cs = (⟨k, k.tag, [c]⟩, cs) := by
  obtain ⟨-, -, ht⟩ := admits_symbol h
  have hc : c ≠ '"' ∧ isDigit c = false ∧ isNameStart c = false := by
    unfold symbol? at h
    split at h <;> cases h <;> decide
  cases cs with
  | nil => simp [lexeme, hc, symbolLexeme, h, ht]
  | cons d ds => simp [lexeme, hc, symbolLexeme, h, ht, hpair d rfl]

theorem lexeme_symbolPair {c d : Char} {k : Kind} (cs : List Char)
    (h : symbolPair? c d = some k) : lexeme c (d :: cs) = (⟨k, k.tag, [c, d]⟩, cs) := by
  have hc : c ≠ '"' ∧ isDigit c = false ∧ isNameStart c = false := by
    unfold symbolPair? at h
    split at h <;> cases h <;> decide
  simp [lexeme, hc, symbolLexeme, h]

theorem lexeme_digits {c : Char} {ds cs : List Char} (hc : isDigit c = true)
    (hd : ∀ d ∈ ds, isDigit d = true) (h : Apart cs) :
    lexeme c (ds ++ cs) = (⟨.int, String.ofList (c :: ds), c :: ds⟩, cs) := by
  have hq : c ≠ '"' := Text.Numeral.ne_of_isDigit hc (by decide)
  obtain ⟨ht, hr⟩ := takeWhile_append_of_head hd h.not_digit
  simp [lexeme, hq, hc, ht, hr]

theorem lexeme_word {c : Char} {ds cs : List Char} (hc : isNameStart c = true)
    (hd : ∀ d ∈ ds, isNameChar d = true) (h : Apart cs) :
    lexeme c (ds ++ cs) =
      (⟨.ofWord (String.ofList (c :: ds)), String.ofList (c :: ds), c :: ds⟩, cs) := by
  have hq : c ≠ '"' := by
    rintro rfl
    exact absurd hc (by decide)
  have hn := isDigit_of_isNameStart hc
  obtain ⟨ht, hr⟩ := takeWhile_append_of_head hd h
  simp [lexeme, hq, hn, hc, ht, hr]

theorem lexeme_quoted (ds cs : List Char) :
    lexeme '"' (Text.Quoted.encode ds ++ '"' :: cs) =
      (⟨.string, String.ofList ds, '"' :: (Text.Quoted.encode ds ++ ['"'])⟩, cs) := by
  simp [lexeme, Text.Quoted.stringBody?_encode, Text.Quoted.decode_encode]

end Monkey.Token
