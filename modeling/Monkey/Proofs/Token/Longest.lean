import Monkey.Proofs.Token.Matches

/-!
# The longest lexeme

Which rows of characters are a string, a number, a word or an operator, and what token each of them
is. A token of a text is the longest such row where it starts; where none starts, it is a single
character that is illegal.
-/

namespace Monkey.Token

set_option autoImplicit false

/-- What may stand between the quotes of a string: neither a quote nor a line feed, and a backslash
only together with the character behind it. -/
inductive IsBody : List Char → Prop where
  | nil : IsBody []
  | cons {c : Char} {cs : List Char} : c ≠ '"' → c ≠ '\\' → c ≠ '\n' → IsBody cs → IsBody (c :: cs)
  | escape {c : Char} {cs : List Char} : c ≠ '\n' → IsBody cs → IsBody ('\\' :: c :: cs)

def Kind.operators : List Kind :=
  [assign, bang, plus, minus, asterisk, slash, percent, eq, notEq, lt, gt, comma, semicolon, lparen,
    rparen, lbrace, rbrace]

/-- The characters are a token of the kind, and it stands for the literal. -/
inductive Means : List Char → Kind → String → Prop where
  | string {body : List Char} : IsBody body →
      Means ('"' :: (body ++ ['"'])) .string (String.ofList (Text.Quoted.decode body))
  | number {cs : List Char} : Text.Numeral.IsPlain cs → Means cs .int (String.ofList cs)
  | keyword {k : Kind} : k ∈ Kind.keywords → Means k.tag.toList k k.tag
  | name {w : String} : IsName w → Means w.toList .ident w
  | operator {k : Kind} : k ∈ Kind.operators → Means k.tag.toList k k.tag

/-- The lexeme is what its characters mean, and nothing longer at the start of the text means
anything. -/
structure Lexeme.Longest (l : Lexeme) (cs : List Char) : Prop where
  isPrefix : l.text <+: cs
  means : ∀ k s, Means l.text k s ↔ k = l.kind ∧ s = l.literal
  longest : ∀ p k s, p <+: cs → Means p k s → p <+: l.text

def Meaningless (cs : List Char) : Prop := ∀ p k s, p <+: cs → ¬ Means p k s

section Strings

variable {cs body rest : List Char}

theorem IsBody.stringBody?_eq (h : IsBody body) (rest : List Char) :
    stringBody? (body ++ '"' :: rest) = some (body, rest) := by
  induction h with
  | nil =>
    rw [List.nil_append, stringBody?.eq_def]
    simp
  | @cons c cs hquote hescape hline _ ih =>
    rw [List.cons_append, stringBody?.eq_def]
    simp [hquote, hescape, hline, ih]
  | @escape c cs hline _ ih => simp [stringBody?, hline, ih]

theorem isBody_of_stringBody? (h : stringBody? cs = some (body, rest)) : IsBody body := by
  fun_induction stringBody? cs generalizing body rest with
  | case1 => cases h
  | case2 =>
    cases h
    exact .nil
  | case3 => cases h
  | case4 => cases h
  | case5 => cases h
  | case6 d ds hline _ _ ih =>
    obtain ⟨p, hp, he⟩ := Option.map_eq_some_iff.mp h
    cases he
    exact .escape hline (ih hp)
  | case7 c cs hquote hline hescape ih =>
    obtain ⟨p, hp, he⟩ := Option.map_eq_some_iff.mp h
    cases he
    exact .cons hquote hescape hline (ih hp)

end Strings

section Operators

def symbolOf? : List Char → Option Kind
  | [c] => symbol? c
  | [c, d] => symbolPair? c d
  | _ => none

theorem symbolOf?_eq_some_iff {cs : List Char} {k : Kind} :
    symbolOf? cs = some k ↔ k ∈ Kind.operators ∧ k.tag.toList = cs := by
  constructor
  · intro h
    unfold symbolOf? at h
    split at h
    · unfold symbol? at h
      split at h <;> cases h <;> decide
    · unfold symbolPair? at h
      split at h <;> cases h <;> decide
    · cases h
  · rintro ⟨hk, rfl⟩
    revert k
    decide

end Operators

section Means

variable {c : Char} {cs : List Char} {k : Kind} {s : String}

theorem means_word {w : String} (h : IsWord w) : Means w.toList (.ofWord w) w := by
  by_cases hi : Kind.ofWord w = .ident
  · rw [hi]
    exact .name ⟨h, (Kind.ofWord_eq_ident_iff w).mp hi⟩
  · obtain ⟨hk, ht⟩ := Kind.ofWord_of_ne_ident hi
    have hmeans := Means.keyword hk
    rwa [ht] at hmeans

theorem means_iff : Means cs k s ↔
    (∃ body, IsBody body ∧ cs = '"' :: (body ++ ['"']) ∧ k = .string ∧
      s = String.ofList (Text.Quoted.decode body)) ∨
    (Text.Numeral.IsPlain cs ∧ k = .int ∧ s = String.ofList cs) ∨
    (IsWord (String.ofList cs) ∧ k = .ofWord (String.ofList cs) ∧ s = String.ofList cs) ∨
    (symbolOf? cs = some k ∧ s = k.tag) := by
  constructor
  · rintro (⟨hbody⟩ | hplain | hk | hname | hk)
    · exact .inl ⟨_, hbody, rfl, rfl, rfl⟩
    · exact .inr (.inl ⟨hplain, rfl, rfl⟩)
    · obtain ⟨hword, hof⟩ := Kind.isWord_tag hk
      rw [String.ofList_toList, hof]
      exact .inr (.inr (.inl ⟨hword, rfl, rfl⟩))
    · obtain ⟨hword, hother⟩ := hname
      rw [String.ofList_toList, (Kind.ofWord_eq_ident_iff s).mpr hother]
      exact .inr (.inr (.inl ⟨hword, rfl, rfl⟩))
    · exact .inr (.inr (.inr ⟨symbolOf?_eq_some_iff.mpr ⟨hk, rfl⟩, rfl⟩))
  · rintro (⟨body, hbody, rfl, rfl, rfl⟩ | ⟨hplain, rfl, rfl⟩ | ⟨hword, rfl, rfl⟩ | ⟨hk, rfl⟩)
    · exact .string hbody
    · exact .number hplain
    · have hmeans := means_word hword
      rwa [String.toList_ofList] at hmeans
    · obtain ⟨hmem, rfl⟩ := symbolOf?_eq_some_iff.mp hk
      exact .operator hmem

theorem not_means_nil : ¬ Means [] k s := by
  intro h
  rcases means_iff.mp h with ⟨_, _, he, _⟩ | ⟨hplain, _⟩ | ⟨⟨_, _, he, _⟩, _⟩ | ⟨hk, _⟩
  · cases he
  · exact hplain.1 rfl
  · cases he
  · cases hk

theorem Means.eq_cons {p : List Char} (h : Means p k s) (hp : p <+: c :: cs) :
    ∃ q, p = c :: q ∧ q <+: cs := by
  rcases List.prefix_cons_iff.mp hp with rfl | hq
  · exact absurd h not_means_nil
  · exact hq

theorem isWord_cons_iff :
    IsWord (String.ofList (c :: cs)) ↔ isNameStart c = true ∧ ∀ d ∈ cs, isNameChar d = true := by
  constructor
  · rintro ⟨d, ds, he, hd, hds⟩
    rw [String.toList_ofList] at he
    cases he
    exact ⟨hd, hds⟩
  · rintro ⟨hc, hcs⟩
    exact ⟨c, cs, String.toList_ofList, hc, hcs⟩

/-- An operator starts with none of the characters that the others start with. -/
theorem ne_of_symbolOf? (h : symbolOf? (c :: cs) = some k) :
    c ≠ '"' ∧ isDigit c = false ∧ isNameStart c = false := by
  unfold symbolOf? at h
  split at h
  · next d hd =>
    cases hd
    unfold symbol? at h
    split at h <;> cases h <;> decide
  · next d e hd =>
    cases hd
    unfold symbolPair? at h
    split at h <;> cases h <;> decide
  · cases h

theorem means_quote_iff : Means ('"' :: cs) k s ↔ ∃ body, IsBody body ∧ cs = body ++ ['"'] ∧
    k = .string ∧ s = String.ofList (Text.Quoted.decode body) := by
  rw [means_iff]
  constructor
  · rintro (⟨body, hbody, hcs, hk⟩ | ⟨hplain, _⟩ | ⟨hword, _⟩ | ⟨hk, _⟩)
    · exact ⟨body, hbody, (List.cons.inj hcs).2, hk⟩
    · exact absurd (hplain.2 '"' List.mem_cons_self) (by decide)
    · exact absurd (isWord_cons_iff.mp hword).1 (by decide)
    · exact absurd rfl (ne_of_symbolOf? hk).1
  · rintro ⟨body, hbody, rfl, hk⟩
    exact .inl ⟨body, hbody, rfl, hk⟩

theorem means_digit_iff (hc : isDigit c = true) : Means (c :: cs) k s ↔
    (∀ d ∈ cs, isDigit d = true) ∧ k = .int ∧ s = String.ofList (c :: cs) := by
  rw [means_iff]
  constructor
  · rintro (⟨body, _, hcs, _⟩ | ⟨hplain, hk⟩ | ⟨hword, _⟩ | ⟨hk, _⟩)
    · exact absurd (List.cons.inj hcs).1 (Text.Numeral.ne_of_isDigit hc (by decide))
    · exact ⟨fun d hd => hplain.2 d (List.mem_cons_of_mem c hd), hk⟩
    · rw [isDigit_of_isNameStart (isWord_cons_iff.mp hword).1] at hc
      cases hc
    · rw [(ne_of_symbolOf? hk).2.1] at hc
      cases hc
  · rintro ⟨hcs, hk⟩
    exact .inr (.inl ⟨⟨List.cons_ne_nil c cs, List.forall_mem_cons.mpr ⟨hc, hcs⟩⟩, hk⟩)

theorem means_nameStart_iff (hc : isNameStart c = true) : Means (c :: cs) k s ↔
    (∀ d ∈ cs, isNameChar d = true) ∧ k = .ofWord (String.ofList (c :: cs)) ∧
      s = String.ofList (c :: cs) := by
  rw [means_iff]
  constructor
  · rintro (⟨body, _, hcs, _⟩ | ⟨hplain, _⟩ | ⟨hword, hk⟩ | ⟨hk, _⟩)
    · rw [(List.cons.inj hcs).1] at hc
      exact absurd hc (by decide)
    · have hdigit := hplain.2 c List.mem_cons_self
      rw [isDigit_of_isNameStart hc] at hdigit
      cases hdigit
    · exact ⟨(isWord_cons_iff.mp hword).2, hk⟩
    · rw [(ne_of_symbolOf? hk).2.2] at hc
      cases hc
  · rintro ⟨hcs, hk⟩
    exact .inr (.inr (.inl ⟨isWord_cons_iff.mpr ⟨hc, hcs⟩, hk⟩))

theorem means_symbol_iff (hquote : c ≠ '"') (hdigit : isDigit c = false)
    (hname : isNameStart c = false) :
    Means (c :: cs) k s ↔ symbolOf? (c :: cs) = some k ∧ s = k.tag := by
  rw [means_iff]
  constructor
  · rintro (⟨body, _, hcs, _⟩ | ⟨hplain, _⟩ | ⟨hword, _⟩ | hk)
    · exact absurd (List.cons.inj hcs).1 hquote
    · have hc := hplain.2 c List.mem_cons_self
      rw [hdigit] at hc
      cases hc
    · have hc := (isWord_cons_iff.mp hword).1
      rw [hname] at hc
      cases hc
    · exact hk
  · exact fun hk => .inr (.inr (.inr hk))

end Means

section Lexeme

variable (c : Char) (cs : List Char)

/-- Characters of one kind at the start of a text go no further than the longest row of them. -/
theorem prefix_takeWhile {f : Char → Bool} {p : List Char} (hp : p <+: cs)
    (hf : ∀ d ∈ p, f d = true) : p <+: cs.takeWhile f := by
  obtain ⟨rest, rfl⟩ := hp
  rw [List.takeWhile_append_of_pos hf]
  exact List.prefix_append p _

theorem longest_string {body rest : List Char} (h : stringBody? cs = some (body, rest)) :
    (⟨.string, String.ofList (Text.Quoted.decode body), '"' :: (body ++ ['"'])⟩ :
      Lexeme).Longest ('"' :: cs) := by
  refine ⟨⟨rest, ?_⟩, fun k s => ?_, fun p k s hp hmeans => ?_⟩
  · rw [← stringBody?_append h]
    simp
  · rw [means_quote_iff]
    constructor
    · rintro ⟨body', _, he, hk⟩
      rwa [List.append_cancel_right he]
    · exact fun hk => ⟨body, isBody_of_stringBody? h, rfl, hk⟩
  · obtain ⟨q, rfl, hq⟩ := hmeans.eq_cons hp
    obtain ⟨body', hbody', rfl, -⟩ := means_quote_iff.mp hmeans
    -- the string ends at the first quote, so the two bodies are the same
    obtain ⟨rest', rfl⟩ := hq
    rw [List.append_assoc, List.singleton_append, hbody'.stringBody?_eq] at h
    cases h
    exact List.prefix_rfl

theorem longest_digits (hc : isDigit c = true) :
    (⟨.int, String.ofList (c :: cs.takeWhile isDigit), c :: cs.takeWhile isDigit⟩ :
      Lexeme).Longest (c :: cs) := by
  refine ⟨List.cons_prefix_cons.mpr ⟨rfl, List.takeWhile_prefix _⟩, fun k s => ?_,
    fun p k s hp hmeans => ?_⟩
  · rw [means_digit_iff hc]
    exact and_iff_right (List.all_eq_true.mp List.all_takeWhile)
  · obtain ⟨q, rfl, hq⟩ := hmeans.eq_cons hp
    have hdigits := ((means_digit_iff hc).mp hmeans).1
    exact List.cons_prefix_cons.mpr ⟨rfl, prefix_takeWhile cs hq hdigits⟩

theorem longest_word (hc : isNameStart c = true) :
    (⟨.ofWord (String.ofList (c :: cs.takeWhile isNameChar)),
      String.ofList (c :: cs.takeWhile isNameChar), c :: cs.takeWhile isNameChar⟩ :
      Lexeme).Longest (c :: cs) := by
  refine ⟨List.cons_prefix_cons.mpr ⟨rfl, List.takeWhile_prefix _⟩, fun k s => ?_,
    fun p k s hp hmeans => ?_⟩
  · rw [means_nameStart_iff hc]
    exact and_iff_right (List.all_eq_true.mp List.all_takeWhile)
  · obtain ⟨q, rfl, hq⟩ := hmeans.eq_cons hp
    have hname := ((means_nameStart_iff hc).mp hmeans).1
    exact List.cons_prefix_cons.mpr ⟨rfl, prefix_takeWhile cs hq hname⟩

/-- An operator at the start of a text is its first character, or its first two. -/
theorem symbolOf?_of_prefix {q : List Char} {k : Kind} (hq : q <+: cs)
    (h : symbolOf? (c :: q) = some k) :
    q = [] ∧ symbol? c = some k ∨
      ∃ d rest, cs = d :: rest ∧ q = [d] ∧ symbolPair? c d = some k := by
  match q, h with
  | [], h => exact .inl ⟨rfl, h⟩
  | [d], h =>
    obtain ⟨rest, rfl⟩ := hq
    exact .inr ⟨d, rest, rfl, rfl, h⟩

/-- The characters of an operator are its longest ones if no operator of two characters is
missed. -/
theorem longest_symbol (hquote : c ≠ '"') (hdigit : isDigit c = false)
    (hname : isNameStart c = false) {q : List Char} {j : Kind} (hq : q <+: cs)
    (hj : symbolOf? (c :: q) = some j)
    (hpair : q = [] → ∀ d ∈ cs.head?, symbolPair? c d = none) :
    (⟨j, j.tag, c :: q⟩ : Lexeme).Longest (c :: cs) := by
  refine ⟨List.cons_prefix_cons.mpr ⟨rfl, hq⟩, fun k s => ?_, fun p k s hp hmeans => ?_⟩
  · rw [means_symbol_iff hquote hdigit hname, hj]
    constructor
    · rintro ⟨hk, rfl⟩
      cases hk
      exact ⟨rfl, rfl⟩
    · rintro ⟨rfl, rfl⟩
      exact ⟨rfl, rfl⟩
  · obtain ⟨r, rfl, hr⟩ := hmeans.eq_cons hp
    apply List.cons_prefix_cons.mpr ⟨rfl, ?_⟩
    rcases symbolOf?_of_prefix c cs hr ((means_symbol_iff hquote hdigit hname).mp hmeans).1 with
      ⟨rfl, _⟩ | ⟨d, rest, rfl, rfl, hd⟩
    · exact List.nil_prefix
    · cases q with
      | nil =>
        rw [hpair rfl d rfl] at hd
        cases hd
      | cons e q =>
        exact List.cons_prefix_cons.mpr ⟨(List.cons_prefix_cons.mp hq).1.symm, List.nil_prefix⟩

theorem longest_symbolLexeme (hquote : c ≠ '"') (hdigit : isDigit c = false)
    (hname : isNameStart c = false) : (symbolLexeme c cs).1.Longest (c :: cs) ∨
      Meaningless (c :: cs) ∧ (symbolLexeme c cs).1 = ⟨.illegal, String.ofList [c], [c]⟩ := by
  rw [symbolLexeme_eq]
  cases hpair : pairMatch? c cs with
  | some r =>
    unfold pairMatch? at hpair
    split at hpair
    · next d rest =>
      obtain ⟨j, hj, rfl⟩ := Option.map_eq_some_iff.mp hpair
      exact .inl (longest_symbol c _ hquote hdigit hname (q := [d]) ⟨rest, rfl⟩ hj (by simp))
    · cases hpair
  | none =>
    have hhead : ∀ d ∈ cs.head?, symbolPair? c d = none := by
      cases cs with
      | nil => simp
      | cons d rest => simpa [pairMatch?] using hpair
    rw [Option.none_or, symbolMatch?]
    cases hc : symbol? c with
    | some j =>
      exact .inl (longest_symbol c cs hquote hdigit hname List.nil_prefix hc fun _ => hhead)
    | none =>
      refine .inr ⟨fun p k s hp hmeans => ?_, rfl⟩
      obtain ⟨q, rfl, hq⟩ := hmeans.eq_cons hp
      have hk := ((means_symbol_iff hquote hdigit hname).mp hmeans).1
      rcases symbolOf?_of_prefix c cs hq hk with ⟨rfl, hsymbol⟩ | ⟨d, rest, rfl, rfl, hd⟩
      · rw [hc] at hsymbol
        cases hsymbol
      · rw [hhead d rfl] at hd
        cases hd

end Lexeme

/-- What is taken at the start of a text is the longest lexeme there. If there is none, it is the
first character, which is illegal. -/
theorem lexeme_longest (c : Char) (cs : List Char) : (lexeme c cs).1.Longest (c :: cs) ∨
    Meaningless (c :: cs) ∧ (lexeme c cs).1 = ⟨.illegal, String.ofList [c], [c]⟩ := by
  unfold lexeme
  split
  · next hc =>
    subst hc
    split
    · next hbody => exact .inl (longest_string cs hbody)
    · next hbody =>
      refine .inr ⟨fun p k s hp hmeans => ?_, ?_⟩
      · obtain ⟨q, rfl, rest, rfl⟩ := hmeans.eq_cons hp
        obtain ⟨body, hisBody, rfl, -⟩ := means_quote_iff.mp hmeans
        rw [List.append_assoc, List.singleton_append, hisBody.stringBody?_eq] at hbody
        cases hbody
      · cases cs <;> rfl
  · next hquote =>
    split
    · next hdigit => exact .inl (longest_digits c cs hdigit)
    · next hdigit =>
      split
      · next hname => exact .inl (longest_word c cs hname)
      · next hname =>
        exact longest_symbolLexeme c cs hquote (Bool.not_eq_true _ ▸ hdigit)
          (Bool.not_eq_true _ ▸ hname)

/-- The token is the lexeme at the start of what is left of the text behind `before`. -/
theorem exists_lexeme_of_mem (file : String) (before : List Char) {t : Token} :
    (rest : List Char) → t ∈ scanFrom file (Position.start.after before) rest → t.kind ≠ .eof →
    ∃ passed c cs, before ++ rest = passed ++ c :: cs ∧ Text.isBlank c = false ∧
      t = (lexeme c cs).1.token file (Position.start.after passed)
  | [], ht, hk => by
    rw [scanFrom_nil, List.mem_singleton] at ht
    subst ht
    exact absurd rfl hk
  | c :: cs, ht, hk => by
    have hlen := lexeme_rest_length c cs
    cases hb : Text.isBlank c with
    | true =>
      rw [scanFrom_blank file _ cs hb] at ht
      have hrest := exists_lexeme_of_mem file (before ++ [c]) (t := t) cs
      rw [Position.after_append, List.append_assoc] at hrest
      exact hrest ht hk
    | false =>
      rw [scanFrom_lexeme file _ cs hb] at ht
      rcases List.mem_cons.mp ht with rfl | ht
      · exact ⟨before, c, cs, rfl, hb, rfl⟩
      · have hrest := exists_lexeme_of_mem file (before ++ (lexeme c cs).1.text) (t := t)
          (lexeme c cs).2
        rw [Position.after_append, List.append_assoc, lexeme_append] at hrest
        exact hrest ht hk
termination_by rest => rest.length

/-- The tokens of a text are those of the matches in it and of the characters between them. Each one
stands at its place in the text, and it is the longest lexeme that starts there; where none starts,
it is one character that is illegal and no blank. -/
theorem scan_longest (text file : String) :
    scan text file = filled file text.toList 0 (matchesFrom 0 text.toList) ∧
      ∀ t ∈ scan text file, t.kind ≠ .eof → ∃ before rest,
        text.toList = before ++ (spelled t ++ rest) ∧
        t.span = some (.over file text.toList before.length (before.length + (spelled t).length)) ∧
        ((⟨t.kind, t.literal, spelled t⟩ : Lexeme).Longest (spelled t ++ rest) ∨
          Meaningless (spelled t ++ rest) ∧ ∃ c, Text.isBlank c = false ∧ spelled t = [c] ∧
            t.kind = .illegal ∧ t.literal = String.ofList [c]) := by
  refine ⟨scan_eq_filled text file, fun t ht hk => ?_⟩
  obtain ⟨before, c, cs, htext, hb, rfl⟩ := exists_lexeme_of_mem file [] text.toList ht hk
  have hspelled : spelled ((lexeme c cs).1.token file (Position.start.after before)) =
      (lexeme c cs).1.text := String.toList_ofList
  have hover := over_append file before (lexeme c cs).1.text (lexeme c cs).2
  rw [List.nil_append] at htext
  rw [lexeme_append, ← htext] at hover
  rw [hspelled]
  refine ⟨before, (lexeme c cs).2, ?_, congrArg some hover.symm, ?_⟩
  · rw [lexeme_append, htext]
  · rw [lexeme_append]
    rcases lexeme_longest c cs with hlongest | ⟨hmeaningless, hillegal⟩
    · exact .inl hlongest
    · rw [hillegal]
      exact .inr ⟨hmeaningless, c, hb, rfl, rfl, rfl⟩

/-- In front of a third equals sign the first two are one operator; the quote that is not closed is
illegal. -/
theorem scan_longest_equals :
    ∃ before rest, "x<===\"".toList = before ++ ("==".toList ++ rest) ∧
      some (⟨"", ⟨1, 3⟩, ⟨1, 5⟩, "=="⟩ : Span) =
        some (.over "" "x<===\"".toList before.length (before.length + "==".toList.length)) ∧
      ((⟨.eq, "==", "==".toList⟩ : Lexeme).Longest ("==".toList ++ rest) ∨
        Meaningless ("==".toList ++ rest) ∧ ∃ c, Text.isBlank c = false ∧ "==".toList = [c] ∧
          Kind.eq = .illegal ∧ "==" = String.ofList [c]) :=
  (scan_longest "x<===\"" "").2 ⟨.eq, "==", some ⟨"", ⟨1, 3⟩, ⟨1, 5⟩, "=="⟩⟩ (by decide +kernel)
    (by decide)

end Monkey.Token
