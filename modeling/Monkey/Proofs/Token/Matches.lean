import Monkey.Proofs.Token.Layout

/-!
# Matches, and what lies between them

A second way to scan a text. First the matches of four patterns are found: the patterns are tried in
turn at the start of what is left, behind blanks of four kinds, and one character is passed over
where none of them matches. Then the characters between the matches are gone through, and each one
that is no blank of any kind is a token of its own. Both ways give the same tokens.
-/

namespace Monkey.Token

set_option autoImplicit false

def isSkipped (c : Char) : Bool :=
  c == ' ' || c == '\t' || c == '\n' || c == '\r'

section Patterns

variable (c : Char) (cs : List Char)

def stringMatch? : Option (Lexeme × List Char) :=
  if c = '"' then
    (stringBody? cs).map fun p =>
      (⟨.string, String.ofList (Text.Quoted.decode p.1), c :: (p.1 ++ [c])⟩, p.2)
  else none

def numberMatch? : Option (Lexeme × List Char) :=
  if isDigit c then
    let digits := c :: cs.takeWhile isDigit
    some (⟨.int, String.ofList digits, digits⟩, cs.dropWhile isDigit)
  else none

def wordMatch? : Option (Lexeme × List Char) :=
  if isNameStart c then
    let word := c :: cs.takeWhile isNameChar
    some (⟨.ofWord (String.ofList word), String.ofList word, word⟩, cs.dropWhile isNameChar)
  else none

def pairMatch? : Option (Lexeme × List Char) :=
  match cs with
  | d :: ds => (symbolPair? c d).map fun k => (⟨k, k.tag, [c, d]⟩, ds)
  | [] => none

def symbolMatch? : Option (Lexeme × List Char) :=
  (symbol? c).map fun k => (⟨k, k.tag, [c]⟩, cs)

/-- What the first pattern matches that matches anything. -/
def match? : Option (Lexeme × List Char) :=
  (stringMatch? c cs).or <| (numberMatch? c cs).or <| (wordMatch? c cs).or <|
    (pairMatch? c cs).or (symbolMatch? c cs)

def illegal : Lexeme × List Char := (⟨.illegal, String.ofList [c], [c]⟩, cs)

theorem symbolLexeme_eq :
    symbolLexeme c cs = ((pairMatch? c cs).or (symbolMatch? c cs)).getD (illegal c cs) := by
  have hone : ((⟨(symbol? c).getD .illegal, String.ofList [c], [c]⟩, cs) : Lexeme × List Char) =
      (symbolMatch? c cs).getD (illegal c cs) := by
    rw [symbolMatch?]
    cases h : symbol? c with
    | none => rfl
    | some k => simp [(admits_symbol h).2.2]
  cases cs with
  | nil => exact hone
  | cons d ds =>
    rw [symbolLexeme, pairMatch?]
    cases symbolPair? c d with
    | none => exact hone
    | some k => rfl

theorem lexeme_eq_match? : lexeme c cs = (match? c cs).getD (illegal c cs) := by
  rw [lexeme, match?, stringMatch?, numberMatch?, wordMatch?, symbolLexeme_eq]
  by_cases hq : c = '"'
  · subst hq
    cases stringBody? cs <;> simp [isDigit, isNameStart]
  · simp only [if_neg hq, Option.none_or]
    cases isDigit c <;> cases isNameStart c <;> rfl

end Patterns

theorem match?_rest_length {c : Char} {cs rest : List Char} {l : Lexeme}
    (h : match? c cs = some (l, rest)) : rest.length ≤ cs.length := by
  have hlen := lexeme_rest_length c cs
  rwa [lexeme_eq_match?, h] at hlen

/-- A lexeme that was found in a text, from the offset `first` to the offset `stop`. -/
structure Match where
  first : Nat
  stop : Nat
  lexeme : Lexeme

/-- The matches in what is left of a text from an offset on. -/
def matchesFrom (n : Nat) : List Char → List Match
  | [] => []
  | c :: cs =>
    if isSkipped c then matchesFrom (n + 1) cs
    else
      match h : match? c cs with
      | some (l, rest) =>
        ⟨n, n + l.text.length, l⟩ :: matchesFrom (n + l.text.length) rest
      | none => matchesFrom (n + 1) cs
termination_by cs => cs.length
decreasing_by
  · simp
  · have := match?_rest_length h
    simp only [List.length_cons]
    omega
  · simp

section Filled

variable (file : String) (cs : List Char)

/-- The token of a character that no pattern matches, unless it is a blank. -/
def illegalAt? (k : Nat) : Option Token :=
  cs[k]?.bind fun c =>
    if Text.isBlank c then none
    else some ⟨.illegal, String.ofList [c], some (Span.over file cs k (k + 1))⟩

/-- The tokens of the characters from one offset to another, none of which is part of a match. -/
def between (i j : Nat) : List Token :=
  (List.range' i (j - i)).filterMap (illegalAt? file cs)

/-- The tokens of the matches and of the characters between them, from an offset on. -/
def filled (n : Nat) : List Match → List Token
  | [] => between file cs n cs.length ++ [eofAt file (.ofOffset cs cs.length)]
  | m :: ms =>
    between file cs n m.first ++
      ⟨m.lexeme.kind, m.lexeme.literal, some (Span.over file cs m.first m.stop)⟩ ::
        filled m.stop ms

theorem between_self (n : Nat) : between file cs n n = [] := by
  simp [between]

theorem between_succ {n k : Nat} (h : n ≤ k) :
    between file cs n (k + 1) = between file cs n k ++ (illegalAt? file cs k).toList := by
  rw [between, show k + 1 - n = k - n + 1 by omega, List.range'_1_concat, List.filterMap_append,
    show n + (k - n) = k by omega, between, List.filterMap_cons]
  cases illegalAt? file cs k <;> rfl

end Filled

theorem match?_of_isBlank {c : Char} (cs : List Char) (h : Text.isBlank c = true) :
    match? c cs = none := by
  have hne : ∀ d, Text.isBlank d = false → c ≠ d := by
    rintro d hd rfl
    rw [h] at hd
    cases hd
  have hname : isNameChar c = false := by
    cases hn : isNameChar c with
    | false => rfl
    | true => rw [not_blank_of_isNameChar hn] at h; cases h
  obtain ⟨hstart, hdigit⟩ := Bool.or_eq_false_iff.mp hname
  have hpair : pairMatch? c cs = none := by
    cases cs with
    | nil => rfl
    | cons d ds =>
      have hnone : symbolPair? c d = none := by
        unfold symbolPair?
        split
        · exact absurd rfl (hne '=' (by decide))
        · exact absurd rfl (hne '!' (by decide))
        · rfl
      rw [pairMatch?, hnone]
      rfl
  have hsymbol : symbol? c = none := by
    unfold symbol?
    split <;> first | rfl | exact absurd rfl (hne _ (by decide))
  rw [match?, stringMatch?, numberMatch?, wordMatch?, hpair, symbolMatch?, hsymbol, hdigit, hstart,
    if_neg (hne '"' (by decide))]
  rfl

theorem isBlank_of_isSkipped {c : Char} (h : isSkipped c = true) : Text.isBlank c = true := by
  simp only [isSkipped, Bool.or_eq_true, beq_iff_eq] at h
  rcases h with ((rfl | rfl) | rfl) | rfl <;> decide

theorem matchesFrom_of_none {n : Nat} {c : Char} {cs : List Char} (h : match? c cs = none) :
    matchesFrom n (c :: cs) = matchesFrom (n + 1) cs := by
  rw [matchesFrom]
  split
  · rfl
  · split
    · next hsome =>
      rw [h] at hsome
      cases hsome
    · rfl

theorem matchesFrom_of_some {n : Nat} {c : Char} {cs rest : List Char} {l : Lexeme}
    (h : match? c cs = some (l, rest)) :
    matchesFrom n (c :: cs) =
      ⟨n, n + l.text.length, l⟩ :: matchesFrom (n + l.text.length) rest := by
  have hskip : ¬ isSkipped c = true := by
    intro hskip
    rw [match?_of_isBlank cs (isBlank_of_isSkipped hskip)] at h
    cases h
  rw [matchesFrom, if_neg hskip]
  split
  · next hsome =>
    rw [h] at hsome
    cases hsome
    rfl
  · next hnone =>
    rw [h] at hnone
    cases hnone

/-- Behind the characters that were gone through, the same tokens follow. -/
theorem filled_matchesFrom (file : String) (before : List Char) {n : Nat}
    (hn : n ≤ before.length) : (rest : List Char) →
    filled file (before ++ rest) n (matchesFrom before.length rest) =
      between file (before ++ rest) n before.length ++
        scanFrom file (Position.start.after before) rest
  | [] => by
    rw [matchesFrom, filled, scanFrom_nil, Position.start_after before [], List.append_nil]
  | c :: cs => by
    have hlexeme := lexeme_eq_match? c cs
    cases hm : match? c cs with
    | some r =>
      obtain ⟨l, rest⟩ := r
      rw [hm] at hlexeme
      have hlexeme : lexeme c cs = (l, rest) := hlexeme
      have hshort := match?_rest_length hm
      have happend := lexeme_append c cs
      rw [hlexeme] at happend
      have hb : Text.isBlank c = false := by
        cases hb : Text.isBlank c with
        | false => rfl
        | true =>
          rw [match?_of_isBlank cs hb] at hm
          cases hm
      have hfirst := filled_matchesFrom file (before ++ l.text) (Nat.le_refl _) rest
      rw [List.append_assoc, List.length_append, between_self, Position.after_append] at hfirst
      rw [matchesFrom_of_some hm, filled, scanFrom_lexeme file _ cs hb, hlexeme, ← happend, hfirst,
        over_append]
      rfl
    | none =>
      -- one more character since the last match, and so one more token unless it is a blank
      rw [hm] at hlexeme
      have hlexeme : lexeme c cs = illegal c cs := hlexeme
      have hrest := filled_matchesFrom file (before ++ [c]) (n := n)
        (by rw [List.length_append]; omega) cs
      rw [List.append_assoc, List.length_append, List.singleton_append, Position.after_append,
        List.length_singleton, between_succ file _ hn] at hrest
      rw [matchesFrom_of_none hm, hrest, List.append_assoc]
      congr 1
      have hc : (before ++ c :: cs)[before.length]? = some c := by simp
      rw [illegalAt?, hc, Option.bind_some]
      cases hb : Text.isBlank c with
      | true =>
        rw [scanFrom_blank file _ cs hb]
        rfl
      | false =>
        rw [scanFrom_lexeme file _ cs hb, hlexeme]
        have hover := over_append file before [c] cs
        rw [List.singleton_append, List.length_singleton] at hover
        rw [hover]
        rfl
termination_by rest => rest.length

theorem scan_eq_filled (text file : String) :
    scan text file = filled file text.toList 0 (matchesFrom 0 text.toList) := by
  have h := filled_matchesFrom file [] (Nat.le_refl 0) text.toList
  rw [List.length_nil, between_self] at h
  exact h.symm

/-- The tokens of a text are those of the matches in it and of the characters between them. They
stand in the text in order and apart, each on the stretch that its places and its characters tell
of, and the blanks and the tokens in turn make up the text. -/
theorem scan_keeps_text (text file : String) :
    scan text file = filled file text.toList 0 (matchesFrom 0 text.toList) ∧
      ∃ ps, Layout file text.toList (scan text file) ps :=
  ⟨scan_eq_filled text file, exists_layout text file⟩

end Monkey.Token
