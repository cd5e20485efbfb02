import Monkey.Proofs.Text.Numeral
import Monkey.Proofs.Text.Quoted
import Monkey.Token.Scan

/-!
# The shape of tokens

What kind and literal have to do with each other in every token that a scanner gives, and how a text
is cut whose beginning is an operator, a word, a numeral or a quoted string.
-/

namespace Monkey.Token

set_option autoImplicit false

/-- A row of letters, digits and underscores that starts with no digit. -/
def IsWord (w : String) : Prop :=
  ∃ c cs, w.toList = c :: cs ∧ isNameStart c = true ∧ ∀ d ∈ cs, isNameChar d = true

theorem isWord_ofList (c : Char) (cs : List Char) (hc : isNameStart c = true)
    (hcs : cs.all isNameChar = true) : IsWord (String.ofList (c :: cs)) :=
  ⟨c, cs, String.toList_ofList, hc, List.all_eq_true.mp hcs⟩

def IsName (w : String) : Prop :=
  IsWord w ∧ ∀ k ∈ Kind.keywords, k.tag ≠ w

theorem IsWord.isNameChar {w : String} (h : IsWord w) : ∀ c ∈ w.toList, isNameChar c = true := by
  obtain ⟨c, cs, hw, hc, hcs⟩ := h
  rw [hw]
  exact List.forall_mem_cons.mpr ⟨by simp [Token.isNameChar, hc], hcs⟩

/-- Is the literal one that a scanner gives to tokens of the kind? -/
def Kind.Admits (k : Kind) (literal : String) : Prop :=
  match k with
  | .illegal | .eof | .string => True
  | .ident => IsName literal
  | .int => Text.Numeral.IsPlain literal.toList
  | .other _ => False
  | k => literal = k.tag

theorem isDigit_of_isNameStart {c : Char} (h : isNameStart c = true) : isDigit c = false := by
  cases hd : isDigit c with
  | false => rfl
  | true =>
    have hn := (Text.Numeral.isDigit_iff c).mp hd
    simp only [isNameStart, Bool.or_eq_true, Bool.and_eq_true, decide_eq_true_eq, beq_iff_eq] at h
    rcases h with (⟨h, -⟩ | ⟨h, -⟩) | rfl
    · have h' : 65 ≤ c.toNat := h
      omega
    · have h' : 97 ≤ c.toNat := h
      omega
    · exact absurd hd (by decide)

theorem not_blank_of_isNameChar {c : Char} (h : isNameChar c = true) :
    Text.isBlank c = false := by
  have hc : 48 ≤ c.toNat ∧ c.toNat ≤ 122 := by
    rcases Bool.or_eq_true_iff.mp h with h | h
    · simp only [isNameStart, Bool.or_eq_true, Bool.and_eq_true, decide_eq_true_eq,
        beq_iff_eq] at h
      rcases h with (⟨hl, hr⟩ | ⟨hl, hr⟩) | rfl
      · exact ⟨Nat.le_trans (by decide) (show 65 ≤ c.toNat from hl),
          Nat.le_trans (show c.toNat ≤ 90 from hr) (by decide)⟩
      · exact ⟨Nat.le_trans (by decide) (show 97 ≤ c.toNat from hl), hr⟩
      · decide
    · have hd := (Text.Numeral.isDigit_iff c).mp h
      omega
  simp only [Text.isBlank, Bool.or_eq_false_iff, Bool.and_eq_false_iff, decide_eq_false_iff_not,
    beq_eq_false_iff_ne]
  omega

theorem Kind.ofWord_of_ne_ident {w : String} (h : ofWord w ≠ ident) :
    ofWord w ∈ keywords ∧ (ofWord w).tag = w := by
  unfold ofWord at h ⊢
  cases hf : keywords.find? fun k => k.tag == w with
  | none => simp [hf] at h
  | some k => exact ⟨List.mem_of_find?_eq_some hf, by simpa using List.find?_some hf⟩

theorem Kind.ofWord_eq_ident_iff (w : String) :
    ofWord w = ident ↔ ∀ k ∈ keywords, k.tag ≠ w := by
  refine ⟨fun h k hk he => ?_, ofWord_eq_ident⟩
  subst he
  revert h
  revert k
  decide

theorem Kind.isWord_tag {k : Kind} (h : k ∈ keywords) : IsWord k.tag ∧ ofWord k.tag = k := by
  revert k
  simp only [keywords, List.mem_cons, List.not_mem_nil, or_false]
  rintro k (rfl | rfl | rfl | rfl | rfl | rfl | rfl)
  · exact ⟨isWord_ofList 'e' "lse".toList rfl rfl, rfl⟩
  · exact ⟨isWord_ofList 'f' "alse".toList rfl rfl, rfl⟩
  · exact ⟨isWord_ofList 'f' "n".toList rfl rfl, rfl⟩
  · exact ⟨isWord_ofList 'i' "f".toList rfl rfl, rfl⟩
  · exact ⟨isWord_ofList 'l' "et".toList rfl rfl, rfl⟩
  · exact ⟨isWord_ofList 'r' "eturn".toList rfl rfl, rfl⟩
  · exact ⟨isWord_ofList 't' "rue".toList rfl rfl, rfl⟩

/-- The kinds that are written by their tag alone. -/
theorem Kind.admits_keyword {k : Kind} (h : k ∈ keywords) : k.Admits k.tag ∧ k ≠ eof := by
  revert k
  simp [keywords, Admits]

theorem Kind.admits_ofWord {w : String} (h : IsWord w) :
    (ofWord w).Admits w ∧ ofWord w ≠ eof := by
  by_cases hi : ofWord w = ident
  · rw [hi]
    exact ⟨⟨h, (ofWord_eq_ident_iff w).mp hi⟩, by decide⟩
  · obtain ⟨hk, ht⟩ := ofWord_of_ne_ident hi
    have ha := admits_keyword hk
    rw [ht] at ha
    exact ha

theorem admits_symbol {c : Char} {k : Kind} (h : symbol? c = some k) :
    k.Admits (String.ofList [c]) ∧ k ≠ .eof ∧ String.ofList [c] = k.tag := by
  unfold symbol? at h
  split at h <;> cases h <;> exact ⟨rfl, by decide, rfl⟩

theorem admits_symbolPair {c d : Char} {k : Kind} (h : symbolPair? c d = some k) :
    k.Admits k.tag ∧ k ≠ .eof := by
  unfold symbolPair? at h
  split at h <;> cases h <;> exact ⟨rfl, by decide⟩

theorem symbolLexeme_admits (c : Char) (cs : List Char) :
    (symbolLexeme c cs).1.kind.Admits (symbolLexeme c cs).1.literal ∧
      (symbolLexeme c cs).1.kind ≠ .eof := by
  have hone : ((symbol? c).getD .illegal).Admits (String.ofList [c]) ∧
      (symbol? c).getD .illegal ≠ .eof := by
    cases h : symbol? c with
    | none => exact ⟨trivial, by decide⟩
    | some k => exact ⟨(admits_symbol h).1, (admits_symbol h).2.1⟩
  unfold symbolLexeme
  split
  · split
    · next h => exact admits_symbolPair h
    · exact hone
  · exact hone

/-- Every lexeme has a literal that goes with its kind, and none is the end of the input. -/
theorem lexeme_admits (c : Char) (cs : List Char) :
    (lexeme c cs).1.kind.Admits (lexeme c cs).1.literal ∧ (lexeme c cs).1.kind ≠ .eof := by
  unfold lexeme
  split
  · split
    · exact ⟨trivial, by simp⟩
    · exact symbolLexeme_admits c cs
  · split
    · next hd =>
      refine ⟨⟨by simp, fun x hx => ?_⟩, by simp⟩
      simp only [String.toList_ofList, List.mem_cons] at hx
      rcases hx with rfl | hx
      · exact hd
      · exact List.all_eq_true.mp List.all_takeWhile x hx
    · split
      · next hs =>
        apply Kind.admits_ofWord
        refine ⟨c, cs.takeWhile isNameChar, by simp, hs, ?_⟩
        exact List.all_eq_true.mp List.all_takeWhile
      · exact symbolLexeme_admits c cs

end Monkey.Token
