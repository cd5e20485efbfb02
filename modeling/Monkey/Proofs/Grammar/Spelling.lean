import Monkey.Proofs.Grammar.Front
import Monkey.Proofs.Token.Words

/-!
# Pieces of text

A piece of text is a phrase if the tokens it is cut into make up the phrase whatever text follows
it, as long as that text keeps to a condition: no name may go on behind a name, and no equals sign
behind an exclamation mark. Pieces are put together from left to right.
-/

namespace Monkey.Grammar

set_option autoImplicit false

open Token (words Legible Apart Kind)

/-- The text `cs` is cut into tokens of the phrase `P` in front of every text with `C`, and
each of its numbers has a value. -/
structure Spells (C : List Char → Prop) (P : List Token → List Token → Prop)
    (cs : List Char) : Prop where
  derives : ∀ file here rest, C rest →
    P (words file here (cs ++ rest)) (words file (here.after cs) rest)
  legible : ∀ file here rest, C rest → Legible (words file (here.after cs) rest) →
    Legible (words file here (cs ++ rest))

def Free (_ : List Char) : Prop := True

def Takes (k : Kind) (literal : String) (ts rest : List Token) : Prop :=
  ∃ t : Token, t.kind = k ∧ t.literal = literal ∧ ts = t :: rest

def Then (P Q : List Token → List Token → Prop) (ts rest : List Token) : Prop :=
  ∃ us, P ts us ∧ Q us rest

section Spells

variable {C D : List Char → Prop} {P Q : List Token → List Token → Prop} {as bs : List Char}

theorem Spells.imp (h : Spells C P as) (hi : ∀ ts rest, P ts rest → Q ts rest) : Spells C Q as :=
  ⟨fun file here rest hr => hi _ _ (h.derives file here rest hr), h.legible⟩

theorem Spells.before (h : Spells C P as) (hi : ∀ rest, D rest → C rest) : Spells D P as :=
  ⟨fun file here rest hr => h.derives file here rest (hi rest hr),
    fun file here rest hr => h.legible file here rest (hi rest hr)⟩

theorem Spells.append (h : Spells C P as) (hb : Spells D Q bs)
    (hi : ∀ rest, D rest → C (bs ++ rest)) : Spells D (Then P Q) (as ++ bs) := by
  refine ⟨fun file here rest hr => ?_, fun file here rest hr hl => ?_⟩
  · rw [List.append_assoc, Token.Position.after_append]
    exact ⟨_, h.derives file here _ (hi rest hr), hb.derives file _ rest hr⟩
  · rw [Token.Position.after_append] at hl
    rw [List.append_assoc]
    exact h.legible file here _ (hi rest hr) (hb.legible file _ rest hr hl)

theorem Spells.free (h : Spells Free P as) : Spells C P as := h.before fun _ _ => trivial

theorem Spells.followed (h : Spells Free P as) (hb : Spells D Q bs) :
    Spells D (Then P Q) (as ++ bs) :=
  h.append hb fun _ _ => trivial

theorem spells_nil : Spells C Eq [] := ⟨fun _ _ _ _ => rfl, fun _ _ _ _ hl => hl⟩

end Spells

theorem spells_blank {c : Char} (h : Text.isBlank c = true) : Spells Free Eq [c] := by
  refine ⟨fun file here rest _ => ?_, fun file here rest _ hl => ?_⟩
  · exact Token.words_blank file here rest h
  · rw [List.singleton_append, Token.words_blank file here rest h]
    exact hl

def Spaced (rest : List Char) : Prop := rest.head? = some ' '

theorem spells_space : Spells Free Eq " ".toList := spells_blank (by decide)

theorem Spells.spaced {D : List Char → Prop} {Q : List Token → List Token → Prop}
    {bs : List Char} (h : Spells D Q bs) : Spells D Q (" ".toList ++ bs) := by
  apply (spells_space.followed h).imp
  rintro _ rest ⟨_, rfl, hq⟩
  exact hq

theorem Spells.space_behind {P : List Token → List Token → Prop} {as : List Char}
    (h : Spells Spaced P as) : Spells Free P (as ++ " ".toList) := by
  apply (h.append spells_space fun _ _ => rfl).imp
  rintro ts rest ⟨_, hp, rfl⟩
  exact hp

theorem spells_lexeme {C : List Char → Prop} {k : Kind} {literal : String} {c : Char}
    {ds : List Char} (hb : Text.isBlank c = false)
    (hk : k = .int → Text.Numeral.IsPlain literal.toList ∧
      literal.toList.length ≤ Text.Numeral.maxDigits)
    (h : ∀ rest, C rest → Token.lexeme c (ds ++ rest) = (⟨k, literal, c :: ds⟩, rest)) :
    Spells C (Takes k literal) (c :: ds) := by
  have hwords : ∀ file here rest, C rest → words file here (c :: ds ++ rest) =
      (⟨k, literal, c :: ds⟩ : Token.Lexeme).token file here ::
        words file (here.after (c :: ds)) rest := by
    intro file here rest hr
    rw [List.cons_append, Token.words_lexeme file here _ hb, h rest hr]
  refine ⟨fun file here rest hr => ⟨_, rfl, rfl, hwords file here rest hr⟩, ?_⟩
  intro file here rest hr hl
  have hne := (Token.lexeme_admits c (ds ++ rest)).2
  rw [h rest hr] at hne
  rw [hwords file here rest hr]
  intro t ht
  rcases List.mem_cons.mp ht with rfl | ht
  · exact ⟨hne, hk⟩
  · exact hl t ht

/-- The character is no operator of two characters together with what follows it. -/
def Unpaired (c : Char) (rest : List Char) : Prop :=
  ∀ d ∈ rest.head?, Token.symbolPair? c d = none

theorem symbolPair?_eq_none {d : Char} (h : d ≠ '=') (c : Char) :
    Token.symbolPair? c d = none := by
  unfold Token.symbolPair?
  split
  · exact absurd rfl h
  · exact absurd rfl h
  · rfl

theorem Spaced.unpaired {rest : List Char} (h : Spaced rest) (c : Char) : Unpaired c rest := by
  intro d hd
  obtain rfl : d = ' ' := Option.some.inj (hd.symm.trans h)
  exact symbolPair?_eq_none (by decide) c

theorem Spaced.apart {rest : List Char} (h : Spaced rest) : Apart rest := by
  intro d hd
  obtain rfl : d = ' ' := Option.some.inj (hd.symm.trans h)
  decide

theorem spells_symbol {c : Char} {k : Kind} (h : Token.symbol? c = some k) :
    Spells (Unpaired c) (Takes k k.tag) [c] := by
  have hk : Text.isBlank c = false ∧ k ≠ .int := by
    unfold Token.symbol? at h
    split at h <;> cases h <;> decide
  exact spells_lexeme hk.1 (fun hi => absurd hi hk.2) fun rest hr => Token.lexeme_symbol h hr

/-- Only an equals sign and an exclamation mark may begin an operator of two characters. -/
theorem unpaired {c : Char} (he : c ≠ '=') (hb : c ≠ '!') (rest : List Char) :
    Unpaired c rest := by
  intro d _
  unfold Token.symbolPair?
  split
  · exact absurd rfl he
  · exact absurd rfl hb
  · rfl

theorem spells_bracket {c : Char} {k : Kind} (h : Token.symbol? c = some k) (he : c ≠ '=')
    (hb : c ≠ '!') : Spells Free (Takes k k.tag) [c] :=
  (spells_symbol h).before fun rest _ => unpaired he hb rest

theorem spells_symbolPair {c d : Char} {k : Kind} (h : Token.symbolPair? c d = some k) :
    Spells Free (Takes k k.tag) [c, d] := by
  have hk : Text.isBlank c = false ∧ k ≠ .int := by
    unfold Token.symbolPair? at h
    split at h <;> cases h <;> decide
  exact spells_lexeme hk.1 (fun hi => absurd hi hk.2) fun rest _ => Token.lexeme_symbolPair rest h

theorem spells_word {w : String} (h : Token.IsWord w) :
    Spells Apart (Takes (.ofWord w) w) w.toList := by
  obtain ⟨c, cs, hw, hc, hcs⟩ := h
  have hword : String.ofList (c :: cs) = w := by rw [← hw, String.ofList_toList]
  have hk : Kind.ofWord w ≠ .int := by
    intro hi
    have hmem := (Token.Kind.ofWord_of_ne_ident (w := w) (by rw [hi]; decide)).1
    rw [hi] at hmem
    exact absurd hmem (by decide)
  have hn : Token.isNameChar c = true := by simp [Token.isNameChar, hc]
  rw [hw]
  refine spells_lexeme (Token.not_blank_of_isNameChar hn) (fun hi => absurd hi hk) fun rest hr => ?_
  rw [Token.lexeme_word hc hcs hr, hword]

theorem spells_digits {ds : List Char} (h : Text.Numeral.IsPlain ds)
    (hl : ds.length ≤ Text.Numeral.maxDigits) :
    Spells Apart (Takes .int (String.ofList ds)) ds := by
  obtain ⟨hne, hd⟩ := h
  cases ds with
  | nil => exact absurd rfl hne
  | cons c cs =>
    have hc := hd c List.mem_cons_self
    have hn : Token.isNameChar c = true := by simp [Token.isNameChar, hc]
    refine spells_lexeme (Token.not_blank_of_isNameChar hn) (fun _ => ?_) fun rest hr => ?_
    · rw [String.toList_ofList]
      exact ⟨⟨hne, hd⟩, hl⟩
    · exact Token.lexeme_digits hc (fun x hx => hd x (List.mem_cons_of_mem c hx)) hr

theorem spells_quoted (s : String) :
    Spells Free (Takes .string s) (Text.Quoted.quote s).toList := by
  rw [Text.Quoted.toList_quote]
  refine spells_lexeme (by decide) (fun hk => absurd hk (by decide)) fun rest _ => ?_
  rw [List.append_assoc, List.singleton_append, Token.lexeme_quoted, String.ofList_toList]

end Monkey.Grammar
