import Monkey.Program.Source
import Monkey.Proofs.Grammar.Recognition
import Monkey.Proofs.Grammar.Spelling
import Monkey.Proofs.Program.WellFormed

/-!
# Written trees

The text of a well-formed tree is a phrase that stands for the tree. Operators of two operands stand
in parentheses, so every other construct is written at the level of calls.
-/

namespace Monkey.Grammar

set_option autoImplicit false

open Token (Apart IsName Kind apart_cons words)

section Pieces

theorem spells_lparen : Spells Free (Takes .lparen "(") "(".toList :=
  spells_bracket (c := '(') rfl (by decide) (by decide)

theorem spells_rparen : Spells Free (Takes .rparen ")") ")".toList :=
  spells_bracket (c := ')') rfl (by decide) (by decide)

theorem spells_lbrace : Spells Free (Takes .lbrace "\x7b") "\x7b".toList :=
  spells_bracket (c := '\x7b') rfl (by decide) (by decide)

theorem spells_rbrace : Spells Free (Takes .rbrace "\x7d") "\x7d".toList :=
  spells_bracket (c := '\x7d') rfl (by decide) (by decide)

theorem spells_semicolon : Spells Free (Takes .semicolon ";") ";".toList :=
  spells_bracket (c := ';') rfl (by decide) (by decide)

theorem spells_comma : Spells Free (Takes .comma ",") ", ".toList :=
  ((spells_symbol (c := ',') rfl).before fun _ hr => hr.unpaired ',').space_behind

theorem spells_assign : Spells Free (Takes .assign "=") " = ".toList :=
  (((spells_symbol (c := '=') rfl).before fun _ hr => hr.unpaired '=').space_behind).spaced

theorem spells_keyword {k : Kind} (h : k ∈ Kind.keywords) :
    Spells Apart (Takes k k.tag) k.tag.toList := by
  have hw := Kind.isWord_tag h
  have hs := spells_word hw.1
  rwa [hw.2] at hs

theorem spells_keyword_space {k : Kind} (h : k ∈ Kind.keywords) :
    Spells Free (Takes k k.tag) (k.tag.toList ++ " ".toList) :=
  ((spells_keyword h).before fun _ hr => hr.apart).space_behind

theorem spells_name {n : String} (h : IsName n) : Spells Apart (Takes .ident n) n.toList := by
  have hs := spells_word h.1
  rwa [(Kind.ofWord_eq_ident_iff n).mpr h.2] at hs

theorem spells_operator {op : String} (h : op ∈ binaryOperators) :
    ∃ (p : Level) (k : Kind), k ∈ p.operators ∧ Spells Spaced (Takes k op) op.toList := by
  have hone : ∀ {c : Char} {k : Kind}, Token.symbol? c = some k →
      Spells Spaced (Takes k k.tag) [c] :=
    fun hk => (spells_symbol hk).before fun _ hr => hr.unpaired _
  have htwo : ∀ {c d : Char} {k : Kind}, Token.symbolPair? c d = some k →
      Spells Spaced (Takes k k.tag) [c, d] :=
    fun hk => (spells_symbolPair hk).free
  simp only [binaryOperators, List.mem_cons, List.not_mem_nil, or_false] at h
  rcases h with rfl | rfl | rfl | rfl | rfl | rfl | rfl | rfl | rfl
  · exact ⟨.equality, .eq, by decide, htwo (c := '=') (d := '=') rfl⟩
  · exact ⟨.equality, .notEq, by decide, htwo (c := '!') (d := '=') rfl⟩
  · exact ⟨.comparison, .lt, by decide, hone (c := '<') rfl⟩
  · exact ⟨.comparison, .gt, by decide, hone (c := '>') rfl⟩
  · exact ⟨.sum, .plus, by decide, hone (c := '+') rfl⟩
  · exact ⟨.sum, .minus, by decide, hone (c := '-') rfl⟩
  · exact ⟨.product, .asterisk, by decide, hone (c := '*') rfl⟩
  · exact ⟨.product, .slash, by decide, hone (c := '/') rfl⟩
  · exact ⟨.product, .percent, by decide, hone (c := '%') rfl⟩

end Pieces

/-- The text of the expression is a phrase for it, in front of every text that keeps apart. -/
def SpellsExpression (e : Monkey.Expression) : Prop :=
  Spells Apart (fun ts rest => Expression .call ts e rest) e.source.toList

theorem spells_integer {n : Int} (h : 0 ≤ n) (hn : n ≤ Integer.greatest) :
    SpellsExpression (.integer n) := by
  obtain ⟨m, rfl⟩ := Int.eq_ofNat_of_zero_le h
  have hm : m < 10 ^ 19 := by
    have : (m : Int) ≤ 9223372036854775807 := hn
    omega
  have hlen :=
    (Nat.length_toDigits_le_iff (b := 10) (n := m) (k := 19) (by decide) (by decide)).mpr hm
  have hs := spells_digits (Text.Numeral.isPlain_toDigits m) (Nat.le_trans hlen (by decide))
  have hsource : (Monkey.Expression.integer m).source.toList = Nat.toDigits 10 m := by
    exact Nat.toList_repr
  rw [SpellsExpression, hsource]
  apply hs.imp
  rintro _ rest ⟨t, ht, hliteral, rfl⟩
  have hvalue : value t = m := by
    rw [value, hliteral, String.toList_ofList, Nat.ofDigitChars_ten_toDigits]
  have hatom : Expression .atom (t :: rest) (.integer (value t)) rest :=
    .integer ht (by rw [hvalue]; exact hn)
  rw [hvalue] at hatom
  exact .tighter hatom

theorem spells_boolean (b : Bool) : SpellsExpression (.boolean b) := by
  cases b with
  | true =>
    apply (spells_keyword (k := .trueKw) (by decide)).imp
    rintro _ rest ⟨t, ht, -, rfl⟩
    exact .tighter (.yes ht)
  | false =>
    apply (spells_keyword (k := .falseKw) (by decide)).imp
    rintro _ rest ⟨t, ht, -, rfl⟩
    exact .tighter (.no ht)

theorem spells_string (s : String) : SpellsExpression (.string s) := by
  apply ((spells_quoted s).free).imp
  rintro _ rest ⟨t, ht, rfl, rfl⟩
  exact .tighter (.string ht)

theorem spells_nameExpression {n : String} (h : IsName n) : SpellsExpression (.name n) := by
  apply (spells_name h).imp
  rintro _ rest ⟨t, ht, rfl, rfl⟩
  exact .tighter (.name ht)

theorem lexeme_equals (cs : List Char) :
    (Token.lexeme '=' cs).1.kind = .eq ∨ (Token.lexeme '=' cs).1.kind = .assign := by
  cases cs with
  | nil => exact .inr rfl
  | cons d ds =>
    by_cases hd : d = '='
    · subst hd
      rw [Token.lexeme_symbolPair ds rfl]
      exact .inl rfl
    · rw [Token.lexeme_symbol (k := .assign) rfl]
      · exact .inr rfl
      · intro x hx
        obtain rfl : d = x := Option.some.inj hx
        exact symbolPair?_eq_none hd '='

/-- No expression starts with an equals sign. -/
theorem SpellsExpression.unpaired {e : Monkey.Expression} (h : SpellsExpression e)
    {rest : List Char} (hr : Apart rest) : Unpaired '!' (e.source.toList ++ rest) := by
  intro d hd
  by_cases he : d = '='
  · subst he
    cases hcs : e.source.toList ++ rest with
    | nil => simp [hcs] at hd
    | cons c cs =>
      obtain rfl : c = '=' := by simpa [hcs] using hd
      have hfirst := (h.derives "" .start rest hr).first
      rw [hcs, Token.words_lexeme _ _ _ (by decide)] at hfirst
      change (Token.lexeme '=' cs).1.kind ∈ starts at hfirst
      rcases lexeme_equals cs with hk | hk <;> simp [hk, starts] at hfirst
  · exact symbolPair?_eq_none he '!'

theorem spells_unary {op : String} {e : Monkey.Expression} (hop : op ∈ unaryOperators)
    (he : SpellsExpression e) : SpellsExpression (.unary op e) := by
  have hmark : ∃ k : Kind, (k = .bang ∨ k = .minus) ∧
      Spells (fun rest => Unpaired '!' rest) (Takes k op) op.toList := by
    simp only [unaryOperators, List.mem_cons, List.not_mem_nil, or_false] at hop
    rcases hop with rfl | rfl
    · exact ⟨.bang, .inl rfl, spells_symbol (c := '!') rfl⟩
    · exact ⟨.minus, .inr rfl,
        (spells_symbol (c := '-') rfl).before fun rest _ => unpaired (by decide) (by decide) rest⟩
  obtain ⟨k, hk, hs⟩ := hmark
  rw [SpellsExpression, Monkey.Expression.source]
  simp only [String.toList_append, List.append_assoc]
  have hclose : ∀ rest, Apart (")".toList ++ rest) := fun rest => apart_cons rest (by decide)
  have hinner := hs.append (he.append spells_rparen fun rest _ => hclose rest) fun rest _ => by
    rw [List.append_assoc]
    exact he.unpaired (hclose rest)
  apply ((spells_lparen.followed hinner).free).imp
  rintro _ rest ⟨_, ⟨l, hl, -, rfl⟩, _, ⟨o, ho, rfl, rfl⟩, _, hoperand, r, hr, -, rfl⟩
  exact .tighter (.grouped hl (.tighter (.tighter (.tighter (.tighter (.unary (ho ▸ hk)
    (.tighter hoperand)))))) hr)

theorem spells_binary {l r : Monkey.Expression} {op : String} (hl : SpellsExpression l)
    (hop : op ∈ binaryOperators) (hr : SpellsExpression r) :
    SpellsExpression (.binary l op r) := by
  obtain ⟨p, k, hk, hs⟩ := spells_operator hop
  rw [SpellsExpression, Monkey.Expression.source]
  simp only [String.toList_append, List.append_assoc]
  have hright := hr.append spells_rparen fun rest _ => apart_cons rest (by decide)
  have hoperator := hs.append hright.spaced fun _ _ => rfl
  have hleft := hl.append hoperator.spaced fun rest _ => apart_cons _ (by decide)
  apply ((spells_lparen.followed hleft).free).imp
  rintro _ rest ⟨_, ⟨a, ha, -, rfl⟩, _, hleft, _, ⟨o, ho, rfl, rfl⟩, _, hright, z, hz, -, rfl⟩
  obtain ⟨hp, htight⟩ := Level.height_le_call hk
  have hbinary := Expression.binary (ho ▸ hk) (hleft.loosen hp) (hright.loosen htight)
  exact .tighter (.grouped ha (hbinary.loosen (Nat.zero_le _)) hz)

theorem spells_parameters : {ps : List String} → (∀ p ∈ ps, IsName p) →
    Spells Apart (fun ts us => ∀ r rest, us = r :: rest → r.kind = .rparen →
      Parameters ts ps rest) (", ".intercalate ps).toList
  | [], _ => spells_nil.imp fun _ _ hts _ _ hus hr => (hts.trans hus) ▸ .none hr
  | [p], h => by
    rw [String.intercalate_singleton]
    apply (spells_name (h p List.mem_cons_self)).imp
    rintro _ us ⟨n, hn, rfl, rfl⟩ r rest rfl hr
    exact .last hn hr
  | p :: q :: ps, h => by
    have htail := spells_parameters fun x hx => h x (List.mem_cons_of_mem p hx)
    rw [String.intercalate_cons_cons]
    simp only [String.toList_append, List.append_assoc]
    apply ((spells_name (h p List.mem_cons_self)).append (spells_comma.followed htail)
      fun rest _ => apart_cons _ (by decide)).imp
    rintro _ us ⟨_, ⟨n, hn, rfl, rfl⟩, _, ⟨c, hc, -, rfl⟩, hmore⟩ r rest hus hr
    exact .more hn hc (hmore r rest hus hr) (List.cons_ne_nil q ps)

theorem spells_arguments : {es : List Monkey.Expression} → (∀ e ∈ es, SpellsExpression e) →
    Spells Apart (fun ts us => ∀ r rest, us = r :: rest → r.kind = .rparen →
      Arguments ts es rest) (", ".intercalate (Monkey.Expression.sources es)).toList
  | [], _ => spells_nil.imp fun _ _ hts _ _ hus hr => (hts.trans hus) ▸ .none hr
  | [e], h => by
    rw [Monkey.Expression.sources, Monkey.Expression.sources, String.intercalate_singleton]
    apply Spells.imp (h e List.mem_cons_self)
    rintro ts us he r rest rfl hr
    exact .last (he.loosen (Nat.zero_le _)) hr
  | e :: f :: es, h => by
    have htail := spells_arguments fun x hx => h x (List.mem_cons_of_mem e hx)
    have he := h e List.mem_cons_self
    rw [Monkey.Expression.sources] at htail ⊢
    rw [Monkey.Expression.sources, String.intercalate_cons_cons]
    simp only [String.toList_append, List.append_assoc]
    apply (Spells.append he (spells_comma.followed htail)
      fun rest _ => apart_cons _ (by decide)).imp
    rintro _ us ⟨_, he, _, ⟨c, hc, -, rfl⟩, hmore⟩ r rest hus hr
    exact .more (he.loosen (Nat.zero_le _)) hc (hmore r rest hus hr) (List.cons_ne_nil f es)

/-- The text of the statement with the semicolon that ends it is a phrase for it, and so is the
text of an expression without one. -/
structure SpellsStatement (s : Statement) : Prop where
  ended : Spells Free (fun ts rest => ∃ d, d.kind = Kind.semicolon ∧ Clause ts s (d :: rest))
    (if s.isExpression then s.source ++ ";" else s.source).toList
  last : Spells Apart (fun ts rest => Clause ts s rest ∨
    ∃ d, d.kind = Kind.semicolon ∧ Clause ts s (d :: rest)) s.source.toList

theorem spells_binding {n : String} {e : Monkey.Expression} (hn : IsName n)
    (he : SpellsExpression e) : SpellsStatement (.binding n e) := by
  have hs : Spells Free (fun ts rest => ∃ d, d.kind = Kind.semicolon ∧
      Clause ts (.binding n e) (d :: rest)) (Statement.binding n e).source.toList := by
    have hend := he.append spells_semicolon fun rest _ => apart_cons rest (by decide)
    have hassign := spells_assign.followed hend
    have hname := (spells_name hn).append hassign fun rest _ => apart_cons _ (by decide)
    have hlet := (spells_keyword_space (k := .letKw) (by decide)).followed hname
    rw [Statement.source]
    simp only [String.toList_append, List.append_assoc]
    apply Spells.imp hlet
    rintro _ rest ⟨_, ⟨k, hk, -, rfl⟩, _, ⟨i, hi, rfl, rfl⟩, _, ⟨a, ha, -, rfl⟩, _, he,
      d, hd, -, rfl⟩
    exact ⟨d, hd, .binding hk hi ha (he.loosen (Nat.zero_le _))⟩
  exact ⟨hs, (hs.free).imp fun _ _ h => .inr h⟩

theorem spells_ret {e : Monkey.Expression} (he : SpellsExpression e) :
    SpellsStatement (.ret e) := by
  have hs : Spells Free (fun ts rest => ∃ d, d.kind = Kind.semicolon ∧
      Clause ts (.ret e) (d :: rest)) (Statement.ret e).source.toList := by
    have hend := he.append spells_semicolon fun rest _ => apart_cons rest (by decide)
    have hret := (spells_keyword_space (k := .returnKw) (by decide)).followed hend
    rw [Statement.source]
    simp only [String.toList_append, List.append_assoc]
    apply Spells.imp hret
    rintro _ rest ⟨_, ⟨k, hk, -, rfl⟩, _, he, d, hd, -, rfl⟩
    exact ⟨d, hd, .ret hk (he.loosen (Nat.zero_le _))⟩
  exact ⟨hs, (hs.free).imp fun _ _ h => .inr h⟩

theorem spells_expressionStatement {e : Monkey.Expression} (he : SpellsExpression e) :
    SpellsStatement (.expression e) := by
  refine ⟨?_, Spells.imp he fun _ _ h => .inl (.expression (h.loosen (Nat.zero_le _)))⟩
  rw [Statement.isExpression, if_pos rfl, Statement.source, String.toList_append]
  apply (Spells.append he spells_semicolon fun rest _ => apart_cons rest (by decide)).imp
  rintro _ rest ⟨_, he, d, hd, -, rfl⟩
  exact ⟨d, hd, .expression (he.loosen (Nat.zero_le _))⟩

theorem spells_sequence {separator : String} (hb : Spells Free Eq separator.toList) :
    {ss : List Statement} → (∀ s ∈ ss, SpellsStatement s) →
      Spells Apart (fun ts rest => Sequence ts ss rest)
        (separator.intercalate (Statement.sources ss)).toList
  | [], _ => spells_nil.imp fun _ _ hts => hts ▸ .nil
  | [s], h => by
    rw [Statement.sources, String.intercalate_singleton]
    apply (h s List.mem_cons_self).last.imp
    rintro ts rest (hs | ⟨d, hd, hs⟩)
    · exact .unended hs .nil fun hne => absurd rfl hne
    · exact .ended hs hd .nil
  | s :: t :: ss, h => by
    have htail := spells_sequence hb fun x hx => h x (List.mem_cons_of_mem s hx)
    have hs := (h s List.mem_cons_self).ended
    rw [Statement.sources]
    cases hsources : Statement.sources (t :: ss) with
    | nil => cases ss <;> simp [Statement.sources] at hsources
    | cons x xs =>
      rw [hsources] at htail
      rw [String.intercalate_cons_cons]
      simp only [String.toList_append, List.append_assoc]
      apply (hs.followed (hb.followed htail)).imp
      rintro _ rest ⟨_, ⟨d, hd, hclause⟩, _, rfl, hseq⟩
      exact .ended hclause hd hseq

theorem spells_braced {text : String} {ss : List Statement}
    (h : Spells Apart (fun ts rest => Sequence ts ss rest) text.toList) :
    Spells Free (fun ts rest => Block ts ss rest) (braced text).toList := by
  have hclose := h.append spells_rbrace fun rest _ => apart_cons rest (by decide)
  rw [braced]
  simp only [String.toList_append, List.append_assoc]
  apply (spells_lbrace.followed hclose).imp
  rintro _ rest ⟨_, ⟨l, hl, -, rfl⟩, _, hseq, r, hr, -, rfl⟩
  exact .closed hl hseq hr

theorem spells_block {ss : List Statement} (h : ∀ s ∈ ss, SpellsStatement s) :
    Spells Free (fun ts rest => Block ts ss rest)
      (braced (" ".intercalate (Statement.sources ss))).toList :=
  spells_braced (spells_sequence spells_space h)

theorem spells_conditional {c : Monkey.Expression} {t : List Statement} (hc : SpellsExpression c)
    (ht : ∀ s ∈ t, SpellsStatement s) : SpellsExpression (.conditional c t none) := by
  have hcondition := Spells.append hc (spells_block ht).spaced fun rest _ =>
    apart_cons _ (by decide)
  have hif := (spells_keyword_space (k := .ifKw) (by decide)).followed hcondition
  rw [SpellsExpression, Monkey.Expression.source]
  simp only [String.toList_append, List.append_assoc]
  apply hif.free.imp
  rintro _ rest ⟨_, ⟨i, hi, -, rfl⟩, _, hc, ht⟩
  exact .tighter (.conditional hi (hc.loosen (Nat.zero_le _)) ht)

theorem spells_alternative {c : Monkey.Expression} {t e : List Statement}
    (hc : SpellsExpression c) (ht : ∀ s ∈ t, SpellsStatement s)
    (he : ∀ s ∈ e, SpellsStatement s) : SpellsExpression (.conditional c t (some e)) := by
  have helse : Spells Free (Takes .elseKw "else") " else ".toList :=
    (spells_keyword_space (k := .elseKw) (by decide)).spaced
  have hblock := (spells_block ht).followed (helse.followed (spells_block he))
  have hcondition := Spells.append hc hblock.spaced fun rest _ => apart_cons _ (by decide)
  have hif := (spells_keyword_space (k := .ifKw) (by decide)).followed hcondition
  rw [SpellsExpression, Monkey.Expression.source]
  simp only [String.toList_append, List.append_assoc]
  apply hif.free.imp
  rintro _ rest ⟨_, ⟨i, hi, -, rfl⟩, _, hc, _, ht, _, ⟨o, ho, -, rfl⟩, he⟩
  exact .tighter (.alternative hi (hc.loosen (Nat.zero_le _)) ht ho he)

/-- A function whose body is written as any text that is a block. -/
theorem spells_function_of_block {ps : List String} {body : List Statement} {block : String}
    (hps : ∀ p ∈ ps, IsName p)
    (hbody : Spells Free (fun ts rest => Block ts body rest) block.toList) :
    Spells Apart (fun ts rest => Expression .call ts (.function ps body) rest)
      ("fn(" ++ ", ".intercalate ps ++ ") " ++ block).toList := by
  have hopen : Spells Free (Then (Takes .fn "fn") (Takes .lparen "(")) "fn(".toList :=
    (spells_keyword (k := .fn) (by decide)).append spells_lparen
      fun rest _ => apart_cons rest (by decide)
  have hclose : Spells Free (Takes .rparen ")") ") ".toList := spells_rparen.free.space_behind
  have hblock := hclose.followed hbody
  have hparameters := (spells_parameters hps).append hblock fun rest _ => apart_cons _ (by decide)
  simp only [String.toList_append, List.append_assoc]
  apply (hopen.followed hparameters).free.imp
  rintro _ rest ⟨_, ⟨_, ⟨f, hf, -, rfl⟩, l, hl, -, rfl⟩, _, hps, _, ⟨r, hr, -, rfl⟩, hbody⟩
  exact .tighter (.function hf hl (hps r _ rfl hr) hbody)

theorem spells_function {ps : List String} {body : List Statement} (hps : ∀ p ∈ ps, IsName p)
    (hbody : ∀ s ∈ body, SpellsStatement s) : SpellsExpression (.function ps body) := by
  rw [SpellsExpression, Monkey.Expression.source]
  exact spells_function_of_block hps (spells_block hbody)

theorem spells_call {f : Monkey.Expression} {args : List Monkey.Expression}
    (hf : SpellsExpression f) (hargs : ∀ a ∈ args, SpellsExpression a) :
    SpellsExpression (.call f args) := by
  have hclose := (spells_arguments hargs).append spells_rparen
    fun rest _ => apart_cons rest (by decide)
  have hopen := spells_lparen.followed hclose
  rw [SpellsExpression, Monkey.Expression.source]
  simp only [String.toList_append, List.append_assoc]
  apply (Spells.append hf hopen fun rest _ => apart_cons _ (by decide)).free.imp
  rintro _ rest ⟨_, hf, _, ⟨l, hl, -, rfl⟩, _, hargs, r, hr, -, rfl⟩
  exact .call hf hl (hargs r _ rfl hr)

mutual

theorem spells_of_wellFormed {e : Monkey.Expression} : e.WellFormed → SpellsExpression e
  | .integer h hn => spells_integer h hn
  | .boolean b => spells_boolean b
  | .string s => spells_string s
  | .name h => spells_nameExpression h
  | .unary hop he => spells_unary hop (spells_of_wellFormed he)
  | .binary hl hop hr => spells_binary (spells_of_wellFormed hl) hop (spells_of_wellFormed hr)
  | .conditional hc ht => spells_conditional (spells_of_wellFormed hc)
      fun s hs => spellsStatement_of_wellFormed (ht s hs)
  | .alternative hc ht he => spells_alternative (spells_of_wellFormed hc)
      (fun s hs => spellsStatement_of_wellFormed (ht s hs))
      fun s hs => spellsStatement_of_wellFormed (he s hs)
  | .function hps hbody => spells_function hps
      fun s hs => spellsStatement_of_wellFormed (hbody s hs)
  | .call hf hargs => spells_call (spells_of_wellFormed hf)
      fun a ha => spells_of_wellFormed (hargs a ha)

theorem spellsStatement_of_wellFormed {s : Statement} : s.WellFormed → SpellsStatement s
  | .binding hn he => spells_binding hn (spells_of_wellFormed he)
  | .ret he => spells_ret (spells_of_wellFormed he)
  | .expression he => spells_expressionStatement (spells_of_wellFormed he)

end

/-- A text that spells a sequence of statements is read as these statements. -/
theorem Spells.readText_eq {text : String} {ss : List Statement}
    (hs : Spells Apart (fun ts rest => Sequence ts ss rest) text.toList) (file : String)
    {depth : Nat} (hd : 2 * text.length + 1 ≤ depth) :
    Reader.readText depth text file = ⟨ss, [], none⟩ := by
  have hderives := hs.derives file .start [] Token.apart_nil
  have hlegible := hs.legible file .start [] Token.apart_nil
  rw [List.append_nil, Token.words_nil] at hderives hlegible
  have hlegible : Token.Legible (words file .start text.toList) :=
    hlegible fun _ ht => absurd ht List.not_mem_nil
  have hlen : (words file .start text.toList).length ≤ text.length := by
    rw [← String.length_toList]
    exact Token.length_words_le file .start text.toList
  have hderives : Derives (words file .start text.toList) ⟨ss⟩ := hderives
  rw [Reader.readText, Token.scan, Token.scanFrom_eq_words]
  exact hderives.readTokens_eq hlegible rfl (by omega)

/-- The text of a well-formed program is read as the program, by every reader that may follow nested
constructs as deep as twice the length of the text. -/
theorem readText_source {p : Program} (h : p.WellFormed) (file : String) {depth : Nat}
    (hd : 2 * p.source.length + 1 ≤ depth) :
    Reader.readText depth p.source file = ⟨p.statements, [], none⟩ := by
  have hline : Spells Free Eq "\n".toList := spells_blank (by decide)
  have hs := spells_sequence hline fun s hs => spellsStatement_of_wellFormed (h s hs)
  exact Spells.readText_eq hs file hd

/-- A negation of a call behind a function whose text ends with a brace. -/
theorem readText_source_negation :
    Reader.readText 60
        (Program.source ⟨[.expression (.function ["x"] [.expression (.name "x")]),
          .expression (.unary "-" (.call (.string "\"") [.integer 7]))]⟩) "" =
      ⟨[.expression (.function ["x"] [.expression (.name "x")]),
        .expression (.unary "-" (.call (.string "\"") [.integer 7]))], [], none⟩ := by
  have hx : IsName "x" := ⟨Token.isWord_ofList 'x' [] rfl rfl, by decide⟩
  have hargument : Monkey.Expression.WellFormed (.integer 7) := .integer (by decide) (by decide)
  refine readText_source (p := ⟨_⟩) (fun s hs => ?_) "" (by decide +kernel)
  rcases List.mem_cons.mp hs with rfl | hs
  · exact .expression (.function (by simpa using hx) (by simpa using .expression (.name hx)))
  · rw [List.mem_singleton.mp hs]
    exact .expression (.unary (by decide) (.call (.string _) (by simpa using hargument)))

end Monkey.Grammar
