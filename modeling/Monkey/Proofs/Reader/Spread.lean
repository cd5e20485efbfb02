import Monkey.Proofs.Reader.Unplaced
import Monkey.Proofs.Token.Spread

/-!
# Layout

Only the tokens of a text decide what is read of it. Blanks can be inserted wherever they cut no
token in two: the program stays the same, and the errors are reported in the same words.
-/

namespace Monkey.Reader

set_option autoImplicit false

open Token (Inside scan spaced)

/-- The kinds and the literals of tokens tell nothing about their places. -/
theorem map_kind_literal_unplaced (ts : List Token) :
    (ts.map Token.unplaced).map (fun t => (t.kind, t.literal)) =
      ts.map fun t => (t.kind, t.literal) := by
  rw [List.map_map]
  rfl

@[simp] theorem Reading.messages_unplaced (r : Reading) : r.unplaced.messages = r.messages := by
  rw [messages, messages, unplaced, List.map_map]
  simp [Function.comp_def]

/-- Readings that differ in places only have the same program and the same messages. -/
theorem Reading.eq_of_unplaced {r s : Reading} (h : r.unplaced = s.unplaced) :
    r.program = s.program ∧ r.messages = s.messages ∧ r.refusal = s.refusal := by
  refine ⟨?_, ?_, congrArg (fun u => u.refusal) h⟩
  · exact congrArg (fun u => u.program) h
  · rw [← messages_unplaced r, h, messages_unplaced]

/-- Of a text without an illegal token, the same is read after blanks have been inserted at offsets
that are not strictly inside a token: the tokens have the same kinds and literals, and at every
depth either both texts are refused, or the programs and the messages are the same. -/
theorem readText_spaced {pieces : Nat → List Char} {text file : String}
    (hblank : ∀ k, ∀ c ∈ pieces k, Text.isBlank c = true)
    (hlegal : ∀ t ∈ scan text file, t.kind ≠ .illegal)
    (hinside : ∀ k, Inside (scan text file) file text.toList k → pieces k = []) :
    (scan (spaced pieces text) file).map (fun t => (t.kind, t.literal)) =
        (scan text file).map (fun t => (t.kind, t.literal)) ∧
      ∀ depth, (readText depth (spaced pieces text) file).program =
          (readText depth text file).program ∧
        (readText depth (spaced pieces text) file).messages =
          (readText depth text file).messages ∧
        (readText depth (spaced pieces text) file).refusal =
          (readText depth text file).refusal := by
  have htokens := Token.scan_spaced hblank hlegal hinside
  refine ⟨?_, fun depth => Reading.eq_of_unplaced ?_⟩
  · rw [← map_kind_literal_unplaced, htokens, map_kind_literal_unplaced]
  · rw [readText, readText, ← readTokens_unplaced, htokens, readTokens_unplaced]

/-- An ideographic space and a line feed around each token of a line that has an error. -/
theorem readText_spaced_lines :
    (readText 30
        "\u3000\n!\u3000\na\u3000\n==\u3000\n1\u3000\n;\u3000\nlet\u3000\n\"b c\"\u3000\n" "").messages =
      ["expected next token to be IDENT, got \"b c\" instead"] := by
  have hspans : (scan "!a==1;let\"b c\"" "").map Token.span =
      [(0, 1), (1, 2), (2, 4), (4, 5), (5, 6), (6, 9), (9, 14), (14, 14)].map fun p =>
        some (Token.Span.over "" "!a==1;let\"b c\"".toList p.1 p.2) := by decide +kernel
  have hblank : ∀ k : Nat, ∀ c ∈ (if k ∈ [0, 1, 2, 4, 5, 6, 9, 14] then ['\u3000', '\n'] else []),
      Text.isBlank c = true := by
    intro k c hc
    split at hc
    · simp only [List.mem_cons, List.not_mem_nil, or_false] at hc
      rcases hc with rfl | rfl <;> decide
    · exact absurd hc List.not_mem_nil
  have hinside : ∀ k, Inside (scan "!a==1;let\"b c\"" "") "" "!a==1;let\"b c\"".toList k →
      (if k ∈ [0, 1, 2, 4, 5, 6, 9, 14] then ['\u3000', '\n'] else []) = [] := by
    intro k hk
    obtain ⟨p, hp, hfirst, hlast⟩ := (Token.inside_iff hspans k).mp hk
    refine if_neg fun hmem => ?_
    simp only [List.mem_cons, List.not_mem_nil, or_false] at hp hmem
    rcases hp with rfl | rfl | rfl | rfl | rfl | rfl | rfl | rfl <;> omega
  obtain ⟨-, hmessages, -⟩ := (readText_spaced hblank (by decide +kernel) hinside).2 30
  exact hmessages.trans (by decide +kernel)

end Monkey.Reader
