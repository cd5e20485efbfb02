import Monkey.Proofs.Reader.Blame
import Monkey.Proofs.Token.Display

/-!
# Reports on errors

A report has two lines at its head and then a line for each error: no message has a line feed in it,
because the token that it shows has none. So the lines of a report tell the messages.
-/

namespace Monkey

set_option autoImplicit false

def Text.pieces (text : String) : List String :=
  (text.split '\n').toList.map fun piece => piece.copy

/-- Texts without line feeds are the pieces of the text that joins them by line feeds. -/
theorem Text.pieces_intercalate {texts : List String} (h : ∀ t ∈ texts, '\n' ∉ t.toList)
    (hne : texts ≠ []) : Text.pieces ("\n".intercalate texts) = texts :=
  (String.toList_split_intercalate h).trans (if_neg hne)

namespace SyntaxError

variable {P : Token → Prop}

/-- The messages that a report tells: its lines but for the first two, without the tabs. -/
def reported (report : String) : List String :=
  ((Text.pieces report).drop 2).map fun line => String.ofList line.toList.tail

/-- A message is on one line if the tokens it may tell of are. -/
theorem newline_not_mem_message {e : SyntaxError} (h : e.About P)
    (hP : ∀ t, P t → '\n' ∉ t.display.toList) : '\n' ∉ e.message.toList := by
  have hfound : ∀ t, P t ∨ t = .endOfInput → '\n' ∉ t.display.toList := by
    rintro t (ht | rfl)
    · exact hP t ht
    · decide
  have htag : ∀ k ∈ Reader.required, '\n' ∉ k.tag.toList := by decide
  unfold message
  cases e with
  | expected k t => simp [htag k h.1, hfound t h.2]
  | unexpected t => simp [hfound t h]
  | integerTooLarge numeral =>
    obtain ⟨t, ht, hk, rfl⟩ := h
    have hshown : t.display = t.literal := by rw [Token.display, hk]
    simp [← hshown, hP t ht]

section Report

variable {messages : List String}

theorem pieces_report (h : ∀ m ∈ messages, '\n' ∉ m.toList) :
    Text.pieces (report messages) =
      "Woops! We ran into some monkey business here!" :: " parser errors:" ::
        messages.map ("\t" ++ ·) := by
  refine Text.pieces_intercalate ?_ (List.cons_ne_nil _ _)
  refine List.forall_mem_cons.mpr ⟨by simp, List.forall_mem_cons.mpr ⟨by simp, ?_⟩⟩
  intro line hline
  obtain ⟨m, hm, rfl⟩ := List.mem_map.mp hline
  simp [h m hm]

theorem reported_report (h : ∀ m ∈ messages, '\n' ∉ m.toList) :
    reported (report messages) = messages := by
  rw [reported, pieces_report h]
  simp [Function.comp_def]

end Report

end SyntaxError

namespace Reader

theorem newline_not_mem_messages (depth : Nat) (text file : String) :
    ∀ m ∈ (readText depth text file).messages, '\n' ∉ m.toList := by
  intro m hm
  obtain ⟨e, he, rfl⟩ := List.mem_map.mp hm
  exact SyntaxError.newline_not_mem_message (readTokens_about depth (Token.scan text file) e he)
    fun _ => Token.newline_not_mem_display

/-- Whatever a text is, its messages have no line feed. The report on them has its two lines at the
head and one line for each message, behind a tab and in order, and so it gives the messages back. -/
theorem readText_report (depth : Nat) (text file : String) :
    (∀ m ∈ (readText depth text file).messages, '\n' ∉ m.toList) ∧
      Text.pieces (SyntaxError.report (readText depth text file).messages) =
        "Woops! We ran into some monkey business here!" :: " parser errors:" ::
          (readText depth text file).messages.map ("\t" ++ ·) ∧
      SyntaxError.reported (SyntaxError.report (readText depth text file).messages) =
        (readText depth text file).messages := by
  have h := newline_not_mem_messages depth text file
  exact ⟨h, SyntaxError.pieces_report h, SyntaxError.reported_report h⟩

end Reader

end Monkey
