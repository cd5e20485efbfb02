import Monkey.Text.Blank

/-!
# Stripped lines

What is left of a line once the blanks at its two ends are gone.
-/

namespace Monkey.Text

set_option autoImplicit false

/-- The text is what is left of the line without the blanks at its two ends. -/
structure Stripped (line text : String) : Prop where
  around : ∃ before behind, line.toList = before ++ (text.toList ++ behind) ∧
    (∀ c ∈ before, isBlank c = true) ∧ ∀ c ∈ behind, isBlank c = true
  first : ∀ c ∈ text.toList.head?, isBlank c = false
  last : ∀ c ∈ text.toList.getLast?, isBlank c = false

section Ends

variable {p : Char → Bool} {cs : List Char}

theorem head?_dropWhile_eq_false : ∀ c ∈ (cs.dropWhile p).head?, p c = false := by
  intro c hc
  have h := List.head?_dropWhile_not p cs
  rw [Option.mem_def.mp hc] at h
  exact h

theorem dropWhile_eq_self (h : ∀ c ∈ cs.head?, p c = false) : cs.dropWhile p = cs := by
  cases cs with
  | nil => rfl
  | cons c cs =>
    rw [List.dropWhile_cons_of_neg]
    simp [h c rfl]

theorem trimEnds_eq_self (h : ∀ c ∈ cs, p c = false) : trimEnds p cs = cs := by
  have hback : cs.reverse.dropWhile p = cs.reverse :=
    dropWhile_eq_self fun c hc => h c (List.mem_reverse.mp (List.mem_of_head? hc))
  rw [trimEnds, dropWhile_eq_self fun c hc => h c (List.mem_of_head? hc), hback,
    List.reverse_reverse]

theorem exists_eq_trimEnds (p : Char → Bool) (cs : List Char) :
    ∃ before behind, cs = before ++ (trimEnds p cs ++ behind) ∧
      (∀ c ∈ before, p c = true) ∧ ∀ c ∈ behind, p c = true := by
  have hfront := List.takeWhile_append_dropWhile (p := p) (l := cs)
  have hback := List.takeWhile_append_dropWhile (p := p) (l := (cs.dropWhile p).reverse)
  refine ⟨cs.takeWhile p, ((cs.dropWhile p).reverse.takeWhile p).reverse, ?_, ?_, ?_⟩
  · rw [trimEnds, ← List.reverse_append, hback, List.reverse_reverse, hfront]
  · exact List.all_eq_true.mp List.all_takeWhile
  · intro c hc
    exact List.all_eq_true.mp List.all_takeWhile c (List.mem_reverse.mp hc)

theorem getLast?_trimEnds : ∀ c ∈ (trimEnds p cs).getLast?, p c = false := by
  rw [trimEnds, List.getLast?_reverse]
  exact head?_dropWhile_eq_false

/-- Blanks are dropped behind what is left only, so the first character stays the first one. -/
theorem head?_trimEnds : ∀ c ∈ (trimEnds p cs).head?, p c = false := by
  intro c hc
  rw [trimEnds] at hc
  have hprefix : ((cs.dropWhile p).reverse.dropWhile p).reverse <+: cs.dropWhile p := by
    have hsuffix := List.dropWhile_suffix (l := (cs.dropWhile p).reverse) p
    exact List.reverse_suffix.mp (by rwa [List.reverse_reverse])
  obtain ⟨rest, hrest⟩ := hprefix
  have hhead : c ∈ (cs.dropWhile p).head? := by
    rw [← hrest, List.head?_append, Option.mem_def.mp hc]
    rfl
  exact head?_dropWhile_eq_false c hhead

end Ends

theorem stripped_trim (line : String) : Stripped line (trim line) := by
  have htext : (trim line).toList = trimEnds isBlank line.toList := String.toList_ofList
  constructor
  · rw [htext]
    exact exists_eq_trimEnds isBlank line.toList
  · rw [htext]
    exact head?_trimEnds
  · rw [htext]
    exact getLast?_trimEnds

end Monkey.Text
