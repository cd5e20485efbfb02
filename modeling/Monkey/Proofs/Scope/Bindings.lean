import Mathlib.Data.List.Induction
import Monkey.Scope

/-!
# Names and their order in bindings

A list of bindings gives its names in the order in which they were first bound. Binding a name
again, in the same list or in one that is merged into it, changes what it is bound to and not its
place.
-/

namespace Monkey

set_option autoImplicit false

section Distinct

variable {α : Type} [BEq α] [LawfulBEq α] {as : List α}

theorem eraseDups_concat_of_mem {a : α} (h : a ∈ as) : (as ++ [a]).eraseDups = as.eraseDups := by
  have hgone : [a].removeAll as = [] := by simp [List.removeAll, h]
  rw [List.eraseDups_append, hgone, List.eraseDups_nil, List.append_nil]

theorem eraseDups_concat_of_notMem {a : α} (h : a ∉ as) :
    (as ++ [a]).eraseDups = as.eraseDups ++ [a] := by
  have hleft : [a].removeAll as = [a] := by simp [List.removeAll, h]
  rw [List.eraseDups_append, hleft]
  rfl

theorem nodup_eraseDups (as : List α) : as.eraseDups.Nodup := by
  induction as using List.reverseRecOn with
  | nil => exact List.nodup_nil
  | append_singleton as a ih =>
    by_cases h : a ∈ as
    · rw [eraseDups_concat_of_mem h]
      exact ih
    · rw [eraseDups_concat_of_notMem h]
      refine List.nodup_append.mpr ⟨ih, List.pairwise_singleton _ a, ?_⟩
      intro b hb c hc hbc
      rw [List.mem_singleton.mp hc] at hbc
      exact h (hbc ▸ List.mem_eraseDups.mp hb)

theorem eraseDups_of_nodup (h : as.Nodup) : as.eraseDups = as := by
  induction as using List.reverseRecOn with
  | nil => rfl
  | append_singleton as a ih =>
    obtain ⟨has, _, hdisjoint⟩ := List.nodup_append.mp h
    have ha : a ∉ as := fun hmem => hdisjoint a hmem a List.mem_cons_self rfl
    rw [eraseDups_concat_of_notMem ha, ih has]

end Distinct

namespace Bindings

variable {name : String} {bs outer inner : Bindings} {ns : List String}

theorem lookup_isSome_iff (bs : Bindings) (name : String) :
    (bs.lookup name).isSome ↔ name ∈ bs.map Prod.fst := by
  rw [List.lookup_isSome_iff, List.mem_map]
  constructor
  · rintro ⟨b, hb, hname⟩
    exact ⟨b, hb, (beq_iff_eq.mp hname).symm⟩
  · rintro ⟨b, hb, rfl⟩
    exact ⟨b, hb, beq_self_eq_true b.1⟩

theorem lookup_eq_none_iff (bs : Bindings) (name : String) :
    bs.lookup name = none ↔ name ∉ bs.map Prod.fst := by
  rw [← lookup_isSome_iff, Option.not_isSome_iff_eq_none]

theorem map_fst_insert (name : String) (v : Value) (bs : Bindings) :
    (bs.insert name v).map Prod.fst =
      if name ∈ bs.map Prod.fst then bs.map Prod.fst else bs.map Prod.fst ++ [name] := by
  induction bs with
  | nil => rfl
  | cons b bs ih =>
    obtain ⟨n, w⟩ := b
    rw [insert]
    by_cases hn : n = name
    · subst hn
      simp
    · have hne : name ≠ n := fun h => hn h.symm
      rw [if_neg hn, List.map_cons, List.map_cons, ih]
      simp only [List.mem_cons, hne, false_or]
      split <;> rfl

/-- A name that is bound takes its place behind the names that were bound before it. -/
theorem map_fst_insert_of_eq (h : bs.map Prod.fst = ns.eraseDups) (name : String) (v : Value) :
    (bs.insert name v).map Prod.fst = (ns ++ [name]).eraseDups := by
  rw [map_fst_insert, h]
  by_cases hn : name ∈ ns
  · rw [if_pos (List.mem_eraseDups.mpr hn), eraseDups_concat_of_mem hn]
  · rw [if_neg fun hm => hn (List.mem_eraseDups.mp hm), eraseDups_concat_of_notMem hn]

theorem map_fst_merge_of_eq (h : outer.map Prod.fst = ns.eraseDups) (inner : Bindings) :
    (outer.merge inner).map Prod.fst = (ns ++ inner.map Prod.fst).eraseDups := by
  rw [merge]
  induction inner generalizing outer ns with
  | nil => rw [List.foldl_nil, h, List.map_nil, List.append_nil]
  | cons b inner ih =>
    rw [List.foldl_cons, ih (map_fst_insert_of_eq h b.1 b.2), List.map_cons, List.append_assoc]
    rfl

/-- A name that is bound already, or in what the bindings are merged into, takes no other place. -/
theorem map_fst_merge_insert (h : outer.map Prod.fst = ns.eraseDups)
    (hname : name ∈ inner.map Prod.fst ∨ name ∈ ns) (v : Value) :
    (outer.merge (inner.insert name v)).map Prod.fst = (outer.merge inner).map Prod.fst := by
  rw [map_fst_merge_of_eq h, map_fst_merge_of_eq h, map_fst_insert]
  split
  · rfl
  · next hnew =>
    have hmem : name ∈ ns ++ inner.map Prod.fst :=
      List.mem_append_left _ (hname.resolve_left hnew)
    rw [← List.append_assoc, eraseDups_concat_of_mem hmem]

theorem lookup_merge (h : (inner.map Prod.fst).Nodup) (outer : Bindings) (name : String) :
    (outer.merge inner).lookup name = (inner.lookup name).or (outer.lookup name) := by
  rw [merge]
  induction inner generalizing outer with
  | nil => rfl
  | cons b inner ih =>
    obtain ⟨n, v⟩ := b
    obtain ⟨hn, hinner⟩ := List.nodup_cons.mp h
    rw [List.foldl_cons, ih hinner, lookup_insert, lookup_cons]
    split
    · next heq =>
      subst heq
      rw [(lookup_eq_none_iff inner name).mpr hn]
      rfl
    · rfl

end Bindings

end Monkey
