import Monkey.Proofs.Scope.Built

/-!
# What is visible from a scope

A name can be looked up from a scope outward, and all names that are visible from it can be listed.
Both give the same values, as long as the chain of scopes is not longer than looking up may go. The
names of the outermost scope are listed first, those of each scope in the order in which they were
first bound there, and a name that is bound again keeps its place.
-/

namespace Monkey.Store

set_option autoImplicit false

variable {s : Store} {edits : List Edit} {i j : Nat} {sc : Scope} {name : String}

def around (s : Store) (sc : Scope) : Bindings := sc.parent.elim [] s.visible

theorem visible_of_none (hsc : s.scopes[i]? = none) : s.visible i = [] := by
  rw [visible, chain, hsc]
  rfl

theorem Nested.visible_eq (h : s.Nested) (hsc : s.scopes[i]? = some sc) :
    s.visible i = (s.around sc).merge sc.bindings := by
  rw [visible, chain, hsc, around]
  cases hp : sc.parent with
  | none =>
    simp only [hp]
    rfl
  | some p =>
    have hlt : p < i := h i p (inside_of_getElem? hsc hp)
    simp only [hp, if_pos hlt]
    rfl

/-- The names of the outermost scope come first, and each name comes once. -/
theorem map_fst_visible (s : Store) (i : Nat) :
    (s.visible i).map Prod.fst = ((s.chain i).reverse.flatMap Scope.names).eraseDups := by
  rw [visible]
  induction s.chain i with
  | nil => rfl
  | cons sc scs ih =>
    rw [List.foldr_cons, List.reverse_cons, List.flatMap_append]
    rw [Bindings.map_fst_merge_of_eq ih, List.flatMap_singleton]
    rfl

theorem nodup_visible (s : Store) (i : Nat) : ((s.visible i).map Prod.fst).Nodup := by
  rw [map_fst_visible]
  exact nodup_eraseDups _

theorem nodup_around (s : Store) (sc : Scope) : ((s.around sc).map Prod.fst).Nodup := by
  rw [around]
  cases sc.parent with
  | none => exact List.nodup_nil
  | some p => exact s.nodup_visible p

theorem Built.lookup_visible (h : Built edits s) (name : String) (i : Nat) :
    (s.visible i).lookup name = s.find? name i := by
  apply h.nested.induction (P := fun i => (s.visible i).lookup name = s.find? name i)
  · intro i hsc
    rw [visible_of_none hsc, find?_of_none hsc]
    rfl
  · intro i sc hsc ih
    rw [h.nested.visible_eq hsc, h.nested.find?_eq hsc,
      Bindings.lookup_merge (h.nodup_names hsc), around]
    cases hp : sc.parent with
    | none => rfl
    | some p =>
      have hparent := ih p hp
      exact congrArg (sc.bindings.lookup name).or hparent

theorem Built.mem_visible_iff (h : Built edits s) (name : String) (i : Nat) :
    name ∈ (s.visible i).map Prod.fst ↔ ∃ v, s.find? name i = some v := by
  rw [← h.lookup_visible, ← Bindings.lookup_isSome_iff, Option.isSome_iff_exists]

/-- A name that is visible from a scope, there or further out, keeps its place when it is bound in
that scope. -/
theorem Built.map_fst_visible_set (h : Built edits s) (hname : name ∈ (s.visible j).map Prod.fst)
    (v : Value) (i : Nat) :
    ((s.set j name v).visible i).map Prod.fst = (s.visible i).map Prod.fst := by
  have hset := h.nested.set j name v
  apply h.nested.induction (P := fun i =>
    ((s.set j name v).visible i).map Prod.fst = (s.visible i).map Prod.fst)
  · intro i hsc
    rw [visible_of_none hsc, visible_of_none (getElem?_set_of_none hsc j name v)]
  · intro i sc hsc ih
    have hdistinct := (eraseDups_of_nodup (s.nodup_around sc)).symm
    have haround : ((s.set j name v).around sc).map Prod.fst = (s.around sc).map Prod.fst := by
      rw [around, around]
      cases hp : sc.parent with
      | none => rfl
      | some p => exact ih p hp
    have hmerge : ∀ bs, (((s.set j name v).around sc).merge bs).map Prod.fst =
        ((s.around sc).merge bs).map Prod.fst := fun bs =>
      (Bindings.map_fst_merge_of_eq (haround.trans hdistinct) bs).trans
        (Bindings.map_fst_merge_of_eq hdistinct bs).symm
    rw [h.nested.visible_eq hsc]
    by_cases hj : j = i
    · subst hj
      rw [h.nested.visible_eq hsc, Bindings.map_fst_merge_of_eq hdistinct, List.mem_eraseDups,
        List.mem_append] at hname
      rw [hset.visible_eq (getElem?_set_self hsc name v), ← Bindings.map_fst_merge_insert hdistinct
        hname.symm v]
      exact hmerge _
    · rw [hset.visible_eq (getElem?_set_of_ne hj hsc name v)]
      exact hmerge sc.bindings

theorem Built.lookup_visible_set (h : Built edits s) (hi : i < s.size) (name : String) (v : Value) :
    ((s.set i name v).visible i).lookup name = some v := by
  have hset : Built (edits ++ [.set i name v]) (s.set i name v) := h.step _ hi
  have hsc := getElem?_set_self (Array.getElem?_eq_getElem hi) name v
  rw [hset.lookup_visible, hset.nested.find?_eq hsc, Bindings.lookup_insert, if_pos rfl]
  rfl

/-- The two views of the scopes from one of them outward agree, as deep as looking up may go. -/
structure Listing (edits : List Edit) (s : Store) (i : Nat) : Prop where
  lookup : ∀ name d, s.lookup? name d i =
    if s.reach name i ≤ d then .ok ((s.visible i).lookup name) else .error .tooDeep
  /-- Each scope of the chain takes one level at most. -/
  reach_le : ∀ name, s.reach name i ≤ (s.chain i).length
  mem : ∀ name d, s.reach name i ≤ d →
    (name ∈ (s.visible i).map Prod.fst ↔ ∃ v, s.lookup? name d i = .ok (some v))
  /-- A name that is bound to nothing is listed, but stands for no value. -/
  present : s.All (· ≠ .missing) → ∀ name d, s.reach name i ≤ d →
    (name ∈ (s.visible i).map Prod.fst ↔ ∃ v, v ≠ .missing ∧ s.lookup? name d i = .ok (some v))
  nodup : ((s.visible i).map Prod.fst).Nodup
  outermost_first :
    (s.visible i).map Prod.fst = ((s.chain i).reverse.flatMap Scope.names).eraseDups
  first_bound : ∀ j sc, s.scopes[j]? = some sc → sc.names = (Edit.names edits j).eraseDups
  kept : ∀ j name v, name ∈ (s.visible j).map Prod.fst →
    ((s.set j name v).visible i).map Prod.fst = (s.visible i).map Prod.fst
  rebound : ∀ name v, i < s.size → ((s.set i name v).visible i).lookup name = some v

/-- However scopes were built, the names that are visible from a scope are those that can be looked
up from it, with the same values, if looking up may go as deep as there are scopes up to the one
that binds the name; otherwise it goes too deep. Each name is listed once: where the outermost scope
that binds it has it, in the order in which names were first bound there. Binding it again changes
its value and not its place. -/
theorem visible_of_built (h : Built edits s) (i : Nat) : Listing edits s i where
  lookup name d := by rw [lookup?_eq, h.lookup_visible]
  reach_le name := s.reach_le_length name i
  mem name d hd := by
    rw [h.mem_visible_iff, lookup?_eq, if_pos hd]
    simp only [Except.ok.injEq]
  present hpresent name d hd := by
    rw [h.mem_visible_iff, lookup?_eq, if_pos hd]
    constructor
    · rintro ⟨v, hv⟩
      exact ⟨v, hpresent.find? hv, congrArg Except.ok hv⟩
    · rintro ⟨v, _, hv⟩
      exact ⟨v, Except.ok.inj hv⟩
  nodup := s.nodup_visible i
  outermost_first := s.map_fst_visible i
  first_bound _ _ hsc := h.names_eq hsc
  kept _ _ v hname := h.map_fst_visible_set hname v i
  rebound name v hi := h.lookup_visible_set hi name v

/-- A name of the outer scope is bound again, in the inner scope and then in the outer one. -/
def shadowing : List Edit :=
  [.make none [("a", .integer 1), ("b", .integer 2)], .enclose 0, .set 1 "c" (.integer 3),
    .set 1 "a" (.integer 4), .set 0 "a" (.integer 5)]

theorem visible_of_built_shadowing :
    Built shadowing (shadowing.foldl edit empty) ∧
      Listing shadowing (shadowing.foldl edit empty) 1 := by
  have h : Built shadowing (shadowing.foldl edit empty) :=
    ((((Built.empty.step _ (by decide)).step _ (by decide)).step _ (by decide)).step _
      (by decide)).step _ (by decide)
  exact ⟨h, visible_of_built h 1⟩

/-- However deep looking up may go, a name can be bound too far out: it is visible all the same. -/
theorem not_lookup?_iff_visible : ¬ ∃ d, ∀ edits s, Built edits s → ∀ i name,
    (name ∈ (s.visible i).map Prod.fst ↔ ∃ v, s.lookup? name d i = .ok (some v)) := by
  rintro ⟨d, hd⟩
  have hbuilt := built_nest d
  have hvisible := (hbuilt.mem_visible_iff "x" d).mpr ⟨_, find?_nest (Nat.le_refl d)⟩
  obtain ⟨v, hv⟩ := (hd _ _ hbuilt d "x").mp hvisible
  rw [lookup?_nest (Nat.le_refl d) (Nat.le_refl d)] at hv
  cases hv

end Monkey.Store
