import Mathlib.Logic.Relation
import Monkey.Proofs.Evaluation.Closed

/-!
# Chains of scopes

In a closed store the chain of scopes from any scope outward ends, and so does the search for a name
along it. A store is rooted in a scope if everything that stands in the scopes below it stays below
it; evaluation below a root keeps the store rooted.
-/

namespace Monkey

set_option autoImplicit false

namespace Store

def parent? (s : Store) (i : Nat) : Option (Option Nat) := s.scopes[i]?.map Scope.parent

def Inside (s : Store) (i p : Nat) : Prop := s.parent? i = some (some p)

/-- The chain of scopes from a scope outward ends, in the scope `root`. -/
inductive Stems (s : Store) (root : Nat) : Nat → Prop where
  | root : s.parent? root = some none → Stems s root root
  | inner {i p : Nat} : s.Inside i p → Stems s root p → Stems s root i

/-- The search for a name from a scope outward ends, with a value or with none. It follows the chain
wherever that leads. -/
inductive Finds (s : Store) (name : String) : Nat → Option Value → Prop where
  | here {i : Nat} {sc : Scope} {v : Value} : s.scopes[i]? = some sc →
    sc.bindings.lookup name = some v → Finds s name i (some v)
  | outward {i p : Nat} {sc : Scope} {found : Option Value} : s.scopes[i]? = some sc →
    sc.bindings.lookup name = none → sc.parent = some p → Finds s name p found →
    Finds s name i found
  | nowhere {i : Nat} {sc : Scope} : s.scopes[i]? = some sc → sc.bindings.lookup name = none →
    sc.parent = none → Finds s name i none

variable {s t : Store} {root i p : Nat}

theorem parent?_of_getElem? {sc : Scope} (h : s.scopes[i]? = some sc) :
    s.parent? i = some sc.parent := by
  rw [parent?, h, Option.map_some]

theorem inside_of_getElem? {sc : Scope} (h : s.scopes[i]? = some sc) (hp : sc.parent = some p) :
    s.Inside i p := by
  rw [Inside, parent?_of_getElem? h, hp]

theorem parent?_set (s : Store) (i : Nat) (name : String) (v : Value) (j : Nat) :
    (s.set i name v).parent? j = s.parent? j := by
  rw [parent?, parent?, Store.set, Array.getElem?_modify]
  split
  · rw [Option.map_map]
    rfl
  · rfl

theorem parent?_add (s : Store) (parent : Option Nat) (bs : Bindings) (i : Nat) :
    (s.add parent bs).2.parent? i = if i = s.size then some parent else s.parent? i := by
  rw [parent?, parent?, Store.add, Array.getElem?_push]
  change Option.map Scope.parent (if i = s.size then _ else _) = _
  split
  · rfl
  · rfl

theorem lt_of_parent? {parent : Option Nat} (h : s.parent? i = some parent) : i < s.size := by
  obtain ⟨sc, hsc, _⟩ := Option.map_eq_some_iff.mp h
  exact (Array.getElem?_eq_some_iff.mp hsc).1

theorem parent?_add_of_lt (h : i < s.size) (parent : Option Nat) (bs : Bindings) :
    (s.add parent bs).2.parent? i = s.parent? i := by
  rw [parent?_add, if_neg (Nat.ne_of_lt h)]

def Nested (s : Store) : Prop := ∀ i p, s.Inside i p → p < i

theorem Nested.lt_of_transGen (h : s.Nested) {j : Nat} (hij : Relation.TransGen s.Inside i j) :
    j < i := by
  induction hij with
  | single hi => exact h _ _ hi
  | tail _ hj ih => exact Nat.lt_trans (h _ _ hj) ih

theorem Stems.lt (h : s.Stems root i) : i < s.size := by
  cases h with
  | root hroot => exact lt_of_parent? hroot
  | inner hi _ => exact lt_of_parent? hi

theorem Stems.of_inside (h : s.Stems root i) (hi : s.Inside i p) : s.Stems root p := by
  cases h with
  | root hroot => cases hroot.symm.trans hi
  | inner hj hp =>
    cases hj.symm.trans hi
    exact hp

/-- What stems from a root still does so where no scope has moved. -/
theorem Stems.imp (h : s.Stems root i)
    (hst : ∀ j parent, s.parent? j = some parent → t.parent? j = some parent) :
    t.Stems root i := by
  induction h with
  | root hroot => exact .root (hst root none hroot)
  | inner hi _ ih => exact .inner (hst _ _ hi) ih

theorem stems_set (j : Nat) (name : String) (v : Value) :
    (s.set j name v).Stems root i ↔ s.Stems root i := by
  constructor
  · intro h
    exact h.imp fun k parent hk => (parent?_set s j name v k).symm.trans hk
  · intro h
    exact h.imp fun k parent hk => (parent?_set s j name v k).trans hk

theorem Stems.add (h : s.Stems root i) (parent : Option Nat) (bs : Bindings) :
    (s.add parent bs).2.Stems root i :=
  h.imp fun _ _ hk => (parent?_add_of_lt (lt_of_parent? hk) parent bs).trans hk

/-- What holds of all values in the scopes below a root holds of those around each of these scopes.
-/
theorem Stems.allAround (h : s.Stems root i) {P : Value → Prop}
    (hvalues : ∀ j sc, s.Stems root j → s.scopes[j]? = some sc → ∀ b ∈ sc.bindings, P b.2) :
    s.AllAround P i := by
  induction i using Nat.strongRecOn with
  | ind i ih =>
    rw [allAround_iff]
    intro sc hsc
    exact ⟨hvalues i sc h hsc, fun p hp hlt => ih p hlt (h.of_inside (inside_of_getElem? hsc hp))⟩

section Closed

variable (h : s.Closed)

include h

theorem Closed.nested : s.Nested := by
  intro i p hi
  obtain ⟨sc, hsc, hparent⟩ := Option.map_eq_some_iff.mp hi
  exact h.older hsc p hparent

theorem Closed.parent_lt (hi : s.Inside i p) : p < i := h.nested i p hi

theorem Closed.exists_stems (hi : i < s.size) : ∃ root, s.Stems root i := by
  induction i using Nat.strongRecOn with
  | ind i ih =>
    have hsc := Array.getElem?_eq_getElem hi
    cases hp : s.scopes[i].parent with
    | none => exact ⟨i, .root (hp ▸ parent?_of_getElem? hsc)⟩
    | some p =>
      have hinside := inside_of_getElem? hsc hp
      have hlt : p < i := h.parent_lt hinside
      obtain ⟨root, hroot⟩ := ih p hlt (Nat.lt_trans hlt hi)
      exact ⟨root, .inner hinside hroot⟩

theorem Closed.finds (hi : i < s.size) (name : String) : s.Finds name i (s.find? name i) := by
  induction i using Nat.strongRecOn with
  | ind i ih =>
    have hsc := Array.getElem?_eq_getElem hi
    rw [find?, chain_eq hsc, List.findSome?_cons]
    cases hv : s.scopes[i].bindings.lookup name with
    | some v => exact .here hsc hv
    | none =>
      cases hp : s.scopes[i].parent with
      | none =>
        rw [outside, hp]
        exact .nowhere hsc hv hp
      | some p =>
        have hlt : p < i := h.older hsc p hp
        simp only [outside, hp, if_pos hlt]
        exact .outward hsc hv hp (ih p hlt (Nat.lt_trans hlt hi))

theorem Closed.le_of_stems (hi : s.Stems root i) : root ≤ i := by
  induction hi with
  | root _ => exact Nat.le_refl root
  | inner hj _ ih => exact Nat.le_trans ih (Nat.le_of_lt (h.parent_lt hj))

/-- A scope that was there before another one was opened stems from what it stemmed from. -/
theorem Closed.stems_of_add {parent : Option Nat} {bs : Bindings} (hi : i < s.size)
    (hstems : (s.add parent bs).2.Stems root i) : s.Stems root i := by
  induction hstems with
  | root hroot => exact .root ((parent?_add_of_lt hi parent bs).symm.trans hroot)
  | inner hj _ ih =>
    have hinside : s.Inside _ _ := (parent?_add_of_lt hi parent bs).symm.trans hj
    exact .inner hinside (ih (Nat.lt_trans (h.parent_lt hinside) hi))

end Closed

/-- Every scope of the store is inside an older one, if it is inside of any. The chains of scopes
end, none of them comes back to where it was, and the search for a name along them ends. Looking the
name up gives the same, with as many levels as the search looks into scopes. -/
structure Chained (s : Store) : Prop where
  older : ∀ i p, s.Inside i p → p < i
  acyclic : ∀ i, ¬ Relation.TransGen s.Inside i i
  ends : ∀ i < s.size, ∃ root, s.Stems root i
  finds : ∀ i < s.size, ∀ name, s.Finds name i (s.find? name i)
  looks : ∀ i name d, s.lookup? name d i =
    if s.reach name i ≤ d then .ok (s.find? name i) else .error .tooDeep

theorem Closed.chained (h : s.Closed) : s.Chained where
  older := h.nested
  acyclic i hi := Nat.lt_irrefl i (h.nested.lt_of_transGen hi)
  ends _ hi := h.exists_stems hi
  finds _ hi name := h.finds hi name
  looks i name d := s.lookup?_eq name d i

end Store

def Value.Stems (s : Store) (root : Nat) : Value → Prop
  | function _ _ scope => s.Stems root scope
  | _ => True

theorem Value.stems_common (root : Nat) : Value.Common fun v => ∀ s, v.Stems s root where
  integer _ _ := trivial
  boolean _ _ := trivial
  string _ _ := trivial
  null _ := trivial

theorem Value.Stems.imp {s t : Store} {root : Nat} {v : Value} (h : v.Stems s root)
    (hst : ∀ i, s.Stems root i → t.Stems root i) : v.Stems t root := by
  cases v with
  | function ps body scope => exact hst scope h
  | _ => trivial

theorem Value.Stems.within {s : Store} {root : Nat} {v : Value} (h : v.Stems s root) :
    v.Within s.size := by
  cases v with
  | function ps body scope => exact Store.Stems.lt h
  | _ => trivial

/-- The functions that are bound in a scope below the root have their scopes below it, too. -/
structure Store.Rooted (root : Nat) (s : Store) : Prop where
  closed : s.Closed
  values : ∀ {i : Nat} {sc : Scope}, s.Stems root i → s.scopes[i]? = some sc →
    ∀ b ∈ sc.bindings, b.2.Stems s root

namespace Store

variable {root : Nat} {s : Store}

theorem Rooted.set (h : s.Rooted root) (i : Nat) (name : String) {v : Value}
    (hv : v.Stems s root) : (s.set i name v).Rooted root := by
  refine ⟨h.closed.set i name hv.within, ?_⟩
  intro j sc hj hsc b hb
  apply Value.Stems.imp _ fun k hk => (stems_set i name v).mpr hk
  have hold := (stems_set i name v).mp hj
  rw [Store.set, Array.getElem?_modify] at hsc
  split at hsc
  · obtain ⟨old, holdsc, rfl⟩ := Option.map_eq_some_iff.mp hsc
    exact Bindings.all_insert (h.values hold holdsc) hv name b hb
  · exact h.values hold hsc b hb

theorem Rooted.add (h : s.Rooted root) {p : Nat} (hp : s.Stems root p) {bs : Bindings}
    (hbs : ∀ b ∈ bs, b.2.Stems s root) : (s.add (some p) bs).2.Rooted root := by
  have hparent : ∀ q ∈ some p, q < s.size := fun q hq => Option.some.inj hq ▸ hp.lt
  refine ⟨h.closed.add hparent fun b hb => (hbs b hb).within, ?_⟩
  intro i sc hi hsc b hb
  apply Value.Stems.imp _ fun k hk => hk.add (some p) bs
  rw [Store.add, Array.getElem?_push] at hsc
  split at hsc
  · cases hsc
    exact hbs b hb
  · exact h.values (h.closed.stems_of_add (Array.getElem?_eq_some_iff.mp hsc).1 hi) hsc b hb

theorem stems_add_inner {p : Nat} (hp : s.Stems root p) (bs : Bindings) :
    (s.add (some p) bs).2.Stems root s.size := by
  have hinside : (s.add (some p) bs).2.Inside s.size p := by
    rw [Inside, parent?_add, if_pos rfl]
  exact .inner hinside (hp.add (some p) bs)

/-- A new outermost scope without bindings is a root, and below it there is nothing else. -/
theorem Closed.add_root (h : s.Closed) :
    (s.add none []).2.Rooted s.size ∧ (s.add none []).2.Stems s.size s.size := by
  refine ⟨⟨h.add_outermost, ?_⟩, .root (by rw [parent?_add, if_pos rfl])⟩
  intro i sc hi hsc b hb
  have hle : s.size ≤ i := h.add_outermost.le_of_stems hi
  have hlast : i = s.scopes.size := by
    have hlt := hi.lt
    rw [size_add] at hlt
    exact Nat.le_antisymm (Nat.lt_succ_iff.mp hlt) hle
  rw [Store.add, Array.getElem?_push, if_pos hlast] at hsc
  cases hsc
  exact absurd hb List.not_mem_nil

end Store

def Contract.rooted (root : Nat) : Contract where
  holds m := m.store.Rooted root
  later m n := ∀ i, m.store.Stems root i → n.store.Stems root i
  value m v := v.Stems m.store root
  scope m i := m.store.Stems root i
  failure _ := True
  refl _ _ hi := hi
  trans hmn hno i hi := hno i (hmn i hi)
  value_later hmn hv := hv.imp hmn
  scope_later hmn hi := hmn _ hi

namespace Contract

variable {α : Type} {root : Nat} {m : Machine} {run : Run α}

theorem rooted_keeps_of_still (h : run.Still) {Q : Machine → α → Prop}
    (hq : m.store.Rooted root → ∀ a n, run m = .ok a n → n.store = m.store → Q n a) :
    (rooted root).Keeps m run Q := by
  refine keeps_of_still h ?_ (fun _ => trivial) hq
  intro n hn hm
  change n.store.Rooted root ∧ ∀ i, m.store.Stems root i → n.store.Stems root i
  rw [hn]
  exact ⟨hm, fun _ hi => hi⟩

/-- A step that leaves the store as it is and gives no function. -/
theorem rooted_keeps_of_gives {run : Run Value} (h : run.Still)
    (hq : run.Gives fun v => ∀ s, v.Stems s root) : (rooted root).Keeps m run (rooted root).value :=
  rooted_keeps_of_still h fun _ a n hr _ => hq m a n hr n.store

theorem rooted_lawful (root : Nat) : (rooted root).Lawful Trees.all where
  tooDeep := trivial
  marked _ := trivial
  null _ := trivial
  integer _ _ _ := trivial
  boolean _ _ := trivial
  string _ _ _ := trivial
  function _ _ _ _ _ hscope := hscope
  body _ _ _ _ _ _ _ := trivial
  noExpression _ := trivial
  noStatement _ := trivial
  note _ debug text := rooted_keeps_of_still (Run.still_note debug text) fun _ _ _ _ _ => trivial
  bindName := by
    intro m scope v _ hv name hm
    refine ⟨Store.Rooted.set hm scope name hv, ?_, trivial⟩
    intro i hi
    exact (Store.stems_set scope name v).mpr hi
  resolve := by
    intro m scope hscope d _ name
    apply rooted_keeps_of_still (Run.idle_resolve d scope name).still
    intro hm v n hr hstore
    change v.Stems n.store root
    rw [hstore]
    apply Run.of_resolve_of_find? _ (fun _ => trivial) hr
    intro w hw
    exact (Store.Stems.allAround hscope fun _ _ hj hsc => hm.values hj hsc).find? hw
  enter := by
    intro m ps body scope args hf hargs
    rw [Run.enter]
    split
    · intro hm
      have hbs : ∀ b ∈ Bindings.merge [] (ps.zip args), b.2.Stems m.store root :=
        Bindings.all_zip hargs
      exact ⟨Store.Rooted.add hm hf hbs, fun i hi => hi.add (some scope) _,
        Store.stems_add_inner hf _⟩
    · exact keeps_stop trivial
  truth _ := rooted_keeps_of_still (Run.idle_truth _).still fun _ _ _ _ _ => trivial
  unary _ d op := rooted_keeps_of_gives (Run.idle_unary d op _).still
    (Run.gives_unary (Value.stems_common root) d op _)
  binary _ _ d op := rooted_keeps_of_gives (Run.idle_binary d op _ _).still
    (Run.gives_binary (Value.stems_common root) d op _ _)
  builtin _ d b := rooted_keeps_of_gives (Run.still_builtin d b _)
    (Run.gives_builtin (Value.stems_common root) (fun _ _ _ => trivial) d b)
  notAFunction _ d := rooted_keeps_of_gives (Run.idle_notAFunction d _).still
    (Run.gives_notAFunction d _)

end Contract

end Monkey
