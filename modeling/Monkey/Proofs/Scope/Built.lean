import Monkey.Proofs.Evaluation.Rooted
import Monkey.Proofs.Scope.Bindings

/-!
# Trees of scopes

Scopes are built by opening them, inside another one or inside none, and by binding names in them,
in any order. Whatever the order, a scope is inside an older one, and it gives its names in the
order in which they were first bound in it.
-/

namespace Monkey

set_option autoImplicit false

inductive Edit where
  /-- Opens a scope with bindings, inside another one if there is one to be inside of. -/
  | make (parent : Option Nat) (bindings : Bindings)
  /-- Binds a name in a scope. -/
  | set (scope : Nat) (name : String) (value : Value)

namespace Edit

def enclose (outer : Nat) : Edit := .make (some outer) []

/-- The scopes that the step mentions are there, and it gives no name two values. -/
def Fits (s : Store) : Edit → Prop
  | .make parent bs => (∀ p ∈ parent, p < s.size) ∧ (bs.map Prod.fst).Nodup
  | .set i _ _ => i < s.size

instance (s : Store) (e : Edit) : Decidable (e.Fits s) :=
  match e with
  | .make parent bs =>
    inferInstanceAs (Decidable ((∀ p ∈ parent, p < s.size) ∧ (bs.map Prod.fst).Nodup))
  | .set i _ _ => inferInstanceAs (Decidable (i < s.size))

def opened : Edit → Option (List String)
  | .make _ bs => some (bs.map Prod.fst)
  | .set .. => none

def bound (i : Nat) : Edit → Option String
  | .make .. => none
  | .set j name _ => if j = i then some name else none

/-- The names that are bound in a scope, one after another: those that it is opened with and then
those that are bound in it. -/
def names (edits : List Edit) (i : Nat) : List String :=
  (edits.filterMap opened)[i]?.getD [] ++ edits.filterMap (bound i)

end Edit

namespace Store

def edit (s : Store) : Edit → Store
  | .make parent bs => (s.add parent bs).2
  | .set i name v => s.set i name v

inductive Built : List Edit → Store → Prop where
  | empty : Built [] Store.empty
  | step {edits : List Edit} {s : Store} (e : Edit) : Built edits s → e.Fits s →
    Built (edits ++ [e]) (s.edit e)

variable {s : Store} {edits : List Edit} {i j : Nat} {sc : Scope}

theorem getElem?_set (s : Store) (i : Nat) (name : String) (v : Value) (j : Nat) :
    (s.set i name v).scopes[j]? = s.scopes[j]?.map fun sc =>
      if i = j then ⟨sc.parent, sc.bindings.insert name v⟩ else sc := by
  rw [set, Array.getElem?_modify]
  split
  · rfl
  · rw [Option.map_id']

theorem getElem?_set_self (hsc : s.scopes[i]? = some sc) (name : String) (v : Value) :
    (s.set i name v).scopes[i]? = some ⟨sc.parent, sc.bindings.insert name v⟩ := by
  rw [getElem?_set, hsc, Option.map_some, if_pos rfl]

theorem getElem?_set_of_ne (hne : i ≠ j) (hsc : s.scopes[j]? = some sc) (name : String)
    (v : Value) : (s.set i name v).scopes[j]? = some sc := by
  rw [getElem?_set, hsc, Option.map_some, if_neg hne]

theorem getElem?_set_of_none (hsc : s.scopes[j]? = none) (i : Nat) (name : String) (v : Value) :
    (s.set i name v).scopes[j]? = none := by
  rw [getElem?_set, hsc, Option.map_none]

theorem getElem?_add (s : Store) (parent : Option Nat) (bs : Bindings) (i : Nat) :
    (s.add parent bs).2.scopes[i]? = if i = s.size then some ⟨parent, bs⟩ else s.scopes[i]? :=
  Array.getElem?_push

section Nested

theorem Nested.set (h : s.Nested) (i : Nat) (name : String) (v : Value) :
    (s.set i name v).Nested := by
  intro j p hj
  rw [Inside, parent?_set] at hj
  exact h j p hj

theorem Nested.add (h : s.Nested) {parent : Option Nat} (hparent : ∀ p ∈ parent, p < s.size)
    (bs : Bindings) : (s.add parent bs).2.Nested := by
  intro j p hj
  rw [Inside, parent?_add] at hj
  split at hj
  · next hlast =>
    rw [hlast]
    exact hparent p (Option.some.inj hj)
  · exact h j p hj

theorem Built.nested (h : Built edits s) : s.Nested := by
  induction h with
  | empty =>
    intro i p hi
    exact absurd (lt_of_parent? hi) (Nat.not_lt_zero i)
  | step e _ he ih =>
    cases e with
    | make parent bs => exact ih.add he.1 bs
    | set i name v => exact ih.set i name v

/-- What holds of a scope once it holds of the scope around it holds of every scope. -/
theorem Nested.induction (h : s.Nested) {P : Nat → Prop} (outside : ∀ i, s.scopes[i]? = none → P i)
    (inside : ∀ i sc, s.scopes[i]? = some sc → (∀ p ∈ sc.parent, P p) → P i) (i : Nat) : P i := by
  induction i using Nat.strongRecOn with
  | ind i ih =>
    cases hsc : s.scopes[i]? with
    | none => exact outside i hsc
    | some sc => exact inside i sc hsc fun p hp => ih p (h i p (inside_of_getElem? hsc hp))

end Nested

section Outward

variable {name : String}

theorem Nested.outside_eq (h : s.Nested) (hsc : s.scopes[i]? = some sc) :
    s.outside i sc = sc.parent.elim [] s.chain := by
  rw [outside]
  cases hp : sc.parent with
  | none => rfl
  | some p => exact if_pos (h i p (inside_of_getElem? hsc hp))

theorem find?_of_none (hsc : s.scopes[i]? = none) (name : String) : s.find? name i = none := by
  rw [find?, chain_of_none hsc]
  rfl

theorem Nested.find?_eq (h : s.Nested) (hsc : s.scopes[i]? = some sc) (name : String) :
    s.find? name i = (sc.bindings.lookup name).or (sc.parent.bind (s.find? name)) := by
  rw [find?, chain_eq hsc, List.findSome?_cons, h.outside_eq hsc]
  cases sc.bindings.lookup name with
  | some v => rfl
  | none => cases sc.parent <;> rfl

/-- A name that a scope does not bind is looked for further out, one level down. -/
theorem Nested.lookup?_of_unbound (h : s.Nested) (hsc : s.scopes[i]? = some sc)
    (hv : sc.bindings.lookup name = none) (d : Nat) :
    s.lookup? name (d + 1) i = sc.parent.elim (.ok none) (s.lookup? name d) := by
  rw [lookup?, hsc]
  simp only [hv]
  cases hp : sc.parent with
  | none => rfl
  | some p => exact if_pos (h i p (inside_of_getElem? hsc hp))

theorem Nested.length_chain (h : s.Nested) (hsc : s.scopes[i]? = some sc) :
    (s.chain i).length = sc.parent.elim 0 (fun p => (s.chain p).length) + 1 := by
  rw [chain_eq hsc, List.length_cons, h.outside_eq hsc]
  cases sc.parent <;> rfl

end Outward

section Names

theorem Built.length_opened (h : Built edits s) :
    (edits.filterMap Edit.opened).length = s.size := by
  induction h with
  | empty => rfl
  | @step edits s e _ _ ih =>
    rw [List.filterMap_append, List.length_append, ih]
    cases e with
    | make parent bs => exact (size_add s parent bs).symm
    | set i name v => exact (size_set s i name v).symm

theorem Built.bound_eq_nil (h : Built edits s) (hi : s.size ≤ i) :
    edits.filterMap (Edit.bound i) = [] := by
  induction h with
  | empty => rfl
  | @step edits s e _ he ih =>
    rw [List.filterMap_append]
    cases e with
    | make parent bs =>
      rw [edit, size_add] at hi
      rw [ih (Nat.le_of_succ_le hi)]
      rfl
    | set j name v =>
      have hne : j ≠ i := Nat.ne_of_lt (Nat.lt_of_lt_of_le he (size_set s j name v ▸ hi))
      rw [edit, size_set] at hi
      rw [ih hi]
      simp [Edit.bound, hne]

theorem Built.names_make (h : Built edits s) (parent : Option Nat) (bs : Bindings) (i : Nat) :
    Edit.names (edits ++ [.make parent bs]) i =
      if i = s.size then bs.map Prod.fst else Edit.names edits i := by
  rw [Edit.names, Edit.names, List.filterMap_append, List.filterMap_append]
  change (edits.filterMap Edit.opened ++ [bs.map Prod.fst])[i]?.getD [] ++
    (edits.filterMap (Edit.bound i) ++ []) = _
  rw [List.append_nil]
  split
  · next hi =>
    rw [h.bound_eq_nil (Nat.le_of_eq hi.symm), List.append_nil, hi, ← h.length_opened,
      List.getElem?_concat_length]
    rfl
  · next hi =>
    rw [← h.length_opened] at hi
    rcases Nat.lt_or_gt_of_ne hi with hlt | hgt
    · rw [List.getElem?_append_left hlt]
    · rw [List.getElem?_eq_none (Nat.le_of_lt hgt), List.getElem?_eq_none]
      rw [List.length_append]
      exact hgt

theorem names_set (edits : List Edit) (j : Nat) (name : String) (v : Value) (i : Nat) :
    Edit.names (edits ++ [.set j name v]) i =
      if j = i then Edit.names edits i ++ [name] else Edit.names edits i := by
  have hopened : (edits ++ [Edit.set j name v]).filterMap Edit.opened =
      edits.filterMap Edit.opened := by
    rw [List.filterMap_append]
    exact List.append_nil _
  rw [Edit.names, Edit.names, hopened, List.filterMap_append]
  split
  · next hj =>
    rw [List.append_assoc]
    simp [Edit.bound, hj]
  · next hj => simp [Edit.bound, hj]

/-- A scope gives its names in the order in which they were first bound. -/
theorem Built.names_eq (h : Built edits s) (hsc : s.scopes[i]? = some sc) :
    sc.names = (Edit.names edits i).eraseDups := by
  induction h generalizing i sc with
  | empty => cases hsc
  | @step edits s e hbuilt he ih =>
    cases e with
    | make parent bs =>
      rw [hbuilt.names_make]
      rw [edit, getElem?_add] at hsc
      split at hsc
      · next hlast =>
        cases hsc
        rw [if_pos hlast, eraseDups_of_nodup he.2]
        rfl
      · next hlast =>
        rw [if_neg hlast]
        exact ih hsc
    | set j name v =>
      rw [names_set]
      rw [edit, getElem?_set] at hsc
      obtain ⟨old, hold, rfl⟩ := Option.map_eq_some_iff.mp hsc
      split
      · exact Bindings.map_fst_insert_of_eq (ih hold) name v
      · exact ih hold

theorem Built.nodup_names (h : Built edits s) (hsc : s.scopes[i]? = some sc) : sc.names.Nodup := by
  rw [h.names_eq hsc]
  exact nodup_eraseDups _

end Names

section Nesting

/-- Scopes inside one another; the outermost one binds a name. -/
def nesting : Nat → List Edit
  | 0 => [.make none [("x", .integer 1)]]
  | k + 1 => nesting k ++ [.enclose k]

def nest (k : Nat) : Store := (nesting k).foldl edit empty

variable {k : Nat}

theorem nest_succ (k : Nat) : nest (k + 1) = ((nest k).add (some k) []).2 := by
  rw [nest, nesting, List.foldl_append]
  rfl

theorem size_nest (k : Nat) : (nest k).size = k + 1 := by
  induction k with
  | zero => rfl
  | succ k ih => rw [nest_succ, size_add, ih]

theorem built_nest (k : Nat) : Built (nesting k) (nest k) := by
  induction k with
  | zero => exact Built.empty.step _ (by decide)
  | succ k ih =>
    rw [nest_succ]
    refine ih.step (.enclose k) ⟨?_, List.nodup_nil⟩
    intro p hp
    rw [← Option.some.inj hp, size_nest]
    exact Nat.lt_succ_self k

theorem getElem?_nest_zero (k : Nat) :
    (nest k).scopes[0]? = some ⟨none, [("x", .integer 1)]⟩ := by
  induction k with
  | zero => rfl
  | succ k ih =>
    rw [nest_succ, getElem?_add, size_nest, if_neg (Nat.succ_ne_zero k).symm]
    exact ih

theorem getElem?_nest_succ (hj : j < k) : (nest k).scopes[j + 1]? = some ⟨some j, []⟩ := by
  induction k with
  | zero => exact absurd hj (Nat.not_lt_zero j)
  | succ k ih =>
    rw [nest_succ, getElem?_add, size_nest]
    split
    · next heq => rw [Nat.succ.inj heq]
    · next hne => exact ih (Nat.lt_of_le_of_ne (Nat.le_of_lt_succ hj) fun heq => hne (heq ▸ rfl))

theorem all_nest {P : Value → Prop} (h : P (.integer 1)) (k : Nat) : (nest k).All P := by
  induction k with
  | zero =>
    intro sc hsc b hb
    cases List.mem_singleton.mp (Array.mem_toList_iff.mpr hsc)
    rw [List.mem_singleton.mp hb]
    exact h
  | succ k ih =>
    rw [nest_succ]
    exact ih.add (fun _ hb => absurd hb List.not_mem_nil) (some k)

theorem length_chain_nest (hj : j ≤ k) : ((nest k).chain j).length = j + 1 := by
  have hnested := (built_nest k).nested
  induction j with
  | zero =>
    rw [hnested.length_chain (getElem?_nest_zero k)]
    rfl
  | succ j ih =>
    rw [hnested.length_chain (getElem?_nest_succ hj)]
    exact congrArg (· + 1) (ih (Nat.le_of_succ_le hj))

theorem find?_nest (hj : j ≤ k) : (nest k).find? "x" j = some (.integer 1) := by
  have hnested := (built_nest k).nested
  induction j with
  | zero =>
    rw [hnested.find?_eq (getElem?_nest_zero k)]
    rfl
  | succ j ih =>
    rw [hnested.find?_eq (getElem?_nest_succ hj)]
    exact ih (Nat.le_of_succ_le hj)

/-- No depth is enough for every chain of scopes. -/
theorem lookup?_nest {d : Nat} (hd : d ≤ j) (hj : j ≤ k) :
    (nest k).lookup? "x" d j = .error .tooDeep := by
  induction j generalizing d with
  | zero =>
    rw [Nat.le_zero.mp hd]
    exact lookup?_zero (getElem?_nest_zero k) "x"
  | succ j ih =>
    have hsc := getElem?_nest_succ hj
    cases d with
    | zero => exact lookup?_zero hsc "x"
    | succ d =>
      rw [(built_nest k).nested.lookup?_of_unbound hsc rfl]
      exact ih (Nat.le_of_succ_le_succ hd) (Nat.le_of_succ_le hj)

end Nesting

end Store

end Monkey
