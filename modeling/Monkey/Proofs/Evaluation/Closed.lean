import Monkey.Proofs.Evaluation.Frame
import Monkey.Proofs.Evaluation.Given

/-!
# Closed stores

A store is closed if every scope that is mentioned in it is one of its scopes: an older one around a
scope, or any one in a function. Evaluation keeps a store closed, and gives no value that mentions
any other scope.
-/

namespace Monkey

set_option autoImplicit false

/-- The scope of a function is one of the first `n`. -/
def Value.Within (n : Nat) : Value → Prop
  | function _ _ scope => scope < n
  | _ => True

theorem Value.Within.mono {n k : Nat} {v : Value} (h : v.Within n) (hk : n ≤ k) : v.Within k := by
  cases v with
  | function ps body scope => exact Nat.lt_of_lt_of_le h hk
  | _ => trivial

instance (n : Nat) (v : Value) : Decidable (v.Within n) :=
  match v with
  | .function _ _ scope => inferInstanceAs (Decidable (scope < n))
  | .integer _ => .isTrue trivial
  | .boolean _ => .isTrue trivial
  | .string _ => .isTrue trivial
  | .builtin _ => .isTrue trivial
  | .null => .isTrue trivial
  | .foreign _ => .isTrue trivial
  | .missing => .isTrue trivial

theorem Value.within_common (n : Nat) : Value.Common (Value.Within n) where
  integer _ := trivial
  boolean _ := trivial
  string _ := trivial
  null := trivial

def Store.size (s : Store) : Nat := s.scopes.size

/-- Every scope is inside an older one, if it is inside of any, and every function has a scope. -/
structure Store.Closed (s : Store) : Prop where
  older : ∀ {i : Nat} {sc : Scope}, s.scopes[i]? = some sc → ∀ p ∈ sc.parent, p < i
  values : s.All (Value.Within s.size)

namespace Store

variable {s : Store}

theorem size_set (s : Store) (i : Nat) (name : String) (v : Value) :
    (s.set i name v).size = s.size :=
  Array.size_modify

theorem size_add (s : Store) (parent : Option Nat) (bs : Bindings) :
    (s.add parent bs).2.size = s.size + 1 :=
  Array.size_push _

theorem closed_empty : empty.Closed :=
  ⟨fun hsc => absurd (Array.mem_of_getElem? hsc) (Array.not_mem_empty _),
    fun sc hsc => absurd hsc (Array.not_mem_empty sc)⟩

theorem Closed.set (h : s.Closed) (i : Nat) (name : String) {v : Value} (hv : v.Within s.size) :
    (s.set i name v).Closed := by
  constructor
  · intro j sc hj
    rw [Store.set, Array.getElem?_modify] at hj
    split at hj
    · obtain ⟨old, hold, rfl⟩ := Option.map_eq_some_iff.mp hj
      have holder : ∀ p ∈ old.parent, p < j := h.older hold
      exact holder
    · exact h.older hj
  · rw [size_set]
    exact h.values.set hv i name

theorem Closed.add (h : s.Closed) {parent : Option Nat} (hp : ∀ p ∈ parent, p < s.size)
    {bs : Bindings} (hbs : ∀ b ∈ bs, b.2.Within s.size) : (s.add parent bs).2.Closed := by
  have hle : s.size ≤ s.size + 1 := Nat.le_succ _
  constructor
  · intro j sc hj
    rw [Store.add, Array.getElem?_push] at hj
    split at hj
    · next hlast =>
      cases hj
      exact hlast ▸ hp
    · exact h.older hj
  · rw [size_add]
    have hvalues : s.All (Value.Within (s.size + 1)) := fun sc hsc b hb =>
      (h.values sc hsc b hb).mono hle
    exact hvalues.add (fun b hb => (hbs b hb).mono hle) parent

theorem Closed.add_outermost (h : s.Closed) : (s.add none []).2.Closed :=
  h.add (fun _ hp => by cases hp) fun _ hb => absurd hb List.not_mem_nil

end Store

def Contract.closed : Contract where
  holds m := m.store.Closed
  later m n := m.store.size ≤ n.store.size
  value m v := v.Within m.store.size
  scope m i := i < m.store.size
  failure _ := True
  refl _ := Nat.le_refl _
  trans := Nat.le_trans
  value_later hn hv := hv.mono hn
  scope_later hn hi := Nat.lt_of_lt_of_le hi hn

namespace Contract

variable {α : Type} {m : Machine} {run : Run α}

theorem closed_keeps_of_still (h : run.Still) {Q : Machine → α → Prop}
    (hq : m.store.Closed → ∀ a n, run m = .ok a n → n.store = m.store → Q n a) :
    closed.Keeps m run Q := by
  refine keeps_of_still h ?_ (fun _ => trivial) hq
  intro n hn hm
  change n.store.Closed ∧ m.store.size ≤ n.store.size
  rw [hn]
  exact ⟨hm, Nat.le_refl _⟩

/-- A step that leaves the store as it is and gives no function. -/
theorem closed_keeps_of_gives {run : Run Value} (h : run.Still)
    (hq : run.Gives (Value.Within 0)) : closed.Keeps m run closed.value :=
  closed_keeps_of_still h fun _ a n hr _ => (hq m a n hr).mono (Nat.zero_le _)

theorem closed_lawful : closed.Lawful Trees.all where
  tooDeep := trivial
  marked _ := trivial
  null _ := trivial
  integer _ _ _ := trivial
  boolean _ _ := trivial
  string _ _ _ := trivial
  function _ _ _ _ _ hscope := hscope
  body _ _ _ _ _ _ _ := trivial
  noExpression _ := trivial
  noStatement _ := trivial
  note _ debug text := closed_keeps_of_still (Run.still_note debug text) fun _ _ _ _ _ => trivial
  bindName := by
    intro m scope v _ hv name hm
    refine ⟨Store.Closed.set hm scope name hv, ?_, trivial⟩
    exact Nat.le_of_eq (Store.size_set m.store scope name v).symm
  resolve := by
    intro m scope _ d _ name
    apply closed_keeps_of_still (Run.idle_resolve d scope name).still
    intro hm v n hr hstore
    change v.Within n.store.size
    rw [hstore]
    exact Run.of_resolve hm.values (fun _ => trivial) hr
  enter := by
    intro m ps body scope args hf hargs
    rw [Run.enter]
    split
    · intro hm
      have hclosed : (m.store.add (some scope) (Bindings.merge [] (ps.zip args))).2.Closed :=
        Store.Closed.add hm (fun p hp => by cases hp; exact hf) (Bindings.all_zip hargs)
      have hsize := Store.size_add m.store (some scope) (Bindings.merge [] (ps.zip args))
      refine ⟨hclosed, ?_, ?_⟩
      · change m.store.size ≤ (m.store.add _ _).2.size
        omega
      · change m.store.size < (m.store.add _ _).2.size
        omega
    · exact keeps_stop trivial
  truth _ := closed_keeps_of_still (Run.idle_truth _).still fun _ _ _ _ _ => trivial
  unary _ d op := closed_keeps_of_gives (Run.idle_unary d op _).still
    (Run.gives_unary (Value.within_common 0) d op _)
  binary _ _ d op := closed_keeps_of_gives (Run.idle_binary d op _ _).still
    (Run.gives_binary (Value.within_common 0) d op _ _)
  builtin _ d b := closed_keeps_of_gives (Run.still_builtin d b _)
    (Run.gives_builtin (Value.within_common 0) (fun _ _ => trivial) d b)
  notAFunction _ d := closed_keeps_of_gives (Run.idle_notAFunction d _).still
    (Run.gives_notAFunction d _)

end Contract

end Monkey
