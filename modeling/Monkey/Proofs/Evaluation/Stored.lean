import Monkey.Proofs.Scope.Chain

/-!
# Stored values

What holds of every value in a store: binding a name, opening a scope and looking up a name keep it.
-/

namespace Monkey

set_option autoImplicit false

def Store.All (P : Value → Prop) (s : Store) : Prop := ∀ sc ∈ s.scopes, ∀ b ∈ sc.bindings, P b.2

variable {P : Value → Prop} {v : Value}

namespace Bindings

variable {bs cs : Bindings}

theorem all_insert (hbs : ∀ b ∈ bs, P b.2) (hv : P v) (name : String) :
    ∀ b ∈ bs.insert name v, P b.2 := by
  induction bs with
  | nil =>
    intro b hb
    rw [List.mem_singleton.mp hb]
    exact hv
  | cons p rest ih =>
    obtain ⟨n, w⟩ := p
    have hrest : ∀ b ∈ rest, P b.2 := fun b hb => hbs b (List.mem_cons_of_mem _ hb)
    rw [Bindings.insert]
    intro b hb
    split at hb
    · rcases List.mem_cons.mp hb with rfl | hb
      · exact hv
      · exact hrest b hb
    · rcases List.mem_cons.mp hb with rfl | hb
      · exact hbs _ List.mem_cons_self
      · exact ih hrest b hb

theorem all_merge (hbs : ∀ b ∈ bs, P b.2) (hcs : ∀ c ∈ cs, P c.2) :
    ∀ b ∈ bs.merge cs, P b.2 := by
  rw [Bindings.merge]
  induction cs generalizing bs with
  | nil => exact hbs
  | cons c cs ih =>
    apply ih (all_insert hbs (hcs c List.mem_cons_self) c.1)
    intro d hd
    exact hcs d (List.mem_cons_of_mem c hd)

theorem all_zip {ps : List String} {args : List Value} (hargs : ∀ a ∈ args, P a) :
    ∀ b ∈ merge [] (ps.zip args), P b.2 := by
  refine all_merge (P := P) (fun _ hb => absurd hb List.not_mem_nil) ?_
  intro c hc
  exact hargs c.2 (List.of_mem_zip hc).2

theorem of_lookup {name : String} (hbs : ∀ b ∈ bs, P b.2) (h : bs.lookup name = some v) : P v := by
  induction bs with
  | nil => exact absurd h (by simp)
  | cons p rest ih =>
    obtain ⟨n, w⟩ := p
    rw [Bindings.lookup_cons] at h
    split at h
    · cases h
      exact hbs _ List.mem_cons_self
    · exact ih (fun b hb => hbs b (List.mem_cons_of_mem _ hb)) h

end Bindings

namespace Store

variable {s : Store}

theorem All.set (h : s.All P) (hv : P v) (i : Nat) (name : String) : (s.set i name v).All P := by
  intro sc hsc b hb
  obtain ⟨j, hj⟩ := Array.mem_iff_getElem?.mp hsc
  rw [Store.set, Array.getElem?_modify] at hj
  split at hj
  · obtain ⟨old, hold, rfl⟩ := Option.map_eq_some_iff.mp hj
    exact Bindings.all_insert (h old (Array.mem_of_getElem? hold)) hv name b hb
  · exact h sc (Array.mem_of_getElem? hj) b hb

theorem All.add (h : s.All P) {bs : Bindings} (hbs : ∀ b ∈ bs, P b.2) (parent : Option Nat) :
    (s.add parent bs).2.All P := by
  intro sc hsc
  rw [Store.add] at hsc
  rcases Array.mem_push.mp hsc with hsc | rfl
  · exact h sc hsc
  · exact hbs

/-- Every value that the scope or a scope around it binds satisfies `P`. -/
def AllAround (P : Value → Prop) (s : Store) (i : Nat) : Prop :=
  ∀ sc ∈ s.chain i, ∀ b ∈ sc.bindings, P b.2

/-- What is around a scope is the scope itself and what is around its parent. -/
theorem allAround_iff {i : Nat} : s.AllAround P i ↔ ∀ sc, s.scopes[i]? = some sc →
    (∀ b ∈ sc.bindings, P b.2) ∧ ∀ p, sc.parent = some p → p < i → s.AllAround P p := by
  unfold AllAround
  rw [chain]
  cases hsc : s.scopes[i]? with
  | none => simp
  | some sc =>
    cases hp : sc.parent with
    | none => simp [hp]
    | some p => by_cases hlt : p < i <;> simp [hp, hlt]

theorem AllAround.set {i : Nat} (h : s.AllAround P i) (hv : P v) (j : Nat) (name : String) :
    (s.set j name v).AllAround P i := by
  induction i using Nat.strongRecOn with
  | _ i ih =>
    rw [allAround_iff] at h ⊢
    intro sc hsc
    rw [Store.set, Array.getElem?_modify] at hsc
    split at hsc
    · obtain ⟨old, hold, rfl⟩ := Option.map_eq_some_iff.mp hsc
      obtain ⟨hbindings, haround⟩ := h old hold
      exact ⟨Bindings.all_insert hbindings hv name, fun p hp hlt => ih p hlt (haround p hp hlt)⟩
    · obtain ⟨hbindings, haround⟩ := h sc hsc
      exact ⟨hbindings, fun p hp hlt => ih p hlt (haround p hp hlt)⟩

theorem AllAround.find? {name : String} {i : Nat} (h : s.AllAround P i)
    (hv : s.find? name i = some v) : P v := by
  rw [Store.find?] at hv
  obtain ⟨sc, hsc, hlookup⟩ := List.exists_of_findSome?_eq_some hv
  exact Bindings.of_lookup (h sc hsc) hlookup

theorem All.allAround (h : s.All P) (i : Nat) : s.AllAround P i :=
  fun sc hsc => h sc (mem_scopes_of_mem_chain hsc)

theorem All.find? (h : s.All P) {name : String} {i : Nat} (hv : s.find? name i = some v) : P v :=
  (h.allAround i).find? hv

end Store

end Monkey
