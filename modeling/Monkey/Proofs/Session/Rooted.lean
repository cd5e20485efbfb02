import Monkey.Proofs.Evaluation.Renamed
import Monkey.Proofs.Evaluation.Rooted
import Monkey.Proofs.Session.Closed
import Monkey.Proofs.Session.Comparison

/-!
# What a session can still read

From the global scope a session reads what is bound there, and through the functions that are bound
there what is bound in their scopes and in the scopes around these. All of it stands below the
global scope. A reset opens a new one, so that nothing can be read any more that was bound before.
-/

namespace Monkey

set_option autoImplicit false

namespace Session

/-- The scopes that can be read from the global scope: those around them, and those of the functions
that are bound in them. -/
inductive Reaches (s : Session) : Nat → Prop where
  | globalScope : Reaches s s.globalScope
  | outward {i p : Nat} : Reaches s i → s.machine.store.Inside i p → Reaches s p
  | captured {i scope : Nat} {sc : Scope} {name : String} {ps : List String}
      {body : List Statement} : Reaches s i → s.machine.store.scopes[i]? = some sc →
      (name, .function ps body scope) ∈ sc.bindings → Reaches s scope

def Reads (s : Session) (v : Value) : Prop :=
  ∃ i sc name, s.Reaches i ∧ s.machine.store.scopes[i]? = some sc ∧ (name, v) ∈ sc.bindings

/-- Chains of scopes end, and all that can be read from the global scope stands below it. -/
structure Enclosed (s : Session) : Prop where
  chained : s.machine.store.Chained
  scopes : ∀ i, s.Reaches i → s.machine.store.Stems s.globalScope i
  values : ∀ v, s.Reads v → v.Stems s.machine.store s.globalScope

structure Rooted (s : Session) : Prop where
  store : s.machine.store.Rooted s.globalScope
  globalScope : s.machine.store.Stems s.globalScope s.globalScope

section Rooted

variable {s : Session}

theorem rooted_start (debug : Bool) (depth : Nat) (input : List String) :
    (start debug depth input).Rooted :=
  ⟨Store.closed_empty.add_root.1, Store.closed_empty.add_root.2⟩

theorem Rooted.reset (h : s.Rooted) : s.reset.Rooted :=
  ⟨h.store.closed.add_root.1, h.store.closed.add_root.2⟩

theorem Rooted.evaluate (h : s.Rooted) (p : Program) : (s.evaluate p).2.Rooted := by
  have hkeeps := (Contract.rooted_lawful s.globalScope).program s.debug s.depth
    h.globalScope (p := p) fun _ _ => trivial
  obtain ⟨hstore, hlater⟩ := hkeeps.at_end h.store
  rw [Session.evaluate, lift_snd]
  exact ⟨hstore, hlater s.globalScope h.globalScope⟩

theorem Rooted.run (h : s.Rooted) (text file : String) : (s.run text file).2.Rooted := by
  refine run_of_read ?_ fun _ p ht => ht.evaluate p
  rw [read_eq]
  exact ⟨h.store, h.globalScope⟩

theorem Rooted.performAll (h : s.Rooted) (steps : List Step) : (s.performAll steps).Rooted :=
  performAll_induction h (fun _ text file ht => ht.run text file) (fun _ ht => ht.reset) steps

theorem Rooted.stems (h : s.Rooted) {i : Nat} (hi : s.Reaches i) :
    s.machine.store.Stems s.globalScope i := by
  induction hi with
  | globalScope => exact h.globalScope
  | outward _ hinside ih => exact ih.of_inside hinside
  | captured _ hsc hb ih => exact h.store.values ih hsc _ hb

theorem Rooted.enclosed (h : s.Rooted) : s.Enclosed where
  chained := h.store.closed.chained
  scopes _ hi := h.stems hi
  values := by
    rintro v ⟨i, sc, name, hi, hsc, hb⟩
    exact h.store.values (h.stems hi) hsc (name, v) hb

/-- After a reset every scope that can be read is one that was opened since. -/
theorem Rooted.le_of_reaches (h : s.Rooted) (steps : List Step) {i : Nat}
    (hi : (s.reset.performAll steps).Reaches i) : s.machine.store.size ≤ i := by
  have hlater : (s.reset.performAll steps).Rooted ∧
      s.machine.store.size ≤ (s.reset.performAll steps).globalScope := by
    apply performAll_induction (P := fun t => t.Rooted ∧ s.machine.store.size ≤ t.globalScope)
    · exact ⟨h.reset, Nat.le_refl _⟩
    · rintro t text file ⟨ht, hle⟩
      refine ⟨ht.run text file, ?_⟩
      rw [run_globalScope]
      exact hle
    · rintro t ⟨ht, hle⟩
      exact ⟨ht.reset, Nat.le_trans hle (Nat.le_of_lt ht.globalScope.lt)⟩
  exact Nat.le_trans hlater.2 (hlater.1.store.closed.le_of_stems (hlater.1.stems hi))

end Rooted

/-- The session answers every text and knows every name as the other one does, under numbers of
scopes that are `k` greater. -/
def Follows (k : Nat) (s t : Session) : Prop :=
  (∀ text file, (t.run text file).1 = (s.run text file).1.map (Value.renamed (· + k))) ∧
    ∀ name, t.lookup? name = (s.lookup? name).map (Option.map (Value.renamed (· + k)))

section Fresh

open Comparison (renamed)

variable {ρ : Nat → Nat} {k : Nat} {c d : Console} {s t : Session}

theorem renamed_reset (hρ : StrictMono ρ) (h : (renamed ρ c d).Sessions s t) :
    (renamed ρ c d).Sessions s.reset t.reset where
  machine := ⟨h.machine.1.add hρ none [], h.machine.2⟩
  globalScope := (h.machine.1.next 0).symm
  debug := h.debug
  depth := h.depth

theorem renamed_run (hρ : StrictMono ρ) (hcd : c.pending = d.pending)
    (h : (renamed ρ c d).Sessions s t) (text file : String) :
    (renamed ρ c d).Results (s.run text file).1 (t.run text file).1 ∧
      (renamed ρ c d).Sessions (s.run text file).2 (t.run text file).2 :=
  h.run (Comparison.renamed_lawful hρ hcd s.debug)
    (fun _ => Comparison.renamed_event fun _ => rfl) fun _ _ => trivial

theorem renamed_performAll (hρ : StrictMono ρ) (hcd : c.pending = d.pending)
    (h : (renamed ρ c d).Sessions s t) (steps : List Step) :
    (renamed ρ c d).Sessions (s.performAll steps) (t.performAll steps) := by
  rw [performAll, performAll]
  induction steps generalizing s t with
  | nil => exact h
  | cons step steps ih =>
    apply ih
    cases step with
    | run text file => exact (renamed_run hρ hcd h text file).2
    | reset => exact renamed_reset hρ h

/-- After a reset a session is a new one, with the lines to read that are left; only the numbers of
its scopes are greater. -/
theorem renamed_start (s : Session) :
    (renamed (· + s.machine.store.size) (.ofLines s.machine.console.pending)
      s.machine.console).Sessions (start s.debug s.depth s.machine.console.pending) s.reset where
  machine := by
    refine ⟨⟨?_, ?_⟩, .refl _ _⟩
    · intro i
      change (s.machine.store.scopes.push ⟨none, []⟩)[i + s.machine.store.scopes.size]? =
        (#[⟨none, []⟩] : Array Scope)[i]?.map (Scope.renamed _)
      rw [Array.getElem?_push]
      cases i with
      | zero =>
        rw [Nat.zero_add, if_pos rfl]
        rfl
      | succ i =>
        rw [if_neg (by omega), Array.getElem?_eq_none (by omega)]
        rfl
    · intro k
      change 1 + k + s.machine.store.size = (s.machine.store.add none []).2.size + k
      rw [Store.size_add]
      omega
  globalScope := (Nat.zero_add _).symm
  debug := rfl
  depth := rfl

theorem follows_of_renamed (hρ : StrictMono (· + k)) (hcd : c.pending = d.pending)
    (h : (renamed (· + k) c d).Sessions s t) : Follows k s t := by
  constructor
  · intro text file
    exact (renamed_run hρ hcd h text file).1.eq_renamed fun _ _ hij => hij
  · intro name
    rw [lookup?, lookup?, h.globalScope, h.depth]
    exact h.machine.1.lookup? hρ name s.depth s.globalScope

end Fresh

/-- Nothing that was bound before a reset can be read after it and the steps that come then: no
scope is reached that was there, and the session goes on as a new one that has the lines to read
that are left. -/
structure Forgets (s : Session) (steps : List Step) : Prop where
  scopes : ∀ i, (s.reset.performAll steps).Reaches i → s.machine.store.size ≤ i
  follows : Follows s.machine.store.size
    ((start s.debug s.depth s.machine.console.pending).performAll steps) (s.reset.performAll steps)

theorem Rooted.forgets {s : Session} (h : s.Rooted) (steps : List Step) : s.Forgets steps where
  scopes _ hi := h.le_of_reaches steps hi
  follows := by
    have hρ : StrictMono (· + s.machine.store.size) := fun _ _ hij => Nat.add_lt_add_right hij _
    have hsessions := renamed_performAll hρ (by rfl) (renamed_start s) steps
    exact follows_of_renamed hρ (by rfl) hsessions

/-- However a session has come about by texts, failed ones among them, and resets: its chains of
scopes end, all that can be read from its global scope stands below that scope, and nothing of it
can be read any more after a reset. -/
theorem performAll_enclosed (debug : Bool) (depth : Nat) (input : List String)
    (steps : List Step) :
    ((start debug depth input).performAll steps).Enclosed ∧
      ∀ more, ((start debug depth input).performAll steps).Forgets more := by
  have hrooted := (rooted_start debug depth input).performAll steps
  exact ⟨hrooted.enclosed, hrooted.forgets⟩

end Session

end Monkey
