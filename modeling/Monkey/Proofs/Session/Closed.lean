import Monkey.Proofs.Evaluation.Closed
import Monkey.Proofs.Session.Basic

/-!
# Sessions that can be reached

From its start on, a session goes on by texts and resets, by binding values that it has, and by
evaluating trees and applying values in any of its scopes. Its store stays closed.
-/

namespace Monkey.Session

set_option autoImplicit false

def apply (f : Value) (args : List Value) (s : Session) : Except Failure Value × Session :=
  s.lift (Run.apply s.debug s.depth f args)

/-- A value of the session: its scope, if it has one, is a scope of the session. -/
def Has (s : Session) (v : Value) : Prop := v.Within s.machine.store.size

instance (s : Session) (v : Value) : Decidable (s.Has v) :=
  inferInstanceAs (Decidable (v.Within s.machine.store.size))

/-- The sessions that a start leads to by steps, by binding values, and by evaluating trees and
applying values in any scope. -/
inductive Reachable : Session → Prop where
  | start (debug : Bool) (depth : Nat) (input : List String) : Reachable (start debug depth input)
  | perform {s : Session} (step : Step) : Reachable s → Reachable (s.perform step)
  | evaluate {s : Session} {scope : Nat} (node : Node) : scope < s.machine.store.size →
    Reachable s → Reachable (s.lift (Run.node s.debug s.depth scope node)).2
  | bind {s : Session} {v : Value} (name : String) : s.Has v → Reachable s →
    Reachable (s.bind name v)
  | apply {s : Session} {f : Value} {args : List Value} : s.Has f → (∀ a ∈ args, s.Has a) →
    Reachable s → Reachable (s.apply f args).2

/-- The store is closed, and the global scope is one of its scopes. -/
structure Closed (s : Session) : Prop where
  store : s.machine.store.Closed
  globalScope : s.globalScope < s.machine.store.size

section Closed

variable {α : Type} {s : Session}

theorem closed_start (debug : Bool) (depth : Nat) (input : List String) :
    (start debug depth input).Closed :=
  ⟨Store.closed_empty.add_outermost, Nat.one_pos⟩

theorem Closed.reset (h : s.Closed) : s.reset.Closed := by
  refine ⟨h.store.add_outermost, ?_⟩
  change s.machine.store.size < (s.machine.store.add none []).2.size
  rw [Store.size_add]
  exact Nat.lt_succ_self _

theorem Closed.bind (h : s.Closed) {v : Value} (hv : s.Has v) (name : String) :
    (s.bind name v).Closed := by
  refine ⟨h.store.set s.globalScope name hv, ?_⟩
  change s.globalScope < (s.machine.store.set s.globalScope name v).size
  rw [Store.size_set]
  exact h.globalScope

theorem Closed.lift {run : Run α} {Q : Machine → α → Prop} (h : s.Closed)
    (hrun : Contract.closed.Keeps s.machine run Q) : (s.lift run).2.Closed := by
  obtain ⟨hstore, hsize⟩ := hrun.at_end h.store
  rw [lift_snd]
  exact ⟨hstore, Nat.lt_of_lt_of_le h.globalScope hsize⟩

theorem Closed.evaluate (h : s.Closed) {scope : Nat} (hscope : scope < s.machine.store.size)
    (node : Node) : (s.lift (Run.node s.debug s.depth scope node)).2.Closed :=
  h.lift (Contract.closed_lawful.node s.debug s.depth hscope (Trees.node_all node)
    fun _ => trivial)

theorem Closed.apply (h : s.Closed) {f : Value} {args : List Value} (hf : s.Has f)
    (hargs : ∀ a ∈ args, s.Has a) : (s.apply f args).2.Closed :=
  h.lift ((Contract.closed_lawful.kept s.debug s.depth).apply hf hargs (.inl trivial))

theorem Closed.run (h : s.Closed) (text file : String) : (s.run text file).2.Closed := by
  refine run_of_read ?_ fun _ p ht => ht.evaluate ht.globalScope (.program p)
  rw [read_eq]
  exact ⟨h.store, h.globalScope⟩

theorem Reachable.closed (h : s.Reachable) : s.Closed := by
  induction h with
  | start debug depth input => exact closed_start debug depth input
  | perform step _ ih =>
    cases step with
    | run text file => exact ih.run text file
    | reset => exact ih.reset
  | evaluate node hscope _ ih => exact ih.evaluate hscope node
  | bind name hv _ ih => exact ih.bind hv name
  | apply hf hargs _ ih => exact ih.apply hf hargs

end Closed

end Monkey.Session
