import Monkey.Proofs.Evaluation.Unmentioned
import Monkey.Proofs.Session.Comparison

/-!
# A binding that nothing mentions

Whether a name is bound in the global scope, and to what, does not matter to a text in which the
name does not occur, if it occurs in no function of the session either.
-/

namespace Monkey.Session

set_option autoImplicit false

section Omitting

open Comparison (omitting)

variable {x : String} {s t : Session}

theorem omitting_bind (h : s.machine.store.All fun w => x ∉ w.names) (v : Value) :
    (omitting x).Sessions s (s.bind x v) where
  machine := ⟨(Store.without_set_self s.machine.store s.globalScope v).symm, h.without, rfl⟩
  globalScope := rfl
  debug := rfl
  depth := rfl

theorem bindings_of_omitting (h : (omitting x).Sessions s t) :
    t.bindings.without x = s.bindings.without x := by
  rw [bindings, bindings, ← Store.visible_without, ← Store.visible_without, h.machine.1,
    h.globalScope]

theorem lookup?_of_omitting (h : (omitting x).Sessions s t) {y : String} (hy : y ≠ x) :
    t.lookup? y = s.lookup? y := by
  rw [lookup?, lookup?, ← Store.lookup?_without hy s.machine.store,
    ← Store.lookup?_without hy t.machine.store, h.machine.1, h.globalScope, h.depth]

/-- A text in which a name does not occur, in a session with no function in which it occurs, is run
in the same way when the name is bound to whatever value: it ends in the same way and does the same
on the console, and every other global name has the same value afterwards. -/
theorem run_unmentioned (hs : s.machine.store.All fun w => x ∉ w.names) (text file : String)
    (hp : x ∉ (Reader.readText s.depth text file).program.names) (v : Value) :
    ((s.bind x v).run text file).1 = (s.run text file).1 ∧
      ((s.bind x v).run text file).2.machine.console = (s.run text file).2.machine.console ∧
      ((s.bind x v).run text file).2.bindings.without x =
        (s.run text file).2.bindings.without x ∧
      ∀ y ≠ x, ((s.bind x v).run text file).2.lookup? y = (s.run text file).2.lookup? y := by
  obtain ⟨hresults, hsessions⟩ := (omitting_bind hs v).run (Comparison.omitting_lawful x s.debug)
    (fun _ => Comparison.omitting_event _) (Statement.notMem_names hp)
  exact ⟨(hresults.eq fun _ _ hij => hij).symm, hsessions.machine.2.2.symm,
    bindings_of_omitting hsessions, fun y hy => lookup?_of_omitting hsessions hy⟩

end Omitting

def asking : Session :=
  ((start false 30 ["4"]).run
    "let f = fn(a) \x7b fn(b) \x7b println(a + input(b)) \x7d \x7d; let g = f(1)" "").2

/-- The name of a built-in function that the session does not use, bound to a function that would
stand in a scope that there is not. -/
theorem run_unmentioned_len :
    ((asking.bind "len" (.function ["len"] [.ret (.name "g")] 99)).run "let h = g; h(\"? \")"
      "").2.machine.console.lines = ["5"] := by
  have hs : asking.machine.store.All fun w => "len" ∉ w.names := by
    unfold Store.All
    decide +kernel
  obtain ⟨-, hconsole, -⟩ := run_unmentioned hs "let h = g; h(\"? \")" "" (by decide +kernel)
    (.function ["len"] [.ret (.name "g")] 99)
  rw [hconsole]
  decide +kernel

end Monkey.Session
