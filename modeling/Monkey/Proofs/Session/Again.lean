import Monkey.Proofs.Evaluation.Renamed
import Monkey.Proofs.Session.Closed
import Monkey.Proofs.Session.Deeper

/-!
# Applying a function again

A function that reads no line gives the same answer to the same arguments when it is applied again.
The second application finds more scopes than the first one, and opens scopes with other numbers; in
every session that can be reached nothing else depends on these numbers.
-/

namespace Monkey.Session

set_option autoImplicit false

/-- Values of the same type with the same text, or the same failure. -/
inductive SameAnswer : Except Failure Value → Except Failure Value → Prop where
  | value {v w : Value} : v.tag = w.tag → v.text? = w.text? → SameAnswer (.ok v) (.ok w)
  | failure (f : Failure) : SameAnswer (.error f) (.error f)

theorem lift_answers {C : Comparison} {run : Run Value} {m n : Machine}
    (h : C.Meets C.Alike (run m) (run n)) (s : Session) :
    SameAnswer (({ s with machine := m } : Session).lift run).1
        (({ s with machine := n } : Session).lift run).1 ∧
      C.holds (run.after m) (run.after n) := by
  unfold lift Run.after
  dsimp only
  revert h
  generalize run m = x
  generalize run n = y
  intro h
  cases h with
  | ok hmn hv => exact ⟨.value hv.tag hv.text?, hmn⟩
  | error f hmn => exact ⟨.failure f, hmn⟩

/-- A value that is applied to arguments without asking for a line gives the same answer when it is
applied to them again, and writes the same lines. -/
theorem apply_again {s : Session} (hs : s.Reachable) {f : Value} {args : List Value}
    (hf : s.Has f) (hargs : ∀ a ∈ args, s.Has a)
    (hprompts : (s.apply f args).2.machine.console.prompts = s.machine.console.prompts) :
    SameAnswer (s.apply f args).1 ((s.apply f args).2.apply f args).1 ∧
      ∃ out, (s.apply f args).2.machine.console.lines = s.machine.console.lines ++ out ∧
        ((s.apply f args).2.apply f args).2.machine.console.lines =
          (s.apply f args).2.machine.console.lines ++ out := by
  have hforward := ((Run.deeper s.debug (Nat.le_refl s.depth)).apply f args).forward
  have hpending := (lift_leads hforward s).pending_eq hprompts
  have hstore := Run.apply_isPrefix s.debug s.depth s.machine f args
  have hsecond : (s.apply f args).2 =
      { s with machine := (Run.apply s.debug s.depth f args).after s.machine } := lift_snd _ s
  rw [lift_machine] at hpending
  -- the second application finds the same lines to read, and the scopes of the first one behind
  have hmeets := Comparison.grown_apply s.debug s.depth hs.closed.store hf hargs hstore
    hpending.symm
  obtain ⟨hanswer, -, hconsole⟩ := lift_answers hmeets s
  rw [hsecond]
  refine ⟨hanswer, ?_⟩
  rw [apply, lift_machine]
  exact hconsole.lines

/-- A function that makes a closure, applies it and returns it. -/
def maker : Value :=
  .function ["n"] [.binding "g" (.function [] [.expression (.name "n")]),
    .expression (.call (.name "println") [.call (.name "g") []]), .ret (.name "g")] 0

theorem apply_again_maker :
    SameAnswer ((start false 30 []).apply maker [.integer 3]).1
        (((start false 30 []).apply maker [.integer 3]).2.apply maker [.integer 3]).1 ∧
      (((start false 30 []).apply maker [.integer 3]).2.apply maker
        [.integer 3]).2.machine.console.lines = ["3", "3"] := by
  have hmaker : (start false 30 []).Has maker := by decide
  have hargs : ∀ a ∈ [Value.integer 3], (start false 30 []).Has a := by decide
  obtain ⟨hanswer, out, hfirst, hsecond⟩ :=
    apply_again (.start false 30 []) hmaker hargs (by decide +kernel)
  refine ⟨hanswer, ?_⟩
  have hout : out = ["3"] := by
    rw [← List.nil_append out]
    exact hfirst.symm.trans (by decide +kernel)
  rw [hsecond, hfirst, hout]
  rfl

end Monkey.Session
