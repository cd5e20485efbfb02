import Monkey.Proofs.Evaluation.Known
import Monkey.Proofs.Reader.WellFormed
import Monkey.Proofs.Session.Basic

/-!
# Sessions among known values

What is read of a text is well-formed, so no step of a session makes a value of an unknown kind, and
a text that can be read fails only as a program can fail.
-/

namespace Monkey.Session

set_option autoImplicit false

def Expected : Except Fault Value → Prop
  | .ok v => v.Known
  | .error (.failed f) => f.Expected
  | .error (.unreadable _ _) => False

theorem known_start {input : List String}
    (h : ∀ line ∈ input, ¬ Text.Numeral.Overlong (Text.trim line).toList) (debug : Bool)
    (depth : Nat) : (start debug depth input).machine.Known := by
  constructor
  · intro sc hsc b hb
    have hsc : sc ∈ #[(⟨none, []⟩ : Scope)] := hsc
    rw [Array.mem_singleton.mp hsc] at hb
    exact absurd hb List.not_mem_nil
  · exact h

theorem known_logged {s : Session} (h : s.machine.Known) (records : List String) :
    (s.logged records).machine.Known := by
  constructor
  · exact h.store
  · intro line hline
    rw [logged_pending] at hline
    exact h.console line hline

theorem known_reset {s : Session} (h : s.machine.Known) : s.reset.machine.Known :=
  ⟨h.store.add (fun _ hb => absurd hb List.not_mem_nil) none, h.console⟩

theorem known_program (s : Session) (m : Machine) (text file : String) :
    Contract.known.Keeps m (Run.program s.debug s.depth s.globalScope
      (Reader.readText s.depth text file).program) Contract.known.value :=
  Contract.known_lawful.program s.debug s.depth trivial
    (Reader.readText_wellFormed s.depth text file)

theorem known_run {s : Session} (h : s.machine.Known) (text file : String) :
    (s.run text file).2.machine.Known ∧
      ((Reader.readText s.depth text file).errors = [] →
        (∀ e, (Reader.readText s.depth text file).refusal ≠ some (.numeral e)) →
        Expected (s.run text file).1) := by
  have hran := ran text file s
  revert hran
  generalize (s.run text file).1 = result
  generalize (s.run text file).2 = t
  intro hran
  cases hran with
  | tooDeep records => exact ⟨known_logged h records, fun _ _ => trivial⟩
  | @refused records why hwhy =>
    refine ⟨known_logged h records, fun _ hnumeral => ?_⟩
    cases why with
    | tooDeep => trivial
    | numeral e => exact absurd hwhy (hnumeral e)
  | unreadable records he => exact ⟨known_logged h records, fun hnil _ => absurd hnil he⟩
  | @ended records v m _ hr =>
    have hp := known_program s _ text file (known_logged h records)
    rw [hr] at hp
    exact ⟨hp.1, fun _ _ => hp.2.2⟩
  | @failed records f m _ hr =>
    have hp := known_program s _ text file (known_logged h records)
    rw [hr] at hp
    exact ⟨hp.1, fun _ _ => hp.2.2⟩

theorem known_performAll {input : List String}
    (h : ∀ line ∈ input, ¬ Text.Numeral.Overlong (Text.trim line).toList) (debug : Bool)
    (depth : Nat) (steps : List Step) :
    ((start debug depth input).performAll steps).machine.Known := by
  apply performAll_induction (P := fun s => s.machine.Known) (known_start h debug depth)
  · intro s text file hs
    exact (known_run hs text file).1
  · intro s hs
    exact known_reset hs

/-- After any steps of a session without numbers that are too long in its input, every value in
every scope is known, and a text without syntax errors has a known value, fails with an error that a
program can have, or goes too deep. -/
theorem no_internal_failure {input : List String}
    (h : ∀ line ∈ input, ¬ Text.Numeral.Overlong (Text.trim line).toList) (debug : Bool)
    (depth : Nat) (steps : List Step) (text file : String) :
    ((start debug depth input).performAll steps).machine.store.Known ∧
      ((Reader.readText depth text file).errors = [] →
        (∀ e, (Reader.readText depth text file).refusal ≠ some (.numeral e)) →
        Expected (((start debug depth input).performAll steps).run text file).1) := by
  have hknown := known_performAll h debug depth steps
  refine ⟨hknown.store, ?_⟩
  have hrun := (known_run hknown text file).2
  rw [performAll_depth] at hrun
  exact hrun

/-- A division by zero behind a reset and a number that is read. -/
theorem no_internal_failure_division :
    Expected (((start false 30 ["7"]).performAll
      [.run "let f = fn(x) \x7b x / 0 \x7d; f(true)" "", .reset]).run "input(\"?\") / 0" "").1 := by
  refine (no_internal_failure ?_ false 30 _ _ "").2 (by decide +kernel) ?_
  · intro line hline
    rw [List.mem_singleton.mp hline]
    rintro ⟨sign, ds, he, _, _, hlt⟩
    have hlen := congrArg List.length he
    rw [List.length_append, show (Text.trim "7").toList.length = 1 from rfl] at hlen
    have hmax : Text.Numeral.maxDigits = 4300 := rfl
    omega
  · have hnone : (Reader.readText 30 "input(\"?\") / 0" "").refusal = none := by decide +kernel
    intro e
    rw [hnone]
    simp

end Monkey.Session
