import Monkey.Proofs.Evaluation.InRange
import Monkey.Proofs.Reader.WellFormed
import Monkey.Proofs.Session.Basic

/-!
# Sessions and integers of 64 bits

What occurs in a session is what occurs in the programs that it evaluates. As long as the length of
every string is an integer of 64 bits, so is every integer.
-/

namespace Monkey.Session

set_option autoImplicit false

def watch (s : Session) : Step → List Occurrence
  | .run text file =>
    match s.read text file with
    | (.ok r, t) =>
      if r.errors = [] then
        (Watched.program t.debug t.depth t.globalScope r.program).occurrences t.machine
      else []
    | (.error _, _) => []
  | .reset => []

def watchAll (s : Session) : List Step → List Occurrence
  | [] => []
  | step :: steps => s.watch step ++ (s.perform step).watchAll steps

section Sound

variable {s t : Session} {text file : String} {r : Reader.Reading}

theorem run_machine (hread : s.read text file = (.ok r, t)) (he : r.errors = []) :
    (s.run text file).2.machine =
      (Run.program t.debug t.depth t.globalScope r.program).after t.machine := by
  rw [run_eq hread he]
  unfold Run.after
  cases Run.program t.debug t.depth t.globalScope r.program t.machine <;> rfl

theorem watch_run (hread : s.read text file = (.ok r, t)) (he : r.errors = []) :
    s.watch (.run text file) =
      (Watched.program t.debug t.depth t.globalScope r.program).occurrences t.machine := by
  rw [watch, hread]
  exact if_pos he

theorem perform_sound (hs : s.machine.store.All Value.Sound) {step : Step}
    (hcount : ∀ o ∈ s.watch step, o.value.Countable) :
    (∀ o ∈ s.watch step, o.value.InRange) ∧ (s.perform step).machine.store.All Value.Sound := by
  cases step with
  | reset =>
    refine ⟨fun _ ho => absurd ho List.not_mem_nil, ?_⟩
    exact hs.add (fun _ hb => absurd hb List.not_mem_nil) none
  | run text file =>
    obtain ⟨records, hread | ⟨why, -, hread⟩⟩ := read_cases text file s
    · by_cases he : (Reader.readText s.depth text file).errors = []
      · have hwell := Reader.readText_wellFormed s.depth text file
        rw [watch_run hread he] at hcount ⊢
        have hbounded := Watched.bounded_program s.debug s.depth s.globalScope hwell
          (s.logged records).machine hs hcount
        rw [Watched.run_program] at hbounded
        refine ⟨hbounded.1, ?_⟩
        rw [perform, run_machine hread he]
        exact hbounded.2.1
      · rw [watch, perform, run, hread]
        dsimp only
        rw [if_neg he, if_neg he]
        exact ⟨fun _ ho => absurd ho List.not_mem_nil, hs⟩
    · rw [watch, perform, run, hread]
      exact ⟨fun _ ho => absurd ho List.not_mem_nil, hs⟩

theorem performAll_sound (hs : s.machine.store.All Value.Sound) {steps : List Step}
    (hcount : ∀ o ∈ s.watchAll steps, o.value.Countable) :
    (∀ o ∈ s.watchAll steps, o.value.InRange) ∧
      (s.performAll steps).machine.store.All Value.Sound := by
  induction steps generalizing s with
  | nil => exact ⟨fun _ ho => absurd ho List.not_mem_nil, hs⟩
  | cons step steps ih =>
    rw [watchAll] at hcount ⊢
    obtain ⟨hrange, hstore⟩ := perform_sound hs fun o ho => hcount o (List.mem_append_left _ ho)
    obtain ⟨hranges, hlast⟩ := ih hstore fun o ho => hcount o (List.mem_append_right _ ho)
    refine ⟨?_, hlast⟩
    intro o ho
    rcases List.mem_append.mp ho with ho | ho
    · exact hrange o ho
    · exact hranges o ho

end Sound

theorem sound_start (debug : Bool) (depth : Nat) (input : List String) :
    (start debug depth input).machine.store.All Value.Sound := by
  intro sc hsc b hb
  have hsc : sc ∈ #[(⟨none, []⟩ : Scope)] := hsc
  rw [Array.mem_singleton.mp hsc] at hb
  exact absurd hb List.not_mem_nil

/-- In a session in which the length of every string that occurs is an integer of 64 bits, every
integer that occurs is one, and so is every integer that is bound in any scope in the end. -/
theorem integers_in_range (debug : Bool) (depth : Nat) (input : List String) (steps : List Step)
    (h : ∀ o ∈ (start debug depth input).watchAll steps, o.value.Countable) :
    (∀ o ∈ (start debug depth input).watchAll steps, o.value.InRange) ∧
      ((start debug depth input).performAll steps).machine.store.All Value.InRange := by
  obtain ⟨hrange, hstore⟩ := performAll_sound (sound_start debug depth input) h
  exact ⟨hrange, fun sc hsc b hb => (hstore sc hsc b hb).inRange⟩

/-- A length and a negative number in a closure, and a number that is read behind a reset. -/
theorem integers_in_range_closure :
    ((start false 30 ["abc", " 5"]).performAll
      [.run "let f = fn(x) \x7b fn(y) \x7b x + y \x7d \x7d; f(-1)(len(input(\"\")))" "",
        .reset, .run "println(-input(\"\"))" ""]).machine.store.All Value.InRange :=
  (integers_in_range false 30 ["abc", " 5"] _ (by decide +kernel)).2

end Monkey.Session
