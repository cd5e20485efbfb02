import Monkey.Proofs.Evaluation.Among
import Monkey.Proofs.Evaluation.Known
import Monkey.Proofs.Evaluation.Occurring
import Monkey.Proofs.Grammar.Shown
import Monkey.Proofs.Session.InRange

/-!
# Functions of a session

Only what was read is evaluated, so the functions that a session makes are functions that can be
written, and their texts are read back as what they are.
-/

namespace Monkey

set_option autoImplicit false

namespace Value

def WellFormed : Value → Prop
  | function ps body _ => (Expression.function ps body).WellFormed
  | _ => True

/-- The text of a function is read as a program of this function only, by every reader that may go
deep enough. -/
def ReadsBack : Value → Prop
  | function ps body scope => ∃ text, (function ps body scope).text? = some text ∧
    ∀ file depth, 2 * text.length + 1 ≤ depth →
      Reader.readText depth text file = ⟨[.expression (.function ps body)], [], none⟩
  | _ => True

theorem WellFormed.readsBack {v : Value} (h : v.WellFormed) : v.ReadsBack := by
  cases v with
  | function ps body scope =>
    obtain ⟨text, ht⟩ : ∃ text, (function ps body scope).text? = some text := ⟨_, rfl⟩
    exact ⟨text, ht, fun file _ hd => Grammar.readText_text? h ht file hd⟩
  | _ => trivial

theorem wellFormed_inherited : Inherited Trees.wellFormed WellFormed where
  common := ⟨fun _ => trivial, fun _ => trivial, fun _ => trivial, trivial⟩
  builtin _ := trivial
  length _ := trivial
  integer _ := trivial
  function h _ := h
  body h := by
    cases h with
    | function _ hbody => exact hbody

end Value

namespace Session

variable {s : Session}

theorem shows_program (s : Session) (m : Machine) (text file : String) :
    (Contract.among Value.WellFormed).Shows Value.WellFormed m
      (Watched.program s.debug s.depth s.globalScope (Reader.readText s.depth text file).program)
      fun _ v => v.WellFormed :=
  (Contract.among_lawful Value.wellFormed_inherited).shows_program (fun _ _ hv => hv) s.debug s.depth
    trivial (Reader.readText_wellFormed s.depth text file)

theorem wellFormed_run (hs : s.machine.store.All Value.WellFormed) (text file : String) :
    (∀ v, (s.run text file).1 = .ok v → v.WellFormed) ∧
      (s.run text file).2.machine.store.All Value.WellFormed := by
  have hkeeps := fun records : List String =>
    (shows_program s (s.logged records).machine text file).keeps hs
  simp only [Watched.run_program] at hkeeps
  have hran := ran text file s
  revert hran
  generalize (s.run text file).1 = result
  generalize (s.run text file).2 = t
  intro hran
  cases hran with
  | tooDeep records => exact ⟨nofun, hs⟩
  | refused records _ => exact ⟨nofun, hs⟩
  | unreadable records _ => exact ⟨nofun, hs⟩
  | @ended records v m _ hr =>
    have hp := hkeeps records
    rw [hr] at hp
    refine ⟨fun w hw => ?_, hp.1⟩
    cases hw
    exact hp.2.2
  | @failed records f m _ hr =>
    have hp := hkeeps records
    rw [hr] at hp
    exact ⟨nofun, hp.1⟩

theorem wellFormed_watch (hs : s.machine.store.All Value.WellFormed) (step : Step) :
    ∀ o ∈ s.watch step, o.value.WellFormed := by
  cases step with
  | reset => exact fun _ ho => absurd ho List.not_mem_nil
  | run text file =>
    obtain ⟨records, hread | ⟨why, -, hread⟩⟩ := read_cases text file s
    · by_cases he : (Reader.readText s.depth text file).errors = []
      · rw [watch_run hread he]
        exact (shows_program s (s.logged records).machine text file).occurrences hs
      · rw [watch, hread]
        dsimp only
        rw [if_neg he]
        exact fun _ ho => absurd ho List.not_mem_nil
    · rw [watch, hread]
      exact fun _ ho => absurd ho List.not_mem_nil

theorem wellFormed_perform (hs : s.machine.store.All Value.WellFormed) (step : Step) :
    (s.perform step).machine.store.All Value.WellFormed := by
  cases step with
  | run text file => exact (wellFormed_run hs text file).2
  | reset => exact hs.add (fun _ hb => absurd hb List.not_mem_nil) none

theorem wellFormed_watchAll (hs : s.machine.store.All Value.WellFormed) (steps : List Step) :
    (∀ o ∈ s.watchAll steps, o.value.WellFormed) ∧
      (s.performAll steps).machine.store.All Value.WellFormed := by
  induction steps generalizing s with
  | nil => exact ⟨fun _ ho => absurd ho List.not_mem_nil, hs⟩
  | cons step steps ih =>
    obtain ⟨hrest, hlast⟩ := ih (wellFormed_perform hs step)
    refine ⟨fun o ho => ?_, hlast⟩
    rw [watchAll] at ho
    rcases List.mem_append.mp ho with ho | ho
    · exact wellFormed_watch hs step o ho
    · exact hrest o ho

/-- The text of every function that occurs in a session is read as that function, and so is the text
of every function that is bound in any scope after some steps, and of one that a text gives then. -/
theorem functions_read_back (debug : Bool) (depth : Nat) (input : List String) (steps : List Step)
    (text file : String) :
    (∀ o ∈ (start debug depth input).watchAll steps, o.value.ReadsBack) ∧
      ((start debug depth input).performAll steps).machine.store.All Value.ReadsBack ∧
      ∀ v, (((start debug depth input).performAll steps).run text file).1 = .ok v →
        v.ReadsBack := by
  have hstart : (start debug depth input).machine.store.All Value.WellFormed :=
    Store.All.add (fun _ hsc => absurd hsc (Array.not_mem_empty _))
      (fun _ hb => absurd hb List.not_mem_nil) none
  obtain ⟨hwatch, hstore⟩ := wellFormed_watchAll hstart steps
  refine ⟨fun o ho => (hwatch o ho).readsBack, ?_, ?_⟩
  · exact fun sc hsc b hb => (hstore sc hsc b hb).readsBack
  · exact fun v hv => ((wellFormed_run hstore text file).1 v hv).readsBack

end Session

end Monkey
