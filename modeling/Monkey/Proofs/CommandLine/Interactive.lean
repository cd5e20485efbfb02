import Monkey.CommandLine.Interactive
import Monkey.Proofs.Repl

/-!
# The rounds of the interactive mode

The interactive mode asks for lines and handles them, round after round. A line is the line of one
round, or it is read by a program while a line is handled; no line is left out, and none comes
twice. The rounds end with a line that says so or with the input, whatever became of the lines
before.
-/

namespace Monkey.CommandLine.Interactive

set_option autoImplicit false

open Repl (exitCommand IsCommand)
open Session (Says)

/-- One round: the line that was asked for, the lines that were read while it was handled, and the
session before and after that. -/
structure Round where
  line : String
  read : List String
  before : Session
  after : Session

def Round.lines (r : Round) : List String := r.line :: r.read

/-- The round begins in the session: its line is the first one that is left there, and is handled
where the bindings are still those of the session. -/
structure Round.From (s : Session) (r : Round) : Prop where
  asked : ask s = (some r.line, r.before)
  store : r.before.machine.store = s.machine.store
  globalScope : r.before.globalScope = s.globalScope
  handled : (handle r.line r.before).2 = r.after
  pending : r.before.machine.console.pending = r.read ++ r.after.machine.console.pending

/-- What a round does to the bindings. A command and a line with errors leave them alone and read no
line; a line that is run leaves them as its program does, whether that fails or not, and a failure
that nothing else reports is told. -/
structure Round.Sound (r : Round) : Prop where
  sameScope : r.after.globalScope = r.before.globalScope
  sameDepth : r.after.depth = r.before.depth
  exit : Text.trim r.line = exitCommand → r.before.Says r.after
  command : IsCommand r.line → r.before.Says r.after
  unreadable : (Reader.readText r.before.depth r.line "<input>").errors ≠ [] →
    r.before.Says r.after
  evaluated : Text.trim r.line ≠ exitCommand → ¬ IsCommand r.line →
    (r.before.run r.line "<input>").2.Says r.after
  failed : ∀ {f t}, Repl.handle r.line r.before = (.error f, t) →
    r.after = t.say ("Unexpected error: " ++ f.message)

/-- The rounds from one session to another one. They end where no line is left or with the line that
ends a session; after any other line the next round comes. -/
inductive Rounds : Session → List Round → Session → Prop where
  | ended {s : Session} : s.machine.console.pending = [] → Rounds s [] ((ask s).2.say farewell)
  | exit {s : Session} {r : Round} : r.From s → Text.trim r.line = exitCommand →
    Rounds s [r] r.after
  | next {s t : Session} {r : Round} {rs : List Round} : r.From s →
    Text.trim r.line ≠ exitCommand → Rounds r.after rs t → Rounds s (r :: rs) t

section Handle

variable (line : String) (s : Session)

theorem handle_snd : (Repl.handle line s).2.Says (handle line s).2 := by
  rw [handle]
  generalize Repl.handle line s = p
  obtain ⟨result, t⟩ := p
  cases result with
  | ok goesOn => exact .refl t
  | error f => exact Session.says_say t _

/-- Only the word that ends a session ends it, not any failure. -/
theorem handle_fst : (handle line s).1 = false ↔ Text.trim line = exitCommand := by
  rw [← Repl.ofLine_eq_exit_iff, handle, Repl.handle]
  cases hr : Repl.Request.ofLine line with
  | exit => exact iff_of_true rfl rfl
  | _ =>
    refine iff_of_false ?_ Repl.Request.noConfusion
    generalize Repl.perform _ s = p
    obtain ⟨result, t⟩ := p
    cases result <;> exact Bool.noConfusion

variable {line s}

theorem says_handle (h : ∀ text, Repl.Request.ofLine line ≠ .evaluate text) :
    s.Says (handle line s).2 := by
  have hperform := Repl.says_perform h s
  rw [← Repl.handle_snd] at hperform
  exact hperform.trans (handle_snd line s)

theorem run_says_handle (hexit : Text.trim line ≠ exitCommand) (h : ¬ IsCommand line) :
    (s.run line "<input>").2.Says (handle line s).2 := by
  have hevaluate := Repl.says_evaluate line s
  have hline : (Repl.handle line s).2 = (Repl.evaluate line s).2 := by
    rw [Repl.handle_snd, Repl.ofLine_of_not_isCommand hexit h]
    rfl
  rw [← hline] at hevaluate
  exact hevaluate.trans (handle_snd line s)

theorem says_handle_of_exit (h : Text.trim line = exitCommand) : s.Says (handle line s).2 := by
  apply says_handle
  rw [Repl.ofLine_eq_exit_iff.mpr h]
  exact fun _ => Repl.Request.noConfusion

theorem says_handle_of_isCommand (h : IsCommand line) : s.Says (handle line s).2 :=
  says_handle fun _ hline => Repl.not_isCommand_of_ofLine hline h

/-- Handling a line leaves the session as it is, or runs the line and leaves the session as that
does. -/
theorem says_or_run_says (line : String) (s : Session) :
    s.Says (handle line s).2 ∨ (s.run line "<input>").2.Says (handle line s).2 := by
  by_cases hexit : Text.trim line = exitCommand
  · exact .inl (says_handle_of_exit hexit)
  · by_cases hcommand : IsCommand line
    · exact .inl (says_handle_of_isCommand hcommand)
    · exact .inr (run_says_handle hexit hcommand)

/-- Only lines that come next are read while a line is handled. -/
theorem handle_pending_suffix (line : String) (s : Session) :
    (handle line s).2.machine.console.pending <:+ s.machine.console.pending := by
  rcases says_or_run_says line s with h | h
  · exact h.pending_suffix
  · exact h.pending_suffix.trans (Session.run_leads line "<input>" s).pending_suffix

theorem handle_globalScope (line : String) (s : Session) :
    (handle line s).2.globalScope = s.globalScope := by
  rcases says_or_run_says line s with h | h
  · exact h.globalScope
  · exact h.globalScope.trans (Session.run_globalScope line "<input>" s)

theorem handle_depth (line : String) (s : Session) : (handle line s).2.depth = s.depth := by
  rcases says_or_run_says line s with h | h
  · exact h.depth
  · exact h.depth.trans (Session.run_depth line "<input>" s)

end Handle

section Rounds

variable {s t : Session} {r : Round} {rounds : List Round}

theorem ask_of_nil (h : s.machine.console.pending = []) :
    (ask s).1 = none ∧ (ask s).2.machine.console.pending = [] := by
  rw [ask, Console.ask, h]
  exact ⟨rfl, h⟩

theorem ask_of_cons {line : String} {lines : List String}
    (h : s.machine.console.pending = line :: lines) :
    (ask s).1 = some line ∧ (ask s).2.machine.console.pending = lines := by
  rw [ask, Console.ask, h]
  exact ⟨rfl, rfl⟩

theorem ask_store (s : Session) : (ask s).2.machine.store = s.machine.store := rfl

theorem ask_globalScope (s : Session) : (ask s).2.globalScope = s.globalScope := rfl

theorem Round.From.session_pending (h : r.From s) :
    s.machine.console.pending = r.lines ++ r.after.machine.console.pending := by
  have hasked := h.asked
  cases hpending : s.machine.console.pending with
  | nil =>
    rw [Prod.ext_iff, (ask_of_nil hpending).1] at hasked
    cases hasked.1
  | cons line lines =>
    obtain ⟨hline, hlines⟩ := ask_of_cons hpending
    rw [hasked] at hline hlines
    rw [Round.lines, List.cons_append, ← h.pending, hlines, Option.some.inj hline]

theorem exists_from {line : String} {lines : List String}
    (h : s.machine.console.pending = line :: lines) : ∃ r : Round, r.From s := by
  obtain ⟨read, hlines⟩ := handle_pending_suffix line (ask s).2
  have hask : ask s = (some line, (ask s).2) := Prod.ext (ask_of_cons h).1 rfl
  generalize hafter : (handle line (ask s).2).2 = after at hlines
  exact ⟨⟨line, read, (ask s).2, after⟩, hask, ask_store s, ask_globalScope s, hafter,
    hlines.symm⟩

theorem Round.From.sound (h : r.From s) : r.Sound := by
  constructor
  · rw [← h.handled]
    exact handle_globalScope r.line r.before
  · rw [← h.handled]
    exact handle_depth r.line r.before
  · rw [← h.handled]
    exact says_handle_of_exit
  · rw [← h.handled]
    exact says_handle_of_isCommand
  · intro herrors
    rw [← h.handled]
    rcases says_or_run_says r.line r.before with hsays | hsays
    · exact hsays
    · exact (Session.says_run herrors).trans hsays
  · rw [← h.handled]
    exact run_says_handle
  · intro f t hf
    rw [← h.handled, handle, hf]

theorem Rounds.pending (h : Rounds s rounds t) :
    s.machine.console.pending = rounds.flatMap Round.lines ++ t.machine.console.pending := by
  induction h with
  | ended hpending =>
    rw [hpending]
    exact (ask_of_nil hpending).2.symm
  | @exit s r hfrom _ =>
    rw [List.flatMap_singleton]
    exact hfrom.session_pending
  | @next s t r rs hfrom _ _ ih =>
    rw [List.flatMap_cons, List.append_assoc, ← ih]
    exact hfrom.session_pending

theorem Rounds.sound (h : Rounds s rounds t) : ∀ r ∈ rounds, r.Sound := by
  induction h with
  | ended _ => exact fun _ hr => absurd hr List.not_mem_nil
  | exit hfrom _ =>
    intro r hr
    rw [List.mem_singleton.mp hr]
    exact hfrom.sound
  | next hfrom _ _ ih =>
    intro r hr
    rcases List.mem_cons.mp hr with rfl | hr
    · exact hfrom.sound
    · exact ih r hr

theorem converse_of_from (h : r.From s) (hexit : Text.trim r.line = exitCommand)
    (bound : List String) : converse bound s = r.after := by
  have hhandle : handle r.line r.before = (false, r.after) :=
    Prod.ext ((handle_fst r.line r.before).mpr hexit) h.handled
  rw [converse.eq_def, h.asked]
  dsimp only
  rw [hhandle]

theorem converse_cons_of_from (h : r.From s) (hexit : Text.trim r.line ≠ exitCommand)
    (line : String) (bound : List String) :
    converse (line :: bound) s = converse bound r.after := by
  have hgoesOn : (handle r.line r.before).1 = true :=
    Bool.of_not_eq_false fun hfalse => hexit ((handle_fst r.line r.before).mp hfalse)
  have hhandle : handle r.line r.before = (true, r.after) := Prod.ext hgoesOn h.handled
  rw [converse.eq_def, h.asked]
  dsimp only
  rw [hhandle]

theorem converse_of_nil (h : s.machine.console.pending = []) (bound : List String) :
    converse bound s = (ask s).2.say farewell := by
  have hask : ask s = (none, (ask s).2) := Prod.ext (ask_of_nil h).1 rfl
  rw [converse.eq_def, hask]

/-- The bound on the rounds is never what ends them. -/
theorem converse_rounds {bound : List String}
    (h : s.machine.console.pending.length ≤ bound.length) :
    ∃ rounds, Rounds s rounds (converse bound s) := by
  induction bound generalizing s with
  | nil =>
    have hpending := List.eq_nil_of_length_eq_zero (Nat.le_zero.mp h)
    rw [converse_of_nil hpending]
    exact ⟨[], .ended hpending⟩
  | cons line bound ih =>
    cases hpending : s.machine.console.pending with
    | nil =>
      rw [converse_of_nil hpending]
      exact ⟨[], .ended hpending⟩
    | cons first rest =>
      obtain ⟨r, hfrom⟩ := exists_from hpending
      by_cases hexit : Text.trim r.line = exitCommand
      · rw [converse_of_from hfrom hexit]
        exact ⟨[r], .exit hfrom hexit⟩
      · have hshorter : r.after.machine.console.pending.length ≤ bound.length := by
          rw [hfrom.session_pending, List.length_append, Round.lines, List.length_cons,
            List.length_cons] at h
          omega
        obtain ⟨rounds, hrounds⟩ := ih hshorter
        rw [converse_cons_of_from hfrom hexit]
        exact ⟨r :: rounds, .next hfrom hexit hrounds⟩

end Rounds

/-- The interactive mode goes round after round until a line says that it ends or no line is left.
The lines that were there are those of the rounds, each with the lines that were read in it, in
order; and no round does more to the bindings than its line says. -/
theorem run_rounds (s : Session) :
    ∃ rounds, Rounds (Repl.sayAll (greeting s.debug) s) rounds (run s) ∧
      s.machine.console.pending =
        rounds.flatMap Round.lines ++ (run s).machine.console.pending ∧
      ∀ r ∈ rounds, r.Sound := by
  have hgreeting := Repl.says_sayAll (greeting s.debug) s
  obtain ⟨rounds, hrounds⟩ := converse_rounds (s := Repl.sayAll (greeting s.debug) s)
    (Nat.le_refl _)
  refine ⟨rounds, hrounds, ?_, hrounds.sound⟩
  rw [← hgreeting.pending]
  exact hrounds.pending

example : (run (.start false 30 ["let a = input(\"?\")", "exit", "b", ":env", " exit ",
    "a"])).machine.console.lines.drop 4 =
      ["exit", "Error: identifier not found: b\n  Source: b", "  a = exit"] := by
  decide +kernel

end Monkey.CommandLine.Interactive
