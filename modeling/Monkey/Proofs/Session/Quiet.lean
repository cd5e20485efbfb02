import Monkey.Proofs.Reader.Literals
import Monkey.Proofs.Session.Deeper
import Monkey.Proofs.Session.Line

/-!
# Sessions with a log and sessions without

A session that keeps a log and one that keeps none answer every text in the same way and are in the
same state again, records apart. Only where a statement is too high to be shown does the one that
keeps a log refuse a text that the other one reads.
-/

namespace Monkey

set_option autoImplicit false

namespace Reader

/-- The depth from which on a text is read to its end and each statement of it can be shown. -/
def sufficient (text file : String) : Nat :=
  let depth := 2 * (Token.scan text file).length + 2
  max depth (readText depth text file).program.height

theorem readText_sufficient {text file : String} {depth : Nat}
    (hd : sufficient text file ≤ depth) :
    (readText depth text file).statements.all (Statement.fits depth) = true := by
  obtain ⟨htokens, hheight⟩ := Nat.max_le.mp hd
  have hstable : readText depth text file =
      readText (2 * (Token.scan text file).length + 2) text file := by
    rcases readText_deepens htokens text file with hsame | ⟨hdeep, -⟩
    · exact hsame
    · rw [readText_refusal (Nat.le_refl _)] at hdeep
      obtain ⟨t, -, ht⟩ := Option.map_eq_some_iff.mp hdeep
      cases ht
  rw [hstable]
  exact (Program.fits_iff_height _ depth).mpr hheight

end Reader

namespace Session

def quiet (s : Session) : Session := { s with machine := s.machine.unlogged, debug := false }

variable {s t : Session} {text file : String}

theorem quiet_eq_iff : s.quiet = t.quiet ↔
    s.machine.unlogged = t.machine.unlogged ∧ s.globalScope = t.globalScope ∧
      s.depth = t.depth := by
  simp [quiet]

theorem quiet_logged (records : List String) (s : Session) : (s.logged records).quiet = s.quiet :=
  quiet_eq_iff.mpr ⟨unlogged_logged records s, rfl, rfl⟩

/-- Where each statement can be shown, no text is refused because of the log. -/
theorem refusal?_of_fits {r : Reader.Reading}
    (h : r.statements.all (Statement.fits s.depth) = true) : s.refusal? r = r.refusal := by
  unfold refusal? Reader.Reading.refusalRecorded?
  rw [if_pos h]
  split <;> rfl

/-- The same result, in sessions that differ only in their logs and in whether they keep one. -/
structure Quietly {α : Type} (p q : α × Session) : Prop where
  result : p.1 = q.1
  session : p.2.quiet = q.2.quiet

theorem read_quietly (h : s.quiet = t.quiet) (hd : Reader.sufficient text file ≤ s.depth) :
    Quietly (s.read text file) (t.read text file) := by
  have hdepth := (quiet_eq_iff.mp h).2.2
  have hfits := Reader.readText_sufficient hd
  have hs : s.refusal? (Reader.readText s.depth text file) =
      (Reader.readText s.depth text file).refusal := refusal?_of_fits hfits
  have ht : t.refusal? (Reader.readText s.depth text file) =
      (Reader.readText s.depth text file).refusal := refusal?_of_fits (hdepth ▸ hfits)
  rw [read_eq, read_eq, ← hdepth, hs, ht]
  exact ⟨rfl, (quiet_logged _ s).trans (h.trans (quiet_logged _ t).symm)⟩

theorem evaluate_quietly (h : s.quiet = t.quiet) (p : Program) :
    Quietly (s.evaluate p) (t.evaluate p) := by
  obtain ⟨hmachine, hscope, hdepth⟩ := quiet_eq_iff.mp h
  have hmeets := Comparison.unlogged_program s.debug t.debug s.depth s.globalScope p hmachine
  unfold evaluate lift
  rw [← hdepth, ← hscope]
  revert hmeets
  generalize Run.program s.debug s.depth s.globalScope p s.machine = x
  generalize Run.program t.debug s.depth s.globalScope p t.machine = y
  intro hmeets
  cases hmeets with
  | ok hmn hv =>
    exact ⟨congrArg Except.ok (hv.eq fun _ _ hij => hij), quiet_eq_iff.mpr ⟨hmn, rfl, rfl⟩⟩
  | error f hmn => exact ⟨rfl, quiet_eq_iff.mpr ⟨hmn, rfl, rfl⟩⟩

theorem answer_quietly {p q : Except Failure Reader.Reading × Session} (h : Quietly p q)
    (file : String) : Quietly (answer file p) (answer file q) := by
  obtain ⟨result, s⟩ := p
  obtain ⟨result', t⟩ := q
  obtain ⟨hresult, hquiet⟩ := h
  cases hresult
  cases result with
  | error f => exact ⟨rfl, hquiet⟩
  | ok r =>
    rw [answer, answer]
    split
    · have hevaluate := evaluate_quietly hquiet r.program
      revert hevaluate
      generalize s.evaluate r.program = x
      generalize t.evaluate r.program = y
      obtain ⟨v, s'⟩ := x
      obtain ⟨w, t'⟩ := y
      rintro ⟨hvalue, hafter⟩
      cases hvalue
      cases v <;> exact ⟨rfl, hafter⟩
    · exact ⟨rfl, hquiet⟩

theorem run_quietly (h : s.quiet = t.quiet) (hd : Reader.sufficient text file ≤ s.depth) :
    Quietly (s.run text file) (t.run text file) := by
  rw [run_eq_answer, run_eq_answer]
  exact answer_quietly (read_quietly h hd) file

theorem performAll_quiet {steps : List Step} (h : s.quiet = t.quiet)
    (hd : ∀ text file, .run text file ∈ steps → Reader.sufficient text file ≤ s.depth) :
    (s.performAll steps).quiet = (t.performAll steps).quiet := by
  induction steps generalizing s t with
  | nil => exact h
  | cons step steps ih =>
    have hrest : ∀ text file, .run text file ∈ steps → Reader.sufficient text file ≤ s.depth :=
      fun text file hm => hd text file (List.mem_cons_of_mem step hm)
    cases step with
    | run text file =>
      have hrun := (run_quietly h (hd text file List.mem_cons_self)).session
      exact ih hrun (by simpa only [perform, run_depth] using hrest)
    | reset =>
      obtain ⟨hmachine, -, hdepth⟩ := quiet_eq_iff.mp h
      obtain ⟨hstore, hconsole⟩ := Machine.unlogged_eq_iff.mp hmachine
      refine ih (quiet_eq_iff.mpr ⟨Machine.unlogged_eq_iff.mpr ⟨?_, hconsole⟩, ?_, hdepth⟩) hrest
      · exact congrArg (fun store => (store.add none []).2) hstore
      · exact congrArg (fun store => (store.add none []).1) hstore

/-- From sessions that differ only in their logs and in whether they keep one, and that may go deep
enough to read a text: they read the same program with the same errors and give the same answer. The
same names are bound to the same values afterwards, the same lines have been written and the same
prompts shown, and the same lines are left to be read, however the text ends. -/
theorem run_quiet (h : s.quiet = t.quiet) (hd : Reader.sufficient text file ≤ s.depth) :
    (s.read text file).1 = (t.read text file).1 ∧
      (s.run text file).1 = (t.run text file).1 ∧
      (s.run text file).2.quiet = (t.run text file).2.quiet ∧
      (s.run text file).2.bindings = (t.run text file).2.bindings ∧
      (s.run text file).2.machine.console.lines = (t.run text file).2.machine.console.lines ∧
      (s.run text file).2.machine.console.prompts = (t.run text file).2.machine.console.prompts ∧
      (s.run text file).2.machine.console.pending =
        (t.run text file).2.machine.console.pending := by
  obtain ⟨hresult, hquiet⟩ := run_quietly h hd
  obtain ⟨hmachine, hscope, -⟩ := quiet_eq_iff.mp hquiet
  obtain ⟨hstore, hconsole⟩ := Machine.unlogged_eq_iff.mp hmachine
  have hpending := congrArg Console.pending hconsole
  refine ⟨(read_quietly h hd).result, hresult, hquiet, ?_, ?_, ?_, hpending⟩
  · rw [bindings, bindings, hstore, hscope]
  · rw [← Console.lines_unlogged, hconsole, Console.lines_unlogged]
  · rw [← Console.prompts_unlogged, hconsole, Console.prompts_unlogged]

/-- A return out of a program that has read a line, and a statement behind it. -/
theorem run_quiet_return :
    ((start true 40 ["4"]).run "let n = input(\"?\"); return n * n; n" "").1 =
      ((start false 40 ["4"]).run "let n = input(\"?\"); return n * n; n" "").1 :=
  (run_quiet (s := start true 40 ["4"]) (t := start false 40 ["4"]) rfl (by decide +kernel)).2.1

end Session

end Monkey
