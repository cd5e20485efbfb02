import Mathlib.Data.List.TakeWhile
import Monkey.Proofs.Evaluation.Deeper
import Monkey.Proofs.Reader.Deeper
import Monkey.Proofs.Session.Basic

/-!
# Sessions that may go deeper

A session that may go deeper answers every text in the same way, unless the other one goes too deep.
Then it does first on its console all that the other one does there.
-/

namespace Monkey

set_option autoImplicit false

theorem takeWhile_isPrefix {α : Type} {p q : α → Bool} (h : ∀ a, p a = true → q a = true)
    {as bs : List α} (hab : as <+: bs) : as.takeWhile p <+: bs.takeWhile q := by
  obtain ⟨cs, rfl⟩ := hab
  induction as with
  | nil => exact List.nil_prefix
  | cons a as ih =>
    rw [List.cons_append, List.takeWhile_cons, List.takeWhile_cons]
    split
    · next ha =>
      rw [if_pos (h a ha)]
      exact List.cons_prefix_cons.mpr ⟨rfl, ih⟩
    · exact List.nil_prefix

namespace Reader.Reading

variable {r r' : Reading} {d d' : Nat} {why : Refusal}

def parsed (d : Nat) (r : Reading) : List String :=
  (r.statements.takeWhile (Statement.fits d)).map fun s =>
    "DEBUG parsing: Parsed statement: " ++ s.source

theorem parsed_isPrefix_records (d : Nat) (file : String) (r : Reading) :
    r.parsed d <+: r.records d file :=
  List.prefix_append _ _

theorem Deepens.statements (h : r.Deepens r') : r.statements <+: r'.statements := by
  rcases h with rfl | ⟨_, h⟩
  · exact List.prefix_rfl
  · exact h

theorem Deepens.parsed (h : r.Deepens r') (hd : d ≤ d') : r.parsed d <+: r'.parsed d' :=
  (takeWhile_isPrefix (fun s => s.fits_mono hd) h.statements).map _

/-- The number of errors is told only where nothing is refused. -/
theorem records_of_refused (h : r.refusalRecorded? d = some why) (file : String) :
    r.records d file = r.parsed d := by
  have hshort : ¬ ((r.statements.takeWhile (Statement.fits d)).length = r.statements.length ∧
      r.refusal = none ∧ r.errors ≠ []) := by
    rintro ⟨hlength, hrefusal, -⟩
    have hall := List.takeWhile_eq_self_iff.mp
      ((List.takeWhile_prefix (Statement.fits d)).eq_of_length hlength)
    rw [refusalRecorded?, if_pos (List.all_eq_true.mpr hall), hrefusal] at h
    cases h
  rw [records, if_neg hshort, List.append_nil, parsed]

theorem records_of_fits (h : r.statements.all (Statement.fits d) = true) (hd : d ≤ d')
    (file : String) : r.records d' file = r.records d file := by
  have hall : ∀ d, r.statements.all (Statement.fits d) = true →
      r.statements.takeWhile (Statement.fits d) = r.statements := fun d hd =>
    List.takeWhile_eq_self_iff.mpr (List.all_eq_true.mp hd)
  rw [records, records, hall d h, hall d' (all_mono (fun s => s.fits_mono hd) h)]

/-- Reading the same and showing it, or stopping where reading or showing goes too deep. -/
theorem Deepens.recorded (h : r.Deepens r') (hd : d ≤ d') (file : String) :
    r' = r ∧ r'.refusalRecorded? d' = r.refusalRecorded? d ∧
        r'.records d' file = r.records d file ∨
      r.refusalRecorded? d = some .tooDeep ∧ r.records d file <+: r'.records d' file := by
  have htold : r.refusalRecorded? d = some .tooDeep → r.records d file <+: r'.records d' file := by
    intro hrefused
    rw [records_of_refused hrefused]
    exact (h.parsed hd).trans (parsed_isPrefix_records d' file r')
  by_cases hfits : r.statements.all (Statement.fits d) = true
  · have hrecorded : r.refusalRecorded? d = r.refusal := if_pos hfits
    rcases h with rfl | ⟨hdeep, hstatements⟩
    · refine .inl ⟨rfl, ?_, records_of_fits hfits hd file⟩
      rw [hrecorded]
      exact if_pos (all_mono (fun s => s.fits_mono hd) hfits)
    · have hrefused := hrecorded.trans hdeep
      exact .inr ⟨hrefused, htold hrefused⟩
  · -- a statement that is too high to be shown stops the first session, whatever is read behind it
    have hrefused : r.refusalRecorded? d = some .tooDeep := if_neg hfits
    exact .inr ⟨hrefused, htold hrefused⟩

end Reader.Reading

namespace Session

variable {α : Type} {s : Session} {depth : Nat}

/-- The second session is the first one, but may go deeper; or the first one went too deep, and what
it did on its console the second one did as well. -/
inductive Deepens (depth : Nat) (tooDeep : α) : α × Session → α × Session → Prop where
  | same (a : α) (s : Session) : Deepens depth tooDeep (a, s) (a, { s with depth })
  | deeper {a : α} {s t : Session} : s.machine.console.Leads t.machine.console →
    Deepens depth tooDeep (tooDeep, s) (a, t)

theorem leads_logged (records : List String) (s : Session) :
    s.machine.console.Leads (s.logged records).machine.console := by
  change s.machine.console.Leads (records.foldl (fun c t => c.add (.record t)) s.machine.console)
  generalize s.machine.console = c
  induction records generalizing c with
  | nil => exact .refl c
  | cons t records ih => exact (c.leads_perform (.record t)).trans (ih _)

theorem leads_logged_of_isPrefix {records records' : List String} (h : records <+: records')
    (s : Session) :
    (s.logged records).machine.console.Leads (s.logged records').machine.console := by
  obtain ⟨more, rfl⟩ := h
  have happend : s.logged (records ++ more) = (s.logged records).logged more := by
    simp [logged, onConsole, List.foldl_append]
  rw [happend]
  exact leads_logged more _

theorem told_deepens (h : s.depth ≤ depth) {r r' : Reader.Reading} (hr : r.Deepens r')
    (file : String) :
    r' = r ∧ ({ s with depth } : Session).refusal? r' = s.refusal? r ∧
        ({ s with depth } : Session).told r' file = s.told r file ∨
      s.refusal? r = some .tooDeep ∧
        s.told r file <+: ({ s with depth } : Session).told r' file := by
  unfold refusal? told
  cases s.debug with
  | true => exact hr.recorded h file
  | false =>
    rcases hr with rfl | ⟨hdeep, -⟩
    · exact .inl ⟨rfl, rfl, rfl⟩
    · exact .inr ⟨hdeep, List.prefix_rfl⟩

theorem read_deepens (h : s.depth ≤ depth) (text file : String) :
    Deepens depth (.error .tooDeep) (s.read text file)
      (({ s with depth } : Session).read text file) := by
  have hr := Reader.readText_deepens h text file
  rw [read_eq, read_eq]
  dsimp only
  revert hr
  generalize Reader.readText s.depth text file = r
  generalize Reader.readText depth text file = r'
  intro hr
  rcases told_deepens h hr file with ⟨rfl, hrefusal, htold⟩ | ⟨hrefused, htold⟩
  · rw [hrefusal, htold]
    exact .same _ (s.logged _)
  · rw [hrefused]
    exact .deeper (leads_logged_of_isPrefix htold s)

theorem read_leads (text file : String) (s : Session) :
    s.machine.console.Leads (s.read text file).2.machine.console := by
  rw [read_eq]
  exact leads_logged _ s

section Lift

variable {run run' : Run α}

theorem lift_leads (h : run.Forward) (s : Session) :
    s.machine.console.Leads (s.lift run).2.machine.console := by
  rw [lift_machine]
  exact h s.machine

theorem lift_deepens (h : run.Deepens run') (s : Session) :
    Deepens depth (.error .tooDeep) (s.lift run) (({ s with depth } : Session).lift run') := by
  rcases h.result s.machine with hsame | ⟨n, hdeep, hleads⟩
  · unfold lift
    dsimp only
    rw [hsame]
    cases run s.machine with
    | ok a m => exact .same _ { s with machine := m }
    | error f m => exact .same _ { s with machine := m }
  · have hmachine := lift_machine run' { s with depth }
    rw [lift_error hdeep]
    generalize ({ s with depth } : Session).lift run' = q at hmachine ⊢
    obtain ⟨result, t⟩ := q
    refine .deeper ?_
    change n.console.Leads t.machine.console
    rw [hmachine]
    exact hleads

end Lift

theorem evaluate_leads (p : Program) (s : Session) :
    s.machine.console.Leads (s.evaluate p).2.machine.console :=
  lift_leads (Run.deepens_program s.debug (Nat.le_refl s.depth) s.globalScope p).forward s

theorem evaluate_deepens (h : s.depth ≤ depth) (p : Program) :
    Deepens depth (.error .tooDeep) (s.evaluate p) (({ s with depth } : Session).evaluate p) :=
  lift_deepens (Run.deepens_program s.debug h s.globalScope p) s

theorem answer_leads (file : String) (p : Except Failure Reader.Reading × Session) :
    p.2.machine.console.Leads (answer file p).2.machine.console := by
  rcases answer_cases file p with h | ⟨program, h⟩
  · rw [h]
    exact .refl _
  · rw [h]
    exact evaluate_leads program p.2

theorem answer_deepens {p q : Except Failure Reader.Reading × Session}
    (h : Deepens depth (.error .tooDeep) p q) (hp : p.2.depth ≤ depth) (file : String) :
    Deepens depth (.error (.failed .tooDeep)) (answer file p) (answer file q) := by
  cases h with
  | @deeper result _ t hleads => exact .deeper (hleads.trans (answer_leads file (result, t)))
  | same result s =>
    cases result with
    | error f => exact .same _ s
    | ok r =>
      rw [answer, answer]
      split
      · have hevaluate := evaluate_deepens hp r.program
        revert hevaluate
        generalize s.evaluate r.program = x
        generalize ({ s with depth } : Session).evaluate r.program = y
        intro hevaluate
        cases hevaluate with
        | same result t => cases result <;> exact .same _ t
        | @deeper result _ _ hleads => cases result <;> exact .deeper hleads
      · exact .same _ s

theorem run_deepens (h : s.depth ≤ depth) (text file : String) :
    Deepens depth (.error (.failed .tooDeep)) (s.run text file)
      (({ s with depth } : Session).run text file) := by
  rw [run_eq_answer, run_eq_answer]
  apply answer_deepens (read_deepens h text file)
  rw [read_eq]
  exact h

theorem run_leads (text file : String) (s : Session) :
    s.machine.console.Leads (s.run text file).2.machine.console := by
  rw [run_eq_answer]
  exact (read_leads text file s).trans (answer_leads file _)

/-- A session that may go deeper gives the same answer to a text and is left in the same state,
unless the other one goes too deep. What that one writes is then written first, and the lines that
it reads are read first. -/
theorem run_deeper {s : Session} {depth : Nat} (h : s.depth ≤ depth) (text file : String) :
    ((s.run text file).1 ≠ .error (.failed .tooDeep) →
      ({ s with depth } : Session).run text file =
        ((s.run text file).1, { (s.run text file).2 with depth })) ∧
    ((s.run text file).1 = .error (.failed .tooDeep) →
      (s.run text file).2.machine.console.events.toList <+:
        (({ s with depth } : Session).run text file).2.machine.console.events.toList ∧
      (s.run text file).2.machine.console.lines <+:
        (({ s with depth } : Session).run text file).2.machine.console.lines ∧
      ∃ lines more,
        s.machine.console.pending = lines ++ (s.run text file).2.machine.console.pending ∧
        s.machine.console.pending = lines ++ more ++
          (({ s with depth } : Session).run text file).2.machine.console.pending) := by
  have hdeepens := run_deepens h text file
  have hleads := run_leads text file s
  revert hdeepens hleads
  generalize s.run text file = p
  generalize ({ s with depth } : Session).run text file = q
  intro hdeepens hleads
  have hmore : p.1 = .error (.failed .tooDeep) →
      p.2.machine.console.Leads q.2.machine.console := by
    intro hdeep
    cases hdeepens with
    | same result t => exact .refl _
    | deeper h => exact h
  constructor
  · intro hp
    cases hdeepens with
    | same result t => rfl
    | deeper _ => exact absurd rfl hp
  · intro hp
    obtain ⟨lines, hlines⟩ := hleads.pending_suffix
    obtain ⟨more, hq⟩ := (hmore hp).pending_suffix
    refine ⟨(hmore hp).events_isPrefix, (hmore hp).lines_isPrefix, lines, more, hlines.symm, ?_⟩
    rw [List.append_assoc, hq, hlines]

instance (result : Except Fault Value) (fault : Fault) : Decidable (result = .error fault) :=
  match result with
  | .error g => decidable_of_iff (g = fault) ⟨congrArg _, Except.error.inj⟩
  | .ok _ => .isFalse nofun

/-- A function that writes and reads before each of its recursive calls. -/
def countdown : String :=
  "let f = fn(n) \x7b println(n); input(\"?\"); if (n > 0) \x7b f(n - 1) \x7d else \x7b n \x7d \x7d; f(2)"

theorem run_deeper_countdown :
    ((start false 14 ["a", "b", "c"]).run countdown "").2.machine.console.lines <+:
        ((start false 40 ["a", "b", "c"]).run countdown "").2.machine.console.lines ∧
      (start false 50 ["a", "b", "c"]).run countdown "" =
        (((start false 40 ["a", "b", "c"]).run countdown "").1,
          { ((start false 40 ["a", "b", "c"]).run countdown "").2 with depth := 50 }) := by
  have hshallow : (start false 14 ["a", "b", "c"]).depth ≤ 40 := by decide
  have hdeep : (start false 40 ["a", "b", "c"]).depth ≤ 50 := by decide
  exact ⟨((run_deeper hshallow countdown "").2 (by decide +kernel)).2.1,
    (run_deeper hdeep countdown "").1 (by decide +kernel)⟩

end Session

end Monkey
