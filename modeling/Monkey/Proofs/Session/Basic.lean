import Monkey.Proofs.Evaluation.Frame
import Monkey.Session

/-!
# Steps of a session

A session goes from one state to the next by running a text or by a reset. What both kinds of step
preserve holds after any number of steps.
-/

namespace Monkey.Session

set_option autoImplicit false

inductive Step where
  | run (text file : String)
  | reset
  deriving Repr, DecidableEq

/-- The session after a step, whatever came of it. -/
def perform (s : Session) : Step → Session
  | .run text file => (s.run text file).2
  | .reset => s.reset

def performAll (s : Session) (steps : List Step) : Session := steps.foldl perform s

theorem performAll_induction {P : Session → Prop} {s : Session} (h : P s)
    (hrun : ∀ s text file, P s → P (s.run text file).2) (hreset : ∀ s, P s → P s.reset)
    (steps : List Step) : P (s.performAll steps) := by
  rw [performAll]
  induction steps generalizing s with
  | nil => exact h
  | cons step steps ih =>
    apply ih
    cases step with
    | run text file => exact hrun s text file h
    | reset => exact hreset s h

def logged (records : List String) (s : Session) : Session :=
  s.onConsole fun c => records.foldl (fun c t => c.add (.record t)) c

theorem logged_pending (records : List String) (s : Session) :
    (s.logged records).machine.console.pending = s.machine.console.pending := by
  change (records.foldl (fun c t => c.add (.record t)) s.machine.console).pending = _
  generalize s.machine.console = c
  induction records generalizing c with
  | nil => rfl
  | cons t records ih => exact ih (c.add (.record t))

def refusal? (r : Reader.Reading) (s : Session) : Option Reader.Refusal :=
  if s.debug then r.refusalRecorded? s.depth else r.refusal

/-- The records that the session leaves in its log while a text is read. -/
def told (r : Reader.Reading) (file : String) (s : Session) : List String :=
  if s.debug then r.records s.depth file else []

section Read

variable {text file : String} {s : Session}

theorem read_of_refused {why : Reader.Refusal}
    (h : s.refusal? (Reader.readText s.depth text file) = some why) :
    s.read text file =
      (.error why.failure, s.logged (s.told (Reader.readText s.depth text file) file)) := by
  unfold refusal? at h
  unfold read
  dsimp only
  rw [h]
  rfl

theorem read_of_accepted (h : s.refusal? (Reader.readText s.depth text file) = none) :
    s.read text file = (.ok (Reader.readText s.depth text file),
      s.logged (s.told (Reader.readText s.depth text file) file)) := by
  unfold refusal? at h
  unfold read
  dsimp only
  rw [h]
  rfl

theorem read_eq (text file : String) (s : Session) :
    s.read text file =
      (match s.refusal? (Reader.readText s.depth text file) with
        | some why => .error why.failure
        | none => .ok (Reader.readText s.depth text file),
      s.logged (s.told (Reader.readText s.depth text file) file)) := by
  cases h : s.refusal? (Reader.readText s.depth text file) with
  | some why => exact read_of_refused h
  | none => exact read_of_accepted h

theorem refusal?_cases {r : Reader.Reading} {why : Reader.Refusal} (h : s.refusal? r = some why) :
    why = .tooDeep ∨ r.refusal = some why := by
  unfold refusal? Reader.Reading.refusalRecorded? at h
  split at h
  · split at h
    · exact .inr h
    · exact .inl (Option.some.inj h).symm
  · exact .inr h

end Read

/-- What can come of running a text, and in which state it leaves the session. -/
inductive Ran (text file : String) (s : Session) : Except Fault Value → Session → Prop where
  | tooDeep (records : List String) : Ran text file s (.error (.failed .tooDeep)) (s.logged records)
  | refused (records : List String) {why : Reader.Refusal} :
      (Reader.readText s.depth text file).refusal = some why →
      Ran text file s (.error (.failed why.failure)) (s.logged records)
  | unreadable (records : List String) : (Reader.readText s.depth text file).errors ≠ [] →
      Ran text file s (.error (.unreadable (Reader.readText s.depth text file).messages file))
        (s.logged records)
  | ended (records : List String) {v : Value} {m : Machine} :
      (Reader.readText s.depth text file).errors = [] →
      Run.program s.debug s.depth s.globalScope (Reader.readText s.depth text file).program
        (s.logged records).machine = .ok v m →
      Ran text file s (.ok v) { s with machine := m }
  | failed (records : List String) {f : Failure} {m : Machine} :
      (Reader.readText s.depth text file).errors = [] →
      Run.program s.debug s.depth s.globalScope (Reader.readText s.depth text file).program
        (s.logged records).machine = .error f m →
      Ran text file s (.error (.failed f)) { s with machine := m }

section Lift

variable {α : Type} {run : Run α} {s : Session} {m : Machine}

theorem lift_ok {a : α} (h : run s.machine = .ok a m) :
    s.lift run = (.ok a, { s with machine := m }) := by
  rw [lift, h]

theorem lift_error {f : Failure} (h : run s.machine = .error f m) :
    s.lift run = (.error f, { s with machine := m }) := by
  rw [lift, h]

theorem lift_snd (run : Run α) (s : Session) :
    (s.lift run).2 = { s with machine := run.after s.machine } := by
  unfold lift Run.after
  cases run s.machine <;> rfl

theorem lift_machine (run : Run α) (s : Session) :
    (s.lift run).2.machine = run.after s.machine := by
  rw [lift_snd]

end Lift

def answer (file : String) : Except Failure Reader.Reading × Session → Except Fault Value × Session
  | (.error f, s) => (.error (.failed f), s)
  | (.ok r, s) =>
    if r.errors = [] then
      match s.evaluate r.program with
      | (.ok v, s) => (.ok v, s)
      | (.error f, s) => (.error (.failed f), s)
    else (.error (.unreadable r.messages file), s)

theorem run_eq_answer (text file : String) (s : Session) :
    s.run text file = answer file (s.read text file) := rfl

theorem answer_cases (file : String) (p : Except Failure Reader.Reading × Session) :
    (answer file p).2 = p.2 ∨ ∃ program, (answer file p).2 = (p.2.evaluate program).2 := by
  obtain ⟨result, s⟩ := p
  cases result with
  | error f => exact .inl rfl
  | ok r =>
    rw [answer]
    split
    · refine .inr ⟨r.program, ?_⟩
      cases s.evaluate r.program with
      | mk result t => cases result <;> rfl
    · exact .inl rfl

/-- A text without errors that is read is evaluated in the session that reading leaves. -/
theorem run_eq {text file : String} {s t : Session} {r : Reader.Reading}
    (hread : s.read text file = (.ok r, t)) (he : r.errors = []) :
    s.run text file =
      match Run.program t.debug t.depth t.globalScope r.program t.machine with
      | .ok v m => (.ok v, { t with machine := m })
      | .error f m => (.error (.failed f), { t with machine := m }) := by
  rw [run, hread]
  dsimp only
  rw [if_pos he]
  cases hp : Run.program t.debug t.depth t.globalScope r.program t.machine with
  | ok v m =>
    have hv : t.evaluate r.program = (.ok v, { t with machine := m }) := lift_ok hp
    rw [hv]
  | error f m =>
    have hf : t.evaluate r.program = (.error f, { t with machine := m }) := lift_error hp
    rw [hf]

theorem ran_of_read {text file : String} {s : Session} {records : List String}
    (hread : s.read text file = (.ok (Reader.readText s.depth text file), s.logged records)) :
    Ran text file s (s.run text file).1 (s.run text file).2 := by
  rw [run, hread]
  dsimp only
  split
  · next he =>
    cases hr : Run.program s.debug s.depth s.globalScope
        (Reader.readText s.depth text file).program (s.logged records).machine with
    | ok v m =>
      have hv : (s.logged records).evaluate (Reader.readText s.depth text file).program =
          (.ok v, { s with machine := m }) := lift_ok hr
      rw [hv]
      exact .ended records he hr
    | error f m =>
      have hf : (s.logged records).evaluate (Reader.readText s.depth text file).program =
          (.error f, { s with machine := m }) := lift_error hr
      rw [hf]
      exact .failed records he hr
  · next he => exact .unreadable records he

/-- A text is read, or the session tells why it is not; it has no more to tell than records. -/
theorem read_cases (text file : String) (s : Session) :
    ∃ records, s.read text file = (.ok (Reader.readText s.depth text file), s.logged records) ∨
      ∃ why, (why = .tooDeep ∨ (Reader.readText s.depth text file).refusal = some why) ∧
        s.read text file = (.error why.failure, s.logged records) := by
  refine ⟨s.told (Reader.readText s.depth text file) file, ?_⟩
  cases hr : s.refusal? (Reader.readText s.depth text file) with
  | none => exact .inl (read_of_accepted hr)
  | some why => exact .inr ⟨why, refusal?_cases hr, read_of_refused hr⟩

/-- Running a text has one of five ends. -/
theorem ran (text file : String) (s : Session) :
    Ran text file s (s.run text file).1 (s.run text file).2 := by
  obtain ⟨records, hread | ⟨why, hwhy, hread⟩⟩ := read_cases text file s
  · exact ran_of_read hread
  · rw [run, hread]
    rcases hwhy with rfl | hwhy
    · exact .tooDeep records
    · exact .refused records hwhy

/-- What reading a text preserves and evaluating a program preserves is preserved by running a text.
-/
theorem run_of_read {P : Session → Prop} {text file : String} {s : Session}
    (hread : P (s.read text file).2) (hevaluate : ∀ t p, P t → P (t.evaluate p).2) :
    P (s.run text file).2 := by
  rw [run_eq_answer]
  rcases answer_cases file (s.read text file) with he | ⟨p, he⟩
  · rw [he]
    exact hread
  · rw [he]
    exact hevaluate _ p hread

theorem exists_run_snd (text file : String) (s : Session) :
    ∃ m, (s.run text file).2 = { s with machine := m } := by
  apply run_of_read (P := fun t => ∃ m, t = { s with machine := m })
  · rw [read_eq]
    exact ⟨_, rfl⟩
  · rintro t p ⟨m, rfl⟩
    exact ⟨_, lift_snd _ _⟩

theorem run_depth (text file : String) (s : Session) : (s.run text file).2.depth = s.depth := by
  obtain ⟨m, hm⟩ := exists_run_snd text file s
  rw [hm]

theorem run_globalScope (text file : String) (s : Session) :
    (s.run text file).2.globalScope = s.globalScope := by
  obtain ⟨m, hm⟩ := exists_run_snd text file s
  rw [hm]

theorem performAll_depth (s : Session) (steps : List Step) :
    (s.performAll steps).depth = s.depth := by
  apply performAll_induction (P := fun t => t.depth = s.depth) rfl
  · intro t text file ht
    rw [run_depth, ht]
  · intro t ht
    exact ht

end Monkey.Session
