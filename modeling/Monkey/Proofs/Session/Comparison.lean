import Monkey.Proofs.Evaluation.Comparison
import Monkey.Proofs.Session.Basic

/-!
# Comparing two sessions

Two sessions on related machines, in related global scopes, that run the same text: they end in the
same way, and are related again.
-/

namespace Monkey.Comparison

set_option autoImplicit false

variable {C : Comparison} {s t : Session}

/-- Sessions of one kind, on related machines and with related global scopes. -/
structure Sessions (C : Comparison) (s t : Session) : Prop where
  machine : C.holds s.machine t.machine
  globalScope : C.scope s.globalScope t.globalScope
  debug : t.debug = s.debug
  depth : t.depth = s.depth

inductive Results {ε : Type} (C : Comparison) : Except ε Value → Except ε Value → Prop where
  | ok {v w : Value} : C.Alike v w → Results C (.ok v) (.ok w)
  | error (e : ε) : Results C (.error e) (.error e)

section Results

variable {ε : Type} {p q : Except ε Value}

theorem Results.eq (hscope : ∀ i j, C.scope i j → i = j) (h : C.Results p q) : p = q := by
  cases h with
  | ok hv => rw [hv.eq hscope]
  | error e => rfl

theorem Results.eq_renamed {ρ : Nat → Nat} (hρ : ∀ i j, C.scope i j → j = ρ i)
    (h : C.Results p q) : q = p.map (Value.renamed ρ) := by
  cases h with
  | ok hv => exact congrArg Except.ok (hv.eq_renamed hρ)
  | error e => rfl

end Results

def Recorded (C : Comparison) : Prop :=
  ∀ text, C.Agree (Run.event (.record text)) (Run.event (.record text)) fun _ _ => True

theorem Sessions.logged (h : C.Sessions s t) (hrecord : C.Recorded) (records : List String) :
    C.Sessions (s.logged records) (t.logged records) := by
  induction records generalizing s t with
  | nil => exact h
  | cons text records ih =>
    have hmeets := hrecord text s.machine t.machine h.machine
    have hnext : C.Sessions (s.logged [text]) (t.logged [text]) := by
      refine ⟨?_, h.globalScope, h.debug, h.depth⟩
      cases hmeets with
      | ok hmn _ => exact hmn
    exact ih hnext

theorem Sessions.evaluate (h : C.Sessions s t) (hl : C.Lawful s.debug s.debug) {p : Program}
    (hp : ∀ st ∈ p.statements, C.trees.statement st) :
    C.Results (s.evaluate p).1 (t.evaluate p).1 ∧
      C.Sessions (s.evaluate p).2 (t.evaluate p).2 := by
  have hmeets := hl.program s.depth h.globalScope hp s.machine t.machine h.machine
  unfold Session.evaluate Session.lift
  rw [h.debug, h.depth]
  revert hmeets
  generalize Run.program s.debug s.depth s.globalScope p s.machine = a
  generalize Run.program s.debug s.depth t.globalScope p t.machine = b
  intro hmeets
  cases hmeets with
  | ok hmn hv => exact ⟨.ok hv, hmn, h.globalScope, rfl, rfl⟩
  | error f hmn => exact ⟨.error f, hmn, h.globalScope, rfl, rfl⟩

theorem Sessions.answer (h : C.Sessions s t) (hl : C.Lawful s.debug s.debug) (file : String)
    {r : Reader.Reading} (hp : ∀ st ∈ r.program.statements, C.trees.statement st) :
    C.Results (Session.answer file (.ok r, s)).1 (Session.answer file (.ok r, t)).1 ∧
      C.Sessions (Session.answer file (.ok r, s)).2 (Session.answer file (.ok r, t)).2 := by
  rw [Session.answer, Session.answer]
  split
  · have hevaluate := h.evaluate hl hp
    revert hevaluate
    generalize s.evaluate r.program = a
    generalize t.evaluate r.program = b
    obtain ⟨p, s'⟩ := a
    obtain ⟨q, t'⟩ := b
    rintro ⟨hresults, hsessions⟩
    cases hresults with
    | ok hv => exact ⟨.ok hv, hsessions⟩
    | error f => exact ⟨.error _, hsessions⟩
  · exact ⟨.error _, h⟩

theorem Sessions.run (h : C.Sessions s t) (hl : C.Lawful s.debug s.debug) (hrecord : C.Recorded)
    {text file : String}
    (hp : ∀ st ∈ (Reader.readText s.depth text file).statements, C.trees.statement st) :
    C.Results (s.run text file).1 (t.run text file).1 ∧
      C.Sessions (s.run text file).2 (t.run text file).2 := by
  rw [Session.run_eq_answer, Session.run_eq_answer, Session.read_eq, Session.read_eq, h.depth]
  generalize Reader.readText s.depth text file = r at hp ⊢
  have hrefusal : t.refusal? r = s.refusal? r := by
    rw [Session.refusal?, Session.refusal?, h.debug, h.depth]
  have htold : t.told r file = s.told r file := by
    rw [Session.told, Session.told, h.debug, h.depth]
  have hlogged := h.logged hrecord (s.told r file)
  rw [hrefusal, htold]
  cases s.refusal? r with
  | some why => exact ⟨.error _, hlogged⟩
  | none => exact hlogged.answer hl file hp

end Monkey.Comparison
