import Monkey.Proofs.Evaluation.Records
import Monkey.Proofs.Reader.Line
import Monkey.Proofs.Session.Basic

/-!
# A text in one piece and in two

A text can be run in two pieces, one after the other, if nothing at the end of the first piece goes
on with the second one. Records apart, the session cannot tell the difference: the global scope
carries all that the second piece needs.
-/

namespace Monkey

set_option autoImplicit false

namespace Session

def unlogged (s : Session) : Session := { s with machine := s.machine.unlogged }

/-- The same result, in sessions that differ only in their logs. -/
structure Alike (p q : Except Fault Value × Session) : Prop where
  result : p.1 = q.1
  session : p.2.unlogged = q.2.unlogged

/-- Is every statement of a text evaluated? Then it has no errors, none of its statements fails, and
none at the top returns. -/
def finishes (text file : String) (s : Session) : Bool :=
  match s.read text file with
  | (.ok r, t) =>
    match Run.block (Run.top t.debug t.depth t.globalScope) r.statements t.machine with
    | .ok o _ => r.errors.isEmpty && !o.returned
    | .error _ _ => false
  | (.error _, _) => false

theorem unlogged_logged (records : List String) (s : Session) :
    (s.logged records).machine.unlogged = s.machine.unlogged := by
  refine Machine.unlogged_eq_iff.mpr ⟨rfl, ?_⟩
  change (records.foldl (fun c t => c.add (.record t)) s.machine.console).unlogged = _
  generalize s.machine.console = c
  induction records generalizing c with
  | nil => rfl
  | cons t records ih => exact (ih (c.add (.record t))).trans (Console.unlogged_add c _)

section Read

variable {s : Session} {text file : String} {r : Reader.Reading}

theorem exists_read_eq (h : Reader.readText s.depth text file = r) (hr : s.refusal? r = none) :
    ∃ records, s.read text file = (.ok r, s.logged records) := by
  subst h
  exact ⟨_, read_of_accepted hr⟩

theorem read_eq_ok (s : Session) (text file : String)
    (h : s.refusal? (Reader.readText s.depth text file) = none) :
    (s.read text file).1 = .ok (Reader.readText s.depth text file) := by
  obtain ⟨records, hread⟩ := exists_read_eq rfl h
  rw [hread]

theorem readText_of_read (h : (s.read text file).1 = .ok r) :
    Reader.readText s.depth text file = r ∧ s.refusal? r = none := by
  cases hr : s.refusal? (Reader.readText s.depth text file) with
  | some why =>
    rw [read_of_refused hr] at h
    cases h
  | none =>
    rw [read_of_accepted hr] at h
    cases h
    exact ⟨rfl, hr⟩

theorem refusal?_eq_none_iff (s : Session) (ss : List Statement) (es : List SyntaxError) :
    s.refusal? ⟨ss, es, none⟩ = none ↔ (s.debug = true → ss.all (Statement.fits s.depth)) := by
  unfold refusal? Reader.Reading.refusalRecorded?
  cases s.debug <;> simp

theorem refusal?_append {ss us : List Statement} {es fs : List SyntaxError}
    (hs : s.refusal? ⟨ss, [], none⟩ = none) (hu : s.refusal? ⟨us, es, none⟩ = none) :
    s.refusal? ⟨ss ++ us, fs, none⟩ = none := by
  rw [refusal?_eq_none_iff] at hs hu ⊢
  intro hdebug
  rw [List.all_append, hs hdebug, hu hdebug]
  rfl

theorem refusal_eq_none (h : s.refusal? r = none) : r.refusal = none := by
  unfold refusal? Reader.Reading.refusalRecorded? at h
  split at h
  · split at h
    · exact h
    · cases h
  · exact h

end Read

section Run

variable {s s' t t' : Session} {text file text' file' : String} {r r' : Reader.Reading}

theorem finishes_iff (hread : s.read text file = (.ok r, t)) (he : r.errors = []) :
    s.finishes text file = true ↔ ∃ o m,
      Run.block (Run.top t.debug t.depth t.globalScope) r.statements t.machine = .ok o m ∧
        o.returned = false := by
  have hfinishes : s.finishes text file =
      match Run.block (Run.top t.debug t.depth t.globalScope) r.statements t.machine with
      | .ok o _ => r.errors.isEmpty && !o.returned
      | .error _ _ => false := by
    rw [finishes, hread]
  rw [hfinishes, he]
  cases Run.block (Run.top t.debug t.depth t.globalScope) r.statements t.machine with
  | ok o m => simp
  | error f m => simp

theorem run_of_block {o : Outcome} {m : Machine} (hread : s.read text file = (.ok r, t))
    (he : r.errors = [])
    (h : Run.block (Run.top t.debug t.depth t.globalScope) r.statements t.machine = .ok o m) :
    s.run text file = (.ok o.value, { t with machine := m }) := by
  have hp : Run.program t.debug t.depth t.globalScope r.program t.machine = .ok o.value m :=
    Run.program_of_block h
  rw [run_eq hread he, hp]

theorem alike_run (hread : s.read text file = (.ok r, t)) (he : r.errors = [])
    (hread' : s'.read text' file' = (.ok r', t')) (he' : r'.errors = [])
    (ht : ∀ m, ({ t with machine := m } : Session) = { t' with machine := m })
    (h : Comparison.unlogged.Meets Comparison.unlogged.Alike
      (Run.program t.debug t.depth t.globalScope r.program t.machine)
      (Run.program t'.debug t'.depth t'.globalScope r'.program t'.machine)) :
    Alike (s.run text file) (s'.run text' file') := by
  rw [run_eq hread he, run_eq hread' he']
  revert h
  generalize Run.program t.debug t.depth t.globalScope r.program t.machine = x
  generalize Run.program t'.debug t'.depth t'.globalScope r'.program t'.machine = y
  intro h
  have hsame : ∀ m n : Machine, m.unlogged = n.unlogged →
      ({ t with machine := m } : Session).unlogged = { t' with machine := n }.unlogged := by
    intro m n hmn
    rw [← ht n]
    exact congrArg (fun machine => ({ t with machine } : Session)) hmn
  cases h with
  | ok hmn hv => exact ⟨congrArg Except.ok (hv.eq fun _ _ hij => hij), hsame _ _ hmn⟩
  | error f hmn => exact ⟨rfl, hsame _ _ hmn⟩

end Run

section Append

variable {s : Session} {text file a filea b fileb : String} {ss us : List Statement}
  {records recordsa : List String}

theorem run_append_of_finishes
    (hread : s.read text file = (.ok ⟨ss ++ us, [], none⟩, s.logged records))
    (ha : s.read a filea = (.ok ⟨ss, [], none⟩, s.logged recordsa))
    (hb : ∀ m, ∃ recordsb, { s with machine := m }.read b fileb =
      (.ok ⟨us, [], none⟩, { s with machine := m }.logged recordsb))
    (hus : us ≠ []) (hfinishes : s.finishes a filea = true) :
    Alike (s.run text file) ((s.run a filea).2.run b fileb) := by
  obtain ⟨o, m, hblock, ho⟩ : ∃ o m, Run.block (Run.top s.debug s.depth s.globalScope) ss
      (s.logged recordsa).machine = .ok o m ∧ o.returned = false :=
    (finishes_iff ha rfl).mp hfinishes
  have hlogs : (s.logged records).machine.unlogged = (s.logged recordsa).machine.unlogged := by
    rw [unlogged_logged, unlogged_logged]
  -- the records of both texts stand in front of what the first one does
  have hmeets := Comparison.unlogged_top s.debug s.debug s.depth s.globalScope ss hlogs
  rw [hblock] at hmeets
  obtain ⟨p, n, hp, hnm, hpo⟩ := hmeets.of_ok
  rw [run_of_block ha rfl hblock]
  obtain ⟨recordsb, hreadb⟩ := hb m
  have hbehind : n.unlogged = ({ s with machine := m }.logged recordsb).machine.unlogged :=
    hnm.trans (unlogged_logged recordsb { s with machine := m }).symm
  have hprogram := Comparison.unlogged_program s.debug s.debug s.depth s.globalScope ⟨us⟩ hbehind
  rw [← Run.program_append_of_ok hp (hpo.returned.trans ho) hus] at hprogram
  exact alike_run hread rfl hreadb rfl (fun _ => rfl) hprogram

theorem run_append_of_not_finishes
    (hread : s.read text file = (.ok ⟨ss ++ us, [], none⟩, s.logged records))
    (ha : s.read a filea = (.ok ⟨ss, [], none⟩, s.logged recordsa))
    (hfinishes : ¬ s.finishes a filea = true) : Alike (s.run text file) (s.run a filea) := by
  have hstopped : ∀ o m, Run.block (Run.top s.debug s.depth s.globalScope) ss
      (s.logged recordsa).machine = .ok o m → o.returned = true := by
    intro o m hblock
    by_contra ho
    exact hfinishes ((finishes_iff ha rfl).mpr ⟨o, m, hblock, eq_false_of_ne_true ho⟩)
  have hlogs : (s.logged records).machine.unlogged = (s.logged recordsa).machine.unlogged := by
    rw [unlogged_logged, unlogged_logged]
  have hprogram :=
    Comparison.unlogged_program s.debug s.debug s.depth s.globalScope ⟨ss ++ us⟩ hlogs
  rw [Run.program_append_of_stopped hstopped us] at hprogram
  exact alike_run hread rfl ha rfl (fun _ => rfl) hprogram

end Append

open Token (words)

/-- A text without errors that closes all of its braces, in front of any other one that can be read:
if nothing at the start of the other one goes on with the last statement, the statements of both
texts are read behind one another, with the errors of the other one. -/
theorem read_line {s : Session} {a b filea fileb : String} {r q : Reader.Reading}
    (ha : (s.read a filea).1 = .ok r) (hr : r.errors = []) (hb : (s.read b fileb).1 = .ok q)
    (hbraces : (words filea .start a.toList).countP (·.kind = .lbrace) =
      (words filea .start a.toList).countP (·.kind = .rbrace))
    (hapart : words filea .start a.toList = [] ∨
      (∃ t ∈ (words filea .start a.toList).getLast?, t.kind = .semicolon) ∨
      ∀ t ∈ (words fileb .start b.toList).head?, t.kind ∉ Reader.continuations)
    (file : String) :
    ∃ p, (s.read (a ++ "\n" ++ b) file).1 = .ok p ∧
      p.statements = r.statements ++ q.statements ∧ p.messages = q.messages := by
  obtain ⟨hta, hna⟩ := readText_of_read ha
  obtain ⟨htb, hnb⟩ := readText_of_read hb
  have hra := refusal_eq_none hna
  have hrb := refusal_eq_none hnb
  obtain ⟨ss, es, why⟩ := r
  obtain ⟨us, fs, why'⟩ := q
  subst hr hra hrb
  have hbalance : Reader.balance (words filea .start a.toList) = 0 := by
    rw [Reader.balance_eq_count, hbraces]
    omega
  obtain ⟨gs, hjoined, hmessages⟩ :=
    Reader.exists_readText_line hta htb hbalance (Reader.apart_of_head hapart) file
  obtain ⟨records, hread⟩ := exists_read_eq hjoined (refusal?_append hna hnb)
  exact ⟨⟨ss ++ us, gs, none⟩, congrArg Prod.fst hread, rfl, hmessages⟩

/-- A conditional without its semicolon, and on the next line two statements that cannot be read. -/
theorem read_line_conditional : ∃ p,
    ((start true 30 []).read "if (x) \x7b 1 \x7d\nlet 5; z + )" "").1 = .ok p ∧
      p.statements = (Reader.readText 30 "if (x) \x7b 1 \x7d" "").statements ++
        (Reader.readText 30 "let 5; z + )" "").statements ∧
      p.messages =
        ["expected next token to be IDENT, got 5 instead", "no prefix parse function for )"] := by
  obtain ⟨p, hp, hstatements, hmessages⟩ := read_line
    (read_eq_ok (start true 30 []) "if (x) \x7b 1 \x7d" "" (by decide +kernel)) (by decide +kernel)
    (read_eq_ok (start true 30 []) "let 5; z + )" "" (by decide +kernel)) (by decide +kernel)
    (by decide +kernel) ""
  exact ⟨p, hp, hstatements, hmessages.trans (by decide +kernel)⟩

/-- A text that closes all of its braces, in front of another one that has a statement: if nothing
at the end of the first one goes on with the second one, they are run in one piece as they are run
one after the other. If the first one fails or returns, the second one is not run. -/
theorem run_line {s : Session} {a b filea fileb : String} {r q : Reader.Reading}
    (ha : (s.read a filea).1 = .ok r) (hr : r.errors = []) (hb : (s.read b fileb).1 = .ok q)
    (hq : q.errors = []) (hstatements : q.statements ≠ [])
    (hbraces : (words filea .start a.toList).countP (·.kind = .lbrace) =
      (words filea .start a.toList).countP (·.kind = .rbrace))
    (hapart : words filea .start a.toList = [] ∨
      (∃ t ∈ (words filea .start a.toList).getLast?, t.kind = .semicolon) ∨
      ∀ t ∈ (words fileb .start b.toList).head?, t.kind ≠ .minus ∧ t.kind ≠ .lparen)
    (file : String) :
    Alike (s.run (a ++ "\n" ++ b) file)
      (if s.finishes a filea then (s.run a filea).2.run b fileb else s.run a filea) := by
  obtain ⟨hta, hna⟩ := readText_of_read ha
  obtain ⟨htb, hnb⟩ := readText_of_read hb
  have hra := refusal_eq_none hna
  have hrb := refusal_eq_none hnb
  obtain ⟨ss, es, why⟩ := r
  obtain ⟨us, fs, why'⟩ := q
  subst hr hq hra hrb
  have hbalance : Reader.balance (words filea .start a.toList) = 0 := by
    rw [Reader.balance_eq_count, hbraces]
    omega
  have hjoined := Reader.readText_line_eq hta htb hstatements hbalance hapart file
  obtain ⟨records, hread⟩ := exists_read_eq hjoined (refusal?_append hna hnb)
  obtain ⟨recordsa, hreada⟩ := exists_read_eq hta hna
  split
  · next hfinishes =>
    exact run_append_of_finishes hread hreada (fun _ => exists_read_eq htb hnb) hstatements
      hfinishes
  · next hfinishes => exact run_append_of_not_finishes hread hreada hfinishes

/-- A function that reads a line, and on the next line the negative of what it gives. -/
theorem run_line_negation :
    Alike ((start true 30 ["4"]).run "let f = fn(x) \x7b x + input(\"?\") \x7d;\n-f(1)" "")
      (((start true 30 ["4"]).run "let f = fn(x) \x7b x + input(\"?\") \x7d;" "").2.run "-f(1)"
        "") := by
  have hread := read_eq_ok (start true 30 ["4"])
  have h := run_line (hread "let f = fn(x) \x7b x + input(\"?\") \x7d;" "" (by decide +kernel))
    (by decide +kernel) (hread "-f(1)" "" (by decide +kernel)) (by decide +kernel)
    (by decide +kernel) (by decide +kernel) (by decide +kernel) ""
  rw [if_pos (by decide +kernel)] at h
  exact h

end Session

end Monkey
