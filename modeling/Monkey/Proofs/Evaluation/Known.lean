import Monkey.Proofs.Evaluation.Contract
import Monkey.Proofs.Evaluation.Stored
import Monkey.Proofs.Program.WellFormed

/-!
# Known values

Evaluating well-formed trees makes values of the language only, and fails only in the ways a program
can fail: no value is asked for a truth value or a text that it lacks, and every statement and every
expression is one that can be evaluated.
-/

namespace Monkey

set_option autoImplicit false

/-- The value is of a kind of the language, and it is there; the body of a function is
well-formed. -/
def Value.Known : Value → Prop
  | .function _ body _ => ∀ s ∈ body, s.WellFormed
  | .foreign _ => False
  | .missing => False
  | _ => True

def RuntimeError.Expected : RuntimeError → Prop
  | .unknownStatement _ => False
  | .unknownExpression _ => False
  | .nothingToEvaluate => False
  | _ => True

/-- The evaluation went too deep, or the program has an error. -/
def Failure.Expected : Failure → Prop
  | .runtime e _ => e.Expected
  | .tooDeep => True
  | _ => False

/-- An optional sign and then more digits than are read. -/
def Text.Numeral.Overlong (cs : List Char) : Prop :=
  ∃ sign ds, cs = sign ++ ds ∧ sign ∈ [[], ['+'], ['-']] ∧
    (∀ d ∈ ds, (Text.digitValue? d).isSome = true) ∧ maxDigits < ds.length

def Store.Known (s : Store) : Prop := ∀ sc ∈ s.scopes, ∀ b ∈ sc.bindings, b.2.Known

/-- No line that can still be read is a number with too many digits. -/
def Console.Brief (c : Console) : Prop :=
  ∀ line ∈ c.pending, ¬ Text.Numeral.Overlong (Text.trim line).toList

namespace Value

def tags : List String := ["Integer", "Boolean", "String", "Function", "BuiltIn", "Null"]

theorem Known.tag_mem {v : Value} (h : v.Known) : v.tag ∈ tags := by
  cases v with
  | foreign t => exact False.elim h
  | missing => exact False.elim h
  | _ => simp [tag, tags]

theorem Known.truth? {v : Value} (h : v.Known) : ∃ b, v.truth? = some b := by
  cases v with
  | foreign t => exact False.elim h
  | missing => exact False.elim h
  | _ => exact ⟨_, rfl⟩

theorem Known.text? {v : Value} (h : v.Known) : ∃ t, v.text? = some t := by
  cases v with
  | foreign t => exact False.elim h
  | missing => exact False.elim h
  | boolean b => cases b <;> exact ⟨_, rfl⟩
  | _ => exact ⟨_, rfl⟩

theorem Known.quoted? {v : Value} (h : v.Known) : ∃ t, v.quoted? = some t := by
  have ht := h.text?
  cases v with
  | string s => exact ⟨_, rfl⟩
  | _ => exact ht

end Value

namespace Store

variable {s : Store} {v : Value}

theorem Known.set (h : s.Known) (hv : v.Known) (i : Nat) (name : String) :
    (s.set i name v).Known :=
  All.set h hv i name

theorem Known.add (h : s.Known) {bs : Bindings} (hbs : ∀ b ∈ bs, b.2.Known)
    (parent : Option Nat) : (s.add parent bs).2.Known :=
  All.add h hbs parent

theorem Known.find? (h : s.Known) {name : String} {i : Nat} (hv : s.find? name i = some v) :
    v.Known :=
  All.find? h hv

end Store

namespace Text.Numeral

theorem isSome_of_mapM {cs : List Char} {ds : List Nat} (h : cs.mapM digitValue? = some ds) :
    (∀ c ∈ cs, (digitValue? c).isSome = true) ∧ ds.length = cs.length := by
  induction cs generalizing ds with
  | nil =>
    rw [List.mapM_nil] at h
    cases h
    exact ⟨fun _ hc => absurd hc List.not_mem_nil, rfl⟩
  | cons c cs ih =>
    rw [List.mapM_cons] at h
    obtain ⟨e, he, hrest⟩ := Option.bind_eq_some_iff.mp h
    obtain ⟨es, hes, hd⟩ := Option.bind_eq_some_iff.mp hrest
    cases hd
    obtain ⟨hsome, hlen⟩ := ih hes
    constructor
    · intro x hx
      rcases List.mem_cons.mp hx with rfl | hx
      · rw [he]
        rfl
      · exact hsome x hx
    · simp [hlen]

theorem length_lt_of_bounded {ds : List Nat} {e : Error} (h : bounded ds = .error e) :
    maxDigits < ds.length := by
  unfold bounded at h
  split at h
  · next hlt => exact hlt
  · exact absurd h (by simp)

/-- Only a row with too many digits keeps a plain numeral from having a value. -/
theorem overlong_of_mapM {s cs : List Char} {g : List Nat → Except Error Int} {e : Error}
    (hsign : s ∈ [[], ['+'], ['-']]) (hg : ∀ ds, g ds = .error e → maxDigits < ds.length)
    (h : (cs.mapM digitValue?).map g = some (.error e)) : Overlong (s ++ cs) := by
  obtain ⟨ds, hds, hb⟩ := Option.map_eq_some_iff.mp h
  obtain ⟨hsome, hlen⟩ := isSome_of_mapM hds
  refine ⟨s, cs, rfl, hsign, hsome, ?_⟩
  rw [← hlen]
  exact hg ds hb

theorem overlong_of_plain? {cs : List Char} {e : Error} (h : plain? cs = some (.error e)) :
    Overlong cs := by
  have hof : ∀ ds, (bounded ds).map Int.ofNat = .error e → maxDigits < ds.length := by
    intro ds hds
    cases hb : bounded ds with
    | ok n => simp [hb, Except.map] at hds
    | error f => exact length_lt_of_bounded hb
  unfold plain? at h
  split at h
  · next c rest =>
    apply overlong_of_mapM (s := ['-']) (by decide) _ h
    intro ds hds
    cases hb : bounded ds with
    | ok n =>
      rw [hb] at hds
      cases hds
    | error f => exact length_lt_of_bounded hb
  · exact overlong_of_mapM (s := ['+']) (by decide) hof h
  · exact overlong_of_mapM (s := []) (by decide) hof h
  · exact absurd h (by simp)

end Text.Numeral

/-- The machine has known values only, and no line that is too long a number. -/
structure Machine.Known (m : Machine) : Prop where
  store : m.store.Known
  console : m.console.Brief

def Contract.known : Contract where
  holds m := m.Known
  later _ _ := True
  value _ v := v.Known
  scope _ _ := True
  failure f := f.Expected
  refl _ := trivial
  trans _ _ := trivial
  value_later _ h := h
  scope_later _ h := h

def Trees.wellFormed : Trees where
  expression e := e.WellFormed
  statement s := s.WellFormed
  unary h := by cases h; assumption
  binary h := by cases h; exact ⟨‹_›, ‹_›⟩
  condition h := by cases h <;> assumption
  consequence h := by cases h <;> assumption
  alternative h := by cases h; assumption
  call h := by cases h; exact ⟨‹_›, ‹_›⟩
  binding h := by cases h; assumption
  ret h := by cases h; assumption
  only h := by cases h; assumption
  block h := by cases h

namespace Contract

variable {m : Machine} {v w : Value}

theorem known_event (m : Machine) (e : Event) :
    known.Keeps m (Run.event e) fun _ _ => True := by
  intro hm
  exact ⟨⟨hm.store, hm.console⟩, trivial, trivial⟩

theorem known_note (m : Machine) (debug : Bool) (text : String) :
    known.Keeps m (Run.note debug text) fun _ _ => True := by
  unfold Run.note
  split
  · exact known_event m _
  · exact keeps_pure trivial

theorem known_ask (m : Machine) (prompt : String) :
    known.Keeps m (Run.ask prompt) fun _ line =>
      ∀ l ∈ line, ¬ Text.Numeral.Overlong (Text.trim l).toList := by
  intro hm
  unfold Run.ask Console.ask
  cases hp : m.console.pending with
  | nil =>
    refine ⟨⟨hm.store, ?_⟩, trivial, fun _ hl => absurd hl (by simp)⟩
    intro l hl
    exact hm.console l hl
  | cons l ls =>
    have hbrief := hm.console
    rw [Console.Brief, hp] at hbrief
    refine ⟨⟨hm.store, ?_⟩, trivial, ?_⟩
    · intro k hk
      exact hbrief k (List.mem_cons_of_mem l hk)
    · intro k hk
      cases hk
      exact hbrief l List.mem_cons_self

theorem known_ofExcept {r : Except RuntimeError Value} (hok : ∀ u, r = .ok u → u.Known)
    (herror : ∀ e, r = .error e → e.Expected) : known.Keeps m (Run.ofExcept r) known.value := by
  cases r with
  | ok u => exact keeps_pure (hok u rfl)
  | error e => exact keeps_stop (herror e rfl)

theorem known_shown (hv : v.Known) (d : Nat) :
    known.Keeps m (Run.shown d v) fun _ _ => True := by
  obtain ⟨t, ht⟩ := hv.text?
  unfold Run.shown
  split
  · rw [ht]
    exact keeps_pure trivial
  · exact keeps_stop trivial

theorem known_inspected (hv : v.Known) (d : Nat) :
    known.Keeps m (Run.inspected d v) fun _ _ => True := by
  obtain ⟨t, ht⟩ := hv.quoted?
  unfold Run.inspected
  split
  · rw [ht]
    exact keeps_pure trivial
  · exact keeps_stop trivial

theorem known_truth (hv : v.Known) : known.Keeps m (Run.truth v) fun _ _ => True := by
  obtain ⟨b, hb⟩ := hv.truth?
  unfold Run.truth
  rw [hb]
  exact keeps_pure trivial

theorem known_resolveBuiltin (name : String) :
    known.Keeps m (Run.resolveBuiltin name) known.value := by
  unfold Run.resolveBuiltin
  split
  · exact keeps_pure trivial
  · exact keeps_stop trivial

theorem known_resolve (d scope : Nat) (name : String) :
    known.Keeps m (Run.resolve d scope name) known.value := by
  intro hm
  have hb := known_resolveBuiltin (m := m) name hm
  unfold Run.resolve
  cases hl : m.store.lookup? name d scope with
  | error f =>
    rw [Store.tooDeep_of_lookup? hl]
    exact ⟨hm, trivial, trivial⟩
  | ok found =>
    cases found with
    | none => exact hb
    | some u =>
      have hu := hm.store.find? (Store.find?_of_lookup? hl)
      cases u with
      | missing => exact hb
      | _ => exact ⟨hm, trivial, hu⟩

theorem known_unary (hv : v.Known) (d : Nat) (op : String) :
    known.Keeps m (Run.unary d op v) known.value := by
  unfold Run.unary
  split
  · apply (known_truth hv).bind
    intro _ _ _ _
    exact keeps_pure trivial
  · split
    · apply known_ofExcept
      · intro u hu
        unfold Arithmetic.negate at hu
        split at hu <;> cases hu
        trivial
      · intro e he
        unfold Arithmetic.negate at he
        split at he <;> cases he
        trivial
    · apply (known_inspected hv d).bind
      intro _ _ _ _
      exact keeps_stop trivial

theorem known_badBinary (hv : v.Known) (hw : w.Known) (d : Nat) (op : String) :
    known.Keeps m (Run.badBinary d op v w) known.value := by
  unfold Run.badBinary
  apply (known_inspected hv d).bind
  intro _ _ _ _
  apply (known_inspected hw d).bind
  intro _ _ _ _
  exact keeps_stop trivial

theorem expected_of_exact {op : String} {l r : Int} {e : RuntimeError}
    (h : Arithmetic.exact op l r = .error e) : e.Expected := by
  unfold Arithmetic.exact at h
  split at h
  · cases h
  · cases h
  · cases h
  · split at h <;> cases h
    trivial
  · split at h <;> cases h
    trivial
  · cases h
    trivial

theorem known_arithmetic (op : String) (l r : Int) :
    known.Keeps m (Run.ofExcept (Arithmetic.binary op l r)) known.value := by
  unfold Arithmetic.binary
  split
  · exact keeps_pure trivial
  · split
    · next e he => exact keeps_stop (expected_of_exact he)
    · split
      · exact keeps_pure trivial
      · exact keeps_stop trivial

theorem known_binary (hv : v.Known) (hw : w.Known) (d : Nat) (op : String) :
    known.Keeps m (Run.binary d op v w) known.value := by
  unfold Run.binary
  split
  · exact known_arithmetic op _ _
  · split
    · exact keeps_pure trivial
    · exact keeps_pure trivial
    · exact known_badBinary hv hw d op
  · exact known_badBinary hv hw d op

theorem expected_of_checkTypes {name : String} {position : Nat} {ts : List (Option String)}
    {tags : List String} {e : RuntimeError}
    (h : Builtin.checkTypes name position ts tags = .error e) : e.Expected := by
  fun_induction Builtin.checkTypes name position ts tags with
  | case1 position t ts tags ih => exact ih h
  | case2 position t ts tag tags hne =>
    cases h
    trivial
  | case3 position ts tag tags ih => exact ih h
  | case4 => cases h

theorem known_check (b : Builtin) (args : List Value) :
    known.Keeps m (Run.ofExcept (Builtin.check b.name b.signature (args.map Value.tag)))
      fun _ _ => True := by
  unfold Builtin.check
  split
  · cases hc : Builtin.checkTypes b.name 1 b.signature (args.map Value.tag) with
    | ok u => exact keeps_pure trivial
    | error e => exact keeps_stop (expected_of_checkTypes hc)
  · exact keeps_stop trivial

theorem known_lineValue {line : String} (h : ¬ Text.Numeral.Overlong (Text.trim line).toList) :
    ∃ u : Value, Builtin.lineValue line = .ok u ∧ u.Known := by
  unfold Builtin.lineValue
  dsimp only
  split
  · exact ⟨_, rfl, trivial⟩
  · next e he => exact absurd (Text.Numeral.overlong_of_plain? he) h
  · refine ⟨_, rfl, ?_⟩
    split
    · trivial
    · trivial

theorem not_overlong_empty : ¬ Text.Numeral.Overlong (Text.trim "").toList := by
  rintro ⟨sign, ds, he, _, _, hlt⟩
  have hlen := congrArg List.length he
  rw [List.length_append, show (Text.trim "").toList.length = 0 from rfl] at hlen
  omega

theorem known_builtinBody {args : List Value} (hargs : ∀ a ∈ args, a.Known) (d : Nat)
    (b : Builtin) : known.Keeps m (Run.builtinBody d b args) known.value := by
  unfold Run.builtinBody
  split
  · exact keeps_pure trivial
  · apply (known_shown (hargs _ List.mem_cons_self) d).bind
    intro _ _ _ _
    exact keeps_pure trivial
  · apply (known_shown (hargs _ List.mem_cons_self) d).bind
    intro n _ _ _
    apply (known_event n _).bind
    intro _ _ _ _
    exact keeps_pure trivial
  · apply (known_ask m _).bind
    intro n line _ hline
    have hbrief : ¬ Text.Numeral.Overlong (Text.trim (line.getD "")).toList := by
      cases line with
      | none => exact not_overlong_empty
      | some l => exact hline l rfl
    obtain ⟨u, hu, hknown⟩ := known_lineValue hbrief
    rw [hu]
    exact keeps_pure hknown
  · exact keeps_pure trivial

theorem known_enter {ps : List String} {args : List Value} (hargs : ∀ a ∈ args, a.Known)
    (scope : Nat) : known.Keeps m (Run.enter ps scope args) fun _ _ => True := by
  rw [Run.enter]
  split
  · intro hm
    exact ⟨⟨hm.store.add (Bindings.all_zip hargs) _, hm.console⟩, trivial, trivial⟩
  · exact keeps_stop trivial

theorem known_lawful : known.Lawful Trees.wellFormed where
  tooDeep := trivial
  marked h := h
  null _ := trivial
  integer _ _ _ := trivial
  boolean _ _ := trivial
  string _ _ _ := trivial
  function _ _ _ _ h _ := by cases h; assumption
  body _ _ _ _ h := h
  noExpression h := by cases h
  noStatement h := by cases h
  note := known_note
  bindName _ hv n hm := ⟨⟨hm.store.set hv _ n, hm.console⟩, trivial, trivial⟩
  resolve _ d _ n := known_resolve d _ n
  enter _ hargs := known_enter hargs _
  truth hv := known_truth hv
  unary hv d op := known_unary hv d op
  binary hv hw d op := known_binary hv hw d op
  builtin hargs d b := (known_check b _).bind fun _ _ _ _ => known_builtinBody hargs d b
  notAFunction hv d := (known_inspected hv d).bind fun _ _ _ _ => keeps_stop trivial

end Contract

end Monkey
