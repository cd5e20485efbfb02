import Monkey.Proofs.Evaluation.Deeper
import Monkey.Proofs.Evaluation.Failing
import Monkey.Proofs.Evaluation.Known
import Monkey.Proofs.Program.Height
import Monkey.Proofs.Scope.Built

/-!
# Programs without functions end

Where no function is written and none is visible, none can be applied: every call ends in a built-in
function or in an error. So evaluation only goes down the tree and, from there, outward along the
scopes that were there; the height of the program and the number of these scopes are depth enough,
whatever the program reads.
-/

namespace Monkey

set_option autoImplicit false

def Value.isFunction : Value → Bool
  | .function .. => true
  | _ => false

namespace Store

/-- The scope or a scope around it binds a name to the value. -/
def Sees (s : Store) (i : Nat) (v : Value) : Prop := ∃ sc ∈ s.chain i, ∃ b ∈ sc.bindings, b.2 = v

def parents (s : Store) : Array (Option Nat) := s.scopes.map Scope.parent

/-- The values that are no functions; those that are not of the language only if they are bound. -/
def Offers (s : Store) (i : Nat) : Value → Prop
  | .function .. => False
  | .foreign t => s.Sees i (.foreign t)
  | .missing => s.Sees i .missing
  | _ => True

variable {s : Store} {i : Nat}

theorem Offers.isFunction {v : Value} (h : s.Offers i v) : v.isFunction = false := by
  cases v with
  | function ps body scope => exact False.elim h
  | _ => rfl

theorem allAround_offers (h : s.AllAround (fun v => v.isFunction = false) i) :
    s.AllAround (s.Offers i) i := by
  intro sc hsc b hb
  have hv := h sc hsc b hb
  have hbound : s.Sees i b.2 := ⟨sc, hsc, b, hb, rfl⟩
  generalize b.2 = v at hv hbound ⊢
  cases v with
  | function ps body scope => exact absurd hv (by simp [Value.isFunction])
  | foreign t => exact hbound
  | missing => exact hbound
  | _ => trivial

theorem offers_common (s : Store) (i : Nat) : Value.Common (s.Offers i) where
  integer _ := trivial
  boolean _ := trivial
  string _ := trivial
  null := trivial

/-- How long a chain of scopes is depends on nothing but what each scope is inside of. -/
theorem length_chain_of_parents {s t : Store} (h : t.parents = s.parents) (i : Nat) :
    (t.chain i).length = (s.chain i).length := by
  induction i using Nat.strongRecOn with
  | ind i ih =>
    have hparent : t.scopes[i]?.map Scope.parent = s.scopes[i]?.map Scope.parent := by
      rw [← Array.getElem?_map, ← Array.getElem?_map]
      exact congrArg (·[i]?) h
    cases hs : s.scopes[i]? with
    | none =>
      rw [hs, Option.map_none, Option.map_eq_none_iff] at hparent
      rw [chain_of_none hs, chain_of_none hparent]
    | some sc =>
      rw [hs, Option.map_some] at hparent
      obtain ⟨tc, ht, hp⟩ := Option.map_eq_some_iff.mp hparent
      rw [chain_eq hs, chain_eq ht, List.length_cons, List.length_cons, outside, outside, hp]
      cases sc.parent with
      | none => rfl
      | some p =>
        dsimp only
        split
        · next hlt => rw [ih p hlt]
        · rfl

theorem parents_set (s : Store) (i : Nat) (name : String) (v : Value) :
    (s.set i name v).parents = s.parents := by
  apply Array.ext_getElem?
  intro j
  rw [parents, parents, set, Array.getElem?_map, Array.getElem?_map, Array.getElem?_modify]
  split
  · cases s.scopes[j]? <;> rfl
  · rfl

end Store

/-- The ways in which a program without functions can fail. It does not go too deep. -/
def Machine.MayFail (m : Machine) (scope : Nat) : Failure → Prop
  | .runtime _ _ => True
  | .numeral _ => ∃ line ∈ m.console.pending, Text.Numeral.Overlong (Text.trim line).toList
  | .noTruth t => m.store.Sees scope (.foreign t)
  | .noText t => m.store.Sees scope (.foreign t)
  | .noValue => m.store.Sees scope .missing
  | .tooDeep => False

theorem Machine.mayFail_common (m : Machine) (scope : Nat) :
    Failure.Common (m.store.Offers scope) (m.MayFail scope) where
  runtime _ := trivial
  noTruth h := h
  noText h := h
  noValue h := h
  tooDeep h := h

/-- Evaluation without functions in a scope, from a machine on: no scope is opened, and every line
that can still be read could be read then. -/
def Contract.flat (m : Machine) (scope : Nat) : Contract where
  holds n := n.store.AllAround (m.store.Offers scope) scope ∧ n.store.parents = m.store.parents ∧
    ∀ line ∈ n.console.pending, line ∈ m.console.pending
  later _ _ := True
  value _ v := m.store.Offers scope v
  scope _ i := i = scope
  failure f := m.MayFail scope f
  room := (m.store.chain scope).length
  refl _ := trivial
  trans _ _ := trivial
  value_later _ h := h
  scope_later _ h := h

def Trees.functionless : Trees where
  expression e := e.hasFunction = false
  statement s := s.hasFunction = false
  unary h := h
  binary h := Bool.or_eq_false_iff.mp h
  condition {_ _ a} h := by cases a <;> exact (Bool.or_eq_false_iff.mp h).1
  consequence {_ _ a} h := by
    cases a with
    | none => exact Statement.hasFunction_of_mem (Bool.or_eq_false_iff.mp h).2
    | some e =>
      have hbranches := (Bool.or_eq_false_iff.mp h).2
      exact Statement.hasFunction_of_mem (Bool.or_eq_false_iff.mp hbranches).1
  alternative h := by
    have hbranches := (Bool.or_eq_false_iff.mp h).2
    exact Statement.hasFunction_of_mem (Bool.or_eq_false_iff.mp hbranches).2
  call h := ⟨(Bool.or_eq_false_iff.mp h).1,
    Expression.hasFunction_of_mem (Bool.or_eq_false_iff.mp h).2⟩
  binding h := h
  ret h := h
  only h := h
  block h := Statement.hasFunction_of_mem h

theorem Builtin.overlong_of_lineValue {line : String} {e : Text.Numeral.Error}
    (h : lineValue line = .error e) : Text.Numeral.Overlong (Text.trim line).toList := by
  unfold lineValue at h
  dsimp only at h
  split at h
  · cases h
  · next he => exact Text.Numeral.overlong_of_plain? he
  · cases h

namespace Contract

variable {α : Type} {m n : Machine} {scope : Nat} {v : Value}

theorem flat_keeps_of_idle {run : Run α} (h : run.Idle) (hf : run.Fails (m.MayFail scope))
    {Q : Machine → α → Prop} (hq : (flat m scope).holds n → ∀ a u, run n = .ok a u → Q n a) :
    (flat m scope).Keeps n run Q := by
  intro hn
  have hmachine := h n
  unfold Run.after at hmachine
  cases hr : run n with
  | ok a u =>
    rw [hr] at hmachine
    cases hmachine
    exact ⟨hn, trivial, hq hn a u hr⟩
  | error f u =>
    rw [hr] at hmachine
    cases hmachine
    exact ⟨hn, trivial, hf u f u hr⟩

theorem flat_keeps_of_gives {run : Run Value} (h : run.Idle) (hf : run.Fails (m.MayFail scope))
    (hg : run.Gives (m.store.Offers scope)) : (flat m scope).Keeps n run (flat m scope).value :=
  flat_keeps_of_idle h hf fun _ v u hr => hg n v u hr

theorem flat_event (e : Event) : (flat m scope).Keeps n (Run.event e) fun _ _ => True :=
  fun hn => ⟨hn, trivial, trivial⟩

theorem flat_note (debug : Bool) (text : String) :
    (flat m scope).Keeps n (Run.note debug text) fun _ _ => True := by
  unfold Run.note
  split
  · exact flat_event _
  · exact keeps_pure trivial

theorem flat_ask (prompt : String) : (flat m scope).Keeps n (Run.ask prompt) fun _ line =>
    ∀ l ∈ line, l ∈ m.console.pending := by
  intro hn
  have hpending := hn.2.2
  unfold Run.ask Console.ask
  cases hp : n.console.pending with
  | nil =>
    refine ⟨⟨hn.1, hn.2.1, hpending⟩, trivial, fun _ hl => absurd hl (by simp)⟩
  | cons l ls =>
    rw [hp] at hpending
    refine ⟨⟨hn.1, hn.2.1, fun k hk => hpending k (List.mem_cons_of_mem l hk)⟩, trivial, ?_⟩
    intro k hk
    cases hk
    exact hpending l List.mem_cons_self

theorem flat_shown (hv : m.store.Offers scope v) (d : Nat) :
    (flat m scope).Keeps n (Run.shown d v) fun _ _ => True :=
  flat_keeps_of_idle (Run.idle_shown d v) (Run.fails_shown (m.mayFail_common scope) hv d)
    fun _ _ _ _ => trivial

theorem flat_check (b : Builtin) (args : List Value) : (flat m scope).Keeps n
    (Run.ofExcept (Builtin.check b.name b.signature (args.map Value.tag))) fun _ _ => True :=
  flat_keeps_of_idle (Run.idle_ofExcept _) (Run.fails_ofExcept (m.mayFail_common scope) _)
    fun _ _ _ _ => trivial

theorem flat_builtinBody {args : List Value} (hargs : ∀ a ∈ args, m.store.Offers scope a) (d : Nat)
    (b : Builtin) : (flat m scope).Keeps n (Run.builtinBody d b args) (flat m scope).value := by
  unfold Run.builtinBody
  split
  · exact keeps_pure trivial
  · apply (flat_shown (hargs _ List.mem_cons_self) d).bind
    intro _ _ _ _
    exact keeps_pure trivial
  · apply (flat_shown (hargs _ List.mem_cons_self) d).bind
    intro _ _ _ _
    apply (flat_event _).bind
    intro _ _ _ _
    exact keeps_pure trivial
  · apply (flat_ask _).bind
    intro u line _ hline
    split
    · next v hv => exact keeps_pure ((m.store.offers_common scope).of_lineValue hv)
    · next e he =>
      apply keeps_stop
      have hlong := Builtin.overlong_of_lineValue he
      cases line with
      | none => exact absurd hlong not_overlong_empty
      | some l => exact ⟨l, hline l rfl, hlong⟩
  · exact keeps_pure trivial

theorem flat_resolveBuiltin (name : String) :
    (flat m scope).Keeps n (Run.resolveBuiltin name) (flat m scope).value := by
  unfold Run.resolveBuiltin
  split
  · exact keeps_pure trivial
  · exact keeps_stop trivial

/-- The chain of scopes is as long as it was, so that there is room to look for a name. -/
theorem flat_resolve {d : Nat} (hd : (m.store.chain scope).length ≤ d) (name : String) :
    (flat m scope).Keeps n (Run.resolve d scope name) (flat m scope).value := by
  intro hn
  have hbuiltin := flat_resolveBuiltin name hn
  have hlength : (n.store.chain scope).length ≤ d :=
    Nat.le_trans (Nat.le_of_eq (Store.length_chain_of_parents hn.2.1 scope)) hd
  unfold Run.resolve
  rw [Store.lookup?_of_le hlength]
  cases hv : n.store.find? name scope with
  | none => exact hbuiltin
  | some v =>
    have hoffers := hn.1.find? hv
    cases v with
    | missing => exact hbuiltin
    | _ => exact ⟨hn, trivial, hoffers⟩

theorem flat_steps (m : Machine) (scope : Nat) : (flat m scope).Steps Trees.functionless where
  deep h := False.elim h
  marked _ := trivial
  null _ := trivial
  integer _ _ _ := trivial
  boolean _ _ := trivial
  string _ _ _ := trivial
  function _ _ _ _ h _ := Bool.noConfusion h
  body _ _ _ _ h := False.elim h
  noExpression _ := trivial
  noStatement _ := trivial
  note _ := flat_note
  bindName _ hv name := fun ⟨hstore, hparents, hpending⟩ =>
    ⟨⟨hstore.set hv _ name, (Store.parents_set _ _ name _).trans hparents, hpending⟩, trivial,
      trivial⟩
  resolve hi d hroom name := by
    cases hi
    exact flat_resolve (hroom.resolve_left id) name
  enter h _ := False.elim h
  truth hv := flat_keeps_of_idle (Run.idle_truth _) (Run.fails_truth (m.mayFail_common scope) hv)
    fun _ _ _ _ => trivial
  unary hv d op := flat_keeps_of_gives (Run.idle_unary d op _)
    (Run.fails_unary (m.mayFail_common scope) hv d op)
    (Run.gives_unary (m.store.offers_common scope) d op _)
  binary hv hw d op := flat_keeps_of_gives (Run.idle_binary d op _ _)
    (Run.fails_binary (m.mayFail_common scope) hv hw d op)
    (Run.gives_binary (m.store.offers_common scope) d op _ _)
  builtin hargs d b := (flat_check b _).bind fun _ _ _ _ => flat_builtinBody hargs d b
  notAFunction hv d := flat_keeps_of_gives (Run.idle_notAFunction d _)
    (Run.fails_notAFunction (m.mayFail_common scope) hv d) (Run.gives_notAFunction d _)

end Contract

/-- How a program without functions ends that is evaluated from a machine on. -/
def Machine.MayEnd (m : Machine) (scope : Nat) : EStateM.Result Failure Machine Value → Prop
  | .ok v n => v.isFunction = false ∧ n.store.parents = m.store.parents
  | .error f n => m.MayFail scope f ∧ n.store.parents = m.store.parents

/-- A program in which no function is written ends in a scope from which none is visible, if it may
go as deep as it is high and, for the names in it, as there are scopes around it: with a value, with
an error of the program, or because a line of the input is too long a number. Nothing else happens
unless a value is bound that is none of the language. No scope is opened, so every name is looked
for in the scopes that were there. Going deeper changes nothing. -/
theorem Run.ends_of_functionless {p : Program} (hp : p.hasFunction = false) {m : Machine}
    {scope : Nat} (hm : m.store.AllAround (fun v => v.isFunction = false) scope) (debug : Bool)
    {depth : Nat} (hd : p.height + (m.store.chain scope).length ≤ depth) :
    m.MayEnd scope (Run.program debug depth scope p m) ∧
      Run.program debug depth scope p m =
        Run.program debug (p.height + (m.store.chain scope).length) scope p m := by
  have hends : ∀ d, p.height + (m.store.chain scope).length ≤ d →
      m.MayEnd scope (Run.program debug d scope p m) := by
    intro d hd
    have hfits : p.fits (d - (m.store.chain scope).length) = true :=
      (p.fits_iff_height _).mpr (Nat.le_sub_of_add_le hd)
    have hkeeps := (Contract.flat_steps m scope).program debug (m := m) rfl
      (Statement.hasFunction_of_mem hp) (.inr hfits)
      ⟨Store.allAround_offers hm, rfl, fun _ hline => hline⟩
    cases hr : Run.program debug d scope p m with
    | ok v n =>
      rw [hr] at hkeeps
      exact ⟨hkeeps.2.2.isFunction, hkeeps.1.2.1⟩
    | error f n =>
      rw [hr] at hkeeps
      exact ⟨hkeeps.2.2, hkeeps.1.2.1⟩
  refine ⟨hends depth hd, ?_⟩
  rcases (Run.deepens_program debug hd scope p).result m with hsame | ⟨n, hdeep, -⟩
  · exact hsame
  · have hend := hends _ (Nat.le_refl _)
    rw [hdeep] at hend
    exact False.elim hend.1

/-- A built-in function under another name, and a function in a scope that is not visible. -/
theorem Run.ends_of_functionless_alias :
    Machine.MayEnd
      ⟨⟨#[⟨none, [("f", .function [] [] 0)]⟩, ⟨none, [("x", .integer 5)]⟩]⟩, .ofLines ["12"]⟩ 1
      (Run.program true 6 1
        ⟨[.binding "p" (.name "println"),
          .expression (.call (.name "p") [.call (.name "input") [.string "?"]])]⟩
        ⟨⟨#[⟨none, [("f", .function [] [] 0)]⟩, ⟨none, [("x", .integer 5)]⟩]⟩,
          .ofLines ["12"]⟩) := by
  refine (Run.ends_of_functionless (by decide) (Store.allAround_iff.mpr ?_) true ?_).1
  · rintro sc hsc
    cases hsc
    exact ⟨by simp [Value.isFunction], fun p hp => absurd hp (by simp)⟩
  · rw [Store.chain_eq rfl]
    decide

/-- A name that is bound as many scopes further out as evaluation may go down. -/
theorem Run.program_name_nest (k : Nat) (c : Console) :
    Run.program false k k ⟨[.expression (.name "x")]⟩ ⟨Store.nest k, c⟩ =
      .error .tooDeep ⟨Store.nest k, c⟩ := by
  have hname : Run.statement false k k (.expression (.name "x")) ⟨Store.nest k, c⟩ =
      .error .tooDeep ⟨Store.nest k, c⟩ := by
    cases k with
    | zero => rfl
    | succ k =>
      cases k with
      | zero => rfl
      | succ d =>
        have hlookup := Store.lookup?_nest (k := d + 2) (Nat.le_add_right d 2) (Nat.le_refl _)
        have hresolve : Run.resolve d (d + 2) "x" ⟨Store.nest (d + 2), c⟩ =
            .error .tooDeep ⟨Store.nest (d + 2), c⟩ := by
          unfold Run.resolve
          rw [hlookup]
        rw [Run.statement]
        refine (bind_of_ok rfl).trans ?_
        rw [Run.expression]
        refine (bind_of_ok rfl).trans ?_
        exact bind_of_error hresolve
  apply bind_of_error
  unfold Run.markedWith
  rw [hname]

/-- Whatever multiple of its height a program may go down to, a name in it can be bound too far out.
-/
theorem Run.not_ends_of_height : ¬ ∃ c, ∀ (p : Program) (m : Machine) (scope : Nat),
    p.hasFunction = false → m.store.AllAround (fun v => v.isFunction = false) scope →
      ∀ n, Run.program false (c * (p.height + 1)) scope p m ≠ .error .tooDeep n := by
  rintro ⟨c, hc⟩
  have hall := Store.all_nest (P := fun v => v.isFunction = false) rfl (c * 3)
  exact hc ⟨[.expression (.name "x")]⟩ ⟨Store.nest (c * 3), .ofLines []⟩ (c * 3) rfl
    (hall.allAround _) _ (Run.program_name_nest (c * 3) _)

end Monkey
