import Mathlib.Data.List.Forall2
import Monkey.Proofs.Evaluation.Basic
import Monkey.Proofs.Evaluation.Contract

/-!
# Comparing two evaluations

Two evaluations of the same tree, on machines that are related and in scopes that are related. If
opening a scope, binding and resolving a name, and using the console keep the relation, then the two
evaluations end in the same way: with related values or with the same failure.
-/

namespace Monkey

set_option autoImplicit false

/-- The value with another number for its scope. -/
def Value.renamed (ρ : Nat → Nat) : Value → Value
  | function ps body scope => function ps body (ρ scope)
  | v => v

@[simp] theorem Value.renamed_id : Value.renamed id = id := by
  funext v
  cases v <;> rfl

/-- Which trees are compared, in which scopes and on which machines. -/
structure Comparison where
  trees : Trees
  scope : Nat → Nat → Prop
  holds : Machine → Machine → Prop

namespace Comparison

variable {α β γ δ : Type}

/-- Equal values, or the same function in related scopes. -/
inductive Alike (C : Comparison) : Value → Value → Prop where
  | integer (n : Int) : Alike C (.integer n) (.integer n)
  | boolean (b : Bool) : Alike C (.boolean b) (.boolean b)
  | string (s : String) : Alike C (.string s) (.string s)
  | function {ps : List String} {body : List Statement} {i j : Nat} :
      C.trees.expression (.function ps body) → C.scope i j →
      Alike C (.function ps body i) (.function ps body j)
  | builtin (b : Builtin) : Alike C (.builtin b) (.builtin b)
  | null : Alike C .null .null
  | foreign (t : String) : Alike C (.foreign t) (.foreign t)
  | missing : Alike C .missing .missing

/-- Related results, or the same failure, and related machines. -/
inductive Meets (C : Comparison) (Q : α → β → Prop) :
    EStateM.Result Failure Machine α → EStateM.Result Failure Machine β → Prop where
  | ok {a : α} {b : β} {m n : Machine} : C.holds m n → Q a b → Meets C Q (.ok a m) (.ok b n)
  | error (f : Failure) {m n : Machine} : C.holds m n → Meets C Q (.error f m) (.error f n)

def Agree (C : Comparison) (run : Run α) (run' : Run β) (Q : α → β → Prop) : Prop :=
  ∀ m n, C.holds m n → C.Meets Q (run m) (run' n)

variable {C : Comparison} {Q : α → β → Prop} {R : γ → δ → Prop} {v w : Value}

theorem Meets.of_ok {x : EStateM.Result Failure Machine α} {b : β} {n : Machine}
    (h : C.Meets Q x (.ok b n)) : ∃ a m, x = .ok a m ∧ C.holds m n ∧ Q a b := by
  cases h with
  | ok hmn hab => exact ⟨_, _, rfl, hmn, hab⟩

theorem agree_pure {a : α} {b : β} (h : Q a b) : C.Agree (pure a) (pure b) Q :=
  fun _ _ hmn => .ok hmn h

theorem agree_stop (f : Failure) : C.Agree (Run.stop f) (Run.stop f) Q :=
  fun _ _ hmn => .error f hmn

theorem Agree.bind {run : Run α} {run' : Run β} {next : α → Run γ} {next' : β → Run δ}
    (h : C.Agree run run' Q) (hn : ∀ a b, Q a b → C.Agree (next a) (next' b) R) :
    C.Agree (run >>= next) (run' >>= next') R := by
  intro m n hmn
  have hmeets := h m n hmn
  cases hr : run m with
  | ok a m' =>
    cases hr' : run' n with
    | ok b n' =>
      rw [hr, hr'] at hmeets
      rw [bind_of_ok hr, bind_of_ok hr']
      cases hmeets with
      | ok hmn' hab => exact hn a b hab m' n' hmn'
    | error f n' =>
      rw [hr, hr'] at hmeets
      cases hmeets
  | error f m' =>
    cases hr' : run' n with
    | ok b n' =>
      rw [hr, hr'] at hmeets
      cases hmeets
    | error g n' =>
      rw [hr, hr'] at hmeets
      rw [bind_of_error hr, bind_of_error hr']
      cases hmeets with
      | error f hmn' => exact .error f hmn'

theorem Agree.imp {run : Run α} {run' : Run β} {Q' : α → β → Prop} (h : C.Agree run run' Q)
    (hi : ∀ a b, Q a b → Q' a b) : C.Agree run run' Q' := by
  rw [← bind_pure run, ← bind_pure run']
  exact h.bind fun a b hab => agree_pure (hi a b hab)

theorem agree_ofExcept {r : Except RuntimeError α} {r' : Except RuntimeError β}
    (hok : ∀ a, r = .ok a → ∃ b, r' = .ok b ∧ Q a b) (herror : ∀ e, r = .error e → r' = .error e) :
    C.Agree (Run.ofExcept r) (Run.ofExcept r') Q := by
  cases r with
  | ok a =>
    obtain ⟨b, rfl, hab⟩ := hok a rfl
    exact agree_pure hab
  | error e =>
    rw [herror e rfl]
    exact agree_stop _

/-- What looking up a name gives in two stores: alike values or none, or the same failure. -/
inductive Found (C : Comparison) :
    Except Failure (Option Value) → Except Failure (Option Value) → Prop where
  | failed (f : Failure) : Found C (.error f) (.error f)
  | nothing : Found C (.ok none) (.ok none)
  | value {v w : Value} : C.Alike v w → Found C (.ok (some v)) (.ok (some w))

/-- Resolving a name agrees if looking it up gives the same in the scopes. -/
theorem agree_resolve {d i j : Nat} {x : String} (h : ∀ m n, C.holds m n →
    C.Found (m.store.lookup? x d i) (n.store.lookup? x d j)) :
    C.Agree (Run.resolve d i x) (Run.resolve d j x) C.Alike := by
  have hbuiltin : C.Agree (Run.resolveBuiltin x) (Run.resolveBuiltin x) C.Alike := by
    unfold Run.resolveBuiltin
    split
    · exact agree_pure (.builtin _)
    · exact agree_stop _
  intro m n hmn
  have hlookup := h m n hmn
  unfold Run.resolve
  revert hlookup
  generalize m.store.lookup? x d i = l
  generalize n.store.lookup? x d j = r
  intro hlookup
  cases hlookup with
  | failed f => exact .error f hmn
  | nothing => exact hbuiltin m n hmn
  | value hvw =>
    cases hvw with
    | missing => exact hbuiltin m n hmn
    | integer k => exact .ok hmn (.integer k)
    | boolean b => exact .ok hmn (.boolean b)
    | string t => exact .ok hmn (.string t)
    | function htree hscope => exact .ok hmn (.function htree hscope)
    | builtin b => exact .ok hmn (.builtin b)
    | null => exact .ok hmn .null
    | foreign t => exact .ok hmn (.foreign t)

section Renamed

variable {ρ : Nat → Nat} {vs ws : List Value}

/-- Where `ρ` gives the scopes that are related, alike values differ by it only. -/
theorem Alike.eq_renamed (hρ : ∀ i j, C.scope i j → j = ρ i) (h : C.Alike v w) :
    w = v.renamed ρ := by
  cases h with
  | function _ hscope => rw [hρ _ _ hscope, Value.renamed]
  | _ => rfl

theorem eq_map_renamed (hρ : ∀ i j, C.scope i j → j = ρ i) (h : List.Forall₂ C.Alike vs ws) :
    ws = vs.map (Value.renamed ρ) := by
  induction h with
  | nil => rfl
  | cons h _ ih => rw [List.map_cons, ih, h.eq_renamed hρ]

theorem Alike.eq (hscope : ∀ i j, C.scope i j → i = j) (h : C.Alike v w) : v = w := by
  cases h with
  | function _ hij => rw [hscope _ _ hij]
  | _ => rfl

theorem eq_of_forall₂_alike (hscope : ∀ i j, C.scope i j → i = j)
    (h : List.Forall₂ C.Alike vs ws) : vs = ws := by
  induction h with
  | nil => rfl
  | cons h _ ih => rw [h.eq hscope, ih]

theorem alike_renamed (htrees : ∀ e, C.trees.expression e) (hρ : ∀ i, C.scope i (ρ i))
    (v : Value) : C.Alike v (v.renamed ρ) := by
  cases v with
  | integer n => exact .integer n
  | boolean b => exact .boolean b
  | string s => exact .string s
  | function ps body scope => exact .function (htrees _) (hρ scope)
  | builtin b => exact .builtin b
  | null => exact .null
  | foreign t => exact .foreign t
  | missing => exact .missing

end Renamed

section Values

theorem Alike.tag (h : C.Alike v w) : v.tag = w.tag := by
  cases h <;> rfl

theorem Alike.truth? (h : C.Alike v w) : v.truth? = w.truth? := by
  cases h <;> rfl

theorem Alike.text? (h : C.Alike v w) : v.text? = w.text? := by
  cases h <;> rfl

theorem Alike.quoted? (h : C.Alike v w) : v.quoted? = w.quoted? := by
  cases h <;> rfl

theorem Alike.fits (h : C.Alike v w) (d : Nat) : v.fits d = w.fits d := by
  cases h <;> rfl

theorem agree_lacking (h : C.Alike v w) (failure : String → Failure) :
    C.Agree (Run.lacking v failure) (Run.lacking w failure) Q := by
  cases h <;> exact agree_stop _

theorem agree_truth (h : C.Alike v w) : C.Agree (Run.truth v) (Run.truth w) Eq := by
  unfold Run.truth
  rw [h.truth?]
  split
  · exact agree_pure rfl
  · exact agree_lacking h _

theorem agree_shown (h : C.Alike v w) (d : Nat) :
    C.Agree (Run.shown d v) (Run.shown d w) Eq := by
  unfold Run.shown
  rw [h.fits, h.text?]
  split
  · split
    · exact agree_pure rfl
    · exact agree_lacking h _
  · exact agree_stop _

theorem agree_inspected (h : C.Alike v w) (d : Nat) :
    C.Agree (Run.inspected d v) (Run.inspected d w) Eq := by
  unfold Run.inspected
  rw [h.fits, h.quoted?]
  split
  · split
    · exact agree_pure rfl
    · exact agree_lacking h _
  · exact agree_stop _

theorem agree_negate (op : String) (n : Int) :
    C.Agree (Run.ofExcept (Arithmetic.negate op n)) (Run.ofExcept (Arithmetic.negate op n))
      C.Alike := by
  unfold Arithmetic.negate
  split
  · exact agree_pure (.integer _)
  · exact agree_stop _

theorem agree_unary (h : C.Alike v w) (d : Nat) (op : String) :
    C.Agree (Run.unary d op v) (Run.unary d op w) C.Alike := by
  have hbad : C.Agree (Run.inspected d v >>= fun t => Run.fail (.badUnary op t))
      (Run.inspected d w >>= fun t => Run.fail (.badUnary op t)) C.Alike := by
    apply (agree_inspected h d).bind
    rintro t _ rfl
    exact agree_stop _
  unfold Run.unary
  split
  · apply (agree_truth h).bind
    rintro b _ rfl
    exact agree_pure (.boolean _)
  · by_cases hop : op = "-"
    · subst hop
      cases h with
      | integer n => exact agree_negate "-" n
      | _ => exact hbad
    · split
      · exact absurd rfl hop
      · split
        · exact absurd rfl hop
        · exact hbad

theorem agree_badBinary {v' w' : Value} (h : C.Alike v w) (h' : C.Alike v' w') (d : Nat)
    (op : String) : C.Agree (Run.badBinary d op v v') (Run.badBinary d op w w') C.Alike := by
  unfold Run.badBinary
  apply (agree_inspected h d).bind
  rintro s _ rfl
  apply (agree_inspected h' d).bind
  rintro t _ rfl
  exact agree_stop _

theorem agree_arithmetic (op : String) (m n : Int) :
    C.Agree (Run.ofExcept (Arithmetic.binary op m n)) (Run.ofExcept (Arithmetic.binary op m n))
      C.Alike := by
  unfold Arithmetic.binary
  split
  · exact agree_pure (.boolean _)
  · split
    · exact agree_stop _
    · split
      · exact agree_pure (.integer _)
      · exact agree_stop _

theorem agree_binary {v' w' : Value} (h : C.Alike v w) (h' : C.Alike v' w') (d : Nat)
    (op : String) : C.Agree (Run.binary d op v v') (Run.binary d op w w') C.Alike := by
  have hbad := agree_badBinary h h' d op
  cases h with
  | integer m =>
    cases h' with
    | integer n => exact agree_arithmetic op m n
    | _ => exact hbad
  | boolean a =>
    cases h' with
    | boolean b =>
      unfold Run.binary
      dsimp only
      split
      · exact agree_pure (.boolean _)
      · exact agree_pure (.boolean _)
      · exact hbad
    | _ => exact hbad
  | _ => exact hbad

theorem agree_lineValue (line : String) :
    C.Agree
      (match Builtin.lineValue line with
        | .ok u => pure u
        | .error e => Run.stop (.numeral e))
      (match Builtin.lineValue line with
        | .ok u => pure u
        | .error e => Run.stop (.numeral e)) C.Alike := by
  unfold Builtin.lineValue
  dsimp only
  split
  · next u hu =>
    split at hu
    · cases hu
      exact agree_pure (.string _)
    · cases hu
    · split at hu <;> cases hu
      · exact agree_pure (.integer _)
      · exact agree_pure (.string _)
  · exact agree_stop _

theorem tags_eq {vs ws : List Value} (h : List.Forall₂ C.Alike vs ws) :
    vs.map Value.tag = ws.map Value.tag := by
  induction h with
  | nil => rfl
  | cons h _ ih => rw [List.map_cons, List.map_cons, h.tag, ih]

end Values

structure Same (C : Comparison) (o p : Outcome) : Prop where
  value : C.Alike o.value p.value
  returned : o.returned = p.returned

theorem Same.eq {o p : Outcome} (hscope : ∀ i j, C.scope i j → i = j) (h : C.Same o p) : o = p := by
  cases o
  cases p
  cases h.value.eq hscope
  cases h.returned
  rfl

/-- The primitive steps of two evaluations of such trees keep the machines related. -/
structure Lawful (C : Comparison) (debug debug' : Bool) : Prop where
  body : ∀ {ps body}, C.trees.expression (.function ps body) → ∀ s ∈ body, C.trees.statement s
  note : ∀ text, C.Agree (Run.note debug text) (Run.note debug' text) fun _ _ => True
  line : ∀ text, C.Agree (Run.event (.line text)) (Run.event (.line text)) fun _ _ => True
  ask : ∀ prompt, C.Agree (Run.ask prompt) (Run.ask prompt) Eq
  bindName : ∀ {n e i j v w}, C.trees.statement (.binding n e) → C.scope i j → C.Alike v w →
    C.Agree (Run.bindName i n v) (Run.bindName j n w) fun _ _ => True
  resolve : ∀ {n i j}, C.trees.expression (.name n) → C.scope i j → ∀ d,
    C.Agree (Run.resolve d i n) (Run.resolve d j n) C.Alike
  enter : ∀ {ps body i j vs ws}, C.trees.expression (.function ps body) → C.scope i j →
    List.Forall₂ C.Alike vs ws → C.Agree (Run.enter ps i vs) (Run.enter ps j ws) C.scope

structure Agreeing (C : Comparison) (debug debug' : Bool) (d : Nat) : Prop where
  statement : ∀ {i j s}, C.scope i j → C.trees.statement s →
    C.Agree (Run.statement debug d i s) (Run.statement debug' d j s) C.Same
  expression : ∀ {i j e}, C.scope i j → C.trees.expression e →
    C.Agree (Run.expression debug d i e) (Run.expression debug' d j e) C.Same
  apply : ∀ {f g vs ws}, C.Alike f g → List.Forall₂ C.Alike vs ws →
    C.Agree (Run.apply debug d f vs) (Run.apply debug' d g ws) C.Alike

section Evaluation

variable {debug debug' : Bool} {d i j : Nat} {o p : Outcome}

theorem agree_value (h : C.Alike v w) :
    C.Agree (pure ⟨v, false⟩ : Run Outcome) (pure ⟨w, false⟩) C.Same :=
  agree_pure ⟨h, rfl⟩

/-- The value of a construct that goes on unless one of its parts returns. -/
theorem Same.agree_next {run run' : Run Outcome} (h : C.Same o p)
    (hn : C.Alike o.value p.value → C.Agree run run' C.Same) :
    C.Agree (if o.returned then pure o else run) (if p.returned then pure p else run') C.Same := by
  rw [h.returned]
  split
  · exact agree_pure h
  · exact hn h.value

theorem agree_blockFrom {run run' : Statement → Run Outcome} {ss : List Statement}
    (h : ∀ s ∈ ss, C.Agree (run s) (run' s) C.Same) (hlast : C.Same o p) :
    C.Agree (Run.blockFrom run o ss) (Run.blockFrom run' p ss) C.Same := by
  induction ss generalizing o p with
  | nil => exact agree_pure hlast
  | cons s ss ih =>
    rw [Run.blockFrom, Run.blockFrom]
    apply (h s List.mem_cons_self).bind
    intro o p hop
    apply hop.agree_next
    intro _
    exact ih (fun t ht => h t (List.mem_cons_of_mem s ht)) hop

theorem agree_block {run run' : Statement → Run Outcome} {ss : List Statement}
    (h : ∀ s ∈ ss, C.Agree (run s) (run' s) C.Same) :
    C.Agree (Run.block run ss) (Run.block run' ss) C.Same :=
  agree_blockFrom h ⟨.null, rfl⟩

inductive SameArguments (C : Comparison) :
    Except Outcome (List Value) → Except Outcome (List Value) → Prop where
  | returned {o p : Outcome} : C.Same o p → SameArguments C (.error o) (.error p)
  | values {vs ws : List Value} : List.Forall₂ C.Alike vs ws → SameArguments C (.ok vs) (.ok ws)

theorem agree_argumentsFrom {run run' : Expression → Run Outcome} {es : List Expression}
    (h : ∀ e ∈ es, C.Agree (run e) (run' e) C.Same) {done done' : List Value}
    (hdone : List.Forall₂ C.Alike done done') :
    C.Agree (Run.argumentsFrom run done es) (Run.argumentsFrom run' done' es) C.SameArguments := by
  induction es generalizing done done' with
  | nil => exact agree_pure (.values (List.rel_reverse hdone))
  | cons e es ih =>
    rw [Run.argumentsFrom, Run.argumentsFrom]
    apply (h e List.mem_cons_self).bind
    intro o p hop
    rw [hop.returned]
    split
    · exact agree_pure (.returned hop)
    · exact ih (fun f hf => h f (List.mem_cons_of_mem e hf)) (.cons hop.value hdone)

theorem agree_arguments {run run' : Expression → Run Outcome} {es : List Expression}
    (h : ∀ e ∈ es, C.Agree (run e) (run' e) C.Same) :
    C.Agree (Run.arguments run es) (Run.arguments run' es) C.SameArguments :=
  agree_argumentsFrom h .nil

theorem Lawful.builtinBody (hl : C.Lawful debug debug') {vs ws : List Value}
    (h : List.Forall₂ C.Alike vs ws) (b : Builtin) :
    C.Agree (Run.builtinBody d b vs) (Run.builtinBody d b ws) C.Alike := by
  cases h with
  | nil => cases b <;> exact agree_pure .null
  | cons hv hvs =>
    cases hvs with
    | cons _ _ =>
      cases b with
      | str => exact agree_pure .null
      | println => exact agree_pure .null
      | len => cases hv <;> exact agree_pure .null
      | input => cases hv <;> exact agree_pure .null
    | nil =>
      cases b with
      | len =>
        cases hv with
        | string s => exact agree_pure (.integer _)
        | _ => exact agree_pure .null
      | str =>
        apply (agree_shown hv d).bind
        rintro t _ rfl
        exact agree_pure (.string t)
      | println =>
        apply (agree_shown hv d).bind
        rintro t _ rfl
        apply (hl.line t).bind
        intro _ _ _
        exact agree_pure .null
      | input =>
        cases hv with
        | string prompt =>
          apply (hl.ask prompt).bind
          rintro line _ rfl
          exact agree_lineValue _
        | _ => exact agree_pure .null

theorem Lawful.builtin (hl : C.Lawful debug debug') {vs ws : List Value}
    (h : List.Forall₂ C.Alike vs ws) (b : Builtin) :
    C.Agree (Run.builtin d b vs) (Run.builtin d b ws) C.Alike := by
  unfold Run.builtin
  rw [tags_eq h]
  apply (agree_ofExcept (Q := fun _ _ => True) (fun u hu => ⟨u, hu, trivial⟩) fun _ he => he).bind
  intro _ _ _
  exact hl.builtinBody h b

theorem Agreeing.statement_succ (h : C.Agreeing debug debug' d) (hl : C.Lawful debug debug')
    {s : Statement} (hscope : C.scope i j) (hs : C.trees.statement s) :
    C.Agree (Run.statement debug (d + 1) i s) (Run.statement debug' (d + 1) j s) C.Same := by
  rw [Run.statement.eq_def, Run.statement.eq_def]
  apply (hl.note _).bind
  intro _ _ _
  cases s with
  | binding n e =>
    apply (h.expression hscope (C.trees.binding hs)).bind
    intro o p hop
    apply hop.agree_next
    intro hv
    apply (hl.bindName hs hscope hv).bind
    intro _ _ _
    exact agree_pure hop
  | ret e =>
    apply (h.expression hscope (C.trees.ret hs)).bind
    intro o p hop
    exact agree_pure ⟨hop.value, rfl⟩
  | expression e => exact h.expression hscope (C.trees.only hs)
  | block ss => exact agree_block fun s hmem => h.statement hscope (C.trees.block hs s hmem)
  | hole => exact agree_stop _

theorem Agreeing.conditional (h : C.Agreeing debug debug' d) {c : Expression}
    {t : List Statement} {a : Option (List Statement)} (hscope : C.scope i j)
    (he : C.trees.expression (.conditional c t a)) (hvw : C.Alike v w) :
    C.Agree
      (do
        if ← Run.truth v then Run.block (Run.statement debug d i) t
        else
          match a with
          | some e => Run.block (Run.statement debug d i) e
          | none => return ⟨.null, false⟩)
      (do
        if ← Run.truth w then Run.block (Run.statement debug' d j) t
        else
          match a with
          | some e => Run.block (Run.statement debug' d j) e
          | none => return ⟨.null, false⟩) C.Same := by
  apply (agree_truth hvw).bind
  rintro b _ rfl
  cases b with
  | true => exact agree_block fun s hs => h.statement hscope (C.trees.consequence he s hs)
  | false =>
    cases a with
    | some e => exact agree_block fun s hs => h.statement hscope (C.trees.alternative he s hs)
    | none => exact agree_value .null

theorem Agreeing.expression_succ (h : C.Agreeing debug debug' d) (hl : C.Lawful debug debug')
    {e : Expression} (hscope : C.scope i j) (he : C.trees.expression e) :
    C.Agree (Run.expression debug (d + 1) i e) (Run.expression debug' (d + 1) j e) C.Same := by
  rw [Run.expression.eq_def, Run.expression.eq_def]
  apply (hl.note _).bind
  intro _ _ _
  cases e with
  | integer n => exact agree_value (.integer n)
  | boolean b => exact agree_value (.boolean b)
  | string s => exact agree_value (.string s)
  | function ps body => exact agree_value (.function he hscope)
  | hole => exact agree_stop _
  | name n =>
    apply (hl.resolve he hscope d).bind
    intro _ _ hv
    exact agree_value hv
  | unary op operand =>
    apply (h.expression hscope (C.trees.unary he)).bind
    intro o p hop
    apply hop.agree_next
    intro hv
    apply (agree_unary hv d op).bind
    intro _ _ hv
    exact agree_value hv
  | binary l op r =>
    apply (h.expression hscope (C.trees.binary he).1).bind
    intro o p hop
    apply hop.agree_next
    intro hleft
    apply (h.expression hscope (C.trees.binary he).2).bind
    intro o p hop
    apply hop.agree_next
    intro hright
    apply (agree_binary hleft hright d op).bind
    intro _ _ hv
    exact agree_value hv
  | conditional c t a =>
    apply (h.expression hscope (C.trees.condition he)).bind
    intro o p hop
    apply hop.agree_next
    intro hv
    exact h.conditional hscope he hv
  | call callee args =>
    apply (h.expression hscope (C.trees.call he).1).bind
    intro o p hop
    apply hop.agree_next
    intro hcallee
    have hargs : ∀ a ∈ args, C.Agree (Run.expression debug d i a) (Run.expression debug' d j a)
        C.Same := fun a ha => h.expression hscope ((C.trees.call he).2 a ha)
    apply (agree_arguments hargs).bind
    intro r r' hr
    cases hr with
    | returned hop => exact agree_pure hop
    | values hvs =>
      apply (h.apply hcallee hvs).bind
      intro _ _ hv
      exact agree_value hv

theorem Agreeing.apply_succ (h : C.Agreeing debug debug' d) (hl : C.Lawful debug debug')
    {f g : Value} {vs ws : List Value} (hf : C.Alike f g) (hvs : List.Forall₂ C.Alike vs ws) :
    C.Agree (Run.apply debug (d + 1) f vs) (Run.apply debug' (d + 1) g ws) C.Alike := by
  have hbad : C.Agree (Run.inspected d f >>= fun t => Run.fail (.notAFunction t))
      (Run.inspected d g >>= fun t => Run.fail (.notAFunction t)) C.Alike := by
    apply (agree_inspected hf d).bind
    rintro t _ rfl
    exact agree_stop _
  rw [Run.apply.eq_def, Run.apply.eq_def]
  cases hf with
  | function htree hscope =>
    apply (hl.enter htree hscope hvs).bind
    intro k l hkl
    apply (agree_block fun s hs => h.statement hkl (hl.body htree s hs)).bind
    intro o p hop
    exact agree_pure hop.value
  | builtin b => exact hl.builtin hvs b
  | _ => exact hbad

theorem Lawful.agreeing (hl : C.Lawful debug debug') (d : Nat) : C.Agreeing debug debug' d := by
  induction d with
  | zero =>
    constructor
    · intro _ _ _ _ _
      exact agree_stop _
    · intro _ _ _ _ _
      exact agree_stop _
    · intro _ _ _ _ _ _
      exact agree_stop _
  | succ d ih =>
    constructor
    · intro _ _ _ hscope hs
      exact ih.statement_succ hl hscope hs
    · intro _ _ _ hscope he
      exact ih.expression_succ hl hscope he
    · intro _ _ _ _ hf hvs
      exact ih.apply_succ hl hf hvs

theorem agree_markedWith {run run' : Run Outcome} (h : C.Agree run run' C.Same) (depth : Nat)
    (s : Statement) :
    C.Agree (Run.markedWith depth s run) (Run.markedWith depth s run') C.Same := by
  intro m n hmn
  have hmeets := h m n hmn
  unfold Run.markedWith
  cases hr : run m with
  | ok o m' =>
    rw [hr] at hmeets
    cases hr' : run' n with
    | ok o' n' =>
      rw [hr'] at hmeets
      exact hmeets
    | error f n' =>
      rw [hr'] at hmeets
      cases hmeets
  | error f m' =>
    rw [hr] at hmeets
    cases hr' : run' n with
    | ok o' n' =>
      rw [hr'] at hmeets
      cases hmeets
    | error g n' =>
      rw [hr'] at hmeets
      cases hmeets with
      | error f hmn' =>
        rcases f with ⟨e, _ | source⟩ | t | t | _ | e | _ <;> exact .error _ hmn'

theorem Lawful.top (hl : C.Lawful debug debug') (depth : Nat) {ss : List Statement}
    (hscope : C.scope i j) (hss : ∀ s ∈ ss, C.trees.statement s) :
    C.Agree (Run.block (Run.top debug depth i) ss) (Run.block (Run.top debug' depth j) ss)
      C.Same :=
  agree_block fun s hs => agree_markedWith ((hl.agreeing depth).statement hscope (hss s hs)) depth s

theorem Lawful.program (hl : C.Lawful debug debug') (depth : Nat) {p : Program}
    (hscope : C.scope i j) (hp : ∀ s ∈ p.statements, C.trees.statement s) :
    C.Agree (Run.program debug depth i p) (Run.program debug' depth j p) C.Alike := by
  rw [Run.program_eq_block, Run.program_eq_block]
  apply (hl.top depth hscope hp).bind
  intro o p hop
  exact agree_pure hop.value

end Evaluation

end Comparison

end Monkey
