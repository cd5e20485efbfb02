import Monkey.Proofs.Evaluation.Basic
import Monkey.Proofs.Evaluation.Console
import Monkey.Proofs.Evaluation.Frame
import Monkey.Proofs.Program.Height
import Monkey.Proofs.Scope.Chain

/-!
# Evaluations that may go deeper

An evaluation that may go deeper does the same and ends in the same way, unless the other one stops
because it may not. Then all that the other one did on the console is what the deeper one does there
first.
-/

namespace Monkey

set_option autoImplicit false

theorem all_mono {α : Type} {p q : α → Bool} (h : ∀ a, p a = true → q a = true) {as : List α}
    (ha : as.all p = true) : as.all q = true :=
  List.all_eq_true.mpr fun a hm => h a (List.all_eq_true.mp ha a hm)

theorem Value.fits_mono {d d' : Nat} (h : d ≤ d') {v : Value} (hv : v.fits d = true) :
    v.fits d' = true := by
  cases v with
  | function ps body scope => exact all_mono (fun s => s.fits_mono h) hv
  | _ => rfl

namespace Run

variable {α β : Type} {run run' : Run α} {d d' : Nat} {debug : Bool}

/-- Whatever comes of the run, it only does something on the console. -/
def Forward (run : Run α) : Prop := ∀ m : Machine, m.console.Leads (run.after m).console

/-- The second run does what the first one does, and goes on where that stops because it may not go
deeper. -/
structure Deepens (run run' : Run α) : Prop where
  forward : run'.Forward
  result : ∀ m, run' m = run m ∨
    ∃ n, run m = .error .tooDeep n ∧ n.console.Leads (run'.after m).console

section Forward

theorem Idle.forward (h : Idle run) : Forward run := by
  intro m
  rw [h m]
  exact .refl _

theorem forward_line (t : String) : Forward (event (.line t)) := fun m =>
  m.console.leads_perform (.line t)

theorem forward_ask (prompt : String) : Forward (ask prompt) := fun m =>
  m.console.leads_perform (.prompt prompt)

theorem forward_note (debug : Bool) (text : String) : Forward (note debug text) := by
  unfold note
  split
  · exact fun m => m.console.leads_perform (.record _)
  · exact (idle_pure ()).forward

theorem forward_bindName (scope : Nat) (name : String) (v : Value) :
    Forward (bindName scope name v) := fun m => .refl m.console

theorem forward_enter (ps : List String) (scope : Nat) (args : List Value) :
    Forward (enter ps scope args) := by
  unfold enter
  split
  · exact fun m => .refl m.console
  · exact (idle_stop _).forward

end Forward

section Deepens

theorem Forward.deepens (h : Forward run) : Deepens run run := ⟨h, fun _ => .inl rfl⟩

theorem Idle.deepens (h : Idle run) : Deepens run run := h.forward.deepens

theorem deepens_pure (a : α) : Deepens (pure a : Run α) (pure a) := (idle_pure a).deepens

theorem deepens_stop (f : Failure) : Deepens (stop f : Run α) (stop f) := (idle_stop f).deepens

theorem Forward.tooDeep (h : Forward run) : Deepens (stop .tooDeep) run :=
  ⟨h, fun m => .inr ⟨m, rfl, h m⟩⟩

theorem Deepens.bind {next next' : α → Run β} (h : Deepens run run')
    (hn : ∀ a, Deepens (next a) (next' a)) : Deepens (run >>= next) (run' >>= next') := by
  constructor
  · intro m
    have hrun := h.forward m
    unfold after at hrun
    rw [after_bind]
    cases hr : run' m with
    | error f n =>
      rw [hr] at hrun
      exact hrun
    | ok a n =>
      rw [hr] at hrun
      exact hrun.trans ((hn a).forward n)
  · intro m
    rw [after_bind]
    rcases h.result m with hsame | ⟨n, hdeep, hleads⟩
    · cases hr : run m with
      | error f n =>
        rw [bind_of_error hr, bind_of_error (hsame.trans hr)]
        exact .inl rfl
      | ok a n =>
        rw [bind_of_ok hr, bind_of_ok (hsame.trans hr), hsame, hr]
        exact (hn a).result n
    · refine .inr ⟨n, bind_of_error hdeep, hleads.trans ?_⟩
      unfold after
      cases run' m with
      | error f n => exact .refl _
      | ok a n => exact (hn a).forward n

/-- The value of a construct that goes on unless one of its parts returns. -/
theorem deepens_next {run run' : Run Outcome} (o : Outcome) (h : Deepens run run') :
    Deepens (if o.returned then pure o else run) (if o.returned then pure o else run') := by
  split
  · exact deepens_pure o
  · exact h

theorem deepens_fitting (h : d ≤ d') (v : Value) (hidle : Idle run) :
    Deepens (if v.fits d then run else stop .tooDeep)
      (if v.fits d' then run else stop .tooDeep) := by
  by_cases hv : v.fits d = true
  · rw [if_pos hv, if_pos (Value.fits_mono h hv)]
    exact hidle.deepens
  · rw [if_neg hv]
    apply Forward.tooDeep
    split
    · exact hidle.forward
    · exact (idle_stop _).forward

theorem deepens_shown (h : d ≤ d') (v : Value) : Deepens (shown d v) (shown d' v) := by
  apply deepens_fitting h v
  split
  · exact idle_pure _
  · exact idle_lacking v _

theorem deepens_inspected (h : d ≤ d') (v : Value) : Deepens (inspected d v) (inspected d' v) := by
  apply deepens_fitting h v
  split
  · exact idle_pure _
  · exact idle_lacking v _

theorem deepens_resolve (h : d ≤ d') (scope : Nat) (name : String) :
    Deepens (resolve d scope name) (resolve d' scope name) := by
  have hforward := (idle_resolve d' scope name).forward
  refine ⟨hforward, ?_⟩
  intro m
  cases hl : m.store.lookup? name d scope with
  | error f =>
    refine .inr ⟨m, ?_, hforward m⟩
    unfold resolve
    rw [hl, Store.tooDeep_of_lookup? hl]
  | ok found =>
    refine .inl ?_
    unfold resolve
    rw [hl, Store.lookup?_deeper hl h]

theorem deepens_unary (h : d ≤ d') (op : String) (v : Value) :
    Deepens (unary d op v) (unary d' op v) := by
  unfold unary
  split
  · exact ((idle_truth v).bind fun _ => idle_pure _).deepens
  · split
    · exact (idle_ofExcept _).deepens
    · apply (deepens_inspected h v).bind
      intro t
      exact deepens_stop _

theorem deepens_badBinary (h : d ≤ d') (op : String) (v w : Value) :
    Deepens (badBinary d op v w) (badBinary d' op v w) := by
  apply (deepens_inspected h v).bind
  intro s
  apply (deepens_inspected h w).bind
  intro t
  exact deepens_stop _

theorem deepens_binary (h : d ≤ d') (op : String) (v w : Value) :
    Deepens (binary d op v w) (binary d' op v w) := by
  unfold binary
  split
  · exact (idle_ofExcept _).deepens
  · split
    · exact deepens_pure _
    · exact deepens_pure _
    · exact deepens_badBinary h op _ _
  · exact deepens_badBinary h op _ _

theorem deepens_builtin (h : d ≤ d') (b : Builtin) (args : List Value) :
    Deepens (builtin d b args) (builtin d' b args) := by
  apply (idle_ofExcept _).deepens.bind
  intro _
  unfold builtinBody
  split
  · exact deepens_pure _
  · apply (deepens_shown h _).bind
    intro t
    exact deepens_pure _
  · apply (deepens_shown h _).bind
    intro t
    apply (forward_line t).deepens.bind
    intro _
    exact deepens_pure _
  · apply (forward_ask _).deepens.bind
    intro line
    split
    · exact deepens_pure _
    · exact deepens_stop _
  · exact deepens_pure _

end Deepens

structure Deeper (debug : Bool) (d d' : Nat) : Prop where
  statement : ∀ scope s, Deepens (Run.statement debug d scope s) (Run.statement debug d' scope s)
  expression : ∀ scope e,
    Deepens (Run.expression debug d scope e) (Run.expression debug d' scope e)
  apply : ∀ f args, Deepens (Run.apply debug d f args) (Run.apply debug d' f args)

section Evaluation

theorem deepens_blockFrom {run run' : Statement → Run Outcome} (h : ∀ s, Deepens (run s) (run' s))
    (last : Outcome) (ss : List Statement) :
    Deepens (blockFrom run last ss) (blockFrom run' last ss) := by
  induction ss generalizing last with
  | nil => exact deepens_pure last
  | cons s ss ih =>
    apply (h s).bind
    intro o
    exact deepens_next o (ih o)

theorem deepens_argumentsFrom {run run' : Expression → Run Outcome}
    (h : ∀ e, Deepens (run e) (run' e)) (done : List Value) (es : List Expression) :
    Deepens (argumentsFrom run done es) (argumentsFrom run' done es) := by
  induction es generalizing done with
  | nil => exact deepens_pure _
  | cons e es ih =>
    apply (h e).bind
    intro o
    split
    · exact deepens_pure _
    · exact ih _

theorem Deeper.block (h : Deeper debug d d') (scope : Nat) (ss : List Statement) :
    Deepens (Run.block (Run.statement debug d scope) ss)
      (Run.block (Run.statement debug d' scope) ss) :=
  deepens_blockFrom (h.statement scope) _ ss

theorem Deeper.statement_succ (h : Deeper debug d d') (scope : Nat) (s : Statement) :
    Deepens (Run.statement debug (d + 1) scope s) (Run.statement debug (d' + 1) scope s) := by
  rw [Run.statement.eq_def, Run.statement.eq_def debug (d' + 1)]
  apply (forward_note debug _).deepens.bind
  intro _
  cases s with
  | expression e => exact h.expression scope e
  | binding n e =>
    apply (h.expression scope e).bind
    intro o
    apply deepens_next
    apply (forward_bindName scope n o.value).deepens.bind
    intro _
    exact deepens_pure o
  | ret e =>
    apply (h.expression scope e).bind
    intro o
    exact deepens_pure _
  | block ss => exact h.block scope ss
  | hole => exact deepens_stop _

theorem Deeper.expression_succ (h : Deeper debug d d') (hd : d ≤ d') (scope : Nat)
    (e : Expression) :
    Deepens (Run.expression debug (d + 1) scope e) (Run.expression debug (d' + 1) scope e) := by
  rw [Run.expression.eq_def, Run.expression.eq_def debug (d' + 1)]
  apply (forward_note debug _).deepens.bind
  intro _
  cases e with
  | integer n => exact deepens_pure _
  | boolean b => exact deepens_pure _
  | string s => exact deepens_pure _
  | name n =>
    apply (deepens_resolve hd scope n).bind
    intro v
    exact deepens_pure _
  | unary op e =>
    apply (h.expression scope e).bind
    intro o
    apply deepens_next
    apply (deepens_unary hd op o.value).bind
    intro v
    exact deepens_pure _
  | binary l op r =>
    apply (h.expression scope l).bind
    intro o
    apply deepens_next
    apply (h.expression scope r).bind
    intro p
    apply deepens_next
    apply (deepens_binary hd op o.value p.value).bind
    intro v
    exact deepens_pure _
  | conditional c t a =>
    apply (h.expression scope c).bind
    intro o
    apply deepens_next
    apply (idle_truth o.value).deepens.bind
    intro b
    cases b with
    | true => exact h.block scope t
    | false =>
      cases a with
      | none => exact deepens_pure _
      | some e => exact h.block scope e
  | function ps body => exact deepens_pure _
  | call f args =>
    apply (h.expression scope f).bind
    intro o
    apply deepens_next
    apply (deepens_argumentsFrom (h.expression scope) [] args).bind
    intro r
    cases r with
    | error p => exact deepens_pure p
    | ok vs =>
      apply (h.apply o.value vs).bind
      intro v
      exact deepens_pure _
  | hole => exact deepens_stop _

theorem Deeper.apply_succ (h : Deeper debug d d') (hd : d ≤ d') (f : Value) (args : List Value) :
    Deepens (Run.apply debug (d + 1) f args) (Run.apply debug (d' + 1) f args) := by
  rw [Run.apply.eq_def, Run.apply.eq_def debug (d' + 1)]
  dsimp only
  split
  · next ps body scope =>
    apply (forward_enter ps scope args).deepens.bind
    intro inner
    apply (h.block inner body).bind
    intro o
    exact deepens_pure _
  · next b => exact deepens_builtin hd b args
  · apply (deepens_inspected hd _).bind
    intro t
    exact deepens_stop _

theorem deeper (debug : Bool) (h : d ≤ d') : Deeper debug d d' := by
  induction d' generalizing d with
  | zero =>
    obtain rfl := Nat.le_zero.mp h
    constructor
    · intro scope s
      rw [Run.statement]
      exact deepens_stop _
    · intro scope e
      rw [Run.expression]
      exact deepens_stop _
    · intro f args
      rw [Run.apply]
      exact deepens_stop _
  | succ d' ih =>
    have hself := ih (Nat.le_refl d')
    cases d with
    | zero =>
      -- the deeper evaluation is forward because it may go deeper than itself
      constructor
      · intro scope s
        rw [Run.statement]
        exact (hself.statement_succ scope s).forward.tooDeep
      · intro scope e
        rw [Run.expression]
        exact (hself.expression_succ (Nat.le_refl d') scope e).forward.tooDeep
      · intro f args
        rw [Run.apply]
        exact (hself.apply_succ (Nat.le_refl d') f args).forward.tooDeep
    | succ d =>
      have hd := Nat.le_of_succ_le_succ h
      constructor
      · exact (ih hd).statement_succ
      · exact (ih hd).expression_succ hd
      · exact (ih hd).apply_succ hd

theorem Deepens.markedWith {run run' : Run Outcome} (h : Deepens run run') (hd : d ≤ d')
    (s : Statement) : Deepens (markedWith d s run) (markedWith d' s run') := by
  constructor
  · intro m
    rw [markedWith_after]
    exact h.forward m
  · intro m
    rw [markedWith_after]
    unfold Run.markedWith
    rcases h.result m with hsame | ⟨n, hdeep, hleads⟩
    · rw [hsame]
      cases hr : run m with
      | ok o n => exact .inl rfl
      | error f n =>
        cases f with
        | runtime e source =>
          cases source with
          | some t => exact .inl rfl
          | none =>
            by_cases hs : s.fits d = true
            · refine .inl ?_
              dsimp only
              rw [if_pos hs, if_pos (s.fits_mono hd hs)]
            · -- the statement is too high to be shown, so the error turns into another one
              refine .inr ⟨n, ?_, ?_⟩
              · dsimp only
                rw [if_neg hs]
              · rw [after, hsame, hr]
                exact .refl _
        | _ => exact .inl rfl
    · rw [hdeep]
      exact .inr ⟨n, rfl, hleads⟩

theorem deepens_program (debug : Bool) (h : d ≤ d') (scope : Nat) (p : Program) :
    Deepens (program debug d scope p) (program debug d' scope p) := by
  rw [program_eq_block, program_eq_block]
  have htop : ∀ s, Deepens (top debug d scope s) (top debug d' scope s) := fun s =>
    ((deeper debug h).statement scope s).markedWith h s
  apply (deepens_blockFrom htop _ p.statements).bind
  intro o
  exact deepens_pure _

end Evaluation

end Run

end Monkey
