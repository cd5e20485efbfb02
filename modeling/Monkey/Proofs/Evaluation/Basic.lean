import Monkey.Evaluation.Program

/-!
# Runs one after another

What a run that goes on with another one gives, once it is known how the first one ends; blocks one
after another; and a program as a block of marked statements.
-/

namespace Monkey

set_option autoImplicit false

section Bind

variable {ε σ α β : Type} {run : EStateM ε σ α} {next : α → EStateM ε σ β} {s t : σ}

theorem bind_of_ok {a : α} (h : run s = .ok a t) : (run >>= next) s = next a t := by
  change EStateM.bind run next s = next a t
  rw [EStateM.bind, h]

theorem bind_of_error {e : ε} (h : run s = .error e t) : (run >>= next) s = .error e t := by
  change EStateM.bind run next s = .error e t
  rw [EStateM.bind, h]

theorem bind_of_eq {run' : EStateM ε σ α} (h : run s = run' t) (next : α → EStateM ε σ β) :
    (run >>= next) s = (run' >>= next) t := by
  change EStateM.bind run next s = EStateM.bind run' next t
  rw [EStateM.bind, EStateM.bind, h]

theorem ok_of_bind {b : β} (h : (run >>= next) s = .ok b t) :
    ∃ a u, run s = .ok a u ∧ next a u = .ok b t := by
  cases hr : run s with
  | ok a u =>
    rw [bind_of_ok hr] at h
    exact ⟨a, u, rfl, h⟩
  | error e u =>
    rw [bind_of_error hr] at h
    cases h

end Bind

namespace Run

def succeeds {α : Type} (run : Run α) (m : Machine) : Bool :=
  match run m with
  | .ok _ _ => true
  | .error _ _ => false

theorem exists_ok_of_succeeds {α : Type} {run : Run α} {m : Machine}
    (h : run.succeeds m = true) : ∃ a n, run m = .ok a n := by
  unfold succeeds at h
  split at h
  · next a n hr => exact ⟨a, n, hr⟩
  · cases h

section Block

variable {statement : Statement → Run Outcome} {last o : Outcome} {ss us : List Statement}
  {m n : Machine}

/-- Statements behind others are evaluated when these do not return. -/
theorem blockFrom_append (hlast : last.returned = false) (ss us : List Statement) :
    blockFrom statement last (ss ++ us) = blockFrom statement last ss >>= fun o =>
      if o.returned then pure o else blockFrom statement o us := by
  induction ss generalizing last with
  | nil =>
    rw [List.nil_append, blockFrom, pure_bind, hlast]
    rfl
  | cons s ss ih =>
    rw [List.cons_append, blockFrom, blockFrom, bind_assoc]
    congr 1
    funext o
    cases ho : o.returned with
    | true =>
      rw [if_pos rfl, if_pos rfl, pure_bind, ho]
      rfl
    | false => exact ih ho

theorem block_append (ss us : List Statement) :
    block statement (ss ++ us) = block statement ss >>= fun o =>
      if o.returned then pure o else blockFrom statement o us :=
  blockFrom_append rfl ss us

theorem blockFrom_eq_block (hus : us ≠ []) (last : Outcome) :
    blockFrom statement last us = block statement us := by
  cases us with
  | nil => exact absurd rfl hus
  | cons u us => rfl

theorem block_append_of_ok (h : block statement ss m = .ok o n) (ho : o.returned = false)
    (hus : us ≠ []) : block statement (ss ++ us) m = block statement us n := by
  rw [block_append, bind_of_ok h, ho]
  exact congrFun (blockFrom_eq_block hus o) n

theorem block_append_of_stopped
    (h : ∀ o n, block statement ss m = .ok o n → o.returned = true) (us : List Statement) :
    block statement (ss ++ us) m = block statement ss m := by
  rw [block_append]
  cases hr : block statement ss m with
  | error f n => exact bind_of_error hr
  | ok o n =>
    rw [bind_of_ok hr, h o n hr]
    rfl

end Block

theorem ok_of_markedWith {d : Nat} {s : Statement} {run : Run Outcome} {m n : Machine}
    {o : Outcome} (h : markedWith d s run m = .ok o n) : run m = .ok o n := by
  unfold markedWith at h
  split at h
  · cases h
  · exact h

def top (debug : Bool) (depth scope : Nat) (s : Statement) : Run Outcome :=
  markedWith depth s (statement debug depth scope s)

theorem programFrom_eq_blockFrom (debug : Bool) (depth scope : Nat) (last : Value)
    (ss : List Statement) :
    programFrom debug depth scope last ss =
      blockFrom (top debug depth scope) ⟨last, false⟩ ss >>= fun o => pure o.value := by
  induction ss generalizing last with
  | nil => rfl
  | cons s ss ih =>
    rw [programFrom, blockFrom, bind_assoc]
    congr 1
    funext o
    obtain ⟨v, returned⟩ := o
    cases returned with
    | true => rfl
    | false => exact ih v

/-- A program is a block of statements whose errors are marked. -/
theorem program_eq_block (debug : Bool) (depth scope : Nat) (p : Program) :
    program debug depth scope p =
      block (top debug depth scope) p.statements >>= fun o => pure o.value :=
  programFrom_eq_blockFrom debug depth scope .null p.statements

theorem program_of_block {debug : Bool} {depth scope : Nat} {p : Program} {m n : Machine}
    {o : Outcome} (h : block (top debug depth scope) p.statements m = .ok o n) :
    program debug depth scope p m = .ok o.value n := by
  rw [program_eq_block]
  exact bind_of_ok h

section Append

variable {debug : Bool} {depth scope : Nat} {ss us : List Statement} {m n : Machine} {o : Outcome}

theorem program_append_of_ok (h : block (top debug depth scope) ss m = .ok o n)
    (ho : o.returned = false) (hus : us ≠ []) :
    program debug depth scope ⟨ss ++ us⟩ m = program debug depth scope ⟨us⟩ n := by
  rw [program_eq_block, program_eq_block]
  exact bind_of_eq (block_append_of_ok h ho hus) _

theorem program_append_of_stopped
    (h : ∀ o n, block (top debug depth scope) ss m = .ok o n → o.returned = true)
    (us : List Statement) :
    program debug depth scope ⟨ss ++ us⟩ m = program debug depth scope ⟨ss⟩ m := by
  rw [program_eq_block, program_eq_block]
  exact bind_of_eq (block_append_of_stopped h us) _

end Append

end Run

end Monkey
