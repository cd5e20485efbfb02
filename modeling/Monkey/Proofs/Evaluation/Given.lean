import Monkey.Proofs.Evaluation.Basic
import Monkey.Proofs.Evaluation.Stored

/-!
# What primitive steps give

An operator or a built-in function gives an integer of 64 bits, a boolean, a string or null; only
the length of a string may be a greater integer. A name gives a value out of the store or a built-in
function.
-/

namespace Monkey

set_option autoImplicit false

/-- A property of all values that operators and built-in functions give, lengths apart. -/
structure Value.Common (P : Value → Prop) : Prop where
  integer : ∀ {n}, Integer.fits n = true → P (.integer n)
  boolean : ∀ b, P (.boolean b)
  string : ∀ s, P (.string s)
  null : P .null

namespace Value.Common

variable {P : Value → Prop} {op : String} {v : Value}

theorem of_negate (hP : Common P) {n : Int} (h : Arithmetic.negate op n = .ok v) : P v := by
  unfold Arithmetic.negate at h
  split at h
  · next hf =>
    cases h
    exact hP.integer hf
  · cases h

theorem of_binary (hP : Common P) {l r : Int} (h : Arithmetic.binary op l r = .ok v) : P v := by
  unfold Arithmetic.binary at h
  split at h
  · cases h
    exact hP.boolean _
  · split at h
    · cases h
    · split at h
      · next hf =>
        cases h
        exact hP.integer hf
      · cases h

theorem of_lineValue (hP : Common P) {line : String} (h : Builtin.lineValue line = .ok v) :
    P v := by
  unfold Builtin.lineValue at h
  dsimp only at h
  split at h
  · cases h
    exact hP.string _
  · cases h
  · cases h
    split
    · next hf => exact hP.integer hf
    · exact hP.string _

end Value.Common

namespace Run

variable {α β : Type} {P : Value → Prop}

def Gives (run : Run α) (Q : α → Prop) : Prop := ∀ m a n, run m = .ok a n → Q a

section Gives

variable {Q : α → Prop} {R : β → Prop}

theorem gives_pure {a : α} (h : Q a) : Gives (pure a : Run α) Q := by
  intro m b n hb
  cases hb
  exact h

theorem gives_stop (f : Failure) : Gives (stop f : Run α) Q := by
  intro m b n hb
  cases hb

theorem Gives.bind {run : Run α} {next : α → Run β} (h : Gives run Q)
    (hn : ∀ a, Q a → Gives (next a) R) : Gives (run >>= next) R := by
  intro m b n hb
  obtain ⟨a, u, hrun, hnext⟩ := ok_of_bind hb
  exact hn a (h m a u hrun) u b n hnext

theorem gives_bind {run : Run α} {next : α → Run β} (hn : ∀ a, Gives (next a) R) :
    Gives (run >>= next) R :=
  Gives.bind (Q := fun _ => True) (fun _ _ _ _ => trivial) fun a _ => hn a

theorem Gives.bind_congr {run : Run α} {next next' : α → Run β} (h : Gives run Q)
    (hn : ∀ a, Q a → next a = next' a) : run >>= next = run >>= next' := by
  funext m
  cases hr : run m with
  | ok a n => rw [bind_of_ok hr, bind_of_ok hr, hn a (h m a n hr)]
  | error f n => rw [bind_of_error hr, bind_of_error hr]

theorem gives_ofExcept {r : Except RuntimeError α} (h : ∀ a, r = .ok a → Q a) :
    Gives (ofExcept r) Q := by
  cases r with
  | ok a => exact gives_pure (h a rfl)
  | error e => exact gives_stop _

theorem gives_unary (hP : Value.Common P) (d : Nat) (op : String) (v : Value) :
    Gives (unary d op v) P := by
  unfold unary
  split
  · apply gives_bind
    intro b
    exact gives_pure (hP.boolean _)
  · split
    · exact gives_ofExcept fun _ h => hP.of_negate h
    · apply gives_bind
      intro t
      exact gives_stop _

theorem gives_badBinary (d : Nat) (op : String) (v w : Value) : Gives (badBinary d op v w) P := by
  unfold badBinary
  apply gives_bind
  intro s
  apply gives_bind
  intro t
  exact gives_stop _

theorem gives_binary (hP : Value.Common P) (d : Nat) (op : String) (v w : Value) :
    Gives (binary d op v w) P := by
  unfold binary
  split
  · exact gives_ofExcept fun _ h => hP.of_binary h
  · split
    · exact gives_pure (hP.boolean _)
    · exact gives_pure (hP.boolean _)
    · exact gives_badBinary d op _ _
  · exact gives_badBinary d op _ _

theorem gives_builtin (hP : Value.Common P) {args : List Value}
    (hlength : ∀ s, .string s ∈ args → P (.integer s.length)) (d : Nat) (b : Builtin) :
    Gives (builtin d b args) P := by
  unfold builtin
  apply gives_bind
  intro _
  unfold builtinBody
  split
  · next s => exact gives_pure (hlength s List.mem_cons_self)
  · apply gives_bind
    intro t
    exact gives_pure (hP.string t)
  · apply gives_bind
    intro t
    apply gives_bind
    intro _
    exact gives_pure hP.null
  · apply gives_bind
    intro line
    split
    · next v hv => exact gives_pure (hP.of_lineValue hv)
    · exact gives_stop _
  · exact gives_pure hP.null

theorem gives_notAFunction (d : Nat) (v : Value) :
    Gives (inspected d v >>= fun t => fail (.notAFunction t)) P :=
  gives_bind fun _ => gives_stop _

end Gives

section Resolve

variable {m n : Machine} {depth scope : Nat} {name : String} {v : Value}

/-- A name gives the value that it has in the scope or a built-in function. -/
theorem of_resolve_of_find? (hfind : ∀ w, m.store.find? name scope = some w → P w)
    (hbuiltin : ∀ b, P (.builtin b)) (hr : resolve depth scope name m = .ok v n) : P v := by
  have hb : resolveBuiltin name m = .ok v n → P v := by
    intro hb
    unfold resolveBuiltin at hb
    cases ho : Builtin.ofName? name with
    | none =>
      rw [ho] at hb
      cases hb
    | some b =>
      rw [ho] at hb
      cases hb
      exact hbuiltin b
  unfold resolve at hr
  cases hl : m.store.lookup? name depth scope with
  | error f =>
    rw [hl] at hr
    cases hr
  | ok found =>
    have hfound := Store.find?_of_lookup? hl
    rw [hl] at hr
    cases found with
    | none => exact hb hr
    | some w =>
      have hw := hfind w hfound
      cases w with
      | missing => exact hb hr
      | _ =>
        cases hr
        exact hw

theorem of_resolve (h : m.store.All P) (hbuiltin : ∀ b, P (.builtin b))
    (hr : resolve depth scope name m = .ok v n) : P v :=
  of_resolve_of_find? (fun _ hw => h.find? hw) hbuiltin hr

end Resolve

end Run

end Monkey
