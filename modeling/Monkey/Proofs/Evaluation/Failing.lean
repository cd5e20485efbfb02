import Monkey.Proofs.Evaluation.Given

/-!
# What primitive steps fail with

An operator or a built-in function fails with an error of the program, unless a value has no truth
value or no text. Only functions are too high to be shown, and only a line that is read can be too
long a number.
-/

namespace Monkey

set_option autoImplicit false

/-- The failures of operators on values with a property. -/
structure Failure.Common (P : Value → Prop) (F : Failure → Prop) : Prop where
  runtime : ∀ e, F (.runtime e none)
  noTruth : ∀ {t}, P (.foreign t) → F (.noTruth t)
  noText : ∀ {t}, P (.foreign t) → F (.noText t)
  noValue : P .missing → F .noValue
  tooDeep : ∀ {ps body scope}, P (.function ps body scope) → F .tooDeep

namespace Run

variable {α β : Type} {P : Value → Prop} {F : Failure → Prop}

def Fails (run : Run α) (F : Failure → Prop) : Prop := ∀ m f n, run m = .error f n → F f

theorem fails_pure (a : α) : Fails (pure a : Run α) F := by
  intro m f n hf
  cases hf

theorem fails_stop {f : Failure} (h : F f) : Fails (stop f : Run α) F := by
  intro m g n hg
  cases hg
  exact h

theorem Fails.bind {run : Run α} {next : α → Run β} (h : Fails run F)
    (hn : ∀ a, Fails (next a) F) : Fails (run >>= next) F := by
  intro m f n hf
  cases hr : run m with
  | ok a u =>
    rw [bind_of_ok hr] at hf
    exact hn a u f n hf
  | error g u =>
    rw [bind_of_error hr] at hf
    cases hf
    exact h m f n hr

theorem fails_ofExcept (hF : Failure.Common P F) (r : Except RuntimeError α) :
    Fails (ofExcept r) F := by
  cases r with
  | ok a => exact fails_pure a
  | error e => exact fails_stop (hF.runtime e)

variable {v w : Value}

theorem fails_shown (hF : Failure.Common P F) (hv : P v) (d : Nat) : Fails (shown d v) F := by
  unfold shown
  cases v with
  | function ps body scope =>
    split
    · exact fails_pure _
    · exact fails_stop (hF.tooDeep hv)
  | foreign t => exact fails_stop (hF.noText hv)
  | missing => exact fails_stop (hF.noValue hv)
  | boolean b => cases b <;> exact fails_pure _
  | _ => exact fails_pure _

theorem fails_inspected (hF : Failure.Common P F) (hv : P v) (d : Nat) :
    Fails (inspected d v) F := by
  have hshown := fails_shown hF hv d
  cases v with
  | string s => exact fails_pure _
  | _ => exact hshown

theorem fails_truth (hF : Failure.Common P F) (hv : P v) : Fails (truth v) F := by
  unfold truth
  cases v with
  | foreign t => exact fails_stop (hF.noTruth hv)
  | missing => exact fails_stop (hF.noValue hv)
  | _ => exact fails_pure _

theorem fails_unary (hF : Failure.Common P F) (hv : P v) (d : Nat) (op : String) :
    Fails (unary d op v) F := by
  unfold unary
  split
  · exact (fails_truth hF hv).bind fun _ => fails_pure _
  · split
    · exact fails_ofExcept hF _
    · exact (fails_inspected hF hv d).bind fun _ => fails_stop (hF.runtime _)

theorem fails_badBinary (hF : Failure.Common P F) (hv : P v) (hw : P w) (d : Nat) (op : String) :
    Fails (badBinary d op v w) F := by
  unfold badBinary
  apply (fails_inspected hF hv d).bind
  intro _
  exact (fails_inspected hF hw d).bind fun _ => fails_stop (hF.runtime _)

theorem fails_binary (hF : Failure.Common P F) (hv : P v) (hw : P w) (d : Nat) (op : String) :
    Fails (binary d op v w) F := by
  unfold binary
  split
  · exact fails_ofExcept hF _
  · split
    · exact fails_pure _
    · exact fails_pure _
    · exact fails_badBinary hF hv hw d op
  · exact fails_badBinary hF hv hw d op

theorem fails_notAFunction (hF : Failure.Common P F) (hv : P v) (d : Nat) :
    Fails (inspected d v >>= fun t => fail (α := α) (.notAFunction t)) F :=
  (fails_inspected hF hv d).bind fun _ => fails_stop (hF.runtime _)

end Run

end Monkey
