import Monkey.Proofs.Evaluation.Frame
import Monkey.Proofs.Evaluation.Given

/-!
# Evaluation among values of one kind

A property that operators and built-in functions give to their values, and that functions have by
their text, holds of every value that an evaluation makes out of such values.
-/

namespace Monkey

set_option autoImplicit false

/-- A property that values have because of the trees they are made from, or whatever they are. -/
structure Value.Inherited (T : Trees) (P : Value → Prop) : Prop where
  common : Value.Common P
  builtin : ∀ b, P (.builtin b)
  length : ∀ s : String, P (.integer s.length)
  integer : ∀ {n}, T.expression (.integer n) → P (.integer n)
  function : ∀ {ps body}, T.expression (.function ps body) → ∀ scope, P (.function ps body scope)
  body : ∀ {ps body scope}, P (.function ps body scope) → ∀ s ∈ body, T.statement s

def Contract.among (P : Value → Prop) : Contract where
  holds m := m.store.All P
  later _ _ := True
  value _ v := P v
  scope _ _ := True
  failure _ := True
  refl _ := trivial
  trans _ _ := trivial
  value_later _ h := h
  scope_later _ h := h

namespace Contract

variable {α : Type} {P : Value → Prop} {T : Trees} {m : Machine}

theorem among_keeps_of_still {run : Run α} (h : run.Still) {Q : Machine → α → Prop}
    (hq : m.store.All P → ∀ a n, run m = .ok a n → Q n a) : (among P).Keeps m run Q := by
  refine keeps_of_still h ?_ (fun _ => trivial) fun hm a n hr _ => hq hm a n hr
  intro n hn hm
  change n.store.All P ∧ True
  rw [hn]
  exact ⟨hm, trivial⟩

theorem among_keeps_of_gives {run : Run Value} (h : run.Still) (hq : run.Gives P) :
    (among P).Keeps m run (among P).value :=
  among_keeps_of_still h fun _ v n hr => hq m v n hr

theorem among_lawful (h : Value.Inherited T P) : (among P).Lawful T where
  tooDeep := trivial
  marked _ := trivial
  null _ := h.common.null
  integer _ _ hn := h.integer hn
  boolean _ b := h.common.boolean b
  string _ s _ := h.common.string s
  function _ _ _ scope hf _ := h.function hf scope
  body _ _ _ _ hf := h.body hf
  noExpression _ := trivial
  noStatement _ := trivial
  note _ debug text := among_keeps_of_still (Run.still_note debug text) fun _ _ _ _ => trivial
  bindName _ hv name hm := ⟨Store.All.set hm hv _ name, trivial, trivial⟩
  resolve _ d _ name := among_keeps_of_still (Run.idle_resolve d _ name).still fun hm _ _ hr =>
    Run.of_resolve hm h.builtin hr
  enter := by
    intro m ps body scope args _ hargs
    rw [Run.enter]
    split
    · intro hm
      exact ⟨Store.All.add hm (Bindings.all_zip hargs) _, trivial, trivial⟩
    · exact keeps_stop trivial
  truth _ := among_keeps_of_still (Run.idle_truth _).still fun _ _ _ _ => trivial
  unary _ d op := among_keeps_of_gives (Run.idle_unary d op _).still
    (Run.gives_unary h.common d op _)
  binary _ _ d op := among_keeps_of_gives (Run.idle_binary d op _ _).still
    (Run.gives_binary h.common d op _ _)
  builtin _ d b := among_keeps_of_gives (Run.still_builtin d b _)
    (Run.gives_builtin h.common (fun s _ => h.length s) d b)
  notAFunction _ d := among_keeps_of_gives (Run.idle_notAFunction d _).still
    (Run.gives_notAFunction d _)

end Contract

end Monkey
