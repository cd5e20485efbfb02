import Monkey.Proofs.Evaluation.Contract

/-!
# Names in trees

The names that occur in a tree: the names it looks up, the names it binds, and the parameters of the
functions in it. A tree that omits a name consists of trees that omit it.
-/

namespace Monkey

set_option autoImplicit false

mutual

/-- The names that are looked up or bound in an expression. -/
def Expression.names : Expression → List String
  | .integer _ => []
  | .boolean _ => []
  | .string _ => []
  | .name n => [n]
  | .unary _ e => e.names
  | .binary l _ r => l.names ++ r.names
  | .conditional c t none => c.names ++ Statement.allNames t
  | .conditional c t (some e) => c.names ++ Statement.allNames t ++ Statement.allNames e
  | .function ps body => ps ++ Statement.allNames body
  | .call f args => f.names ++ Expression.allNames args
  | .hole => []

def Statement.names : Statement → List String
  | .binding n e => n :: e.names
  | .ret e => e.names
  | .expression e => e.names
  | .block ss => Statement.allNames ss
  | .hole => []

def Expression.allNames : List Expression → List String
  | [] => []
  | e :: es => e.names ++ Expression.allNames es

def Statement.allNames : List Statement → List String
  | [] => []
  | s :: ss => s.names ++ Statement.allNames ss

end

def Program.names (p : Program) : List String := Statement.allNames p.statements

/-- The names in the text of a value: only a function has any. -/
def Value.names : Value → List String
  | .function ps body _ => ps ++ Statement.allNames body
  | _ => []

theorem Statement.notMem_names {x : String} {ss : List Statement} (h : x ∉ allNames ss) :
    ∀ s ∈ ss, x ∉ s.names := by
  induction ss with
  | nil => exact fun _ hs => absurd hs List.not_mem_nil
  | cons t ss ih =>
    rw [allNames, List.mem_append, not_or] at h
    intro s hs
    rcases List.mem_cons.mp hs with rfl | hs
    · exact h.1
    · exact ih h.2 s hs

theorem Expression.notMem_names {x : String} {es : List Expression} (h : x ∉ allNames es) :
    ∀ e ∈ es, x ∉ e.names := by
  induction es with
  | nil => exact fun _ he => absurd he List.not_mem_nil
  | cons f es ih =>
    rw [allNames, List.mem_append, not_or] at h
    intro e he
    rcases List.mem_cons.mp he with rfl | he
    · exact h.1
    · exact ih h.2 e he

def Trees.omitting (x : String) : Trees where
  expression e := x ∉ e.names
  statement s := x ∉ s.names
  unary h := h
  binary h := not_or.mp fun hx => h (List.mem_append.mpr hx)
  condition {c t a} h hx := by
    apply h
    cases a with
    | none => exact List.mem_append_left _ hx
    | some e => exact List.mem_append_left _ (List.mem_append_left _ hx)
  consequence {c t a} h := by
    apply Statement.notMem_names
    intro hx
    apply h
    cases a with
    | none => exact List.mem_append_right _ hx
    | some e => exact List.mem_append_left _ (List.mem_append_right _ hx)
  alternative h := Statement.notMem_names fun hx => h (List.mem_append_right _ hx)
  call h := ⟨fun hx => h (List.mem_append_left _ hx),
    Expression.notMem_names fun hx => h (List.mem_append_right _ hx)⟩
  binding h hx := h (List.mem_cons_of_mem _ hx)
  ret h := h
  only h := h
  block h := Statement.notMem_names h

end Monkey
