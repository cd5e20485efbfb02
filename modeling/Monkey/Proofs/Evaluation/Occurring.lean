import Monkey.Proofs.Evaluation.Contract
import Monkey.Proofs.Evaluation.Watched

/-!
# What occurs under a contract

A contract that the primitive steps keep says of every value that occurs in an evaluation, and not
only of its result, that the value may occur.
-/

namespace Monkey

set_option autoImplicit false

namespace Contract

open Watched (lift see evaluated returned occurrences_bind)

variable {α β : Type}

/-- The run keeps the contract from a machine on, a result of it satisfies `Q`, and every value that
occurs in it satisfies `P`. -/
structure Shows (C : Contract) (P : Value → Prop) (m : Machine) (w : Watched α)
    (Q : Machine → α → Prop) : Prop where
  keeps : C.Keeps m w.run Q
  occurrences : C.holds m → ∀ o ∈ w.occurrences m, P o.value

section Shows

variable {C : Contract} {P : Value → Prop} {m : Machine} {Q : Machine → α → Prop}
  {R : Machine → β → Prop}

theorem shows_lift {run : Run α} (h : C.Keeps m run Q) : C.Shows P m (lift run) Q :=
  ⟨h, fun _ _ ho => absurd ho List.not_mem_nil⟩

theorem shows_pure {a : α} (h : Q m a) : C.Shows P m (pure a) Q := shows_lift (keeps_pure h)

theorem shows_see (use : Use) {vs : List Value} (h : ∀ v ∈ vs, P v) :
    C.Shows P m (see use vs) fun _ _ => True := by
  refine ⟨keeps_pure trivial, ?_⟩
  intro _ o ho
  obtain ⟨v, hv, rfl⟩ := List.mem_map.mp ho
  exact h v hv

theorem Shows.bind {w : Watched α} {next : α → Watched β} (h : C.Shows P m w Q)
    (hn : ∀ n a, C.later m n → Q n a → C.Shows P n (next a) R) : C.Shows P m (w >>= next) R := by
  refine ⟨h.keeps.bind fun n a hlater ha => (hn n a hlater ha).keeps, ?_⟩
  intro hm o ho
  have hfirst := h.keeps hm
  rw [occurrences_bind] at ho
  rcases List.mem_append.mp ho with ho | ho
  · exact h.occurrences hm o ho
  · cases hr : w.run m with
    | error f n =>
      rw [hr] at ho
      exact absurd ho List.not_mem_nil
    | ok a n =>
      rw [hr] at ho hfirst
      obtain ⟨hholds, hlater, ha⟩ := hfirst
      exact (hn n a hlater ha).occurrences hholds o ho

end Shows

structure Shown (C : Contract) (P : Value → Prop) (T : Trees) (debug : Bool) (d : Nat) : Prop where
  statement : ∀ {m scope s}, C.scope m scope → T.statement s →
    C.Shows P m (Watched.statement debug d scope s) fun n o => C.value n o.value
  expression : ∀ {m scope e}, C.scope m scope → T.expression e →
    C.Shows P m (Watched.expression debug d scope e) fun n o => C.value n o.value
  apply : ∀ {m f args}, C.value m f → (∀ a ∈ args, C.value m a) →
    C.Shows P m (Watched.apply debug d f args) C.value

section Evaluation

variable {C : Contract} {P : Value → Prop} {T : Trees} {debug : Bool} {d : Nat} {m : Machine}
  {scope : Nat}

theorem shows_blockFrom {run : Statement → Watched Outcome} {ss : List Statement}
    (h : ∀ s ∈ ss, ∀ n, C.later m n → C.Shows P n (run s) fun n o => C.value n o.value)
    {last : Outcome} (hlast : C.value m last.value) :
    C.Shows P m (Watched.blockFrom run last ss) fun n o => C.value n o.value := by
  induction ss generalizing m last with
  | nil => exact shows_pure hlast
  | cons s ss ih =>
    rw [Watched.blockFrom]
    apply (h s List.mem_cons_self m (C.refl m)).bind
    intro n o hn ho
    split
    · exact shows_pure ho
    · exact ih (fun t ht k hk => h t (List.mem_cons_of_mem s ht) k (C.trans hn hk)) ho

theorem Shown.block (h : C.Shown P T debug d) (hl : C.Lawful T) (hscope : C.scope m scope)
    {ss : List Statement} (hss : ∀ s ∈ ss, T.statement s) :
    C.Shows P m (Watched.block (Watched.statement debug d scope) ss)
      fun n o => C.value n o.value :=
  shows_blockFrom (fun s hs _ hn => h.statement (C.scope_later hn hscope) (hss s hs)) (hl.null m)

theorem Shown.argumentsFrom (h : C.Shown P T debug d) (hscope : C.scope m scope)
    {done : List Value} (hdone : ∀ v ∈ done, C.value m v) {es : List Expression}
    (hes : ∀ e ∈ es, T.expression e) :
    C.Shows P m (Watched.argumentsFrom (Watched.expression debug d scope) done es) fun n r =>
      match r with
      | .error o => C.value n o.value
      | .ok vs => ∀ v ∈ vs, C.value n v := by
  induction es generalizing m done with
  | nil => exact shows_pure fun v hv => hdone v (List.mem_reverse.mp hv)
  | cons e es ih =>
    rw [Watched.argumentsFrom]
    apply (h.expression hscope (hes e List.mem_cons_self)).bind
    intro n o hn ho
    split
    · exact shows_pure ho
    · apply ih (C.scope_later hn hscope) _ fun f hf => hes f (List.mem_cons_of_mem e hf)
      intro v hv
      rcases List.mem_cons.mp hv with rfl | hv
      · exact ho
      · exact C.value_later hn (hdone v hv)

theorem shows_evaluated (hP : ∀ m v, C.value m v → P v) {w : Watched Outcome}
    (h : C.Shows P m w fun n o => C.value n o.value) :
    C.Shows P m (evaluated w) fun n o => C.value n o.value := by
  apply h.bind
  intro n o _ ho
  apply (shows_see .evaluated (List.forall_mem_singleton.mpr (hP n _ ho))).bind
  intro _ _ hn _
  exact shows_pure (C.value_later hn ho)

theorem shows_returned (hP : ∀ m v, C.value m v → P v) {w : Watched Value}
    (h : C.Shows P m w C.value) : C.Shows P m (returned w) C.value := by
  apply h.bind
  intro n v _ hv
  apply (shows_see .returned (List.forall_mem_singleton.mpr (hP n v hv))).bind
  intro _ _ hn _
  exact shows_pure (C.value_later hn hv)

theorem Shown.statement_succ (h : C.Shown P T debug d) (hl : C.Lawful T)
    (hP : ∀ m v, C.value m v → P v) {s : Statement} (hscope : C.scope m scope)
    (hs : T.statement s) :
    C.Shows P m (Watched.statement debug (d + 1) scope s) fun n o => C.value n o.value := by
  rw [Watched.statement.eq_def]
  apply (shows_lift (hl.note m debug _)).bind
  intro n _ hn _
  have hscope := C.scope_later hn hscope
  cases s with
  | expression e => exact h.expression hscope (T.only hs)
  | binding name e =>
    apply (h.expression hscope (T.binding hs)).bind
    intro n o hn ho
    split
    · exact shows_pure ho
    · apply (shows_see .stored (List.forall_mem_singleton.mpr (hP n _ ho))).bind
      intro k _ hk _
      have hvalue := C.value_later hk ho
      apply (shows_lift (hl.bindName (C.scope_later hk (C.scope_later hn hscope)) hvalue name)).bind
      intro _ _ hn _
      exact shows_pure (C.value_later hn hvalue)
  | ret e =>
    apply (h.expression hscope (T.ret hs)).bind
    intro _ o _ ho
    exact shows_pure ho
  | block ss => exact h.block hl hscope (T.block hs)
  | hole => exact shows_lift (keeps_stop (hl.noStatement hs))

theorem Shown.conditional (h : C.Shown P T debug d) (hl : C.Lawful T) (hscope : C.scope m scope)
    {c : Expression} {t : List Statement} {a : Option (List Statement)}
    (he : T.expression (.conditional c t a)) {v : Value} (hv : C.value m v) :
    C.Shows P m (do
      if ← lift (Run.truth v) then Watched.block (Watched.statement debug d scope) t
      else
        match a with
        | some e => Watched.block (Watched.statement debug d scope) e
        | none => return ⟨.null, false⟩) fun n o => C.value n o.value := by
  apply (shows_lift (hl.truth hv)).bind
  intro n b hn _
  have hscope := C.scope_later hn hscope
  cases b with
  | true => exact h.block hl hscope (T.consequence he)
  | false =>
    cases a with
    | none => exact shows_pure (hl.null n)
    | some e => exact h.block hl hscope (T.alternative he)

theorem Shown.call (h : C.Shown P T debug d) (hscope : C.scope m scope) {f : Value}
    (hf : C.value m f) {args : List Expression} (hargs : ∀ a ∈ args, T.expression a) :
    C.Shows P m (do
      match ← Watched.argumentsFrom (Watched.expression debug d scope) [] args with
      | .error o => return o
      | .ok vs =>
        let v ← Watched.apply debug d f vs
        return ⟨v, false⟩) fun n o => C.value n o.value := by
  apply (h.argumentsFrom hscope (fun _ hv => absurd hv List.not_mem_nil) hargs).bind
  intro n r hn hr
  cases r with
  | error o => exact shows_pure hr
  | ok vs =>
    apply (h.apply (C.value_later hn hf) hr).bind
    intro _ v _ hv
    exact shows_pure hv

theorem Shown.expression_succ (h : C.Shown P T debug d) (hl : C.Lawful T)
    (hP : ∀ m v, C.value m v → P v) {e : Expression} (hscope : C.scope m scope)
    (he : T.expression e) :
    C.Shows P m (Watched.expression debug (d + 1) scope e) fun n o => C.value n o.value := by
  rw [Watched.expression.eq_def]
  apply (shows_lift (hl.note m debug _)).bind
  intro n _ hn _
  have hscope := C.scope_later hn hscope
  apply shows_evaluated hP
  cases e with
  | integer i => exact shows_pure (hl.integer n he)
  | boolean b => exact shows_pure (hl.boolean n b)
  | string s => exact shows_pure (hl.string n he)
  | function ps body => exact shows_pure (hl.function n he hscope)
  | hole => exact shows_lift (keeps_stop (hl.noExpression he))
  | name x =>
    apply (shows_lift (hl.resolve hscope d (.inl hl.tooDeep) x)).bind
    intro _ v _ hv
    exact shows_pure hv
  | unary op e =>
    apply (h.expression hscope (T.unary he)).bind
    intro n o _ ho
    split
    · exact shows_pure ho
    · apply (shows_lift (hl.unary ho d op)).bind
      intro _ v _ hv
      exact shows_pure hv
  | binary l op r =>
    apply (h.expression hscope (T.binary he).1).bind
    intro n o hn ho
    split
    · exact shows_pure ho
    · apply (h.expression (C.scope_later hn hscope) (T.binary he).2).bind
      intro n p hn hp
      split
      · exact shows_pure hp
      · apply (shows_lift (hl.binary (C.value_later hn ho) hp d op)).bind
        intro _ v _ hv
        exact shows_pure hv
  | conditional c t a =>
    apply (h.expression hscope (T.condition he)).bind
    intro n o hn ho
    split
    · exact shows_pure ho
    · exact h.conditional hl (C.scope_later hn hscope) he ho
  | call f args =>
    apply (h.expression hscope (T.call he).1).bind
    intro n o hn ho
    split
    · exact shows_pure ho
    · exact h.call (C.scope_later hn hscope) ho (T.call he).2

theorem shows_builtin (hl : C.Lawful T) (hP : ∀ m v, C.value m v → P v) {args : List Value}
    (hargs : ∀ a ∈ args, C.value m a) (b : Builtin) :
    C.Shows P m (Watched.builtin d b args) C.value := by
  apply (shows_lift (hl.builtin hargs d b)).bind
  intro n v _ hv
  have hprinted : ∀ a ∈ (if b = .println then args else []), P a := by
    split
    · exact fun a ha => hP m a (hargs a ha)
    · exact fun _ ha => absurd ha List.not_mem_nil
  apply (shows_see .printed hprinted).bind
  intro _ _ hn _
  exact shows_pure (C.value_later hn hv)

theorem Shown.apply_succ (h : C.Shown P T debug d) (hl : C.Lawful T)
    (hP : ∀ m v, C.value m v → P v) {f : Value} {args : List Value} (hf : C.value m f)
    (hargs : ∀ a ∈ args, C.value m a) :
    C.Shows P m (Watched.apply debug (d + 1) f args) C.value := by
  have hpassed : ∀ a ∈ args, P a := fun a ha => hP m a (hargs a ha)
  rw [Watched.apply.eq_def]
  dsimp only
  apply (shows_see .passed hpassed).bind
  intro n _ hn _
  have hf := C.value_later hn hf
  have hargs := fun a ha => C.value_later hn (hargs a ha)
  apply shows_returned hP
  split
  · apply (shows_lift (hl.enter hf hargs)).bind
    intro k inner _ hinner
    apply (shows_see .stored hpassed).bind
    intro l _ hk _
    apply (h.block hl (C.scope_later hk hinner) (hl.body n hf)).bind
    intro _ o _ ho
    exact shows_pure ho
  · exact shows_builtin hl hP hargs _
  · exact shows_lift (hl.notAFunction hf d)

theorem Lawful.shown (hl : C.Lawful T) (hP : ∀ m v, C.value m v → P v) (debug : Bool) (d : Nat) :
    C.Shown P T debug d := by
  induction d with
  | zero =>
    constructor
    · intro m scope s _ _
      rw [Watched.statement]
      exact shows_lift (keeps_stop hl.tooDeep)
    · intro m scope e _ _
      rw [Watched.expression]
      exact shows_lift (keeps_stop hl.tooDeep)
    · intro m f args _ _
      rw [Watched.apply]
      exact shows_lift (keeps_stop hl.tooDeep)
  | succ d ih =>
    constructor
    · intro m scope s hscope hs
      exact ih.statement_succ hl hP hscope hs
    · intro m scope e hscope he
      exact ih.expression_succ hl hP hscope he
    · intro m f args hf hargs
      exact ih.apply_succ hl hP hf hargs

/-- Every value that occurs while a program is evaluated is one that may occur. -/
theorem Lawful.shows_program (hl : C.Lawful T) (hP : ∀ m v, C.value m v → P v) (debug : Bool)
    (d : Nat) (hscope : C.scope m scope) {p : Program} (hp : ∀ s ∈ p.statements, T.statement s) :
    C.Shows P m (Watched.program debug d scope p) C.value := by
  have htop : ∀ s ∈ p.statements, ∀ n, C.later m n →
      C.Shows P n (Watched.top debug d scope s) fun n o => C.value n o.value := by
    intro s hs n hn
    have hstatement := (hl.shown hP debug d).statement (C.scope_later hn hscope) (hp s hs)
    exact ⟨hl.markedWith (.inl hl.tooDeep) hstatement.keeps, hstatement.occurrences⟩
  apply shows_returned hP
  apply (shows_blockFrom htop (hl.null m)).bind
  intro _ o _ ho
  exact shows_pure ho

end Evaluation

end Contract

end Monkey
