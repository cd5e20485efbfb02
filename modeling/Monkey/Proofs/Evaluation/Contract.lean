import Monkey.Evaluation.Program
import Monkey.Proofs.Program.Height

/-!
# Contracts

A contract says what holds of the machine at all times, how a later machine differs from an earlier
one, and which values, scopes and failures may occur. If the primitive steps keep a contract, then
the evaluation of every tree keeps it. A contract that does not allow evaluation to go too deep is
kept where no functions occur and evaluation may go as deep as the trees are high and, from there,
as deep as names have to be looked for.
-/

namespace Monkey

set_option autoImplicit false

/-- A contract about evaluations. Values and scopes that may occur may still occur later. -/
structure Contract where
  holds : Machine → Prop
  later : Machine → Machine → Prop
  value : Machine → Value → Prop
  scope : Machine → Nat → Prop
  failure : Failure → Prop
  /-- The levels that names are looked for in. -/
  room : Nat := 0
  refl : ∀ m, later m m
  trans : ∀ {m n o}, later m n → later n o → later m o
  value_later : ∀ {m n v}, later m n → value m v → value n v
  scope_later : ∀ {m n i}, later m n → scope m i → scope n i

namespace Contract

variable {α β : Type}

/-- The run keeps the contract from a machine on, and a result of it satisfies `Q`. -/
def Keeps (C : Contract) (m : Machine) (run : Run α) (Q : Machine → α → Prop) : Prop :=
  C.holds m → match run m with
    | .ok a n => C.holds n ∧ C.later m n ∧ Q n a
    | .error f n => C.holds n ∧ C.later m n ∧ C.failure f

variable {C : Contract} {m : Machine} {Q : Machine → α → Prop} {R : Machine → β → Prop}

theorem keeps_pure {a : α} (h : Q m a) : C.Keeps m (pure a) Q := by
  intro hm
  exact ⟨hm, C.refl m, h⟩

theorem keeps_stop {f : Failure} (h : C.failure f) : C.Keeps m (Run.stop f) Q := by
  intro hm
  exact ⟨hm, C.refl m, h⟩

theorem Keeps.bind {run : Run α} {next : α → Run β} (h : C.Keeps m run Q)
    (hn : ∀ n a, C.later m n → Q n a → C.Keeps n (next a) R) : C.Keeps m (run >>= next) R := by
  intro hm
  have hrun := h hm
  change match EStateM.bind run next m with
    | .ok b n => C.holds n ∧ C.later m n ∧ R n b
    | .error f n => C.holds n ∧ C.later m n ∧ C.failure f
  unfold EStateM.bind
  cases hr : run m with
  | error f n =>
    rw [hr] at hrun
    exact hrun
  | ok a n =>
    rw [hr] at hrun
    obtain ⟨hholds, hlater, ha⟩ := hrun
    have hnext := hn n a hlater ha hholds
    dsimp only
    cases hs : next a n with
    | error f o =>
      rw [hs] at hnext
      exact ⟨hnext.1, C.trans hlater hnext.2.1, hnext.2.2⟩
    | ok b o =>
      rw [hs] at hnext
      exact ⟨hnext.1, C.trans hlater hnext.2.1, hnext.2.2⟩

end Contract

/-- Trees all of whose parts are such trees again. -/
structure Trees where
  expression : Expression → Prop
  statement : Statement → Prop
  unary : ∀ {op e}, expression (.unary op e) → expression e
  binary : ∀ {l op r}, expression (.binary l op r) → expression l ∧ expression r
  condition : ∀ {c t a}, expression (.conditional c t a) → expression c
  consequence : ∀ {c t a}, expression (.conditional c t a) → ∀ s ∈ t, statement s
  alternative : ∀ {c t e}, expression (.conditional c t (some e)) → ∀ s ∈ e, statement s
  call : ∀ {f args}, expression (.call f args) → expression f ∧ ∀ a ∈ args, expression a
  binding : ∀ {n e}, statement (.binding n e) → expression e
  ret : ∀ {e}, statement (.ret e) → expression e
  only : ∀ {e}, statement (.expression e) → expression e
  block : ∀ {ss}, statement (.block ss) → ∀ s ∈ ss, statement s

namespace Trees

def node (T : Trees) : Node → Prop
  | .program p => ∀ s ∈ p.statements, T.statement s
  | .statement s => T.statement s
  | .expression e => T.expression e
  | .missing => True

end Trees

namespace Contract

/-- There is depth enough, or evaluation may go too deep. -/
def Reaches (C : Contract) (enough : Prop) : Prop := C.failure .tooDeep ∨ enough

/-- The primitive steps of evaluating such trees keep the contract. Only where functions occur, or
where there is no room to look for a name, may evaluation go too deep. -/
structure Steps (C : Contract) (T : Trees) : Prop where
  deep : ∀ {m ps body scope}, C.value m (.function ps body scope) → C.failure .tooDeep
  marked : ∀ {e s}, C.failure (.runtime e none) → C.failure (.runtime e (some s))
  null : ∀ m, C.value m .null
  integer : ∀ m {n}, T.expression (.integer n) → C.value m (.integer n)
  boolean : ∀ m b, C.value m (.boolean b)
  string : ∀ m {s}, T.expression (.string s) → C.value m (.string s)
  function : ∀ m {ps body scope}, T.expression (.function ps body) → C.scope m scope →
    C.value m (.function ps body scope)
  body : ∀ m {ps body scope}, C.value m (.function ps body scope) → ∀ s ∈ body, T.statement s
  noExpression : T.expression .hole → C.failure (.runtime (.unknownExpression "EXPRESSION") none)
  noStatement : T.statement .hole → C.failure (.runtime (.unknownStatement "STATEMENT") none)
  note : ∀ m debug text, C.Keeps m (Run.note debug text) fun _ _ => True
  bindName : ∀ {m scope v}, C.scope m scope → C.value m v → ∀ n,
    C.Keeps m (Run.bindName scope n v) fun _ _ => True
  resolve : ∀ {m scope}, C.scope m scope → ∀ d, C.Reaches (C.room ≤ d) → ∀ n,
    C.Keeps m (Run.resolve d scope n) C.value
  enter : ∀ {m ps body scope args}, C.value m (.function ps body scope) →
    (∀ a ∈ args, C.value m a) → C.Keeps m (Run.enter ps scope args) C.scope
  truth : ∀ {m v}, C.value m v → C.Keeps m (Run.truth v) fun _ _ => True
  unary : ∀ {m v}, C.value m v → ∀ d op, C.Keeps m (Run.unary d op v) C.value
  binary : ∀ {m v w}, C.value m v → C.value m w → ∀ d op, C.Keeps m (Run.binary d op v w) C.value
  builtin : ∀ {m args}, (∀ a ∈ args, C.value m a) → ∀ d b, C.Keeps m (Run.builtin d b args) C.value
  notAFunction : ∀ {m v}, C.value m v → ∀ d,
    C.Keeps m (Run.inspected d v >>= fun t => Run.fail (.notAFunction t)) C.value

/-- The primitive steps keep the contract, and evaluation may go too deep. -/
structure Lawful (C : Contract) (T : Trees) : Prop extends C.Steps T where
  tooDeep : C.failure .tooDeep
  deep := fun _ => tooDeep

structure Kept (C : Contract) (T : Trees) (debug : Bool) (d : Nat) : Prop where
  statement : ∀ {m scope s}, C.scope m scope → T.statement s →
    C.Reaches (s.fits (d - C.room) = true) →
    C.Keeps m (Run.statement debug d scope s) fun n o => C.value n o.value
  expression : ∀ {m scope e}, C.scope m scope → T.expression e →
    C.Reaches (e.fits (d - C.room) = true) →
    C.Keeps m (Run.expression debug d scope e) fun n o => C.value n o.value
  apply : ∀ {m f args}, C.value m f → (∀ a ∈ args, C.value m a) → C.Reaches (0 < d) →
    C.Keeps m (Run.apply debug d f args) C.value

section Evaluation

variable {C : Contract} {T : Trees} {debug : Bool} {d : Nat} {m : Machine} {scope : Nat}

theorem Reaches.imp {p q : Prop} (h : C.Reaches p) (hpq : p → q) : C.Reaches q :=
  Or.imp_right hpq h

theorem Reaches.both {a b : Bool} (h : C.Reaches ((a && b) = true)) :
    C.Reaches (a = true) ∧ C.Reaches (b = true) :=
  ⟨h.imp fun hab => (Bool.and_eq_true_iff.mp hab).1,
    h.imp fun hab => (Bool.and_eq_true_iff.mp hab).2⟩

/-- What fits above the room fits on the next level above it. -/
theorem Reaches.below (fits : Nat → Bool) (hzero : fits 0 = false)
    (h : C.Reaches (fits (d + 1 - C.room) = true)) :
    C.Reaches (fits (d - C.room + 1) = true) ∧ C.Reaches (C.room ≤ d) := by
  have hroom : fits (d + 1 - C.room) = true → C.room ≤ d := by
    intro hfits
    rcases Nat.lt_or_ge d C.room with hlt | hle
    · rw [Nat.sub_eq_zero_of_le hlt, hzero] at hfits
      cases hfits
    · exact hle
  refine ⟨h.imp fun hfits => ?_, h.imp hroom⟩
  rw [← Nat.sub_add_comm (hroom hfits)]
  exact hfits

theorem Kept.blockFrom (h : C.Kept T debug d) (hscope : C.scope m scope) {last : Outcome}
    (hlast : C.value m last.value) {ss : List Statement} (hss : ∀ s ∈ ss, T.statement s)
    (hfits : C.Reaches (ss.all (Statement.fits (d - C.room)) = true)) :
    C.Keeps m (Run.blockFrom (Run.statement debug d scope) last ss)
      fun n o => C.value n o.value := by
  induction ss generalizing m last with
  | nil => exact keeps_pure hlast
  | cons s ss ih =>
    rw [Run.blockFrom]
    apply (h.statement hscope (hss s List.mem_cons_self) hfits.both.1).bind
    intro n o hn ho
    split
    · exact keeps_pure ho
    · exact ih (C.scope_later hn hscope) ho (fun t ht => hss t (List.mem_cons_of_mem s ht))
        hfits.both.2

theorem Kept.block (h : C.Kept T debug d) (hl : C.Steps T) (hscope : C.scope m scope)
    {ss : List Statement} (hss : ∀ s ∈ ss, T.statement s)
    (hfits : C.Reaches (ss.all (Statement.fits (d - C.room)) = true)) :
    C.Keeps m (Run.block (Run.statement debug d scope) ss) fun n o => C.value n o.value :=
  h.blockFrom hscope (hl.null m) hss hfits

theorem Kept.argumentsFrom (h : C.Kept T debug d) (hscope : C.scope m scope)
    {done : List Value} (hdone : ∀ v ∈ done, C.value m v) {es : List Expression}
    (hes : ∀ e ∈ es, T.expression e)
    (hfits : C.Reaches (es.all (Expression.fits (d - C.room)) = true)) :
    C.Keeps m (Run.argumentsFrom (Run.expression debug d scope) done es) fun n r =>
      match r with
      | .error o => C.value n o.value
      | .ok vs => ∀ v ∈ vs, C.value n v := by
  induction es generalizing m done with
  | nil => exact keeps_pure fun v hv => hdone v (List.mem_reverse.mp hv)
  | cons e es ih =>
    rw [Run.argumentsFrom]
    apply (h.expression hscope (hes e List.mem_cons_self) hfits.both.1).bind
    intro n o hn ho
    split
    · exact keeps_pure ho
    · apply ih (C.scope_later hn hscope) _ (fun f hf => hes f (List.mem_cons_of_mem e hf))
        hfits.both.2
      intro v hv
      rcases List.mem_cons.mp hv with rfl | hv
      · exact ho
      · exact C.value_later hn (hdone v hv)

theorem Kept.statement_succ (h : C.Kept T debug d) (hl : C.Steps T) {s : Statement}
    (hscope : C.scope m scope) (hs : T.statement s)
    (hfits : C.Reaches (s.fits (d - C.room + 1) = true)) :
    C.Keeps m (Run.statement debug (d + 1) scope s) fun n o => C.value n o.value := by
  cases s with
  | binding name e =>
    rw [Run.statement]
    apply (hl.note m debug _).bind
    intro n _ hn _
    have hscope := C.scope_later hn hscope
    apply (h.expression hscope (T.binding hs) hfits).bind
    intro n o hn ho
    split
    · exact keeps_pure ho
    · apply (hl.bindName (C.scope_later hn hscope) ho name).bind
      intro _ _ hn _
      exact keeps_pure (C.value_later hn ho)
  | ret e =>
    rw [Run.statement]
    apply (hl.note m debug _).bind
    intro n _ hn _
    apply (h.expression (C.scope_later hn hscope) (T.ret hs) hfits).bind
    intro _ o _ ho
    exact keeps_pure ho
  | expression e =>
    rw [Run.statement]
    apply (hl.note m debug _).bind
    intro n _ hn _
    exact h.expression (C.scope_later hn hscope) (T.only hs) hfits
  | block ss =>
    rw [Run.statement]
    apply (hl.note m debug _).bind
    intro n _ hn _
    exact h.block hl (C.scope_later hn hscope) (T.block hs) hfits
  | hole =>
    rw [Run.statement]
    apply (hl.note m debug _).bind
    intro n _ _ _
    exact keeps_stop (hl.noStatement hs)

theorem Kept.conditional (h : C.Kept T debug d) (hl : C.Steps T) {c : Expression}
    {t : List Statement} {a : Option (List Statement)} (hscope : C.scope m scope)
    (he : T.expression (.conditional c t a))
    (hfits : C.Reaches ((Expression.conditional c t a).fits (d - C.room + 1) = true)) :
    C.Keeps m (Run.expression debug (d + 1) scope (.conditional c t a))
      fun n o => C.value n o.value := by
  cases a with
  | none =>
    obtain ⟨hc, ht⟩ := hfits.both
    rw [Run.expression]
    apply (hl.note m debug _).bind
    intro n _ hn _
    have hscope := C.scope_later hn hscope
    apply (h.expression hscope (T.condition he) hc).bind
    intro n o hn ho
    have hscope := C.scope_later hn hscope
    split
    · exact keeps_pure ho
    · apply (hl.truth ho).bind
      intro n b hn _
      cases b with
      | true => exact h.block hl (C.scope_later hn hscope) (T.consequence he) ht
      | false => exact keeps_pure (hl.null n)
  | some e =>
    obtain ⟨hct, hother⟩ := hfits.both
    obtain ⟨hc, ht⟩ := hct.both
    rw [Run.expression]
    apply (hl.note m debug _).bind
    intro n _ hn _
    have hscope := C.scope_later hn hscope
    apply (h.expression hscope (T.condition he) hc).bind
    intro n o hn ho
    have hscope := C.scope_later hn hscope
    split
    · exact keeps_pure ho
    · apply (hl.truth ho).bind
      intro n b hn _
      cases b with
      | true => exact h.block hl (C.scope_later hn hscope) (T.consequence he) ht
      | false => exact h.block hl (C.scope_later hn hscope) (T.alternative he) hother

theorem Kept.call (h : C.Kept T debug d) (hl : C.Steps T) {f : Expression}
    {args : List Expression} (hscope : C.scope m scope) (he : T.expression (.call f args))
    (hfits : C.Reaches ((Expression.call f args).fits (d - C.room + 1) = true)) :
    C.Keeps m (Run.expression debug (d + 1) scope (.call f args))
      fun n o => C.value n o.value := by
  obtain ⟨hf, hargs⟩ := hfits.both
  have hdeep : C.Reaches (0 < d) := hf.imp fun hf => by
    cases d with
    | zero => simp [Expression.fits] at hf
    | succ d => exact Nat.succ_pos d
  rw [Run.expression]
  apply (hl.note m debug _).bind
  intro n _ hn _
  have hscope := C.scope_later hn hscope
  apply (h.expression hscope (T.call he).1 hf).bind
  intro n o hn ho
  split
  · exact keeps_pure ho
  · apply (h.argumentsFrom (C.scope_later hn hscope) (fun _ hv => absurd hv List.not_mem_nil)
      (T.call he).2 hargs).bind
    intro n r hn hr
    cases r with
    | error o => exact keeps_pure hr
    | ok vs =>
      apply (h.apply (C.value_later hn ho) hr hdeep).bind
      intro _ v _ hv
      exact keeps_pure hv

theorem Kept.expression_succ (h : C.Kept T debug d) (hl : C.Steps T) {e : Expression}
    (hscope : C.scope m scope) (he : T.expression e)
    (hfits : C.Reaches (e.fits (d - C.room + 1) = true)) (hroom : C.Reaches (C.room ≤ d)) :
    C.Keeps m (Run.expression debug (d + 1) scope e) fun n o => C.value n o.value := by
  cases e with
  | conditional c t a => exact h.conditional hl hscope he hfits
  | call f args => exact h.call hl hscope he hfits
  | integer i =>
    rw [Run.expression]
    apply (hl.note m debug _).bind
    intro n _ _ _
    exact keeps_pure (hl.integer n he)
  | boolean b =>
    rw [Run.expression]
    apply (hl.note m debug _).bind
    intro n _ _ _
    exact keeps_pure (hl.boolean n b)
  | string s =>
    rw [Run.expression]
    apply (hl.note m debug _).bind
    intro n _ _ _
    exact keeps_pure (hl.string n he)
  | function ps body =>
    rw [Run.expression]
    apply (hl.note m debug _).bind
    intro n _ hn _
    exact keeps_pure (hl.function n he (C.scope_later hn hscope))
  | hole =>
    rw [Run.expression]
    apply (hl.note m debug _).bind
    intro n _ _ _
    exact keeps_stop (hl.noExpression he)
  | name x =>
    rw [Run.expression]
    apply (hl.note m debug _).bind
    intro n _ hn _
    apply (hl.resolve (C.scope_later hn hscope) d hroom x).bind
    intro _ v _ hv
    exact keeps_pure hv
  | unary op e =>
    rw [Run.expression]
    apply (hl.note m debug _).bind
    intro n _ hn _
    apply (h.expression (C.scope_later hn hscope) (T.unary he) hfits).bind
    intro n o _ ho
    split
    · exact keeps_pure ho
    · apply (hl.unary ho d op).bind
      intro _ v _ hv
      exact keeps_pure hv
  | binary l op r =>
    rw [Run.expression]
    apply (hl.note m debug _).bind
    intro n _ hn _
    have hscope := C.scope_later hn hscope
    apply (h.expression hscope (T.binary he).1 hfits.both.1).bind
    intro n o hn ho
    split
    · exact keeps_pure ho
    · apply (h.expression (C.scope_later hn hscope) (T.binary he).2 hfits.both.2).bind
      intro n p hn hp
      split
      · exact keeps_pure hp
      · apply (hl.binary (C.value_later hn ho) hp d op).bind
        intro _ v _ hv
        exact keeps_pure hv

theorem Kept.apply_succ (h : C.Kept T debug d) (hl : C.Steps T) {f : Value}
    {args : List Value} (hf : C.value m f) (hargs : ∀ a ∈ args, C.value m a) :
    C.Keeps m (Run.apply debug (d + 1) f args) C.value := by
  rw [Run.apply.eq_def]
  dsimp only
  split
  · next ps body scope =>
    apply (hl.enter hf hargs).bind
    intro n inner _ hinner
    apply (h.block hl hinner (hl.body m hf) (.inl (hl.deep hf))).bind
    intro _ o _ ho
    exact keeps_pure ho
  · next b => exact hl.builtin hargs d b
  · exact hl.notAFunction hf d

/-- Evaluation keeps a contract that the primitive steps keep, if it may go as deep as the tree is
high and as there is room to be for names, or may go too deep. -/
theorem Steps.kept (hl : C.Steps T) (debug : Bool) (d : Nat) : C.Kept T debug d := by
  induction d with
  | zero =>
    constructor
    · intro m scope s _ _ hfits
      rw [Run.statement]
      exact keeps_stop (hfits.resolve_right (by simp [Statement.fits]))
    · intro m scope e _ _ hfits
      rw [Run.expression]
      exact keeps_stop (hfits.resolve_right (by simp [Expression.fits]))
    · intro m f args _ _ hdeep
      rw [Run.apply]
      exact keeps_stop (hdeep.resolve_right (Nat.lt_irrefl 0))
  | succ d ih =>
    constructor
    · intro m scope s hscope hs hfits
      exact ih.statement_succ hl hscope hs (Reaches.below (fun d => s.fits d) rfl hfits).1
    · intro m scope e hscope he hfits
      obtain ⟨hfits, hroom⟩ := Reaches.below (fun d => e.fits d) rfl hfits
      exact ih.expression_succ hl hscope he hfits hroom
    · intro m f args hf hargs _
      exact ih.apply_succ hl hf hargs

theorem Steps.markedWith (hl : C.Steps T) {s : Statement} (hfits : C.Reaches (s.fits d = true))
    {run : Run Outcome} {Q : Machine → Outcome → Prop} (h : C.Keeps m run Q) :
    C.Keeps m (Run.markedWith d s run) Q := by
  intro hm
  have hrun := h hm
  unfold Run.markedWith
  cases hr : run m with
  | ok o n =>
    rw [hr] at hrun
    exact hrun
  | error f n =>
    rw [hr] at hrun
    cases f with
    | runtime e source =>
      cases source with
      | none =>
        refine ⟨hrun.1, hrun.2.1, ?_⟩
        split
        · exact hl.marked hrun.2.2
        · next hhigh => exact hfits.resolve_right hhigh
      | some t => exact hrun
    | noTruth t => exact hrun
    | noText t => exact hrun
    | noValue => exact hrun
    | numeral e => exact hrun
    | tooDeep => exact hrun

theorem Steps.programFrom (hl : C.Steps T) (debug : Bool) (hscope : C.scope m scope)
    {last : Value} (hlast : C.value m last) {ss : List Statement}
    (hss : ∀ s ∈ ss, T.statement s)
    (hfits : C.Reaches (ss.all (Statement.fits (d - C.room)) = true)) :
    C.Keeps m (Run.programFrom debug d scope last ss) C.value := by
  induction ss generalizing m last with
  | nil => exact keeps_pure hlast
  | cons s ss ih =>
    rw [Run.programFrom]
    have hs := (hl.kept debug d).statement hscope (hss s List.mem_cons_self) hfits.both.1
    have hmark : C.Reaches (s.fits d = true) :=
      hfits.both.1.imp <| s.fits_mono <| Nat.sub_le d C.room
    apply (hl.markedWith hmark hs).bind
    intro n o hn ho
    split
    · exact keeps_pure ho
    · exact ih (C.scope_later hn hscope) ho (fun t ht => hss t (List.mem_cons_of_mem s ht))
        hfits.both.2

theorem Steps.program (hl : C.Steps T) (debug : Bool) (hscope : C.scope m scope) {p : Program}
    (hp : ∀ s ∈ p.statements, T.statement s) (hfits : C.Reaches (p.fits (d - C.room) = true)) :
    C.Keeps m (Run.program debug d scope p) C.value :=
  hl.programFrom debug hscope (hl.null m) hp hfits

/-- However deep evaluation may go, it keeps a contract that allows it to go too deep. -/
theorem Lawful.program (hl : C.Lawful T) (debug : Bool) (d : Nat) (hscope : C.scope m scope)
    {p : Program} (hp : ∀ s ∈ p.statements, T.statement s) :
    C.Keeps m (Run.program debug d scope p) C.value :=
  hl.toSteps.program debug hscope hp (.inl hl.tooDeep)

theorem Lawful.node (hl : C.Lawful T) (debug : Bool) (d : Nat) (hscope : C.scope m scope)
    {node : Node} (hn : T.node node)
    (hf : node = .missing → C.failure (.runtime .nothingToEvaluate none)) :
    C.Keeps m (Run.node debug d scope node) C.value := by
  cases node with
  | program p => exact hl.program debug d hscope hn
  | statement s =>
    apply ((hl.kept debug d).statement hscope hn (.inl hl.tooDeep)).bind
    intro _ o _ ho
    exact keeps_pure ho
  | expression e =>
    apply ((hl.kept debug d).expression hscope hn (.inl hl.tooDeep)).bind
    intro _ o _ ho
    exact keeps_pure ho
  | missing => exact keeps_stop (hf rfl)

end Evaluation

end Contract

end Monkey
