import Monkey.Proofs.Evaluation.Contract

/-!
# What an evaluation leaves alone

An evaluation binds names in its own scope and in scopes that it opens. The scopes that were there
before stay where they are, inside the same scopes; all but its own keep their bindings, and its own
loses no name.
-/

namespace Monkey

set_option autoImplicit false

/-- The names that a scope binds, in the order in which they were first bound. -/
def Scope.names (sc : Scope) : List String := sc.bindings.map Prod.fst

theorem Scope.eq_of_parts {a b : Scope} (hp : a.parent = b.parent)
    (hb : a.bindings = b.bindings) : a = b := by
  cases a
  cases b
  cases hp
  cases hb
  rfl

/-- Every scope of the store `s` is in `t` as well, inside the same scope. It has the same bindings
except for one scope, whose names come first among its names in `t`. -/
def Store.OnlyWrites (scope : Nat) (s t : Store) : Prop :=
  ∀ i sc, s.scopes[i]? = some sc → ∃ sc', t.scopes[i]? = some sc' ∧ sc'.parent = sc.parent ∧
    sc.names <+: sc'.names ∧ (i ≠ scope → sc'.bindings = sc.bindings)

/-- The machine when the run has ended, with a result or with a failure. -/
def Run.after {α : Type} (run : Run α) (m : Machine) : Machine :=
  match run m with
  | .ok _ n => n
  | .error _ n => n

theorem Bindings.names_insert (name : String) (v : Value) (bs : Bindings) :
    bs.map Prod.fst <+: (bs.insert name v).map Prod.fst := by
  induction bs with
  | nil => exact List.nil_prefix
  | cons p rest ih =>
    obtain ⟨n, w⟩ := p
    rw [Bindings.insert]
    split
    · exact List.prefix_rfl
    · simpa using ih

namespace Store

variable {scope : Nat} {s t : Store}

theorem onlyWrites_refl (scope : Nat) (s : Store) : s.OnlyWrites scope s := by
  intro i sc hsc
  exact ⟨sc, hsc, rfl, List.prefix_rfl, fun _ => rfl⟩

theorem OnlyWrites.set (h : s.OnlyWrites scope t) {j : Nat}
    (hj : j = scope ∨ s.scopes.size ≤ j) (name : String) (v : Value) :
    s.OnlyWrites scope (t.set j name v) := by
  intro i sc hsc
  obtain ⟨sc', hsc', hparent, hnames, hbindings⟩ := h i sc hsc
  have hi := (Array.getElem?_eq_some_iff.mp hsc).1
  rw [Store.set, Array.getElem?_modify, hsc']
  split
  · next hji =>
    subst hji
    refine ⟨_, rfl, hparent, hnames.trans (Bindings.names_insert name v _), ?_⟩
    intro hne
    omega
  · exact ⟨sc', rfl, hparent, hnames, hbindings⟩

theorem OnlyWrites.size_le (h : s.OnlyWrites scope t) : s.scopes.size ≤ t.scopes.size := by
  rcases Nat.eq_zero_or_pos s.scopes.size with hz | hp
  · omega
  · obtain ⟨sc', hsc', _⟩ := h (s.scopes.size - 1) s.scopes[s.scopes.size - 1]
      (Array.getElem?_eq_getElem (by omega))
    have := (Array.getElem?_eq_some_iff.mp hsc').1
    omega

theorem OnlyWrites.add (h : s.OnlyWrites scope t) (parent : Option Nat) (bs : Bindings) :
    s.OnlyWrites scope (t.add parent bs).2 := by
  intro i sc hsc
  obtain ⟨sc', hsc', hrest⟩ := h i sc hsc
  have hi := (Array.getElem?_eq_some_iff.mp hsc').1
  refine ⟨sc', ?_, hrest⟩
  rw [Store.add, Array.getElem?_push, if_neg (by omega)]
  exact hsc'

/-- Where only a scope is written that was not there, nothing is written that was. -/
theorem OnlyWrites.isPrefix (h : s.OnlyWrites s.scopes.size t) :
    s.scopes.toList <+: t.scopes.toList := by
  rw [List.prefix_iff_getElem?]
  intro i hi
  rw [Array.length_toList] at hi
  obtain ⟨sc', hsc', hparent, _, hbindings⟩ := h i s.scopes[i] (Array.getElem?_eq_getElem hi)
  have heq : sc' = s.scopes[i] :=
    Scope.eq_of_parts hparent (hbindings (Nat.ne_of_lt hi))
  rw [Array.getElem?_toList, hsc', heq, Array.getElem_toList]

end Store

namespace Run

def Idle {α : Type} (run : Run α) : Prop := ∀ m, run.after m = m

def Still {α : Type} (run : Run α) : Prop := ∀ m, (run.after m).store = m.store

section Idle

variable {α β : Type}

theorem after_bind (run : Run α) (next : α → Run β) (m : Machine) :
    (run >>= next).after m =
      match run m with
      | .ok a n => (next a).after n
      | .error _ n => n := by
  change after (EStateM.bind run next) m = _
  unfold after EStateM.bind
  cases run m <;> rfl

theorem markedWith_after (d : Nat) (s : Statement) (run : Run Outcome) (m : Machine) :
    (markedWith d s run).after m = run.after m := by
  unfold after markedWith
  cases hr : run m with
  | ok o n => rfl
  | error f n =>
    cases f with
    | runtime e source => cases source <;> rfl
    | _ => rfl

theorem idle_pure (a : α) : Idle (pure a : Run α) := fun _ => rfl

theorem idle_stop (f : Failure) : Idle (stop f : Run α) := fun _ => rfl

theorem Idle.bind {run : Run α} {next : α → Run β} (h : Idle run) (hn : ∀ a, Idle (next a)) :
    Idle (run >>= next) := by
  intro m
  have hrun := h m
  unfold after at hrun
  rw [after_bind]
  cases hr : run m with
  | error f n =>
    rw [hr] at hrun
    exact hrun
  | ok a n =>
    rw [hr] at hrun
    exact (hn a n).trans hrun

theorem idle_ofExcept (r : Except RuntimeError α) : Idle (ofExcept r) := by
  cases r with
  | ok a => exact idle_pure a
  | error e => exact idle_stop _

theorem idle_lacking (v : Value) (failure : String → Failure) :
    Idle (lacking v failure : Run α) := by
  unfold lacking
  split
  · exact idle_stop _
  · exact idle_stop _

theorem idle_shown (d : Nat) (v : Value) : Idle (shown d v) := by
  unfold shown
  split
  · split
    · exact idle_pure _
    · exact idle_lacking v _
  · exact idle_stop _

theorem idle_inspected (d : Nat) (v : Value) : Idle (inspected d v) := by
  unfold inspected
  split
  · split
    · exact idle_pure _
    · exact idle_lacking v _
  · exact idle_stop _

theorem idle_truth (v : Value) : Idle (truth v) := by
  unfold truth
  split
  · exact idle_pure _
  · exact idle_lacking v _

theorem idle_resolveBuiltin (name : String) : Idle (resolveBuiltin name) := by
  unfold resolveBuiltin
  split
  · exact idle_pure _
  · exact idle_stop _

theorem idle_resolve (depth scope : Nat) (name : String) : Idle (resolve depth scope name) := by
  intro m
  have hb := idle_resolveBuiltin name m
  unfold after at hb ⊢
  unfold resolve
  cases m.store.lookup? name depth scope with
  | error f => rfl
  | ok found =>
    cases found with
    | none => exact hb
    | some v =>
      cases v with
      | missing => exact hb
      | _ => rfl

theorem idle_unary (d : Nat) (op : String) (v : Value) : Idle (unary d op v) := by
  unfold unary
  split
  · apply (idle_truth v).bind
    intro b
    exact idle_pure _
  · split
    · exact idle_ofExcept _
    · apply (idle_inspected d v).bind
      intro t
      exact idle_stop _

theorem idle_badBinary (d : Nat) (op : String) (v w : Value) : Idle (badBinary d op v w) := by
  unfold badBinary
  apply (idle_inspected d v).bind
  intro s
  apply (idle_inspected d w).bind
  intro t
  exact idle_stop _

theorem idle_binary (d : Nat) (op : String) (v w : Value) : Idle (binary d op v w) := by
  unfold binary
  split
  · exact idle_ofExcept _
  · split
    · exact idle_pure _
    · exact idle_pure _
    · exact idle_badBinary d op _ _
  · exact idle_badBinary d op _ _

theorem idle_notAFunction (d : Nat) (v : Value) :
    Idle (inspected d v >>= fun t => fail (α := α) (.notAFunction t)) :=
  (idle_inspected d v).bind fun _ => idle_stop _

end Idle

section Still

variable {α β : Type}

theorem Idle.still {run : Run α} (h : Idle run) : Still run := fun m => congrArg Machine.store (h m)

theorem still_event (e : Event) : Still (event e) := fun _ => rfl

theorem still_ask (prompt : String) : Still (ask prompt) := fun _ => rfl

theorem Still.bind {run : Run α} {next : α → Run β} (h : Still run) (hn : ∀ a, Still (next a)) :
    Still (run >>= next) := by
  intro m
  have hrun := h m
  unfold after at hrun
  rw [after_bind]
  cases hr : run m with
  | error f n =>
    rw [hr] at hrun
    exact hrun
  | ok a n =>
    rw [hr] at hrun
    exact (hn a n).trans hrun

theorem still_note (debug : Bool) (text : String) : Still (note debug text) := by
  unfold note
  split
  · exact still_event _
  · exact (idle_pure _).still

theorem still_builtin (d : Nat) (b : Builtin) (args : List Value) : Still (builtin d b args) := by
  unfold builtin
  apply (idle_ofExcept _).still.bind
  intro _
  unfold builtinBody
  split
  · exact (idle_pure _).still
  · apply (idle_shown d _).still.bind
    intro t
    exact (idle_pure _).still
  · apply (idle_shown d _).still.bind
    intro t
    apply (still_event _).bind
    intro _
    exact (idle_pure _).still
  · apply (still_ask _).bind
    intro line
    split
    · exact (idle_pure _).still
    · exact (idle_stop _).still
  · exact (idle_pure _).still

end Still

end Run

/-- Evaluation in a scope of a store: it writes there and in scopes that are opened later. -/
def Contract.frame (s : Store) (scope : Nat) : Contract where
  holds m := s.OnlyWrites scope m.store
  later _ _ := True
  value _ _ := True
  scope _ i := i = scope ∨ s.scopes.size ≤ i
  failure _ := True
  refl _ := trivial
  trans _ _ := trivial
  value_later _ _ := trivial
  scope_later _ h := h

def Trees.all : Trees where
  expression _ := True
  statement _ := True
  unary _ := trivial
  binary _ := ⟨trivial, trivial⟩
  condition _ := trivial
  consequence _ _ _ := trivial
  alternative _ _ _ := trivial
  call _ := ⟨trivial, fun _ _ => trivial⟩
  binding _ := trivial
  ret _ := trivial
  only _ := trivial
  block _ _ _ := trivial

theorem Trees.node_all (node : Node) : Trees.all.node node := by
  cases node with
  | program p => exact fun _ _ => trivial
  | statement s => trivial
  | expression e => trivial
  | missing => trivial

namespace Contract

variable {α : Type} {s : Store} {scope : Nat} {m : Machine} {run : Run α}

/-- A step that leaves the store as it is, where only the store matters and no failure does. -/
theorem keeps_of_still {C : Contract} {Q : Machine → α → Prop} (h : Run.Still run)
    (hkept : ∀ n : Machine, n.store = m.store → C.holds m → C.holds n ∧ C.later m n)
    (hfailure : ∀ f, C.failure f)
    (hq : C.holds m → ∀ a n, run m = .ok a n → n.store = m.store → Q n a) :
    C.Keeps m run Q := by
  intro hm
  have hstore := h m
  unfold Run.after at hstore
  cases hr : run m with
  | ok a n =>
    rw [hr] at hstore
    obtain ⟨hholds, hlater⟩ := hkept n hstore hm
    exact ⟨hholds, hlater, hq hm a n hr hstore⟩
  | error f n =>
    rw [hr] at hstore
    obtain ⟨hholds, hlater⟩ := hkept n hstore hm
    exact ⟨hholds, hlater, hfailure f⟩

theorem frame_keeps_of_still (h : Run.Still run) {Q : Machine → α → Prop}
    (hq : ∀ n a, Q n a) : (frame s scope).Keeps m run Q := by
  refine keeps_of_still h ?_ (fun _ => trivial) fun _ a n _ _ => hq n a
  intro n hn hm
  refine ⟨?_, trivial⟩
  change s.OnlyWrites scope n.store
  rw [hn]
  exact hm

theorem frame_lawful (s : Store) (scope : Nat) : (frame s scope).Lawful Trees.all where
  tooDeep := trivial
  marked _ := trivial
  null _ := trivial
  integer _ _ _ := trivial
  boolean _ _ := trivial
  string _ _ _ := trivial
  function _ _ _ _ _ _ := trivial
  body _ _ _ _ _ _ _ := trivial
  noExpression _ := trivial
  noStatement _ := trivial
  note _ debug text := frame_keeps_of_still (Run.still_note debug text) fun _ _ => trivial
  bindName hscope _ n hm := ⟨hm.set hscope n _, trivial, trivial⟩
  resolve _ d _ n := frame_keeps_of_still (Run.idle_resolve d _ n).still fun _ _ => trivial
  enter := by
    intro m ps body outer args _ _
    rw [Run.enter]
    split
    · intro hm
      exact ⟨hm.add _ _, trivial, .inr hm.size_le⟩
    · exact keeps_stop trivial
  truth _ := frame_keeps_of_still (Run.idle_truth _).still fun _ _ => trivial
  unary _ d op := frame_keeps_of_still (Run.idle_unary d op _).still fun _ _ => trivial
  binary _ _ d op := frame_keeps_of_still (Run.idle_binary d op _ _).still fun _ _ => trivial
  builtin _ d b := frame_keeps_of_still (Run.still_builtin d b _) fun _ _ => trivial
  notAFunction _ d := frame_keeps_of_still (Run.idle_notAFunction d _).still fun _ _ => trivial

theorem Keeps.at_end {C : Contract} {Q : Machine → α → Prop} (h : C.Keeps m run Q)
    (hm : C.holds m) : C.holds (run.after m) ∧ C.later m (run.after m) := by
  have hrun := h hm
  unfold Run.after
  cases hr : run m with
  | ok a n =>
    rw [hr] at hrun
    exact ⟨hrun.1, hrun.2.1⟩
  | error f n =>
    rw [hr] at hrun
    exact ⟨hrun.1, hrun.2.1⟩

theorem Keeps.after {C : Contract} {Q : Machine → α → Prop} (h : C.Keeps m run Q)
    (hm : C.holds m) : C.holds (run.after m) :=
  (h.at_end hm).1

end Contract

/-- The application of a function writes in no scope that was there before. -/
theorem Run.apply_isPrefix (debug : Bool) (depth : Nat) (m : Machine) (f : Value)
    (args : List Value) : m.store.scopes.toList <+:
      ((Run.apply debug depth f args).after m).store.scopes.toList := by
  have hkept := (Contract.frame_lawful m.store m.store.scopes.size).kept debug depth
  have hkeeps : (Contract.frame m.store m.store.scopes.size).Keeps m
      (Run.apply debug depth f args) _ := hkept.apply trivial (fun _ _ => trivial) (.inl trivial)
  exact (hkeeps.after (Store.onlyWrites_refl _ m.store)).isPrefix

/-- However an evaluation ends, it has written in no scope that was there before but its own, where
no name is lost, and every scope is inside the same scope as before. The application of a function
leaves all scopes as they were, and adds others behind them. -/
theorem Run.only_writes_scope (debug : Bool) (depth : Nat) (m : Machine) :
    (∀ scope node, m.store.OnlyWrites scope ((Run.node debug depth scope node).after m).store) ∧
      ∀ f args, m.store.scopes.toList <+:
        ((Run.apply debug depth f args).after m).store.scopes.toList := by
  constructor
  · intro scope node
    have hkeeps := (Contract.frame_lawful m.store scope).node debug depth (m := m) (.inl rfl)
      (Trees.node_all node) fun _ => trivial
    exact hkeeps.after (Store.onlyWrites_refl scope m.store)
  · exact Run.apply_isPrefix debug depth m

end Monkey
