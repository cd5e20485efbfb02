import Monkey.Proofs.Evaluation.Frame
import Monkey.Proofs.Evaluation.Given
import Monkey.Proofs.Evaluation.Stored
import Monkey.Proofs.Evaluation.Watched
import Monkey.Proofs.Program.WellFormed

/-!
# Integers of 64 bits

Every integer that occurs while a well-formed program is evaluated is one of 64 bits, as long as no
string occurs whose length is not. Literals are in range because the tree is well-formed, and the
operators and built-in functions give nothing else; values go into a store and come out of it as
they are.
-/

namespace Monkey

set_option autoImplicit false

namespace Value

def InRange : Value → Prop
  | integer n => Integer.least ≤ n ∧ n ≤ Integer.greatest
  | _ => True

def Countable : Value → Prop
  | string s => (s.length : Int) ≤ Integer.greatest
  | _ => True

instance (v : Value) : Decidable v.Countable :=
  match v with
  | string s => inferInstanceAs (Decidable ((s.length : Int) ≤ Integer.greatest))
  | integer _ => .isTrue trivial
  | boolean _ => .isTrue trivial
  | function .. => .isTrue trivial
  | builtin _ => .isTrue trivial
  | null => .isTrue trivial
  | foreign _ => .isTrue trivial
  | missing => .isTrue trivial

/-- An integer is one of 64 bits, and the body of a function makes no other ones. -/
def Sound : Value → Prop
  | integer n => Integer.least ≤ n ∧ n ≤ Integer.greatest
  | function _ body _ => ∀ s ∈ body, s.WellFormed
  | _ => True

theorem Sound.inRange {v : Value} (h : v.Sound) : v.InRange := by
  cases v with
  | integer n => exact h
  | _ => trivial

end Value

theorem sound_of_wellFormed {n : Int} (h : Expression.WellFormed (.integer n)) :
    (Value.integer n).Sound := by
  cases h with
  | integer hl hg =>
    have hleast : Integer.least ≤ 0 := by decide
    exact ⟨Int.le_trans hleast hl, hg⟩

theorem Value.sound_common : Value.Common Value.Sound where
  integer hf := Integer.fits_iff.mp hf
  boolean _ := trivial
  string _ := trivial
  null := trivial

theorem Value.Countable.sound_length {s : String} (h : (Value.string s).Countable) :
    (Value.integer s.length).Sound := by
  have hleast : Integer.least ≤ 0 := by decide
  exact ⟨Int.le_trans hleast (Int.natCast_nonneg _), h⟩

namespace Watched

variable {α β : Type}

/-- Where every string that occurs is countable and the store is sound, every integer that occurs is
in range, the store stays sound, and a result satisfies `Q`. -/
def Bounded (w : Watched α) (Q : α → Prop) : Prop :=
  ∀ m, m.store.All Value.Sound → (∀ o ∈ w.occurrences m, o.value.Countable) →
    (∀ o ∈ w.occurrences m, o.value.InRange) ∧ (w.run.after m).store.All Value.Sound ∧
      ∀ a n, w.run m = .ok a n → Q a

section Bounded

variable {Q : α → Prop} {R : β → Prop}

theorem bounded_lift {run : Run α}
    (hstore : ∀ m, m.store.All Value.Sound → (run.after m).store.All Value.Sound)
    (hq : ∀ m a n, m.store.All Value.Sound → run m = .ok a n → Q a) : Bounded (lift run) Q := by
  intro m hm _
  exact ⟨fun _ ho => absurd ho List.not_mem_nil, hstore m hm, fun a n h => hq m a n hm h⟩

theorem bounded_still {run : Run α} (hstill : run.Still) (hq : run.Gives Q) :
    Bounded (lift run) Q := by
  apply bounded_lift
  · intro m hm
    rw [hstill m]
    exact hm
  · intro m a n _ hr
    exact hq m a n hr

theorem bounded_pure {a : α} (h : Q a) : Bounded (pure a) Q :=
  bounded_still (Run.idle_pure a).still (Run.gives_pure h)

theorem bounded_stop (f : Failure) : Bounded (lift (Run.stop f)) Q :=
  bounded_still (Run.idle_stop f).still (Run.gives_stop f)

theorem bounded_see (use : Use) {vs : List Value} (h : ∀ v ∈ vs, v.Sound) :
    Bounded (see use vs) fun _ => ∀ v ∈ vs, v.Countable := by
  intro m hm hcount
  refine ⟨?_, hm, ?_⟩
  · intro o ho
    obtain ⟨v, hv, rfl⟩ := List.mem_map.mp ho
    exact (h v hv).inRange
  · intro _ _ _ v hv
    exact hcount ⟨use, v⟩ (List.mem_map.mpr ⟨v, hv, rfl⟩)

theorem bounded_see_one (use : Use) {v : Value} (h : v.Sound) :
    Bounded (see use [v]) fun _ => ∀ u ∈ [v], u.Countable := by
  apply bounded_see
  intro u hu
  rw [List.mem_singleton.mp hu]
  exact h

theorem Bounded.bind {w : Watched α} {next : α → Watched β} (h : Bounded w Q)
    (hn : ∀ a, Q a → Bounded (next a) R) : Bounded (w >>= next) R := by
  intro m hm hcount
  have hfirst : ∀ o ∈ w.occurrences m, o.value.Countable := by
    intro o ho
    exact hcount o (List.mem_append_left _ ho)
  obtain ⟨hrange, hstore, hq⟩ := h m hm hfirst
  cases hr : w.run m with
  | error f n =>
    have hrest : (w >>= next).occurrences m = w.occurrences m ++ [] := by rw [occurrences_bind, hr]
    have hbind : (w >>= next).run m = .error f n := bind_of_error hr
    refine ⟨?_, ?_, ?_⟩
    · rw [hrest, List.append_nil]
      exact hrange
    · unfold Run.after at hstore ⊢
      rw [hr] at hstore
      rw [hbind]
      exact hstore
    · intro b o hb
      rw [hbind] at hb
      cases hb
  | ok a n =>
    have hrest : (w >>= next).occurrences m = w.occurrences m ++ (next a).occurrences n := by
      rw [occurrences_bind, hr]
    have hbind : (w >>= next).run m = (next a).run n := bind_of_ok hr
    rw [hrest] at hcount ⊢
    unfold Run.after at hstore
    rw [hr] at hstore
    obtain ⟨hrange', hstore', hr'⟩ := hn a (hq a n hr) n hstore fun o ho =>
      hcount o (List.mem_append_right _ ho)
    refine ⟨?_, ?_, ?_⟩
    · intro o ho
      rcases List.mem_append.mp ho with ho | ho
      · exact hrange o ho
      · exact hrange' o ho
    · unfold Run.after
      rw [hbind]
      exact hstore'
    · intro b o hb
      rw [hbind] at hb
      exact hr' b o hb

theorem bounded_evaluated {w : Watched Outcome} (h : Bounded w fun o => o.value.Sound) :
    Bounded (evaluated w) fun o => o.value.Sound := by
  apply h.bind
  intro o ho
  apply (bounded_see_one .evaluated ho).bind
  intro _ _
  exact bounded_pure ho

theorem bounded_returned {w : Watched Value} (h : Bounded w Value.Sound) :
    Bounded (returned w) Value.Sound := by
  apply h.bind
  intro v hv
  apply (bounded_see_one .returned hv).bind
  intro _ _
  exact bounded_pure hv

theorem bounded_resolve (d scope : Nat) (name : String) :
    Bounded (lift (Run.resolve d scope name)) Value.Sound := by
  apply bounded_lift
  · intro m hm
    rw [Run.idle_resolve d scope name m]
    exact hm
  · intro m v n hm hr
    exact Run.of_resolve hm (fun _ => trivial) hr

theorem bounded_bindName {v : Value} (hv : v.Sound) (scope : Nat) (name : String) :
    Bounded (lift (Run.bindName scope name v)) fun _ => True := by
  apply bounded_lift
  · intro m hm
    exact hm.set hv scope name
  · intro _ _ _ _ _
    trivial

theorem bounded_enter {args : List Value} (hargs : ∀ a ∈ args, a.Sound) (ps : List String)
    (scope : Nat) : Bounded (lift (Run.enter ps scope args)) fun _ => True := by
  apply bounded_lift
  · intro m hm
    rw [Run.enter]
    split
    · exact hm.add (Bindings.all_zip hargs) _
    · exact hm
  · intro _ _ _ _ _
    trivial

theorem bounded_builtin {args : List Value} (hargs : ∀ a ∈ args, a.Sound)
    (hcount : ∀ a ∈ args, a.Countable) (d : Nat) (b : Builtin) :
    Bounded (builtin d b args) Value.Sound := by
  apply (bounded_still (Run.still_builtin d b args)
    (Run.gives_builtin Value.sound_common (fun s hs => (hcount _ hs).sound_length) d b)).bind
  intro v hv
  have hprinted : ∀ a ∈ (if b = .println then args else []), a.Sound := by
    split
    · exact hargs
    · exact fun _ ha => absurd ha List.not_mem_nil
  apply (bounded_see .printed hprinted).bind
  intro _ _
  exact bounded_pure hv

end Bounded

structure Within (debug : Bool) (d : Nat) : Prop where
  statement : ∀ scope {s}, s.WellFormed →
    Bounded (statement debug d scope s) fun o => o.value.Sound
  expression : ∀ scope {e}, e.WellFormed →
    Bounded (expression debug d scope e) fun o => o.value.Sound
  apply : ∀ {f args}, f.Sound → (∀ a ∈ args, a.Sound) →
    Bounded (apply debug d f args) Value.Sound

section Within

variable {debug : Bool} {d : Nat}

theorem bounded_note (debug : Bool) (text : String) :
    Bounded (lift (Run.note debug text)) fun _ => True :=
  bounded_still (Run.still_note debug text) fun _ _ _ _ => trivial

theorem bounded_blockFrom {run : Statement → Watched Outcome} {ss : List Statement}
    (h : ∀ s ∈ ss, Bounded (run s) fun o => o.value.Sound) {last : Outcome}
    (hlast : last.value.Sound) : Bounded (blockFrom run last ss) fun o => o.value.Sound := by
  induction ss generalizing last with
  | nil => exact bounded_pure hlast
  | cons s ss ih =>
    rw [blockFrom]
    apply (h s List.mem_cons_self).bind
    intro o ho
    split
    · exact bounded_pure ho
    · exact ih (fun t ht => h t (List.mem_cons_of_mem s ht)) ho

theorem bounded_block {run : Statement → Watched Outcome} {ss : List Statement}
    (h : ∀ s ∈ ss, Bounded (run s) fun o => o.value.Sound) :
    Bounded (block run ss) fun o => o.value.Sound :=
  bounded_blockFrom h trivial

theorem bounded_argumentsFrom {run : Expression → Watched Outcome} {es : List Expression}
    (h : ∀ e ∈ es, Bounded (run e) fun o => o.value.Sound) {done : List Value}
    (hdone : ∀ v ∈ done, v.Sound) : Bounded (argumentsFrom run done es) fun r =>
      match r with
      | .error o => o.value.Sound
      | .ok vs => ∀ v ∈ vs, v.Sound := by
  induction es generalizing done with
  | nil => exact bounded_pure fun v hv => hdone v (List.mem_reverse.mp hv)
  | cons e es ih =>
    rw [argumentsFrom]
    apply (h e List.mem_cons_self).bind
    intro o ho
    split
    · exact bounded_pure ho
    · apply ih fun f hf => h f (List.mem_cons_of_mem e hf)
      intro v hv
      rcases List.mem_cons.mp hv with rfl | hv
      · exact ho
      · exact hdone v hv

theorem Within.block (h : Within debug d) (scope : Nat) {ss : List Statement}
    (hss : ∀ s ∈ ss, s.WellFormed) :
    Bounded (Watched.block (Watched.statement debug d scope) ss) fun o => o.value.Sound :=
  bounded_block fun s hs => h.statement scope (hss s hs)

theorem Within.statement_succ (h : Within debug d) (scope : Nat) {s : Statement}
    (hs : s.WellFormed) :
    Bounded (Watched.statement debug (d + 1) scope s) fun o => o.value.Sound := by
  rw [Watched.statement.eq_def]
  apply (bounded_note debug _).bind
  intro _ _
  cases hs with
  | expression he => exact h.expression scope he
  | @binding n e _ he =>
    apply (h.expression scope he).bind
    intro o ho
    split
    · exact bounded_pure ho
    · apply (bounded_see_one .stored ho).bind
      intro _ _
      apply (bounded_bindName ho scope n).bind
      intro _ _
      exact bounded_pure ho
  | ret he =>
    apply (h.expression scope he).bind
    intro o ho
    exact bounded_pure ho

theorem Within.conditional (h : Within debug d) (scope : Nat) {t : List Statement}
    {a : Option (List Statement)} (ht : ∀ s ∈ t, s.WellFormed)
    (ha : ∀ e ∈ a, ∀ s ∈ e, s.WellFormed) (v : Value) :
    Bounded (do
      if ← lift (Run.truth v) then Watched.block (Watched.statement debug d scope) t
      else
        match a with
        | some e => Watched.block (Watched.statement debug d scope) e
        | none => return ⟨.null, false⟩) fun o => o.value.Sound := by
  have htruth : Bounded (lift (Run.truth v)) fun _ => True :=
    bounded_still (Run.idle_truth v).still fun _ _ _ _ => trivial
  apply htruth.bind
  intro b _
  cases b with
  | true => exact h.block scope ht
  | false =>
    cases a with
    | none => exact bounded_pure trivial
    | some e => exact h.block scope (ha e rfl)

theorem Within.expression_succ (h : Within debug d) (scope : Nat) {e : Expression}
    (he : e.WellFormed) :
    Bounded (Watched.expression debug (d + 1) scope e) fun o => o.value.Sound := by
  rw [Watched.expression.eq_def]
  apply (bounded_note debug _).bind
  intro _ _
  apply bounded_evaluated
  cases he with
  | integer hl hg => exact bounded_pure (sound_of_wellFormed (.integer hl hg))
  | boolean b => exact bounded_pure trivial
  | string s => exact bounded_pure trivial
  | function _ hbody => exact bounded_pure hbody
  | @name n _ =>
    apply (bounded_resolve d scope n).bind
    intro v hv
    exact bounded_pure hv
  | @unary op e _ he =>
    apply (h.expression scope he).bind
    intro o ho
    split
    · exact bounded_pure ho
    · apply (bounded_still (Run.idle_unary d op _).still
        (Run.gives_unary Value.sound_common d op _)).bind
      intro v hv
      exact bounded_pure hv
  | @binary l r op hl _ hr =>
    apply (h.expression scope hl).bind
    intro o ho
    split
    · exact bounded_pure ho
    · apply (h.expression scope hr).bind
      intro p hp
      split
      · exact bounded_pure hp
      · apply (bounded_still (Run.idle_binary d op _ _).still
          (Run.gives_binary Value.sound_common d op _ _)).bind
        intro v hv
        exact bounded_pure hv
  | conditional hc ht =>
    apply (h.expression scope hc).bind
    intro o ho
    split
    · exact bounded_pure ho
    · exact h.conditional (a := none) scope ht (fun _ ha => absurd ha (by simp)) o.value
  | @alternative c t e hc ht he =>
    apply (h.expression scope hc).bind
    intro o ho
    split
    · exact bounded_pure ho
    · refine h.conditional (a := some e) scope ht (fun e' ha => ?_) o.value
      cases ha
      exact he
  | call hf hargs =>
    apply (h.expression scope hf).bind
    intro o ho
    split
    · exact bounded_pure ho
    · apply (bounded_argumentsFrom (fun a ha => h.expression scope (hargs a ha))
        fun _ hv => absurd hv List.not_mem_nil).bind
      intro r hr
      cases r with
      | error p => exact bounded_pure hr
      | ok vs =>
        apply (h.apply ho hr).bind
        intro v hv
        exact bounded_pure hv

theorem Within.apply_succ (h : Within debug d) {f : Value} {args : List Value} (hf : f.Sound)
    (hargs : ∀ a ∈ args, a.Sound) :
    Bounded (Watched.apply debug (d + 1) f args) Value.Sound := by
  rw [Watched.apply.eq_def]
  dsimp only
  apply (bounded_see .passed hargs).bind
  intro _ hcount
  apply bounded_returned
  split
  · next ps body scope =>
    apply (bounded_enter hargs ps scope).bind
    intro inner _
    apply (bounded_see .stored hargs).bind
    intro _ _
    apply (h.block inner hf).bind
    intro o ho
    exact bounded_pure ho
  · next b => exact bounded_builtin hargs hcount d b
  · apply bounded_still
    · exact (Run.idle_notAFunction d _).still
    · exact Run.gives_notAFunction d _

theorem within (debug : Bool) (d : Nat) : Within debug d := by
  induction d with
  | zero =>
    constructor
    · intro scope s _
      rw [Watched.statement]
      exact bounded_stop _
    · intro scope e _
      rw [Watched.expression]
      exact bounded_stop _
    · intro f args _ _
      rw [Watched.apply]
      exact bounded_stop _
  | succ d ih =>
    constructor
    · intro scope s hs
      exact ih.statement_succ scope hs
    · intro scope e he
      exact ih.expression_succ scope he
    · intro f args hf hargs
      exact ih.apply_succ hf hargs

theorem bounded_top (debug : Bool) (d scope : Nat) {s : Statement} (hs : s.WellFormed) :
    Bounded (top debug d scope s) fun o => o.value.Sound := by
  intro m hm hcount
  obtain ⟨hrange, hstore, hq⟩ := (within debug d).statement scope hs m hm hcount
  refine ⟨hrange, ?_, fun o n ho => hq o n (Run.ok_of_markedWith ho)⟩
  rw [top, Run.markedWith_after]
  exact hstore

theorem bounded_program (debug : Bool) (d scope : Nat) {p : Program} (hp : p.WellFormed) :
    Bounded (program debug d scope p) Value.Sound := by
  apply bounded_returned
  apply (bounded_block fun s hs => bounded_top debug d scope (hp s hs)).bind
  intro o ho
  exact bounded_pure ho

end Within

end Watched

end Monkey
