import Mathlib.Order.Monotone.Basic
import Monkey.Proofs.Evaluation.Closed
import Monkey.Proofs.Evaluation.Comparison
import Monkey.Proofs.Evaluation.Console

/-!
# Evaluation under other numbers of scopes

The numbers of the scopes do not matter. If the scopes of one store occur in another one under other
numbers, in the same order, an evaluation does the same in both stores, and the scopes that it opens
get numbers that correspond again.
-/

namespace Monkey

set_option autoImplicit false

variable {ρ : Nat → Nat}

def Bindings.renamed (ρ : Nat → Nat) (bs : Bindings) : Bindings :=
  bs.map fun b => (b.1, b.2.renamed ρ)

def Scope.renamed (ρ : Nat → Nat) (sc : Scope) : Scope :=
  ⟨sc.parent.map ρ, sc.bindings.renamed ρ⟩

/-- The scopes of `s` occur in `t` under other numbers, and the scopes that come next will do so. -/
structure Store.Renamed (ρ : Nat → Nat) (s t : Store) : Prop where
  scope : ∀ i, t.scopes[ρ i]? = s.scopes[i]?.map (Scope.renamed ρ)
  next : ∀ k, ρ (s.size + k) = t.size + k

namespace Value

theorem renamed_eq_self {n : Nat} (hρ : ∀ i < n, ρ i = i) {v : Value} (h : v.Within n) :
    v.renamed ρ = v := by
  cases v with
  | function ps body scope => rw [renamed, hρ scope h]
  | _ => rfl

end Value

namespace Bindings

theorem insert_renamed (name : String) (v : Value) (bs : Bindings) :
    renamed ρ (bs.insert name v) = (bs.renamed ρ).insert name (v.renamed ρ) := by
  induction bs with
  | nil => rfl
  | cons b bs ih =>
    obtain ⟨n, w⟩ := b
    change renamed ρ (insert name v ((n, w) :: bs)) =
      insert name (v.renamed ρ) ((n, w.renamed ρ) :: renamed ρ bs)
    rw [insert, insert]
    split
    · rfl
    · exact congrArg (List.cons _) ih

theorem merge_renamed (bs cs : Bindings) :
    renamed ρ (bs.merge cs) = (bs.renamed ρ).merge (cs.renamed ρ) := by
  unfold merge
  induction cs generalizing bs with
  | nil => rfl
  | cons c cs ih =>
    rw [List.foldl_cons, ih, insert_renamed]
    rfl

theorem zip_renamed (ps : List String) (args : List Value) :
    renamed ρ (ps.zip args) = ps.zip (args.map (Value.renamed ρ)) := by
  rw [List.zip_map_right]
  rfl

theorem lookup_renamed (name : String) (bs : Bindings) :
    (bs.renamed ρ).lookup name = (bs.lookup name).map (Value.renamed ρ) := by
  induction bs with
  | nil => rfl
  | cons b bs ih =>
    obtain ⟨n, w⟩ := b
    change List.lookup name ((n, w.renamed ρ) :: renamed ρ bs) = _
    rw [lookup_cons, lookup_cons]
    split
    · rfl
    · exact ih

end Bindings

namespace Store

variable {s t : Store}

theorem Renamed.set (hρ : StrictMono ρ) (h : s.Renamed ρ t) (i : Nat) (name : String)
    (v : Value) : (s.set i name v).Renamed ρ (t.set (ρ i) name (v.renamed ρ)) := by
  constructor
  · intro j
    rw [Store.set, Store.set, Array.getElem?_modify, Array.getElem?_modify, h.scope]
    by_cases hij : i = j
    · subst hij
      rw [if_pos rfl, if_pos rfl, Option.map_map, Option.map_map]
      congr 1
      funext sc
      exact congrArg (Scope.mk _) (Bindings.insert_renamed name v sc.bindings).symm
    · rw [if_neg hij, if_neg (fun he => hij (hρ.injective he))]
  · intro k
    rw [size_set, size_set]
    exact h.next k

theorem Renamed.add (hρ : StrictMono ρ) (h : s.Renamed ρ t) (parent : Option Nat)
    (bs : Bindings) : (s.add parent bs).2.Renamed ρ (t.add (parent.map ρ) (bs.renamed ρ)).2 := by
  have hsize : ρ s.scopes.size = t.scopes.size := h.next 0
  constructor
  · intro j
    rw [Store.add, Store.add, Array.getElem?_push, Array.getElem?_push, h.scope]
    -- the scope that is added is the next one in both stores
    by_cases hj : j = s.scopes.size
    · subst hj
      rw [if_pos hsize, if_pos rfl]
      rfl
    · rw [if_neg hj, if_neg fun he => hj (hρ.injective (he.trans hsize.symm))]
  · intro k
    rw [size_add, size_add, Nat.add_assoc, Nat.add_assoc]
    exact h.next (1 + k)

theorem Renamed.lookup? (hρ : StrictMono ρ) (h : s.Renamed ρ t) (name : String) (d i : Nat) :
    t.lookup? name d (ρ i) = (s.lookup? name d i).map (Option.map (Value.renamed ρ)) := by
  fun_induction Store.lookup? s name d i with
  | case1 d i hsc =>
    rw [Store.lookup?, h.scope, hsc]
    rfl
  | case2 i sc hsc =>
    rw [Store.lookup?, h.scope, hsc]
    rfl
  | case3 i sc hsc d w hw =>
    rw [Store.lookup?, h.scope, hsc]
    simp only [Option.map_some, Scope.renamed, Bindings.lookup_renamed, hw, Except.map]
  | case4 i sc hsc d hnone hp =>
    rw [Store.lookup?, h.scope, hsc]
    simp only [Option.map_some, Scope.renamed, Bindings.lookup_renamed, hnone, hp, Option.map_none,
      Except.map]
  | case5 i sc hsc d hnone p hp hlt ih =>
    rw [Store.lookup?, h.scope, hsc]
    simp only [Option.map_some, Scope.renamed, Bindings.lookup_renamed, hnone, hp, Option.map_none]
    rw [if_pos (hρ hlt), ih]
  | case6 i sc hsc d hnone p hp hlt =>
    rw [Store.lookup?, h.scope, hsc]
    simp only [Option.map_some, Scope.renamed, Bindings.lookup_renamed, hnone, hp, Option.map_none,
      Except.map]
    rw [if_neg fun he => hlt (hρ.lt_iff_lt.mp he)]

end Store

section Shift

/-- The numbers below `n` stay, and the others go up by `k`. -/
def shift (n k i : Nat) : Nat := if i < n then i else i + k

theorem shift_of_lt {n i : Nat} (h : i < n) (k : Nat) : shift n k i = i := if_pos h

theorem shift_of_le {n i : Nat} (h : n ≤ i) (k : Nat) : shift n k i = i + k :=
  if_neg (Nat.not_lt.mpr h)

theorem shift_strictMono (n k : Nat) : StrictMono (shift n k) := by
  intro i j hij
  unfold shift
  split <;> split <;> omega

variable {s t : Store}

/-- Under numbers that only change beyond it, a scope of a closed store is the same. -/
theorem Store.Closed.scope_renamed (h : s.Closed) (hρ : ∀ i < s.size, ρ i = i) {i : Nat}
    {sc : Scope} (hsc : s.scopes[i]? = some sc) : sc.renamed ρ = sc := by
  have hi : i < s.size := (Array.getElem?_eq_some_iff.mp hsc).1
  apply Scope.eq_of_parts
  · have holder := h.older hsc
    change sc.parent.map ρ = sc.parent
    cases hp : sc.parent with
    | none => rfl
    | some p => exact congrArg some (hρ p (Nat.lt_trans (holder p hp) hi))
  · have hbindings : ∀ b ∈ sc.bindings, (b.1, b.2.renamed ρ) = b := fun b hb =>
      Prod.ext rfl (Value.renamed_eq_self hρ (h.values sc (Array.mem_of_getElem? hsc) b hb))
    exact (List.map_congr_left hbindings).trans (List.map_id _)

/-- A closed store occurs in every store that has more scopes behind it. -/
theorem Store.Closed.renamed (h : s.Closed) (hst : s.scopes.toList <+: t.scopes.toList) :
    s.Renamed (shift s.size (t.size - s.size)) t := by
  have hle : s.size ≤ t.size := hst.length_le
  constructor
  · intro i
    rcases Nat.lt_or_ge i s.size with hi | hi
    · have hs : s.scopes[i]? = some s.scopes[i] := Array.getElem?_eq_getElem hi
      have ht : t.scopes[i]? = some s.scopes[i] := by
        rw [← Array.getElem?_toList]
        exact List.prefix_iff_getElem?.mp hst i hi
      rw [shift_of_lt hi, ht, hs, Option.map_some,
        h.scope_renamed (fun j hj => shift_of_lt hj _) hs]
    · have hs : s.scopes[i]? = none := Array.getElem?_eq_none hi
      have ht : t.size ≤ i + (t.size - s.size) := by omega
      rw [shift_of_le hi, hs]
      exact Array.getElem?_eq_none ht
  · intro k
    rw [shift_of_le (Nat.le_add_right _ _)]
    omega

end Shift

namespace Comparison

/-- Any trees, in corresponding scopes. The stores correspond, and the consoles have done the same
since they were `c` and `d`. -/
def renamed (ρ : Nat → Nat) (c d : Console) : Comparison where
  trees := Trees.all
  scope i j := j = ρ i
  holds m n := m.store.Renamed ρ n.store ∧ c.Parallel d m.console n.console

section Steps

variable {c d : Console}

theorem renamed_event {e : Event} (he : ∀ c : Console, c.add e = c.perform e) :
    (renamed ρ c d).Agree (Run.event e) (Run.event e) fun _ _ => True := by
  intro m n hmn
  refine .ok ⟨hmn.1, ?_⟩ trivial
  rw [he, he]
  exact hmn.2.perform e

theorem renamed_note (debug : Bool) (text : String) :
    (renamed ρ c d).Agree (Run.note debug text) (Run.note debug text) fun _ _ => True := by
  unfold Run.note
  split
  · exact renamed_event fun _ => rfl
  · exact agree_pure trivial

theorem renamed_ask (hcd : c.pending = d.pending) (prompt : String) :
    (renamed ρ c d).Agree (Run.ask prompt) (Run.ask prompt) Eq := by
  intro m n hmn
  have hpending := hmn.2.pending_eq hcd
  refine .ok ⟨hmn.1, hmn.2.perform (.prompt prompt)⟩ ?_
  rw [hpending]
  cases n.console.pending <;> rfl

theorem renamed_bindName (hρ : StrictMono ρ) (i : Nat) (name : String) (v : Value) :
    (renamed ρ c d).Agree (Run.bindName i name v) (Run.bindName (ρ i) name (v.renamed ρ))
      fun _ _ => True := by
  intro m n hmn
  exact .ok ⟨hmn.1.set hρ i name v, hmn.2⟩ trivial

theorem renamed_enter (hρ : StrictMono ρ) (ps : List String) (i : Nat) (args : List Value) :
    (renamed ρ c d).Agree (Run.enter ps i args)
      (Run.enter ps (ρ i) (args.map (Value.renamed ρ))) (renamed ρ c d).scope := by
  unfold Run.enter
  rw [List.length_map]
  split
  · intro m n hmn
    have hadd := hmn.1.add hρ (some i) (Bindings.merge [] (ps.zip args))
    rw [Bindings.merge_renamed, Bindings.zip_renamed] at hadd
    exact .ok ⟨hadd, hmn.2⟩ (hmn.1.next 0).symm
  · exact agree_stop _

theorem renamed_lawful (hρ : StrictMono ρ) (hcd : c.pending = d.pending) (debug : Bool) :
    (renamed ρ c d).Lawful debug debug where
  body _ _ _ := trivial
  note := renamed_note debug
  line _ := renamed_event fun _ => rfl
  ask := renamed_ask hcd
  bindName := by
    rintro x e i _ v w - rfl hv
    rw [hv.eq_renamed fun _ _ hij => hij]
    exact renamed_bindName hρ i x v
  resolve := by
    rintro x i _ - rfl d
    apply agree_resolve
    intro m n hmn
    rw [hmn.1.lookup? hρ]
    cases m.store.lookup? x d i with
    | error f => exact .failed f
    | ok found =>
      cases found with
      | none => exact .nothing
      | some v => exact .value (alike_renamed (fun _ => trivial) (fun _ => rfl) v)
  enter := by
    rintro ps body i _ vs ws - rfl hvs
    rw [eq_map_renamed (fun _ _ hij => hij) hvs]
    exact renamed_enter hρ ps i vs

end Steps

section Grown

variable {m n : Machine}

/-- Evaluations from `m` on and from `n` on, where the store of `n` has more scopes behind those
that the store of `m` has. -/
def grown (m n : Machine) : Comparison :=
  renamed (shift m.store.size (n.store.size - m.store.size)) m.console n.console

theorem grown_alike {v : Value} (hv : v.Within m.store.size) : (grown m n).Alike v v := by
  have halike : (grown m n).Alike v
      (v.renamed (shift m.store.size (n.store.size - m.store.size))) :=
    alike_renamed (fun _ => trivial) (fun _ => rfl) v
  rwa [Value.renamed_eq_self (fun i hi => shift_of_lt hi _) hv] at halike

theorem forall₂_grown_alike {vs : List Value} (hvs : ∀ v ∈ vs, v.Within m.store.size) :
    List.Forall₂ (grown m n).Alike vs vs := by
  induction vs with
  | nil => exact .nil
  | cons v vs ih =>
    exact .cons (grown_alike (hvs v List.mem_cons_self))
      (ih fun w hw => hvs w (List.mem_cons_of_mem v hw))

/-- A value that is applied in both stores gives the same, with the same lines to read. -/
theorem grown_apply (debug : Bool) (depth : Nat) (hm : m.store.Closed) {f : Value}
    {args : List Value} (hf : f.Within m.store.size) (hargs : ∀ a ∈ args, a.Within m.store.size)
    (hstore : m.store.scopes.toList <+: n.store.scopes.toList)
    (hpending : m.console.pending = n.console.pending) :
    (grown m n).Meets (grown m n).Alike (Run.apply debug depth f args m)
      (Run.apply debug depth f args n) := by
  have hlawful := renamed_lawful (shift_strictMono m.store.size (n.store.size - m.store.size))
    hpending debug
  exact (hlawful.agreeing depth).apply (grown_alike hf) (forall₂_grown_alike hargs) m n
    ⟨hm.renamed hstore, .refl _ _⟩

end Grown

end Comparison

end Monkey
