import Monkey.Proofs.Scope.Built

/-!
# Where a write is seen

A name that is bound in a scope is seen from that scope and from the scopes inside it, wherever no
scope on the way outward binds the name itself; from a scope that is too far inside, looking up goes
too deep. Everywhere else, and for every other name, looking up gives what it gave before.
-/

namespace Monkey.Store

set_option autoImplicit false

open Relation (ReflTransGen TransGen)

variable {s : Store} {edits : List Edit} {i j p : Nat} {sc : Scope} {name : String}

def Binds (s : Store) (i : Nat) (name : String) : Prop :=
  ∃ sc, s.scopes[i]? = some sc ∧ name ∈ sc.names

/-- The scope `i` is met on the way outward from `j`, and no scope that is met before it binds the
name. -/
def Shows (s : Store) (name : String) (j i : Nat) : Prop :=
  ReflTransGen s.Inside j i ∧
    ∀ k, ReflTransGen s.Inside j k → TransGen s.Inside k i → ¬ s.Binds k name

section Shows

theorem binds_iff (hsc : s.scopes[i]? = some sc) : s.Binds i name ↔ name ∈ sc.names := by
  constructor
  · rintro ⟨sc', hsc', hname⟩
    cases hsc.symm.trans hsc'
    exact hname
  · intro hname
    exact ⟨sc, hsc, hname⟩

theorem Nested.shows_self (h : s.Nested) (name : String) (i : Nat) : s.Shows name i i := by
  refine ⟨.refl, ?_⟩
  intro k hik hki
  exact absurd (h.lt_of_transGen (TransGen.trans_right hik hki)) (Nat.lt_irrefl i)

theorem shows_inner_iff (hsc : s.scopes[j]? = some sc) (hp : sc.parent = some p) (hne : j ≠ i) :
    s.Shows name j i ↔ name ∉ sc.names ∧ s.Shows name p i := by
  have hinside : s.Inside j p := inside_of_getElem? hsc hp
  have honly : ∀ {k}, s.Inside j k → k = p := by
    intro k hk
    exact Option.some.inj (Option.some.inj (hk.symm.trans hinside))
  have hout : ∀ {k}, ReflTransGen s.Inside j k → k = j ∨ ReflTransGen s.Inside p k := by
    intro k hjk
    rcases hjk.cases_head with rfl | ⟨q, hq, hqk⟩
    · exact .inl rfl
    · exact .inr (honly hq ▸ hqk)
  constructor
  · rintro ⟨hji, hbefore⟩
    have hpi : ReflTransGen s.Inside p i := (hout hji).resolve_left hne.symm
    refine ⟨?_, hpi, ?_⟩
    · rw [← binds_iff hsc]
      exact hbefore j .refl (.head' hinside hpi)
    · intro k hpk
      exact hbefore k (.head hinside hpk)
  · rintro ⟨hname, hpi, hbefore⟩
    refine ⟨.head hinside hpi, ?_⟩
    intro k hjk hki
    rcases hout hjk with rfl | hpk
    · rwa [binds_iff hsc]
    · exact hbefore k hpk hki

theorem not_shows_of_outermost (hout : ∀ p, ¬ s.Inside j p) (hne : j ≠ i) :
    ¬ s.Shows name j i := by
  rintro ⟨hji, _⟩
  rcases hji.cases_head with heq | ⟨p, hp, _⟩
  · exact hne heq
  · exact hout p hp

theorem not_inside_of_outermost (hsc : s.scopes[j]? = some sc) (hp : sc.parent = none) (p : Nat) :
    ¬ s.Inside j p := by
  intro hinside
  rw [Inside, parent?_of_getElem? hsc, hp] at hinside
  cases hinside

theorem not_inside_of_none (hsc : s.scopes[j]? = none) (p : Nat) : ¬ s.Inside j p := by
  intro hinside
  rw [Inside, parent?, hsc] at hinside
  cases hinside

theorem ne_of_none (hi : i < s.size) (hsc : s.scopes[j]? = none) : j ≠ i := by
  rintro rfl
  exact absurd hi (Nat.not_lt.mpr (Array.getElem?_eq_none_iff.mp hsc))

end Shows

theorem Nested.length_chain_le (h : s.Nested) (hji : ReflTransGen s.Inside j i) :
    (s.chain i).length ≤ (s.chain j).length := by
  induction hji using ReflTransGen.head_induction_on with
  | refl => exact Nat.le_refl _
  | @head j p hj _ ih =>
    obtain ⟨sc, hsc, hp⟩ := Option.map_eq_some_iff.mp hj
    rw [h.length_chain hsc, hp]
    exact Nat.le_succ_of_le ih

section Write

variable {v : Value} {d : Nat}

/-- A scope that the write is not in: what a name means there depends on what is around it. -/
theorem Nested.lookup?_set_of_ne (h : s.Nested) (hne : i ≠ j) (hsc : s.scopes[j]? = some sc)
    {n m : String} (hm : sc.bindings.lookup m = none) (v : Value) (d : Nat) :
    (s.set i n v).lookup? m (d + 1) j =
      sc.parent.elim (.ok none) ((s.set i n v).lookup? m d) :=
  (h.set i n v).lookup?_of_unbound (getElem?_set_of_ne hne hsc n v) hm d

/-- The new value is found where the depth allows for the scopes up to the one that it is bound in.
-/
theorem Nested.lookup?_set_of_shows (h : s.Nested) (hi : i < s.size) (v : Value) (d : Nat)
    (hshows : s.Shows name j i) : (s.set i name v).lookup? name d j =
      if (s.chain j).length < d + (s.chain i).length then .ok (some v) else .error .tooDeep := by
  revert d hshows
  apply h.induction (P := fun j => ∀ d, s.Shows name j i → (s.set i name v).lookup? name d j =
    if (s.chain j).length < d + (s.chain i).length then .ok (some v) else .error .tooDeep)
  · intro j hsc d hshows
    exact absurd hshows (not_shows_of_outermost (not_inside_of_none hsc) (ne_of_none hi hsc))
  · intro j sc hsc ih d hshows
    by_cases hj : i = j
    · subst hj
      have hself := getElem?_set_self hsc name v
      cases d with
      | zero => rw [lookup?_zero hself, if_neg (by omega)]
      | succ d =>
        rw [lookup?_of_bound hself (by rw [Bindings.lookup_insert, if_pos rfl]), if_pos (by omega)]
    · cases hp : sc.parent with
      | none =>
        exact absurd hshows (not_shows_of_outermost (not_inside_of_outermost hsc hp) (Ne.symm hj))
      | some p =>
        obtain ⟨hname, hpi⟩ := (shows_inner_iff hsc hp (Ne.symm hj)).mp hshows
        have hlength : (s.chain j).length = (s.chain p).length + 1 := by
          rw [h.length_chain hsc, hp]
          rfl
        have hle := h.length_chain_le hpi.1
        cases d with
        | zero => rw [lookup?_zero (getElem?_set_of_ne hj hsc name v), if_neg (by omega)]
        | succ d =>
          have hv := (Bindings.lookup_eq_none_iff sc.bindings name).mpr hname
          rw [h.lookup?_set_of_ne hj hsc hv, hp]
          simp only [Option.elim_some, ih p hp d hpi, hlength, Nat.add_right_comm d 1,
            Nat.add_lt_add_iff_right]

theorem Nested.lookup?_set_of_not_shows (h : s.Nested) (v : Value) (d : Nat)
    (hshows : ¬ s.Shows name j i) :
    (s.set i name v).lookup? name d j = s.lookup? name d j := by
  revert d hshows
  apply h.induction (P := fun j => ∀ d,
    ¬ s.Shows name j i → (s.set i name v).lookup? name d j = s.lookup? name d j)
  · intro j hsc d _
    rw [lookup?_of_none hsc, lookup?_of_none (getElem?_set_of_none hsc i name v)]
  · intro j sc hsc ih d hshows
    have hj : i ≠ j := by
      rintro rfl
      exact hshows (h.shows_self name i)
    have hset := getElem?_set_of_ne hj hsc name v
    cases d with
    | zero => rw [lookup?_zero hsc, lookup?_zero hset]
    | succ d =>
      cases hv : sc.bindings.lookup name with
      | some w => rw [lookup?_of_bound hsc hv, lookup?_of_bound hset hv]
      | none =>
        have hname := (Bindings.lookup_eq_none_iff sc.bindings name).mp hv
        rw [h.lookup?_set_of_ne hj hsc hv, h.lookup?_of_unbound hsc hv]
        cases hp : sc.parent with
        | none => rfl
        | some p =>
          exact ih p hp d fun hpi => hshows ((shows_inner_iff hsc hp (Ne.symm hj)).mpr ⟨hname, hpi⟩)

theorem Nested.lookup?_set_other (h : s.Nested) {n m : String} (hm : m ≠ n) (i : Nat) (v : Value)
    (d j : Nat) : (s.set i n v).lookup? m d j = s.lookup? m d j := by
  revert d
  apply h.induction (P := fun j => ∀ d, (s.set i n v).lookup? m d j = s.lookup? m d j)
  · intro j hsc d
    rw [lookup?_of_none hsc, lookup?_of_none (getElem?_set_of_none hsc i n v)]
  · intro j sc hsc ih d
    -- the written scope gives every other name what it gave before
    obtain ⟨bs, hset, hbs⟩ : ∃ bs, (s.set i n v).scopes[j]? = some ⟨sc.parent, bs⟩ ∧
        bs.lookup m = sc.bindings.lookup m := by
      by_cases hj : i = j
      · subst hj
        refine ⟨_, getElem?_set_self hsc n v, ?_⟩
        rw [Bindings.lookup_insert, if_neg hm]
      · exact ⟨_, getElem?_set_of_ne hj hsc n v, rfl⟩
    cases d with
    | zero => rw [lookup?_zero hsc, lookup?_zero hset]
    | succ d =>
      cases hv : sc.bindings.lookup m with
      | some w => rw [lookup?_of_bound hsc hv, lookup?_of_bound hset (hbs.trans hv)]
      | none =>
        rw [h.lookup?_of_unbound hsc hv, (h.set i n v).lookup?_of_unbound hset (hbs.trans hv)]
        cases hp : sc.parent with
        | none => rfl
        | some p => exact ih p hp d

end Write

/-- However scopes were built: after a name is bound in one of them, it stands for the new value in
a scope from which that one is met outward before any other that binds the name; looking it up there
takes a level for every scope up to the one that was written, and goes too deep without them. In
every other scope the name means what it meant before, and so does every other name in every scope,
however deep looking up may go. -/
theorem lookup?_set_of_built (h : Built edits s) (hi : i < s.size) (n : String) (v : Value)
    (j : Nat) (m : String) (d : Nat) :
    (m = n ∧ s.Shows n j i → (s.set i n v).lookup? m d j =
      if (s.chain j).length < d + (s.chain i).length then .ok (some v) else .error .tooDeep) ∧
    (¬ (m = n ∧ s.Shows n j i) → (s.set i n v).lookup? m d j = s.lookup? m d j) := by
  constructor
  · rintro ⟨rfl, hshows⟩
    exact h.nested.lookup?_set_of_shows hi v d hshows
  · intro hnot
    by_cases hm : m = n
    · subst hm
      exact h.nested.lookup?_set_of_not_shows v d fun hshows => hnot ⟨rfl, hshows⟩
    · exact h.nested.lookup?_set_other hm i v d j

/-- Two scopes inside the outermost one, each with another one inside it. The second of the two
binds the name of the outermost one. -/
def sharing : List Edit :=
  [.make none [("x", .integer 1)], .enclose 0, .enclose 0, .set 2 "x" (.integer 7), .enclose 1,
    .enclose 2]

theorem lookup?_set_of_built_sharing :
    ((sharing.foldl edit empty).set 0 "x" (.integer 9)).lookup? "x" 3 3 = .ok (some (.integer 9)) ∧
      ((sharing.foldl edit empty).set 0 "x" (.integer 9)).lookup? "x" 3 4 =
        (sharing.foldl edit empty).lookup? "x" 3 4 := by
  have h : Built sharing (sharing.foldl edit empty) :=
    (((((Built.empty.step _ (by decide)).step _ (by decide)).step _ (by decide)).step _
      (by decide)).step _ (by decide)).step _ (by decide)
  have hset := lookup?_set_of_built h (i := 0) (by decide) "x" (.integer 9)
  constructor
  · refine ((hset 3 "x" 3).1 ⟨rfl, ?_⟩).trans (if_pos ?_)
    · rw [shows_inner_iff rfl rfl (by decide), shows_inner_iff rfl rfl (by decide)]
      exact ⟨by decide, by decide, h.nested.shows_self "x" 0⟩
    · simp [chain, sharing, edit, add, set, Edit.enclose, empty]
  · refine (hset 4 "x" 3).2 ?_
    rw [shows_inner_iff rfl rfl (by decide), shows_inner_iff rfl rfl (by decide)]
    rintro ⟨_, _, hname, _⟩
    exact hname (by decide)

theorem shows_nest {k : Nat} (hj : j ≤ k) : (nest k).Shows "x" j 0 := by
  induction j with
  | zero => exact (built_nest k).nested.shows_self "x" 0
  | succ j ih =>
    rw [shows_inner_iff (getElem?_nest_succ hj) rfl (Nat.succ_ne_zero j)]
    exact ⟨List.not_mem_nil, ih (Nat.le_of_succ_le hj)⟩

/-- However deep looking up may go, a name can be bound too far out for a scope in which it stands
for the new value. -/
theorem not_lookup?_of_shows : ¬ ∃ d, ∀ edits s, Built edits s → ∀ i < s.size, ∀ n v j,
    s.Shows n j i → (s.set i n v).lookup? n d j = .ok (some v) := by
  rintro ⟨d, hd⟩
  have hbuilt := built_nest d
  have hroot : 0 < (nest d).size := size_nest d ▸ Nat.succ_pos d
  have hshows := shows_nest (Nat.le_refl d)
  have hfound := hd _ _ hbuilt 0 hroot "x" (.integer 2) d hshows
  rw [hbuilt.nested.lookup?_set_of_shows hroot (.integer 2) d hshows,
    length_chain_nest (Nat.le_refl d), length_chain_nest (Nat.zero_le d),
    if_neg (Nat.lt_irrefl (d + 1))] at hfound
  cases hfound

end Monkey.Store
