import Monkey.Scope

/-!
# Looking up a name along a chain

A name is looked for in the scopes of a chain one after another, up to the first that binds it. What
is found does not depend on the depth; the depth only has to allow for the scopes that are looked
into.
-/

namespace Monkey

set_option autoImplicit false

namespace Store

/-- The value that the innermost scope of a chain that binds the name gives it. -/
def find? (s : Store) (name : String) (i : Nat) : Option Value :=
  (s.chain i).findSome? fun sc => sc.bindings.lookup name

/-- The number of scopes that are looked into for a name: those up to the first that binds it, or
all of the chain. -/
def asked (name : String) : List Scope → Nat
  | [] => 0
  | sc :: scs => if (sc.bindings.lookup name).isSome then 1 else asked name scs + 1

/-- The number of levels that looking up a name takes. -/
def reach (s : Store) (name : String) (i : Nat) : Nat := asked name (s.chain i)

def outside (s : Store) (i : Nat) (sc : Scope) : List Scope :=
  match sc.parent with
  | none => []
  | some p => if p < i then s.chain p else []

variable {s : Store} {name : String} {d e i : Nat} {sc : Scope} {found : Option Value}

theorem asked_le_length (name : String) (scs : List Scope) : asked name scs ≤ scs.length := by
  induction scs with
  | nil => exact Nat.le_refl 0
  | cons sc scs ih =>
    rw [asked, List.length_cons]
    split
    · exact Nat.succ_pos scs.length
    · exact Nat.succ_le_succ ih

theorem reach_le_length (s : Store) (name : String) (i : Nat) :
    s.reach name i ≤ (s.chain i).length :=
  asked_le_length name (s.chain i)

theorem chain_of_none (hsc : s.scopes[i]? = none) : s.chain i = [] := by
  rw [chain, hsc]

theorem chain_eq (hsc : s.scopes[i]? = some sc) : s.chain i = sc :: s.outside i sc := by
  rw [chain, hsc, outside]
  cases hp : sc.parent with
  | none => simp only [hp]
  | some p =>
    simp only [hp]
    split <;> rfl

theorem mem_scopes_of_mem_chain (h : sc ∈ s.chain i) : sc ∈ s.scopes := by
  induction i using Nat.strongRecOn with
  | ind i ih =>
    cases hsc : s.scopes[i]? with
    | none =>
      rw [chain_of_none hsc] at h
      cases h
    | some here =>
      rw [chain_eq hsc, outside] at h
      rcases List.mem_cons.mp h with rfl | h
      · exact Array.mem_of_getElem? hsc
      · split at h
        · cases h
        · split at h
          · next hlt => exact ih _ hlt h
          · cases h

theorem lookup?_of_none (hsc : s.scopes[i]? = none) (name : String) (d : Nat) :
    s.lookup? name d i = .ok none := by
  rw [lookup?, hsc]

theorem lookup?_zero (hsc : s.scopes[i]? = some sc) (name : String) :
    s.lookup? name 0 i = .error .tooDeep := by
  rw [lookup?, hsc]

theorem lookup?_of_bound {v : Value} (hsc : s.scopes[i]? = some sc)
    (hv : sc.bindings.lookup name = some v) (d : Nat) :
    s.lookup? name (d + 1) i = .ok (some v) := by
  rw [lookup?, hsc]
  simp only [hv]

theorem asked_of_bound {v : Value} (hv : sc.bindings.lookup name = some v) (scs : List Scope) :
    asked name (sc :: scs) = 1 := by
  rw [asked, hv]
  rfl

theorem asked_of_unbound (hv : sc.bindings.lookup name = none) (scs : List Scope) :
    asked name (sc :: scs) = asked name scs + 1 := by
  rw [asked, hv]
  rfl

/-- Looking up a name finds what the chain gives it, if the depth allows for the scopes on the way,
and goes too deep otherwise. -/
theorem lookup?_eq (s : Store) (name : String) (d i : Nat) : s.lookup? name d i =
    if s.reach name i ≤ d then .ok (s.find? name i) else .error .tooDeep := by
  rw [reach, find?]
  fun_induction lookup? s name d i with
  | case1 d i hsc =>
    rw [chain_of_none hsc]
    exact (if_pos (Nat.zero_le d)).symm
  | case2 i sc hsc =>
    have hpos : ¬ asked name (s.chain i) ≤ 0 := by
      rw [chain_eq hsc, asked]
      split <;> simp
    rw [if_neg hpos]
  | case3 i sc hsc d v hv =>
    rw [chain_eq hsc, asked_of_bound hv, List.findSome?_cons, hv]
    exact (if_pos (Nat.succ_pos d)).symm
  | case4 i sc hsc d hv hp =>
    rw [chain_eq hsc, asked_of_unbound hv, List.findSome?_cons, hv, outside, hp]
    exact (if_pos (Nat.succ_pos d)).symm
  | case5 i sc hsc d hv p hp hlt ih =>
    have hout : s.outside i sc = s.chain p := by simp only [outside, hp, if_pos hlt]
    rw [ih, chain_eq hsc, asked_of_unbound hv, List.findSome?_cons, hv, hout]
    simp only [Nat.succ_eq_add_one, Nat.add_le_add_iff_right]
  | case6 i sc hsc d hv p hp hlt =>
    have hout : s.outside i sc = [] := by simp only [outside, hp, if_neg hlt]
    rw [chain_eq hsc, asked_of_unbound hv, List.findSome?_cons, hv, hout]
    exact (if_pos (Nat.succ_pos d)).symm

theorem lookup?_of_le (h : (s.chain i).length ≤ d) (name : String) :
    s.lookup? name d i = .ok (s.find? name i) := by
  rw [lookup?_eq, if_pos (Nat.le_trans (s.reach_le_length name i) h)]

theorem find?_of_lookup? (h : s.lookup? name d i = .ok found) : s.find? name i = found := by
  rw [lookup?_eq] at h
  split at h
  · cases h
    rfl
  · cases h

theorem tooDeep_of_lookup? {f : Failure} (h : s.lookup? name d i = .error f) : f = .tooDeep := by
  rw [lookup?_eq] at h
  split at h
  · cases h
  · cases h
    rfl

/-- With more depth a name means the same. -/
theorem lookup?_deeper (h : s.lookup? name d i = .ok found) (hd : d ≤ e) :
    s.lookup? name e i = .ok found := by
  rw [lookup?_eq] at h ⊢
  split at h
  · next hreach => rw [if_pos (Nat.le_trans hreach hd), h]
  · cases h

end Store

end Monkey
