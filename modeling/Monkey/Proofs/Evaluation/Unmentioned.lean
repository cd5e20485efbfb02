import Monkey.Proofs.Evaluation.Comparison
import Monkey.Proofs.Evaluation.Stored
import Monkey.Proofs.Program.Names

/-!
# Evaluation without a name

What is bound to a name does not matter to trees in which the name does not occur, as long as it
does not occur in any function either. Such an evaluation makes only functions in which it does not
occur, and never binds it.
-/

namespace Monkey

set_option autoImplicit false

variable {x y : String} {v : Value}

namespace Bindings

variable {bs cs : Bindings}

def without (x : String) (bs : Bindings) : Bindings := bs.filter fun b => b.1 ≠ x

theorem without_cons (n : String) (w : Value) (bs : Bindings) :
    without x ((n, w) :: bs) = if n = x then bs.without x else (n, w) :: bs.without x := by
  unfold without
  rw [List.filter_cons]
  by_cases h : n = x <;> simp [h]

theorem without_insert_self (v : Value) (bs : Bindings) :
    (bs.insert x v).without x = bs.without x := by
  induction bs with
  | nil => simp [insert, without]
  | cons b bs ih =>
    obtain ⟨n, w⟩ := b
    rw [insert, without_cons]
    split
    · next h => rw [without_cons, if_pos h]
    · next h => rw [without_cons, if_neg h, ih]

theorem without_insert (h : y ≠ x) (v : Value) (bs : Bindings) :
    (bs.insert y v).without x = (bs.without x).insert y v := by
  induction bs with
  | nil => simp [insert, without, h]
  | cons b bs ih =>
    obtain ⟨n, w⟩ := b
    rw [insert, without_cons]
    by_cases hn : n = y
    · subst hn
      rw [if_pos rfl, if_neg h, without_cons, if_neg h, insert, if_pos rfl]
    · rw [if_neg hn, without_cons, ih]
      split
      · rfl
      · rw [insert, if_neg hn]

theorem without_merge (bs cs : Bindings) :
    (bs.merge cs).without x = (bs.without x).merge (cs.without x) := by
  unfold merge
  induction cs generalizing bs with
  | nil => rfl
  | cons c cs ih =>
    obtain ⟨n, w⟩ := c
    rw [List.foldl_cons, ih, without_cons]
    split
    · next h =>
      subst h
      rw [without_insert_self]
    · next h => rw [without_insert h, List.foldl_cons]

theorem without_zip {ps : List String} (h : x ∉ ps) (vs : List Value) :
    without x (ps.zip vs) = ps.zip vs := by
  refine List.filter_eq_self.mpr fun b hb => ?_
  have hp : b.1 ∈ ps := (List.of_mem_zip hb).1
  simpa using fun hx : b.1 = x => h (hx ▸ hp)

theorem lookup_without (h : y ≠ x) (bs : Bindings) :
    (bs.without x).lookup y = bs.lookup y := by
  induction bs with
  | nil => rfl
  | cons b bs ih =>
    obtain ⟨n, w⟩ := b
    rw [without_cons, lookup_cons]
    split
    · next hn =>
      subst hn
      rw [ih, if_neg h]
    · rw [lookup_cons, ih]

end Bindings

def Scope.without (x : String) (sc : Scope) : Scope := ⟨sc.parent, sc.bindings.without x⟩

namespace Store

def without (x : String) (s : Store) : Store := ⟨s.scopes.map (Scope.without x)⟩

theorem getElem?_without (s : Store) (i : Nat) :
    (s.without x).scopes[i]? = s.scopes[i]?.map (Scope.without x) :=
  Array.getElem?_map

theorem without_set_self (s : Store) (i : Nat) (v : Value) :
    (s.set i x v).without x = s.without x := by
  apply congrArg Store.mk
  apply Array.ext_getElem?
  intro j
  rw [Store.set, Array.getElem?_map, Array.getElem?_map, Array.getElem?_modify]
  split
  · rw [Option.map_map]
    congr 1
    funext sc
    exact congrArg (Scope.mk sc.parent) (Bindings.without_insert_self v sc.bindings)
  · rfl

theorem without_set (h : y ≠ x) (s : Store) (i : Nat) (v : Value) :
    (s.set i y v).without x = (s.without x).set i y v := by
  apply congrArg Store.mk
  apply Array.ext_getElem?
  intro j
  rw [Store.set, Array.getElem?_map, Array.getElem?_modify, Array.getElem?_modify,
    getElem?_without]
  split
  · rw [Option.map_map, Option.map_map]
    congr 1
    funext sc
    exact congrArg (Scope.mk sc.parent) (Bindings.without_insert h v sc.bindings)
  · rfl

theorem without_add (s : Store) (parent : Option Nat) (bs : Bindings) :
    (s.add parent bs).2.without x = ((s.without x).add parent (bs.without x)).2 :=
  congrArg Store.mk Array.map_push

theorem chain_without (s : Store) (i : Nat) :
    (s.without x).chain i = (s.chain i).map (Scope.without x) := by
  fun_induction Store.chain s i with
  | case1 i hsc =>
    rw [Store.chain, getElem?_without, hsc]
    rfl
  | case2 i sc hsc hp =>
    rw [Store.chain, getElem?_without, hsc]
    simp only [Option.map_some, Scope.without, hp, List.map_cons, List.map_nil]
  | case3 i sc hsc p hp hlt ih =>
    rw [Store.chain, getElem?_without, hsc]
    simp only [Option.map_some, Scope.without, hp, if_pos hlt, ih, List.map_cons]
  | case4 i sc hsc p hp hlt =>
    rw [Store.chain, getElem?_without, hsc]
    simp only [Option.map_some, Scope.without, hp, if_neg hlt, List.map_cons, List.map_nil]

/-- The same scopes are asked for a name when another one is left out of them, and they give the
same answer. -/
theorem lookup?_without (h : y ≠ x) (s : Store) (d i : Nat) :
    (s.without x).lookup? y d i = s.lookup? y d i := by
  have hscope : ∀ sc : Scope, (sc.without x).bindings.lookup y = sc.bindings.lookup y :=
    fun sc => Bindings.lookup_without h sc.bindings
  have hfind : (s.without x).find? y i = s.find? y i := by
    rw [find?, find?, chain_without, List.findSome?_map]
    simp only [Function.comp_def, hscope]
  have hreach : (s.without x).reach y i = s.reach y i := by
    rw [reach, reach, chain_without]
    induction s.chain i with
    | nil => rfl
    | cons sc scs ih => rw [List.map_cons, asked, asked, hscope, ih]
  rw [lookup?_eq, lookup?_eq, hfind, hreach]

theorem visible_without (s : Store) (i : Nat) :
    (s.without x).visible i = (s.visible i).without x := by
  rw [visible, visible, chain_without]
  induction s.chain i with
  | nil => rfl
  | cons sc scs ih =>
    rw [List.map_cons, List.foldr_cons, List.foldr_cons, Bindings.without_merge, ih]
    rfl

theorem All.without {P : Value → Prop} {s : Store} (h : s.All P) : (s.without x).All P := by
  intro sc hsc b hb
  obtain ⟨old, hold, rfl⟩ := Array.mem_map.mp hsc
  exact h old hold b (List.mem_of_mem_filter hb)

end Store

namespace Comparison

/-- Trees in which a name does not occur, in the same scope, on machines that differ only in what
the name is bound to. It occurs in none of the functions that are bound to other names. -/
def omitting (x : String) : Comparison where
  trees := Trees.omitting x
  scope i j := i = j
  holds m n := m.store.without x = n.store.without x ∧
    (m.store.without x).All (fun v => x ∉ v.names) ∧ m.console = n.console

theorem omitting_alike (h : x ∉ v.names) : (omitting x).Alike v v := by
  cases v with
  | integer n => exact .integer n
  | boolean b => exact .boolean b
  | string s => exact .string s
  | function ps body scope => exact .function h rfl
  | builtin b => exact .builtin b
  | null => exact .null
  | foreign t => exact .foreign t
  | missing => exact .missing

theorem notMem_names_of_omitting {w : Value} (h : (omitting x).Alike v w) : x ∉ v.names := by
  cases h with
  | function htree _ => exact htree
  | _ => exact List.not_mem_nil

section Steps

theorem omitting_event (e : Event) :
    (omitting x).Agree (Run.event e) (Run.event e) fun _ _ => True := by
  rintro m n ⟨hstore, hall, hconsole⟩
  exact .ok ⟨hstore, hall, congrArg (fun c => c.add e) hconsole⟩ trivial

theorem omitting_note (debug : Bool) (text : String) :
    (omitting x).Agree (Run.note debug text) (Run.note debug text) fun _ _ => True := by
  unfold Run.note
  split
  · exact omitting_event _
  · exact agree_pure trivial

theorem omitting_ask (prompt : String) :
    (omitting x).Agree (Run.ask prompt) (Run.ask prompt) Eq := by
  rintro m n ⟨hstore, hall, hconsole⟩
  unfold Run.ask
  rw [hconsole]
  exact .ok ⟨hstore, hall, rfl⟩ rfl

theorem omitting_bindName (hy : y ≠ x) (hv : x ∉ v.names) (i : Nat) :
    (omitting x).Agree (Run.bindName i y v) (Run.bindName i y v) fun _ _ => True := by
  rintro m n ⟨hstore, hall, hconsole⟩
  refine .ok ⟨?_, ?_, hconsole⟩ trivial
  · rw [Store.without_set hy, Store.without_set hy, hstore]
  · rw [Store.without_set hy]
    exact hall.set hv i y

theorem omitting_resolve (hy : y ≠ x) (d i : Nat) :
    (omitting x).Agree (Run.resolve d i y) (Run.resolve d i y) (omitting x).Alike := by
  apply agree_resolve
  rintro m n ⟨hstore, hall, -⟩
  rw [← Store.lookup?_without hy m.store, ← Store.lookup?_without hy n.store, hstore]
  cases hl : (n.store.without x).lookup? y d i with
  | error f => exact .failed f
  | ok found =>
    cases found with
    | none => exact .nothing
    | some v =>
      rw [hstore] at hall
      exact .value (omitting_alike (hall.find? (Store.find?_of_lookup? hl)))

theorem omitting_enter {ps : List String} (hps : x ∉ ps) (i : Nat) {args : List Value}
    (hargs : ∀ a ∈ args, x ∉ a.names) :
    (omitting x).Agree (Run.enter ps i args) (Run.enter ps i args) (omitting x).scope := by
  unfold Run.enter
  split
  · rintro m n ⟨hstore, hall, hconsole⟩
    have hadd : ∀ s : Store, (s.add (some i) (Bindings.merge [] (ps.zip args))).2.without x =
        ((s.without x).add (some i) (Bindings.merge [] (ps.zip args))).2 := by
      intro s
      rw [Store.without_add, Bindings.without_merge, Bindings.without_zip hps]
      rfl
    have hsize : m.store.scopes.size = n.store.scopes.size := by
      have h := congrArg (fun s : Store => s.scopes.size) hstore
      simpa [Store.without] using h
    have hstores : (m.store.add (some i) (Bindings.merge [] (ps.zip args))).2.without x =
        (n.store.add (some i) (Bindings.merge [] (ps.zip args))).2.without x := by
      rw [hadd, hadd, hstore]
    have hbindings : ∀ b ∈ Bindings.merge [] (ps.zip args), x ∉ b.2.names :=
      Bindings.all_zip hargs
    have hopened := hall.add hbindings (some i)
    rw [← hadd] at hopened
    exact .ok ⟨hstores, hopened, hconsole⟩ hsize
  · exact agree_stop _

/-- An evaluation of trees without a name does not depend on what is bound to it. -/
theorem omitting_lawful (x : String) (debug : Bool) : (omitting x).Lawful debug debug where
  body h := Statement.notMem_names fun hx => h (List.mem_append_right _ hx)
  note := omitting_note debug
  line _ := omitting_event _
  ask := omitting_ask
  bindName := by
    rintro y e i _ v w h rfl hv
    rw [← hv.eq fun _ _ hij => hij]
    have hy : y ≠ x := fun hy => h (List.mem_cons.mpr (.inl hy.symm))
    exact omitting_bindName hy (notMem_names_of_omitting hv) i
  resolve := by
    rintro y i _ h rfl d
    exact omitting_resolve (fun hy => h (List.mem_singleton.mpr hy.symm)) d i
  enter := by
    rintro ps body i _ vs ws h rfl hvs
    rw [← eq_of_forall₂_alike (fun _ _ hij => hij) hvs]
    have hargs : List.Forall₂ (fun a b => x ∉ a.names ∧ (omitting x).Alike a b) vs ws :=
      hvs.imp fun _ _ hab => ⟨notMem_names_of_omitting hab, hab⟩
    exact omitting_enter (fun hx => h (List.mem_append_left _ hx)) i
      ((List.forall₂_and_left vs ws).mp hargs).1

end Steps

end Comparison

end Monkey
