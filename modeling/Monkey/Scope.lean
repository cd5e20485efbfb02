import Monkey.RuntimeError
import Monkey.Value

/-!
# Scopes

A scope holds bindings in the order in which their names were first bound, and the number of the
scope around it. All scopes live in one store and are never removed: a function keeps its scope
alive by its number. A scope is opened inside an older one, so that a chain of scopes ends; a chain
is followed only as long as it leads to older scopes.
-/

namespace Monkey

set_option autoImplicit false

abbrev Bindings : Type := List (String × Value)

namespace Bindings

/-- Binds a name. A name that is bound already keeps its place. -/
def insert (name : String) (v : Value) : Bindings → Bindings
  | [] => [(name, v)]
  | (n, w) :: rest => if n = name then (n, v) :: rest else (n, w) :: insert name v rest

/-- Binds every name of the second in the first. -/
def merge (outer inner : Bindings) : Bindings :=
  inner.foldl (fun bs p => insert p.1 p.2 bs) outer

theorem lookup_cons (n m : String) (w : Value) (bs : List (String × Value)) :
    List.lookup n ((m, w) :: bs) = if n = m then some w else List.lookup n bs := by
  by_cases h : n = m
  · simp [h]
  · have hb : (n == m) = false := by simpa using h
    rw [List.lookup_cons]
    simp [hb, h]

theorem lookup_insert (name : String) (v : Value) (bs : Bindings) (n : String) :
    (insert name v bs).lookup n = if n = name then some v else bs.lookup n := by
  induction bs with
  | nil => simp [insert, lookup_cons]
  | cons p rest ih =>
    obtain ⟨m, w⟩ := p
    by_cases hm : m = name
    · subst hm
      by_cases h : n = m <;> simp [insert, lookup_cons, h]
    · by_cases h : n = m
      · subst h
        simp [insert, hm]
      · simp [insert, lookup_cons, hm, h, ih]

end Bindings

structure Scope where
  parent : Option Nat
  bindings : Bindings

instance : Inhabited Scope := ⟨⟨none, []⟩⟩

/-- All scopes, by number. -/
structure Store where
  scopes : Array Scope

namespace Store

def empty : Store := ⟨#[]⟩

/-- Opens a scope; its number is the number of scopes before it. -/
def add (s : Store) (parent : Option Nat) (bs : Bindings) : Nat × Store :=
  (s.scopes.size, ⟨s.scopes.push ⟨parent, bs⟩⟩)

def set (s : Store) (i : Nat) (name : String) (v : Value) : Store :=
  ⟨s.scopes.modify i fun sc => ⟨sc.parent, sc.bindings.insert name v⟩⟩

/-- The value of a name in the innermost scope of a chain that binds it. Every scope that is looked
into takes a level of the depth. -/
def lookup? (s : Store) (name : String) (depth i : Nat) : Except Failure (Option Value) :=
  match s.scopes[i]? with
  | none => .ok none
  | some sc =>
    match depth with
    | 0 => .error .tooDeep
    | d + 1 =>
      match sc.bindings.lookup name with
      | some v => .ok (some v)
      | none =>
        match sc.parent with
        | none => .ok none
        | some p => if p < i then lookup? s name d p else .ok none

/-- A scope and the scopes around it, the innermost first. -/
def chain (s : Store) (i : Nat) : List Scope :=
  match s.scopes[i]? with
  | none => []
  | some sc =>
    match sc.parent with
    | none => [sc]
    | some p => if p < i then sc :: chain s p else [sc]
termination_by i

/-- Every name that is visible from a scope, with its value. The names of the outermost scope come
first; a name that an inner scope binds again keeps its place. -/
def visible (s : Store) (i : Nat) : Bindings :=
  (s.chain i).foldr (fun sc bs => bs.merge sc.bindings) []

end Store

end Monkey
