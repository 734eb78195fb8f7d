import Sugiru.Value

/-!
# Scopes and the scope store

A scope binds names to values and may have an enclosing scope, where names it does not
bind are looked up. Scopes live in a store and are named by their place in it; scope `0`
is the global scope. A new scope is added at the end, and its enclosing scope is always
one made before it, so a look-up walks to smaller places and ends.

A binding replaces an earlier one of the same name in the same scope and never touches
an enclosing scope.
-/

namespace Sugiru

/-- One scope: its bindings and the place of its enclosing scope. -/
structure Scope where
  bindings : List (String × Value)
  parent : Option Nat
  deriving Inhabited

/-- Binds `name` to `v` in a list of bindings, in place of an earlier binding of `name`. -/
def bindIn (name : String) (v : Value) : List (String × Value) → List (String × Value)
  | [] => [(name, v)]
  | (n, w) :: rest => if n = name then (name, v) :: rest else (n, w) :: bindIn name v rest

/-- The store of all scopes made so far. -/
structure Store where
  scopes : Array Scope
  deriving Inhabited

namespace Store

/-- A store holding only an empty global scope. -/
def empty : Store := ⟨#[⟨[], none⟩]⟩

/-- The global scope's place. -/
def global : Nat := 0

/-- The value bound to `name` in scope `id` or the scopes enclosing it. -/
def lookup (s : Store) (id : Nat) (name : String) : Option Value :=
  match s.scopes[id]? with
  | none => none
  | some sc =>
    match sc.bindings.lookup name with
    | some v => some v
    | none =>
      match sc.parent with
      | some p => if p < id then s.lookup p name else none
      | none => none
termination_by id

/-- Binds `name` to `v` in scope `id` itself. -/
def bind (s : Store) (id : Nat) (name : String) (v : Value) : Store :=
  ⟨s.scopes.modify id (fun sc => { sc with bindings := bindIn name v sc.bindings })⟩

/-- Adds a scope enclosed by `parent` holding `bindings`, bound in order; gives its
    place. -/
def newScope (s : Store) (parent : Nat) (bindings : List (String × Value)) : Nat × Store :=
  let sc : Scope := ⟨bindings.foldl (fun acc (n, v) => bindIn n v acc) [], some parent⟩
  (s.scopes.size, ⟨s.scopes.push sc⟩)

/-- The bindings of scope `id` itself, sorted by name. -/
def listing (s : Store) (id : Nat) : List (String × Value) :=
  match s.scopes[id]? with
  | some sc => sc.bindings.mergeSort (fun a b => decide (a.1 ≤ b.1))
  | none => []

end Store

end Sugiru
