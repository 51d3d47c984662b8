import Std.Data.TreeMap
import Lox.Value

/-!
# Families of scopes

A scope binds names to values and may have an enclosing scope.  Scopes are kept
in a family and addressed by reference, so that several scopes can share an
enclosing one and see each other's changes.  A variable is found in two ways: by
searching outward for its name, or by jumping a known distance.
-/

namespace Lox

/-- The values of names. -/
abbrev Bindings :=
  Std.TreeMap String Value

/-- A scope: its own bindings and the scope around it. -/
structure Scope where
  bindings : Bindings
  parent : Option ScopeRef

/-- A family of scopes, in the order of their creation. -/
structure Scopes where
  cells : Array Scope

namespace Scopes

/-- The family without scopes. -/
def empty : Scopes :=
  { cells := #[] }

/-- The reference that the next new scope gets. -/
def nextRef (scopes : Scopes) : ScopeRef :=
  { index := scopes.cells.size }

/-- Add a scope; its reference is `nextRef`. -/
def push (scopes : Scopes) (scope : Scope) : Scopes :=
  { scopes with cells := scopes.cells.push scope }

/-- Add an empty scope, inside another one if that is given. -/
def pushEmpty (scopes : Scopes) (parent : Option ScopeRef) : Scopes :=
  scopes.push { bindings := ∅, parent }

/-- The scope around a scope. -/
def parent? (scopes : Scopes) (ref : ScopeRef) : Option ScopeRef :=
  scopes.cells[ref.index]?.bind Scope.parent

/-- The bindings of a scope itself. -/
def bindings (scopes : Scopes) (ref : ScopeRef) : Bindings :=
  match scopes.cells[ref.index]? with
  | some scope => scope.bindings
  | none => ∅

/-- The value of a name in a scope itself. -/
def own? (scopes : Scopes) (ref : ScopeRef) (name : String) : Option Value :=
  (scopes.bindings ref)[name]?

/-- The names bound in a scope itself, in ascending order. -/
def names (scopes : Scopes) (ref : ScopeRef) : List String :=
  (scopes.bindings ref).keys

/-- Bind a name in a scope itself, replacing what it was bound to. -/
def define (scopes : Scopes) (ref : ScopeRef) (name : String) (value : Value) : Scopes :=
  { scopes with
    cells := scopes.cells.modify ref.index fun scope =>
      { scope with bindings := scope.bindings.insert name value } }

/-! ## What the operations do to bindings and links -/

@[simp]
theorem parent?_define (scopes : Scopes) (ref other : ScopeRef) (name : String)
    (value : Value) :
    (scopes.define ref name value).parent? other = scopes.parent? other := by
  simp only [parent?, define, Array.getElem?_modify]
  split
  · cases scopes.cells[other.index]? <;> rfl
  · rfl

theorem bindings_define_self (scopes : Scopes) (ref : ScopeRef) (name : String)
    (value : Value) (present : ref.index < scopes.cells.size) :
    (scopes.define ref name value).bindings ref =
      (scopes.bindings ref).insert name value := by
  simp [bindings, define, present, Array.getElem_modify]

theorem bindings_define_of_ne (scopes : Scopes) {ref other : ScopeRef} (name : String)
    (value : Value) (distinct : other ≠ ref) :
    (scopes.define ref name value).bindings other = scopes.bindings other := by
  have apart : ref.index ≠ other.index := by
    intro same
    apply distinct
    cases ref
    cases other
    simp_all
  simp [bindings, define, Array.getElem?_modify, apart]

/-- Binding a name changes the value of that name in that scope and nothing
else. -/
theorem own?_define (scopes : Scopes) (ref other : ScopeRef) (name sought : String)
    (value : Value) (present : ref.index < scopes.cells.size) :
    (scopes.define ref name value).own? other sought =
      if other = ref ∧ sought = name then some value else scopes.own? other sought := by
  by_cases same : other = ref
  · subst same
    simp only [own?, bindings_define_self scopes _ name value present]
    by_cases named : sought = name
    · simp [named]
    · have apart : compare name sought ≠ .eq := by
        intro equal
        exact named (Std.LawfulEqCmp.eq_of_compare equal).symm
      simp [Std.TreeMap.getElem?_insert, named, apart]
  · simp [own?, bindings_define_of_ne scopes name value same, same]

/-- A new scope leaves the bindings of the others alone. -/
theorem own?_push_of_lt (scopes : Scopes) (scope : Scope) {ref : ScopeRef}
    (present : ref.index < scopes.cells.size) (name : String) :
    (scopes.push scope).own? ref name = scopes.own? ref name := by
  simp [own?, bindings, push, Array.getElem?_push, Nat.ne_of_lt present]

/-- A new scope leaves the links of the others alone. -/
theorem parent?_push_of_lt (scopes : Scopes) (scope : Scope) {ref : ScopeRef}
    (present : ref.index < scopes.cells.size) :
    (scopes.push scope).parent? ref = scopes.parent? ref := by
  simp [parent?, push, Array.getElem?_push, Nat.ne_of_lt present]

@[simp]
theorem bindings_push_nextRef (scopes : Scopes) (scope : Scope) :
    (scopes.push scope).bindings scopes.nextRef = scope.bindings := by
  simp [bindings, push, nextRef]

@[simp]
theorem parent?_push_nextRef (scopes : Scopes) (scope : Scope) :
    (scopes.push scope).parent? scopes.nextRef = scope.parent := by
  simp [parent?, push, nextRef]

/-! ## Jumping -/

/-- The scope exactly `distance` links outward. -/
def ancestor? (scopes : Scopes) (ref : ScopeRef) : Nat → Option ScopeRef
  | 0 => some ref
  | distance + 1 =>
      match scopes.parent? ref with
      | some parent => scopes.ancestor? parent distance
      | none => none

/-- The value of a name in the scope exactly `distance` links outward. -/
def getAt? (scopes : Scopes) (ref : ScopeRef) (distance : Nat) (name : String) :
    Option Value :=
  match scopes.ancestor? ref distance with
  | some ancestor => scopes.own? ancestor name
  | none => none

/-- Bind a name in the scope exactly `distance` links outward, if there is one. -/
def assignAt? (scopes : Scopes) (ref : ScopeRef) (distance : Nat) (name : String)
    (value : Value) : Option Scopes :=
  match scopes.ancestor? ref distance with
  | some ancestor => some (scopes.define ancestor name value)
  | none => none

/-! ## Searching -/

/-- The nearest scope outward that binds a name.  A scope is created after the
scope around it, so the search moves to ever smaller references. -/
def find? (scopes : Scopes) (ref : ScopeRef) (name : String) : Option ScopeRef :=
  if (scopes.own? ref name).isSome then
    some ref
  else
    match scopes.parent? ref with
    | some parent =>
        if parent.index < ref.index then scopes.find? parent name else none
    | none => none
termination_by ref.index

/-- The value of a name in the nearest scope outward that binds it. -/
def get? (scopes : Scopes) (ref : ScopeRef) (name : String) : Option Value :=
  match scopes.find? ref name with
  | some found => scopes.own? found name
  | none => none

/-- Change the value of a name in the nearest scope outward that binds it, if
there is one. -/
def assign? (scopes : Scopes) (ref : ScopeRef) (name : String) (value : Value) :
    Option Scopes :=
  match scopes.find? ref name with
  | some found => some (scopes.define found name value)
  | none => none

end Scopes

end Lox
