import Lox.Syntax

/-!
# Values

Scalars are values themselves; natives, functions, classes and objects are
references into a heap.  Two references are the same value exactly when they
point to the same entry.
-/

namespace Lox

/-- A reference to a scope. -/
structure ScopeRef where
  index : Nat
  deriving DecidableEq, Repr

/-- A reference to a native function. -/
structure NativeRef where
  index : Nat
  deriving DecidableEq, Repr

/-- A reference to a function. -/
structure FunctionRef where
  index : Nat
  deriving DecidableEq, Repr

/-- A reference to a class. -/
structure ClassRef where
  index : Nat
  deriving DecidableEq, Repr

/-- A reference to an object, that is, an instance of a class. -/
structure ObjectRef where
  index : Nat
  deriving DecidableEq, Repr

/-- Values of expressions. -/
inductive Value where
  | nil
  | bool (value : Bool)
  | number (value : Float)
  | string (value : String)
  | native (ref : NativeRef)
  | function (ref : FunctionRef)
  | classRef (ref : ClassRef)
  | object (ref : ObjectRef)
  deriving DecidableEq

namespace Literal

/-- The value of a constant. -/
def toValue : Literal → Value
  | .nil => .nil
  | .bool value => .bool value
  | .number value => .number value
  | .string value => .string value

end Literal

namespace Value

/-- Everything but `nil` and `false` counts as true. -/
def isTruthy : Value → Bool
  | .nil => false
  | .bool value => value
  | _ => true

/-- Equality as the language has it: numbers are compared as doubles, so that
both zeros are equal and a value that is not a number differs from itself. -/
def equals : Value → Value → Bool
  | .nil, .nil => true
  | .bool left, .bool right => left = right
  | .number left, .number right => left == right
  | .string left, .string right => left = right
  | .native left, .native right => left = right
  | .function left, .function right => left = right
  | .classRef left, .classRef right => left = right
  | .object left, .object right => left = right
  | _, _ => false

end Value

end Lox
