import Lox.Scopes

/-!
# The heap

What references point to: scopes, native functions, functions with the scope
they close over, classes, and objects.  Entries are only added; of those there,
only the bindings of scopes and the fields of objects change.
-/

namespace Lox

/-- What a native function does. -/
inductive NativeAction where
  /-- Give the next reading of the clock. -/
  | readClock
  /-- Compute a value from the arguments, or fail with a message. -/
  | compute (run : List Value → Except String Value)

/-- A function that is not written in the language itself. -/
structure Native where
  name : String
  arity : Nat
  action : NativeAction

/-- A function or method with the scope it closes over. -/
structure Closure where
  declaration : FunctionDecl
  scope : ScopeRef
  isInitializer : Bool

/-- A class with its own methods. -/
structure ClassInfo where
  name : String
  superclass : Option ClassRef
  methods : Std.TreeMap String Closure

/-- An object: its class and its fields. -/
structure Object where
  ofClass : ClassRef
  fields : Bindings

/-- Everything that references point to. -/
structure Heap where
  scopes : Scopes
  natives : Array Native
  functions : Array Closure
  classes : Array ClassInfo
  objects : Array Object

instance : Inhabited Native :=
  ⟨{ name := "", arity := 0, action := .readClock }⟩

instance : Inhabited Closure :=
  ⟨{ declaration := default, scope := ⟨0⟩, isInitializer := false }⟩

instance : Inhabited ClassInfo :=
  ⟨{ name := "", superclass := none, methods := ∅ }⟩

instance : Inhabited Object :=
  ⟨{ ofClass := ⟨0⟩, fields := ∅ }⟩

namespace Closure

/-- The number of arguments a call has to supply. -/
def arity (closure : Closure) : Nat :=
  closure.declaration.arity

/-- The name of the function. -/
def name (closure : Closure) : String :=
  closure.declaration.name.text

end Closure

namespace Heap

/-- The heap without entries. -/
def empty : Heap :=
  { scopes := .empty, natives := #[], functions := #[], classes := #[], objects := #[] }

/-! ## Reading -/

/-- The native function behind a reference. -/
def native (heap : Heap) (ref : NativeRef) : Native :=
  heap.natives.getD ref.index default

/-- The function behind a reference. -/
def function (heap : Heap) (ref : FunctionRef) : Closure :=
  heap.functions.getD ref.index default

/-- The class behind a reference. -/
def classInfo (heap : Heap) (ref : ClassRef) : ClassInfo :=
  heap.classes.getD ref.index default

/-- The object behind a reference. -/
def object (heap : Heap) (ref : ObjectRef) : Object :=
  heap.objects.getD ref.index default

/-- The method of a name that the nearest class declares, from a class outward
over its superclasses.  A class is created after its superclass, so the search
moves to ever smaller references. -/
def findMethod? (heap : Heap) (ref : ClassRef) (name : String) : Option Closure :=
  match (heap.classInfo ref).methods[name]? with
  | some method => some method
  | none =>
      match (heap.classInfo ref).superclass with
      | some superclass =>
          if superclass.index < ref.index then heap.findMethod? superclass name else none
      | none => none
termination_by ref.index

/-- The number of arguments that a call of a value has to supply; only natives,
functions and classes can be called. -/
def arity? (heap : Heap) : Value → Option Nat
  | .native ref => some (heap.native ref).arity
  | .function ref => some (heap.function ref).arity
  | .classRef ref => some (((heap.findMethod? ref "init").map Closure.arity).getD 0)
  | _ => none

/-! ## Adding and changing -/

/-- Add an empty scope inside another one; its reference is that of
`scopes.nextRef`. -/
def openScope (heap : Heap) (parent : Option ScopeRef) : Heap :=
  { heap with scopes := heap.scopes.pushEmpty parent }

/-- Bind a name in a scope. -/
def define (heap : Heap) (scope : ScopeRef) (name : String) (value : Value) : Heap :=
  { heap with scopes := heap.scopes.define scope name value }

/-- Add a function. -/
def addFunction (heap : Heap) (closure : Closure) : Heap × FunctionRef :=
  let ref : FunctionRef := { index := heap.functions.size }
  ({ heap with functions := heap.functions.push closure }, ref)

/-- Add a class. -/
def addClass (heap : Heap) (info : ClassInfo) : Heap × ClassRef :=
  let ref : ClassRef := { index := heap.classes.size }
  ({ heap with classes := heap.classes.push info }, ref)

/-- Add an object of a class, without fields. -/
def addObject (heap : Heap) (ofClass : ClassRef) : Heap × ObjectRef :=
  let ref : ObjectRef := { index := heap.objects.size }
  ({ heap with objects := heap.objects.push { ofClass, fields := ∅ } }, ref)

/-- Set a field of an object. -/
def setField (heap : Heap) (ref : ObjectRef) (name : String) (value : Value) : Heap :=
  { heap with
    objects := heap.objects.modify ref.index fun object =>
      { object with fields := object.fields.insert name value } }

/-- Bind `this` for a method: the method closes over a new scope around which
lies the scope it was declared in. -/
def bind (heap : Heap) (method : Closure) (this : Value) : Heap × Closure :=
  let scope := heap.scopes.nextRef
  ((heap.openScope (some method.scope)).define scope "this" this, { method with scope })

end Heap

end Lox
