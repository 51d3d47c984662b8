import Lox.Machine

/-!
# Steps on the machine

The single steps of which the evaluation of programs is made: scopes are opened
and changed, variables and properties are read and written, natives are called,
and lines are printed.
-/

namespace Lox

namespace Eval

/-- Run an action on the heap. -/
@[inline]
def onHeap {α : Type} (action : Heap → Heap × α) : Eval α := fun machine =>
  match action machine.heap with
  | (heap, result) => .ok result { machine with heap }

/-- Stop with a runtime error. -/
def fail {α : Type} (line : Nat) (fault : RuntimeFault) : Eval α :=
  throw (.runtime { line, fault })

/-! ## Scopes -/

/-- Bind a name in the current scope. -/
def define (name : String) (value : Value) : Eval Unit := fun machine =>
  .ok () { machine with heap := machine.heap.define machine.current name value }

/-- Open a scope with the given bindings. -/
def openScope (bindings : Bindings) (parent : Option ScopeRef) : Eval ScopeRef :=
  onHeap fun heap =>
    let ref := heap.scopes.nextRef
    ({ heap with scopes := heap.scopes.push { bindings, parent } }, ref)

/-- Run an action in another scope, and return to the current one however the
action ends. -/
@[inline]
def within {α : Type} (scope : ScopeRef) (action : Eval α) : Eval α := fun machine =>
  let previous := machine.current
  match action { machine with current := scope } with
  | .ok result machine => .ok result { machine with current := previous }
  | .error interrupt machine => .error interrupt { machine with current := previous }

/-- Count a call as in progress while an action runs, however the action ends. -/
@[inline]
def counted {α : Type} (action : Eval α) : Eval α := fun machine =>
  match action { machine with callDepth := machine.callDepth + 1 } with
  | .ok result machine => .ok result { machine with callDepth := machine.callDepth - 1 }
  | .error interrupt machine =>
      .error interrupt { machine with callDepth := machine.callDepth - 1 }

/-- Stop if no further call may be in progress. -/
def checkDepth (line : Nat) : Eval Unit := do
  let machine ← get
  if machine.callLimit.any (· ≤ machine.callDepth) then fail line .stackOverflow

/-! ## Variables -/

/-- The value of a variable: of the local at the recorded distance, or else of
the global. -/
def readVariable (id : UseId) (name : Name) : Eval Value := fun machine =>
  let scopes := machine.heap.scopes
  let found :=
    match machine.distances[id]? with
    | some distance => scopes.getAt? machine.current distance name.text
    | none => scopes.own? machine.globals name.text
  match found with
  | some value => .ok value machine
  | none => fail name.line (.undefinedVariable name.text) machine

/-- The scope in which an assignment changes a variable: the local scope at the
recorded distance, or else the global scope if it binds the name. -/
def assignedScope? (machine : Machine) (id : UseId) (name : String) : Option ScopeRef :=
  let scopes := machine.heap.scopes
  match machine.distances[id]? with
  | some distance => scopes.ancestor? machine.current distance
  | none => if (scopes.own? machine.globals name).isSome then some machine.globals else none

/-- Change a variable. -/
def writeVariable (id : UseId) (name : Name) (value : Value) : Eval Unit := do
  match assignedScope? (← get) id name.text with
  | some scope => onHeap fun heap => (heap.define scope name.text value, ())
  | none => fail name.line (.undefinedVariable name.text)

/-! ## Functions and objects -/

/-- A new function value. -/
def newFunction (closure : Closure) : Eval Value := do
  return .function (← onHeap fun heap => heap.addFunction closure)

/-- A method as a function value with `this` bound. -/
def bindMethod (method : Closure) (this : Value) : Eval Value := do
  newFunction (← onHeap fun heap => heap.bind method this)

/-- A property of an object: its field of that name, or else its method of that
name, bound to the object. -/
def getProperty (ref : ObjectRef) (name : Name) : Eval Value := do
  let heap := (← get).heap
  let object := heap.object ref
  match object.fields[name.text]? with
  | some value => return value
  | none =>
      match heap.findMethod? object.ofClass name.text with
      | some method => bindMethod method (.object ref)
      | none => fail name.line (.undefinedProperty name.text)

/-- The superclass and the object that `super` refers to: both are bound in
scopes around the method, the superclass one scope further out. -/
def superTarget? (machine : Machine) (id : UseId) : Option (ClassRef × Value) :=
  let scopes := machine.heap.scopes
  match machine.distances[id]? with
  | some (inner + 1) =>
      match scopes.getAt? machine.current (inner + 1) "super",
        scopes.getAt? machine.current inner "this" with
      | some (.classRef superclass), some this => some (superclass, this)
      | _, _ => none
  | _ => none

/-- A method of the superclass, bound to `this`. -/
def getSuper (id : UseId) (line : Nat) (method : Name) : Eval Value := do
  let machine ← get
  match superTarget? machine id with
  | some (superclass, this) =>
      match machine.heap.findMethod? superclass method.text with
      | some found => bindMethod found this
      | none => fail method.line (.undefinedProperty method.text)
  | none => fail line (.undefinedVariable "super")

/-- Call a native function.  The number of arguments is not checked. -/
def callNative (native : Native) (arguments : List Value) (line : Nat) : Eval Value :=
  match native.action with
  | .readClock => fun machine =>
      .ok (.number (machine.clock.reading machine.clock.taken))
        { machine with clock := { machine.clock with taken := machine.clock.taken + 1 } }
  | .compute run =>
      match run arguments with
      | .ok value => return value
      | .error message => fail line (.nativeFailure message)

/-! ## Output -/

/-- Write a line.  If it does not fit, what fits is written. -/
def writeLine (text : String) : Eval Unit := fun machine =>
  let bytes := (text ++ "\n").toUTF8
  if machine.sink.hasRoom bytes then
    .ok () { machine with sink := machine.sink.write bytes }
  else
    .error (.output .sinkFull) { machine with sink := machine.sink.write bytes }

/-- Flush the output. -/
def flush : Eval Unit := do
  if (← get).sink.flushFails then throw (.output .flushFailed)

end Eval

end Lox
