import Lox.Session

/-!
# Lexical semantics

The meaning of programs without resolution.  A local name stands for a mutable
cell, and which cell that is, a map says that never changes: a declaration gives
a new map, in which the name stands for a new cell, to what follows it, and a
closure keeps the map in force where it was declared.  A name that is not in the
map is looked up in the table of globals when it is used.
-/

namespace Lox

namespace Lexical

/-- A reference to a cell. -/
structure CellRef where
  index : Nat
  deriving DecidableEq, Repr

/-- The cells that local names stand for. -/
abbrev Locals :=
  Std.TreeMap String CellRef

/-- What names stand for in an expression.  Reads and writes differ only in the
initializer of a local variable. -/
structure Names where
  reads : Locals
  writes : Locals

/-- What names stand for in a statement, and whether what it declares is local. -/
structure Frame where
  locals : Locals
  isLocal : Bool

/-- The names for the expressions of a statement. -/
def Frame.names (frame : Frame) : Names :=
  { reads := frame.locals, writes := frame.locals }

/-- A function or method with the map it was declared under. -/
structure Closure where
  declaration : FunctionDecl
  locals : Locals
  isInitializer : Bool

instance : Inhabited Closure :=
  ⟨{ declaration := default, locals := ∅, isInitializer := false }⟩

/-- A class with its own methods. -/
structure ClassInfo where
  name : String
  superclass : Option ClassRef
  methods : Std.TreeMap String Closure

instance : Inhabited ClassInfo :=
  ⟨{ name := "", superclass := none, methods := ∅ }⟩

/-- The state in which programs run. -/
structure Store where
  cells : Array Value
  globals : Bindings
  natives : Array Native
  functions : Array Closure
  classes : Array ClassInfo
  objects : Array Object
  /-- The number of calls in progress. -/
  callDepth : Nat
  /-- The most calls that may be in progress at once; `none` stands for no limit. -/
  callLimit : Option Nat
  sink : Sink
  clock : Clock

/-- An action on the store that yields a value or is interrupted. -/
abbrev Action (α : Type) :=
  EStateM Interrupt Store α

namespace Store

/-- A store in which nothing has run; its one global is `clock`. -/
def initial (sink : Sink) (clock : Clock) : Store where
  cells := #[]
  globals := (∅ : Bindings).insert "clock" (.native ⟨0⟩)
  natives := #[Machine.clockNative]
  functions := #[]
  classes := #[]
  objects := #[]
  callDepth := 0
  callLimit := some Machine.maxCallDepth
  sink
  clock

/-- The native function behind a reference. -/
def native (store : Store) (ref : NativeRef) : Native :=
  store.natives.getD ref.index default

/-- The function behind a reference. -/
def function (store : Store) (ref : FunctionRef) : Closure :=
  store.functions.getD ref.index default

/-- The class behind a reference. -/
def classInfo (store : Store) (ref : ClassRef) : ClassInfo :=
  store.classes.getD ref.index default

/-- The object behind a reference. -/
def object (store : Store) (ref : ObjectRef) : Object :=
  store.objects.getD ref.index default

/-- The value of a name: of its cell, or of the global if the name has none. -/
def value? (store : Store) (locals : Locals) (name : String) : Option Value :=
  match locals[name]? with
  | some cell => store.cells[cell.index]?
  | none => store.globals[name]?

/-- The method of a name that the nearest class declares, from a class outward over
its superclasses. -/
def findMethod? (store : Store) (ref : ClassRef) (name : String) : Option Closure :=
  match (store.classInfo ref).methods[name]? with
  | some method => some method
  | none =>
      match (store.classInfo ref).superclass with
      | some superclass =>
          if superclass.index < ref.index then store.findMethod? superclass name else none
      | none => none
termination_by ref.index

/-- The number of arguments that a call of a value has to supply. -/
def arity? (store : Store) : Value → Option Nat
  | .native ref => some (store.native ref).arity
  | .function ref => some (store.function ref).declaration.arity
  | .classRef ref =>
      some (((store.findMethod? ref "init").map fun method => method.declaration.arity).getD 0)
  | _ => none

/-- The text that `print` writes for a value. -/
def text (store : Store) : Value → String
  | .nil => "nil"
  | .bool value => toString value
  | .number value => NumberFormat.printed.render value
  | .string value => value
  | .native _ => "<native fn>"
  | .function ref => "<fn " ++ (store.function ref).declaration.name.text ++ ">"
  | .classRef ref => (store.classInfo ref).name
  | .object ref => (store.classInfo (store.object ref).ofClass).name ++ " instance"

end Store

/-! ## Single steps -/

/-- Stop with a runtime error. -/
def fail {α : Type} (line : Nat) (fault : RuntimeFault) : Action α :=
  throw (.runtime { line, fault })

/-- The value of a result, or its fault at the given line. -/
def ofResult (line : Nat) : Except RuntimeFault Value → Action Value
  | .ok value => return value
  | .error fault => fail line fault

/-- A new cell. -/
def newCell (value : Value) : Action CellRef := fun store =>
  .ok ⟨store.cells.size⟩ { store with cells := store.cells.push value }

/-- Change the value of a cell. -/
def setCell (cell : CellRef) (value : Value) : Action Unit := fun store =>
  .ok () { store with cells := store.cells.modify cell.index fun _ => value }

/-- Change the value of a global, or add it. -/
def setGlobal (name : String) (value : Value) : Action Unit := fun store =>
  .ok () { store with globals := store.globals.insert name value }

/-- Read a variable. -/
def read (locals : Locals) (name : Name) : Action Value := do
  match (← get).value? locals name.text with
  | some value => return value
  | none => fail name.line (.undefinedVariable name.text)

/-- Change the cell of a name, or the global if there is one. -/
def write (locals : Locals) (name : Name) (value : Value) : Action Unit := do
  match locals[name.text]? with
  | some cell => setCell cell value
  | none =>
      if ((← get).globals[name.text]?).isSome then setGlobal name.text value
      else fail name.line (.undefinedVariable name.text)

/-- Let a name that is declared stand for a new cell, unless it is global. -/
def introduce (frame : Frame) (name : String) : Action Frame := do
  if frame.isLocal then
    let cell ← newCell .nil
    return { frame with locals := frame.locals.insert name cell }
  else
    return frame

/-- Give a name that was declared its value. -/
def define (frame : Frame) (name : String) (value : Value) : Action Unit := do
  if frame.isLocal then
    match frame.locals[name]? with
    | some cell => setCell cell value
    | none => return
  else
    setGlobal name value

/-- Let each parameter stand for a new cell with its argument, up to the shorter
list. -/
def bindParameters (locals : Locals) : List Name → List Value → Action Locals
  | param :: params, argument :: arguments => do
      let cell ← newCell argument
      bindParameters (locals.insert param.text cell) params arguments
  | _, _ => return locals

/-- A new function value. -/
def newFunction (closure : Closure) : Action Value := fun store =>
  .ok (.function ⟨store.functions.size⟩)
    { store with functions := store.functions.push closure }

/-- A method with `this` added to its map. -/
def bind (method : Closure) (this : Value) : Action Closure := do
  let cell ← newCell this
  return { method with locals := method.locals.insert "this" cell }

/-- A property of an object: its field of that name, or else its method of that
name, bound to the object. -/
def getProperty (ref : ObjectRef) (name : Name) : Action Value := do
  let store ← get
  match (store.object ref).fields[name.text]? with
  | some value => return value
  | none =>
      match store.findMethod? (store.object ref).ofClass name.text with
      | some method => newFunction (← bind method (.object ref))
      | none => fail name.line (.undefinedProperty name.text)

/-- Set a field of an object. -/
def setField (ref : ObjectRef) (name : String) (value : Value) : Action Unit := fun store =>
  .ok () { store with
    objects := store.objects.modify ref.index fun object =>
      { object with fields := object.fields.insert name value } }

/-- The superclass and the object that `super` refers to. -/
def superTarget? (store : Store) (locals : Locals) : Option (ClassRef × Value) :=
  match store.value? locals "super", store.value? locals "this" with
  | some (.classRef superclass), some this => some (superclass, this)
  | _, _ => none

/-- A method of the superclass, bound to `this`. -/
def getSuper (locals : Locals) (line : Nat) (method : Name) : Action Value := do
  let store ← get
  match superTarget? store locals with
  | some (superclass, this) =>
      match store.findMethod? superclass method.text with
      | some found => newFunction (← bind found this)
      | none => fail method.line (.undefinedProperty method.text)
  | none => fail line (.undefinedVariable "super")

/-- Call a native function. -/
def callNative (native : Native) (arguments : List Value) (line : Nat) : Action Value :=
  match native.action with
  | .readClock => fun store =>
      .ok (.number (store.clock.reading store.clock.taken))
        { store with clock := { store.clock with taken := store.clock.taken + 1 } }
  | .compute run =>
      match run arguments with
      | .ok value => return value
      | .error message => fail line (.nativeFailure message)

/-- Count a call as in progress while an action runs. -/
def counted {α : Type} (action : Action α) : Action α := fun store =>
  match action { store with callDepth := store.callDepth + 1 } with
  | .ok result store => .ok result { store with callDepth := store.callDepth - 1 }
  | .error interrupt store => .error interrupt { store with callDepth := store.callDepth - 1 }

/-- Stop if no further call may be in progress. -/
def checkDepth (line : Nat) : Action Unit := do
  let store ← get
  if store.callLimit.any (· ≤ store.callDepth) then fail line .stackOverflow

/-- Check that a value can be called with a number of arguments at the current
depth of calls. -/
def checkCall (callee : Value) (line count : Nat) : Action Unit := do
  match (← get).arity? callee with
  | none => fail line .notCallable
  | some arity =>
      if count ≠ arity then fail line (.wrongArgumentCount arity count)
      checkDepth line

/-- The result of a call of a function whose body ended with the given flow. -/
def callResult (closure : Closure) (line : Nat) (flow : Flow) : Action Value := do
  if closure.isInitializer then
    match (← get).value? closure.locals "this" with
    | some this => return this
    | none => fail line .initializerNotBound
  else
    match flow with
    | .normal => return .nil
    | .returned value => return value

/-- The class that a superclass expression yields. -/
def expectClass (line : Nat) : Value → Action ClassRef
  | .classRef ref => return ref
  | _ => fail line .superclassNotClass

/-- Write a line.  If it does not fit, what fits is written. -/
def writeLine (text : String) : Action Unit := fun store =>
  let bytes := (text ++ "\n").toUTF8
  if store.sink.hasRoom bytes then
    .ok () { store with sink := store.sink.write bytes }
  else
    .error (.output .sinkFull) { store with sink := store.sink.write bytes }

/-- Flush the output. -/
def flush : Action Unit := do
  if (← get).sink.flushFails then throw (.output .flushFailed)

/-! ## Declarations -/

/-- Declare a function, which sees its own name. -/
def declareFunction (frame : Frame) (declaration : FunctionDecl) : Action Frame := do
  let inner ← introduce frame declaration.name.text
  let value ← newFunction { declaration, locals := inner.locals, isInitializer := false }
  define inner declaration.name.text value
  return inner

/-- The map that methods are declared under, in which `super` stands for the
superclass if there is one. -/
def methodLocals (locals : Locals) : Option ClassRef → Action Locals
  | none => return locals
  | some ref => do return locals.insert "super" (← newCell (.classRef ref))

/-- The methods of a class by name; of two with one name the last counts. -/
def methodTable (declarations : List FunctionDecl) (locals : Locals) :
    Std.TreeMap String Closure :=
  declarations.foldl (fun table declaration =>
    table.insert declaration.name.text
      { declaration, locals, isInitializer := declaration.name.text = "init" }) ∅

/-- Declare a class, whose superclass has been evaluated. -/
def declareClass (frame : Frame) (name : Name) (superclass : Option ClassRef)
    (declarations : List FunctionDecl) : Action Frame := do
  let inner ← introduce frame name.text
  define inner name.text .nil
  let locals ← methodLocals inner.locals superclass
  let ref ← modifyGet fun store =>
    ((⟨store.classes.size⟩ : ClassRef), { store with
      classes := store.classes.push
        { name := name.text, superclass, methods := methodTable declarations locals } })
  define inner name.text (.classRef ref)
  return inner

/-! ## Expressions and statements -/

mutual

/-- Evaluate an expression. -/
def evaluate : Nat → Names → Expr → Action Value
  | 0, _, _ => throw .outOfFuel
  | fuel + 1, names, expr =>
      match expr with
      | .literal value => return value.toValue
      | .group inner => evaluate fuel names inner
      | .unary operator operand => do
          let operand ← evaluate fuel names operand
          ofResult operator.line (unaryResult operator operand)
      | .binary left operator right => do
          let left ← evaluate fuel names left
          let right ← evaluate fuel names right
          ofResult operator.line (binaryResult operator left right)
      | .logical left operator right => do
          let left ← evaluate fuel names left
          if decidesLogical operator left then return left else evaluate fuel names right
      | .var _ name => read names.reads name
      | .assign _ name value => do
          let value ← evaluate fuel names value
          write names.writes name value
          return value
      | .call callee line arguments => do
          let callee ← evaluate fuel names callee
          let arguments ← evaluateEach fuel names arguments
          checkCall callee line arguments.length
          counted (callValue fuel callee arguments line)
      | .get object name => do
          match ← evaluate fuel names object with
          | .object ref => getProperty ref name
          | _ => fail name.line .propertyOfNonObject
      | .set object name value => do
          match ← evaluate fuel names object with
          | .object ref =>
              let value ← evaluate fuel names value
              setField ref name.text value
              return value
          | _ => fail name.line .fieldOfNonObject
      | .this _ line => read names.reads { text := "this", line }
      | .super _ line method => getSuper names.reads line method

/-- Evaluate expressions from left to right. -/
def evaluateEach : Nat → Names → List Expr → Action (List Value)
  | 0, _, _ => throw .outOfFuel
  | _ + 1, _, [] => return []
  | fuel + 1, names, first :: rest => do
      let value ← evaluate fuel names first
      let values ← evaluateEach fuel names rest
      return value :: values

/-- Call a value with arguments. -/
def callValue : Nat → Value → List Value → Nat → Action Value
  | 0, _, _, _ => throw .outOfFuel
  | fuel + 1, callee, arguments, line =>
      match callee with
      | .native ref => do callNative ((← get).native ref) arguments line
      | .function ref => do callFunction fuel ((← get).function ref) arguments line
      | .classRef ref => do
          let object ← modifyGet fun store =>
            ((⟨store.objects.size⟩ : ObjectRef), { store with
              objects := store.objects.push { ofClass := ref, fields := ∅ } })
          match (← get).findMethod? ref "init" with
          | some initializer =>
              let bound ← bind initializer (.object object)
              let _ ← callFunction fuel bound arguments line
              return .object object
          | none => return .object object
      | _ => fail line .notCallable

/-- Call a function with arguments. -/
def callFunction : Nat → Closure → List Value → Nat → Action Value
  | 0, _, _, _ => throw .outOfFuel
  | fuel + 1, closure, arguments, line => do
      let locals ← bindParameters closure.locals closure.declaration.params arguments
      let flow ← executeEach fuel { locals, isLocal := true } closure.declaration.body
      callResult closure line flow

/-- Execute a statement; what follows it sees what it declares. -/
def execute : Nat → Frame → Stmt → Action (Flow × Frame)
  | 0, _, _ => throw .outOfFuel
  | fuel + 1, frame, stmt =>
      match stmt with
      | .expression value => do
          let _ ← evaluate fuel frame.names value
          return (.normal, frame)
      | .print value => do
          let value ← evaluate fuel frame.names value
          writeLine ((← get).text value)
          return (.normal, frame)
      | .var name none => do
          let inner ← introduce frame name.text
          define inner name.text .nil
          return (.normal, inner)
      | .var name (some initializer) => do
          let inner ← introduce frame name.text
          let value ← evaluate fuel { reads := frame.locals, writes := inner.locals } initializer
          define inner name.text value
          return (.normal, inner)
      | .block body => do
          return (← executeEach fuel { frame with isLocal := true } body, frame)
      | .if_ condition thenBranch elseBranch => do
          let condition ← evaluate fuel frame.names condition
          if condition.isTruthy then
            execute fuel frame thenBranch
          else
            match elseBranch with
            | some elseBranch => execute fuel frame elseBranch
            | none => return (.normal, frame)
      | .while_ condition body => do
          return (← executeWhile fuel frame condition body, frame)
      | .function declaration => do
          return (.normal, ← declareFunction frame declaration)
      | .return_ _ none => return (.returned .nil, frame)
      | .return_ _ (some value) => do
          return (.returned (← evaluate fuel frame.names value), frame)
      | .class_ name none methods => do
          return (.normal, ← declareClass frame name none methods)
      | .class_ name (some superclass) methods => do
          let value ← evaluate fuel frame.names superclass
          let parent ← expectClass (Eval.superclassLine name superclass) value
          return (.normal, ← declareClass frame name (some parent) methods)

/-- Execute statements from first to last, up to the first one that returns. -/
def executeEach : Nat → Frame → List Stmt → Action Flow
  | 0, _, _ => throw .outOfFuel
  | _ + 1, _, [] => return .normal
  | fuel + 1, frame, first :: rest => do
      match ← execute fuel frame first with
      | (.returned value, _) => return .returned value
      | (.normal, inner) => executeEach fuel inner rest

/-- Execute a body as long as a condition holds. -/
def executeWhile : Nat → Frame → Expr → Stmt → Action Flow
  | 0, _, _, _ => throw .outOfFuel
  | fuel + 1, frame, condition, body => do
      let value ← evaluate fuel frame.names condition
      if value.isTruthy then
        match ← execute fuel frame body with
        | (.returned value, _) => return .returned value
        | (.normal, _) => executeWhile fuel frame condition body
      else
        return .normal

end

/-- Execute the statements of a program, whose declarations are global, and flush
the output. -/
def executeProgram (fuel : Nat) : List Stmt → Action Unit
  | [] => flush
  | first :: rest => do
      let _ ← execute fuel { locals := ∅, isLocal := false } first
      executeProgram fuel rest

/-- How a program ends, and the output with what it has printed. -/
def run (fuel : Nat) (sink : Sink) (clock : Clock) (program : List Stmt) : Outcome × Sink :=
  match executeProgram fuel program (.initial sink clock) with
  | .ok _ final => (.completed, final.sink)
  | .error cause final => (.interrupted cause, final.sink)

end Lexical

end Lox
