import Lox.Heap.Text
import Lox.Machine.Action

/-!
# Evaluation

The meaning of expressions and statements as actions on the machine.  Every step
takes one unit of fuel, so that each action is a function defined by recursion on
its fuel; a run that needs more is interrupted by `Interrupt.outOfFuel`.
-/

namespace Lox

/-- How a statement ends. -/
inductive Flow where
  | normal
  | returned (value : Value)
  deriving DecidableEq

/-! ## Operators -/

/-- The result of an operator before a value. -/
def unaryResult (operator : Token) (operand : Value) : Except RuntimeFault Value :=
  match operator.kind, operand with
  | .punct .minus, .number value => .ok (.number (-value))
  | .punct .minus, _ => .error .operandNotNumber
  | _, value => .ok (.bool !value.isTruthy)

/-- The sum of two numbers, or two texts joined. -/
def sumResult : Value → Value → Except RuntimeFault Value
  | .number left, .number right => .ok (.number (left + right))
  | .string left, .string right => .ok (.string (left ++ right))
  | _, _ => .error .operandsNotAddable

/-- The result of an operator between two numbers. -/
def arithmeticResult (operator : Token) (left right : Float) : Except RuntimeFault Value :=
  match operator.kind with
  | .punct .minus => .ok (.number (left - right))
  | .punct .star => .ok (.number (left * right))
  | .punct .slash => .ok (.number (left / right))
  | .punct .greater => .ok (.bool (left > right))
  | .punct .greaterEqual => .ok (.bool (left ≥ right))
  | .punct .less => .ok (.bool (left < right))
  | .punct .lessEqual => .ok (.bool (left ≤ right))
  | _ => .error (.invalidOperator operator.lexeme)

/-- The result of an operator between two values. -/
def binaryResult (operator : Token) (left right : Value) : Except RuntimeFault Value :=
  match operator.kind with
  | .punct .equalEqual => .ok (.bool (left.equals right))
  | .punct .bangEqual => .ok (.bool !left.equals right)
  | .punct .plus => sumResult left right
  | _ =>
      match left, right with
      | .number left, .number right => arithmeticResult operator left right
      | _, _ => .error .operandsNotNumbers

/-- Whether the left operand of `and` or `or` decides the result. -/
def decidesLogical (operator : Token) (left : Value) : Bool :=
  if operator.kind = .keyword .or_ then left.isTruthy else !left.isTruthy

namespace Eval

/-- The value of a result, or its fault at the given line. -/
def ofResult (line : Nat) : Except RuntimeFault Value → Eval Value
  | .ok value => return value
  | .error fault => fail line fault

/-! ## Declarations -/

/-- The bindings of parameters to arguments, up to the shorter list. -/
def parameterBindings (params : List Name) (arguments : List Value) : Bindings :=
  (params.zip arguments).foldl (fun bindings (param, argument) =>
    bindings.insert param.text argument) ∅

/-- Declare a function in the current scope. -/
def declareFunction (declaration : FunctionDecl) : Eval Unit := do
  let scope := (← get).current
  define declaration.name.text (← newFunction { declaration, scope, isInitializer := false })

/-- The scope that methods close over: the current scope, or inside it one that
binds `super`. -/
def methodScope (superclass : Option ClassRef) : Eval ScopeRef := do
  let current := (← get).current
  match superclass with
  | none => return current
  | some ref => openScope ((∅ : Bindings).insert "super" (.classRef ref)) (some current)

/-- The methods of a class by name; of two with one name the last counts. -/
def methodTable (declarations : List FunctionDecl) (scope : ScopeRef) :
    Std.TreeMap String Closure :=
  declarations.foldl (fun table declaration =>
    table.insert declaration.name.text
      { declaration, scope, isInitializer := declaration.name.text = "init" }) ∅

/-- Declare a class, whose superclass has been evaluated, in the current scope. -/
def declareClass (name : Name) (superclass : Option ClassRef)
    (declarations : List FunctionDecl) : Eval Unit := do
  define name.text .nil
  let scope ← methodScope superclass
  let info : ClassInfo :=
    { name := name.text, superclass, methods := methodTable declarations scope }
  define name.text (.classRef (← onHeap fun heap => heap.addClass info))

/-- The line at which a superclass that is no class is reported. -/
def superclassLine (name : Name) : Expr → Nat
  | .var _ superclass => superclass.line
  | _ => name.line

/-- The class that a superclass expression yields. -/
def expectClass (line : Nat) : Value → Eval ClassRef
  | .classRef ref => return ref
  | _ => fail line .superclassNotClass

/-- The result of a call of a function whose body ended with the given flow.  An
initializer yields the object it is bound to. -/
def callResult (closure : Closure) (line : Nat) (flow : Flow) : Eval Value := do
  if closure.isInitializer then
    match (← get).heap.scopes.own? closure.scope "this" with
    | some this => return this
    | none => fail line .initializerNotBound
  else
    match flow with
    | .normal => return .nil
    | .returned value => return value

/-- Check that a value can be called with a number of arguments at the current
depth of calls. -/
def checkCall (callee : Value) (line : Nat) (count : Nat) : Eval Unit := do
  match (← get).heap.arity? callee with
  | none => fail line .notCallable
  | some arity =>
      if count ≠ arity then fail line (.wrongArgumentCount arity count)
      checkDepth line

end Eval

open Eval

/-! ## Expressions and statements -/

mutual

/-- Evaluate an expression. -/
def evaluate : Nat → Expr → Eval Value
  | 0, _ => throw .outOfFuel
  | fuel + 1, expr =>
      match expr with
      | .literal value => return value.toValue
      | .group inner => evaluate fuel inner
      | .unary operator operand => do
          let operand ← evaluate fuel operand
          ofResult operator.line (unaryResult operator operand)
      | .binary left operator right => do
          let left ← evaluate fuel left
          let right ← evaluate fuel right
          ofResult operator.line (binaryResult operator left right)
      | .logical left operator right => do
          let left ← evaluate fuel left
          if decidesLogical operator left then return left else evaluate fuel right
      | .var id name => readVariable id name
      | .assign id name value => do
          let value ← evaluate fuel value
          writeVariable id name value
          return value
      | .call callee line arguments => do
          let callee ← evaluate fuel callee
          let arguments ← evaluateEach fuel arguments
          checkCall callee line arguments.length
          counted (callValue fuel callee arguments line)
      | .get object name => do
          match ← evaluate fuel object with
          | .object ref => getProperty ref name
          | _ => fail name.line .propertyOfNonObject
      | .set object name value => do
          match ← evaluate fuel object with
          | .object ref =>
              let value ← evaluate fuel value
              onHeap fun heap => (heap.setField ref name.text value, ())
              return value
          | _ => fail name.line .fieldOfNonObject
      | .this id line => readVariable id { text := "this", line }
      | .super id line method => getSuper id line method

/-- Evaluate expressions from left to right. -/
def evaluateEach : Nat → List Expr → Eval (List Value)
  | 0, _ => throw .outOfFuel
  | _ + 1, [] => return []
  | fuel + 1, first :: rest => do
      let value ← evaluate fuel first
      let values ← evaluateEach fuel rest
      return value :: values

/-- Call a value with arguments; `line` is that of the call.  The number of
arguments is not checked. -/
def callValue : Nat → Value → List Value → Nat → Eval Value
  | 0, _, _, _ => throw .outOfFuel
  | fuel + 1, callee, arguments, line =>
      match callee with
      | .native ref => do callNative ((← get).heap.native ref) arguments line
      | .function ref => do callFunction fuel ((← get).heap.function ref) arguments line
      | .classRef ref => do
          let object ← onHeap fun heap => heap.addObject ref
          match (← get).heap.findMethod? ref "init" with
          | some initializer =>
              let bound ← onHeap fun heap => heap.bind initializer (.object object)
              let _ ← callFunction fuel bound arguments line
              return .object object
          | none => return .object object
      | _ => fail line .notCallable

/-- Call a function with arguments, which are bound to its parameters up to the
shorter list. -/
def callFunction : Nat → Closure → List Value → Nat → Eval Value
  | 0, _, _, _ => throw .outOfFuel
  | fuel + 1, closure, arguments, line => do
      let scope ←
        openScope (parameterBindings closure.declaration.params arguments) (some closure.scope)
      let flow ← within scope (executeEach fuel closure.declaration.body)
      callResult closure line flow

/-- Execute a statement. -/
def execute : Nat → Stmt → Eval Flow
  | 0, _ => throw .outOfFuel
  | fuel + 1, stmt =>
      match stmt with
      | .expression value => do
          let _ ← evaluate fuel value
          return .normal
      | .print value => do
          let value ← evaluate fuel value
          writeLine ((← get).heap.text value)
          return .normal
      | .var name none => do
          define name.text .nil
          return .normal
      | .var name (some initializer) => do
          define name.text (← evaluate fuel initializer)
          return .normal
      | .block body => do
          let scope ← openScope ∅ (some (← get).current)
          within scope (executeEach fuel body)
      | .if_ condition thenBranch elseBranch => do
          let condition ← evaluate fuel condition
          if condition.isTruthy then
            execute fuel thenBranch
          else
            match elseBranch with
            | some elseBranch => execute fuel elseBranch
            | none => return .normal
      | .while_ condition body => executeWhile fuel condition body
      | .function declaration => do
          declareFunction declaration
          return .normal
      | .return_ _ none => return .returned .nil
      | .return_ _ (some value) => do return .returned (← evaluate fuel value)
      | .class_ name none methods => do
          declareClass name none methods
          return .normal
      | .class_ name (some superclass) methods => do
          let value ← evaluate fuel superclass
          let parent ← expectClass (superclassLine name superclass) value
          declareClass name (some parent) methods
          return .normal

/-- Execute statements from first to last, up to the first one that returns. -/
def executeEach : Nat → List Stmt → Eval Flow
  | 0, _ => throw .outOfFuel
  | _ + 1, [] => return .normal
  | fuel + 1, first :: rest => do
      match ← execute fuel first with
      | .returned value => return .returned value
      | .normal => executeEach fuel rest

/-- Execute a body as long as a condition holds, up to the first time the body
returns. -/
def executeWhile : Nat → Expr → Stmt → Eval Flow
  | 0, _, _ => throw .outOfFuel
  | fuel + 1, condition, body => do
      let value ← evaluate fuel condition
      if value.isTruthy then
        match ← execute fuel body with
        | .returned value => return .returned value
        | .normal => executeWhile fuel condition body
      else
        return .normal

end

/-- Execute the statements of a program and flush the output.  A `return` outside
functions does not end the program. -/
def executeProgram (fuel : Nat) : List Stmt → Eval Unit
  | [] => flush
  | first :: rest => do
      let _ ← execute fuel first
      executeProgram fuel rest

end Lox
