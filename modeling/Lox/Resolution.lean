import Lox.Resolution.State

/-!
# Resolution

A walk over a program that finds, for each use of a variable, how many scopes
out the variable lives, and reports violations of the static rules.  The walk
collects everything it finds and never stops early.
-/

namespace Lox

/-! ## Expressions -/

namespace Expr

mutual

/-- Resolve the uses in an expression.  An assigned value comes before the
variable or the object that it is assigned to. -/
def resolve : Expr → ResolverState → ResolverState
  | .literal _, state => state
  | .group inner, state => inner.resolve state
  | .unary _ operand, state => operand.resolve state
  | .binary left _ right, state => right.resolve (left.resolve state)
  | .logical left _ right, state => right.resolve (left.resolve state)
  | .var id name, state => state.read id name
  | .assign id name value, state => (value.resolve state).use id name.text .write
  | .call callee _ arguments, state => resolveEach arguments (callee.resolve state)
  | .get object _, state => object.resolve state
  | .set object _ value, state => object.resolve (value.resolve state)
  | .this id line, state =>
      if state.classContext = .outside then
        state.report { text := "this", line } .thisOutsideClass
      else
        state.use id "this" .read
  | .super id line _, state =>
      match state.classContext with
      | .outside => state.report { text := "super", line } .superOutsideClass
      | .plain => state.report { text := "super", line } .superWithoutSuperclass
      | .derived => state.use id "super" .read

/-- Resolve the uses in expressions from left to right. -/
def resolveEach : List Expr → ResolverState → ResolverState
  | [], state => state
  | first :: rest, state => resolveEach rest (first.resolve state)

end

/-- Resolve the uses in an optional expression. -/
def resolveOption : Option Expr → ResolverState → ResolverState
  | none, state => state
  | some value, state => value.resolve state

end Expr

/-! ## Statements -/

namespace ResolverState

/-- Check a `return`, which may carry a value. -/
def checkReturn (state : ResolverState) (line : Nat) (hasValue : Bool) : ResolverState :=
  let keyword : Name := { text := "return", line }
  match state.functionContext with
  | .outside => state.report keyword .returnOutsideFunction
  | .initializer =>
      if hasValue then state.report keyword .returnValueFromInitializer else state
  | _ => state

/-- Check that a class does not name itself as its superclass. -/
def checkSuperclass (state : ResolverState) (name : Name) : Expr → ResolverState
  | .var _ superclass =>
      if superclass.text = name.text then state.report superclass .inheritsFromItself
      else state
  | _ => state

/-- Walk the superclass of a class, whose methods see a scope with `super`. -/
def enterSuperclass (state : ResolverState) (name : Name) :
    Option Expr → ResolverState
  | none => state
  | some superclass =>
      let checked := state.checkSuperclass name superclass
      ((superclass.resolve { checked with classContext := .derived }).enter).define "super"

/-- Close the scope with `super`, if there is one. -/
def leaveSuperclass (state : ResolverState) : Option Expr → ResolverState
  | none => state
  | some _ => state.leave

end ResolverState

/-- The context of a method body. -/
def methodContext (name : Name) : FunctionContext :=
  if name.text = "init" then .initializer else .method

namespace Stmt

mutual

/-- Resolve the uses in a statement. -/
def resolve : Stmt → ResolverState → ResolverState
  | .expression value, state => value.resolve state
  | .print value, state => value.resolve state
  | .var name initializer, state =>
      (Expr.resolveOption initializer (state.declare name)).define name.text
  | .block body, state => (resolveEach body state.enter).leave
  | .if_ condition thenBranch none, state =>
      thenBranch.resolve (condition.resolve state)
  | .if_ condition thenBranch (some elseBranch), state =>
      elseBranch.resolve (thenBranch.resolve (condition.resolve state))
  | .while_ condition body, state => body.resolve (condition.resolve state)
  | .function declaration, state =>
      resolveFunction .function declaration (state.introduce declaration.name)
  | .return_ line value, state =>
      Expr.resolveOption value (state.checkReturn line value.isSome)
  | .class_ name superclass methods, state =>
      let declared := { state with classContext := .plain }.introduce name
      let opened := ((declared.enterSuperclass name superclass).enter).define "this"
      let walked := ((resolveMethods methods opened).leave).leaveSuperclass superclass
      { walked with classContext := state.classContext }

/-- Resolve the uses in statements from first to last. -/
def resolveEach : List Stmt → ResolverState → ResolverState
  | [], state => state
  | first :: rest, state => resolveEach rest (first.resolve state)

/-- Resolve the uses in a function, whose parameters and body share a scope. -/
def resolveFunction (context : FunctionContext) :
    FunctionDecl → ResolverState → ResolverState
  | ⟨_, params, body⟩, state =>
      let opened := { state with functionContext := context }.enter
      let walked := (resolveEach body (params.foldl ResolverState.introduce opened)).leave
      { walked with functionContext := state.functionContext }

/-- Resolve the uses in methods from first to last. -/
def resolveMethods : List FunctionDecl → ResolverState → ResolverState
  | [], state => state
  | first :: rest, state =>
      resolveMethods rest (resolveFunction (methodContext first.name) first state)

end

end Stmt

/-! ## Programs -/

/-- What resolution found in a program. -/
structure Resolution where
  uses : List Use
  errors : List ResolutionError

/-- Resolve a program that is run where the given global names exist. -/
def resolveProgram (globals : List String) (program : List Stmt) : Resolution :=
  let final := Stmt.resolveEach program (.initial globals)
  { uses := final.uses.toList, errors := final.errors.toList }

end Lox
