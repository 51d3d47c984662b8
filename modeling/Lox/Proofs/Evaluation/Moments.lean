import Mathlib.Logic.Relation
import Lox.Evaluation
import Lox.Proofs.Actions

/-!
# Moments of a run

A run is a tree of evaluations: each starts others, one after another, before it
ends.  A moment is the start of one of them, with the fuel and the machine it
starts with.  What holds at every moment of a run is proved along `Calls`.
-/

namespace Lox

open Actions Eval

/-- What an evaluation is to do. -/
inductive Task where
  | evaluate (expr : Expr)
  | evaluateEach (exprs : List Expr)
  | callValue (callee : Value) (arguments : List Value) (line : Nat)
  | callFunction (closure : Closure) (arguments : List Value) (line : Nat)
  | execute (stmt : Stmt)
  | executeEach (stmts : List Stmt)
  | executeWhile (condition : Expr) (body : Stmt)
  | executeProgram (program : List Stmt)

/-- The start of an evaluation. -/
structure Moment where
  fuel : Nat
  task : Task
  machine : Machine

/-- While the first evaluation is under way, it starts the second one.  What it
does before that succeeds. -/
inductive Calls : Moment → Moment → Prop where
  | group {fuel inner machine} :
      Calls ⟨fuel + 1, .evaluate (.group inner), machine⟩ ⟨fuel, .evaluate inner, machine⟩
  | unary {fuel operator operand machine} :
      Calls ⟨fuel + 1, .evaluate (.unary operator operand), machine⟩
        ⟨fuel, .evaluate operand, machine⟩
  | binaryLeft {fuel left operator right machine} :
      Calls ⟨fuel + 1, .evaluate (.binary left operator right), machine⟩
        ⟨fuel, .evaluate left, machine⟩
  | binaryRight {fuel left operator right machine value middle} :
      evaluate fuel left machine = .ok value middle →
      Calls ⟨fuel + 1, .evaluate (.binary left operator right), machine⟩
        ⟨fuel, .evaluate right, middle⟩
  | logicalLeft {fuel left operator right machine} :
      Calls ⟨fuel + 1, .evaluate (.logical left operator right), machine⟩
        ⟨fuel, .evaluate left, machine⟩
  | logicalRight {fuel left operator right machine value middle} :
      evaluate fuel left machine = .ok value middle → decidesLogical operator value = false →
      Calls ⟨fuel + 1, .evaluate (.logical left operator right), machine⟩
        ⟨fuel, .evaluate right, middle⟩
  | assign {fuel id name value machine} :
      Calls ⟨fuel + 1, .evaluate (.assign id name value), machine⟩
        ⟨fuel, .evaluate value, machine⟩
  | callee {fuel callee line arguments machine} :
      Calls ⟨fuel + 1, .evaluate (.call callee line arguments), machine⟩
        ⟨fuel, .evaluate callee, machine⟩
  | arguments {fuel callee line arguments machine value middle} :
      evaluate fuel callee machine = .ok value middle →
      Calls ⟨fuel + 1, .evaluate (.call callee line arguments), machine⟩
        ⟨fuel, .evaluateEach arguments, middle⟩
  | call {fuel callee line arguments machine value middle values later checked} :
      evaluate fuel callee machine = .ok value middle →
      evaluateEach fuel arguments middle = .ok values later →
      checkCall value line values.length later = .ok () checked →
      Calls ⟨fuel + 1, .evaluate (.call callee line arguments), machine⟩
        ⟨fuel, .callValue value values line, { checked with callDepth := checked.callDepth + 1 }⟩
  | getObject {fuel object name machine} :
      Calls ⟨fuel + 1, .evaluate (.get object name), machine⟩ ⟨fuel, .evaluate object, machine⟩
  | setObject {fuel object name value machine} :
      Calls ⟨fuel + 1, .evaluate (.set object name value), machine⟩
        ⟨fuel, .evaluate object, machine⟩
  | setValue {fuel object name value machine ref middle} :
      evaluate fuel object machine = .ok (.object ref) middle →
      Calls ⟨fuel + 1, .evaluate (.set object name value), machine⟩
        ⟨fuel, .evaluate value, middle⟩
  | firstExpr {fuel first rest machine} :
      Calls ⟨fuel + 1, .evaluateEach (first :: rest), machine⟩ ⟨fuel, .evaluate first, machine⟩
  | restExprs {fuel first rest machine value middle} :
      evaluate fuel first machine = .ok value middle →
      Calls ⟨fuel + 1, .evaluateEach (first :: rest), machine⟩ ⟨fuel, .evaluateEach rest, middle⟩
  | function {fuel ref arguments line machine} :
      Calls ⟨fuel + 1, .callValue (.function ref) arguments line, machine⟩
        ⟨fuel, .callFunction (machine.heap.function ref) arguments line, machine⟩
  | initializer {fuel ref arguments line machine object middle initializer bound later} :
      (onHeap fun heap => heap.addObject ref) machine = .ok object middle →
      middle.heap.findMethod? ref "init" = some initializer →
      (onHeap fun heap => heap.bind initializer (.object object)) middle = .ok bound later →
      Calls ⟨fuel + 1, .callValue (.classRef ref) arguments line, machine⟩
        ⟨fuel, .callFunction bound arguments line, later⟩
  | functionBody {fuel closure arguments line machine scope middle} :
      openScope (parameterBindings closure.declaration.params arguments) (some closure.scope)
        machine = .ok scope middle →
      Calls ⟨fuel + 1, .callFunction closure arguments line, machine⟩
        ⟨fuel, .executeEach closure.declaration.body, { middle with current := scope }⟩
  | expression {fuel value machine} :
      Calls ⟨fuel + 1, .execute (.expression value), machine⟩ ⟨fuel, .evaluate value, machine⟩
  | print {fuel value machine} :
      Calls ⟨fuel + 1, .execute (.print value), machine⟩ ⟨fuel, .evaluate value, machine⟩
  | var {fuel name value machine} :
      Calls ⟨fuel + 1, .execute (.var name (some value)), machine⟩
        ⟨fuel, .evaluate value, machine⟩
  | block {fuel body machine scope middle} :
      openScope ∅ (some machine.current) machine = .ok scope middle →
      Calls ⟨fuel + 1, .execute (.block body), machine⟩
        ⟨fuel, .executeEach body, { middle with current := scope }⟩
  | ifCondition {fuel condition thenBranch elseBranch machine} :
      Calls ⟨fuel + 1, .execute (.if_ condition thenBranch elseBranch), machine⟩
        ⟨fuel, .evaluate condition, machine⟩
  | thenBranch {fuel condition thenBranch elseBranch machine value middle} :
      evaluate fuel condition machine = .ok value middle → value.isTruthy = true →
      Calls ⟨fuel + 1, .execute (.if_ condition thenBranch elseBranch), machine⟩
        ⟨fuel, .execute thenBranch, middle⟩
  | elseBranch {fuel condition thenBranch elseBranch machine value middle} :
      evaluate fuel condition machine = .ok value middle → value.isTruthy = false →
      Calls ⟨fuel + 1, .execute (.if_ condition thenBranch (some elseBranch)), machine⟩
        ⟨fuel, .execute elseBranch, middle⟩
  | loop {fuel condition body machine} :
      Calls ⟨fuel + 1, .execute (.while_ condition body), machine⟩
        ⟨fuel, .executeWhile condition body, machine⟩
  | return_ {fuel line value machine} :
      Calls ⟨fuel + 1, .execute (.return_ line (some value)), machine⟩
        ⟨fuel, .evaluate value, machine⟩
  | superclass {fuel name superclass methods machine} :
      Calls ⟨fuel + 1, .execute (.class_ name (some superclass) methods), machine⟩
        ⟨fuel, .evaluate superclass, machine⟩
  | firstStmt {fuel first rest machine} :
      Calls ⟨fuel + 1, .executeEach (first :: rest), machine⟩ ⟨fuel, .execute first, machine⟩
  | restStmts {fuel first rest machine middle} :
      execute fuel first machine = .ok .normal middle →
      Calls ⟨fuel + 1, .executeEach (first :: rest), machine⟩ ⟨fuel, .executeEach rest, middle⟩
  | loopCondition {fuel condition body machine} :
      Calls ⟨fuel + 1, .executeWhile condition body, machine⟩ ⟨fuel, .evaluate condition, machine⟩
  | loopBody {fuel condition body machine value middle} :
      evaluate fuel condition machine = .ok value middle → value.isTruthy = true →
      Calls ⟨fuel + 1, .executeWhile condition body, machine⟩ ⟨fuel, .execute body, middle⟩
  | loopAgain {fuel condition body machine value middle later} :
      evaluate fuel condition machine = .ok value middle → value.isTruthy = true →
      execute fuel body middle = .ok .normal later →
      Calls ⟨fuel + 1, .executeWhile condition body, machine⟩
        ⟨fuel, .executeWhile condition body, later⟩
  | firstOfProgram {fuel first rest machine} :
      Calls ⟨fuel, .executeProgram (first :: rest), machine⟩ ⟨fuel, .execute first, machine⟩
  | restOfProgram {fuel first rest machine flow middle} :
      execute fuel first machine = .ok flow middle →
      Calls ⟨fuel, .executeProgram (first :: rest), machine⟩
        ⟨fuel, .executeProgram rest, middle⟩

/-- The second moment is reached from the first one. -/
abbrev Reaches : Moment → Moment → Prop :=
  Relation.ReflTransGen Calls

/-- What holds at a moment and is passed on by `Calls` holds at every moment that
is reached. -/
theorem Reaches.invariant {property : Moment → Prop} {start moment : Moment}
    (reaches : Reaches start moment) (initially : property start)
    (preserved : ∀ first second, Calls first second → property first → property second) :
    property moment := by
  induction reaches with
  | refl => exact initially
  | tail _ calls inductionHypothesis => exact preserved _ _ calls inductionHypothesis

/-- The machine in which the evaluation ends that starts at the moment. -/
def Moment.final : Moment → Machine
  | ⟨fuel, .evaluate expr, machine⟩ => endState (evaluate fuel expr machine)
  | ⟨fuel, .evaluateEach exprs, machine⟩ => endState (evaluateEach fuel exprs machine)
  | ⟨fuel, .callValue callee arguments line, machine⟩ =>
      endState (callValue fuel callee arguments line machine)
  | ⟨fuel, .callFunction closure arguments line, machine⟩ =>
      endState (callFunction fuel closure arguments line machine)
  | ⟨fuel, .execute stmt, machine⟩ => endState (execute fuel stmt machine)
  | ⟨fuel, .executeEach stmts, machine⟩ => endState (executeEach fuel stmts machine)
  | ⟨fuel, .executeWhile condition body, machine⟩ =>
      endState (executeWhile fuel condition body machine)
  | ⟨fuel, .executeProgram program, machine⟩ => endState (executeProgram fuel program machine)

end Lox
