import Lox.Proofs.Evaluation.Moments
import Lox.Proofs.Evaluation.Frame

/-!
# The moments of a run in order

`Task.parts` lists the evaluations that an evaluation starts itself, in the order in
which it starts them, and `Moment.moments` lists all moments of a run in the order of
time.  They are the moments that the run reaches.  `InProgress` keeps the evaluations
that have started and not ended yet.
-/

namespace Lox

open Actions Eval

/-! ## What an evaluation starts -/

/-- Evaluations that are started from a machine, one after another. -/
abbrev Timeline :=
  Machine → List Moment

namespace Timeline

/-- Nothing is started. -/
def idle : Timeline :=
  fun _ => []

/-- One evaluation is started. -/
def start (fuel : Nat) (task : Task) : Timeline :=
  fun machine => [⟨fuel, task, machine⟩]

variable {α : Type}

/-- What is started once an action has succeeded. -/
def after (action : Eval α) (next : α → Timeline) : Timeline := fun machine =>
  match action machine with
  | .ok value middle => next value middle
  | .error _ _ => []

/-- One evaluation is started, and others once it has succeeded as the action. -/
def startThen (fuel : Nat) (task : Task) (action : Eval α) (next : α → Timeline) : Timeline :=
  fun machine => ⟨fuel, task, machine⟩ :: after action next machine

theorem after_of_ok {action : Eval α} {machine middle : Machine} {value : α}
    (succeeded : action machine = .ok value middle) (next : α → Timeline) :
    after action next machine = next value middle := by
  rw [after, succeeded]

theorem after_of_error {action : Eval α} {machine middle : Machine} {cause : Interrupt}
    (failed : action machine = .error cause middle) (next : α → Timeline) :
    after action next machine = [] := by
  rw [after, failed]

theorem mem_start {fuel : Nat} {task : Task} {moment : Moment} {machine : Machine} :
    moment ∈ start fuel task machine ↔ moment = ⟨fuel, task, machine⟩ := by
  simp [start]

theorem mem_after {action : Eval α} {next : α → Timeline} {moment : Moment} {machine : Machine} :
    moment ∈ after action next machine ↔
      ∃ value middle, action machine = .ok value middle ∧ moment ∈ next value middle := by
  cases result : action machine with
  | ok value middle =>
      rw [after_of_ok result]
      constructor
      · exact fun member => ⟨value, middle, rfl, member⟩
      · rintro ⟨_, _, ⟨⟩, member⟩
        exact member
  | error cause middle => simp [after_of_error result]

theorem mem_startThen {fuel : Nat} {task : Task} {action : Eval α} {next : α → Timeline}
    {moment : Moment} {machine : Machine} :
    moment ∈ startThen fuel task action next machine ↔
      moment = ⟨fuel, task, machine⟩ ∨
        ∃ value middle, action machine = .ok value middle ∧ moment ∈ next value middle := by
  rw [startThen, List.mem_cons, mem_after]

end Timeline

open Timeline

/-- The evaluations that the evaluation of an expression starts. -/
def Expr.parts (fuel : Nat) : Expr → Timeline
  | .literal _ => idle
  | .group inner => start fuel (.evaluate inner)
  | .unary _ operand => start fuel (.evaluate operand)
  | .binary left _ right =>
      startThen fuel (.evaluate left) (evaluate fuel left) fun _ => start fuel (.evaluate right)
  | .logical left operator right =>
      startThen fuel (.evaluate left) (evaluate fuel left) fun value =>
        if decidesLogical operator value then idle else start fuel (.evaluate right)
  | .var _ _ => idle
  | .assign _ _ value => start fuel (.evaluate value)
  | .call callee line arguments =>
      startThen fuel (.evaluate callee) (evaluate fuel callee) fun value =>
        startThen fuel (.evaluateEach arguments) (evaluateEach fuel arguments) fun values =>
          after (checkCall value line values.length) fun _ checked =>
            start fuel (.callValue value values line)
              { checked with callDepth := checked.callDepth + 1 }
  | .get object _ => start fuel (.evaluate object)
  | .set object _ value =>
      startThen fuel (.evaluate object) (evaluate fuel object) fun
        | .object _ => start fuel (.evaluate value)
        | _ => idle
  | .this _ _ => idle
  | .super _ _ _ => idle

/-- The evaluations that the execution of a statement starts. -/
def Stmt.parts (fuel : Nat) : Stmt → Timeline
  | .expression value => start fuel (.evaluate value)
  | .print value => start fuel (.evaluate value)
  | .var _ none => idle
  | .var _ (some initializer) => start fuel (.evaluate initializer)
  | .block body => fun machine =>
      after (openScope ∅ (some machine.current)) (fun scope middle =>
        start fuel (.executeEach body) { middle with current := scope }) machine
  | .if_ condition thenBranch elseBranch =>
      startThen fuel (.evaluate condition) (evaluate fuel condition) fun value =>
        if value.isTruthy then
          start fuel (.execute thenBranch)
        else
          match elseBranch with
          | some elseBranch => start fuel (.execute elseBranch)
          | none => idle
  | .while_ condition body => start fuel (.executeWhile condition body)
  | .function _ => idle
  | .return_ _ none => idle
  | .return_ _ (some value) => start fuel (.evaluate value)
  | .class_ _ none _ => idle
  | .class_ _ (some superclass) _ => start fuel (.evaluate superclass)

/-- The evaluation that a new object starts: that of its initializer, if there is one. -/
def initializerParts (fuel : Nat) (arguments : List Value) (line : Nat) (object : ObjectRef) :
    Option Closure → Timeline
  | some initializer =>
      after (onHeap fun heap => heap.bind initializer (.object object)) fun bound =>
        start fuel (.callFunction bound arguments line)
  | none => idle

/-- The evaluations that a call of a value starts. -/
def Value.parts (fuel : Nat) (arguments : List Value) (line : Nat) : Value → Timeline
  | .function ref => fun machine =>
      start fuel (.callFunction (machine.heap.function ref) arguments line) machine
  | .classRef ref =>
      after (onHeap fun heap => heap.addObject ref) fun object middle =>
        initializerParts fuel arguments line object (middle.heap.findMethod? ref "init") middle
  | _ => idle

/-- The evaluations that a task starts, with the fuel that is left to them. -/
def Task.parts : Nat → Task → Timeline
  | _, .executeProgram [] => idle
  | fuel, .executeProgram (first :: rest) =>
      startThen fuel (.execute first) (Lox.execute fuel first) fun _ =>
        start fuel (.executeProgram rest)
  | 0, _ => idle
  | fuel + 1, .evaluate expr => expr.parts fuel
  | _ + 1, .evaluateEach [] => idle
  | fuel + 1, .evaluateEach (first :: rest) =>
      startThen fuel (.evaluate first) (Lox.evaluate fuel first) fun _ =>
        start fuel (.evaluateEach rest)
  | fuel + 1, .callValue callee arguments line => callee.parts fuel arguments line
  | fuel + 1, .callFunction closure arguments _ =>
      after (openScope (parameterBindings closure.declaration.params arguments)
        (some closure.scope)) fun scope middle =>
          start fuel (.executeEach closure.declaration.body) { middle with current := scope }
  | fuel + 1, .execute stmt => stmt.parts fuel
  | _ + 1, .executeEach [] => idle
  | fuel + 1, .executeEach (first :: rest) =>
      startThen fuel (.execute first) (Lox.execute fuel first) fun
        | .returned _ => idle
        | .normal => start fuel (.executeEach rest)
  | fuel + 1, .executeWhile condition body =>
      startThen fuel (.evaluate condition) (Lox.evaluate fuel condition) fun value =>
        if value.isTruthy then
          startThen fuel (.execute body) (Lox.execute fuel body) fun
            | .returned _ => idle
            | .normal => start fuel (.executeWhile condition body)
        else
          idle

namespace Moment

/-- The evaluations that the one starting at this moment starts itself, in order. -/
def parts (moment : Moment) : List Moment :=
  moment.task.parts moment.fuel moment.machine

end Moment

theorem Calls.mem_parts {moment part : Moment} (calls : Calls moment part) :
    part ∈ moment.parts := by
  cases calls
  all_goals simp [Moment.parts, Task.parts, Expr.parts, Stmt.parts, Value.parts, initializerParts,
    startThen, after, start, *]

section CallsOfMem

variable {fuel : Nat} {machine : Machine} {part : Moment}

theorem Expr.calls_of_mem_parts {expr : Expr} (member : part ∈ expr.parts fuel machine) :
    Calls ⟨fuel + 1, .evaluate expr, machine⟩ part := by
  cases expr with
  | literal value => cases member
  | group inner =>
      obtain rfl := mem_start.mp member
      exact .group
  | unary operator operand =>
      obtain rfl := mem_start.mp member
      exact .unary
  | binary left operator right =>
      rcases mem_startThen.mp member with rfl | ⟨value, middle, succeeded, later⟩
      · exact .binaryLeft
      · obtain rfl := mem_start.mp later
        exact .binaryRight succeeded
  | logical left operator right =>
      rcases mem_startThen.mp member with rfl | ⟨value, middle, succeeded, later⟩
      · exact .logicalLeft
      · by_cases decided : decidesLogical operator value = true
        · rw [if_pos decided] at later
          cases later
        · rw [if_neg decided] at later
          obtain rfl := mem_start.mp later
          exact .logicalRight succeeded (Bool.not_eq_true _ ▸ decided)
  | var id name => cases member
  | assign id name value =>
      obtain rfl := mem_start.mp member
      exact .assign
  | call callee line arguments =>
      rcases mem_startThen.mp member with rfl | ⟨value, middle, succeeded, later⟩
      · exact .callee
      · rcases mem_startThen.mp later with rfl | ⟨values, last, evaluated, called⟩
        · exact .arguments succeeded
        · rcases mem_after.mp called with ⟨_, checked, passed, started⟩
          obtain rfl := mem_start.mp started
          exact .call succeeded evaluated passed
  | get object name =>
      obtain rfl := mem_start.mp member
      exact .getObject
  | set object name value =>
      rcases mem_startThen.mp member with rfl | ⟨found, middle, succeeded, later⟩
      · exact .setObject
      · cases found with
        | object ref =>
            obtain rfl := mem_start.mp later
            exact .setValue succeeded
        | _ => cases later
  | this id line => cases member
  | super id line method => cases member

theorem Stmt.calls_of_mem_parts {stmt : Stmt} (member : part ∈ stmt.parts fuel machine) :
    Calls ⟨fuel + 1, .execute stmt, machine⟩ part := by
  cases stmt with
  | expression value =>
      obtain rfl := mem_start.mp member
      exact .expression
  | print value =>
      obtain rfl := mem_start.mp member
      exact .print
  | var name initializer =>
      cases initializer with
      | none => cases member
      | some value =>
          obtain rfl := mem_start.mp member
          exact .var
  | block body =>
      rw [Stmt.parts] at member
      rcases mem_after.mp member with ⟨scope, middle, opened, started⟩
      obtain rfl := mem_start.mp started
      exact .block opened
  | if_ condition thenBranch elseBranch =>
      rcases mem_startThen.mp member with rfl | ⟨value, middle, succeeded, later⟩
      · exact .ifCondition
      · by_cases truthy : value.isTruthy = true
        · rw [if_pos truthy] at later
          obtain rfl := mem_start.mp later
          exact .thenBranch succeeded truthy
        · rw [if_neg truthy] at later
          cases elseBranch with
          | none => cases later
          | some elseBranch =>
              obtain rfl := mem_start.mp later
              exact .elseBranch succeeded (Bool.not_eq_true _ ▸ truthy)
  | while_ condition body =>
      obtain rfl := mem_start.mp member
      exact .loop
  | function declaration => cases member
  | return_ line value =>
      cases value with
      | none => cases member
      | some value =>
          obtain rfl := mem_start.mp member
          exact .return_
  | class_ name superclass methods =>
      cases superclass with
      | none => cases member
      | some superclass =>
          obtain rfl := mem_start.mp member
          exact .superclass

theorem Value.calls_of_mem_parts {callee : Value} {arguments : List Value} {line : Nat}
    (member : part ∈ callee.parts fuel arguments line machine) :
    Calls ⟨fuel + 1, .callValue callee arguments line, machine⟩ part := by
  cases callee with
  | function ref =>
      obtain rfl := mem_start.mp member
      exact .function
  | classRef ref =>
      rw [Value.parts] at member
      rcases mem_after.mp member with ⟨object, middle, added, later⟩
      cases found : middle.heap.findMethod? ref "init" with
      | none =>
          rw [found] at later
          cases later
      | some initializer =>
          rw [found, initializerParts] at later
          rcases mem_after.mp later with ⟨bound, last, isBound, started⟩
          obtain rfl := mem_start.mp started
          exact .initializer added found isBound
  | _ => cases member

theorem calls_of_mem_loopParts {condition : Expr} {body : Stmt}
    (member : part ∈ (Task.executeWhile condition body).parts (fuel + 1) machine) :
    Calls ⟨fuel + 1, .executeWhile condition body, machine⟩ part := by
  rcases mem_startThen.mp member with rfl | ⟨value, middle, succeeded, later⟩
  · exact .loopCondition
  · by_cases truthy : value.isTruthy = true
    · rw [if_pos truthy] at later
      rcases mem_startThen.mp later with rfl | ⟨flow, last, executed, again⟩
      · exact .loopBody succeeded truthy
      · cases flow with
        | returned value => cases again
        | normal =>
            obtain rfl := mem_start.mp again
            exact .loopAgain succeeded truthy executed
    · rw [if_neg truthy] at later
      cases later

end CallsOfMem

theorem Moment.calls_of_mem_parts {moment part : Moment} (member : part ∈ moment.parts) :
    Calls moment part := by
  rcases moment with ⟨fuel, task, machine⟩
  cases task with
  | executeProgram program =>
      cases program with
      | nil =>
          rw [parts, Task.parts] at member
          cases member
      | cons first rest =>
          rw [parts, Task.parts] at member
          rcases mem_startThen.mp member with rfl | ⟨flow, middle, succeeded, later⟩
          · exact .firstOfProgram
          · obtain rfl := mem_start.mp later
            exact .restOfProgram succeeded
  | evaluate expr =>
      cases fuel with
      | zero => cases member
      | succ fuel => exact Expr.calls_of_mem_parts member
  | evaluateEach exprs =>
      cases fuel with
      | zero => cases member
      | succ fuel =>
          cases exprs with
          | nil => cases member
          | cons first rest =>
              rcases mem_startThen.mp member with rfl | ⟨value, middle, succeeded, later⟩
              · exact .firstExpr
              · obtain rfl := mem_start.mp later
                exact .restExprs succeeded
  | callValue callee arguments line =>
      cases fuel with
      | zero => cases member
      | succ fuel => exact Value.calls_of_mem_parts member
  | callFunction closure arguments line =>
      cases fuel with
      | zero => cases member
      | succ fuel =>
          rw [parts, Task.parts] at member
          rcases mem_after.mp member with ⟨scope, middle, opened, started⟩
          obtain rfl := mem_start.mp started
          exact .functionBody opened
  | execute stmt =>
      cases fuel with
      | zero => cases member
      | succ fuel => exact Stmt.calls_of_mem_parts member
  | executeEach stmts =>
      cases fuel with
      | zero => cases member
      | succ fuel =>
          cases stmts with
          | nil => cases member
          | cons first rest =>
              rcases mem_startThen.mp member with rfl | ⟨flow, middle, succeeded, later⟩
              · exact .firstStmt
              · cases flow with
                | returned value => cases later
                | normal =>
                    obtain rfl := mem_start.mp later
                    exact .restStmts succeeded
  | executeWhile condition body =>
      cases fuel with
      | zero => cases member
      | succ fuel => exact calls_of_mem_loopParts member

/-- The parts are what the evaluation starts. -/
theorem Moment.mem_parts_iff {moment part : Moment} :
    part ∈ moment.parts ↔ Calls moment part :=
  ⟨calls_of_mem_parts, Calls.mem_parts⟩

/-! ## All moments in order -/

namespace Moment

/-- The statements that are left of a program. -/
def remaining (moment : Moment) : Nat :=
  match moment.task with
  | .executeProgram program => program.length
  | _ => 0

theorem rank_lt_of_mem_parts {moment part : Moment} (member : part ∈ moment.parts) :
    Prod.Lex (· < ·) (· < ·) (part.fuel, part.remaining) (moment.fuel, moment.remaining) := by
  cases mem_parts_iff.mp member
  case firstOfProgram => exact .right _ (Nat.succ_pos _)
  case restOfProgram => exact .right _ (Nat.lt_succ_self _)
  all_goals exact .left _ _ (Nat.lt_succ_self _)

/-- All moments of the evaluation that starts at this one, in the order of time: each
evaluation comes before those that it starts, and those in the order in which it
starts them. -/
def moments (moment : Moment) : List Moment :=
  moment :: moment.parts.attach.flatMap fun part => part.val.moments
termination_by (moment.fuel, moment.remaining)
decreasing_by exact rank_lt_of_mem_parts part.property

theorem moments_eq (moment : Moment) :
    moment.moments = moment :: moment.parts.flatMap moments := by
  rw [moments, List.flatMap_subtype (g := moments) fun _ _ => rfl, List.unattach_attach]

theorem reaches_of_mem_moments {start moment : Moment} (member : moment ∈ start.moments) :
    Reaches start moment := by
  rw [moments_eq] at member
  rcases List.mem_cons.mp member with rfl | later
  · exact .refl
  · rcases List.mem_flatMap.mp later with ⟨part, isPart, inPart⟩
    exact .head (mem_parts_iff.mp isPart) (reaches_of_mem_moments inPart)
termination_by (start.fuel, start.remaining)
decreasing_by exact rank_lt_of_mem_parts isPart

/-- The moments of a run are those that it reaches. -/
theorem mem_moments_iff {start moment : Moment} :
    moment ∈ start.moments ↔ Reaches start moment := by
  constructor
  · exact reaches_of_mem_moments
  · intro reaches
    induction reaches using Relation.ReflTransGen.head_induction_on with
    | refl =>
        rw [moments_eq]
        exact List.mem_cons_self
    | head calls _ inductionHypothesis =>
        rw [moments_eq]
        exact List.mem_cons_of_mem _
          (List.mem_flatMap.mpr ⟨_, mem_parts_iff.mpr calls, inductionHypothesis⟩)

end Moment

/-! ## Evaluations in progress -/

/-- The evaluations that are in progress at some moment of a run, the latest first: each
was started by the one behind it. -/
inductive InProgress (start : Moment) : List Moment → Prop where
  | start : InProgress start [start]
  | next {moment part outer} : InProgress start (moment :: outer) → Calls moment part →
      InProgress start (part :: moment :: outer)

theorem Reaches.exists_inProgress {start moment : Moment} (reaches : Reaches start moment) :
    ∃ outer, InProgress start (moment :: outer) := by
  induction reaches with
  | refl => exact ⟨[], .start⟩
  | tail _ calls inductionHypothesis =>
      rcases inductionHypothesis with ⟨outer, inProgress⟩
      exact ⟨_, inProgress.next calls⟩

theorem InProgress.reaches {start moment : Moment} {outer : List Moment}
    (inProgress : InProgress start (moment :: outer)) : Reaches start moment := by
  generalize isStack : moment :: outer = stack at inProgress
  induction inProgress generalizing moment outer with
  | start =>
      cases isStack
      exact .refl
  | next _ calls inductionHypothesis =>
      cases isStack
      exact .tail (inductionHypothesis rfl) calls

end Lox
