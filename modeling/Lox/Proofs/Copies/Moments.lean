import Mathlib.Data.List.Forall2
import Lox.Proofs.Copies.Evaluation
import Lox.Proofs.Evaluation.Failures

/-!
# Moments of copied runs

A tree and its copy do not only end alike: they start the same evaluations, one after
another, and where one of them fails by itself, so does the copy.
-/

namespace Lox

namespace Copying

open Actions Eval Timeline

/-! ## Copies of moments -/

/-- The second task is about copies of the trees of the first one. -/
inductive Tasks (copying : Copying) : Task → Task → Prop where
  | evaluate {expr : Expr} {use : UseId → UseId} {line : Nat → Nat} :
      copying.Labels use line expr.uses →
      Tasks copying (.evaluate expr) (.evaluate (expr.relabel use line))
  | evaluateEach {exprs : List Expr} {use : UseId → UseId} {line : Nat → Nat} :
      copying.Labels use line (Expr.usesEach exprs) →
      Tasks copying (.evaluateEach exprs) (.evaluateEach (Expr.relabelEach use line exprs))
  | callValue {line line' : Nat} (callee : Value) (arguments : List Value) :
      copying.Lines line line' →
      Tasks copying (.callValue callee arguments line) (.callValue callee arguments line')
  | callFunction {closure closure' : Closure} {line line' : Nat} (arguments : List Value) :
      copying.Closures closure closure' → copying.Lines line line' →
      Tasks copying (.callFunction closure arguments line) (.callFunction closure' arguments line')
  | execute {stmt : Stmt} {use : UseId → UseId} {line : Nat → Nat} :
      copying.Labels use line stmt.ids →
      Tasks copying (.execute stmt) (.execute (stmt.relabel use line))
  | nothing : Tasks copying (.executeEach []) (.executeEach [])
  | executeEach {stmts : List Stmt} {use : UseId → UseId} {line : Nat → Nat} :
      copying.Labels use line (Stmt.idsEach stmts) →
      Tasks copying (.executeEach stmts) (.executeEach (Stmt.relabelEach use line stmts))
  | executeWhile {condition : Expr} {body : Stmt} {use : UseId → UseId} {line : Nat → Nat} :
      copying.Labels use line condition.uses → copying.Labels use line body.ids →
      Tasks copying (.executeWhile condition body)
        (.executeWhile (condition.relabel use line) (body.relabel use line))
  | executeProgram {program : List Stmt} {use : UseId → UseId} {line : Nat → Nat} :
      copying.Labels use line (Stmt.idsEach program) →
      Tasks copying (.executeProgram program)
        (.executeProgram (Stmt.relabelEach use line program))

/-- The second evaluation is about copies of the trees of the first one, on a machine that
is a copy of the other one. -/
structure Moments (copying : Copying) (moment moment' : Moment) : Prop where
  fuel : moment'.fuel = moment.fuel
  task : copying.Tasks moment.task moment'.task
  machine : copying.Machines moment.machine moment'.machine

/-- The runtime errors differ in their lines, which are those of a token and its copy. -/
structure Errors (copying : Copying) (error error' : RuntimeError) : Prop where
  line : copying.Lines error.line error'.line
  fault : error'.fault = error.fault

variable {copying : Copying} {machine machine' : Machine} {α : Type}

theorem Agree.errors {action action' : Eval α}
    (agree : copying.Agree machine machine' action action') :
    Option.Rel copying.Errors (runtimeError? (action machine)) (runtimeError? (action' machine')) := by
  refine Paired.cases agree ?_ ?_
  · intro value final value' final' result result' _
    rw [result, result']
    exact .none
  · rintro cause final cause' final' result result' ⟨interrupts, -⟩
    rw [result, result']
    cases interrupts with
    | runtime fault lines => exact .some ⟨lines, rfl⟩
    | output error => exact .none
    | outOfFuel => exact .none

/-- An evaluation and its copy fail alike. -/
theorem Moments.failures {moment moment' : Moment} (copied : copying.Moments moment moment') :
    Option.Rel copying.Errors moment.failure? moment'.failure? := by
  rcases moment with ⟨fuel, task, machine⟩
  rcases moment' with ⟨fuel', task', machine'⟩
  rcases copied with ⟨rfl, tasks, machines⟩
  have agree : copying.AgreeAt fuel' := agreeAt fuel'
  cases tasks with
  | evaluate labels => exact (agree.evaluate _ machines labels).errors
  | evaluateEach labels => exact (agree.evaluateEach _ machines labels).errors
  | callValue callee arguments lines => exact (agree.callValue _ _ machines lines).errors
  | callFunction arguments closures lines =>
      exact (agree.callFunction _ machines closures lines).errors
  | execute labels => exact (agree.execute _ machines labels).errors
  | nothing =>
      cases fuel' with
      | zero => exact .none
      | succ fuel => exact .none
  | executeEach labels => exact (agree.executeEach _ machines labels).errors
  | executeWhile labels bodyLabels =>
      exact (agree.executeWhile _ _ machines labels bodyLabels).errors
  | executeProgram labels => exact (executeProgram_agree fuel' _ machines labels).errors

/-! ## What copies start -/

theorem Machines.deeper (copied : copying.Machines machine machine') :
    copying.Machines { machine with callDepth := machine.callDepth + 1 }
      { machine' with callDepth := machine'.callDepth + 1 } := by
  rw [copied.callDepth]
  exact copied.atDepth _

/-- The evaluations that are started are copies of each other. -/
def Timelines (copying : Copying) (machine machine' : Machine) (timeline timeline' : Timeline) :
    Prop :=
  List.Forall₂ copying.Moments (timeline machine) (timeline' machine')

namespace Timelines

variable {fuel : Nat} {task task' : Task} {action action' : Eval α} {next next' : α → Timeline}

theorem idle : copying.Timelines machine machine' idle idle :=
  .nil

theorem start (fuel : Nat) (copied : copying.Machines machine machine') (tasks : copying.Tasks task task') :
    copying.Timelines machine machine' (start fuel task) (start fuel task') :=
  .cons ⟨rfl, tasks, copied⟩ .nil

theorem after (agree : copying.Agree machine machine' action action')
    (nextCopied : ∀ value {middle middle'}, copying.Machines middle middle' →
      copying.Timelines middle middle' (next value) (next' value)) :
    copying.Timelines machine machine' (after action next) (after action' next') := by
  unfold Timelines
  refine Paired.cases agree ?_ ?_
  · rintro value middle value' middle' result result' ⟨rfl, later⟩
    rw [after_of_ok result, after_of_ok result']
    exact nextCopied value' later
  · intro cause final cause' final' result result' _
    rw [after_of_error result, after_of_error result']
    exact .nil

theorem startThen (copied : copying.Machines machine machine')
    (tasks : copying.Tasks task task') (agree : copying.Agree machine machine' action action')
    (nextCopied : ∀ value {middle middle'}, copying.Machines middle middle' →
      copying.Timelines middle middle' (next value) (next' value)) :
    copying.Timelines machine machine' (startThen fuel task action next)
      (startThen fuel task' action' next') :=
  .cons ⟨rfl, tasks, copied⟩ (after agree nextCopied)

/-- What is started may depend on the machine. -/
theorem get {starts starts' : Machine → Timeline}
    (copied : copying.Timelines machine machine' (starts machine) (starts' machine')) :
    copying.Timelines machine machine' (fun machine => starts machine machine)
      (fun machine => starts' machine machine) :=
  copied

end Timelines

variable {use : UseId → UseId} {line : Nat → Nat}

theorem timelines_evaluate (fuel : Nat) (expr : Expr)
    (copied : copying.Machines machine machine') (labels : copying.Labels use line expr.uses) :
    copying.Timelines machine machine' (expr.parts fuel) ((expr.relabel use line).parts fuel) := by
  have agree : copying.AgreeAt fuel := agreeAt fuel
  cases expr with
  | literal value =>
      rw [Expr.relabel]
      exact .idle
  | group inner =>
      rw [Expr.relabel]
      exact .start _ copied (.evaluate labels)
  | unary operator operand =>
      rw [Expr.relabel]
      exact .start _ copied (.evaluate labels)
  | binary left operator right =>
      rw [Expr.relabel]
      rw [Expr.uses] at labels
      refine .startThen copied (.evaluate labels.left) (agree.evaluate left copied labels.left) ?_
      intro value _ _ later
      exact .start _ later (.evaluate labels.right)
  | logical left operator right =>
      rw [Expr.relabel]
      rw [Expr.uses] at labels
      refine .startThen copied (.evaluate labels.left) (agree.evaluate left copied labels.left) ?_
      intro value _ _ later
      have decides : decidesLogical (operator.moved line) value = decidesLogical operator value :=
        rfl
      rw [decides]
      split
      · exact .idle
      · exact .start _ later (.evaluate labels.right)
  | var id name =>
      rw [Expr.relabel]
      exact .idle
  | assign id name value =>
      rw [Expr.relabel]
      rw [Expr.uses] at labels
      exact .start _ copied (.evaluate (labels.mono (List.subset_cons_self _ _)))
  | call callee closing arguments =>
      rw [Expr.relabel]
      rw [Expr.uses] at labels
      refine .startThen copied (.evaluate labels.left) (agree.evaluate callee copied labels.left) ?_
      intro value _ _ later
      refine .startThen later (.evaluateEach labels.right)
        (agree.evaluateEach arguments later labels.right) ?_
      intro values _ _ checked
      refine .after (Agree.checkCall checked value (labels.lines _) values.length) ?_
      intro _ _ _ later
      exact Timelines.start fuel later.deeper (.callValue value values (labels.lines closing))
  | get object name =>
      rw [Expr.relabel]
      exact .start _ copied (.evaluate labels)
  | set object name value =>
      rw [Expr.relabel]
      rw [Expr.uses] at labels
      refine .startThen copied (.evaluate labels.left) (agree.evaluate object copied labels.left) ?_
      intro target _ _ later
      cases target with
      | object ref => exact .start _ later (.evaluate labels.right)
      | _ => exact .idle
  | this id keyword =>
      rw [Expr.relabel]
      exact .idle
  | super id keyword method =>
      rw [Expr.relabel]
      exact .idle

theorem timelines_execute (fuel : Nat) (stmt : Stmt)
    (copied : copying.Machines machine machine') (labels : copying.Labels use line stmt.ids) :
    copying.Timelines machine machine' (stmt.parts fuel) ((stmt.relabel use line).parts fuel) := by
  have agree : copying.AgreeAt fuel := agreeAt fuel
  cases stmt with
  | expression value =>
      rw [Stmt.relabel]
      exact .start _ copied (.evaluate labels)
  | print value =>
      rw [Stmt.relabel]
      exact .start _ copied (.evaluate labels)
  | var name initializer =>
      rw [Stmt.relabel]
      cases initializer with
      | none => exact .idle
      | some value => exact .start _ copied (.evaluate labels)
  | block body =>
      rw [Stmt.relabel]
      rw [Stmt.parts, Stmt.parts]
      apply Timelines.get
      rw [copied.current]
      apply Timelines.after (Agree.openScope copied _ _)
      intro scope _ _ later
      exact Timelines.start fuel (later.enter scope) (.executeEach labels)
  | if_ condition thenBranch elseBranch =>
      rw [Stmt.relabel_if]
      rw [Stmt.ids_if] at labels
      have bothLabels := labels.left
      refine .startThen copied (.evaluate bothLabels.left)
        (agree.evaluate condition copied bothLabels.left) ?_
      intro value _ _ later
      split
      · exact .start _ later (.execute bothLabels.right)
      · cases elseBranch with
        | none => exact .idle
        | some elseBranch =>
            have elseLabels := labels.right
            rw [Option.toList_some, Stmt.idsEach] at elseLabels
            exact .start _ later (.execute elseLabels.left)
  | while_ condition body =>
      rw [Stmt.relabel]
      rw [Stmt.ids] at labels
      exact .start _ copied (.executeWhile labels.left labels.right)
  | function declaration =>
      rw [Stmt.relabel]
      exact .idle
  | return_ keyword value =>
      rw [Stmt.relabel]
      cases value with
      | none => exact .idle
      | some value => exact .start _ copied (.evaluate labels)
  | class_ name superclass methods =>
      rw [Stmt.relabel]
      rw [Stmt.ids] at labels
      cases superclass with
      | none => exact .idle
      | some superclass => exact .start _ copied (.evaluate labels.left)

theorem timelines_callValue (fuel : Nat) (callee : Value) (arguments : List Value)
    {closing closing' : Nat} (copied : copying.Machines machine machine')
    (lines : copying.Lines closing closing') :
    copying.Timelines machine machine' (callee.parts fuel arguments closing)
      (callee.parts fuel arguments closing') := by
  cases callee with
  | function ref =>
      exact Timelines.start fuel copied (.callFunction arguments (copied.heap.functions ref) lines)
  | classRef ref =>
      rw [Value.parts, Value.parts]
      apply Timelines.after (Agree.addObject copied ref)
      intro object middle middle' later
      apply Timelines.get
      have found := later.heap.findMethod ref "init"
      generalize middle.heap.findMethod? ref "init" = method at found ⊢
      generalize middle'.heap.findMethod? ref "init" = method' at found ⊢
      cases found with
      | none => exact .idle
      | some closures =>
          rcases later.heap.bind closures (.object object) with ⟨heaps, bound⟩
          exact Timelines.start fuel (later.withHeap heaps) (.callFunction arguments bound lines)
  | _ => exact .idle

theorem Declarations.bodies {declaration declaration' : FunctionDecl}
    (copied : copying.Declarations declaration declaration') :
    copying.Tasks (.executeEach declaration.body) (.executeEach declaration'.body) := by
  cases copied with
  | empty nothing =>
      rw [nothing]
      exact .nothing
  | relabelled labels =>
      rcases declaration with ⟨name, params, body⟩
      rw [Stmt.relabelFunction]
      exact .executeEach labels

theorem timelines_callFunction (fuel : Nat) {closure closure' : Closure} (arguments : List Value)
    {closing closing' : Nat} (copied : copying.Machines machine machine')
    (closures : copying.Closures closure closure') :
    copying.Timelines machine machine'
      ((Task.callFunction closure arguments closing).parts (fuel + 1))
      ((Task.callFunction closure' arguments closing').parts (fuel + 1)) := by
  rw [Task.parts, Task.parts, AgreeAt.parameterBindings_copied closures.declaration, closures.scope]
  refine .after (Agree.openScope copied _ _) ?_
  intro scope _ _ later
  exact Timelines.start fuel (later.enter scope) closures.declaration.bodies

theorem timelines_evaluateEach (fuel : Nat) (exprs : List Expr)
    (copied : copying.Machines machine machine')
    (labels : copying.Labels use line (Expr.usesEach exprs)) :
    copying.Timelines machine machine' ((Task.evaluateEach exprs).parts (fuel + 1))
      ((Task.evaluateEach (Expr.relabelEach use line exprs)).parts (fuel + 1)) := by
  cases exprs with
  | nil =>
      rw [Expr.relabelEach]
      exact .idle
  | cons first rest =>
      rw [Expr.relabelEach]
      rw [Expr.usesEach] at labels
      refine .startThen copied (.evaluate labels.left)
        ((agreeAt fuel).evaluate first copied labels.left) ?_
      intro value _ _ later
      exact .start _ later (.evaluateEach labels.right)

theorem timelines_executeEach (fuel : Nat) (stmts : List Stmt)
    (copied : copying.Machines machine machine')
    (labels : copying.Labels use line (Stmt.idsEach stmts)) :
    copying.Timelines machine machine' ((Task.executeEach stmts).parts (fuel + 1))
      ((Task.executeEach (Stmt.relabelEach use line stmts)).parts (fuel + 1)) := by
  cases stmts with
  | nil =>
      rw [Stmt.relabelEach]
      exact .idle
  | cons first rest =>
      rw [Stmt.relabelEach]
      rw [Stmt.idsEach] at labels
      refine .startThen copied (.execute labels.left)
        ((agreeAt fuel).execute first copied labels.left) ?_
      intro flow _ _ later
      cases flow with
      | returned value => exact .idle
      | normal => exact .start _ later (.executeEach labels.right)

theorem timelines_executeWhile (fuel : Nat) (condition : Expr) (body : Stmt)
    (copied : copying.Machines machine machine')
    (labels : copying.Labels use line condition.uses)
    (bodyLabels : copying.Labels use line body.ids) :
    copying.Timelines machine machine' ((Task.executeWhile condition body).parts (fuel + 1))
      ((Task.executeWhile (condition.relabel use line) (body.relabel use line)).parts
        (fuel + 1)) := by
  refine .startThen copied (.evaluate labels)
    ((agreeAt fuel).evaluate condition copied labels) ?_
  intro value _ _ later
  split
  · refine .startThen later (.execute bodyLabels)
      ((agreeAt fuel).execute body later bodyLabels) ?_
    intro flow _ _ again
    cases flow with
    | returned value => exact .idle
    | normal => exact .start _ again (.executeWhile labels bodyLabels)
  · exact .idle

theorem timelines_executeProgram (fuel : Nat) (program : List Stmt)
    (copied : copying.Machines machine machine')
    (labels : copying.Labels use line (Stmt.idsEach program)) :
    copying.Timelines machine machine' ((Task.executeProgram program).parts fuel)
      ((Task.executeProgram (Stmt.relabelEach use line program)).parts fuel) := by
  cases program with
  | nil =>
      rw [Stmt.relabelEach, Task.parts]
      exact .idle
  | cons first rest =>
      rw [Stmt.relabelEach, Task.parts, Task.parts]
      rw [Stmt.idsEach] at labels
      refine .startThen copied (.execute labels.left)
        ((agreeAt fuel).execute first copied labels.left) ?_
      intro _ _ _ later
      exact .start _ later (.executeProgram labels.right)

/-- An evaluation and its copy start copies of the same evaluations. -/
theorem Moments.parts {moment moment' : Moment} (copied : copying.Moments moment moment') :
    List.Forall₂ copying.Moments moment.parts moment'.parts := by
  rcases moment with ⟨fuel, task, machine⟩
  rcases moment' with ⟨fuel', task', machine'⟩
  rcases copied with ⟨rfl, tasks, machines⟩
  cases tasks with
  | executeProgram labels => exact timelines_executeProgram _ _ machines labels
  | evaluate labels =>
      cases fuel' with
      | zero => exact .nil
      | succ fuel => exact timelines_evaluate fuel _ machines labels
  | evaluateEach labels =>
      cases fuel' with
      | zero => exact .nil
      | succ fuel => exact timelines_evaluateEach fuel _ machines labels
  | callValue callee arguments lines =>
      cases fuel' with
      | zero => exact .nil
      | succ fuel => exact timelines_callValue fuel callee arguments machines lines
  | callFunction arguments closures lines =>
      cases fuel' with
      | zero => exact .nil
      | succ fuel => exact timelines_callFunction fuel arguments machines closures
  | execute labels =>
      cases fuel' with
      | zero => exact .nil
      | succ fuel => exact timelines_execute fuel _ machines labels
  | nothing =>
      cases fuel' with
      | zero => exact .nil
      | succ fuel => exact .nil
  | executeEach labels =>
      cases fuel' with
      | zero => exact .nil
      | succ fuel => exact timelines_executeEach fuel _ machines labels
  | executeWhile labels bodyLabels =>
      cases fuel' with
      | zero => exact .nil
      | succ fuel => exact timelines_executeWhile fuel _ _ machines labels bodyLabels

/-! ## Copies of runs -/

theorem Moments.exists_part {moment moment' part : Moment}
    (copied : copying.Moments moment moment') (isPart : part ∈ moment.parts) :
    ∃ part' ∈ moment'.parts, copying.Moments part part' := by
  rcases List.getElem_of_mem isPart with ⟨index, bound, rfl⟩
  have bound' : index < moment'.parts.length := copied.parts.length_eq ▸ bound
  exact ⟨_, List.getElem_mem bound', copied.parts.get bound bound'⟩

theorem Moments.exists_original {moment moment' part' : Moment}
    (copied : copying.Moments moment moment') (isPart : part' ∈ moment'.parts) :
    ∃ part ∈ moment.parts, copying.Moments part part' := by
  rcases List.getElem_of_mem isPart with ⟨index, bound', rfl⟩
  have bound : index < moment.parts.length := copied.parts.length_eq ▸ bound'
  exact ⟨_, List.getElem_mem bound, copied.parts.get bound bound'⟩

/-- Whatever a run reaches, its copy reaches a copy of it. -/
theorem Moments.exists_reached {start start' moment : Moment}
    (copied : copying.Moments start start') (reaches : Reaches start moment) :
    ∃ moment', Reaches start' moment' ∧ copying.Moments moment moment' := by
  induction reaches with
  | refl => exact ⟨start', .refl, copied⟩
  | tail _ calls inductionHypothesis =>
      rcases inductionHypothesis with ⟨middle', reaches, copiedMiddle⟩
      rcases copiedMiddle.exists_part calls.mem_parts with ⟨moment', isPart, copiedMoment⟩
      exact ⟨moment', reaches.tail (Moment.mem_parts_iff.mp isPart), copiedMoment⟩

/-- Where an evaluation fails by itself, so does its copy. -/
theorem Moments.exists_failsItself {moment moment' : Moment} {error : RuntimeError}
    (copied : copying.Moments moment moment') (itself : moment.FailsItself error) :
    ∃ error', moment'.FailsItself error' ∧ copying.Errors error error' := by
  rcases Table.eq_some_of_rel copied.failures itself.failed with ⟨error', failed, errors⟩
  refine ⟨error', ⟨failed, ?_⟩, errors⟩
  intro part' isPart
  rcases copied.exists_original isPart with ⟨part, isOriginal, copiedPart⟩
  exact Table.eq_none_of_rel copiedPart.failures (itself.alone part isOriginal)

end Copying

end Lox
