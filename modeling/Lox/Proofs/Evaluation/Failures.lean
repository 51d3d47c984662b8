import Lox.Proofs.Evaluation.Stepwise

/-!
# Where a run fails

A runtime error is passed on by all evaluations in progress, but one of them fails by
itself: none of those that it has started fails.  The error is then on the line of a
token of that evaluation's own node.
-/

namespace Lox

open Actions Eval Timeline

/-- The runtime error behind an interrupt. -/
def Interrupt.runtimeError? : Interrupt → Option RuntimeError
  | .runtime error => some error
  | _ => none

/-- The runtime error with which an action ends. -/
def Eval.runtimeError? {α : Type} : EStateM.Result Interrupt Machine α → Option RuntimeError
  | .ok _ _ => none
  | .error cause _ => cause.runtimeError?

/-! ## Nodes and their tokens -/

/-- The lines of the tokens that a node keeps itself, and not in the nodes below it. -/
def Expr.ownLines : Expr → List Nat
  | .literal _ => []
  | .group _ => []
  | .unary operator _ => [operator.line]
  | .binary _ operator _ => [operator.line]
  | .logical _ operator _ => [operator.line]
  | .var _ name => [name.line]
  | .assign _ name _ => [name.line]
  | .call _ line _ => [line]
  | .get _ name => [name.line]
  | .set _ name _ => [name.line]
  | .this _ line => [line]
  | .super _ line method => [line, method.line]

/-- The lines of the tokens that a statement keeps itself.  The name of a superclass
belongs to the class. -/
def Stmt.ownLines : Stmt → List Nat
  | .var name _ => [name.line]
  | .function declaration => [declaration.name.line]
  | .return_ line _ => [line]
  | .class_ name superclass _ => name.line :: (superclass.map (superclassLine name)).toList
  | _ => []

/-- The lines of the tokens of what an evaluation is about: of its node, or of the call
that is made. -/
def Task.lines : Task → List Nat
  | .evaluate expr => expr.ownLines
  | .callValue _ _ line => [line]
  | .callFunction _ _ line => [line]
  | .execute stmt => stmt.ownLines
  | _ => []

namespace Moment

/-- The runtime error with which the evaluation ends that starts at the moment. -/
def failure? : Moment → Option RuntimeError
  | ⟨fuel, .evaluate expr, machine⟩ => runtimeError? (evaluate fuel expr machine)
  | ⟨fuel, .evaluateEach exprs, machine⟩ => runtimeError? (evaluateEach fuel exprs machine)
  | ⟨fuel, .callValue callee arguments line, machine⟩ =>
      runtimeError? (callValue fuel callee arguments line machine)
  | ⟨fuel, .callFunction closure arguments line, machine⟩ =>
      runtimeError? (callFunction fuel closure arguments line machine)
  | ⟨fuel, .execute stmt, machine⟩ => runtimeError? (execute fuel stmt machine)
  | ⟨fuel, .executeEach stmts, machine⟩ => runtimeError? (executeEach fuel stmts machine)
  | ⟨fuel, .executeWhile condition body, machine⟩ =>
      runtimeError? (executeWhile fuel condition body machine)
  | ⟨fuel, .executeProgram program, machine⟩ =>
      runtimeError? (executeProgram fuel program machine)

/-- The evaluation fails by itself: it fails, and none of those that it starts does. -/
structure FailsItself (moment : Moment) (error : RuntimeError) : Prop where
  failed : moment.failure? = some error
  alone : ∀ part ∈ moment.parts, part.failure? = none

end Moment

/-! ## Single steps -/

/-- A runtime error of the action is on one of these lines. -/
def FailsOn (lines : List Nat) {α : Type} (action : Eval α) : Prop :=
  ∀ machine error, runtimeError? (action machine) = some error → error.line ∈ lines

namespace FailsOn

variable {lines : List Nat} {α β : Type}

theorem pure (value : α) : FailsOn lines (pure value : Eval α) :=
  nofun

theorem onHeap (action : Heap → Heap × α) : FailsOn lines (onHeap action) :=
  nofun

theorem define (name : String) (value : Value) : FailsOn lines (define name value) :=
  nofun

theorem fail {line : Nat} (member : line ∈ lines) (fault : RuntimeFault) :
    FailsOn lines (fail line fault : Eval α) := by
  intro machine error failed
  cases failed
  exact member

theorem bind {first : Eval α} {next : α → Eval β} (firstFails : FailsOn lines first)
    (nextFails : ∀ value, FailsOn lines (next value)) : FailsOn lines (first >>= next) := by
  intro machine error failed
  cases result : first machine with
  | ok value middle =>
      rw [bind_of_ok result] at failed
      exact nextFails value middle error failed
  | error cause middle =>
      rw [bind_of_error result] at failed
      apply firstFails machine error
      rw [result]
      exact failed

theorem get {next : Machine → Eval α} (nextFails : ∀ machine, FailsOn lines (next machine)) :
    FailsOn lines (get >>= next) :=
  fun machine => nextFails machine machine

theorem openScope (bindings : Bindings) (parent : Option ScopeRef) :
    FailsOn lines (openScope bindings parent) :=
  onHeap _

theorem readVariable (id : UseId) {name : Name} (member : name.line ∈ lines) :
    FailsOn lines (readVariable id name) := by
  intro machine error failed
  unfold Eval.readVariable at failed
  dsimp only at failed
  split at failed
  · cases failed
  · exact fail member _ machine error failed

theorem writeVariable (id : UseId) {name : Name} (member : name.line ∈ lines) (value : Value) :
    FailsOn lines (writeVariable id name value) := by
  apply get
  intro machine
  split
  · exact onHeap _
  · exact fail member _

theorem newFunction (closure : Closure) : FailsOn lines (newFunction closure) :=
  (onHeap _).bind fun _ => pure _

theorem bindMethod (method : Closure) (this : Value) : FailsOn lines (bindMethod method this) :=
  (onHeap _).bind fun _ => newFunction _

theorem getProperty (ref : ObjectRef) {name : Name} (member : name.line ∈ lines) :
    FailsOn lines (getProperty ref name) := by
  apply get
  intro machine
  dsimp only
  split
  · exact pure _
  · split
    · exact bindMethod _ _
    · exact fail member _

theorem getSuper (id : UseId) {line : Nat} {method : Name} (member : line ∈ lines)
    (methodMember : method.line ∈ lines) : FailsOn lines (getSuper id line method) := by
  apply get
  intro machine
  split
  · split
    · exact bindMethod _ _
    · exact fail methodMember _
  · exact fail member _

theorem callNative (native : Native) (arguments : List Value) {line : Nat}
    (member : line ∈ lines) : FailsOn lines (callNative native arguments line) := by
  unfold Eval.callNative
  split
  · exact nofun
  · split
    · exact pure _
    · exact fail member _

theorem ofResult {line : Nat} (member : line ∈ lines) (result : Except RuntimeFault Value) :
    FailsOn lines (ofResult line result) := by
  cases result with
  | ok value => exact pure value
  | error fault => exact fail member fault

theorem declareFunction (declaration : FunctionDecl) :
    FailsOn lines (declareFunction declaration) := by
  apply get
  intro machine
  exact (newFunction _).bind fun _ => define _ _

theorem methodScope (superclass : Option ClassRef) : FailsOn lines (methodScope superclass) := by
  apply get
  intro machine
  cases superclass with
  | none => exact pure _
  | some ref => exact openScope _ _

theorem declareClass (name : Name) (superclass : Option ClassRef)
    (declarations : List FunctionDecl) :
    FailsOn lines (declareClass name superclass declarations) := by
  apply (define _ _).bind
  intro _
  apply (methodScope superclass).bind
  intro scope
  exact (onHeap _).bind fun _ => define _ _

theorem expectClass {line : Nat} (member : line ∈ lines) (value : Value) :
    FailsOn lines (expectClass line value) := by
  unfold Eval.expectClass
  split
  · exact pure _
  · exact fail member _

theorem callResult (closure : Closure) {line : Nat} (member : line ∈ lines) (flow : Flow) :
    FailsOn lines (callResult closure line flow) := by
  unfold Eval.callResult
  split
  · apply get
    intro machine
    split
    · exact pure _
    · exact fail member _
  · cases flow with
    | normal => exact pure _
    | returned value => exact pure _

theorem checkCall (callee : Value) {line : Nat} (member : line ∈ lines) (count : Nat) :
    FailsOn lines (checkCall callee line count) := by
  apply get
  intro machine
  split
  · exact fail member _
  · have depth : FailsOn lines (Eval.checkDepth line) := by
      apply get
      intro machine
      split
      · exact fail member _
      · exact pure _
    split
    · exact (fail member _).bind fun _ => depth
    · exact depth

theorem writeLine (text : String) : FailsOn lines (writeLine text) := by
  intro machine error failed
  unfold Eval.writeLine at failed
  dsimp only at failed
  split at failed <;> cases failed

theorem flush : FailsOn lines flush := by
  apply get
  intro machine
  split
  · exact nofun
  · exact pure _

end FailsOn

/-! ## Evaluations -/

/-- The action ends with the runtime error of any evaluation that it starts, and its other
runtime errors are on these lines. -/
structure PassesOn (lines : List Nat) (timeline : Timeline) {α : Type} (action : Eval α) :
    Prop where
  passed : ∀ {machine part error}, part ∈ timeline machine → part.failure? = some error →
    runtimeError? (action machine) = some error
  own : ∀ {machine error}, runtimeError? (action machine) = some error →
    (∃ part ∈ timeline machine, part.failure? = some error) ∨ error.line ∈ lines

namespace PassesOn

variable {lines : List Nat} {timeline : Timeline} {fuel : Nat} {task : Task} {α β : Type}
  {action : Eval α}

theorem step (fails : FailsOn lines action) : PassesOn lines idle action where
  passed member _ := nomatch member
  own failed := .inr (fails _ _ failed)

theorem start (same : ∀ machine, Moment.failure? ⟨fuel, task, machine⟩ =
    runtimeError? (action machine)) : PassesOn lines (start fuel task) action where
  passed {machine part error} member failed := by
    obtain rfl := mem_start.mp member
    rw [← same]
    exact failed
  own {machine error} failed :=
    .inl ⟨_, mem_start.mpr rfl, (same machine).trans failed⟩

theorem bind {next : α → Timeline} {continue_ : α → Eval β}
    (first : PassesOn lines timeline action)
    (rest : ∀ value, PassesOn lines (next value) (continue_ value)) :
    PassesOn lines (fun machine => timeline machine ++ after action next machine)
      (action >>= continue_) where
  passed {machine part error} member failed := by
    rcases List.mem_append.mp member with inFirst | inRest
    · have ended := first.passed inFirst failed
      cases result : action machine with
      | ok value middle =>
          rw [result] at ended
          cases ended
      | error cause middle =>
          rw [result] at ended
          rw [bind_of_error result]
          exact ended
    · rcases mem_after.mp inRest with ⟨value, middle, result, later⟩
      rw [bind_of_ok result]
      exact (rest value).passed later failed
  own {machine error} failed := by
    cases result : action machine with
    | ok value middle =>
        rw [bind_of_ok result] at failed
        rcases (rest value).own failed with ⟨part, member, partFailed⟩ | onLine
        · refine .inl ⟨part, List.mem_append_right _ ?_, partFailed⟩
          rw [after_of_ok result]
          exact member
        · exact .inr onLine
    | error cause middle =>
        rw [bind_of_error result] at failed
        have ended : runtimeError? (action machine) = some error := by
          rw [result]
          exact failed
        rcases first.own ended with ⟨part, member, partFailed⟩ | onLine
        · exact .inl ⟨part, List.mem_append_left _ member, partFailed⟩
        · exact .inr onLine

theorem startThen {next : α → Timeline} {continue_ : α → Eval β}
    (same : ∀ machine, Moment.failure? ⟨fuel, task, machine⟩ = runtimeError? (action machine))
    (rest : ∀ value, PassesOn lines (next value) (continue_ value)) :
    PassesOn lines (startThen fuel task action next) (action >>= continue_) :=
  (PassesOn.start same).bind rest

theorem andThen {continue_ : α → Eval β} (first : PassesOn lines timeline action)
    (rest : ∀ value, FailsOn lines (continue_ value)) :
    PassesOn lines timeline (action >>= continue_) := by
  have both := first.bind fun value => step (rest value)
  rw [Stepwise.append_idle] at both
  exact both

theorem after {next : α → Timeline} {continue_ : α → Eval β} (first : FailsOn lines action)
    (rest : ∀ value, PassesOn lines (next value) (continue_ value)) :
    PassesOn lines (after action next) (action >>= continue_) :=
  (step first).bind rest

theorem get (starts : Machine → Timeline) {next : Machine → Eval α}
    (passesOn : ∀ machine, PassesOn lines (starts machine) (next machine)) :
    PassesOn lines (fun machine => starts machine machine) (get >>= next) where
  passed := (passesOn _).passed
  own := (passesOn _).own

theorem within (passesOn : PassesOn lines timeline action) (scope : ScopeRef) :
    PassesOn lines (fun machine => timeline { machine with current := scope })
      (within scope action) := by
  have same : ∀ machine, runtimeError? (Eval.within scope action machine) =
      runtimeError? (action { machine with current := scope }) := by
    intro machine
    unfold Eval.within
    cases action { machine with current := scope } <;> rfl
  constructor
  · intro machine part error member failed
    exact (same machine).trans (passesOn.passed member failed)
  · intro machine error failed
    exact passesOn.own ((same machine).symm.trans failed)

theorem counted (passesOn : PassesOn lines timeline action) :
    PassesOn lines (fun machine => timeline { machine with callDepth := machine.callDepth + 1 })
      (counted action) := by
  have same : ∀ machine, runtimeError? (Eval.counted action machine) =
      runtimeError? (action { machine with callDepth := machine.callDepth + 1 }) := by
    intro machine
    unfold Eval.counted
    cases action { machine with callDepth := machine.callDepth + 1 } <;> rfl
  constructor
  · intro machine part error member failed
    exact (same machine).trans (passesOn.passed member failed)
  · intro machine error failed
    exact passesOn.own ((same machine).symm.trans failed)

end PassesOn

open PassesOn

theorem passesOn_evaluate (fuel : Nat) (expr : Expr) :
    PassesOn (Task.evaluate expr).lines ((Task.evaluate expr).parts (fuel + 1))
      (evaluate (fuel + 1) expr) := by
  cases expr with
  | literal value => exact .step (.pure _)
  | group inner => exact .start fun _ => rfl
  | unary operator operand =>
      exact (PassesOn.start fun _ => rfl).andThen fun _ => .ofResult List.mem_cons_self _
  | binary left operator right =>
      apply PassesOn.startThen fun _ => rfl
      intro value
      exact (PassesOn.start fun _ => rfl).andThen fun _ => .ofResult List.mem_cons_self _
  | logical left operator right =>
      apply PassesOn.startThen fun _ => rfl
      intro value
      split
      · exact .step (.pure _)
      · exact .start fun _ => rfl
  | var id name => exact .step (.readVariable id List.mem_cons_self)
  | assign id name value =>
      apply (PassesOn.start fun _ => rfl).andThen
      intro assigned
      exact (FailsOn.writeVariable id List.mem_cons_self assigned).bind fun _ => .pure _
  | call callee line arguments =>
      apply PassesOn.startThen fun _ => rfl
      intro value
      apply PassesOn.startThen fun _ => rfl
      intro values
      apply PassesOn.after (.checkCall value List.mem_cons_self values.length)
      intro _
      exact PassesOn.counted (.start fun _ => rfl)
  | get object name =>
      apply (PassesOn.start fun _ => rfl).andThen
      intro found
      split
      · exact .getProperty _ List.mem_cons_self
      · exact .fail List.mem_cons_self _
  | set object name value =>
      apply PassesOn.startThen fun _ => rfl
      intro found
      cases found with
      | object ref =>
          apply (PassesOn.start fun _ => rfl).andThen
          intro assigned
          exact (FailsOn.onHeap _).bind fun _ => .pure _
      | _ => exact .step (.fail List.mem_cons_self _)
  | this id line => exact .step (.readVariable id List.mem_cons_self)
  | super id line method =>
      exact .step (.getSuper id List.mem_cons_self (List.mem_cons_of_mem _ List.mem_cons_self))

theorem passesOn_execute (fuel : Nat) (stmt : Stmt) :
    PassesOn (Task.execute stmt).lines ((Task.execute stmt).parts (fuel + 1))
      (execute (fuel + 1) stmt) := by
  cases stmt with
  | expression value => exact (PassesOn.start fun _ => rfl).andThen fun _ => .pure _
  | print value =>
      apply (PassesOn.start fun _ => rfl).andThen
      intro printed
      apply FailsOn.get
      intro machine
      exact (FailsOn.writeLine _).bind fun _ => .pure _
  | var name initializer =>
      cases initializer with
      | none => exact .step ((FailsOn.define _ _).bind fun _ => .pure _)
      | some value =>
          apply (PassesOn.start fun _ => rfl).andThen
          intro result
          exact (FailsOn.define _ _).bind fun _ => .pure _
  | block body =>
      rw [Task.parts, Stmt.parts, execute]
      apply PassesOn.get (fun machine =>
        Timeline.after (openScope ∅ (some machine.current)) fun scope middle =>
          Timeline.start fuel (.executeEach body) { middle with current := scope })
      intro machine
      apply PassesOn.after (.openScope _ _)
      intro scope
      exact PassesOn.within (.start fun _ => rfl) scope
  | if_ condition thenBranch elseBranch =>
      apply PassesOn.startThen fun _ => rfl
      intro value
      split
      · exact .start fun _ => rfl
      · cases elseBranch with
        | none => exact .step (.pure _)
        | some elseBranch => exact .start fun _ => rfl
  | while_ condition body => exact .start fun _ => rfl
  | function declaration => exact .step ((FailsOn.declareFunction _).bind fun _ => .pure _)
  | return_ line value =>
      cases value with
      | none => exact .step (.pure _)
      | some value => exact (PassesOn.start fun _ => rfl).andThen fun _ => .pure _
  | class_ name superclass methods =>
      cases superclass with
      | none => exact .step ((FailsOn.declareClass _ _ _).bind fun _ => .pure _)
      | some superclass =>
          apply (PassesOn.start fun _ => rfl).andThen
          intro value
          have member : superclassLine name superclass ∈
              (Stmt.class_ name (some superclass) methods).ownLines :=
            List.mem_cons_of_mem _ List.mem_cons_self
          apply (FailsOn.expectClass member value).bind
          intro parent
          exact (FailsOn.declareClass _ _ _).bind fun _ => .pure _

theorem passesOn_callValue (fuel : Nat) (callee : Value) (arguments : List Value) (line : Nat) :
    PassesOn (Task.callValue callee arguments line).lines
      ((Task.callValue callee arguments line).parts (fuel + 1))
      (callValue (fuel + 1) callee arguments line) := by
  cases callee with
  | native ref =>
      apply PassesOn.step
      apply FailsOn.get
      intro machine
      exact .callNative _ _ List.mem_cons_self
  | function ref =>
      apply PassesOn.get (fun machine =>
        Timeline.start fuel (.callFunction (machine.heap.function ref) arguments line))
      intro machine
      exact .start fun _ => rfl
  | classRef ref =>
      rw [Task.parts, Value.parts, callValue]
      apply PassesOn.after (.onHeap _)
      intro object
      apply PassesOn.get (fun machine => initializerParts fuel arguments line object
        (machine.heap.findMethod? ref "init"))
      intro machine
      cases machine.heap.findMethod? ref "init" with
      | none => exact .step (.pure _)
      | some initializer =>
          rw [initializerParts]
          apply PassesOn.after (.onHeap _)
          intro bound
          exact (PassesOn.start fun _ => rfl).andThen fun _ => .pure _
  | _ => exact .step (.fail List.mem_cons_self _)

theorem passesOn_callFunction (fuel : Nat) (closure : Closure) (arguments : List Value)
    (line : Nat) :
    PassesOn (Task.callFunction closure arguments line).lines
      ((Task.callFunction closure arguments line).parts (fuel + 1))
      (callFunction (fuel + 1) closure arguments line) := by
  rw [Task.parts, callFunction]
  apply PassesOn.after (.openScope _ _)
  intro scope
  apply (PassesOn.within (.start fun _ => rfl) scope).andThen
  intro flow
  exact .callResult _ List.mem_cons_self _

theorem passesOn_evaluateEach (fuel : Nat) (exprs : List Expr) :
    PassesOn (Task.evaluateEach exprs).lines ((Task.evaluateEach exprs).parts (fuel + 1))
      (evaluateEach (fuel + 1) exprs) := by
  cases exprs with
  | nil => exact .step (.pure _)
  | cons first rest =>
      apply PassesOn.startThen fun _ => rfl
      intro value
      exact (PassesOn.start fun _ => rfl).andThen fun _ => .pure _

theorem passesOn_executeEach (fuel : Nat) (stmts : List Stmt) :
    PassesOn (Task.executeEach stmts).lines ((Task.executeEach stmts).parts (fuel + 1))
      (executeEach (fuel + 1) stmts) := by
  cases stmts with
  | nil => exact .step (.pure _)
  | cons first rest =>
      apply PassesOn.startThen fun _ => rfl
      intro flow
      cases flow with
      | returned value => exact .step (.pure _)
      | normal => exact .start fun _ => rfl

theorem passesOn_executeWhile (fuel : Nat) (condition : Expr) (body : Stmt) :
    PassesOn (Task.executeWhile condition body).lines
      ((Task.executeWhile condition body).parts (fuel + 1))
      (executeWhile (fuel + 1) condition body) := by
  apply PassesOn.startThen fun _ => rfl
  intro value
  split
  · apply PassesOn.startThen fun _ => rfl
    intro flow
    cases flow with
    | returned value => exact .step (.pure _)
    | normal => exact .start fun _ => rfl
  · exact .step (.pure _)

theorem passesOn_executeProgram (fuel : Nat) (program : List Stmt) :
    PassesOn (Task.executeProgram program).lines ((Task.executeProgram program).parts fuel)
      (executeProgram fuel program) := by
  cases program with
  | nil =>
      rw [Task.parts]
      exact .step .flush
  | cons first rest =>
      rw [Task.parts]
      apply PassesOn.startThen fun _ => rfl
      intro flow
      exact .start fun _ => rfl

/-! ## Runs -/

/-- An evaluation that fails passes on the error of one that it starts, or it fails by
itself. -/
theorem PassesOn.cases {task : Task} {fuel : Nat} {machine : Machine} {error : RuntimeError}
    {α : Type} {action : Eval α} (passesOn : PassesOn task.lines (task.parts fuel) action)
    (same : Moment.failure? ⟨fuel, task, machine⟩ = runtimeError? (action machine))
    (failed : Moment.failure? ⟨fuel, task, machine⟩ = some error) :
    (∃ part ∈ task.parts fuel machine, part.failure? = some error) ∨
      (Moment.FailsItself ⟨fuel, task, machine⟩ error ∧ error.line ∈ task.lines) := by
  by_cases fails : ∃ part ∈ task.parts fuel machine, part.failure? = some error
  · exact .inl fails
  · have ended : runtimeError? (action machine) = some error := same.symm.trans failed
    refine .inr ⟨⟨failed, ?_⟩, (passesOn.own ended).resolve_left fails⟩
    intro part member
    cases partFailed : part.failure? with
    | none => rfl
    | some other =>
        have passed := passesOn.passed member partFailed
        rw [ended] at passed
        cases passed
        exact absurd ⟨part, member, partFailed⟩ fails

theorem Moment.failure_cases {moment : Moment} {error : RuntimeError}
    (failed : moment.failure? = some error) :
    (∃ part ∈ moment.parts, part.failure? = some error) ∨
      (moment.FailsItself error ∧ error.line ∈ moment.task.lines) := by
  rcases moment with ⟨fuel, task, machine⟩
  cases task with
  | executeProgram program => exact (passesOn_executeProgram fuel program).cases rfl failed
  | evaluate expr =>
      cases fuel with
      | zero => cases failed
      | succ fuel => exact (passesOn_evaluate fuel expr).cases rfl failed
  | evaluateEach exprs =>
      cases fuel with
      | zero => cases failed
      | succ fuel => exact (passesOn_evaluateEach fuel exprs).cases rfl failed
  | callValue callee arguments line =>
      cases fuel with
      | zero => cases failed
      | succ fuel => exact (passesOn_callValue fuel callee arguments line).cases rfl failed
  | callFunction closure arguments line =>
      cases fuel with
      | zero => cases failed
      | succ fuel => exact (passesOn_callFunction fuel closure arguments line).cases rfl failed
  | execute stmt =>
      cases fuel with
      | zero => cases failed
      | succ fuel => exact (passesOn_execute fuel stmt).cases rfl failed
  | executeEach stmts =>
      cases fuel with
      | zero => cases failed
      | succ fuel => exact (passesOn_executeEach fuel stmts).cases rfl failed
  | executeWhile condition body =>
      cases fuel with
      | zero => cases failed
      | succ fuel => exact (passesOn_executeWhile fuel condition body).cases rfl failed

/-- What fails by itself does so on the line of a token of its own. -/
theorem Moment.FailsItself.own {moment : Moment} {error : RuntimeError}
    (itself : moment.FailsItself error) : error.line ∈ moment.task.lines := by
  rcases failure_cases itself.failed with ⟨part, isPart, partFailed⟩ | ⟨-, own⟩
  · rw [itself.alone part isPart] at partFailed
    cases partFailed
  · exact own

/-- Of a run that fails, one evaluation fails by itself. -/
theorem Moment.exists_failsItself {start : Moment} {error : RuntimeError}
    (failed : start.failure? = some error) :
    ∃ moment, Reaches start moment ∧ moment.FailsItself error := by
  rcases failure_cases failed with ⟨part, isPart, partFailed⟩ | ⟨itself, -⟩
  · rcases exists_failsItself partFailed with ⟨moment, reaches, itself⟩
    exact ⟨moment, .head (mem_parts_iff.mp isPart) reaches, itself⟩
  · exact ⟨start, .refl, itself⟩
termination_by (start.fuel, start.remaining)
decreasing_by exact rank_lt_of_mem_parts isPart

end Lox
