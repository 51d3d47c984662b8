import Lox.Proofs.Evaluation.Chronology

/-!
# Evaluations step by step

Between the evaluations that it starts, an evaluation takes single steps.  Most of them
neither touch the fields of objects nor look at the sink or at the limit of calls.  What
such quiet steps keep, and what calls, field assignments, prints and class declarations keep,
is kept by every evaluation: `Stepwise` collects what has to be shown for one step each, and
the induction over the fuel is done here once.
-/

namespace Lox

open Actions Eval Timeline

/-- The machine with another limit of calls and another sink. -/
def Machine.refit (machine : Machine) (limit : Option Nat) (sink : Sink) : Machine :=
  { machine with callLimit := limit, sink }

/-! ## Quiet steps -/

/-- The action changes scopes, adds functions or objects, reads the clock, or adds classes if
that is allowed, and nothing it does depends on the sink or the limit of calls. -/
inductive Quiet (declares : Bool) : {α : Type} → Eval α → Prop where
  | pure {α : Type} (value : α) : Quiet declares (pure value : Eval α)
  | throw {α : Type} (cause : Interrupt) : Quiet declares (throw cause : Eval α)
  | bind {α β : Type} {first : Eval α} {next : α → Eval β} :
      Quiet declares first → (∀ value, Quiet declares (next value)) →
      Quiet declares (first >>= next)
  | get {α : Type} {next : Machine → Eval α} :
      (∀ machine limit sink, next (machine.refit limit sink) = next machine) →
      (∀ machine, Quiet declares (next machine)) → Quiet declares (get >>= next)
  | define (name : String) (value : Value) : Quiet declares (define name value)
  | defineIn (scope : ScopeRef) (name : String) (value : Value) :
      Quiet declares (onHeap fun heap => (heap.define scope name value, ()))
  | openScope (bindings : Bindings) (parent : Option ScopeRef) :
      Quiet declares (openScope bindings parent)
  | readVariable (id : UseId) (name : Name) : Quiet declares (readVariable id name)
  | addFunction (closure : Closure) : Quiet declares (onHeap fun heap => heap.addFunction closure)
  | addClass (allowed : declares = true) (info : ClassInfo) :
      Quiet declares (onHeap fun heap => heap.addClass info)
  | addObject (ref : ClassRef) : Quiet declares (onHeap fun heap => heap.addObject ref)
  | bindScope (method : Closure) (this : Value) :
      Quiet declares (onHeap fun heap => heap.bind method this)
  | readClock : Quiet declares (fun machine =>
      .ok (.number (machine.clock.reading machine.clock.taken))
        { machine with clock := { machine.clock with taken := machine.clock.taken + 1 } } :
      Eval Value)

namespace Quiet

variable {declares : Bool} {α β : Type}

theorem fail (line : Nat) (fault : RuntimeFault) : Quiet declares (fail line fault : Eval α) :=
  throw _

theorem writeVariable (id : UseId) (name : Name) (value : Value) :
    Quiet declares (writeVariable id name value) := by
  apply get fun _ _ _ => rfl
  intro machine
  split
  · exact defineIn _ _ _
  · exact fail _ _

theorem newFunction (closure : Closure) : Quiet declares (newFunction closure) :=
  (addFunction closure).bind fun _ => pure _

theorem bindMethod (method : Closure) (this : Value) : Quiet declares (bindMethod method this) :=
  (bindScope method this).bind fun _ => newFunction _

theorem getProperty (ref : ObjectRef) (name : Name) : Quiet declares (getProperty ref name) := by
  apply get fun _ _ _ => rfl
  intro machine
  dsimp only
  split
  · exact pure _
  · split
    · exact bindMethod _ _
    · exact fail _ _

theorem getSuper (id : UseId) (line : Nat) (method : Name) :
    Quiet declares (getSuper id line method) := by
  apply get fun _ _ _ => rfl
  intro machine
  split
  · split
    · exact bindMethod _ _
    · exact fail _ _
  · exact fail _ _

theorem callNative (native : Native) (arguments : List Value) (line : Nat) :
    Quiet declares (callNative native arguments line) := by
  unfold Eval.callNative
  split
  · exact readClock
  · split
    · exact pure _
    · exact fail _ _

theorem ofResult (line : Nat) (result : Except RuntimeFault Value) :
    Quiet declares (ofResult line result) := by
  cases result with
  | ok value => exact pure value
  | error fault => exact fail line fault

theorem declareFunction (declaration : FunctionDecl) :
    Quiet declares (declareFunction declaration) := by
  apply get fun _ _ _ => rfl
  intro machine
  exact (newFunction _).bind fun _ => define _ _

theorem methodScope (superclass : Option ClassRef) : Quiet declares (methodScope superclass) := by
  apply get fun _ _ _ => rfl
  intro machine
  cases superclass with
  | none => exact pure _
  | some ref => exact openScope _ _

theorem declareClass (name : Name) (superclass : Option ClassRef)
    (declarations : List FunctionDecl) :
    Quiet true (declareClass name superclass declarations) := by
  apply (define _ _).bind
  intro _
  apply (methodScope superclass).bind
  intro scope
  exact (addClass rfl _).bind fun _ => define _ _

theorem expectClass (line : Nat) (value : Value) : Quiet declares (expectClass line value) := by
  unfold Eval.expectClass
  split
  · exact pure _
  · exact fail _ _

theorem callResult (closure : Closure) (line : Nat) (flow : Flow) :
    Quiet declares (callResult closure line flow) := by
  unfold Eval.callResult
  split
  · apply get fun _ _ _ => rfl
    intro machine
    split
    · exact pure _
    · exact fail _ _
  · cases flow with
    | normal => exact pure _
    | returned value => exact pure _

/-- Classes may be allowed where none are added. -/
theorem allow {action : Eval α} (quiet : Quiet declares action) : Quiet true action := by
  induction quiet with
  | pure value => exact pure value
  | throw cause => exact throw cause
  | bind _ _ firstHypothesis nextHypothesis => exact firstHypothesis.bind nextHypothesis
  | get same _ inductionHypothesis => exact get same inductionHypothesis
  | define name value => exact define name value
  | defineIn scope name value => exact defineIn scope name value
  | openScope bindings parent => exact openScope bindings parent
  | readVariable id name => exact readVariable id name
  | addFunction closure => exact addFunction closure
  | addClass _ info => exact addClass rfl info
  | addObject ref => exact addObject ref
  | bindScope method this => exact bindScope method this
  | readClock => exact readClock

/-- A quiet action does the same whatever the limit and the sink. -/
theorem apply_refit {action : Eval α} (quiet : Quiet declares action) (machine : Machine)
    (limit : Option Nat) (sink : Sink) :
    action (machine.refit limit sink) = mapState (·.refit limit sink) (action machine) := by
  induction quiet generalizing machine with
  | @bind _ _ first next _ _ firstHypothesis nextHypothesis =>
      rw [bind_apply, bind_apply, firstHypothesis]
      cases first machine with
      | ok value middle => exact nextHypothesis value middle
      | error cause middle => rfl
  | @get _ next same _ inductionHypothesis =>
      change next (machine.refit limit sink) (machine.refit limit sink) =
        mapState (·.refit limit sink) (next machine machine)
      rw [same, inductionHypothesis]
  | readVariable id name =>
      simp only [Eval.readVariable, Machine.refit]
      split
      all_goals rfl
  | _ => rfl

/-- A quiet action leaves the limit and the sink as they are. -/
theorem refit_self {action : Eval α} (quiet : Quiet declares action) (machine : Machine) :
    action machine = mapState (·.refit machine.callLimit machine.sink) (action machine) :=
  quiet.apply_refit machine machine.callLimit machine.sink

end Quiet

/-! ## What every step keeps -/

/-- The task assigns a field, prints or declares a class: it does more than quiet steps
between what it starts. -/
def Task.acts : Nat → Task → Bool
  | _ + 1, .evaluate (.set _ _ _) => true
  | _ + 1, .execute (.print _) => true
  | _ + 1, .execute (.class_ _ _ _) => true
  | _, _ => false

/-- A property of actions, with the evaluations that they start, that single steps have
and that is passed on from the parts of an evaluation to the whole. -/
structure Stepwise (holds : {α : Type} → Timeline → Eval α → Prop) : Prop where
  quiet : ∀ {α : Type} {action : Eval α}, Quiet false action → holds idle action
  flush : holds idle flush
  bind : ∀ {α β : Type} {timeline : Timeline} {action : Eval α} {next : α → Timeline}
    {continue_ : α → Eval β}, holds timeline action → Framed action →
    (∀ value, holds (next value) (continue_ value)) →
    holds (fun machine => timeline machine ++ after action next machine) (action >>= continue_)
  get : ∀ {α : Type} (starts : Machine → Timeline) {next : Machine → Eval α},
    (∀ machine limit sink, next (machine.refit limit sink) = next machine) →
    (∀ machine, holds (starts machine) (next machine)) →
    holds (fun machine => starts machine machine) (get >>= next)
  within : ∀ {α : Type} {timeline : Timeline} {action : Eval α} (scope : ScopeRef),
    holds timeline action →
    holds (fun machine => timeline { machine with current := scope }) (within scope action)
  call : ∀ {fuel : Nat} {callee : Value} {arguments : List Value} {line : Nat},
    holds (start fuel (.callValue callee arguments line)) (callValue fuel callee arguments line) →
    holds
      (after (checkCall callee line arguments.length) fun _ checked =>
        start fuel (.callValue callee arguments line)
          { checked with callDepth := checked.callDepth + 1 })
      (do
        checkCall callee line arguments.length
        counted (callValue fuel callee arguments line))
  set : ∀ {fuel : Nat} {object value : Expr} (name : Name),
    holds (start fuel (.evaluate object)) (evaluate fuel object) →
    holds (start fuel (.evaluate value)) (evaluate fuel value) →
    holds (start (fuel + 1) (.evaluate (.set object name value)))
      (evaluate (fuel + 1) (.set object name value))
  print : ∀ {fuel : Nat} {value : Expr},
    holds (start fuel (.evaluate value)) (evaluate fuel value) →
    holds (start (fuel + 1) (.execute (.print value))) (execute (fuel + 1) (.print value))
  declare : ∀ {fuel : Nat} {name : Name} {superclass : Option Expr} {methods : List FunctionDecl},
    (∀ expr ∈ superclass, holds (start fuel (.evaluate expr)) (evaluate fuel expr)) →
    holds (start (fuel + 1) (.execute (.class_ name superclass methods)))
      (execute (fuel + 1) (.class_ name superclass methods))
  whole : ∀ {α : Type} {fuel : Nat} {task : Task} {action : Eval α},
    task.acts fuel = false →
    (∀ machine, Moment.final ⟨fuel, task, machine⟩ = endState (action machine)) →
    holds (task.parts fuel) action → holds (start fuel task) action

namespace Stepwise

variable {holds : {α : Type} → Timeline → Eval α → Prop} {α β : Type} {fuel : Nat}

/-- Nothing is started after the timeline. -/
theorem append_idle (timeline : Timeline) (action : Eval α) :
    (fun machine => timeline machine ++ Timeline.after action (fun _ => idle) machine) =
      timeline := by
  funext machine
  cases result : action machine with
  | ok value middle => rw [after_of_ok result, idle, List.append_nil]
  | error cause middle => rw [after_of_error result, List.append_nil]

/-- What follows may be quiet and start nothing more. -/
theorem andThen (stepwise : Stepwise holds) {timeline : Timeline} {action : Eval α}
    {continue_ : α → Eval β} (first : holds timeline action) (framed : Framed action)
    (rest : ∀ value, Quiet false (continue_ value)) : holds timeline (action >>= continue_) := by
  have both := stepwise.bind first framed fun value => stepwise.quiet (rest value)
  rw [append_idle] at both
  exact both

/-- A class declaration is quiet, once the superclass has been evaluated, if classes may be
added. -/
theorem declared (holds : {α : Type} → Timeline → Eval α → Prop)
    (quiet : ∀ {α : Type} {action : Eval α}, Quiet true action → holds idle action)
    (bind : ∀ {α β : Type} {timeline : Timeline} {action : Eval α} {next : α → Timeline}
      {continue_ : α → Eval β}, holds timeline action → Framed action →
      (∀ value, holds (next value) (continue_ value)) →
      holds (fun machine => timeline machine ++ Timeline.after action next machine)
        (action >>= continue_))
    {name : Name} {superclass : Option Expr} {methods : List FunctionDecl}
    (evaluated : ∀ expr ∈ superclass, holds (start fuel (.evaluate expr)) (evaluate fuel expr)) :
    holds ((Task.execute (.class_ name superclass methods)).parts (fuel + 1))
      (execute (fuel + 1) (.class_ name superclass methods)) := by
  cases superclass with
  | none => exact quiet ((Quiet.declareClass _ _ _).bind fun _ => .pure _)
  | some superclass =>
      have declaring : ∀ value, Quiet true (do
          let parent ← Eval.expectClass (superclassLine name superclass) value
          Eval.declareClass name (some parent) methods
          return Flow.normal) := by
        intro value
        apply (Quiet.expectClass _ _).bind
        intro parent
        exact (Quiet.declareClass _ _ _).bind fun _ => .pure _
      have both := bind (evaluated superclass rfl) ((framedAt fuel).evaluate superclass)
        fun value => quiet (declaring value)
      rw [append_idle] at both
      exact both

theorem startThen (stepwise : Stepwise holds) {task : Task} {action : Eval α}
    {next : α → Timeline} {continue_ : α → Eval β} (first : holds (start fuel task) action)
    (framed : Framed action) (rest : ∀ value, holds (next value) (continue_ value)) :
    holds (startThen fuel task action next) (action >>= continue_) :=
  stepwise.bind first framed rest

theorem after (stepwise : Stepwise holds) {action : Eval α} {next : α → Timeline}
    {continue_ : α → Eval β} (first : Quiet false action) (framed : Framed action)
    (rest : ∀ value, holds (next value) (continue_ value)) :
    holds (after action next) (action >>= continue_) :=
  stepwise.bind (stepwise.quiet first) framed rest

end Stepwise

/-- The property holds of whatever is evaluated with the given fuel. -/
structure StepwiseAt (holds : {α : Type} → Timeline → Eval α → Prop) (fuel : Nat) : Prop where
  evaluate : ∀ expr, holds (start fuel (.evaluate expr)) (evaluate fuel expr)
  evaluateEach : ∀ exprs, holds (start fuel (.evaluateEach exprs)) (evaluateEach fuel exprs)
  callValue : ∀ callee arguments line,
    holds (start fuel (.callValue callee arguments line)) (callValue fuel callee arguments line)
  callFunction : ∀ closure arguments line,
    holds (start fuel (.callFunction closure arguments line))
      (callFunction fuel closure arguments line)
  execute : ∀ stmt, holds (start fuel (.execute stmt)) (execute fuel stmt)
  executeEach : ∀ stmts, holds (start fuel (.executeEach stmts)) (executeEach fuel stmts)
  executeWhile : ∀ condition body,
    holds (start fuel (.executeWhile condition body)) (executeWhile fuel condition body)

namespace Stepwise

variable {holds : {α : Type} → Timeline → Eval α → Prop} {fuel : Nat}

/-- Without fuel nothing is started. -/
theorem at_zero (stepwise : Stepwise holds) : StepwiseAt holds 0 where
  evaluate _ := stepwise.whole rfl (fun _ => rfl) (stepwise.quiet (.throw _))
  evaluateEach _ := stepwise.whole rfl (fun _ => rfl) (stepwise.quiet (.throw _))
  callValue _ _ _ := stepwise.whole rfl (fun _ => rfl) (stepwise.quiet (.throw _))
  callFunction _ _ _ := stepwise.whole rfl (fun _ => rfl) (stepwise.quiet (.throw _))
  execute _ := stepwise.whole rfl (fun _ => rfl) (stepwise.quiet (.throw _))
  executeEach _ := stepwise.whole rfl (fun _ => rfl) (stepwise.quiet (.throw _))
  executeWhile _ _ := stepwise.whole rfl (fun _ => rfl) (stepwise.quiet (.throw _))

theorem evaluate_succ (stepwise : Stepwise holds) (before : StepwiseAt holds fuel) (expr : Expr) :
    holds (start (fuel + 1) (.evaluate expr)) (Lox.evaluate (fuel + 1) expr) := by
  have framed := framedAt fuel
  cases expr with
  | set object name value =>
      exact stepwise.set name (before.evaluate object) (before.evaluate value)
  | literal value => exact stepwise.whole rfl (fun _ => rfl) (stepwise.quiet (.pure _))
  | group inner => exact stepwise.whole rfl (fun _ => rfl) (before.evaluate inner)
  | unary operator operand =>
      apply stepwise.whole rfl (fun _ => rfl)
      apply stepwise.andThen (before.evaluate operand) (framed.evaluate operand)
      intro value
      exact .ofResult _ _
  | binary left operator right =>
      apply stepwise.whole rfl (fun _ => rfl)
      apply stepwise.startThen (before.evaluate left) (framed.evaluate left)
      intro value
      apply stepwise.andThen (before.evaluate right) (framed.evaluate right)
      intro other
      exact .ofResult _ _
  | logical left operator right =>
      apply stepwise.whole rfl (fun _ => rfl)
      apply stepwise.startThen (before.evaluate left) (framed.evaluate left)
      intro value
      split
      · exact stepwise.quiet (.pure _)
      · exact before.evaluate right
  | var id name => exact stepwise.whole rfl (fun _ => rfl) (stepwise.quiet (.readVariable id name))
  | assign id name value =>
      apply stepwise.whole rfl (fun _ => rfl)
      apply stepwise.andThen (before.evaluate value) (framed.evaluate value)
      intro assigned
      exact (Quiet.writeVariable id name assigned).bind fun _ => .pure _
  | call callee line arguments =>
      apply stepwise.whole rfl (fun _ => rfl)
      apply stepwise.startThen (before.evaluate callee) (framed.evaluate callee)
      intro value
      apply stepwise.startThen (before.evaluateEach arguments) (framed.evaluateEach arguments)
      intro values
      exact stepwise.call (before.callValue value values line)
  | get object name =>
      apply stepwise.whole rfl (fun _ => rfl)
      apply stepwise.andThen (before.evaluate object) (framed.evaluate object)
      intro found
      split
      · exact .getProperty _ name
      · exact .fail _ _
  | this id line => exact stepwise.whole rfl (fun _ => rfl) (stepwise.quiet (.readVariable id _))
  | super id line method =>
      exact stepwise.whole rfl (fun _ => rfl) (stepwise.quiet (.getSuper id line method))

theorem evaluateEach_succ (stepwise : Stepwise holds) (before : StepwiseAt holds fuel)
    (exprs : List Expr) :
    holds (start (fuel + 1) (.evaluateEach exprs)) (Lox.evaluateEach (fuel + 1) exprs) := by
  apply stepwise.whole rfl (fun _ => rfl)
  cases exprs with
  | nil => exact stepwise.quiet (.pure _)
  | cons first rest =>
      apply stepwise.startThen (before.evaluate first) ((framedAt fuel).evaluate first)
      intro value
      apply stepwise.andThen (before.evaluateEach rest) ((framedAt fuel).evaluateEach rest)
      intro values
      exact .pure _

theorem callValue_succ (stepwise : Stepwise holds) (before : StepwiseAt holds fuel)
    (callee : Value) (arguments : List Value) (line : Nat) :
    holds (start (fuel + 1) (.callValue callee arguments line))
      (Lox.callValue (fuel + 1) callee arguments line) := by
  apply stepwise.whole rfl (fun _ => rfl)
  cases callee with
  | native ref =>
      apply stepwise.quiet
      apply Quiet.get fun _ _ _ => rfl
      intro machine
      exact .callNative _ _ _
  | function ref =>
      apply stepwise.get (fun machine =>
        start fuel (.callFunction (machine.heap.function ref) arguments line)) fun _ _ _ => rfl
      intro machine
      exact before.callFunction _ _ _
  | classRef ref =>
      rw [Task.parts, Value.parts, Lox.callValue]
      apply stepwise.after (.addObject ref) (framed_onHeap fun heap => Scopes.Grows.refl heap.scopes)
      intro object
      apply stepwise.get (fun machine => initializerParts fuel arguments line object
        (machine.heap.findMethod? ref "init")) fun _ _ _ => rfl
      intro machine
      cases machine.heap.findMethod? ref "init" with
      | none => exact stepwise.quiet (.pure _)
      | some initializer =>
          rw [initializerParts]
          apply stepwise.after (.bindScope _ _) (framed_onHeap fun heap => grows_bind heap _ _)
          intro bound
          apply stepwise.andThen (before.callFunction bound arguments line)
            ((framedAt fuel).callFunction bound arguments line)
          intro result
          exact .pure _
  | _ => exact stepwise.quiet (.fail _ _)

theorem callFunction_succ (stepwise : Stepwise holds) (before : StepwiseAt holds fuel)
    (closure : Closure) (arguments : List Value) (line : Nat) :
    holds (start (fuel + 1) (.callFunction closure arguments line))
      (Lox.callFunction (fuel + 1) closure arguments line) := by
  apply stepwise.whole rfl (fun _ => rfl)
  rw [Task.parts, Lox.callFunction]
  apply stepwise.after (.openScope _ _) (framed_openScope _ _)
  intro scope
  apply stepwise.andThen (stepwise.within scope (before.executeEach _))
    (((framedAt fuel).executeEach _).within scope)
  intro flow
  exact .callResult _ _ _

theorem execute_succ (stepwise : Stepwise holds) (before : StepwiseAt holds fuel) (stmt : Stmt) :
    holds (start (fuel + 1) (.execute stmt)) (Lox.execute (fuel + 1) stmt) := by
  have framed := framedAt fuel
  cases stmt with
  | print value => exact stepwise.print (before.evaluate value)
  | expression value =>
      apply stepwise.whole rfl (fun _ => rfl)
      apply stepwise.andThen (before.evaluate value) (framed.evaluate value)
      intro result
      exact .pure _
  | var name initializer =>
      apply stepwise.whole rfl (fun _ => rfl)
      cases initializer with
      | none => exact stepwise.quiet ((Quiet.define _ _).bind fun _ => .pure _)
      | some value =>
          apply stepwise.andThen (before.evaluate value) (framed.evaluate value)
          intro result
          exact (Quiet.define _ _).bind fun _ => .pure _
  | block body =>
      apply stepwise.whole rfl (fun _ => rfl)
      rw [Task.parts, Stmt.parts, Lox.execute]
      apply stepwise.get (fun machine =>
        Timeline.after (Eval.openScope ∅ (some machine.current)) fun scope middle =>
          start fuel (.executeEach body) { middle with current := scope }) fun _ _ _ => rfl
      intro machine
      apply stepwise.after (.openScope _ _) (framed_openScope _ _)
      intro scope
      exact stepwise.within scope (before.executeEach body)
  | if_ condition thenBranch elseBranch =>
      apply stepwise.whole rfl (fun _ => rfl)
      apply stepwise.startThen (before.evaluate condition) (framed.evaluate condition)
      intro value
      split
      · exact before.execute thenBranch
      · cases elseBranch with
        | none => exact stepwise.quiet (.pure _)
        | some elseBranch => exact before.execute elseBranch
  | while_ condition body =>
      exact stepwise.whole rfl (fun _ => rfl) (before.executeWhile condition body)
  | function declaration =>
      apply stepwise.whole rfl (fun _ => rfl)
      exact stepwise.quiet ((Quiet.declareFunction _).bind fun _ => .pure _)
  | return_ line value =>
      apply stepwise.whole rfl (fun _ => rfl)
      cases value with
      | none => exact stepwise.quiet (.pure _)
      | some value =>
          apply stepwise.andThen (before.evaluate value) (framed.evaluate value)
          intro result
          exact .pure _
  | class_ name superclass methods =>
      exact stepwise.declare fun superclass _ => before.evaluate superclass

theorem executeEach_succ (stepwise : Stepwise holds) (before : StepwiseAt holds fuel)
    (stmts : List Stmt) :
    holds (start (fuel + 1) (.executeEach stmts)) (Lox.executeEach (fuel + 1) stmts) := by
  apply stepwise.whole rfl (fun _ => rfl)
  cases stmts with
  | nil => exact stepwise.quiet (.pure _)
  | cons first rest =>
      apply stepwise.startThen (before.execute first) ((framedAt fuel).execute first)
      intro flow
      cases flow with
      | returned value => exact stepwise.quiet (.pure _)
      | normal => exact before.executeEach rest

theorem executeWhile_succ (stepwise : Stepwise holds) (before : StepwiseAt holds fuel)
    (condition : Expr) (body : Stmt) :
    holds (start (fuel + 1) (.executeWhile condition body))
      (Lox.executeWhile (fuel + 1) condition body) := by
  apply stepwise.whole rfl (fun _ => rfl)
  apply stepwise.startThen (before.evaluate condition) ((framedAt fuel).evaluate condition)
  intro value
  split
  · apply stepwise.startThen (before.execute body) ((framedAt fuel).execute body)
    intro flow
    cases flow with
    | returned value => exact stepwise.quiet (.pure _)
    | normal => exact before.executeWhile condition body
  · exact stepwise.quiet (.pure _)

/-- A stepwise property holds of every evaluation. -/
theorem atFuel (stepwise : Stepwise holds) (fuel : Nat) : StepwiseAt holds fuel := by
  induction fuel with
  | zero => exact stepwise.at_zero
  | succ fuel inductionHypothesis =>
      exact {
        evaluate := stepwise.evaluate_succ inductionHypothesis
        evaluateEach := stepwise.evaluateEach_succ inductionHypothesis
        callValue := stepwise.callValue_succ inductionHypothesis
        callFunction := stepwise.callFunction_succ inductionHypothesis
        execute := stepwise.execute_succ inductionHypothesis
        executeEach := stepwise.executeEach_succ inductionHypothesis
        executeWhile := stepwise.executeWhile_succ inductionHypothesis }

/-- A stepwise property holds of every program. -/
theorem executeProgram (stepwise : Stepwise holds) (fuel : Nat) (program : List Stmt) :
    holds (start fuel (.executeProgram program)) (executeProgram fuel program) := by
  have noAction : ∀ program, (Task.executeProgram program).acts fuel = false := by
    intro program
    cases fuel <;> rfl
  induction program with
  | nil =>
      apply stepwise.whole (noAction []) fun _ => rfl
      rw [Task.parts]
      exact stepwise.flush
  | cons first rest inductionHypothesis =>
      apply stepwise.whole (noAction (first :: rest)) fun _ => rfl
      rw [Task.parts]
      apply stepwise.startThen ((stepwise.atFuel fuel).execute first)
        ((framedAt fuel).execute first)
      intro flow
      exact inductionHypothesis

end Stepwise

end Lox
