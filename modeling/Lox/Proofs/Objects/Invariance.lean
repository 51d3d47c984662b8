import Lox.Proofs.Objects.Health

/-!
# Whole runs keep heaps intact

The steps of `Health`, put together over all expressions, statements and calls by induction
on the fuel, and over the units of a session.
-/

namespace Lox

open Actions Eval Timeline

/-! ## Evaluation -/

/-- What evaluations with the given fuel keep: all that they start is healthy, they leave a
healthy machine behind, and what they yield is there. -/
structure KeepsAt (fuel : Nat) : Prop where
  evaluate : ∀ (expr : Expr) {machine : Machine}, machine.Healthy → expr.WellFormed →
    Keeps ((Task.evaluate expr).parts fuel) (evaluate fuel expr) machine IsThere
  evaluateEach : ∀ (exprs : List Expr) {machine : Machine}, machine.Healthy →
    Expr.WellFormedEach exprs →
    Keeps ((Task.evaluateEach exprs).parts fuel) (evaluateEach fuel exprs) machine
      fun values heap => ∀ value ∈ values, heap.Has value
  callValue : ∀ {callee : Value} {arguments : List Value} (line : Nat) {machine : Machine},
    machine.Healthy → machine.heap.Has callee →
    (∀ argument ∈ arguments, machine.heap.Has argument) →
    Keeps ((Task.callValue callee arguments line).parts fuel)
      (callValue fuel callee arguments line) machine IsThere
  callFunction : ∀ {closure : Closure} {arguments : List Value} (line : Nat) {machine : Machine},
    machine.Healthy → Stmt.FunctionWellFormed closure.declaration →
    machine.heap.Equipped closure → (∀ argument ∈ arguments, machine.heap.Has argument) →
    Keeps ((Task.callFunction closure arguments line).parts fuel)
      (callFunction fuel closure arguments line) machine IsThere
  execute : ∀ (stmt : Stmt) {machine : Machine}, machine.Healthy → stmt.WellFormed →
    Keeps ((Task.execute stmt).parts fuel) (execute fuel stmt) machine
      fun flow heap => heap.HasFlow flow
  executeEach : ∀ (stmts : List Stmt) {machine : Machine}, machine.Healthy →
    Stmt.WellFormedEach stmts →
    Keeps ((Task.executeEach stmts).parts fuel) (executeEach fuel stmts) machine
      fun flow heap => heap.HasFlow flow
  executeWhile : ∀ (condition : Expr) (body : Stmt) {machine : Machine}, machine.Healthy →
    (Stmt.while_ condition body).WellFormed →
    Keeps ((Task.executeWhile condition body).parts fuel) (executeWhile fuel condition body)
      machine fun flow heap => heap.HasFlow flow

theorem keepsAt_zero : KeepsAt 0 where
  evaluate _ _ healthy _ := .outOfFuel healthy
  evaluateEach _ _ healthy _ := .outOfFuel healthy
  callValue _ _ healthy _ _ := .outOfFuel healthy
  callFunction _ _ healthy _ _ _ := .outOfFuel healthy
  execute _ _ healthy _ := .outOfFuel healthy
  executeEach _ _ healthy _ := .outOfFuel healthy
  executeWhile _ _ _ healthy _ := .outOfFuel healthy

namespace KeepsAt

variable {fuel : Nat} {machine : Machine}

theorem start_evaluate (keeps : KeepsAt fuel) (expr : Expr) (healthy : machine.Healthy)
    (formed : expr.WellFormed) :
    Keeps (start fuel (.evaluate expr)) (Lox.evaluate fuel expr) machine IsThere :=
  (keeps.evaluate expr healthy formed).started ⟨healthy, formed, trivial⟩

theorem start_evaluateEach (keeps : KeepsAt fuel) (exprs : List Expr) (healthy : machine.Healthy)
    (formed : Expr.WellFormedEach exprs) :
    Keeps (start fuel (.evaluateEach exprs)) (Lox.evaluateEach fuel exprs) machine
      fun values heap => ∀ value ∈ values, heap.Has value :=
  (keeps.evaluateEach exprs healthy formed).started ⟨healthy, formed, trivial⟩

theorem start_callValue (keeps : KeepsAt fuel) {callee : Value} {arguments : List Value}
    (line : Nat) (healthy : machine.Healthy) (has : machine.heap.Has callee)
    (hasEach : ∀ argument ∈ arguments, machine.heap.Has argument) :
    Keeps (start fuel (.callValue callee arguments line))
      (Lox.callValue fuel callee arguments line) machine IsThere :=
  (keeps.callValue line healthy has hasEach).started ⟨healthy, trivial, has, hasEach⟩

theorem start_execute (keeps : KeepsAt fuel) (stmt : Stmt) (healthy : machine.Healthy)
    (formed : stmt.WellFormed) :
    Keeps (start fuel (.execute stmt)) (Lox.execute fuel stmt) machine
      fun flow heap => heap.HasFlow flow :=
  (keeps.execute stmt healthy formed).started ⟨healthy, formed, trivial⟩

theorem start_executeEach (keeps : KeepsAt fuel) (stmts : List Stmt) (healthy : machine.Healthy)
    (formed : Stmt.WellFormedEach stmts) :
    Keeps (start fuel (.executeEach stmts)) (Lox.executeEach fuel stmts) machine
      fun flow heap => heap.HasFlow flow :=
  (keeps.executeEach stmts healthy formed).started ⟨healthy, formed, trivial⟩

theorem start_callFunction (keeps : KeepsAt fuel) {closure : Closure} {arguments : List Value}
    (line : Nat) (healthy : machine.Healthy)
    (formed : Stmt.FunctionWellFormed closure.declaration)
    (equipped : machine.heap.Equipped closure)
    (has : ∀ argument ∈ arguments, machine.heap.Has argument) :
    Keeps (start fuel (.callFunction closure arguments line))
      (Lox.callFunction fuel closure arguments line) machine IsThere :=
  (keeps.callFunction line healthy formed equipped has).started ⟨healthy, formed, equipped, has⟩

theorem evaluate_succ (keeps : KeepsAt fuel) (expr : Expr) (healthy : machine.Healthy)
    (formed : expr.WellFormed) :
    Keeps ((Task.evaluate expr).parts (fuel + 1)) (Lox.evaluate (fuel + 1) expr) machine
      IsThere := by
  cases expr with
  | literal value => exact .pure healthy (value.has_toValue _)
  | group inner => exact keeps.start_evaluate inner healthy formed
  | unary operator operand =>
      apply (keeps.start_evaluate operand healthy formed).andThen
      intro value middle healthy _ _
      exact keeps_ofResult healthy _ (hasResult_unary _ _ _)
  | binary left operator right =>
      apply (keeps.start_evaluate left healthy formed.1).startThen
      intro value middle healthy _ _
      apply (keeps.start_evaluate right healthy formed.2).andThen
      intro other final healthy _ _
      exact keeps_ofResult healthy _ (hasResult_binary _ _ _ _)
  | logical left operator right =>
      apply (keeps.start_evaluate left healthy formed.1).startThen
      intro value middle healthy _ has
      split
      · exact .pure healthy has
      · exact keeps.start_evaluate right healthy formed.2
  | var id name => exact keeps_readVariable healthy id name
  | assign id name value =>
      apply (keeps.start_evaluate value healthy formed.2).andThen
      intro assigned middle healthy _ has
      apply (keeps_writeVariable healthy id formed.1 has).andThen
      intro _ final healthy widens _
      exact .pure healthy (has.mono widens)
  | call callee line arguments =>
      apply (keeps.start_evaluate callee healthy formed.1).startThen
      intro value middle healthy _ has
      apply (keeps.start_evaluateEach arguments healthy formed.2).startThen
      intro values later healthy widens hasEach
      apply (keeps_checkCall healthy value line values.length).after
      intro _ checked healthy widens' _
      have hasCallee := (has.mono widens).mono widens'
      have hasArguments : ∀ argument ∈ values, checked.heap.Has argument :=
        fun argument member => (hasEach argument member).mono widens'
      have entered : ({ checked with callDepth := checked.callDepth + 1 } : Machine).Healthy :=
        ⟨⟨healthy.formed.heap, healthy.formed.present, healthy.formed.noSuper⟩, healthy.intact⟩
      exact (keeps.start_callValue line entered hasCallee hasArguments).counted
  | get object name =>
      apply (keeps.start_evaluate object healthy formed).andThen
      intro found middle healthy _ has
      split
      · exact keeps_getProperty healthy has name
      · exact .fail healthy _ rfl
  | set object name value =>
      apply (keeps.start_evaluate object healthy formed.1).startThen
      intro found middle healthy _ has
      cases found with
      | object ref =>
          apply (keeps.start_evaluate value healthy formed.2).andThen
          intro assigned later healthy widens hasAssigned
          apply (keeps_setField healthy (has.mono widens) name.text hasAssigned).andThen
          intro _ final healthy widens' _
          exact .pure healthy (hasAssigned.mono widens')
      | _ => exact .fail healthy _ rfl
  | this id line => exact keeps_readVariable healthy id _
  | super id line method => exact keeps_getSuper healthy id line method

theorem evaluateEach_succ (keeps : KeepsAt fuel) (exprs : List Expr) (healthy : machine.Healthy)
    (formed : Expr.WellFormedEach exprs) :
    Keeps ((Task.evaluateEach exprs).parts (fuel + 1)) (Lox.evaluateEach (fuel + 1) exprs) machine
      fun values heap => ∀ value ∈ values, heap.Has value := by
  cases exprs with
  | nil => exact .pure healthy fun _ member => absurd member List.not_mem_nil
  | cons first rest =>
      apply (keeps.start_evaluate first healthy formed.1).startThen
      intro value middle healthy _ has
      apply (keeps.start_evaluateEach rest healthy formed.2).andThen
      intro values final healthy widens hasEach
      apply Keeps.pure healthy
      intro other member
      rcases List.mem_cons.mp member with rfl | inRest
      · exact has.mono widens
      · exact hasEach other inRest

theorem callValue_succ (keeps : KeepsAt fuel) {callee : Value} {arguments : List Value}
    (line : Nat) (healthy : machine.Healthy) (has : machine.heap.Has callee)
    (hasEach : ∀ argument ∈ arguments, machine.heap.Has argument) :
    Keeps ((Task.callValue callee arguments line).parts (fuel + 1))
      (Lox.callValue (fuel + 1) callee arguments line) machine IsThere := by
  cases callee with
  | native ref => exact .look (keeps_callNative healthy (healthy.intact.native ref) _ _)
  | function ref =>
      apply Keeps.get fun machine =>
        start fuel (.callFunction (machine.heap.function ref) arguments line)
      exact keeps.start_callFunction line healthy (healthy.formed.heap.function ref)
        (healthy.intact.initializers ref) hasEach
  | classRef ref =>
      rw [Task.parts, Value.parts, Lox.callValue]
      apply (keeps_addObject healthy has).after
      intro object middle healthy widens hasObject
      apply Keeps.get fun machine =>
        initializerParts fuel arguments line object (machine.heap.findMethod? ref "init")
      cases found : middle.heap.findMethod? ref "init" with
      | none => exact .pure healthy hasObject
      | some initializer =>
          have formed := healthy.formed.heap.findMethod found
          rw [initializerParts]
          apply (keeps_bindHeap healthy initializer hasObject).after
          intro bound later healthy widens' isBound
          rcases isBound with ⟨declared, equipped⟩
          rw [← declared] at formed
          have hasLater : ∀ argument ∈ arguments, later.heap.Has argument :=
            fun argument member => ((hasEach argument member).mono widens).mono widens'
          apply (keeps.start_callFunction line healthy formed equipped hasLater).andThen
          intro _ final healthy widens'' _
          exact .pure healthy ((hasObject.mono widens').mono widens'')
  | _ => exact .fail healthy _ rfl

theorem callFunction_succ (keeps : KeepsAt fuel) {closure : Closure} {arguments : List Value}
    (line : Nat) (healthy : machine.Healthy)
    (formed : Stmt.FunctionWellFormed closure.declaration)
    (equipped : machine.heap.Equipped closure)
    (has : ∀ argument ∈ arguments, machine.heap.Has argument) :
    Keeps ((Task.callFunction closure arguments line).parts (fuel + 1))
      (Lox.callFunction (fuel + 1) closure arguments line) machine IsThere := by
  rcases closure with ⟨⟨name, params, body⟩, around, isInitializer⟩
  rcases formed with ⟨-, paramsPlain, bodyFormed⟩
  have bound : ∀ {name : String} {value : Value},
      (parameterBindings params arguments)[name]? = some value →
      machine.heap.Has value ∧ (name = "this" → ∃ object, value = .object object) := by
    intro name value found
    rcases parameterBindings_from found with ⟨isArgument, param, isParam, rfl⟩
    exact ⟨has value isArgument, fun isThis => absurd isThis (paramsPlain param isParam).1⟩
  rw [Task.parts, Lox.callFunction]
  apply (keeps_openScope healthy bound).after
  intro scope middle healthy widens opened
  rcases opened with ⟨present, super⟩
  have inside := healthy.entered present
    (super.trans (parameterBindings_super arguments paramsPlain))
  apply (Keeps.within healthy (keeps.start_executeEach body inside bodyFormed)).andThen
  intro flow final healthy widens' hasFlow
  exact keeps_callResult healthy (equipped.mono (widens.trans widens')) line hasFlow

theorem execute_succ (keeps : KeepsAt fuel) (stmt : Stmt) (healthy : machine.Healthy)
    (formed : stmt.WellFormed) :
    Keeps ((Task.execute stmt).parts (fuel + 1)) (Lox.execute (fuel + 1) stmt) machine
      fun flow heap => heap.HasFlow flow := by
  cases stmt with
  | expression value =>
      apply (keeps.start_evaluate value healthy formed).andThen
      intro _ middle healthy _ _
      exact .pure healthy trivial
  | print value =>
      apply (keeps.start_evaluate value healthy formed).andThen
      intro printed middle healthy _ _
      exact keeps_printValue healthy printed
  | var name initializer =>
      cases initializer with
      | none =>
          have hasNil : machine.heap.Has .nil := trivial
          apply (keeps_define healthy formed.1 hasNil).andThen
          intro _ middle healthy _ _
          exact .pure healthy trivial
      | some value =>
          apply (keeps.start_evaluate value healthy (formed.2 value rfl)).andThen
          intro result middle healthy _ has
          apply (keeps_define healthy formed.1 has).andThen
          intro _ final healthy _ _
          exact .pure healthy trivial
  | block body =>
      rw [Task.parts, Stmt.parts, Lox.execute]
      apply Keeps.get fun machine =>
        after (openScope ∅ (some machine.current)) fun scope middle =>
          start fuel (.executeEach body) { middle with current := scope }
      have bound : ∀ {name : String} {value : Value}, (∅ : Bindings)[name]? = some value →
          machine.heap.Has value ∧ (name = "this" → ∃ object, value = .object object) := by
        intro name value found
        simp at found
      apply (keeps_openScope healthy bound).after
      intro scope middle healthy _ opened
      rcases opened with ⟨present, super⟩
      have inside := healthy.entered present (super.trans (by simp))
      exact Keeps.within healthy (keeps.start_executeEach body inside formed)
  | if_ condition thenBranch elseBranch =>
      have conditionFormed := Stmt.condition_wellFormed formed
      apply (keeps.start_evaluate condition healthy conditionFormed).startThen
      intro value middle healthy _ _
      split
      · exact keeps.start_execute thenBranch healthy (Stmt.thenBranch_wellFormed formed)
      · cases elseBranch with
        | none => exact .pure healthy trivial
        | some elseBranch => exact keeps.start_execute elseBranch healthy formed.2.2.1
  | while_ condition body =>
      exact (keeps.executeWhile condition body healthy formed).started ⟨healthy, formed, trivial⟩
  | function declaration =>
      apply (keeps_declareFunction healthy formed).andThen
      intro _ middle healthy _ _
      exact .pure healthy trivial
  | return_ line value =>
      cases value with
      | none => exact .pure healthy trivial
      | some value =>
          apply (keeps.start_evaluate value healthy (formed value rfl)).andThen
          intro result middle healthy _ has
          exact .pure healthy has
  | class_ name superclass methods =>
      cases superclass with
      | none =>
          have noSuperclass : ∀ ref ∈ (none : Option ClassRef), machine.heap.Has (.classRef ref) :=
            fun _ impossible => by cases impossible
          apply (keeps_declareClass healthy formed.1 noSuperclass formed.2.2).andThen
          intro _ middle healthy _ _
          exact .pure healthy trivial
      | some superclass =>
          have superclassFormed := (formed.2.1 superclass rfl).wellFormed
          apply (keeps.start_evaluate superclass healthy superclassFormed).andThen
          intro value middle healthy _ has
          apply (keeps_expectClass healthy _ has).andThen
          intro parent later healthy _ hasParent
          have hasSuperclass : ∀ ref ∈ some parent, later.heap.Has (.classRef ref) := by
            intro ref isParent
            cases isParent
            exact hasParent
          apply (keeps_declareClass healthy formed.1 hasSuperclass formed.2.2).andThen
          intro _ final healthy _ _
          exact .pure healthy trivial

theorem executeEach_succ (keeps : KeepsAt fuel) (stmts : List Stmt) (healthy : machine.Healthy)
    (formed : Stmt.WellFormedEach stmts) :
    Keeps ((Task.executeEach stmts).parts (fuel + 1)) (Lox.executeEach (fuel + 1) stmts) machine
      fun flow heap => heap.HasFlow flow := by
  cases stmts with
  | nil => exact .pure healthy trivial
  | cons first rest =>
      apply (keeps.start_execute first healthy formed.1).startThen
      intro flow middle healthy _ has
      cases flow with
      | returned value => exact .pure healthy has
      | normal => exact keeps.start_executeEach rest healthy formed.2

theorem executeWhile_succ (keeps : KeepsAt fuel) (condition : Expr) (body : Stmt)
    (healthy : machine.Healthy) (formed : (Stmt.while_ condition body).WellFormed) :
    Keeps ((Task.executeWhile condition body).parts (fuel + 1))
      (Lox.executeWhile (fuel + 1) condition body) machine fun flow heap => heap.HasFlow flow := by
  apply (keeps.start_evaluate condition healthy formed.1).startThen
  intro value middle healthy _ _
  split
  · apply (keeps.start_execute body healthy formed.2.1).startThen
    intro flow later healthy _ has
    cases flow with
    | returned value => exact .pure healthy has
    | normal =>
        exact (keeps.executeWhile condition body healthy formed).started
          ⟨healthy, formed, trivial⟩
  · exact .pure healthy trivial

end KeepsAt

theorem keepsAt (fuel : Nat) : KeepsAt fuel := by
  induction fuel with
  | zero => exact keepsAt_zero
  | succ fuel inductionHypothesis =>
      exact {
        evaluate := fun expr _ => inductionHypothesis.evaluate_succ expr
        evaluateEach := fun exprs _ => inductionHypothesis.evaluateEach_succ exprs
        callValue := fun line _ => inductionHypothesis.callValue_succ line
        callFunction := fun line _ => inductionHypothesis.callFunction_succ line
        execute := fun stmt _ => inductionHypothesis.execute_succ stmt
        executeEach := fun stmts _ => inductionHypothesis.executeEach_succ stmts
        executeWhile := fun condition body _ =>
          inductionHypothesis.executeWhile_succ condition body }

theorem keeps_executeProgram (fuel : Nat) {program : List Stmt} {machine : Machine}
    (healthy : machine.Healthy) (formed : Stmt.WellFormedEach program) :
    Keeps ((Task.executeProgram program).parts fuel) (executeProgram fuel program) machine
      Done := by
  induction program generalizing machine with
  | nil => exact keeps_flush healthy
  | cons first rest inductionHypothesis =>
      apply ((keepsAt fuel).start_execute first healthy formed.1).startThen
      intro flow middle healthy _ _
      exact (inductionHypothesis healthy formed.2).started ⟨healthy, formed.2, trivial⟩

/-! ## Moments -/

/-- The evaluation that starts at the moment yields the value. -/
inductive Moment.Yields : Moment → Value → Prop where
  | evaluate {fuel expr machine value final} : evaluate fuel expr machine = .ok value final →
      Yields ⟨fuel, .evaluate expr, machine⟩ value
  | evaluateEach {fuel exprs machine values final value} :
      evaluateEach fuel exprs machine = .ok values final → value ∈ values →
      Yields ⟨fuel, .evaluateEach exprs, machine⟩ value
  | callValue {fuel callee arguments line machine value final} :
      callValue fuel callee arguments line machine = .ok value final →
      Yields ⟨fuel, .callValue callee arguments line, machine⟩ value
  | callFunction {fuel closure arguments line machine value final} :
      callFunction fuel closure arguments line machine = .ok value final →
      Yields ⟨fuel, .callFunction closure arguments line, machine⟩ value
  | execute {fuel stmt machine value final} :
      execute fuel stmt machine = .ok (.returned value) final →
      Yields ⟨fuel, .execute stmt, machine⟩ value
  | executeEach {fuel stmts machine value final} :
      executeEach fuel stmts machine = .ok (.returned value) final →
      Yields ⟨fuel, .executeEach stmts, machine⟩ value
  | executeWhile {fuel condition body machine value final} :
      executeWhile fuel condition body machine = .ok (.returned value) final →
      Yields ⟨fuel, .executeWhile condition body, machine⟩ value

/-- What a healthy moment leads to. -/
structure Moment.Sound (moment : Moment) : Prop where
  parts : ∀ part ∈ moment.parts, part.Healthy
  final : moment.final.Healthy
  widens : moment.machine.heap.Widens moment.final.heap
  yields : ∀ {value : Value}, moment.Yields value → moment.final.heap.Has value

namespace Moment

variable {moment : Moment}

theorem Healthy.sound (healthy : moment.Healthy) : moment.Sound := by
  rcases moment with ⟨fuel, task, machine⟩
  rcases healthy with ⟨healthy, formed, supplied⟩
  cases task with
  | evaluate expr =>
      have keeps := (keepsAt fuel).evaluate expr healthy formed
      refine ⟨keeps.starts, keeps.healthy, keeps.widens, fun yields => ?_⟩
      rcases yields with ⟨result⟩
      rw [final, result]
      exact keeps.ensures result
  | evaluateEach exprs =>
      have keeps := (keepsAt fuel).evaluateEach exprs healthy formed
      refine ⟨keeps.starts, keeps.healthy, keeps.widens, fun yields => ?_⟩
      cases yields with
      | evaluateEach result member =>
          rw [final, result]
          exact keeps.ensures result _ member
  | callValue callee arguments line =>
      have keeps := (keepsAt fuel).callValue line healthy supplied.1 supplied.2
      refine ⟨keeps.starts, keeps.healthy, keeps.widens, fun yields => ?_⟩
      cases yields with
      | callValue result =>
          rw [final, result]
          exact keeps.ensures result
  | callFunction closure arguments line =>
      have keeps := (keepsAt fuel).callFunction line healthy formed supplied.1 supplied.2
      refine ⟨keeps.starts, keeps.healthy, keeps.widens, fun yields => ?_⟩
      cases yields with
      | callFunction result =>
          rw [final, result]
          exact keeps.ensures result
  | execute stmt =>
      have keeps := (keepsAt fuel).execute stmt healthy formed
      refine ⟨keeps.starts, keeps.healthy, keeps.widens, fun yields => ?_⟩
      cases yields with
      | execute result =>
          rw [final, result]
          exact keeps.ensures result
  | executeEach stmts =>
      have keeps := (keepsAt fuel).executeEach stmts healthy formed
      refine ⟨keeps.starts, keeps.healthy, keeps.widens, fun yields => ?_⟩
      cases yields with
      | executeEach result =>
          rw [final, result]
          exact keeps.ensures result
  | executeWhile condition body =>
      have keeps := (keepsAt fuel).executeWhile condition body healthy formed
      refine ⟨keeps.starts, keeps.healthy, keeps.widens, fun yields => ?_⟩
      cases yields with
      | executeWhile result =>
          rw [final, result]
          exact keeps.ensures result
  | executeProgram program =>
      have keeps := keeps_executeProgram fuel healthy formed
      refine ⟨keeps.starts, keeps.healthy, keeps.widens, fun yields => ?_⟩
      cases yields

/-- What a healthy moment leads to is healthy. -/
theorem Healthy.reaches {start : Moment} (healthy : start.Healthy)
    (reaches : Reaches start moment) :
    moment.Healthy := by
  apply reaches.invariant healthy
  intro first second calls firstHealthy
  exact firstHealthy.sound.parts second calls.mem_parts

end Moment

/-! ## Sessions -/

/-- The distances have no part in health. -/
theorem Machine.Healthy.withDistances {machine : Machine} (healthy : machine.Healthy)
    (distances : Std.TreeMap UseId Nat) : ({ machine with distances } : Machine).Healthy :=
  ⟨⟨healthy.formed.heap, healthy.formed.present, healthy.formed.noSuper⟩, healthy.intact⟩

namespace Session

variable {sink : Sink} {clock : Clock} {units : List (Nat × String)}

theorem healthy_initial (sink : Sink) (clock : Clock) : (initial sink clock).machine.Healthy where
  formed := formed_initial sink clock
  intact := by
    constructor
    · rfl
    · intro ref name value found
      rcases ref with ⟨index⟩
      cases index with
      | zero =>
          change ((∅ : Bindings).insert "clock" (.native ⟨0⟩))[name]? = some value at found
          rw [Table.getElem?_insert] at found
          split at found
          · cases found
            exact Nat.zero_lt_one
          · simp at found
      | succ index =>
          have absent : (initial sink clock).machine.heap.scopes.own? ⟨index + 1⟩ name = none := by
            change (∅ : Bindings)[name]? = none
            simp
          rw [absent] at found
          cases found
    · intro ref name value found
      change (∅ : Bindings)[name]? = some value at found
      simp at found
    · intro ref present
      cases present
    · intro ref parent isParent
      cases isParent
    · exact fun ref => ⟨[], ⟨0⟩, rfl⟩
    · intro ref value found
      rcases ref with ⟨index⟩
      cases index with
      | zero =>
          change ((∅ : Bindings).insert "clock" (.native ⟨0⟩))["this"]? = some value at found
          rw [Table.getElem?_insert, if_neg (by decide)] at found
          simp at found
      | succ index =>
          change (∅ : Bindings)["this"]? = some value at found
          simp at found
    · intro ref isInitializer
      cases isInitializer

/-- A program that is read starts at a healthy moment. -/
theorem Reads.healthy {session : Session} {source : String} {program : List Stmt} {nextId : UseId}
    (reads : session.Reads source program nextId) (healthy : session.machine.Healthy) (fuel : Nat) :
    Moment.Healthy ⟨fuel, .executeProgram program, session.resolved program⟩ :=
  ⟨healthy.withDistances _, reads.takes.wellFormed, trivial⟩

theorem healthy_run {session : Session} (healthy : session.machine.Healthy) (fuel : Nat)
    (source : String) : (session.run fuel source).2.machine.Healthy := by
  rcases session.run_cases fuel source with
    ⟨program, nextId, reads⟩ | ⟨errors, nextId, -, rejected⟩
  · rw [reads.run_eq]
    by_cases clean : (resolveProgram session.machine.globalNames program).errors = []
    · rw [runProgram_clean clean]
      exact (reads.healthy healthy fuel).sound.final.withDistances _
    · rw [runProgram_unclean clean]
      exact (healthy.withDistances _).withDistances _
  · rw [rejected]
    exact healthy

theorem healthy_runAll (sink : Sink) (clock : Clock) (units : List (Nat × String)) :
    ((initial sink clock).runAll units).machine.Healthy := by
  induction units using List.reverseRecOn with
  | nil => exact healthy_initial sink clock
  | append_singleton units unit inductionHypothesis =>
      rw [runAll_append_singleton]
      exact healthy_run inductionHypothesis unit.1 unit.2

theorem Occurs.healthy {moment : Moment} (occurs : Occurs sink clock units moment) :
    moment.Healthy := by
  rcases occurs with ⟨before, fuel, source, program, -, ⟨⟨nextId, reads⟩, -⟩, reaches⟩
  exact (reads.healthy (healthy_runAll sink clock before) fuel).reaches reaches

end Session

end Lox
