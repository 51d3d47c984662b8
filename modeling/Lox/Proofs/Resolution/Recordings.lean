import Lox.Resolution
import Lox.Proofs.Syntax.Ids

/-!
# What resolution records

Resolution records at most one distance for each use of a variable, whether or not
it meets violations on its way.
-/

namespace Lox

namespace ResolverState

/-- How often the use has been recorded. -/
def timesRecorded (state : ResolverState) (id : UseId) : Nat :=
  (state.uses.toList.map Use.id).count id

variable (state : ResolverState) (id : UseId)

@[simp]
theorem timesRecorded_use (use : UseId) (name : String) (access : Access) :
    (state.use use name access).timesRecorded id = state.timesRecorded id + [use].count id := by
  simp [timesRecorded, ResolverState.use]

@[simp]
theorem timesRecorded_report (name : Name) (fault : ResolutionFault) :
    (state.report name fault).timesRecorded id = state.timesRecorded id :=
  rfl

@[simp]
theorem timesRecorded_enter : state.enter.timesRecorded id = state.timesRecorded id :=
  rfl

@[simp]
theorem timesRecorded_leave : state.leave.timesRecorded id = state.timesRecorded id :=
  rfl

@[simp]
theorem timesRecorded_inClass (context : ClassContext) :
    ({ state with classContext := context } : ResolverState).timesRecorded id =
      state.timesRecorded id :=
  rfl

@[simp]
theorem timesRecorded_inFunction (context : FunctionContext) :
    ({ state with functionContext := context } : ResolverState).timesRecorded id =
      state.timesRecorded id :=
  rfl

@[simp]
theorem timesRecorded_declare (name : Name) :
    (state.declare name).timesRecorded id = state.timesRecorded id := by
  unfold declare
  repeat' split
  all_goals rfl

@[simp]
theorem timesRecorded_define (name : String) :
    (state.define name).timesRecorded id = state.timesRecorded id := by
  unfold define
  split <;> rfl

@[simp]
theorem timesRecorded_introduce (name : Name) :
    (state.introduce name).timesRecorded id = state.timesRecorded id := by
  simp [introduce]

@[simp]
theorem timesRecorded_params (params : List Name) :
    (params.foldl introduce state).timesRecorded id = state.timesRecorded id := by
  induction params generalizing state with
  | nil => rfl
  | cons first rest inductionHypothesis =>
      rw [List.foldl_cons, inductionHypothesis, timesRecorded_introduce]

@[simp]
theorem timesRecorded_checkReturn (line : Nat) (hasValue : Bool) :
    (state.checkReturn line hasValue).timesRecorded id = state.timesRecorded id := by
  unfold checkReturn
  repeat' split
  all_goals rfl

@[simp]
theorem timesRecorded_checkSuperclass (name : Name) (superclass : Expr) :
    (state.checkSuperclass name superclass).timesRecorded id = state.timesRecorded id := by
  unfold checkSuperclass
  repeat' split
  all_goals rfl

@[simp]
theorem timesRecorded_leaveSuperclass (superclass : Option Expr) :
    (state.leaveSuperclass superclass).timesRecorded id = state.timesRecorded id := by
  cases superclass <;> rfl

theorem timesRecorded_read (use : UseId) (name : Name) :
    (state.read use name).timesRecorded id = state.timesRecorded id + [use].count id := by
  unfold read
  dsimp only
  split
  · exact timesRecorded_use state id use name.text .read
  · exact timesRecorded_use state id use name.text .read

end ResolverState

/-! ## Expressions -/

namespace Expr

mutual

/-- A use is recorded at most as often as it occurs. -/
theorem timesRecorded_resolve : ∀ (expr : Expr) (state : ResolverState) (id : UseId),
    (expr.resolve state).timesRecorded id ≤ state.timesRecorded id + expr.uses.count id
  | .literal _, state, id => by simp [resolve, uses]
  | .group inner, state, id => by
      rw [resolve, uses]
      exact timesRecorded_resolve inner state id
  | .unary _ operand, state, id => by
      rw [resolve, uses]
      exact timesRecorded_resolve operand state id
  | .binary left _ right, state, id => by
      have leftBound := timesRecorded_resolve left state id
      have rightBound := timesRecorded_resolve right (left.resolve state) id
      rw [resolve, uses, List.count_append]
      omega
  | .logical left _ right, state, id => by
      have leftBound := timesRecorded_resolve left state id
      have rightBound := timesRecorded_resolve right (left.resolve state) id
      rw [resolve, uses, List.count_append]
      omega
  | .var use name, state, id => by
      rw [resolve, uses]
      exact Nat.le_of_eq (state.timesRecorded_read id use name)
  | .assign use name value, state, id => by
      have valueBound := timesRecorded_resolve value state id
      have split : (use :: value.uses).count id = [use].count id + value.uses.count id := by
        rw [← List.singleton_append, List.count_append]
      rw [resolve, uses, ResolverState.timesRecorded_use, split]
      omega
  | .call callee _ arguments, state, id => by
      have calleeBound := timesRecorded_resolve callee state id
      have argumentsBound := timesRecorded_resolveEach arguments (callee.resolve state) id
      rw [resolve, uses, List.count_append]
      omega
  | .get object _, state, id => by
      rw [resolve, uses]
      exact timesRecorded_resolve object state id
  | .set object _ value, state, id => by
      have valueBound := timesRecorded_resolve value state id
      have objectBound := timesRecorded_resolve object (value.resolve state) id
      rw [resolve, uses, List.count_append]
      omega
  | .this use line, state, id => by
      rw [resolve, uses]
      split
      · simp
      · exact Nat.le_of_eq (state.timesRecorded_use id use "this" .read)
  | .super use line method, state, id => by
      rw [resolve, uses]
      split
      · simp
      · simp
      · exact Nat.le_of_eq (state.timesRecorded_use id use "super" .read)

theorem timesRecorded_resolveEach : ∀ (exprs : List Expr) (state : ResolverState) (id : UseId),
    (resolveEach exprs state).timesRecorded id ≤ state.timesRecorded id + (usesEach exprs).count id
  | [], state, id => by simp [resolveEach, usesEach]
  | first :: rest, state, id => by
      have firstBound := timesRecorded_resolve first state id
      have restBound := timesRecorded_resolveEach rest (first.resolve state) id
      rw [resolveEach, usesEach, List.count_append]
      omega

end

theorem timesRecorded_resolveOption (expr : Option Expr) (state : ResolverState) (id : UseId) :
    (resolveOption expr state).timesRecorded id ≤
      state.timesRecorded id + (optionUses expr).count id := by
  cases expr with
  | none => exact Nat.le_refl _
  | some value => exact timesRecorded_resolve value state id

end Expr

theorem ResolverState.timesRecorded_enterSuperclass (state : ResolverState) (name : Name)
    (superclass : Option Expr) (id : UseId) :
    (state.enterSuperclass name superclass).timesRecorded id ≤
      state.timesRecorded id + (Expr.optionUses superclass).count id := by
  cases superclass with
  | none => exact Nat.le_refl _
  | some superclass =>
      have bound := superclass.timesRecorded_resolve
        { state.checkSuperclass name superclass with classContext := .derived } id
      simpa [enterSuperclass, Expr.optionUses] using bound

/-! ## Statements -/

namespace Stmt

mutual

/-- A use is recorded at most as often as it occurs. -/
theorem timesRecorded_resolve : ∀ (stmt : Stmt) (state : ResolverState) (id : UseId),
    (stmt.resolve state).timesRecorded id ≤ state.timesRecorded id + stmt.ids.count id
  | .expression value, state, id => by
      rw [resolve, ids]
      exact value.timesRecorded_resolve state id
  | .print value, state, id => by
      rw [resolve, ids]
      exact value.timesRecorded_resolve state id
  | .var name initializer, state, id => by
      have bound := Expr.timesRecorded_resolveOption initializer (state.declare name) id
      rw [ResolverState.timesRecorded_declare] at bound
      rw [resolve, ids, ResolverState.timesRecorded_define]
      exact bound
  | .block body, state, id => by
      rw [resolve, ids, ResolverState.timesRecorded_leave]
      exact timesRecorded_resolveEach body state.enter id
  | .if_ condition thenBranch none, state, id => by
      have conditionBound := condition.timesRecorded_resolve state id
      have thenBound := timesRecorded_resolve thenBranch (condition.resolve state) id
      rw [resolve, ids, List.count_append]
      omega
  | .if_ condition thenBranch (some elseBranch), state, id => by
      have conditionBound := condition.timesRecorded_resolve state id
      have thenBound := timesRecorded_resolve thenBranch (condition.resolve state) id
      have elseBound :=
        timesRecorded_resolve elseBranch (thenBranch.resolve (condition.resolve state)) id
      rw [resolve, ids, List.count_append, List.count_append]
      omega
  | .while_ condition body, state, id => by
      have conditionBound := condition.timesRecorded_resolve state id
      have bodyBound := timesRecorded_resolve body (condition.resolve state) id
      rw [resolve, ids, List.count_append]
      omega
  | .function declaration, state, id => by
      have bound :=
        timesRecorded_resolveFunction .function declaration (state.introduce declaration.name) id
      rw [ResolverState.timesRecorded_introduce] at bound
      rw [resolve, ids]
      exact bound
  | .return_ line value, state, id => by
      have bound :=
        Expr.timesRecorded_resolveOption value (state.checkReturn line value.isSome) id
      rw [ResolverState.timesRecorded_checkReturn] at bound
      rw [resolve, ids]
      exact bound
  | .class_ name superclass methods, state, id => by
      have superclassBound := ResolverState.timesRecorded_enterSuperclass
        ({ state with classContext := .plain }.introduce name) name superclass id
      rw [ResolverState.timesRecorded_introduce] at superclassBound
      change _ ≤ state.timesRecorded id + _ at superclassBound
      rw [resolve, ids, List.count_append]
      generalize ({ state with classContext := .plain } : ResolverState).introduce name =
        declared at superclassBound ⊢
      generalize declared.enterSuperclass name superclass = entered at superclassBound ⊢
      have methodsBound := timesRecorded_resolveMethods methods (entered.enter.define "this") id
      simp only [ResolverState.timesRecorded_define, ResolverState.timesRecorded_enter]
        at methodsBound
      have left : (((resolveMethods methods (entered.enter.define "this")).leave).leaveSuperclass
          superclass).timesRecorded id =
            (resolveMethods methods (entered.enter.define "this")).timesRecorded id := by
        rw [ResolverState.timesRecorded_leaveSuperclass, ResolverState.timesRecorded_leave]
      change ResolverState.timesRecorded (((resolveMethods methods
        (entered.enter.define "this")).leave).leaveSuperclass superclass) id ≤ _
      omega

theorem timesRecorded_resolveEach : ∀ (stmts : List Stmt) (state : ResolverState) (id : UseId),
    (resolveEach stmts state).timesRecorded id ≤ state.timesRecorded id + (idsEach stmts).count id
  | [], state, id => by simp [resolveEach, idsEach]
  | first :: rest, state, id => by
      have firstBound := timesRecorded_resolve first state id
      have restBound := timesRecorded_resolveEach rest (first.resolve state) id
      rw [resolveEach, idsEach, List.count_append]
      omega

theorem timesRecorded_resolveFunction : ∀ (context : FunctionContext) (declaration : FunctionDecl)
    (state : ResolverState) (id : UseId),
    (resolveFunction context declaration state).timesRecorded id ≤
      state.timesRecorded id + (functionIds declaration).count id
  | context, ⟨_, params, body⟩, state, id => by
      have bound := timesRecorded_resolveEach body
        (params.foldl ResolverState.introduce { state with functionContext := context }.enter) id
      simpa [resolveFunction, functionIds] using bound

theorem timesRecorded_resolveMethods : ∀ (methods : List FunctionDecl) (state : ResolverState)
    (id : UseId),
    (resolveMethods methods state).timesRecorded id ≤
      state.timesRecorded id + (methodIds methods).count id
  | [], state, id => by simp [resolveMethods, methodIds]
  | first :: rest, state, id => by
      have firstBound :=
        timesRecorded_resolveFunction (methodContext first.name) first state id
      have restBound := timesRecorded_resolveMethods rest
        (resolveFunction (methodContext first.name) first state) id
      rw [resolveMethods, methodIds, List.count_append]
      omega

end

end Stmt

/-- No other uses are recorded for a program than those that occur in it, and none
more often than it occurs. -/
theorem count_resolveProgram_uses (globals : List String) (program : List Stmt) (id : UseId) :
    ((resolveProgram globals program).uses.map Use.id).count id ≤
      (Stmt.idsEach program).count id := by
  have bound := Stmt.timesRecorded_resolveEach program (.initial globals) id
  have initially : (ResolverState.initial globals).timesRecorded id = 0 := rfl
  rw [initially, Nat.zero_add] at bound
  exact bound

end Lox
