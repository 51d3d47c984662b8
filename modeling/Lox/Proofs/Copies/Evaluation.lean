import Lox.Proofs.Copies.Machines

/-!
# Runs of copied trees

The steps, put together over all expressions, statements and calls by induction on
the fuel: a tree and its copy run in the same way and use up the same fuel.
-/

namespace Lox

namespace Copying

open Actions Eval

variable {copying : Copying}

/-- What trees and their copies do alike with the given fuel. -/
structure AgreeAt (copying : Copying) (fuel : Nat) : Prop where
  evaluate : ∀ (expr : Expr) {use : UseId → UseId} {line : Nat → Nat} {machine machine' : Machine},
    copying.Machines machine machine' → copying.Labels use line expr.uses →
    copying.Agree machine machine' (evaluate fuel expr) (evaluate fuel (expr.relabel use line))
  evaluateEach : ∀ (exprs : List Expr) {use : UseId → UseId} {line : Nat → Nat}
    {machine machine' : Machine},
    copying.Machines machine machine' → copying.Labels use line (Expr.usesEach exprs) →
    copying.Agree machine machine' (evaluateEach fuel exprs)
      (evaluateEach fuel (Expr.relabelEach use line exprs))
  callValue : ∀ (callee : Value) (arguments : List Value) {line line' : Nat}
    {machine machine' : Machine},
    copying.Machines machine machine' → copying.Lines line line' →
    copying.Agree machine machine' (callValue fuel callee arguments line)
      (callValue fuel callee arguments line')
  callFunction : ∀ {closure closure' : Closure} (arguments : List Value) {line line' : Nat}
    {machine machine' : Machine},
    copying.Machines machine machine' → copying.Closures closure closure' →
    copying.Lines line line' →
    copying.Agree machine machine' (callFunction fuel closure arguments line)
      (callFunction fuel closure' arguments line')
  execute : ∀ (stmt : Stmt) {use : UseId → UseId} {line : Nat → Nat} {machine machine' : Machine},
    copying.Machines machine machine' → copying.Labels use line stmt.ids →
    copying.Agree machine machine' (execute fuel stmt) (execute fuel (stmt.relabel use line))
  executeEach : ∀ (stmts : List Stmt) {use : UseId → UseId} {line : Nat → Nat}
    {machine machine' : Machine},
    copying.Machines machine machine' → copying.Labels use line (Stmt.idsEach stmts) →
    copying.Agree machine machine' (executeEach fuel stmts)
      (executeEach fuel (Stmt.relabelEach use line stmts))
  executeWhile : ∀ (condition : Expr) (body : Stmt) {use : UseId → UseId} {line : Nat → Nat}
    {machine machine' : Machine},
    copying.Machines machine machine' → copying.Labels use line condition.uses →
    copying.Labels use line body.ids →
    copying.Agree machine machine' (executeWhile fuel condition body)
      (executeWhile fuel (condition.relabel use line) (body.relabel use line))

theorem agreeAt_zero : copying.AgreeAt 0 where
  evaluate _ _ _ _ _ copied _ := Agree.throw copied .outOfFuel
  evaluateEach _ _ _ _ _ copied _ := Agree.throw copied .outOfFuel
  callValue _ _ _ _ _ _ copied _ := Agree.throw copied .outOfFuel
  callFunction _ _ _ _ _ copied _ _ := Agree.throw copied .outOfFuel
  execute _ _ _ _ _ copied _ := Agree.throw copied .outOfFuel
  executeEach _ _ _ _ _ copied _ := Agree.throw copied .outOfFuel
  executeWhile _ _ _ _ _ _ copied _ _ := Agree.throw copied .outOfFuel

namespace AgreeAt

variable {fuel : Nat} {machine machine' : Machine} {use : UseId → UseId} {line : Nat → Nat}

theorem evaluate_succ (agree : copying.AgreeAt fuel) (expr : Expr)
    (copied : copying.Machines machine machine') (labels : copying.Labels use line expr.uses) :
    copying.Agree machine machine' (Lox.evaluate (fuel + 1) expr)
      (Lox.evaluate (fuel + 1) (expr.relabel use line)) := by
  cases expr with
  | literal value =>
      rw [Expr.relabel]
      exact Agree.pure copied value.toValue
  | group inner =>
      rw [Expr.relabel]
      exact agree.evaluate inner copied labels
  | unary operator operand =>
      rw [Expr.relabel]
      refine (agree.evaluate operand copied labels).bind fun value _ _ later => ?_
      exact Agree.ofResult later (labels.lines _) _
  | binary left operator right =>
      rw [Expr.relabel]
      rw [Expr.uses] at labels
      refine (agree.evaluate left copied labels.left).bind fun leftValue _ _ later => ?_
      refine (agree.evaluate right later labels.right).bind fun rightValue _ _ later => ?_
      exact Agree.ofResult later (labels.lines _) _
  | logical left operator right =>
      rw [Expr.relabel]
      rw [Expr.uses] at labels
      refine (agree.evaluate left copied labels.left).bind fun value _ _ later => ?_
      have decides : decidesLogical (operator.moved line) value = decidesLogical operator value :=
        rfl
      rw [decides]
      split
      · exact Agree.pure later value
      · exact agree.evaluate right later labels.right
  | var id name =>
      rw [Expr.relabel]
      rw [Expr.uses] at labels
      exact Agree.readVariable copied (labels.same id List.mem_cons_self) rfl (labels.lines _)
  | assign id name value =>
      rw [Expr.relabel]
      rw [Expr.uses] at labels
      have valueLabels := labels.mono (List.subset_cons_self _ _)
      refine (agree.evaluate value copied valueLabels).bind fun result _ _ later => ?_
      have same := labels.same id List.mem_cons_self
      have written := Agree.writeVariable later same (name.moved_text line)
        (labels.lines name.line) result
      exact written.bind fun _ _ _ later => Agree.pure later result
  | call callee closing arguments =>
      rw [Expr.relabel]
      rw [Expr.uses] at labels
      refine (agree.evaluate callee copied labels.left).bind fun calleeValue _ _ later => ?_
      refine (agree.evaluateEach arguments later labels.right).bind fun values _ _ later => ?_
      refine (Agree.checkCall later calleeValue (labels.lines _) _).bind fun _ _ _ later => ?_
      exact Agree.counted later fun entered =>
        agree.callValue calleeValue values entered (labels.lines _)
  | get object name =>
      rw [Expr.relabel]
      refine (agree.evaluate object copied labels).bind fun value _ _ later => ?_
      cases value with
      | object ref => exact Agree.getProperty later ref rfl (labels.lines _)
      | _ => exact Agree.fail later (labels.lines _) _
  | set object name value =>
      rw [Expr.relabel]
      rw [Expr.uses] at labels
      refine (agree.evaluate object copied labels.left).bind fun target _ _ later => ?_
      cases target with
      | object ref =>
          refine (agree.evaluate value later labels.right).bind fun result middle middle' later => ?_
          have set : copying.Agree middle middle'
              (Eval.onHeap fun heap => (heap.setField ref name.text result, ()))
              (Eval.onHeap fun heap => (heap.setField ref name.text result, ())) := by
            refine Agree.onHeap later rfl (later.heap.withObjects ?_)
            rw [later.heap.objects]
          exact set.bind fun _ _ _ later => Agree.pure later result
      | _ => exact Agree.fail later (labels.lines _) _
  | this id keyword =>
      rw [Expr.relabel]
      rw [Expr.uses] at labels
      exact Agree.readVariable copied (labels.same id List.mem_cons_self) rfl (labels.lines _)
  | super id keyword method =>
      rw [Expr.relabel]
      rw [Expr.uses] at labels
      exact Agree.getSuper copied (labels.same id List.mem_cons_self) (labels.lines _) rfl
        (labels.lines _)

theorem evaluateEach_succ (agree : copying.AgreeAt fuel) (exprs : List Expr)
    (copied : copying.Machines machine machine')
    (labels : copying.Labels use line (Expr.usesEach exprs)) :
    copying.Agree machine machine' (Lox.evaluateEach (fuel + 1) exprs)
      (Lox.evaluateEach (fuel + 1) (Expr.relabelEach use line exprs)) := by
  cases exprs with
  | nil =>
      rw [Expr.relabelEach]
      exact Agree.pure copied []
  | cons first rest =>
      rw [Expr.relabelEach]
      rw [Expr.usesEach] at labels
      refine (agree.evaluate first copied labels.left).bind fun value _ _ later => ?_
      refine (agree.evaluateEach rest later labels.right).bind fun values _ _ later => ?_
      exact Agree.pure later (value :: values)

theorem parameterBindings_moved (move : Nat → Nat) (params : List Name) (arguments : List Value) :
    parameterBindings (params.map (Name.moved move)) arguments =
      parameterBindings params arguments := by
  unfold parameterBindings
  rw [List.zip_map_left, List.foldl_map]
  rfl

/-- Copies of a declaration bind the same parameters to the arguments. -/
theorem parameterBindings_copied {declaration declaration' : FunctionDecl}
    (copied : copying.Declarations declaration declaration') (arguments : List Value) :
    parameterBindings declaration'.params arguments =
      parameterBindings declaration.params arguments := by
  cases copied with
  | empty nothing => rfl
  | relabelled labels =>
      rcases declaration with ⟨name, params, body⟩
      rw [Stmt.relabelFunction, parameterBindings_moved]

/-- The bodies of a declaration and its copy run alike. -/
theorem executeBody (agree : copying.AgreeAt fuel) {declaration declaration' : FunctionDecl}
    (declarations : copying.Declarations declaration declaration')
    (copied : copying.Machines machine machine') :
    copying.Agree machine machine' (Lox.executeEach fuel declaration.body)
      (Lox.executeEach fuel declaration'.body) := by
  cases declarations with
  | empty nothing =>
      rw [nothing]
      cases fuel with
      | zero => exact Agree.throw copied .outOfFuel
      | succ fuel => exact Agree.pure copied _
  | relabelled labels =>
      rcases declaration with ⟨name, params, body⟩
      rw [Stmt.functionIds] at labels
      rw [Stmt.relabelFunction]
      exact agree.executeEach body copied labels

theorem callFunction_succ (agree : copying.AgreeAt fuel) {closure closure' : Closure}
    (arguments : List Value) {closing closing' : Nat} (copied : copying.Machines machine machine')
    (closures : copying.Closures closure closure') (lines : copying.Lines closing closing') :
    copying.Agree machine machine' (Lox.callFunction (fuel + 1) closure arguments closing)
      (Lox.callFunction (fuel + 1) closure' arguments closing') := by
  rw [Lox.callFunction, Lox.callFunction, parameterBindings_copied closures.declaration,
    closures.scope]
  refine (Agree.openScope copied _ _).bind fun scope middle middle' later => ?_
  have executed := agree.executeBody closures.declaration (later.enter scope)
  refine (Agree.within later scope executed).bind fun flow _ _ later => ?_
  exact Agree.callResult later closures lines flow

theorem callValue_succ (agree : copying.AgreeAt fuel) (callee : Value) (arguments : List Value)
    {closing closing' : Nat} (copied : copying.Machines machine machine')
    (lines : copying.Lines closing closing') :
    copying.Agree machine machine' (Lox.callValue (fuel + 1) callee arguments closing)
      (Lox.callValue (fuel + 1) callee arguments closing') := by
  cases callee with
  | native ref =>
      refine Agree.get ?_
      rw [copied.heap.native]
      exact Agree.callNative copied _ _ lines
  | function ref =>
      exact Agree.get (agree.callFunction arguments copied (copied.heap.functions ref) lines)
  | classRef ref =>
      refine (Agree.addObject copied ref).bind fun object middle middle' later => Agree.get ?_
      have found := later.heap.findMethod ref "init"
      generalize middle.heap.findMethod? ref "init" = method at found ⊢
      generalize middle'.heap.findMethod? ref "init" = method' at found ⊢
      cases found with
      | none => exact Agree.pure later _
      | some closures =>
          refine Agree.bindHeap later closures _ fun later bound => ?_
          refine (agree.callFunction arguments later bound lines).bind fun _ _ _ later => ?_
          exact Agree.pure later _
  | _ => exact Agree.fail copied lines _

theorem superclassLine_moved (use : UseId → UseId) (line : Nat → Nat) (name : Name)
    (superclass : Expr) :
    superclassLine (name.moved line) (superclass.relabel use line) =
      line (superclassLine name superclass) := by
  cases superclass <;> rw [Expr.relabel] <;> rfl

theorem execute_succ (agree : copying.AgreeAt fuel) (stmt : Stmt)
    (copied : copying.Machines machine machine') (labels : copying.Labels use line stmt.ids) :
    copying.Agree machine machine' (Lox.execute (fuel + 1) stmt)
      (Lox.execute (fuel + 1) (stmt.relabel use line)) := by
  cases stmt with
  | expression value =>
      rw [Stmt.relabel]
      refine (agree.evaluate value copied labels).bind fun _ _ _ later => ?_
      exact Agree.pure later _
  | print value =>
      rw [Stmt.relabel]
      refine (agree.evaluate value copied labels).bind fun result _ _ later => Agree.get ?_
      rw [later.heap.text]
      refine (Agree.writeLine later _).bind fun _ _ _ later => ?_
      exact Agree.pure later _
  | var name initializer =>
      rw [Stmt.relabel]
      cases initializer with
      | none =>
          refine (Agree.define copied name.text .nil).bind fun _ _ _ later => ?_
          exact Agree.pure later _
      | some value =>
          refine (agree.evaluate value copied labels).bind fun result _ _ later => ?_
          refine (Agree.define later name.text result).bind fun _ _ _ later => ?_
          exact Agree.pure later _
  | block body =>
      rw [Stmt.relabel]
      refine Agree.get ?_
      rw [copied.current]
      refine (Agree.openScope copied _ _).bind fun scope _ _ later => ?_
      exact Agree.within later scope (agree.executeEach body (later.enter scope) labels)
  | if_ condition thenBranch elseBranch =>
      rw [Stmt.relabel_if]
      rw [Stmt.ids_if] at labels
      have bothLabels := labels.left
      refine (agree.evaluate condition copied bothLabels.left).bind fun value _ _ later => ?_
      split
      · exact agree.execute thenBranch later bothLabels.right
      · cases elseBranch with
        | none => exact Agree.pure later _
        | some elseBranch =>
            have elseLabels := labels.right
            rw [Option.toList_some, Stmt.idsEach] at elseLabels
            exact agree.execute elseBranch later elseLabels.left
  | while_ condition body =>
      rw [Stmt.relabel]
      rw [Stmt.ids] at labels
      exact agree.executeWhile condition body copied labels.left labels.right
  | function declaration =>
      rw [Stmt.relabel]
      rw [Stmt.ids] at labels
      refine (Agree.declareFunction copied labels).bind fun _ _ _ later => ?_
      exact Agree.pure later _
  | return_ keyword value =>
      rw [Stmt.relabel]
      cases value with
      | none => exact Agree.pure copied _
      | some value =>
          refine (agree.evaluate value copied labels).bind fun result _ _ later => ?_
          exact Agree.pure later _
  | class_ name superclass methods =>
      rw [Stmt.relabel]
      rw [Stmt.ids] at labels
      have methodLabels := labels.right
      cases superclass with
      | none =>
          have declared := Agree.declareClass copied (name.moved_text line) none methodLabels
          exact declared.bind fun _ _ _ later => Agree.pure later _
      | some superclass =>
          have lines := labels.lines (superclassLine name superclass)
          rw [← superclassLine_moved use line name superclass] at lines
          refine (agree.evaluate superclass copied labels.left).bind fun value _ _ later => ?_
          refine (Agree.expectClass later lines value).bind fun parent _ _ later => ?_
          have declared :=
            Agree.declareClass later (name.moved_text line) (some parent) methodLabels
          exact declared.bind fun _ _ _ later => Agree.pure later _

theorem executeEach_succ (agree : copying.AgreeAt fuel) (stmts : List Stmt)
    (copied : copying.Machines machine machine')
    (labels : copying.Labels use line (Stmt.idsEach stmts)) :
    copying.Agree machine machine' (Lox.executeEach (fuel + 1) stmts)
      (Lox.executeEach (fuel + 1) (Stmt.relabelEach use line stmts)) := by
  cases stmts with
  | nil =>
      rw [Stmt.relabelEach]
      exact Agree.pure copied _
  | cons first rest =>
      rw [Stmt.relabelEach]
      rw [Stmt.idsEach] at labels
      refine (agree.execute first copied labels.left).bind fun flow _ _ later => ?_
      cases flow with
      | returned value => exact Agree.pure later _
      | normal => exact agree.executeEach rest later labels.right

theorem executeWhile_succ (agree : copying.AgreeAt fuel) (condition : Expr) (body : Stmt)
    (copied : copying.Machines machine machine')
    (conditionLabels : copying.Labels use line condition.uses)
    (bodyLabels : copying.Labels use line body.ids) :
    copying.Agree machine machine' (Lox.executeWhile (fuel + 1) condition body)
      (Lox.executeWhile (fuel + 1) (condition.relabel use line) (body.relabel use line)) := by
  refine (agree.evaluate condition copied conditionLabels).bind fun value _ _ later => ?_
  split
  · refine (agree.execute body later bodyLabels).bind fun flow _ _ later => ?_
    cases flow with
    | returned value => exact Agree.pure later _
    | normal => exact agree.executeWhile condition body later conditionLabels bodyLabels
  · exact Agree.pure later _

end AgreeAt

theorem agreeAt (fuel : Nat) : copying.AgreeAt fuel := by
  induction fuel with
  | zero => exact agreeAt_zero
  | succ fuel inductionHypothesis =>
      exact {
        evaluate := fun expr _ _ _ _ => inductionHypothesis.evaluate_succ expr
        evaluateEach := fun exprs _ _ _ _ => inductionHypothesis.evaluateEach_succ exprs
        callValue := fun callee arguments _ _ _ _ =>
          inductionHypothesis.callValue_succ callee arguments
        callFunction := fun arguments _ _ _ _ => inductionHypothesis.callFunction_succ arguments
        execute := fun stmt _ _ _ _ => inductionHypothesis.execute_succ stmt
        executeEach := fun stmts _ _ _ _ => inductionHypothesis.executeEach_succ stmts
        executeWhile := fun condition body _ _ _ _ =>
          inductionHypothesis.executeWhile_succ condition body }

/-- A program and its copy run in the same way. -/
theorem executeProgram_agree (fuel : Nat) (program : List Stmt) {machine machine' : Machine}
    {use : UseId → UseId} {line : Nat → Nat} (copied : copying.Machines machine machine')
    (labels : copying.Labels use line (Stmt.idsEach program)) :
    copying.Agree machine machine' (executeProgram fuel program)
      (executeProgram fuel (Stmt.relabelEach use line program)) := by
  induction program generalizing machine machine' with
  | nil =>
      rw [Stmt.relabelEach]
      exact Agree.flush copied
  | cons first rest inductionHypothesis =>
      rw [Stmt.relabelEach]
      rw [Stmt.idsEach] at labels
      refine ((agreeAt fuel).execute first copied labels.left).bind fun _ _ _ later => ?_
      exact inductionHypothesis later labels.right

end Copying

end Lox
