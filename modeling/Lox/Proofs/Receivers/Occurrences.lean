import Mathlib.Data.List.Infix
import Lox.Proofs.Receivers.Persistence
import Lox.Proofs.Session.Agreement

/-!
# Moments of a session

What a session evaluates, in whatever unit, happens before the session ends.  So the
heap of every moment persists in the heap in which the history ends, and facts about
different moments can be compared there.
-/

namespace Lox

open Actions Eval

/-! ## How evaluations end -/

/-- The trees of the task are well-formed. -/
def Task.Formed : Task → Prop
  | .evaluate expr => expr.WellFormed
  | .evaluateEach exprs => Expr.WellFormedEach exprs
  | .callValue _ _ _ => True
  | .callFunction closure _ _ => Stmt.FunctionWellFormed closure.declaration
  | .execute stmt => stmt.WellFormed
  | .executeEach stmts => Stmt.WellFormedEach stmts
  | .executeWhile condition body => (Stmt.while_ condition body).WellFormed
  | .executeProgram program => Stmt.WellFormedEach program

/-- The machine and the trees of the moment are well-formed. -/
structure Moment.Formed (moment : Moment) : Prop where
  machine : moment.machine.Formed
  task : moment.task.Formed

/-- A well-formed machine persists until the evaluation ends. -/
theorem Moment.Formed.persists {moment : Moment} (formed : moment.Formed) :
    moment.final.Formed ∧ moment.machine.heap.Persists moment.final.heap := by
  rcases moment with ⟨fuel, task, machine⟩
  rcases formed with ⟨isFormed, taskFormed⟩
  cases task with
  | evaluate expr => exact (keptAt fuel).evaluate expr taskFormed machine isFormed
  | evaluateEach exprs => exact (keptAt fuel).evaluateEach taskFormed machine isFormed
  | callValue callee arguments line =>
      exact (keptAt fuel).callValue callee arguments line machine isFormed
  | callFunction closure arguments line =>
      exact (keptAt fuel).callFunction closure taskFormed arguments line machine isFormed
  | execute stmt => exact (keptAt fuel).execute taskFormed machine isFormed
  | executeEach stmts => exact (keptAt fuel).executeEach taskFormed machine isFormed
  | executeWhile condition body =>
      exact (keptAt fuel).executeWhile taskFormed.1 taskFormed.2.1 machine isFormed
  | executeProgram program => exact kept_executeProgram fuel taskFormed machine isFormed

/-- The second moment is well-formed, and its evaluation ends before that of the
first. -/
structure Moment.Encloses (first second : Moment) : Prop where
  formed : second.Formed
  ends : second.final.heap.Persists first.final.heap

section Sequences

variable {α β : Type} {machine middle : Machine} {first : Eval α} {next : α → Eval β} {value : α}
  {heap : Heap}

theorem Eval.Kept.of_ok (kept : Kept first) (formed : machine.Formed)
    (succeeded : first machine = .ok value middle) : middle.Formed := by
  have ended := (kept machine formed).1
  rw [succeeded] at ended
  exact ended

/-- The first part of a sequence ends before the whole does. -/
theorem persists_first (ended : (endState (first machine)).Formed)
    (kept : ∀ value, Kept (next value)) :
    (endState (first machine)).heap.Persists (endState ((first >>= next) machine)).heap := by
  cases result : first machine with
  | ok value middle =>
      rw [result] at ended
      rw [bind_of_ok result]
      exact (kept value middle ended).2
  | error interrupt middle =>
      rw [bind_of_error result]
      exact .refl _

/-- A sequence ends where what follows its first part does. -/
theorem persists_rest (succeeded : first machine = .ok value middle)
    (persists : heap.Persists (endState (next value middle)).heap) :
    heap.Persists (endState ((first >>= next) machine)).heap := by
  rw [bind_of_ok succeeded]
  exact persists

end Sequences

namespace Calls

variable {fuel : Nat} {machine : Machine} {second : Moment}

theorem enclosed_evaluate {expr : Expr} (calls : Calls ⟨fuel, .evaluate expr, machine⟩ second)
    (formed : machine.Formed) (exprFormed : expr.WellFormed) :
    Moment.Encloses ⟨fuel, .evaluate expr, machine⟩ second := by
  cases calls with
  | group => exact ⟨⟨formed, exprFormed⟩, .refl _⟩
  | @unary fuel _ operand =>
      have ended := (keptAt fuel).evaluate operand exprFormed machine formed
      exact ⟨⟨formed, exprFormed⟩, persists_first ended.1 fun _ => kept_ofResult _ _⟩
  | @binaryLeft fuel left operator right =>
      have ended := (keptAt fuel).evaluate left exprFormed.1 machine formed
      refine ⟨⟨formed, exprFormed.1⟩, persists_first ended.1 fun _ => ?_⟩
      exact ((keptAt fuel).evaluate right exprFormed.2).bind fun _ => kept_ofResult _ _
  | @binaryRight fuel left operator right _ _ middle leftResult =>
      have between := ((keptAt fuel).evaluate left exprFormed.1).of_ok formed leftResult
      have ended := (keptAt fuel).evaluate right exprFormed.2 middle between
      exact ⟨⟨between, exprFormed.2⟩, persists_rest leftResult
        (persists_first ended.1 fun _ => kept_ofResult _ _)⟩
  | @logicalLeft fuel left operator right =>
      have ended := (keptAt fuel).evaluate left exprFormed.1 machine formed
      refine ⟨⟨formed, exprFormed.1⟩, persists_first ended.1 fun _ => ?_⟩
      exact Respects.ite (kept_pure _) ((keptAt fuel).evaluate right exprFormed.2)
  | @logicalRight fuel left operator right _ _ middle leftResult undecided =>
      have between := ((keptAt fuel).evaluate left exprFormed.1).of_ok formed leftResult
      refine ⟨⟨between, exprFormed.2⟩, persists_rest leftResult ?_⟩
      rw [undecided]
      exact .refl _
  | @assign fuel id name value =>
      have ended := (keptAt fuel).evaluate value exprFormed.2 machine formed
      refine ⟨⟨formed, exprFormed.2⟩, persists_first ended.1 fun _ => ?_⟩
      exact (kept_writeVariable id exprFormed.1 _).bind fun _ => kept_pure _
  | @callee fuel callee line arguments =>
      have ended := (keptAt fuel).evaluate callee exprFormed.1 machine formed
      refine ⟨⟨formed, exprFormed.1⟩, persists_first ended.1 fun _ => ?_⟩
      refine ((keptAt fuel).evaluateEach exprFormed.2).bind fun _ => ?_
      exact (kept_checkCall _ line _).bind fun _ => ((keptAt fuel).callValue _ _ line).counted
  | @arguments fuel callee line arguments _ _ middle calleeResult =>
      have between := ((keptAt fuel).evaluate callee exprFormed.1).of_ok formed calleeResult
      have ended := (keptAt fuel).evaluateEach exprFormed.2 middle between
      refine ⟨⟨between, exprFormed.2⟩, persists_rest calleeResult
        (persists_first ended.1 fun _ => ?_)⟩
      exact (kept_checkCall _ line _).bind fun _ => ((keptAt fuel).callValue _ _ line).counted
  | @call fuel callee line arguments _ _ _ _ _ _ calleeResult argumentsResult checkResult =>
      have between := ((keptAt fuel).evaluate callee exprFormed.1).of_ok formed calleeResult
      have later := ((keptAt fuel).evaluateEach exprFormed.2).of_ok between argumentsResult
      have checked := (kept_checkCall _ line _).of_ok later checkResult
      refine ⟨⟨⟨checked.heap, checked.present, checked.noSuper⟩, trivial⟩, ?_⟩
      refine persists_rest calleeResult (persists_rest argumentsResult
        (persists_rest checkResult ?_))
      rw [endState_counted]
      exact .refl _
  | @getObject fuel object name =>
      have ended := (keptAt fuel).evaluate object exprFormed machine formed
      refine ⟨⟨formed, exprFormed⟩, persists_first ended.1 fun found => ?_⟩
      split
      · exact kept_getProperty _ name
      · exact kept_fail _ _
  | @setObject fuel object name value =>
      have ended := (keptAt fuel).evaluate object exprFormed.1 machine formed
      refine ⟨⟨formed, exprFormed.1⟩, persists_first ended.1 fun found => ?_⟩
      split
      · refine ((keptAt fuel).evaluate value exprFormed.2).bind fun _ => ?_
        exact (kept_setField _ name.text _).bind fun _ => kept_pure _
      · exact kept_fail _ _
  | @setValue fuel object name value _ _ middle objectResult =>
      have between := ((keptAt fuel).evaluate object exprFormed.1).of_ok formed objectResult
      have ended := (keptAt fuel).evaluate value exprFormed.2 middle between
      refine ⟨⟨between, exprFormed.2⟩, persists_rest objectResult
        (persists_first ended.1 fun _ => ?_)⟩
      exact (kept_setField _ name.text _).bind fun _ => kept_pure _

theorem enclosed_evaluateEach {exprs : List Expr}
    (calls : Calls ⟨fuel, .evaluateEach exprs, machine⟩ second) (formed : machine.Formed)
    (exprsFormed : Expr.WellFormedEach exprs) :
    Moment.Encloses ⟨fuel, .evaluateEach exprs, machine⟩ second := by
  cases calls with
  | @firstExpr fuel first rest =>
      have ended := (keptAt fuel).evaluate first exprsFormed.1 machine formed
      refine ⟨⟨formed, exprsFormed.1⟩, persists_first ended.1 fun _ => ?_⟩
      exact ((keptAt fuel).evaluateEach exprsFormed.2).bind fun _ => kept_pure _
  | @restExprs fuel first rest _ _ middle firstResult =>
      have between := ((keptAt fuel).evaluate first exprsFormed.1).of_ok formed firstResult
      have ended := (keptAt fuel).evaluateEach exprsFormed.2 middle between
      exact ⟨⟨between, exprsFormed.2⟩, persists_rest firstResult
        (persists_first ended.1 fun _ => kept_pure _)⟩

theorem enclosed_callValue {callee : Value} {arguments : List Value} {line : Nat}
    (calls : Calls ⟨fuel, .callValue callee arguments line, machine⟩ second)
    (formed : machine.Formed) :
    Moment.Encloses ⟨fuel, .callValue callee arguments line, machine⟩ second := by
  cases calls with
  | function => exact ⟨⟨formed, formed.heap.function _⟩, .refl _⟩
  | @initializer fuel ref _ _ _ object middle initializer bound later addResult found bindResult =>
      have between := (kept_addObject ref).of_ok formed addResult
      have isFormed := between.heap.findMethod found
      have bindFormed := (kept_bindHeap initializer (.object object)).of_ok between bindResult
      have boundFormed : Stmt.FunctionWellFormed bound.declaration := by
        cases bindResult
        exact isFormed
      have ended := (keptAt fuel).callFunction bound boundFormed arguments line later bindFormed
      have read : (get : Eval Machine) middle = .ok middle middle := rfl
      refine ⟨⟨bindFormed, boundFormed⟩, persists_rest addResult (persists_rest read ?_)⟩
      rw [found]
      exact persists_rest bindResult (persists_first ended.1 fun _ => kept_pure _)

theorem enclosed_callFunction {closure : Closure} {arguments : List Value} {line : Nat}
    (calls : Calls ⟨fuel, .callFunction closure arguments line, machine⟩ second)
    (formed : machine.Formed) (closureFormed : Stmt.FunctionWellFormed closure.declaration) :
    Moment.Encloses ⟨fuel, .callFunction closure arguments line, machine⟩ second := by
  cases calls with
  | @functionBody fuel _ _ _ _ scope middle openResult =>
      rcases closure with ⟨⟨name, params, body⟩, around, isInitializer⟩
      have noSuper := parameterBindings_super arguments closureFormed.2.1
      have between := (kept_openScope _ _).of_ok formed openResult
      have inside := formed_inside formed noSuper openResult
      have kept := (keptAt fuel).executeEach closureFormed.2.2
      have ended := persists_within kept inside between
      refine ⟨⟨inside, closureFormed.2.2⟩, persists_rest openResult ?_⟩
      have whole := persists_first ended.1 fun flow =>
        kept_callResult ⟨⟨name, params, body⟩, around, isInitializer⟩ line flow
      rw [endState_within] at whole
      exact whole

theorem enclosed_execute {stmt : Stmt} (calls : Calls ⟨fuel, .execute stmt, machine⟩ second)
    (formed : machine.Formed) (stmtFormed : stmt.WellFormed) :
    Moment.Encloses ⟨fuel, .execute stmt, machine⟩ second := by
  cases calls with
  | @expression fuel value =>
      have ended := (keptAt fuel).evaluate value stmtFormed machine formed
      exact ⟨⟨formed, stmtFormed⟩, persists_first ended.1 fun _ => kept_pure _⟩
  | @print fuel value =>
      have ended := (keptAt fuel).evaluate value stmtFormed machine formed
      refine ⟨⟨formed, stmtFormed⟩, persists_first ended.1 fun _ => kept_get fun _ _ => ?_⟩
      exact (kept_writeLine _).bind fun _ => kept_pure _
  | @var fuel name value =>
      have ended := (keptAt fuel).evaluate value (stmtFormed.2 value rfl) machine formed
      refine ⟨⟨formed, stmtFormed.2 value rfl⟩, persists_first ended.1 fun _ => ?_⟩
      exact (kept_define stmtFormed.1.not_reserved _).bind fun _ => kept_pure _
  | @block fuel body _ scope middle openResult =>
      have inside := formed_inside formed (by simp) openResult
      have started : (get : Eval Machine) machine = .ok machine machine := rfl
      refine ⟨⟨inside, stmtFormed⟩, persists_rest started (persists_rest openResult ?_)⟩
      rw [endState_within]
      exact .refl _
  | @ifCondition fuel condition thenBranch elseBranch =>
      have conditionFormed := Stmt.condition_wellFormed stmtFormed
      have ended := (keptAt fuel).evaluate condition conditionFormed machine formed
      refine ⟨⟨formed, conditionFormed⟩, persists_first ended.1 fun _ => Respects.ite
        ((keptAt fuel).execute (Stmt.thenBranch_wellFormed stmtFormed)) ?_⟩
      cases elseBranch with
      | none => exact kept_pure _
      | some elseBranch => exact (keptAt fuel).execute stmtFormed.2.2.1
  | @thenBranch fuel condition thenBranch elseBranch _ _ middle conditionResult isTrue =>
      have conditionFormed := Stmt.condition_wellFormed stmtFormed
      have between := ((keptAt fuel).evaluate condition conditionFormed).of_ok formed
        conditionResult
      refine ⟨⟨between, Stmt.thenBranch_wellFormed stmtFormed⟩, persists_rest conditionResult ?_⟩
      rw [if_pos isTrue]
      exact .refl _
  | @elseBranch fuel condition thenBranch elseBranch _ _ middle conditionResult isFalse =>
      have conditionFormed := Stmt.condition_wellFormed stmtFormed
      have between := ((keptAt fuel).evaluate condition conditionFormed).of_ok formed
        conditionResult
      refine ⟨⟨between, stmtFormed.2.2.1⟩, persists_rest conditionResult ?_⟩
      rw [isFalse]
      exact .refl _
  | loop => exact ⟨⟨formed, stmtFormed⟩, .refl _⟩
  | @return_ fuel line value =>
      have ended := (keptAt fuel).evaluate value (stmtFormed value rfl) machine formed
      exact ⟨⟨formed, stmtFormed value rfl⟩, persists_first ended.1 fun _ => kept_pure _⟩
  | @superclass fuel name superclass methods =>
      have isFormed := (stmtFormed.2.1 superclass rfl).wellFormed
      have ended := (keptAt fuel).evaluate superclass isFormed machine formed
      refine ⟨⟨formed, isFormed⟩, persists_first ended.1 fun _ => ?_⟩
      refine (kept_expectClass _ _).bind fun parent => ?_
      exact (kept_declareClass stmtFormed.1 (some parent) stmtFormed.2.2).bind fun _ => kept_pure _

theorem enclosed_executeEach {stmts : List Stmt}
    (calls : Calls ⟨fuel, .executeEach stmts, machine⟩ second) (formed : machine.Formed)
    (stmtsFormed : Stmt.WellFormedEach stmts) :
    Moment.Encloses ⟨fuel, .executeEach stmts, machine⟩ second := by
  cases calls with
  | @firstStmt fuel first rest =>
      have ended := (keptAt fuel).execute stmtsFormed.1 machine formed
      refine ⟨⟨formed, stmtsFormed.1⟩, persists_first ended.1 fun flow => ?_⟩
      cases flow with
      | returned value => exact kept_pure _
      | normal => exact (keptAt fuel).executeEach stmtsFormed.2
  | @restStmts fuel first rest _ middle firstResult =>
      have between := ((keptAt fuel).execute stmtsFormed.1).of_ok formed firstResult
      exact ⟨⟨between, stmtsFormed.2⟩, persists_rest firstResult (.refl _)⟩

theorem enclosed_executeWhile {condition : Expr} {body : Stmt}
    (calls : Calls ⟨fuel, .executeWhile condition body, machine⟩ second)
    (formed : machine.Formed) (loopFormed : (Stmt.while_ condition body).WellFormed) :
    Moment.Encloses ⟨fuel, .executeWhile condition body, machine⟩ second := by
  rcases loopFormed with ⟨conditionFormed, bodyFormed, bodyDeclares⟩
  cases calls with
  | @loopCondition fuel =>
      have ended := (keptAt fuel).evaluate condition conditionFormed machine formed
      refine ⟨⟨formed, conditionFormed⟩, persists_first ended.1 fun _ => Respects.ite ?_
        (kept_pure _)⟩
      refine ((keptAt fuel).execute bodyFormed).bind fun flow => ?_
      cases flow with
      | returned value => exact kept_pure _
      | normal => exact (keptAt fuel).executeWhile conditionFormed bodyFormed
  | @loopBody fuel _ _ _ _ middle conditionResult isTrue =>
      have between := ((keptAt fuel).evaluate condition conditionFormed).of_ok formed
        conditionResult
      have ended := (keptAt fuel).execute bodyFormed middle between
      refine ⟨⟨between, bodyFormed⟩, persists_rest conditionResult ?_⟩
      rw [if_pos isTrue]
      refine persists_first ended.1 fun flow => ?_
      cases flow with
      | returned value => exact kept_pure _
      | normal => exact (keptAt fuel).executeWhile conditionFormed bodyFormed
  | @loopAgain fuel _ _ _ _ middle later conditionResult isTrue bodyResult =>
      have between := ((keptAt fuel).evaluate condition conditionFormed).of_ok formed
        conditionResult
      have after := ((keptAt fuel).execute bodyFormed).of_ok between bodyResult
      refine ⟨⟨after, conditionFormed, bodyFormed, bodyDeclares⟩, persists_rest conditionResult ?_⟩
      rw [if_pos isTrue]
      exact persists_rest bodyResult (.refl _)

theorem enclosed_executeProgram {program : List Stmt}
    (calls : Calls ⟨fuel, .executeProgram program, machine⟩ second) (formed : machine.Formed)
    (programFormed : Stmt.WellFormedEach program) :
    Moment.Encloses ⟨fuel, .executeProgram program, machine⟩ second := by
  cases calls with
  | @firstOfProgram _ first rest =>
      have ended := (keptAt fuel).execute programFormed.1 machine formed
      exact ⟨⟨formed, programFormed.1⟩, persists_first ended.1 fun _ =>
        kept_executeProgram fuel programFormed.2⟩
  | @restOfProgram _ first rest _ _ middle firstResult =>
      have between := ((keptAt fuel).execute programFormed.1).of_ok formed firstResult
      exact ⟨⟨between, programFormed.2⟩, persists_rest firstResult (.refl _)⟩

/-- What a moment starts ends before it. -/
theorem enclosed {first : Moment} (calls : Calls first second) (formed : first.Formed) :
    first.Encloses second := by
  rcases first with ⟨fuel, task, machine⟩
  rcases formed with ⟨isFormed, taskFormed⟩
  cases task with
  | evaluate expr => exact calls.enclosed_evaluate isFormed taskFormed
  | evaluateEach exprs => exact calls.enclosed_evaluateEach isFormed taskFormed
  | callValue callee arguments line => exact calls.enclosed_callValue isFormed
  | callFunction closure arguments line => exact calls.enclosed_callFunction isFormed taskFormed
  | execute stmt => exact calls.enclosed_execute isFormed taskFormed
  | executeEach stmts => exact calls.enclosed_executeEach isFormed taskFormed
  | executeWhile condition body => exact calls.enclosed_executeWhile isFormed taskFormed
  | executeProgram program => exact calls.enclosed_executeProgram isFormed taskFormed

end Calls

/-- What is reached from a moment ends before it. -/
theorem Reaches.enclosed {start moment : Moment} (reaches : Reaches start moment)
    (formed : start.Formed) : start.Encloses moment := by
  induction reaches with
  | refl => exact ⟨formed, .refl _⟩
  | tail _ calls inductionHypothesis =>
      have last := calls.enclosed inductionHypothesis.formed
      exact ⟨last.formed, last.ends.trans inductionHypothesis.ends⟩

/-! ## Histories -/

namespace Session

variable {sink : Sink} {clock : Clock} {units : List (Nat × String)}

/-- The moment comes up in an accepted unit among the given ones, which are run one
after another from a new session on. -/
def Occurs (sink : Sink) (clock : Clock) (units : List (Nat × String)) (moment : Moment) : Prop :=
  ∃ before fuel source program, before ++ [(fuel, source)] <+: units ∧
    ((initial sink clock).runAll before).Accepts source program ∧
    Reaches ⟨fuel, .executeProgram program, ((initial sink clock).runAll before).resolved program⟩
      moment

theorem Occurs.calls {first second : Moment} (occurs : Occurs sink clock units first)
    (calls : Calls first second) : Occurs sink clock units second := by
  rcases occurs with ⟨before, fuel, source, program, isPrefix, accepted, reaches⟩
  exact ⟨before, fuel, source, program, isPrefix, accepted, reaches.tail calls⟩

/-- A well-formed machine is well-formed after a unit, and its heap persists. -/
theorem run_persists (session : Session) (fuel : Nat) (source : String) :
    session.machine.Persists (session.run fuel source).2.machine := by
  rcases session.run_cases fuel source with
    ⟨program, nextId, reads⟩ | ⟨errors, nextId, -, rejected⟩
  · rw [reads.run_eq]
    by_cases clean : (resolveProgram session.machine.globalNames program).errors = []
    · rw [runProgram_clean clean]
      intro formed
      have resolved : (session.resolved program).Formed :=
        ⟨formed.heap, formed.present, formed.noSuper⟩
      rcases kept_executeProgram fuel reads.takes.wellFormed _ resolved with ⟨final, persists⟩
      exact ⟨⟨final.heap, final.present, final.noSuper⟩, persists⟩
    · rw [runProgram_unclean clean]
      intro formed
      exact ⟨⟨formed.heap, formed.present, formed.noSuper⟩, .refl _⟩
  · rw [rejected]
    exact Machine.persistsOrder.refl _

theorem runAll_persists (session : Session) (units : List (Nat × String)) :
    session.machine.Persists (session.runAll units).machine := by
  induction units using List.reverseRecOn with
  | nil => exact Machine.persistsOrder.refl _
  | append_singleton units unit inductionHypothesis =>
      rw [runAll_append_singleton]
      exact Machine.persistsOrder.trans inductionHypothesis (run_persists _ _ _)

theorem formed_initial (sink : Sink) (clock : Clock) : (initial sink clock).machine.Formed := by
  refine ⟨⟨?_, ?_⟩, Nat.zero_lt_one, ?_⟩
  · intro index closure found
    simp [initial, Machine.initial, Heap.empty] at found
  · intro index info found
    simp [initial, Machine.initial, Heap.empty] at found
  · change ((∅ : Bindings).insert "clock" (.native ⟨0⟩))["super"]? = none
    rw [Table.getElem?_insert, if_neg (by decide)]
    rfl

theorem formed_runAll (sink : Sink) (clock : Clock) (units : List (Nat × String)) :
    ((initial sink clock).runAll units).machine.Formed :=
  (runAll_persists (initial sink clock) units (formed_initial sink clock)).1

theorem runAll_append (session : Session) (before after : List (Nat × String)) :
    session.runAll (before ++ after) = (session.runAll before).runAll after :=
  List.foldl_append

/-- What occurs is well-formed, and ends before the history does. -/
theorem Occurs.enclosed {moment : Moment} (occurs : Occurs sink clock units moment) :
    moment.Formed ∧
      moment.final.heap.Persists ((initial sink clock).runAll units).machine.heap := by
  rcases occurs with ⟨before, fuel, source, program, ⟨after, rfl⟩, accepted, reaches⟩
  rcases accepted with ⟨⟨nextId, reads⟩, clean⟩
  have session := formed_runAll sink clock before
  have started : Moment.Formed ⟨fuel, .executeProgram program,
      ((initial sink clock).runAll before).resolved program⟩ :=
    ⟨⟨session.heap, session.present, session.noSuper⟩, reads.takes.wellFormed⟩
  have enclosed := reaches.enclosed started
  refine ⟨enclosed.formed, enclosed.ends.trans ?_⟩
  have ran := formed_runAll sink clock (before ++ [(fuel, source)])
  have rest := (runAll_persists _ after ran).2
  rw [← runAll_append, runAll_append_singleton, reads.run_eq, runProgram_clean clean] at rest
  exact rest

theorem Occurs.persists {moment : Moment} (occurs : Occurs sink clock units moment) :
    moment.machine.heap.Persists ((initial sink clock).runAll units).machine.heap :=
  occurs.enclosed.1.persists.2.trans occurs.enclosed.2

/-! ## Visits of a history -/

/-- Every moment is where resolution was: what it evaluates was visited in an accepted
unit, and the distances are those that resolution found. -/
theorem Occurs.ready {moment : Moment} (occurs : Occurs sink clock units moment) :
    ∃ known : Visit → Prop, moment.Ready known ∧ ∀ visit, known visit →
      VisitedIn sink clock units visit ∧ visit.Legal ∧
        moment.machine.distances[visit.id]? = visit.use.distance := by
  rcases occurs with ⟨before, fuel, source, program, ⟨after, rfl⟩, accepted, reaches⟩
  rcases accepted with ⟨⟨nextId, reads⟩, clean⟩
  have settled := settled_runAll sink clock before
  refine ⟨_, reaches.ready (reads.takes.ready settled clean fuel), ?_⟩
  intro visit knows
  rw [reaches.distances]
  refine ⟨?_, knows.legal, knows.recorded⟩
  rcases knows.origin with isOld | isNew
  · rcases isOld.1 with ⟨earlier, unit, unitProgram, isPrefix, unitAccepted, visited⟩
    refine ⟨earlier, unit, unitProgram, isPrefix.trans ?_, unitAccepted, visited⟩
    rw [List.append_assoc]
    exact List.prefix_append _ _
  · exact ⟨before, (fuel, source), program, List.prefix_append _ _, ⟨⟨nextId, reads⟩, clean⟩, isNew⟩

theorem nextId_le_run (session : Session) (fuel : Nat) (source : String) :
    session.nextId ≤ (session.run fuel source).2.nextId := by
  rcases session.run_cases fuel source with
    ⟨program, nextId, reads⟩ | ⟨errors, nextId, ascending, rejected⟩
  · rw [reads.run_eq]
    exact reads.takes.nextId_le
  · rw [rejected]
    exact ascending

theorem nextId_le_runAll (session : Session) (units : List (Nat × String)) :
    session.nextId ≤ (session.runAll units).nextId := by
  induction units using List.reverseRecOn with
  | nil => exact Nat.le_refl _
  | append_singleton units unit inductionHypothesis =>
      rw [runAll_append_singleton]
      exact Nat.le_trans inductionHypothesis (nextId_le_run _ _ _)

/-- The identities in a unit are given out while it is read. -/
theorem Accepts.bounds {session : Session} {source : String} {program : List Stmt}
    (accepted : session.Accepts source program) {visit : Visit}
    (visited : visit ∈ Stmt.visitsEach [] false program) (fuel : Nat) :
    session.nextId ≤ visit.id ∧ visit.id < (session.run fuel source).2.nextId := by
  rcases accepted with ⟨⟨nextId, reads⟩, -⟩
  rw [reads.run_eq]
  exact reads.takes.fresh.mem_bounds (List.mem_map_of_mem visited)

/-- A use that was visited in a unit is not visited in a later one. -/
theorem ne_of_later {before later : List (Nat × String)} {unit laterUnit : Nat × String}
    {program laterProgram : List Stmt} {visit laterVisit : Visit}
    (accepted : ((initial sink clock).runAll before).Accepts unit.2 program)
    (visited : visit ∈ Stmt.visitsEach [] false program)
    (laterAccepted : ((initial sink clock).runAll later).Accepts laterUnit.2 laterProgram)
    (laterVisited : laterVisit ∈ Stmt.visitsEach [] false laterProgram)
    (isPrefix : before ++ [unit] <+: later) : visit.id ≠ laterVisit.id := by
  rcases isPrefix with ⟨between, rfl⟩
  have bounds := accepted.bounds visited unit.1
  have laterBounds := laterAccepted.bounds laterVisited laterUnit.1
  have ascending := nextId_le_runAll ((initial sink clock).runAll (before ++ [unit])) between
  rw [← runAll_append] at ascending
  rw [runAll_append_singleton] at ascending
  intro same
  rw [same] at bounds
  exact Nat.lt_irrefl _ (Nat.lt_of_lt_of_le bounds.2 (Nat.le_trans ascending laterBounds.1))

/-- An identity stands for one visit of the whole history. -/
theorem VisitedIn.eq_of_id {visit other : Visit} (visited : VisitedIn sink clock units visit)
    (otherVisited : VisitedIn sink clock units other) (same : visit.id = other.id) :
    visit = other := by
  rcases visited with ⟨before, unit, program, isPrefix, accepted, member⟩
  rcases otherVisited with ⟨before', unit', program', isPrefix', accepted', member'⟩
  rcases Nat.lt_trichotomy before.length before'.length with less | equal | greater
  · have earlier : before ++ [unit] <+: before' := by
      apply List.prefix_of_prefix_length_le isPrefix ((List.prefix_append _ _).trans isPrefix')
      rw [List.length_append, List.length_singleton]
      exact less
    exact absurd same (ne_of_later accepted member accepted' member' earlier)
  · have equalUnits : before ++ [unit] = before' ++ [unit'] := by
      apply (List.prefix_of_prefix_length_le isPrefix isPrefix' ?_).eq_of_length ?_
      · simp [equal]
      · simp [equal]
    rcases List.append_inj equalUnits equal with ⟨rfl, sameUnit⟩
    cases sameUnit
    rcases accepted with ⟨⟨nextId, reads⟩, -⟩
    rcases accepted' with ⟨⟨nextId', reads'⟩, -⟩
    have sameProgram : (Except.ok program, nextId) = (Except.ok program', nextId') :=
      reads.parsed.symm.trans reads'.parsed
    cases sameProgram
    exact List.inj_on_of_nodup_map reads.takes.fresh.nodup member member' same
  · have later : before' ++ [unit'] <+: before := by
      apply List.prefix_of_prefix_length_le isPrefix' ((List.prefix_append _ _).trans isPrefix)
      rw [List.length_append, List.length_singleton]
      exact greater
    exact absurd same.symm (ne_of_later accepted' member' accepted member later)

end Session

end Lox
