import Lox.Proofs.Evaluation.FunctionLaws

/-!
# Returning

Outside functions nothing may return, and initializers may return without a value
only.  Where a statement follows the rule for its place, it ends in a way that the
rule allows.  Whatever the rule, a statement that returns has executed the `return`
last, and no other one before it, and leaves the machine as this `return` has left it;
one that ends normally has executed none.
-/

namespace Lox

open Actions Eval Timeline

/-! ## Rules for `return` -/

/-- What may be returned at some place of a program. -/
inductive ReturnRule where
  /-- Nothing: there is no function around. -/
  | never
  /-- The function around is an initializer. -/
  | bare
  | free
  deriving DecidableEq, Repr

namespace ReturnRule

/-- The rule for the body of a function. -/
def ofBody (isInitializer : Bool) : ReturnRule :=
  if isInitializer then .bare else .free

/-- Whether a `return`, with or without a value, may stand at the place. -/
def Allows : ReturnRule → Bool → Prop
  | .never, _ => False
  | .bare, hasValue => hasValue = false
  | .free, _ => True

/-- Whether a statement at the place may end like this. -/
def Permits (rule : ReturnRule) : Flow → Prop
  | .normal => True
  | .returned value => rule = .free ∨ (rule = .bare ∧ value = .nil)

theorem Permits.eq_normal {flow : Flow} (permitted : ReturnRule.never.Permits flow) :
    flow = .normal := by
  cases flow with
  | normal => rfl
  | returned value => rcases permitted with isFree | ⟨isBare, -⟩ <;> contradiction

theorem Permits.of_bare {flow : Flow} (permitted : ReturnRule.bare.Permits flow) :
    flow = .normal ∨ flow = .returned .nil := by
  cases flow with
  | normal => exact .inl rfl
  | returned value =>
      rcases permitted with isFree | ⟨-, rfl⟩
      · contradiction
      · exact .inr rfl

end ReturnRule

namespace Stmt

mutual

/-- Every `return` in the statement follows the rule for its place; the given rule is
that for the statement itself. -/
def Follows (rule : ReturnRule) : Stmt → Prop
  | .expression _ => True
  | .print _ => True
  | .var _ _ => True
  | .block body => FollowsEach rule body
  | .if_ _ thenBranch none => thenBranch.Follows rule
  | .if_ _ thenBranch (some elseBranch) => thenBranch.Follows rule ∧ elseBranch.Follows rule
  | .while_ _ body => body.Follows rule
  | .function ⟨_, _, body⟩ => FollowsEach .free body
  | .return_ _ value => rule.Allows value.isSome
  | .class_ _ _ methods => MethodsFollow methods

/-- Every `return` in the statements follows the rule for its place. -/
def FollowsEach (rule : ReturnRule) : List Stmt → Prop
  | [] => True
  | first :: rest => first.Follows rule ∧ FollowsEach rule rest

/-- Every `return` in the methods follows the rule for its place. -/
def MethodsFollow : List FunctionDecl → Prop
  | [] => True
  | ⟨name, _, body⟩ :: rest =>
      FollowsEach (.ofBody (name.text = "init")) body ∧ MethodsFollow rest

end

variable {rule : ReturnRule}

theorem Follows.thenBranch {condition : Expr} {thenBranch : Stmt} {elseBranch : Option Stmt}
    (follows : (Stmt.if_ condition thenBranch elseBranch).Follows rule) :
    thenBranch.Follows rule := by
  cases elseBranch with
  | none => exact follows
  | some elseBranch => exact follows.1

theorem FollowsEach.of_mem {stmts : List Stmt} (follows : FollowsEach rule stmts) {stmt : Stmt}
    (member : stmt ∈ stmts) : stmt.Follows rule := by
  induction stmts with
  | nil => cases member
  | cons first rest inductionHypothesis =>
      rcases List.mem_cons.mp member with rfl | later
      · exact follows.1
      · exact inductionHypothesis follows.2 later

end Stmt

/-- The law for functions: their bodies follow the rule for `return`. -/
def returnLaw : FunctionLaw :=
  fun isInitializer declaration =>
    Stmt.FollowsEach (.ofBody isInitializer) declaration.body

namespace Stmt

theorem MethodsFollow.of_mem {methods : List FunctionDecl} (follows : MethodsFollow methods)
    {method : FunctionDecl} (member : method ∈ methods) :
    returnLaw (method.name.text = "init") method := by
  induction methods with
  | nil => cases member
  | cons first rest inductionHypothesis =>
      obtain ⟨name, params, body⟩ := first
      rcases List.mem_cons.mp member with rfl | later
      · exact follows.1
      · exact inductionHypothesis follows.2 later

mutual

theorem Follows.obeys {rule : ReturnRule} :
    ∀ {stmt : Stmt}, stmt.Follows rule → stmt.Obeys returnLaw
  | .expression _, _ => trivial
  | .print _, _ => trivial
  | .var _ _, _ => trivial
  | .block body, follows => @FollowsEach.obeys rule body follows
  | .if_ _ thenBranch none, follows => @Follows.obeys rule thenBranch follows
  | .if_ _ _ (some _), follows => ⟨Follows.obeys follows.1, Follows.obeys follows.2⟩
  | .while_ _ body, follows => @Follows.obeys rule body follows
  | .function ⟨_, _, _⟩, follows => follows
  | .return_ _ _, _ => trivial
  | .class_ _ _ _, follows => fun _ member => MethodsFollow.of_mem follows member

theorem FollowsEach.obeys {rule : ReturnRule} :
    ∀ {stmts : List Stmt}, FollowsEach rule stmts → ObeysEach returnLaw stmts
  | [], _ => trivial
  | _ :: _, follows => ⟨Follows.obeys follows.1, FollowsEach.obeys follows.2⟩

end

end Stmt

theorem hereditary_returnLaw : returnLaw.Hereditary where
  body follows := Stmt.FollowsEach.obeys follows
  default := trivial

/-! ## Executions and their parts -/

namespace Task

/-- The task executes statements. -/
def isExecution : Task → Bool
  | .execute _ => true
  | .executeEach _ => true
  | .executeWhile _ _ => true
  | _ => false

/-- Every `return` in what the task executes follows the rule for its place. -/
def Follows (rule : ReturnRule) : Task → Prop
  | .execute stmt => stmt.Follows rule
  | .executeEach stmts => Stmt.FollowsEach rule stmts
  | .executeWhile _ body => body.Follows rule
  | _ => True

end Task

namespace Moment

/-- How the execution that starts at the moment ends, if it completes. -/
def flow? : Moment → Option Flow
  | ⟨fuel, .execute stmt, machine⟩ => value? (execute fuel stmt machine)
  | ⟨fuel, .executeEach stmts, machine⟩ => value? (executeEach fuel stmts machine)
  | ⟨fuel, .executeWhile condition body, machine⟩ =>
      value? (executeWhile fuel condition body machine)
  | _ => none

/-- The executions that the one starting at this moment starts itself, in order. -/
def executions (moment : Moment) : List Moment :=
  moment.parts.filter fun part => part.task.isExecution

theorem mem_executions_iff {moment part : Moment} :
    part ∈ moment.executions ↔ Calls moment part ∧ part.task.isExecution = true := by
  rw [executions, List.mem_filter, mem_parts_iff]

theorem rank_lt_of_mem_executions {moment part : Moment} (isPart : part ∈ moment.executions) :
    Prod.Lex (· < ·) (· < ·) (part.fuel, part.remaining) (moment.fuel, moment.remaining) :=
  rank_lt_of_mem_parts (mem_parts_iff.mpr (mem_executions_iff.mp isPart).1)

/-- A `return` is executed. -/
def IsReturn (moment : Moment) : Prop :=
  ∃ line value, moment.task = .execute (.return_ line value)

/-- A `return` is executed, and this is what it returns. -/
inductive Returns : Moment → Value → Prop where
  | bare {fuel line machine} : Returns ⟨fuel + 1, .execute (.return_ line none), machine⟩ .nil
  | value {fuel line expr machine result final} :
      evaluate fuel expr machine = .ok result final →
      Returns ⟨fuel + 1, .execute (.return_ line (some expr)), machine⟩ result

end Moment

/-- The machines are the same, but perhaps for the scope in force. -/
def Machine.SameButScope (machine other : Machine) : Prop :=
  { machine with current := other.current } = other

namespace Machine.SameButScope

variable {first second third : Machine}

theorem of_eq (same : first = second) : first.SameButScope second := by
  rw [same, SameButScope]

theorem trans (same : first.SameButScope second) (again : second.SameButScope third) :
    first.SameButScope third := by
  rw [SameButScope] at same again ⊢
  rw [← again, ← same]

end Machine.SameButScope

/-- All executions end normally, or all but the last one, which returns: so the whole
ends, with this machine.  What returns leaves this machine, but for the scope. -/
inductive EndsLike (ended : Machine) : List Moment → Flow → Prop where
  | normal : EndsLike ended [] .normal
  | returned {last value} : Moment.flow? last = some (.returned value) →
      (Moment.final last).SameButScope ended → EndsLike ended [last] (.returned value)
  | next {first rest flow} : Moment.flow? first = some .normal → EndsLike ended rest flow →
      EndsLike ended (first :: rest) flow

theorem EndsLike.single {moment : Moment} {flow : Flow} {ended : Machine}
    (ends : moment.flow? = some flow) (same : moment.final.SameButScope ended) :
    EndsLike ended [moment] flow := by
  cases flow with
  | normal => exact .next ends .normal
  | returned value => exact .returned ends same

section Ends

variable {α : Type} {fuel : Nat} {machine final : Machine} {flow : Flow}

theorem value?_of_ok {action : Eval α} {value : α} (ended : action machine = .ok value final) :
    value? (action machine) = some value := by
  rw [ended]
  rfl

theorem sameButScope_of_ok {α : Type} {action : Eval α} {value : α}
    (ended : action machine = .ok value final) :
    (endState (action machine)).SameButScope final := by
  rw [ended]
  exact .of_eq rfl

theorem value?_within (scope : ScopeRef) (action : Eval α) (machine : Machine) :
    value? (within scope action machine) = value? (action { machine with current := scope }) := by
  rw [within]
  cases action { machine with current := scope } with
  | ok value final => rfl
  | error cause final => rfl

theorem sameButScope_within {scope : ScopeRef} {action : Eval α} {value : α}
    (ended : within scope action machine = .ok value final) :
    (endState (action { machine with current := scope })).SameButScope final := by
  have restored := endState_within scope action machine
  rw [ended, endState_ok] at restored
  rw [Machine.SameButScope, restored]

/-- An action and then the normal end. -/
theorem eq_normal {action : Eval α}
    (ended : (action >>= fun _ => pure Flow.normal : Eval Flow) machine = .ok flow final) :
    flow = .normal := by
  obtain ⟨value, middle, -, finished⟩ := bind_eq_ok_iff.mp ended
  exact (pure_eq_ok_iff.mp finished).1.symm

theorem endsLike_execute {stmt : Stmt} (ended : execute (fuel + 1) stmt machine = .ok flow final)
    (noReturn : ∀ line value, stmt ≠ .return_ line value) :
    EndsLike final (Moment.executions ⟨fuel + 1, .execute stmt, machine⟩) flow := by
  cases stmt with
  | expression value =>
      obtain rfl := eq_normal ended
      exact .normal
  | print value =>
      obtain ⟨result, middle, -, printed⟩ := bind_eq_ok_iff.mp ended
      obtain ⟨heap, later, -, finished⟩ := bind_eq_ok_iff.mp printed
      obtain rfl := eq_normal finished
      exact .normal
  | var name initializer =>
      cases initializer with
      | none =>
          obtain rfl := eq_normal ended
          exact .normal
      | some value =>
          obtain ⟨result, middle, -, finished⟩ := bind_eq_ok_iff.mp ended
          obtain rfl := eq_normal finished
          exact .normal
  | block body =>
      have body := value?_of_ok ended
      exact .single ((value?_within _ _ _).symm.trans body) (sameButScope_within ended)
  | if_ condition thenBranch elseBranch =>
      obtain ⟨value, middle, evaluated, chosen⟩ := bind_eq_ok_iff.mp ended
      change EndsLike final (List.filter _ (startThen _ _ _ _ machine)) flow
      rw [startThen, after_of_ok evaluated]
      split at chosen
      next truthy =>
        rw [if_pos truthy]
        exact .single (value?_of_ok chosen) (sameButScope_of_ok chosen)
      next falsy =>
        rw [if_neg falsy]
        cases elseBranch with
        | none =>
            obtain ⟨rfl, -⟩ := pure_eq_ok_iff.mp chosen
            exact .normal
        | some elseBranch => exact .single (value?_of_ok chosen) (sameButScope_of_ok chosen)
  | while_ condition body => exact .single (value?_of_ok ended) (sameButScope_of_ok ended)
  | function declaration =>
      obtain rfl := eq_normal ended
      exact .normal
  | return_ line value => exact absurd rfl (noReturn line value)
  | class_ name superclass methods =>
      cases superclass with
      | none =>
          obtain rfl := eq_normal ended
          exact .normal
      | some superclass =>
          obtain ⟨value, middle, -, evaluated⟩ := bind_eq_ok_iff.mp ended
          obtain ⟨parent, later, -, declared⟩ := bind_eq_ok_iff.mp evaluated
          obtain rfl := eq_normal declared
          exact .normal

theorem endsLike_executeEach {stmts : List Stmt}
    (ended : executeEach (fuel + 1) stmts machine = .ok flow final) :
    EndsLike final (Moment.executions ⟨fuel + 1, .executeEach stmts, machine⟩) flow := by
  cases stmts with
  | nil =>
      obtain ⟨rfl, -⟩ := pure_eq_ok_iff.mp ended
      exact .normal
  | cons first rest =>
      obtain ⟨firstFlow, middle, executed, continued⟩ := bind_eq_ok_iff.mp ended
      rw [Moment.executions, Moment.parts, Task.parts, startThen, after_of_ok executed]
      cases firstFlow with
      | normal =>
          have same := sameButScope_of_ok continued
          exact .next (value?_of_ok executed) (.single (value?_of_ok continued) same)
      | returned value =>
          obtain ⟨rfl, rfl⟩ := pure_eq_ok_iff.mp continued
          exact .returned (value?_of_ok executed) (sameButScope_of_ok executed)

theorem endsLike_executeWhile {condition : Expr} {body : Stmt}
    (ended : executeWhile (fuel + 1) condition body machine = .ok flow final) :
    EndsLike final (Moment.executions ⟨fuel + 1, .executeWhile condition body, machine⟩) flow := by
  obtain ⟨value, middle, evaluated, tested⟩ := bind_eq_ok_iff.mp ended
  rw [Moment.executions, Moment.parts, Task.parts, startThen, after_of_ok evaluated]
  split at tested
  next truthy =>
    obtain ⟨bodyFlow, later, executed, continued⟩ := bind_eq_ok_iff.mp tested
    rw [if_pos truthy, startThen, after_of_ok executed]
    cases bodyFlow with
    | normal =>
        have same := sameButScope_of_ok continued
        exact .next (value?_of_ok executed) (.single (value?_of_ok continued) same)
    | returned value =>
        obtain ⟨rfl, rfl⟩ := pure_eq_ok_iff.mp continued
        exact .returned (value?_of_ok executed) (sameButScope_of_ok executed)
  next falsy =>
    obtain ⟨rfl, -⟩ := pure_eq_ok_iff.mp tested
    rw [if_neg falsy]
    exact .normal

end Ends

namespace Moment

variable {moment part : Moment} {rule : ReturnRule} {flow : Flow}

theorem isExecution_of_flow? (ended : moment.flow? = some flow) :
    moment.task.isExecution = true := by
  obtain ⟨fuel, task, machine⟩ := moment
  cases task with
  | execute stmt => rfl
  | executeEach stmts => rfl
  | executeWhile condition body => rfl
  | _ => cases ended

/-- An execution that is no `return` ends like its parts. -/
theorem endsLike (ended : moment.flow? = some flow) (noReturn : ¬ moment.IsReturn) :
    EndsLike moment.final moment.executions flow := by
  obtain ⟨fuel, task, machine⟩ := moment
  cases fuel with
  | zero => cases task <;> cases ended
  | succ fuel =>
      cases task with
      | execute stmt =>
          have executed := eq_ok_of_value? flow ended
          refine endsLike_execute executed fun line value isReturn => noReturn ⟨line, value, ?_⟩
          rw [isReturn]
      | executeEach stmts =>
          have executed := eq_ok_of_value? flow ended
          exact endsLike_executeEach executed
      | executeWhile condition body =>
          have executed := eq_ok_of_value? flow ended
          exact endsLike_executeWhile executed
      | _ => cases ended

theorem IsReturn.returns (isReturn : moment.IsReturn) (ended : moment.flow? = some flow) :
    ∃ value, flow = .returned value ∧ moment.Returns value := by
  obtain ⟨fuel, task, machine⟩ := moment
  obtain ⟨line, value, rfl⟩ := isReturn
  have executed := eq_ok_of_value? flow ended
  cases fuel with
  | zero => cases executed
  | succ fuel =>
      cases value with
      | none =>
          obtain ⟨rfl, -⟩ := pure_eq_ok_iff.mp executed
          exact ⟨.nil, rfl, .bare⟩
      | some expr =>
          obtain ⟨result, middle, evaluated, finished⟩ := bind_eq_ok_iff.mp executed
          obtain ⟨rfl, -⟩ := pure_eq_ok_iff.mp finished
          exact ⟨result, rfl, .value evaluated⟩

theorem IsReturn.executions (isReturn : moment.IsReturn) : moment.executions = [] := by
  obtain ⟨fuel, task, machine⟩ := moment
  obtain ⟨line, value, rfl⟩ := isReturn
  cases fuel with
  | zero => rfl
  | succ fuel => cases value <;> rfl

/-- To prove a property of executions, it may be assumed of their parts. -/
theorem execution_induction {property : Moment → Prop}
    (step : ∀ moment, (∀ part ∈ moment.executions, property part) → property moment)
    (moment : Moment) : property moment :=
  step moment fun part _ => execution_induction step part
termination_by (moment.fuel, moment.remaining)
decreasing_by exact rank_lt_of_mem_executions ‹_›

/-! ## Ends that the rule allows -/

/-- The parts of an execution stand where the same rule applies. -/
theorem follows_of_mem_executions (follows : moment.task.Follows rule)
    (execution : moment.task.isExecution = true) (isPart : part ∈ moment.executions) :
    part.task.Follows rule := by
  obtain ⟨calls, isExecution⟩ := mem_executions_iff.mp isPart
  cases calls with
  | block => exact follows
  | thenBranch => exact follows.thenBranch
  | elseBranch => exact follows.2
  | loop => exact follows
  | firstStmt => exact follows.1
  | restStmts => exact follows.2
  | loopBody => exact follows
  | loopAgain => exact follows
  | _ => contradiction

theorem permits_of_endsLike {parts : List Moment} {ended : Machine}
    (ends : EndsLike ended parts flow)
    (permits : ∀ part ∈ parts, ∀ partFlow, part.flow? = some partFlow → rule.Permits partFlow) :
    rule.Permits flow := by
  induction ends with
  | normal => trivial
  | returned ended => exact permits _ List.mem_cons_self _ ended
  | next _ _ inductionHypothesis =>
      exact inductionHypothesis fun part later => permits part (List.mem_cons_of_mem _ later)

theorem Returns.permits {value : Value} (returns : moment.Returns value)
    (follows : moment.task.Follows rule) : rule.Permits (.returned value) := by
  cases rule with
  | never => cases returns <;> cases follows
  | bare =>
      cases returns with
      | bare => exact .inr ⟨rfl, rfl⟩
      | value => cases follows
  | free => exact .inl rfl

/-- An execution that follows the rule for its place ends as the rule allows. -/
theorem permits (follows : moment.task.Follows rule) (ended : moment.flow? = some flow) :
    rule.Permits flow := by
  induction moment using execution_induction generalizing flow with
  | step moment inductionHypothesis =>
      by_cases isReturn : moment.IsReturn
      · obtain ⟨value, rfl, returns⟩ := isReturn.returns ended
        exact returns.permits follows
      · refine permits_of_endsLike (moment.endsLike ended isReturn) fun part isPart _ => ?_
        have execution := isExecution_of_flow? ended
        exact inductionHypothesis part isPart (follows_of_mem_executions follows execution isPart)

/-! ## The statements of an execution -/

/-- The task executes a single statement. -/
def isStatement (moment : Moment) : Bool :=
  match moment.task with
  | .execute _ => true
  | _ => false

/-- The executions of statements that belong to the execution starting at this moment,
in the order of time: nested statements are among them, those of called functions are
not. -/
def statements (moment : Moment) : List Moment :=
  (if moment.isStatement then [moment] else []) ++
    moment.executions.attach.flatMap fun part => part.val.statements
termination_by (moment.fuel, moment.remaining)
decreasing_by exact rank_lt_of_mem_executions part.property

theorem statements_eq (moment : Moment) :
    moment.statements =
      (if moment.isStatement then [moment] else []) ++ moment.executions.flatMap statements := by
  rw [statements, List.flatMap_subtype (g := statements) fun _ _ => rfl, List.unattach_attach]

end Moment

/-- None of the statements returns, or only the last one: so the whole ends, with this
machine.  It is the one that the `return` has left, but for the scope in force. -/
inductive EndsAtReturn (ended : Machine) : List Moment → Flow → Prop where
  | normal {statements} : (∀ statement ∈ statements, ¬ statement.IsReturn) →
      EndsAtReturn ended statements .normal
  | returned {earlier last value} : (∀ statement ∈ earlier, ¬ statement.IsReturn) →
      last.Returns value → last.final.SameButScope ended →
      EndsAtReturn ended (earlier ++ [last]) (.returned value)

namespace EndsAtReturn

variable {ended middle : Machine} {first rest : List Moment} {flow : Flow}

theorem append (normal : EndsAtReturn middle first .normal)
    (ends : EndsAtReturn ended rest flow) : EndsAtReturn ended (first ++ rest) flow := by
  cases normal with
  | normal noReturn =>
      cases ends with
      | normal restNoReturn =>
          exact .normal (List.forall_mem_append.mpr ⟨noReturn, restNoReturn⟩)
      | returned earlierNoReturn returns same =>
          rw [← List.append_assoc]
          exact .returned (List.forall_mem_append.mpr ⟨noReturn, earlierNoReturn⟩) returns same

theorem inScope (ends : EndsAtReturn middle rest flow) (same : middle.SameButScope ended) :
    EndsAtReturn ended rest flow := by
  cases ends with
  | normal noReturn => exact .normal noReturn
  | returned noReturn returns left => exact .returned noReturn returns (left.trans same)

theorem of_endsLike {parts : List Moment} (ends : EndsLike ended parts flow)
    (each : ∀ part ∈ parts, ∀ partFlow, part.flow? = some partFlow →
      EndsAtReturn part.final part.statements partFlow) :
    EndsAtReturn ended (parts.flatMap Moment.statements) flow := by
  induction ends with
  | normal => exact .normal nofun
  | returned returned same =>
      rw [List.flatMap_singleton]
      exact (each _ List.mem_cons_self _ returned).inScope same
  | next completed _ inductionHypothesis =>
      refine (each _ List.mem_cons_self _ completed).append ?_
      exact inductionHypothesis fun part later => each part (List.mem_cons_of_mem _ later)

end EndsAtReturn

/-- A completed execution that returns has executed the `return` last, and no other one
before it, and it ends as the `return` has ended; one that ends normally has executed
none. -/
theorem Moment.endsAtReturn {moment : Moment} {flow : Flow} (ended : moment.flow? = some flow) :
    EndsAtReturn moment.final moment.statements flow := by
  induction moment using execution_induction generalizing flow with
  | step moment inductionHypothesis =>
      rw [statements_eq]
      by_cases isReturn : moment.IsReturn
      · -- A `return` has no statements in it, so it is the last one itself.
        obtain ⟨value, rfl, returns⟩ := isReturn.returns ended
        obtain ⟨line, result, isTask⟩ := isReturn
        rw [IsReturn.executions ⟨line, result, isTask⟩, isStatement, isTask]
        change EndsAtReturn moment.final ([] ++ [moment]) (.returned value)
        exact .returned nofun returns (.of_eq rfl)
      · have own : EndsAtReturn moment.machine
            (if moment.isStatement then [moment] else []) .normal := by
          split
          · exact .normal (List.forall_mem_singleton.mpr isReturn)
          · exact .normal nofun
        refine own.append (.of_endsLike (moment.endsLike ended isReturn) fun part isPart _ => ?_)
        exact inductionHypothesis part isPart

/-! ## Calls -/

/-- What a call gives whose body ended like this. -/
def Flow.result : Flow → Value
  | .normal => .nil
  | .returned value => value

theorem callResult_eq_ok {closure : Closure} {line : Nat} {flow : Flow} {value : Value}
    {machine final : Machine} (ended : callResult closure line flow machine = .ok value final) :
    machine = final ∧ (closure.isInitializer = false → value = flow.result) := by
  unfold callResult at ended
  split at ended
  next isInitializer =>
    refine ⟨?_, fun notInitializer => absurd isInitializer (Bool.eq_false_iff.mp notInitializer)⟩
    obtain ⟨_, _, got, bound⟩ := bind_eq_ok_iff.mp ended
    cases got
    cases own : machine.heap.scopes.own? closure.scope "this" with
    | none =>
        rw [own] at bound
        cases bound
    | some this =>
        rw [own] at bound
        exact (pure_eq_ok_iff.mp bound).2
  next =>
    cases flow with
    | normal =>
        obtain ⟨rfl, same⟩ := pure_eq_ok_iff.mp ended
        exact ⟨same, fun _ => rfl⟩
    | returned result =>
        obtain ⟨rfl, same⟩ := pure_eq_ok_iff.mp ended
        exact ⟨same, fun _ => rfl⟩

/-- A completed call yields what the result of its body is, unless it is an initializer,
and leaves the machine as its body has left it, but for the scope. -/
theorem callFunction_body {fuel : Nat} {closure : Closure} {arguments : List Value} {line : Nat}
    {machine final : Machine} {value : Value}
    (ended : callFunction fuel closure arguments line machine = .ok value final) :
    ∃ body flow, Calls ⟨fuel, .callFunction closure arguments line, machine⟩ body ∧
      body.task = .executeEach closure.declaration.body ∧ body.flow? = some flow ∧
        body.final.SameButScope final ∧
        (closure.isInitializer = false → value = flow.result) := by
  cases fuel with
  | zero => cases ended
  | succ fuel =>
      obtain ⟨scope, middle, opened, entered⟩ := bind_eq_ok_iff.mp ended
      obtain ⟨flow, later, executed, finished⟩ := bind_eq_ok_iff.mp entered
      obtain ⟨sameMachine, result⟩ := callResult_eq_ok finished
      subst sameMachine
      refine ⟨_, flow, .functionBody opened, rfl, ?_, sameButScope_within executed, result⟩
      exact (value?_within _ _ _).symm.trans (value?_of_ok executed)

end Lox
