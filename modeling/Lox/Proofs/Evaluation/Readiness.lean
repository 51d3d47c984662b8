import Lox.Proofs.Evaluation.Moments
import Lox.Proofs.Evaluation.Preservation

/-!
# Every moment is where resolution was

At every moment of a run on a faithful machine the current scope realizes the
scopes in which resolution visited what is evaluated next.
-/

namespace Lox

open Eval

/-- The place of an expression in the given scopes. -/
def Role.place (tables : List NameTable) (isInner : Bool) : Role → Place
  | .ordinary => ⟨tables, isInner, .ordinary⟩
  | .initializer name => ⟨declareIn name tables, isInner, .initializer name⟩
  | .superclass name => ⟨introduceIn name tables, isInner, .superclass name⟩

/-- The visits are known for a place whose scopes the current scope realizes. -/
def Machine.Covers (known : Visit → Prop) (machine : Machine) (visits : Place → List Visit) :
    Prop :=
  ∃ (tables : List NameTable) (isInner : Bool) (role : Role), machine.Realizes tables ∧
    ∀ visit ∈ visits (role.place tables isInner), known visit

theorem Machine.Covers.mono {known : Visit → Prop} {machine later : Machine}
    {visits fewer : Place → List Visit} (covers : machine.Covers known visits)
    (grows : machine.Grows later) (subset : ∀ place, fewer place ⊆ visits place) :
    later.Covers known fewer := by
  rcases covers with ⟨tables, isInner, role, realizes, visited⟩
  exact ⟨tables, isInner, role, realizes.mono grows, fun visit member =>
    visited visit (subset _ member)⟩

/-- What has to hold when a task is started. -/
def Task.Ready (known : Visit → Prop) (machine : Machine) : Task → Prop
  | .evaluate expr => expr.WellFormed ∧ machine.Covers known fun place => expr.visits place
  | .evaluateEach exprs =>
      Expr.WellFormedEach exprs ∧ machine.Covers known fun place => Expr.visitsEach place exprs
  | .callValue callee arguments _ => machine.heap.arity? callee = some arguments.length
  | .callFunction closure arguments _ =>
      closure.Fits known [] machine.heap.scopes machine.globals ∧
        arguments.length = closure.arity
  | .execute stmt => stmt.WellFormed ∧ ∃ tables isInner, machine.Realizes tables ∧
      ∀ visit ∈ stmt.visits tables isInner, known visit
  | .executeEach stmts => Stmt.WellFormedEach stmts ∧ ∃ tables isInner,
      machine.Realizes tables ∧ ∀ visit ∈ Stmt.visitsEach tables isInner stmts, known visit
  | .executeWhile condition body => (Stmt.while_ condition body).WellFormed ∧
      ∃ tables isInner, machine.Realizes tables ∧
        ∀ visit ∈ (Stmt.while_ condition body).visits tables isInner, known visit
  | .executeProgram program => Stmt.WellFormedEach program ∧ machine.Realizes [] ∧
      ∀ visit ∈ Stmt.visitsEach [] false program, known visit

/-- The machine is faithful, and what is to be done was visited by resolution. -/
structure Moment.Ready (known : Visit → Prop) (moment : Moment) : Prop where
  faithful : moment.machine.Faithful known
  task : moment.task.Ready known moment.machine

theorem Sound.of_ok {known : Visit → Prop} {α : Type} {action : Eval α} {machine middle : Machine}
    {condition : α → Machine → Prop} {value : α}
    (sound : Sound known action machine condition)
    (succeeded : action machine = .ok value middle) :
    machine.Grows middle ∧ middle.Faithful known ∧ condition value middle := by
  have grows := sound.grows
  have faithful := sound.faithful
  rw [succeeded] at grows faithful
  exact ⟨grows, faithful, sound.ensures succeeded⟩

namespace Stmt

variable {condition : Expr} {thenBranch : Stmt} {elseBranch : Option Stmt}

theorem condition_wellFormed (formed : (Stmt.if_ condition thenBranch elseBranch).WellFormed) :
    condition.WellFormed := by
  cases elseBranch with
  | none => exact formed.1
  | some _ => exact formed.1

theorem thenBranch_wellFormed (formed : (Stmt.if_ condition thenBranch elseBranch).WellFormed) :
    thenBranch.WellFormed := by
  cases elseBranch with
  | none => exact formed.2.1
  | some _ => exact formed.2.1.1

variable {tables : List NameTable} {isInner : Bool} {visit : Visit}

theorem mem_visits_condition (member : visit ∈ condition.visits ⟨tables, isInner, .ordinary⟩) :
    visit ∈ (Stmt.if_ condition thenBranch elseBranch).visits tables isInner := by
  cases elseBranch with
  | none => simp [visits, member]
  | some _ => simp [visits, member]

theorem mem_visits_thenBranch (member : visit ∈ thenBranch.visits tables isInner) :
    visit ∈ (Stmt.if_ condition thenBranch elseBranch).visits tables isInner := by
  cases elseBranch with
  | none => simp [visits, member]
  | some _ => simp [visits, member]

end Stmt

namespace Calls

variable {known : Visit → Prop} {fuel : Nat} {machine : Machine} {second : Moment}

theorem evaluated {expr : Expr} {value : Value} {middle : Machine}
    (faithful : machine.Faithful known) (formed : expr.WellFormed)
    (result : evaluate fuel expr machine = .ok value middle) :
    machine.Grows middle ∧ middle.Faithful known := by
  rcases ((soundAt known fuel).evaluate expr faithful formed).of_ok result with ⟨grows, later, -⟩
  exact ⟨grows, later⟩

theorem ready_evaluate {expr : Expr}
    (calls : Calls ⟨fuel, .evaluate expr, machine⟩ second) (faithful : machine.Faithful known)
    (formed : expr.WellFormed) (covers : machine.Covers known fun place => expr.visits place) :
    second.Ready known := by
  have refl := Machine.growsOrder.refl machine
  cases calls with
  | group => exact ⟨faithful, formed, covers.mono refl fun _ => by simp [Expr.visits]⟩
  | unary => exact ⟨faithful, formed, covers.mono refl fun _ => by simp [Expr.visits]⟩
  | binaryLeft => exact ⟨faithful, formed.1, covers.mono refl fun _ => by simp [Expr.visits]⟩
  | binaryRight leftResult =>
      rcases evaluated faithful formed.1 leftResult with ⟨grows, later⟩
      exact ⟨later, formed.2, covers.mono grows fun _ => by simp [Expr.visits]⟩
  | logicalLeft => exact ⟨faithful, formed.1, covers.mono refl fun _ => by simp [Expr.visits]⟩
  | logicalRight leftResult =>
      rcases evaluated faithful formed.1 leftResult with ⟨grows, later⟩
      exact ⟨later, formed.2, covers.mono grows fun _ => by simp [Expr.visits]⟩
  | assign => exact ⟨faithful, formed.2, covers.mono refl fun _ => by simp [Expr.visits]⟩
  | callee => exact ⟨faithful, formed.1, covers.mono refl fun _ => by simp [Expr.visits]⟩
  | arguments calleeResult =>
      rcases evaluated faithful formed.1 calleeResult with ⟨grows, later⟩
      exact ⟨later, formed.2, covers.mono grows fun _ => by simp [Expr.visits]⟩
  | @call fuel _ _ arguments _ _ _ _ _ _ calleeResult argumentsResult checkResult =>
      rcases evaluated faithful formed.1 calleeResult with ⟨-, later⟩
      rcases ((soundAt known fuel).evaluateEach arguments later formed.2).of_ok argumentsResult with
        ⟨-, later, -⟩
      rcases (Sound.checkCall later _ _ _).of_ok checkResult with ⟨-, later, rfl, arity⟩
      exact ⟨later, arity⟩
  | getObject => exact ⟨faithful, formed, covers.mono refl fun _ => by simp [Expr.visits]⟩
  | setObject => exact ⟨faithful, formed.1, covers.mono refl fun _ => by simp [Expr.visits]⟩
  | setValue objectResult =>
      rcases evaluated faithful formed.1 objectResult with ⟨grows, later⟩
      exact ⟨later, formed.2, covers.mono grows fun _ => by simp [Expr.visits]⟩

theorem ready_evaluateEach {exprs : List Expr}
    (calls : Calls ⟨fuel, .evaluateEach exprs, machine⟩ second)
    (faithful : machine.Faithful known) (formed : Expr.WellFormedEach exprs)
    (covers : machine.Covers known fun place => Expr.visitsEach place exprs) :
    second.Ready known := by
  cases calls with
  | firstExpr =>
      exact ⟨faithful, formed.1, covers.mono (Machine.growsOrder.refl machine) fun _ => by
        simp [Expr.visitsEach]⟩
  | restExprs firstResult =>
      rcases evaluated faithful formed.1 firstResult with ⟨grows, later⟩
      exact ⟨later, formed.2, covers.mono grows fun _ => by simp [Expr.visitsEach]⟩

theorem ready_callValue {callee : Value} {arguments : List Value} {line : Nat}
    (calls : Calls ⟨fuel, .callValue callee arguments line, machine⟩ second)
    (faithful : machine.Faithful known)
    (arity : machine.heap.arity? callee = some arguments.length) : second.Ready known := by
  cases calls with
  | function => exact ⟨faithful, faithful.functions _, (Option.some.inj arity).symm⟩
  | @initializer _ ref _ _ _ _ _ initializer _ _ addResult found bindResult =>
      rcases (Sound.addObject faithful _).of_ok addResult with ⟨-, added, same⟩
      have fits := added.findMethod found
      rcases (Sound.bindHeap added fits _).of_ok bindResult with ⟨-, later, boundFits, declared⟩
      refine ⟨later, boundFits, ?_⟩
      rw [Heap.findMethod?_congr same] at found
      have sameLength : arguments.length = initializer.arity := by
        simpa [Heap.arity?, found] using arity.symm
      rw [sameLength, Closure.arity, Closure.arity, declared]

theorem ready_callFunction {closure : Closure} {arguments : List Value} {line : Nat}
    (calls : Calls ⟨fuel, .callFunction closure arguments line, machine⟩ second)
    (faithful : machine.Faithful known)
    (fits : closure.Fits known [] machine.heap.scopes machine.globals)
    (sameLength : arguments.length = closure.arity) : second.Ready known := by
  cases calls with
  | functionBody openResult =>
      rcases Sound.of_ok (Sound.openBody faithful fits sameLength) openResult with
        ⟨-, later, ready⟩
      exact ⟨later, ready⟩

theorem ready_execute {stmt : Stmt} {tables : List NameTable} {isInner : Bool}
    (calls : Calls ⟨fuel, .execute stmt, machine⟩ second) (faithful : machine.Faithful known)
    (formed : stmt.WellFormed) (realizes : machine.Realizes tables)
    (visited : ∀ visit ∈ stmt.visits tables isInner, known visit) : second.Ready known := by
  cases calls with
  | expression =>
      rw [Stmt.visits] at visited
      exact ⟨faithful, formed, tables, isInner, .ordinary, realizes, visited⟩
  | print =>
      rw [Stmt.visits] at visited
      exact ⟨faithful, formed, tables, isInner, .ordinary, realizes, visited⟩
  | @var _ name value =>
      rw [Stmt.visits] at visited
      exact ⟨faithful, formed.2 value rfl, tables, isInner, .initializer name.text, realizes,
        visited⟩
  | block openResult =>
      rw [Stmt.visits] at visited
      rcases (Sound.openBlock faithful realizes).of_ok openResult with ⟨-, later, entered⟩
      exact ⟨later, formed, ∅ :: tables, isInner, entered, visited⟩
  | @ifCondition _ _ _ elseBranch =>
      have conditionFormed := Stmt.condition_wellFormed formed
      refine ⟨faithful, conditionFormed, tables, isInner, .ordinary, realizes, ?_⟩
      intro visit member
      exact visited visit (Stmt.mem_visits_condition member)
  | @thenBranch _ _ thenBranch _ _ _ _ conditionResult =>
      have conditionFormed := Stmt.condition_wellFormed formed
      rcases evaluated faithful conditionFormed conditionResult with ⟨grows, later⟩
      refine ⟨later, Stmt.thenBranch_wellFormed formed, tables, isInner, realizes.mono grows, ?_⟩
      intro visit member
      exact visited visit (Stmt.mem_visits_thenBranch member)
  | elseBranch conditionResult =>
      have conditionFormed := Stmt.condition_wellFormed formed
      rcases evaluated faithful conditionFormed conditionResult with ⟨grows, later⟩
      simp only [Stmt.visits, List.forall_mem_append] at visited
      exact ⟨later, formed.2.2.1, tables, isInner, realizes.mono grows, visited.2⟩
  | loop => exact ⟨faithful, formed, tables, isInner, realizes, visited⟩
  | @return_ _ _ value =>
      rw [Stmt.visits] at visited
      exact ⟨faithful, formed value rfl, tables, isInner, .ordinary, realizes, visited⟩
  | @superclass _ name superclass =>
      simp only [Stmt.visits, List.forall_mem_append] at visited
      exact ⟨faithful, (formed.2.1 superclass rfl).wellFormed, tables, isInner,
        .superclass name.text, realizes, visited.1⟩

theorem ready_executeEach {stmts : List Stmt} {tables : List NameTable} {isInner : Bool}
    (calls : Calls ⟨fuel, .executeEach stmts, machine⟩ second)
    (faithful : machine.Faithful known) (formed : Stmt.WellFormedEach stmts)
    (realizes : machine.Realizes tables)
    (visited : ∀ visit ∈ Stmt.visitsEach tables isInner stmts, known visit) :
    second.Ready known := by
  cases calls with
  | firstStmt =>
      simp only [Stmt.visitsEach, List.forall_mem_append] at visited
      exact ⟨faithful, formed.1, tables, isInner, realizes, visited.1⟩
  | @restStmts fuel first _ _ _ firstResult =>
      simp only [Stmt.visitsEach, List.forall_mem_append] at visited
      have sound := (soundAt known fuel).execute first isInner faithful realizes formed.1 visited.1
      rcases sound.of_ok firstResult with ⟨-, later, after⟩
      exact ⟨later, formed.2, _, isInner, after rfl, visited.2⟩

theorem ready_executeWhile {condition : Expr} {body : Stmt} {tables : List NameTable}
    {isInner : Bool} (calls : Calls ⟨fuel, .executeWhile condition body, machine⟩ second)
    (faithful : machine.Faithful known) (formed : (Stmt.while_ condition body).WellFormed)
    (realizes : machine.Realizes tables)
    (visited : ∀ visit ∈ (Stmt.while_ condition body).visits tables isInner, known visit) :
    second.Ready known := by
  rcases formed with ⟨conditionFormed, bodyFormed, bodyDeclares⟩
  have split := visited
  simp only [Stmt.visits, List.forall_mem_append] at split
  cases calls with
  | loopCondition =>
      exact ⟨faithful, conditionFormed, tables, isInner, .ordinary, realizes, split.1⟩
  | loopBody conditionResult =>
      rcases evaluated faithful conditionFormed conditionResult with ⟨grows, later⟩
      exact ⟨later, bodyFormed, tables, isInner, realizes.mono grows, split.2⟩
  | @loopAgain fuel _ _ _ _ _ _ conditionResult _ bodyResult =>
      rcases evaluated faithful conditionFormed conditionResult with ⟨grows, later⟩
      have entered := realizes.mono grows
      have sound := (soundAt known fuel).execute body isInner later entered bodyFormed split.2
      rcases sound.of_ok bodyResult with ⟨grows', later, -⟩
      exact ⟨later, ⟨conditionFormed, bodyFormed, bodyDeclares⟩, tables, isInner,
        entered.mono grows', visited⟩

theorem ready_executeProgram {program : List Stmt}
    (calls : Calls ⟨fuel, .executeProgram program, machine⟩ second)
    (faithful : machine.Faithful known) (formed : Stmt.WellFormedEach program)
    (realizes : machine.Realizes [])
    (visited : ∀ visit ∈ Stmt.visitsEach [] false program, known visit) :
    second.Ready known := by
  cases calls with
  | firstOfProgram =>
      simp only [Stmt.visitsEach, List.forall_mem_append] at visited
      exact ⟨faithful, formed.1, [], false, realizes, visited.1⟩
  | @restOfProgram _ first _ _ _ _ firstResult =>
      simp only [Stmt.visitsEach, List.forall_mem_append, Stmt.scopesAfter_nil] at visited
      have sound := (soundAt known fuel).execute first false faithful realizes formed.1 visited.1
      rcases sound.of_ok firstResult with ⟨grows, later, -⟩
      exact ⟨later, formed.2, realizes.mono grows, visited.2⟩

/-- A moment that is ready starts only moments that are. -/
theorem ready {first : Moment} (calls : Calls first second) (isReady : first.Ready known) :
    second.Ready known := by
  rcases first with ⟨fuel, task, machine⟩
  rcases isReady with ⟨faithful, taskReady⟩
  cases task with
  | evaluate expr => exact calls.ready_evaluate faithful taskReady.1 taskReady.2
  | evaluateEach exprs => exact calls.ready_evaluateEach faithful taskReady.1 taskReady.2
  | callValue callee arguments line => exact calls.ready_callValue faithful taskReady
  | callFunction closure arguments line =>
      exact calls.ready_callFunction faithful taskReady.1 taskReady.2
  | execute stmt =>
      rcases taskReady with ⟨formed, tables, isInner, realizes, visited⟩
      exact calls.ready_execute faithful formed realizes visited
  | executeEach stmts =>
      rcases taskReady with ⟨formed, tables, isInner, realizes, visited⟩
      exact calls.ready_executeEach faithful formed realizes visited
  | executeWhile condition body =>
      rcases taskReady with ⟨formed, tables, isInner, realizes, visited⟩
      exact calls.ready_executeWhile faithful formed realizes visited
  | executeProgram program =>
      exact calls.ready_executeProgram faithful taskReady.1 taskReady.2.1 taskReady.2.2

/-- The distances are the same at all moments of a run. -/
theorem distances {first : Moment} (calls : Calls first second) :
    second.machine.distances = first.machine.distances := by
  cases calls with
  | binaryRight result => exact (((framedAt _).evaluate _).of_ok result).distances
  | logicalRight result => exact (((framedAt _).evaluate _).of_ok result).distances
  | arguments result => exact (((framedAt _).evaluate _).of_ok result).distances
  | call calleeResult argumentsResult checkResult =>
      have grows := ((framedAt _).evaluate _).of_ok calleeResult
      have grows' := ((framedAt _).evaluateEach _).of_ok argumentsResult
      have grows'' := (framed_checkCall _ _ _).of_ok checkResult
      exact grows''.distances.trans (grows'.distances.trans grows.distances)
  | setValue result => exact (((framedAt _).evaluate _).of_ok result).distances
  | restExprs result => exact (((framedAt _).evaluate _).of_ok result).distances
  | initializer addResult _ bindResult =>
      cases addResult
      cases bindResult
      rfl
  | functionBody openResult =>
      cases openResult
      rfl
  | block openResult =>
      cases openResult
      rfl
  | thenBranch result => exact (((framedAt _).evaluate _).of_ok result).distances
  | elseBranch result => exact (((framedAt _).evaluate _).of_ok result).distances
  | restStmts result => exact (((framedAt _).execute _).of_ok result).distances
  | loopBody result => exact (((framedAt _).evaluate _).of_ok result).distances
  | loopAgain conditionResult _ bodyResult =>
      have grows := ((framedAt _).evaluate _).of_ok conditionResult
      have grows' := ((framedAt _).execute _).of_ok bodyResult
      exact grows'.distances.trans grows.distances
  | restOfProgram result => exact (((framedAt _).execute _).of_ok result).distances
  | _ => rfl

end Calls

theorem Reaches.distances {start moment : Moment} (reaches : Reaches start moment) :
    moment.machine.distances = start.machine.distances := by
  induction reaches with
  | refl => rfl
  | tail _ calls inductionHypothesis => exact calls.distances.trans inductionHypothesis

theorem Reaches.ready {known : Visit → Prop} {start moment : Moment}
    (reaches : Reaches start moment) (isReady : start.Ready known) : moment.Ready known :=
  reaches.invariant isReady fun _ _ calls => calls.ready

end Lox
