import Lox.Proofs.Lexical.Equivalence
import Lox.Proofs.Receivers.Occurrences

/-!
# Every moment is mirrored

At every moment of a session there is a store that mirrors the machine, and names or
a frame for what is evaluated next.  A unit that starts with such a store ends with
one, however it ends.
-/

namespace Lox

open Actions Lexical

namespace Lexical

section Results

variable {known : Visit → Prop} {isOpen : Bool} {world : World} {machine final : Machine}
  {store : Store} {α β : Type}

/-- What is simulated and yields a value leads to a state that is mirrored. -/
theorem Simulates.of_result {action : Eval α} {reference : Action β}
    {post : World → α → β → Machine → Prop} {value : α}
    (simulates : Simulates known isOpen world machine store action reference post)
    (result : action machine = .ok value final) :
    ∃ later value' final', world.Extends isOpen machine.current later ∧ machine.Grows final ∧
      Mirrors known later final final' ∧ post later value value' final := by
  refine Paired.cases simulates ?_ ?_
  · rintro value _ value' final' yielded - ⟨later, extension, grows, mirrors, holds⟩
    cases result.symm.trans yielded
    exact ⟨later, value', final', extension, grows, mirrors, holds⟩
  · intro cause _ _ _ stopped
    cases result.symm.trans stopped

/-- However simulated actions end, they lead to states that mirror each other. -/
theorem Simulates.ends {action : Eval α} {reference : Action β}
    {post : World → α → β → Machine → Prop}
    (simulates : Simulates known isOpen world machine store action reference post) :
    ∃ later final', machine.Grows (endState (action machine)) ∧
      Mirrors known later (endState (action machine)) final' := by
  refine Paired.cases simulates ?_ ?_
  · rintro value final value' final' result - ⟨later, -, grows, mirrors, -⟩
    rw [result]
    exact ⟨later, final', grows, mirrors⟩
  · rintro cause final cause' final' result - ⟨-, later, -, grows, mirrors⟩
    rw [result]
    exact ⟨later, final', grows, mirrors⟩

end Results

/-! ## Tasks -/

/-- There are names for expressions that are visited like this. -/
def Seen (known : Visit → Prop) (world : World) (machine : Machine)
    (visits : Place → List Visit) : Prop :=
  ∃ names place, Sees world machine.heap.scopes machine.current names place ∧
    ∀ visit ∈ visits place, known visit

/-- There is a frame for statements that are distinct and visited like this. -/
def Fitted (known : Visit → Prop) (world : World) (machine : Machine)
    (distinct : List NameTable → Prop) (visits : List NameTable → Bool → List Visit) : Prop :=
  ∃ tables frame isInner, Fits world machine tables frame ∧ distinct tables ∧
    ∀ visit ∈ visits tables isInner, known visit

section Tasks

variable {known : Visit → Prop} {isOpen : Bool} {world later : World} {machine final : Machine}

theorem Seen.part {visits fewer : Place → List Visit} (seen : Seen known world machine visits)
    (subset : ∀ place, fewer place ⊆ visits place) : Seen known world machine fewer := by
  rcases seen with ⟨names, place, sees, visited⟩
  exact ⟨names, place, sees, fun visit member => visited visit (subset place member)⟩

theorem Seen.grows {visits : Place → List Visit} (seen : Seen known world machine visits)
    (grows : machine.Grows final) (extension : world.Extends isOpen machine.current later) :
    Seen known later final visits := by
  rcases seen with ⟨names, place, sees, visited⟩
  exact ⟨names, place, sees.grows grows extension, visited⟩

end Tasks

end Lexical

theorem Stmt.thenBranch_distinct {tables : List NameTable} {condition : Expr} {thenBranch : Stmt}
    {elseBranch : Option Stmt}
    (distinct : (Stmt.if_ condition thenBranch elseBranch).Distinct tables) :
    thenBranch.Distinct tables := by
  cases elseBranch with
  | none => exact distinct
  | some _ => exact distinct.1

/-- What has to hold when a task is started. -/
def Task.Placed (known : Visit → Prop) (world : World) (machine : Machine) : Task → Prop
  | .evaluate expr => expr.WellFormed ∧ Seen known world machine fun place => expr.visits place
  | .evaluateEach exprs =>
      Expr.WellFormedEach exprs ∧
        Seen known world machine fun place => Expr.visitsEach place exprs
  | .callValue callee arguments _ => machine.heap.arity? callee = some arguments.length
  | .callFunction closure arguments _ =>
      (∃ other, Alike known [] world machine.heap.scopes machine.globals closure other) ∧
        arguments.length = closure.arity
  | .execute stmt =>
      stmt.WellFormed ∧ Fitted known world machine stmt.Distinct stmt.visits
  | .executeEach stmts =>
      Stmt.WellFormedEach stmts ∧ Fitted known world machine (Stmt.DistinctEach · stmts)
        (Stmt.visitsEach · · stmts)
  | .executeWhile condition body =>
      (Stmt.while_ condition body).WellFormed ∧ Fitted known world machine
        (Stmt.while_ condition body).Distinct (Stmt.while_ condition body).visits
  | .executeProgram program =>
      Stmt.WellFormedEach program ∧ Fits world machine [] ⟨∅, false⟩ ∧
        Stmt.DistinctEach [] program ∧ ∀ visit ∈ Stmt.visitsEach [] false program, known visit

/-- A store mirrors the machine, and there are names or a frame for what is to be
done. -/
def Moment.Mirrored (known : Visit → Prop) (moment : Moment) : Prop :=
  ∃ world store, Lexical.Mirrors known world moment.machine store ∧
    moment.task.Placed known world moment.machine

namespace Calls

variable {known : Visit → Prop} {fuel : Nat} {world : World} {machine : Machine} {store : Store}
  {second : Moment}

theorem evaluated_mirrors {expr : Expr} {value : Value} {middle : Machine}
    (mirrors : Lexical.Mirrors known world machine store) (formed : expr.WellFormed)
    (seen : Seen known world machine fun place => expr.visits place)
    (result : evaluate fuel expr machine = .ok value middle) :
    ∃ later middle', world.Extends false machine.current later ∧ machine.Grows middle ∧
      Lexical.Mirrors known later middle middle' := by
  rcases seen with ⟨names, place, sees, visited⟩
  have simulates := (simulatesAt known fuel).evaluate expr mirrors sees formed visited
  rcases simulates.of_result result with ⟨later, -, middle', extension, grows, laterMirrors, -⟩
  exact ⟨later, middle', extension, grows, laterMirrors⟩

theorem mirrored_evaluate {expr : Expr} (calls : Calls ⟨fuel, .evaluate expr, machine⟩ second)
    (mirrors : Lexical.Mirrors known world machine store) (formed : expr.WellFormed)
    (seen : Seen known world machine fun place => expr.visits place) :
    second.Mirrored known := by
  cases calls with
  | group => exact ⟨world, store, mirrors, formed, seen.part fun _ => by simp [Expr.visits]⟩
  | unary => exact ⟨world, store, mirrors, formed, seen.part fun _ => by simp [Expr.visits]⟩
  | binaryLeft =>
      exact ⟨world, store, mirrors, formed.1, seen.part fun _ => by simp [Expr.visits]⟩
  | binaryRight leftResult =>
      rcases evaluated_mirrors mirrors formed.1 (seen.part fun _ => by simp [Expr.visits])
        leftResult with ⟨later, middle', extension, grows, laterMirrors⟩
      exact ⟨later, middle', laterMirrors, formed.2,
        (seen.grows grows extension).part fun _ => by simp [Expr.visits]⟩
  | logicalLeft =>
      exact ⟨world, store, mirrors, formed.1, seen.part fun _ => by simp [Expr.visits]⟩
  | logicalRight leftResult =>
      rcases evaluated_mirrors mirrors formed.1 (seen.part fun _ => by simp [Expr.visits])
        leftResult with ⟨later, middle', extension, grows, laterMirrors⟩
      exact ⟨later, middle', laterMirrors, formed.2,
        (seen.grows grows extension).part fun _ => by simp [Expr.visits]⟩
  | assign => exact ⟨world, store, mirrors, formed.2, seen.part fun _ => by simp [Expr.visits]⟩
  | callee => exact ⟨world, store, mirrors, formed.1, seen.part fun _ => by simp [Expr.visits]⟩
  | arguments calleeResult =>
      rcases evaluated_mirrors mirrors formed.1 (seen.part fun _ => by simp [Expr.visits])
        calleeResult with ⟨later, middle', extension, grows, laterMirrors⟩
      exact ⟨later, middle', laterMirrors, formed.2,
        (seen.grows grows extension).part fun _ => by simp [Expr.visits]⟩
  | @call fuel _ line arguments _ value _ values _ _ calleeResult argumentsResult checkResult =>
      rcases evaluated_mirrors mirrors formed.1 (seen.part fun _ => by simp [Expr.visits])
        calleeResult with ⟨later, middle', extension, grows, laterMirrors⟩
      rcases seen.grows grows extension with ⟨names, place, sees, visited⟩
      simp only [Expr.visits, List.forall_mem_append] at visited
      have argumentsSimulated :=
        (simulatesAt known fuel).evaluateEach arguments laterMirrors sees formed.2 visited.2
      rcases argumentsSimulated.of_result argumentsResult with ⟨_, _, _, -, -, evaluated, -⟩
      have checkSimulated : Simulates known false _ _ _ _ _ _ :=
        Simulates.checkCall evaluated value line values.length
      rcases checkSimulated.of_result checkResult with
        ⟨_, _, checked', -, -, checkedMirrors, arity⟩
      have depth : checked'.callDepth + 1 = _ + 1 := congrArg (· + 1) checkedMirrors.callDepth
      exact ⟨_, _, checkedMirrors.withDepth depth, arity⟩
  | getObject => exact ⟨world, store, mirrors, formed, seen.part fun _ => by simp [Expr.visits]⟩
  | setObject =>
      exact ⟨world, store, mirrors, formed.1, seen.part fun _ => by simp [Expr.visits]⟩
  | setValue objectResult =>
      rcases evaluated_mirrors mirrors formed.1 (seen.part fun _ => by simp [Expr.visits])
        objectResult with ⟨later, middle', extension, grows, laterMirrors⟩
      exact ⟨later, middle', laterMirrors, formed.2,
        (seen.grows grows extension).part fun _ => by simp [Expr.visits]⟩

theorem mirrored_evaluateEach {exprs : List Expr}
    (calls : Calls ⟨fuel, .evaluateEach exprs, machine⟩ second)
    (mirrors : Lexical.Mirrors known world machine store) (formed : Expr.WellFormedEach exprs)
    (seen : Seen known world machine fun place => Expr.visitsEach place exprs) :
    second.Mirrored known := by
  cases calls with
  | firstExpr =>
      exact ⟨world, store, mirrors, formed.1, seen.part fun _ => by simp [Expr.visitsEach]⟩
  | restExprs firstResult =>
      rcases evaluated_mirrors mirrors formed.1 (seen.part fun _ => by simp [Expr.visitsEach])
        firstResult with ⟨later, middle', extension, grows, laterMirrors⟩
      exact ⟨later, middle', laterMirrors, formed.2,
        (seen.grows grows extension).part fun _ => by simp [Expr.visitsEach]⟩

theorem mirrored_callValue {callee : Value} {arguments : List Value} {line : Nat}
    (calls : Calls ⟨fuel, .callValue callee arguments line, machine⟩ second)
    (mirrors : Lexical.Mirrors known world machine store)
    (arity : machine.heap.arity? callee = some arguments.length) : second.Mirrored known := by
  cases calls with
  | @function _ ref =>
      exact ⟨world, store, mirrors, ⟨_, mirrors.functions ref⟩, (Option.some.inj arity).symm⟩
  | @initializer _ ref _ _ _ object _ initializer _ _ addResult found bindResult =>
      have added : Simulates known false _ _ _ _ _ _ := Simulates.addObject mirrors ref
      rcases added.of_result addResult with
        ⟨_, _, middle', -, -, addedMirrors, -, classes⟩
      rcases Table.eq_some_of_rel (addedMirrors.findMethod ref "init") found with
        ⟨other, -, alike⟩
      have bound : Simulates known false _ _ _ _ _ _ :=
        Simulates.bindHeap addedMirrors alike (.object object)
      rcases bound.of_result bindResult with
        ⟨_, closure', _, -, -, boundMirrors, declared, boundAlike⟩
      refine ⟨_, _, boundMirrors, ⟨closure', boundAlike⟩, ?_⟩
      rw [Heap.findMethod?_congr classes] at found
      have sameLength : arguments.length = initializer.arity := by
        simpa [Heap.arity?, found] using arity.symm
      rw [sameLength, Lox.Closure.arity, Lox.Closure.arity, declared]

theorem mirrored_callFunction {closure : Lox.Closure} {arguments : List Value} {line : Nat}
    {other : Lexical.Closure}
    (calls : Calls ⟨fuel, .callFunction closure arguments line, machine⟩ second)
    (mirrors : Lexical.Mirrors known world machine store)
    (alike : Alike known [] world machine.heap.scopes machine.globals closure other)
    (sameLength : arguments.length = closure.arity) : second.Mirrored known := by
  cases calls with
  | functionBody openResult =>
      rcases (Simulates.openBody mirrors alike sameLength).of_result openResult with
        ⟨later, locals, middle', -, -, openedMirrors, -, formed, table, outer, fits, distinct,
          visited⟩
      exact ⟨later, middle', openedMirrors.enter fits.represents.lt_size, formed,
        table :: outer, ⟨locals, true⟩, true, fits, distinct, visited⟩

theorem mirrored_execute {stmt : Stmt} {tables : List NameTable} {frame : Frame} {isInner : Bool}
    (calls : Calls ⟨fuel, .execute stmt, machine⟩ second)
    (mirrors : Lexical.Mirrors known world machine store) (formed : stmt.WellFormed)
    (fits : Fits world machine tables frame) (distinct : stmt.Distinct tables)
    (visited : ∀ visit ∈ stmt.visits tables isInner, known visit) : second.Mirrored known := by
  cases calls with
  | expression =>
      rw [Stmt.visits] at visited
      exact ⟨world, store, mirrors, formed, frame.names, _, fits.sees isInner, visited⟩
  | print =>
      rw [Stmt.visits] at visited
      exact ⟨world, store, mirrors, formed, frame.names, _, fits.sees isInner, visited⟩
  | @var _ name value =>
      rw [Stmt.visits] at visited
      rcases fits.introduce mirrors distinct with
        ⟨later, inner, final', -, -, introduced, pending⟩
      exact ⟨later, final', introduced, formed.2 value rfl, _, _, pending.sees isInner, visited⟩
  | block openResult =>
      rw [Stmt.visits] at visited
      cases openResult
      rcases mirrors.openScope fits.represents with ⟨opened, entered, complete⟩
      exact ⟨world, store, opened.enter entered.lt_size, formed, ∅ :: tables,
        { frame with isLocal := true }, isInner, ⟨entered, rfl, complete⟩, distinct, visited⟩
  | ifCondition =>
      refine ⟨world, store, mirrors, Stmt.condition_wellFormed formed, frame.names, _,
        fits.sees isInner, ?_⟩
      intro visit member
      exact visited visit (Stmt.mem_visits_condition member)
  | @thenBranch _ condition _ _ _ _ _ conditionResult =>
      have seen : Seen known world machine fun place => condition.visits place :=
        ⟨frame.names, _, fits.sees isInner, fun visit member =>
          visited visit (Stmt.mem_visits_condition member)⟩
      rcases evaluated_mirrors mirrors (Stmt.condition_wellFormed formed) seen conditionResult with
        ⟨later, middle', extension, grows, laterMirrors⟩
      refine ⟨later, middle', laterMirrors, Stmt.thenBranch_wellFormed formed, tables, frame,
        isInner, fits.mono grows extension, Stmt.thenBranch_distinct distinct, ?_⟩
      intro visit member
      exact visited visit (Stmt.mem_visits_thenBranch member)
  | @elseBranch _ condition _ _ _ _ _ conditionResult =>
      simp only [Stmt.visits, List.forall_mem_append] at visited
      have seen : Seen known world machine fun place => condition.visits place :=
        ⟨frame.names, _, fits.sees isInner, visited.1.1⟩
      rcases evaluated_mirrors mirrors (Stmt.condition_wellFormed formed) seen conditionResult with
        ⟨later, middle', extension, grows, laterMirrors⟩
      exact ⟨later, middle', laterMirrors, formed.2.2.1, tables, frame, isInner,
        fits.mono grows extension, distinct.2, visited.2⟩
  | loop => exact ⟨world, store, mirrors, formed, tables, frame, isInner, fits, distinct, visited⟩
  | @return_ _ _ value =>
      rw [Stmt.visits] at visited
      exact ⟨world, store, mirrors, formed value rfl, frame.names, _, fits.sees isInner, visited⟩
  | @superclass _ name superclass =>
      simp only [Stmt.visits, List.forall_mem_append] at visited
      exact ⟨world, store, mirrors, (formed.2.1 superclass rfl).wellFormed, frame.names, _,
        fits.sees_superclass isInner name.text, visited.1⟩

theorem mirrored_executeEach {stmts : List Stmt} {tables : List NameTable} {frame : Frame}
    {isInner : Bool} (calls : Calls ⟨fuel, .executeEach stmts, machine⟩ second)
    (mirrors : Lexical.Mirrors known world machine store) (formed : Stmt.WellFormedEach stmts)
    (fits : Fits world machine tables frame) (distinct : Stmt.DistinctEach tables stmts)
    (visited : ∀ visit ∈ Stmt.visitsEach tables isInner stmts, known visit) :
    second.Mirrored known := by
  cases calls with
  | firstStmt =>
      simp only [Stmt.visitsEach, List.forall_mem_append] at visited
      exact ⟨world, store, mirrors, formed.1, tables, frame, isInner, fits, distinct.1, visited.1⟩
  | @restStmts fuel first _ _ _ firstResult =>
      simp only [Stmt.visitsEach, List.forall_mem_append] at visited
      have executed := (simulatesAt known fuel).execute first isInner mirrors fits formed.1
        distinct.1 visited.1
      rcases executed.of_result firstResult with
        ⟨later, ⟨_, inner⟩, middle', -, -, laterMirrors, -, after⟩
      exact ⟨later, middle', laterMirrors, formed.2, _, inner, isInner, after rfl, distinct.2,
        visited.2⟩

theorem mirrored_executeWhile {condition : Expr} {body : Stmt} {tables : List NameTable}
    {frame : Frame} {isInner : Bool}
    (calls : Calls ⟨fuel, .executeWhile condition body, machine⟩ second)
    (mirrors : Lexical.Mirrors known world machine store)
    (formed : (Stmt.while_ condition body).WellFormed) (fits : Fits world machine tables frame)
    (distinct : (Stmt.while_ condition body).Distinct tables)
    (visited : ∀ visit ∈ (Stmt.while_ condition body).visits tables isInner, known visit) :
    second.Mirrored known := by
  have parts := visited
  simp only [Stmt.visits, List.forall_mem_append] at parts
  have seen : Seen known world machine fun place => condition.visits place :=
    ⟨frame.names, _, fits.sees isInner, parts.1⟩
  cases calls with
  | loopCondition => exact ⟨world, store, mirrors, formed.1, seen⟩
  | loopBody conditionResult =>
      rcases evaluated_mirrors mirrors formed.1 seen conditionResult with
        ⟨later, middle', extension, grows, laterMirrors⟩
      exact ⟨later, middle', laterMirrors, formed.2.1, tables, frame, isInner,
        fits.mono grows extension, distinct, parts.2⟩
  | @loopAgain fuel _ _ _ _ _ _ conditionResult _ bodyResult =>
      rcases evaluated_mirrors mirrors formed.1 seen conditionResult with
        ⟨later, middle', extension, grows, laterMirrors⟩
      have executed := (simulatesAt known fuel).execute body isInner laterMirrors
        (fits.mono grows extension) formed.2.1 distinct parts.2
      rcases executed.of_result bodyResult with
        ⟨last, ⟨_, inner⟩, last', lastExtension, lastGrows, lastMirrors, -, after⟩
      -- The frame before the body still fits: the body declares nothing.
      have inside := after rfl
      rw [Stmt.scopesAfter, formed.2.2] at inside
      exact ⟨last, last', lastMirrors, formed, tables, frame, isInner,
        (fits.mono grows extension).resume lastGrows lastExtension inside.complete, distinct,
        visited⟩

theorem mirrored_executeProgram {program : List Stmt}
    (calls : Calls ⟨fuel, .executeProgram program, machine⟩ second)
    (mirrors : Lexical.Mirrors known world machine store) (formed : Stmt.WellFormedEach program)
    (fits : Fits world machine [] ⟨∅, false⟩) (distinct : Stmt.DistinctEach [] program)
    (visited : ∀ visit ∈ Stmt.visitsEach [] false program, known visit) :
    second.Mirrored known := by
  cases calls with
  | firstOfProgram =>
      simp only [Stmt.visitsEach, List.forall_mem_append] at visited
      exact ⟨world, store, mirrors, formed.1, [], _, false, fits, distinct.1, visited.1⟩
  | @restOfProgram _ first _ _ _ _ firstResult =>
      simp only [Stmt.visitsEach, List.forall_mem_append, Stmt.scopesAfter_nil] at visited
      simp only [Stmt.DistinctEach, Stmt.scopesAfter_nil] at distinct
      have executed := (simulatesAt known fuel).execute first false mirrors fits formed.1
        distinct.1 visited.1
      rcases executed.of_result firstResult with
        ⟨later, _, middle', extension, grows, laterMirrors, -⟩
      exact ⟨later, middle', laterMirrors, formed.2, fits.resume grows extension trivial,
        distinct.2, visited.2⟩

/-- A moment that is mirrored starts only moments that are. -/
theorem mirrored {first : Moment} (calls : Calls first second)
    (isMirrored : first.Mirrored known) : second.Mirrored known := by
  rcases first with ⟨fuel, task, machine⟩
  rcases isMirrored with ⟨world, store, mirrors, placed⟩
  cases task with
  | evaluate expr => exact calls.mirrored_evaluate mirrors placed.1 placed.2
  | evaluateEach exprs => exact calls.mirrored_evaluateEach mirrors placed.1 placed.2
  | callValue callee arguments line => exact calls.mirrored_callValue mirrors placed
  | callFunction closure arguments line =>
      rcases placed with ⟨⟨other, alike⟩, sameLength⟩
      exact calls.mirrored_callFunction mirrors alike sameLength
  | execute stmt =>
      rcases placed with ⟨formed, tables, frame, isInner, fits, distinct, visited⟩
      exact calls.mirrored_execute mirrors formed fits distinct visited
  | executeEach stmts =>
      rcases placed with ⟨formed, tables, frame, isInner, fits, distinct, visited⟩
      exact calls.mirrored_executeEach mirrors formed fits distinct visited
  | executeWhile condition body =>
      rcases placed with ⟨formed, tables, frame, isInner, fits, distinct, visited⟩
      exact calls.mirrored_executeWhile mirrors formed fits distinct visited
  | executeProgram program =>
      rcases placed with ⟨formed, fits, distinct, visited⟩
      exact calls.mirrored_executeProgram mirrors formed fits distinct visited

end Calls

theorem Reaches.mirrored {known : Visit → Prop} {start moment : Moment}
    (reaches : Reaches start moment) (isMirrored : start.Mirrored known) :
    moment.Mirrored known :=
  reaches.invariant isMirrored fun _ _ calls => calls.mirrored

/-! ## Sessions -/

namespace Session

variable {origin weaker : Visit → Prop} {session : Session} {source : String}
  {program : List Stmt} {nextId : UseId}

/-- A store mirrors the machine between units. -/
def Mirrored (origin : Visit → Prop) (session : Session) : Prop :=
  ∃ world store, Lexical.Mirrors (Knows origin session.machine.distances session.nextId) world
    session.machine store

theorem Knows.mirrors {known : Visit → Prop} {world : World} {machine : Machine} {store : Store}
    {distances : Std.TreeMap UseId Nat} (mirrors : Lexical.Mirrors known world machine store)
    (imp : ∀ visit, visit.place.isInner = true → known visit →
      Knows origin distances nextId visit) :
    Lexical.Mirrors (Knows origin distances nextId) world { machine with distances } store :=
  mirrors.withDistances imp fun _ knows => ⟨knows.legal, knows.recorded⟩

theorem Mirrored.imp (mirrored : session.Mirrored origin)
    (imp : ∀ visit, origin visit → weaker visit) : session.Mirrored weaker := by
  rcases mirrored with ⟨world, store, mirrors⟩
  exact ⟨world, store, Knows.mirrors mirrors fun visit _ knows =>
    knows.mono (imp visit) (Nat.le_refl _) rfl⟩

theorem mirrored_initial (sink : Sink) (clock : Clock) :
    (initial sink clock).Mirrored origin :=
  ⟨[], .initial sink clock, mirrors_new sink clock [] fun _ knows =>
    ⟨knows.legal, knows.recorded⟩⟩

/-- When an accepted unit starts, it is mirrored. -/
theorem Reads.mirrored (reads : session.Reads source program nextId)
    (settled : session.Settled origin)
    (clean : (resolveProgram session.machine.globalNames program).errors = [])
    (mirrored : session.Mirrored origin) (fuel : Nat) :
    Moment.Mirrored
      (Knows (session.WithUnit origin program) (session.resolved program).distances nextId)
      ⟨fuel, .executeProgram program, session.resolved program⟩ := by
  rcases mirrored with ⟨world, store, mirrors⟩
  refine ⟨world, store, Knows.mirrors mirrors ?_, reads.takes.wellFormed,
    fits_globals settled.atGlobals, resolveProgram_distinct reads.takes.wellFormed clean,
    fun visit visited => reads.takes.knows_new settled clean visited⟩
  intro visit _ knows
  exact knows.mono (fun isOld => .inl ⟨isOld, knows.bounded⟩) reads.takes.nextId_le
    (reads.takes.resolved_old (.inl knows.bounded))

/-- After an accepted unit, however it ended, a store mirrors the machine. -/
theorem Reads.mirrored_accepted (reads : session.Reads source program nextId)
    (settled : session.Settled origin)
    (clean : (resolveProgram session.machine.globalNames program).errors = [])
    (mirrored : session.Mirrored origin) (fuel : Nat) :
    Session.Mirrored (session.WithUnit origin program)
      ⟨(session.finalMachine fuel program).release program, nextId⟩ := by
  rcases reads.mirrored settled clean mirrored fuel with
    ⟨world, store, mirrors, formed, fits, distinct, visited⟩
  rcases (executeProgram_agrees mirrors fits formed distinct visited).ends with
    ⟨later, store', grows, ended⟩
  refine ⟨later, store', Knows.mirrors ended ?_⟩
  intro visit isInner knows
  rw [← grows.distances] at knows
  exact reads.takes.knows_released isInner knows

/-- After a unit that resolution rejects, a store mirrors the machine. -/
theorem Reads.mirrored_rejected (reads : session.Reads source program nextId)
    (mirrored : session.Mirrored origin) :
    Session.Mirrored origin ⟨(session.resolved program).release program, nextId⟩ := by
  rcases mirrored with ⟨world, store, mirrors⟩
  have released := Knows.mirrors mirrors fun visit (_ : visit.place.isInner = true) knows =>
    reads.takes.knows_unresolved knows
  exact ⟨world, store, released⟩

theorem Mirrored.run (mirrored : session.Mirrored origin) (settled : session.Settled origin)
    (fuel : Nat) (source : String) {later : Visit → Prop}
    (old : ∀ visit, origin visit → later visit)
    (accepted : ∀ program, session.Accepts source program →
      ∀ visit ∈ Stmt.visitsEach [] false program, later visit) :
    (session.run fuel source).2.Mirrored later := by
  rcases session.run_cases fuel source with
    ⟨program, nextId, reads⟩ | ⟨errors, nextId, ascending, rejected⟩
  · rw [reads.run_eq fuel]
    by_cases clean : (resolveProgram session.machine.globalNames program).errors = []
    · rw [runProgram_clean clean]
      have imp : ∀ visit, session.WithUnit origin program visit → later visit := by
        rintro visit (isOld | isNew)
        · exact old visit isOld.1
        · exact accepted program ⟨⟨nextId, reads⟩, clean⟩ visit isNew
      exact (reads.mirrored_accepted settled clean mirrored fuel).imp imp
    · rw [runProgram_unclean clean]
      exact (reads.mirrored_rejected mirrored).imp old
  · rw [rejected]
    rcases mirrored with ⟨world, store, mirrors⟩
    exact ⟨world, store, Knows.mirrors mirrors fun visit _ knows =>
      knows.mono (old visit) ascending rfl⟩

/-- Between its units, every session is mirrored. -/
theorem mirrored_runAll (sink : Sink) (clock : Clock) (units : List (Nat × String)) :
    ((initial sink clock).runAll units).Mirrored (VisitedIn sink clock units) := by
  induction units using List.reverseRecOn with
  | nil => exact mirrored_initial sink clock
  | append_singleton units unit inductionHypothesis =>
      rw [runAll_append_singleton]
      apply inductionHypothesis.run (settled_runAll sink clock units)
      · intro visit visited
        exact visited.mono unit
      · intro program accepted visit visited
        exact ⟨units, unit, program, List.prefix_refl _, accepted, visited⟩

theorem Occurs.mirrored {sink : Sink} {clock : Clock} {units : List (Nat × String)}
    {moment : Moment} (occurs : Occurs sink clock units moment) :
    ∃ known : Visit → Prop, moment.Mirrored known := by
  rcases occurs with ⟨before, fuel, source, program, -, ⟨⟨nextId, reads⟩, clean⟩, reaches⟩
  exact ⟨_, reaches.mirrored (reads.mirrored (settled_runAll sink clock before) clean
    (mirrored_runAll sink clock before) fuel)⟩

end Session

end Lox
