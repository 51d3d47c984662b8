import Lox.Proofs.Evaluation.CallLimit

/-!
# The depth of calls

The depth of calls is the number of calls in progress, and the limit bounds it.  A run
under the limit is the run without a limit up to the first call beyond the limit, and
it stops there.
-/

namespace Lox

open Actions Eval Timeline

/-! ## Calls in progress -/

/-- A call expression starts to call its callee at this moment.  The initializer that a
call of a class runs is no call of its own. -/
def Moment.isCall (moment : Moment) : Bool :=
  match moment.task with
  | .callValue _ _ _ => true
  | _ => false

/-- The number of calls among evaluations. -/
def callCount (evaluations : List Moment) : Nat :=
  evaluations.countP Moment.isCall

theorem callCount_cons_of_isCall {moment : Moment} (isCall : moment.isCall = true)
    (outer : List Moment) : callCount (moment :: outer) = callCount outer + 1 :=
  List.countP_cons_of_pos isCall

theorem callCount_cons_of_not_isCall {moment : Moment} (isCall : moment.isCall = false)
    (outer : List Moment) : callCount (moment :: outer) = callCount outer :=
  List.countP_cons_of_neg (by simp [isCall])

/-- What an evaluation has done to the machine when it starts another one: either it calls
a value, and the check of calls has passed, or the depth is as it was. -/
theorem Calls.grows_cases {moment part : Moment} (calls : Calls moment part) :
    (∃ callee arguments line machine, part.task = .callValue callee arguments line ∧
      moment.machine.Grows machine ∧
      checkCall callee line arguments.length machine = .ok () machine ∧
      part.machine = { machine with callDepth := machine.callDepth + 1 } ∧
      ∃ calleeExpr argumentExprs,
        moment.task = .evaluate (.call calleeExpr line argumentExprs)) ∨
    (part.isCall = false ∧
      ∃ scope, Machine.Grows { moment.machine with current := scope } part.machine) := by
  have framed := framedAt
  cases calls with
  | call calleeResult argumentsResult checkResult =>
      have grows := ((framed _).evaluate _).of_ok calleeResult
      have grows' := ((framed _).evaluateEach _).of_ok argumentsResult
      obtain ⟨-, -, rfl⟩ := checkCall_eq_ok_iff.mp checkResult
      exact .inl ⟨_, _, _, _, rfl, Machine.growsOrder.trans grows grows', checkResult, rfl, _, _,
        rfl⟩
  | binaryRight result => exact .inr ⟨rfl, _, ((framed _).evaluate _).of_ok result⟩
  | logicalRight result => exact .inr ⟨rfl, _, ((framed _).evaluate _).of_ok result⟩
  | arguments result => exact .inr ⟨rfl, _, ((framed _).evaluate _).of_ok result⟩
  | setValue result => exact .inr ⟨rfl, _, ((framed _).evaluate _).of_ok result⟩
  | restExprs result => exact .inr ⟨rfl, _, ((framed _).evaluate _).of_ok result⟩
  | initializer addResult _ bindResult =>
      have grows := (framed_onHeap fun heap => Scopes.Grows.refl heap.scopes).of_ok addResult
      have grows' := (framed_onHeap fun heap => grows_bind heap _ _).of_ok bindResult
      exact .inr ⟨rfl, _, Machine.growsOrder.trans grows grows'⟩
  | functionBody openResult =>
      cases openResult
      exact .inr ⟨rfl, _, Machine.grows_heap (Scopes.grows_push _ _)⟩
  | block openResult =>
      cases openResult
      exact .inr ⟨rfl, _, Machine.grows_heap (Scopes.grows_push _ _)⟩
  | thenBranch result => exact .inr ⟨rfl, _, ((framed _).evaluate _).of_ok result⟩
  | elseBranch result => exact .inr ⟨rfl, _, ((framed _).evaluate _).of_ok result⟩
  | restStmts result => exact .inr ⟨rfl, _, ((framed _).execute _).of_ok result⟩
  | loopBody result => exact .inr ⟨rfl, _, ((framed _).evaluate _).of_ok result⟩
  | loopAgain conditionResult _ bodyResult =>
      have grows := ((framed _).evaluate _).of_ok conditionResult
      have grows' := ((framed _).execute _).of_ok bodyResult
      exact .inr ⟨rfl, _, Machine.growsOrder.trans grows grows'⟩
  | restOfProgram result => exact .inr ⟨rfl, _, ((framed _).execute _).of_ok result⟩
  | _ => exact .inr ⟨rfl, _, Machine.growsOrder.refl _⟩

/-- The depth counts the calls in progress, and a limit bounds it. -/
theorem InProgress.depth {start moment : Moment} {outer : List Moment}
    (inProgress : InProgress start (moment :: outer)) (notCall : start.isCall = false) :
    moment.machine.callLimit = start.machine.callLimit ∧
      moment.machine.callDepth = start.machine.callDepth + callCount (moment :: outer) ∧
      ∀ limit, start.machine.callLimit = some limit → start.machine.callDepth ≤ limit →
        moment.machine.callDepth ≤ limit := by
  generalize isStack : moment :: outer = stack at inProgress
  induction inProgress generalizing moment outer with
  | start =>
      cases isStack
      rw [callCount_cons_of_not_isCall notCall]
      exact ⟨rfl, rfl, fun _ _ fits => fits⟩
  | @next previous part before _ calls inductionHypothesis =>
      cases isStack
      rcases inductionHypothesis rfl with ⟨limits, depths, bounded⟩
      rcases calls.grows_cases with
        ⟨callee, arguments, line, machine, isCall, grows, passed, isMachine, -⟩ |
        ⟨notCall, scope, grows⟩
      · have counted : part.isCall = true := by rw [Moment.isCall, isCall]
        rw [callCount_cons_of_isCall counted, isMachine]
        refine ⟨grows.callLimit.trans limits, ?_, ?_⟩
        · change machine.callDepth + 1 = _
          rw [grows.callDepth, depths]
          rfl
        · intro limit isLimit _
          -- The check has passed, so there was room for one more call.
          have room := (checkCall_eq_ok_iff.mp passed).2.1
          rw [grows.callLimit, limits, isLimit] at room
          exact Nat.not_le.mp (of_decide_eq_false room)
      · rw [callCount_cons_of_not_isCall notCall, grows.callDepth]
        exact ⟨grows.callLimit.trans limits, depths, bounded⟩

theorem Calls.fuel_le {moment part : Moment} (calls : Calls moment part) :
    callCount [part] + part.fuel ≤ moment.fuel := by
  cases calls
  all_goals simp [callCount, Moment.isCall, Nat.add_comm]

/-- Every call in progress has taken fuel. -/
theorem InProgress.callCount_le_fuel {start moment : Moment} {outer : List Moment}
    (inProgress : InProgress start (moment :: outer)) (notCall : start.isCall = false) :
    callCount (moment :: outer) + moment.fuel ≤ start.fuel := by
  generalize isStack : moment :: outer = stack at inProgress
  induction inProgress generalizing moment outer with
  | start =>
      cases isStack
      rw [callCount_cons_of_not_isCall notCall]
      exact Nat.le_of_eq (Nat.zero_add _)
  | @next previous part before _ calls inductionHypothesis =>
      cases isStack
      have earlier := inductionHypothesis rfl
      have spent := calls.fuel_le
      have split : callCount ([part] ++ previous :: before) =
          callCount [part] + callCount (previous :: before) := List.countP_append
      rw [List.singleton_append] at split
      omega

theorem Moment.grows_final (moment : Moment) : moment.machine.Grows moment.final := by
  rcases moment with ⟨fuel, task, machine⟩
  have framed := framedAt fuel
  cases task with
  | evaluate expr => exact framed.evaluate expr machine
  | evaluateEach exprs => exact framed.evaluateEach exprs machine
  | callValue callee arguments line => exact framed.callValue callee arguments line machine
  | callFunction closure arguments line =>
      exact framed.callFunction closure arguments line machine
  | execute stmt => exact framed.execute stmt machine
  | executeEach stmts => exact framed.executeEach stmts machine
  | executeWhile condition body => exact framed.executeWhile condition body machine
  | executeProgram program => exact framed_executeProgram fuel program machine

/-! ## The first call beyond the limit -/

/-- The moment is the first call of the run that is made with this many calls in progress.
The value that is called takes the arguments, and the line is that of the call
expression. -/
structure FirstBeyond (limit : Nat) (start first : Moment) (line : Nat) : Prop where
  isFirst : ∃ before after, start.moments = before ++ first :: after ∧
    ∀ moment ∈ before, moment.machine.callDepth ≤ limit
  isCall : ∃ callee arguments, first.task = .callValue callee arguments line ∧
    first.machine.heap.arity? callee = some arguments.length
  depth : first.machine.callDepth = limit + 1
  written : ∃ caller calleeExpr argumentExprs, Reaches start caller ∧ Calls caller first ∧
    caller.task = .evaluate (.call calleeExpr line argumentExprs)

/-- A call that is reached is made by a call expression. -/
theorem Reaches.exists_caller {start moment : Moment} (reaches : Reaches start moment)
    (notCall : start.isCall = false) {callee : Value} {arguments : List Value} {line : Nat}
    (isCall : moment.task = .callValue callee arguments line) :
    ∃ caller calleeExpr argumentExprs, Reaches start caller ∧ Calls caller moment ∧
      caller.task = .evaluate (.call calleeExpr line argumentExprs) := by
  have called : moment.isCall = true := by rw [Moment.isCall, isCall]
  rcases Relation.ReflTransGen.cases_tail reaches with rfl | ⟨caller, reached, calls⟩
  · rw [notCall] at called
    cases called
  · rcases calls.grows_cases with
      ⟨_, _, _, _, isSame, -, -, -, calleeExpr, argumentExprs, written⟩ | ⟨uncalled, -⟩
    · rw [isCall] at isSame
      cases isSame
      exact ⟨caller, calleeExpr, argumentExprs, reached, calls, written⟩
    · rw [uncalled] at called
      cases called

section Runs

variable {fuel limit : Nat} {program : List Stmt} {machine : Machine}

/-- If no call is beyond the limit, the run does not depend on it. -/
theorem executeProgram_within (unlimited : machine.callLimit = none)
    (fits : machine.callDepth ≤ limit)
    (within : ∀ moment, Reaches ⟨fuel, .executeProgram program, machine⟩ moment →
      moment.machine.callDepth ≤ limit) :
    executeProgram fuel program (machine.limitedTo (some limit)) =
      limitedResult (some limit) (executeProgram fuel program machine) := by
  have ends := limited_executeProgram limit fuel program machine unlimited fits
  have noOverflow : overflow? limit
      ((start fuel (.executeProgram program) machine).flatMap Moment.moments) = none := by
    rw [start, List.flatMap_singleton, overflow?, List.find?_eq_none]
    intro moment member
    simpa using within moment (Moment.mem_moments_iff.mp member)
  rw [noOverflow] at ends
  generalize executeProgram fuel program (machine.limitedTo (some limit)) = limitedEnd at ends ⊢
  cases ends with
  | within => rfl

/-- If a call is beyond the limit, the run stops at the first such call. -/
theorem executeProgram_beyond (unlimited : machine.callLimit = none)
    (fits : machine.callDepth ≤ limit) {moment : Moment}
    (reaches : Reaches ⟨fuel, .executeProgram program, machine⟩ moment)
    (beyond : limit < moment.machine.callDepth) :
    ∃ first line, FirstBeyond limit ⟨fuel, .executeProgram program, machine⟩ first line ∧
      executeProgram fuel program (machine.limitedTo (some limit)) =
        .error (.runtime ⟨line, .stackOverflow⟩)
          { first.machine with
            current := machine.current, callDepth := machine.callDepth,
            callLimit := some limit } := by
  have ends := limited_executeProgram limit fuel program machine unlimited fits
  rw [start, List.flatMap_singleton] at ends
  cases found : overflow? limit (Moment.moments ⟨fuel, .executeProgram program, machine⟩) with
  | none =>
      have fitting := List.find?_eq_none.mp found moment (Moment.mem_moments_iff.mpr reaches)
      exact absurd (decide_eq_true beyond) fitting
  | some first =>
      rw [found] at ends
      generalize executeProgram fuel program (machine.limitedTo (some limit)) = limitedEnd
        at ends ⊢
      cases ends with
      | @beyond _ callee arguments line isCall takes depth =>
          rcases List.find?_eq_some_iff_append.mp found with ⟨-, before, after, split, earlier⟩
          have member : first ∈ Moment.moments ⟨fuel, .executeProgram program, machine⟩ := by
            rw [split]
            exact List.mem_append_right _ List.mem_cons_self
          refine ⟨first, line, ⟨⟨before, after, split, ?_⟩, ⟨callee, arguments, isCall, takes⟩,
            depth, ?_⟩, rfl⟩
          · intro other inBefore
            simpa using earlier other inBefore
          · exact (Moment.mem_moments_iff.mp member).exists_caller rfl isCall

end Runs

/-- The limit of calls is exact and otherwise invisible.  At every moment of a run that
starts with no call in progress, the depth is the number of calls in progress, it is so
again when what starts then has ended, and it is at most 256.  If no more calls than that
are ever in progress without the limit, the run under the limit yields the same result
and leaves the same machine.  If a call is made without the limit while 256 others are in
progress, the run under the limit stops at the first such call, with the machine as it was
then. -/
theorem call_limit_is_exact (fuel : Nat) (program : List Stmt) {machine : Machine}
    (outside : machine.callDepth = 0) (limited : machine.callLimit = some Machine.maxCallDepth) :
    (∀ moment outer, InProgress ⟨fuel, .executeProgram program, machine⟩ (moment :: outer) →
      moment.machine.callDepth = callCount (moment :: outer) ∧
      moment.final.callDepth = callCount (moment :: outer) ∧
      callCount (moment :: outer) ≤ 256) ∧
    ((∀ moment outer,
        InProgress ⟨fuel, .executeProgram program, machine.limitedTo none⟩ (moment :: outer) →
        callCount (moment :: outer) ≤ 256) →
      executeProgram fuel program machine =
        limitedResult machine.callLimit (executeProgram fuel program (machine.limitedTo none))) ∧
    (∀ attempt outer,
      InProgress ⟨fuel, .executeProgram program, machine.limitedTo none⟩ (attempt :: outer) →
      attempt.isCall = true → callCount outer = 256 →
      ∃ first line,
        FirstBeyond 256 ⟨fuel, .executeProgram program, machine.limitedTo none⟩ first line ∧
        executeProgram fuel program machine =
          .error (.runtime ⟨line, .stackOverflow⟩)
            { first.machine with
              current := machine.current, callDepth := 0, callLimit := machine.callLimit }) ∧
    RuntimeFault.stackOverflow.message = "Stack overflow." := by
  have fits : (machine.limitedTo none).callDepth ≤ 256 :=
    Nat.le_trans (Nat.le_of_eq outside) (Nat.zero_le _)
  have restored : (machine.limitedTo none).limitedTo (some 256) = machine := by
    have isLimit : some 256 = machine.callLimit := limited.symm
    rw [isLimit]
    rfl
  -- Without the limit the depth counts the calls in progress as well.
  have counts : ∀ moment outer,
      InProgress ⟨fuel, .executeProgram program, machine.limitedTo none⟩ (moment :: outer) →
      moment.machine.callDepth = callCount (moment :: outer) := by
    intro moment outer inProgress
    have depths := (inProgress.depth rfl).2.1
    rw [depths]
    exact (congrArg (· + _) outside).trans (Nat.zero_add _)
  refine ⟨?_, ?_, ?_, rfl⟩
  · intro moment outer inProgress
    rcases inProgress.depth rfl with ⟨-, depths, bounded⟩
    rw [outside, Nat.zero_add] at depths
    rw [← depths]
    exact ⟨rfl, moment.grows_final.callDepth, bounded 256 limited fits⟩
  · intro within
    have fitting : ∀ moment,
        Reaches ⟨fuel, .executeProgram program, machine.limitedTo none⟩ moment →
        moment.machine.callDepth ≤ 256 := by
      intro moment reaches
      rcases reaches.exists_inProgress with ⟨outer, inProgress⟩
      rw [counts moment outer inProgress]
      exact within moment outer inProgress
    have same := executeProgram_within rfl fits fitting
    rw [restored] at same
    rw [same, limited]
    rfl
  · intro attempt outer inProgress isCall count
    have beyond : 256 < attempt.machine.callDepth := by
      rw [counts attempt outer inProgress, callCount_cons_of_isCall isCall, count]
      exact Nat.lt_succ_self _
    rcases executeProgram_beyond rfl fits inProgress.reaches beyond with
      ⟨first, line, isFirst, stops⟩
    rw [restored] at stops
    refine ⟨first, line, isFirst, ?_⟩
    rw [stops, limited, ← outside]
    rfl

/-- A function that calls itself without end. -/
def endlessDeclaration : FunctionDecl :=
  ⟨⟨"f", 1⟩, [], [.expression (.call (.var 0 ⟨"f", 1⟩) 1 [])]⟩

/-- The function is declared and called. -/
def endlessProgram : List Stmt :=
  [.function endlessDeclaration, .expression (.call (.var 1 ⟨"f", 1⟩) 1 [])]

/-- The function as a value. -/
def endlessClosure : Closure :=
  { declaration := endlessDeclaration, scope := ⟨0⟩, isInitializer := false }

/-- The global `f` is the endless function, and nothing limits its calls. -/
structure Machine.Endless (machine : Machine) : Prop where
  unlimited : machine.callLimit = none
  distances : machine.distances = ∅
  bound : machine.heap.scopes.own? machine.globals "f" = some (.function ⟨0⟩)
  function : machine.heap.function ⟨0⟩ = endlessClosure

namespace Machine.Endless

variable {machine : Machine}

/-- In a new scope, at any depth, `f` is still there. -/
theorem enter (endless : machine.Endless) (scope : Scope) (current : ScopeRef) (depth : Nat) :
    Endless { machine with
      heap := { machine.heap with scopes := machine.heap.scopes.push scope }
      current := current, callDepth := depth } := by
  have present := Scopes.lt_of_own (Option.isSome_of_eq_some endless.bound)
  refine ⟨endless.unlimited, endless.distances, ?_, endless.function⟩
  exact (Scopes.own?_push_of_lt _ _ present _).trans endless.bound

/-- A call of `f` starts at one call more. -/
theorem calls (endless : machine.Endless) (fuel : Nat) (id : UseId) :
    Calls ⟨fuel + 2, .evaluate (.call (.var id ⟨"f", 1⟩) 1 []), machine⟩
      ⟨fuel + 1, .callValue (.function ⟨0⟩) [] 1,
        { machine with callDepth := machine.callDepth + 1 }⟩ := by
  have found : evaluate (fuel + 1) (.var id ⟨"f", 1⟩) machine =
      .ok (.function ⟨0⟩) machine := by
    simp [evaluate, readVariable, endless.distances, endless.bound]
  have arity : machine.heap.arity? (.function ⟨0⟩) = some 0 := by
    rw [Heap.arity?, endless.function]
    rfl
  apply Calls.call found rfl
  exact checkCall_eq_ok_iff.mpr ⟨arity, by rw [endless.unlimited]; rfl, rfl⟩

/-- A call of `f` leads to another one. -/
theorem reaches_next (endless : machine.Endless) (fuel : Nat) :
    ∃ later, Reaches ⟨fuel + 6, .callValue (.function ⟨0⟩) [] 1, machine⟩
        ⟨fuel + 1, .callValue (.function ⟨0⟩) [] 1, later⟩ ∧
      later.Endless ∧ later.callDepth = machine.callDepth + 1 := by
  have called : Calls ⟨fuel + 6, .callValue (.function ⟨0⟩) [] 1, machine⟩
      ⟨fuel + 5, .callFunction endlessClosure [] 1, machine⟩ := by
    rw [← endless.function]
    exact .function
  have entered := endless.enter ⟨parameterBindings [] [], some endlessClosure.scope⟩
    machine.heap.scopes.nextRef
  refine ⟨_, ?_, entered (machine.callDepth + 1), rfl⟩
  apply Relation.ReflTransGen.head called
  apply Relation.ReflTransGen.head (.functionBody rfl)
  apply Relation.ReflTransGen.head .firstStmt
  apply Relation.ReflTransGen.head .expression
  exact .single ((entered machine.callDepth).calls fuel 0)

/-- Calls of `f` lead to any number of further ones. -/
theorem reaches_later (endless : machine.Endless) (count : Nat) :
    ∃ later, Reaches ⟨5 * count + 1, .callValue (.function ⟨0⟩) [] 1, machine⟩
        ⟨1, .callValue (.function ⟨0⟩) [] 1, later⟩ ∧
      later.callDepth = machine.callDepth + count := by
  induction count generalizing machine with
  | zero => exact ⟨machine, .refl, rfl⟩
  | succ count inductionHypothesis =>
      rcases endless.reaches_next (5 * count) with ⟨middle, reaches, middleEndless, depth⟩
      rcases inductionHypothesis middleEndless with ⟨later, reachesLater, depthLater⟩
      refine ⟨later, reaches.trans reachesLater, ?_⟩
      rw [depthLater, depth, Nat.add_assoc, Nat.add_comm 1 count]

end Machine.Endless

/-- The machine on which the program is run. -/
abbrev freshMachine : Machine :=
  .initial .unlimited (.startingAt 0)

theorem endlessProgram_reaches : ∃ machine,
    Reaches ⟨1283, .executeProgram endlessProgram, freshMachine.limitedTo none⟩
        ⟨1, .callValue (.function ⟨0⟩) [] 1, machine⟩ ∧
      machine.callDepth = 257 := by
  let declared := endState (execute 1283 (.function endlessDeclaration)
    (freshMachine.limitedTo none))
  have endless : declared.Endless := ⟨rfl, rfl, by decide +kernel, rfl⟩
  have calling : Machine.Endless { declared with callDepth := 1 } :=
    ⟨endless.unlimited, endless.distances, endless.bound, endless.function⟩
  rcases calling.reaches_later 256 with ⟨machine, reaches, depth⟩
  refine ⟨machine, ?_, depth⟩
  apply Relation.ReflTransGen.head (.restOfProgram rfl)
  apply Relation.ReflTransGen.head .firstOfProgram
  apply Relation.ReflTransGen.head .expression
  exact .head (endless.calls 1280 1) reaches

/-- The endless function meets the limit, and a single call does not. -/
theorem endlessProgram_meets_limit :
    (∃ first line,
      FirstBeyond 256 ⟨1283, .executeProgram endlessProgram, freshMachine.limitedTo none⟩
        first line ∧
      executeProgram 1283 endlessProgram freshMachine =
        .error (.runtime ⟨line, .stackOverflow⟩)
          { first.machine with
            current := freshMachine.current, callDepth := 0,
            callLimit := freshMachine.callLimit }) ∧
    ∃ final,
      executeProgram 9 [.expression (.call (.var 0 ⟨"clock", 1⟩) 1 [])]
        (freshMachine.limitedTo none) = .ok () final ∧
      executeProgram 9 [.expression (.call (.var 0 ⟨"clock", 1⟩) 1 [])] freshMachine =
        .ok () (final.limitedTo freshMachine.callLimit) := by
  constructor
  · rcases endlessProgram_reaches with ⟨machine, reaches, depth⟩
    rcases reaches.exists_inProgress with ⟨outer, inProgress⟩
    apply (call_limit_is_exact 1283 endlessProgram rfl rfl).2.2.1 _ outer inProgress rfl
    have counts := (inProgress.depth rfl).2.1
    rw [callCount_cons_of_isCall rfl, depth] at counts
    exact (Nat.succ.inj (counts.trans (Nat.zero_add _))).symm
  · refine ⟨_, rfl, ?_⟩
    apply (call_limit_is_exact 9 _ rfl rfl).2.1
    intro moment outer inProgress
    have spent := inProgress.callCount_le_fuel rfl
    exact Nat.le_trans (Nat.le_add_right _ _) (Nat.le_trans spent (by decide))

end Lox
