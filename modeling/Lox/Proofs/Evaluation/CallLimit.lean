import Lox.Proofs.Evaluation.Stepwise

/-!
# The limit of calls

A machine without a limit of calls and one with a limit are followed side by side.
Up to the first call beyond the limit they do the same; at that call the machine
with the limit stops, at the line of the call and with all that has happened before.
-/

namespace Lox

open Actions Eval Timeline

/-- The machine with this limit of calls. -/
def Machine.limitedTo (machine : Machine) (limit : Option Nat) : Machine :=
  { machine with callLimit := limit }

namespace Eval

variable {α β : Type}

/-- The result on a machine with this limit of calls. -/
def limitedResult (limit : Option Nat) :
    EStateM.Result Interrupt Machine α → EStateM.Result Interrupt Machine α
  | .ok value machine => .ok value (machine.limitedTo limit)
  | .error cause machine => .error cause (machine.limitedTo limit)

/-! ## Steps that do not look at the limit -/

/-- The limit of calls makes no difference to the action. -/
def IgnoresLimit (action : Eval α) : Prop :=
  ∀ machine limit, action (machine.limitedTo limit) = limitedResult limit (action machine)

theorem IgnoresLimit.bind {first : Eval α} {next : α → Eval β} (firstIgnores : IgnoresLimit first)
    (nextIgnores : ∀ value, IgnoresLimit (next value)) : IgnoresLimit (first >>= next) := by
  intro machine limit
  rw [bind_apply, bind_apply, firstIgnores]
  cases first machine with
  | ok value middle => exact nextIgnores value middle limit
  | error cause middle => rfl

theorem get_bind_apply (next : Machine → Eval α) (machine : Machine) :
    (get >>= next) machine = next machine machine :=
  rfl

/-- Reading the machine ignores the limit if what follows does. -/
theorem IgnoresLimit.get {next : Machine → Eval α}
    (same : ∀ machine limit, next (machine.limitedTo limit) = next machine)
    (ignores : ∀ machine, IgnoresLimit (next machine)) : IgnoresLimit (get >>= next) := by
  intro machine limit
  rw [get_bind_apply, get_bind_apply, same, ignores]

theorem ignoresLimit_onHeap (action : Heap → Heap × α) : IgnoresLimit (onHeap action) :=
  fun _ _ => rfl

theorem ignoresLimit_of_quiet {action : Eval α} (quiet : Quiet true action) :
    IgnoresLimit action := by
  intro machine limit
  change action (machine.refit limit machine.sink) = _
  rw [quiet.apply_refit, quiet.refit_self machine]
  cases action machine <;> rfl

theorem ignoresLimit_writeLine (text : String) : IgnoresLimit (writeLine text) := by
  intro machine limit
  have sameRoom : (machine.limitedTo limit).sink.hasRoom (text ++ "\n").toUTF8 =
      machine.sink.hasRoom (text ++ "\n").toUTF8 := rfl
  unfold writeLine
  dsimp only
  rw [sameRoom]
  split
  all_goals rfl

theorem ignoresLimit_flush : IgnoresLimit flush := by
  apply IgnoresLimit.get fun _ _ => rfl
  intro machine
  split
  · exact ignoresLimit_of_quiet (.throw _)
  · exact ignoresLimit_of_quiet (.pure _)

/-! ## Checks of calls -/

theorem checkDepth_apply (line : Nat) (machine : Machine) :
    checkDepth line machine =
      if machine.callLimit.any (· ≤ machine.callDepth) then
        .error (.runtime ⟨line, .stackOverflow⟩) machine
      else
        .ok () machine := by
  unfold checkDepth
  rw [get_bind_apply]
  split
  all_goals rfl

section CheckCall

variable {callee : Value} {line count : Nat} {machine checked : Machine}

/-- If the value takes that many arguments, only the depth is left to be checked. -/
theorem checkCall_of_arity (takes : machine.heap.arity? callee = some count) :
    checkCall callee line count machine = checkDepth line machine := by
  unfold checkCall
  rw [get_bind_apply, takes]
  simp

/-- If it does not, the check fails, whatever the limit. -/
theorem checkCall_of_ne (misfits : machine.heap.arity? callee ≠ some count) :
    ∃ fault, ∀ limit, checkCall callee line count (machine.limitedTo limit) =
      .error (.runtime ⟨line, fault⟩) (machine.limitedTo limit) := by
  cases arity : machine.heap.arity? callee with
  | none =>
      refine ⟨.notCallable, fun limit => ?_⟩
      have same : (machine.limitedTo limit).heap.arity? callee = none := arity
      unfold checkCall
      rw [get_bind_apply, same]
      rfl
  | some other =>
      have different : count ≠ other := by
        rintro rfl
        exact misfits arity
      refine ⟨.wrongArgumentCount other count, fun limit => ?_⟩
      have same : (machine.limitedTo limit).heap.arity? callee = some other := arity
      unfold checkCall
      rw [get_bind_apply, same]
      dsimp only
      rw [if_pos different]
      rfl

/-- A call passes the check if the value takes that many arguments and the limit is not
reached. -/
theorem checkCall_eq_ok_iff :
    checkCall callee line count machine = .ok () checked ↔
      machine.heap.arity? callee = some count ∧
        machine.callLimit.any (· ≤ machine.callDepth) = false ∧ checked = machine := by
  by_cases takes : machine.heap.arity? callee = some count
  · rw [checkCall_of_arity takes, checkDepth_apply]
    by_cases full : machine.callLimit.any (· ≤ machine.callDepth) = true
    · simp [full]
    · simp [full, takes, eq_comm]
  · rcases checkCall_of_ne takes with ⟨fault, fails⟩
    have failed : checkCall callee line count machine = _ := fails machine.callLimit
    simp [failed, takes]

/-- The check changes nothing. -/
theorem checkCall_still (callee : Value) (line count : Nat) (machine : Machine) :
    endState (checkCall callee line count machine) = machine := by
  by_cases takes : machine.heap.arity? callee = some count
  · rw [checkCall_of_arity takes, checkDepth_apply]
    split
    all_goals rfl
  · rcases checkCall_of_ne takes with ⟨fault, fails⟩
    have failed : checkCall callee line count machine = _ := fails machine.callLimit
    rw [failed]
    rfl

end CheckCall

/-! ## Up to the first call beyond the limit -/

/-- The first of the moments with more calls in progress than the limit. -/
def overflow? (limit : Nat) (moments : List Moment) : Option Moment :=
  moments.find? fun moment => limit < moment.machine.callDepth

/-- How an action on the machine ends under the limit, by the first moment with more
calls in progress and the result without a limit.  If there is such a moment, it is a
call, and all is left as it was then, except for what the action restores. -/
inductive EndsUnder (limit : Nat) (machine : Machine)
    (result : EStateM.Result Interrupt Machine α) :
    Option Moment → EStateM.Result Interrupt Machine α → Prop where
  | within : EndsUnder limit machine result none (limitedResult (some limit) result)
  | beyond {attempt callee arguments line} :
      attempt.task = .callValue callee arguments line →
      attempt.machine.heap.arity? callee = some arguments.length →
      attempt.machine.callDepth = limit + 1 →
      EndsUnder limit machine result (some attempt)
        (.error (.runtime ⟨line, .stackOverflow⟩)
          { attempt.machine with
            current := machine.current, callDepth := machine.callDepth, callLimit := some limit })

/-- Under the limit, the action ends at the first moment of its timeline with more calls
in progress. -/
def Limited (limit : Nat) (timeline : Timeline) (action : Eval α) : Prop :=
  ∀ machine : Machine, machine.callLimit = none → machine.callDepth ≤ limit →
    EndsUnder limit machine (action machine)
      (overflow? limit ((timeline machine).flatMap Moment.moments))
      (action (machine.limitedTo (some limit)))

theorem EndsUnder.of_grows {limit : Nat} {machine middle : Machine} (grows : machine.Grows middle)
    {result limitedEnd : EStateM.Result Interrupt Machine α} {overflow : Option Moment}
    (ends : EndsUnder limit middle result overflow limitedEnd) :
    EndsUnder limit machine result overflow limitedEnd := by
  cases ends with
  | within => exact .within
  | beyond isCall takes depth =>
      rw [grows.current, grows.callDepth]
      exact .beyond isCall takes depth

variable {limit fuel : Nat} {timeline : Timeline} {action : Eval α}

theorem IgnoresLimit.limited (ignores : IgnoresLimit action) : Limited limit idle action := by
  intro machine _ _
  rw [ignores]
  exact .within

theorem Limited.bind {next : α → Timeline} {continue_ : α → Eval β}
    (first : Limited limit timeline action) (framed : Framed action)
    (rest : ∀ value, Limited limit (next value) (continue_ value)) :
    Limited limit (fun machine => timeline machine ++ after action next machine)
      (action >>= continue_) := by
  intro machine unlimited fits
  have firstEnds := first machine unlimited fits
  rw [List.flatMap_append, overflow?, List.find?_append, bind_apply, bind_apply]
  generalize action (machine.limitedTo (some limit)) = limitedEnd at firstEnds ⊢
  rw [overflow?] at firstEnds
  generalize List.find? _ ((timeline machine).flatMap Moment.moments) = overflow at firstEnds ⊢
  cases firstEnds with
  | beyond isCall takes depth => exact .beyond isCall takes depth
  | within =>
      cases result : action machine with
      | error cause middle =>
          rw [after_of_error result]
          exact .within
      | ok value middle =>
          have grows := framed.of_ok result
          rw [after_of_ok result]
          apply EndsUnder.of_grows grows
          apply rest value middle
          · rw [grows.callLimit, unlimited]
          · rw [grows.callDepth]
            exact fits

/-- What follows may ignore the limit and start nothing more. -/
theorem Limited.andThen {continue_ : α → Eval β} (first : Limited limit timeline action)
    (framed : Framed action) (rest : ∀ value, IgnoresLimit (continue_ value)) :
    Limited limit timeline (action >>= continue_) := by
  have both := first.bind framed fun value => (rest value).limited
  rw [Stepwise.append_idle] at both
  exact both

theorem Limited.get (starts : Machine → Timeline) {next : Machine → Eval α}
    (same : ∀ machine limit, next (machine.limitedTo limit) = next machine)
    (limited : ∀ machine, Limited limit (starts machine) (next machine)) :
    Limited limit (fun machine => starts machine machine) (get >>= next) := by
  intro machine unlimited fits
  rw [get_bind_apply, get_bind_apply, same]
  exact limited machine machine unlimited fits

theorem Limited.within (limited : Limited limit timeline action) (scope : ScopeRef) :
    Limited limit (fun machine => timeline { machine with current := scope })
      (within scope action) := by
  intro machine unlimited fits
  have ends := limited { machine with current := scope } unlimited fits
  have moved : { machine.limitedTo (some limit) with current := scope } =
    Machine.limitedTo { machine with current := scope } (some limit) := rfl
  simp only [Eval.within, moved]
  generalize action (Machine.limitedTo { machine with current := scope } (some limit)) =
    limitedEnd at ends ⊢
  generalize overflow? limit _ = overflow at ends ⊢
  cases ends with
  | beyond isCall takes depth => exact .beyond isCall takes depth
  | within =>
      cases action { machine with current := scope } with
      | ok value middle => exact .within
      | error cause middle => exact .within

/-- Under a call that is counted there is one call less to go. -/
theorem Limited.counted (limited : Limited limit timeline action) {machine : Machine}
    (unlimited : machine.callLimit = none) (room : machine.callDepth < limit) :
    EndsUnder limit machine (counted action machine)
      (overflow? limit
        ((timeline { machine with callDepth := machine.callDepth + 1 }).flatMap Moment.moments))
      (counted action (machine.limitedTo (some limit))) := by
  have ends := limited { machine with callDepth := machine.callDepth + 1 } unlimited room
  have moved : { machine.limitedTo (some limit) with
      callDepth := (machine.limitedTo (some limit)).callDepth + 1 } =
    Machine.limitedTo { machine with callDepth := machine.callDepth + 1 } (some limit) := rfl
  simp only [Eval.counted, moved]
  generalize action (Machine.limitedTo { machine with callDepth := machine.callDepth + 1 }
    (some limit)) = limitedEnd at ends ⊢
  generalize overflow? limit _ = overflow at ends ⊢
  cases ends with
  | beyond isCall takes depth => exact .beyond isCall takes depth
  | within =>
      cases action { machine with callDepth := machine.callDepth + 1 } with
      | ok value middle => exact .within
      | error cause middle => exact .within

/-- A call within the limit is made; the first one beyond it is where the run stops. -/
theorem Limited.call {callee : Value} {arguments : List Value} {line : Nat}
    (called : Limited limit (start fuel (.callValue callee arguments line))
      (callValue fuel callee arguments line)) :
    Limited limit
      (Timeline.after (checkCall callee line arguments.length) fun _ checked =>
        start fuel (.callValue callee arguments line)
          { checked with callDepth := checked.callDepth + 1 })
      (do
        checkCall callee line arguments.length
        Eval.counted (callValue fuel callee arguments line)) := by
  intro machine unlimited fits
  by_cases takes : machine.heap.arity? callee = some arguments.length
  · have passed : checkCall callee line arguments.length machine = .ok () machine :=
      checkCall_eq_ok_iff.mpr ⟨takes, by rw [unlimited]; rfl, rfl⟩
    have sameArity : (machine.limitedTo (some limit)).heap.arity? callee =
      some arguments.length := takes
    rw [after_of_ok passed, bind_of_ok passed]
    by_cases room : machine.callDepth < limit
    · have passes : checkCall callee line arguments.length (machine.limitedTo (some limit)) =
          .ok () (machine.limitedTo (some limit)) := by
        apply checkCall_eq_ok_iff.mpr
        exact ⟨takes, decide_eq_false (Nat.not_le.mpr room), rfl⟩
      rw [bind_of_ok passes]
      exact called.counted unlimited room
    · have full : machine.callDepth = limit := by omega
      have stops : checkCall callee line arguments.length (machine.limitedTo (some limit)) =
          .error (.runtime ⟨line, .stackOverflow⟩) (machine.limitedTo (some limit)) := by
        rw [checkCall_of_arity sameArity, checkDepth_apply,
          if_pos (by simp [Machine.limitedTo, full])]
      rw [bind_of_error stops]
      have found : overflow? limit ((start fuel (.callValue callee arguments line)
          { machine with callDepth := machine.callDepth + 1 }).flatMap Moment.moments) =
          some ⟨fuel, .callValue callee arguments line,
            { machine with callDepth := machine.callDepth + 1 }⟩ := by
        rw [start, List.flatMap_singleton, Moment.moments_eq, overflow?]
        exact List.find?_cons_of_pos (by simp [full])
      rw [found]
      exact .beyond rfl takes (by rw [full])
  · rcases checkCall_of_ne takes with ⟨fault, fails⟩
    have failed : checkCall callee line arguments.length machine = _ := fails machine.callLimit
    rw [after_of_error failed, bind_of_error failed, bind_of_error (fails _)]
    exact .within

/-- An evaluation that starts within the limit stops where one of its parts does. -/
theorem Limited.of_parts {task : Task} (limited : Limited limit (task.parts fuel) action) :
    Limited limit (start fuel task) action := by
  intro machine unlimited fits
  have ends := limited machine unlimited fits
  have skipped : ¬ limit < machine.callDepth := Nat.not_lt.mpr fits
  rw [start, List.flatMap_singleton, Moment.moments_eq, overflow?,
    List.find?_cons_of_neg (by simpa using skipped)]
  exact ends

end Eval

/-! ## Evaluation -/

/-- A field assignment ignores the limit, but for what it evaluates. -/
theorem limited_set {limit fuel : Nat} {object value : Expr} (name : Name)
    (objectLimited : Limited limit (start fuel (.evaluate object)) (evaluate fuel object))
    (valueLimited : Limited limit (start fuel (.evaluate value)) (evaluate fuel value)) :
    Limited limit (start (fuel + 1) (.evaluate (.set object name value)))
      (evaluate (fuel + 1) (.set object name value)) := by
  have framed := framedAt fuel
  apply Limited.of_parts
  apply objectLimited.bind (framed.evaluate object)
  intro found
  cases found with
  | object ref =>
      apply valueLimited.andThen (framed.evaluate value)
      intro assigned
      exact (ignoresLimit_onHeap _).bind fun _ => ignoresLimit_of_quiet (.pure _)
  | _ => exact (ignoresLimit_of_quiet (.fail _ _)).limited

/-- A print ignores the limit, but for what it evaluates. -/
theorem limited_print {limit fuel : Nat} {value : Expr}
    (limited : Limited limit (start fuel (.evaluate value)) (evaluate fuel value)) :
    Limited limit (start (fuel + 1) (.execute (.print value)))
      (execute (fuel + 1) (.print value)) := by
  apply Limited.of_parts
  apply limited.andThen ((framedAt fuel).evaluate value)
  intro result
  apply IgnoresLimit.get fun _ _ => rfl
  intro machine
  exact (ignoresLimit_writeLine _).bind fun _ => ignoresLimit_of_quiet (.pure _)

/-- Whatever is evaluated, the limit stops it at the first call beyond. -/
theorem stepwise_limited (limit : Nat) : Stepwise (Limited limit) where
  quiet quiet := (ignoresLimit_of_quiet quiet.allow).limited
  flush := ignoresLimit_flush.limited
  bind first framed rest := first.bind framed rest
  get starts _ same limited := Limited.get starts (fun machine limit =>
    same machine limit machine.sink) limited
  within scope limited := limited.within scope
  call called := called.call
  set name objectLimited valueLimited := limited_set name objectLimited valueLimited
  print limited := limited_print limited
  declare evaluated := Limited.of_parts (Stepwise.declared (Limited limit)
    (fun quiet => (ignoresLimit_of_quiet quiet).limited)
    (fun first framed rest => first.bind framed rest) evaluated)
  whole _ _ limited := Limited.of_parts limited

/-- A program runs under the limit as it does without, up to the first call beyond. -/
theorem limited_executeProgram (limit fuel : Nat) (program : List Stmt) :
    Limited limit (start fuel (.executeProgram program)) (executeProgram fuel program) :=
  (stepwise_limited limit).executeProgram fuel program

end Lox
