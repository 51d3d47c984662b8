import Lox.Proofs.Evaluation.CallLimit
import Lox.Proofs.Evaluation.Output

/-!
# Sinks that fill up

A machine whose sink takes everything and one whose sink takes a limited number of bytes
are followed side by side.  As long as everything fits they do the same.  At the first
print whose line does not fit, the machine with the limited sink writes what fits and
stops, whatever calls, loops and blocks the print stands in.
-/

namespace Lox

open Actions Eval Timeline

/-- The machine whose sink takes this many bytes in all. -/
def Machine.withCapacity (machine : Machine) (capacity : Option Nat) : Machine :=
  { machine with sink := { machine.sink with capacity } }

namespace Sink

variable {sink : Sink}

theorem hasRoom_of_unlimited (unlimited : sink.capacity = none) (bytes : ByteArray) :
    sink.hasRoom bytes = true := by
  rw [hasRoom, unlimited]

theorem written_write_of_unlimited (unlimited : sink.capacity = none) (bytes : ByteArray) :
    (sink.write bytes).written = sink.written ++ bytes := by
  rw [write, unlimited]

theorem capacity_write (sink : Sink) (bytes : ByteArray) :
    (sink.write bytes).capacity = sink.capacity := by
  unfold write
  split
  all_goals rfl

theorem extract_all {bytes : ByteArray} {count : Nat} (enough : bytes.size ≤ count) :
    bytes.extract 0 count = bytes := by
  ext1
  rw [ByteArray.data_extract]
  exact Array.extract_eq_self_of_le enough

theorem extract_append_add (written bytes : ByteArray) (count : Nat) :
    (written ++ bytes).extract 0 (written.size + count) = written ++ bytes.extract 0 count := by
  rw [ByteArray.extract_append, extract_all (Nat.le_add_right _ _), Nat.zero_sub,
    Nat.add_sub_cancel_left]

/-- If all bytes fit, a limited sink takes what an unlimited one does. -/
theorem write_of_fits (unlimited : sink.capacity = none) {bytes : ByteArray} {capacity : Nat}
    (fits : sink.written.size + bytes.size ≤ capacity) :
    Sink.write { sink with capacity := some capacity } bytes =
      { sink.write bytes with capacity := some capacity } := by
  have all : bytes.extract 0 (capacity - sink.written.size) = bytes := extract_all (by omega)
  simp only [write, unlimited, all]

end Sink

namespace Eval

variable {α β : Type}

/-! ## Steps that do not look at the capacity -/

/-- The capacity of the sink makes no difference to the action. -/
def IgnoresCapacity (action : Eval α) : Prop :=
  ∀ machine capacity,
    action (Machine.withCapacity machine capacity) =
      mapState (·.withCapacity capacity) (action machine)

theorem ignoresCapacity_of_quiet {action : Eval α} (quiet : Quiet true action) :
    IgnoresCapacity action := by
  intro machine capacity
  change action (machine.refit machine.callLimit { machine.sink with capacity }) = _
  rw [quiet.apply_refit, quiet.refit_self machine]
  cases action machine <;> rfl

theorem IgnoresCapacity.bind {first : Eval α} {next : α → Eval β}
    (firstIgnores : IgnoresCapacity first) (nextIgnores : ∀ value, IgnoresCapacity (next value)) :
    IgnoresCapacity (first >>= next) := by
  intro machine capacity
  rw [bind_apply, bind_apply, firstIgnores]
  cases first machine with
  | ok value middle => exact nextIgnores value middle capacity
  | error cause middle => rfl

/-- Reading the machine ignores the capacity if what follows does. -/
theorem IgnoresCapacity.get {next : Machine → Eval α}
    (same : ∀ machine capacity, next (machine.withCapacity capacity) = next machine)
    (ignores : ∀ machine, IgnoresCapacity (next machine)) : IgnoresCapacity (get >>= next) := by
  intro machine capacity
  rw [get_bind_apply, get_bind_apply, same, ignores]

theorem ignoresCapacity_flush : IgnoresCapacity flush := by
  apply IgnoresCapacity.get fun _ _ => rfl
  intro machine
  split
  · exact ignoresCapacity_of_quiet (.throw _)
  · exact ignoresCapacity_of_quiet (.pure _)

theorem ignoresCapacity_checkDepth (line : Nat) : IgnoresCapacity (checkDepth line) := by
  apply IgnoresCapacity.get fun _ _ => rfl
  intro machine
  split
  · exact ignoresCapacity_of_quiet (.fail _ _)
  · exact ignoresCapacity_of_quiet (.pure _)

theorem ignoresCapacity_checkCall (callee : Value) (line count : Nat) :
    IgnoresCapacity (checkCall callee line count) := by
  apply IgnoresCapacity.get fun _ _ => rfl
  intro machine
  split
  · exact ignoresCapacity_of_quiet (.fail _ _)
  · split
    · apply (ignoresCapacity_of_quiet (.fail _ _)).bind
      intro _
      exact ignoresCapacity_checkDepth line
    · exact ignoresCapacity_checkDepth line

theorem ignoresCapacity_setField (ref : ObjectRef) (name : String) (value : Value) :
    IgnoresCapacity (onHeap fun heap => (heap.setField ref name value, ())) :=
  fun _ _ => rfl

/-! ## Up to the first line that does not fit -/

/-- A print starts at the moment, its operand is evaluated to the value, and the line is
the first that a sink with this capacity cannot take as a whole. -/
structure Overfull (capacity : Nat) (moment : Moment) (value : Value) (middle : Machine) :
    Prop where
  isPrint : ∃ fuel expr, moment.fuel = fuel + 1 ∧ moment.task = .execute (.print expr) ∧
    evaluate fuel expr moment.machine = .ok value middle
  fitted : middle.sink.written.size ≤ capacity
  exceeds : capacity < middle.sink.written.size + (printedLine middle value).size

/-- The machine that stops at a line of which only a part fits.  Everything is left as it
is, except for the scope and the depth of the machine that the action started with. -/
def stoppedAt (capacity : Nat) (machine : Machine) (value : Value) (middle : Machine) : Machine :=
  { middle with
    current := machine.current
    callDepth := machine.callDepth
    sink := (middle.withCapacity (some capacity)).sink.write (printedLine middle value) }

/-- How an action on the machine ends with a limited sink, by the moments that it goes
through and its result with an unlimited one. -/
inductive EndsCapped (capacity : Nat) (machine : Machine) (moments : List Moment)
    (result : EStateM.Result Interrupt Machine α) : EStateM.Result Interrupt Machine α → Prop where
  | fits : (endState result).sink.capacity = none →
      (endState result).sink.written.size ≤ capacity →
      EndsCapped capacity machine moments result (mapState (·.withCapacity (some capacity)) result)
  | full {moment value middle} : moment ∈ moments → Overfull capacity moment value middle →
      (∃ rest, (endState result).sink.written =
        middle.sink.written ++ printedLine middle value ++ rest) →
      EndsCapped capacity machine moments result
        (.error (.output .sinkFull) (stoppedAt capacity machine value middle))

/-- With a limited sink, the action ends at the first line that does not fit. -/
structure Capped (capacity : Nat) (timeline : Timeline) (action : Eval α) : Prop where
  printing : Printing action
  ends : ∀ machine : Machine, machine.sink.capacity = none →
    machine.sink.written.size ≤ capacity →
    EndsCapped capacity machine ((timeline machine).flatMap Moment.moments) (action machine)
      (action (machine.withCapacity (some capacity)))

variable {capacity fuel : Nat} {timeline : Timeline} {action : Eval α}

theorem EndsCapped.of_grows {machine middle : Machine} (grows : machine.Grows middle)
    {moments : List Moment} {result limitedEnd : EStateM.Result Interrupt Machine α}
    (ends : EndsCapped capacity middle moments result limitedEnd) :
    EndsCapped capacity machine moments result limitedEnd := by
  cases ends with
  | fits unlimited fitted => exact .fits unlimited fitted
  | full member overfull written =>
      rw [stoppedAt, grows.current, grows.callDepth]
      exact .full member overfull written

theorem EndsCapped.mono {machine : Machine} {moments more : List Moment}
    {result limitedEnd : EStateM.Result Interrupt Machine α}
    (ends : EndsCapped capacity machine moments result limitedEnd) (within : moments ⊆ more) :
    EndsCapped capacity machine more result limitedEnd := by
  cases ends with
  | fits unlimited fitted => exact .fits unlimited fitted
  | full member overfull written => exact .full (within member) overfull written

/-- What is evaluated afterwards adds to the output. -/
theorem EndsCapped.full_bind {machine : Machine} {moments : List Moment} {moment : Moment}
    {value : Value} {middle : Machine} {continue_ : α → Eval β} (member : moment ∈ moments)
    (overfull : Overfull capacity moment value middle)
    (written : ∃ rest, (endState (action machine)).sink.written =
      middle.sink.written ++ printedLine middle value ++ rest)
    (printing : ∀ result, Printing (continue_ result)) :
    EndsCapped capacity machine moments ((action >>= continue_) machine)
      (.error (.output .sinkFull) (stoppedAt capacity machine value middle)) := by
  apply EndsCapped.full member overfull
  rcases written with ⟨rest, isWritten⟩
  rw [bind_apply]
  cases result : action machine with
  | error cause final =>
      rw [result] at isWritten
      exact ⟨rest, isWritten⟩
  | ok found final =>
      rw [result] at isWritten
      rcases printing found final with ⟨more, isMore⟩
      refine ⟨rest ++ more, ?_⟩
      dsimp only
      rw [isMore, ← ByteArray.append_assoc]
      exact congrArg (· ++ more) isWritten

theorem IgnoresCapacity.capped (ignores : IgnoresCapacity action)
    (still : ∀ machine, (endState (action machine)).sink = machine.sink) :
    Capped capacity idle action := by
  constructor
  · intro machine
    exact Machine.prints_of_sink (still machine)
  · intro machine unlimited fitted
    rw [ignores]
    apply EndsCapped.fits
    · rw [still, unlimited]
    · rw [still]
      exact fitted

theorem capped_of_quiet (quiet : Quiet true action) : Capped capacity idle action := by
  apply (ignoresCapacity_of_quiet quiet).capped
  intro machine
  rw [quiet.refit_self machine]
  cases action machine <;> rfl

theorem Capped.bind {next : α → Timeline} {continue_ : α → Eval β}
    (first : Capped capacity timeline action) (framed : Framed action)
    (rest : ∀ value, Capped capacity (next value) (continue_ value)) :
    Capped capacity (fun machine => timeline machine ++ after action next machine)
      (action >>= continue_) := by
  have printing := fun value => (rest value).printing
  constructor
  · exact Machine.printsSinkOrder.bind first.printing printing
  · intro machine unlimited fitted
    have firstEnds := first.ends machine unlimited fitted
    rw [List.flatMap_append]
    generalize limited : action (machine.withCapacity (some capacity)) = limitedEnd at firstEnds
    cases firstEnds with
    | full member overfull written =>
        rw [bind_of_error limited]
        exact EndsCapped.full_bind (List.mem_append_left _ member) overfull written printing
    | fits unlimitedAfter fittedAfter =>
        cases result : action machine with
        | error cause middle =>
            rw [result] at limited unlimitedAfter fittedAfter
            rw [bind_of_error result, bind_of_error limited]
            exact .fits unlimitedAfter fittedAfter
        | ok value middle =>
            rw [result] at limited unlimitedAfter fittedAfter
            rw [bind_of_ok result, bind_of_ok limited, after_of_ok result]
            have restEnds := (rest value).ends middle unlimitedAfter fittedAfter
            exact (restEnds.of_grows (framed.of_ok result)).mono (List.subset_append_right _ _)

/-- What follows may start nothing more. -/
theorem Capped.andThen {continue_ : α → Eval β} (first : Capped capacity timeline action)
    (framed : Framed action) (rest : ∀ value, Capped capacity idle (continue_ value)) :
    Capped capacity timeline (action >>= continue_) := by
  have both := first.bind framed rest
  rw [Stepwise.append_idle] at both
  exact both

theorem Capped.get (starts : Machine → Timeline) {next : Machine → Eval α}
    (same : ∀ machine capacity, next (machine.withCapacity capacity) = next machine)
    (capped : ∀ machine, Capped capacity (starts machine) (next machine)) :
    Capped capacity (fun machine => starts machine machine) (get >>= next) := by
  constructor
  · exact Machine.printsSinkOrder.bind Machine.printsSinkOrder.get fun machine =>
      (capped machine).printing
  · intro machine unlimited fitted
    rw [get_bind_apply, get_bind_apply, same]
    exact (capped machine).ends machine unlimited fitted

/-- What an action restores when it has ended does not matter for what fits. -/
theorem EndsCapped.restored {machine inner : Machine} {moments : List Moment}
    {result limitedEnd : EStateM.Result Interrupt Machine α} {restore : Machine → Machine}
    (ends : EndsCapped capacity inner moments result limitedEnd)
    (sameSink : ∀ final, (restore final).sink = final.sink)
    (limited : ∀ final, restore (final.withCapacity (some capacity)) =
      (restore final).withCapacity (some capacity))
    (stopped : ∀ value middle, restore (stoppedAt capacity inner value middle) =
      stoppedAt capacity machine value middle) :
    EndsCapped capacity machine moments (mapState restore result)
      (mapState restore limitedEnd) := by
  cases ends with
  | full member overfull written =>
      rw [mapState, stopped]
      apply EndsCapped.full member overfull
      rw [endState_mapState, sameSink]
      exact written
  | fits unlimited fitted =>
      have same : mapState restore (mapState (·.withCapacity (some capacity)) result) =
          mapState (·.withCapacity (some capacity)) (mapState restore result) := by
        cases result with
        | ok value final => exact congrArg (EStateM.Result.ok value) (limited final)
        | error cause final => exact congrArg (EStateM.Result.error cause) (limited final)
      rw [same]
      apply EndsCapped.fits
      · rw [endState_mapState, sameSink, unlimited]
      · rw [endState_mapState, sameSink]
        exact fitted

theorem within_eq (scope : ScopeRef) (action : Eval α) (machine : Machine) :
    within scope action machine =
      mapState (fun final => { final with current := machine.current })
        (action { machine with current := scope }) := by
  simp only [within]
  cases action { machine with current := scope } <;> rfl

theorem counted_eq (action : Eval α) (machine : Machine) :
    counted action machine =
      mapState (fun final => { final with callDepth := final.callDepth - 1 })
        (action { machine with callDepth := machine.callDepth + 1 }) := by
  simp only [counted]
  cases action { machine with callDepth := machine.callDepth + 1 } <;> rfl

theorem Capped.within (capped : Capped capacity timeline action) (scope : ScopeRef) :
    Capped capacity (fun machine => timeline { machine with current := scope })
      (within scope action) := by
  constructor
  · exact Machine.printsSinkOrder.within capped.printing scope
  · intro machine unlimited fitted
    have ends := capped.ends { machine with current := scope } unlimited fitted
    rw [within_eq, within_eq]
    exact ends.restored (fun _ => rfl) (fun _ => rfl) (fun _ _ => rfl)

theorem Capped.counted (capped : Capped capacity timeline action) :
    Capped capacity (fun machine => timeline { machine with callDepth := machine.callDepth + 1 })
      (counted action) := by
  constructor
  · exact Machine.printsSinkOrder.counted capped.printing
  · intro machine unlimited fitted
    have ends := capped.ends { machine with callDepth := machine.callDepth + 1 } unlimited fitted
    rw [counted_eq, counted_eq]
    exact ends.restored (fun _ => rfl) (fun _ => rfl) (fun _ _ => rfl)

/-- A call is checked, whatever the capacity, and then made. -/
theorem Capped.call {callee : Value} {arguments : List Value} {line : Nat}
    (called : Capped capacity (start fuel (.callValue callee arguments line))
      (callValue fuel callee arguments line)) :
    Capped capacity
      (Timeline.after (checkCall callee line arguments.length) fun _ checked =>
        start fuel (.callValue callee arguments line)
          { checked with callDepth := checked.callDepth + 1 })
      (do
        checkCall callee line arguments.length
        Eval.counted (callValue fuel callee arguments line)) := by
  have checked : Capped capacity idle (checkCall callee line arguments.length) := by
    apply (ignoresCapacity_checkCall callee line arguments.length).capped
    intro machine
    rw [checkCall_still]
  exact checked.bind (framed_checkCall _ _ _) fun _ => called.counted

/-- An evaluation stops where one of its parts does. -/
theorem Capped.of_parts {task : Task} (capped : Capped capacity (task.parts fuel) action) :
    Capped capacity (start fuel task) action := by
  constructor
  · exact capped.printing
  · intro machine unlimited fitted
    rw [start, List.flatMap_singleton, Moment.moments_eq]
    exact (capped.ends machine unlimited fitted).mono (List.subset_cons_self _ _)

end Eval

/-! ## Evaluation -/

theorem capped_set {capacity fuel : Nat} {object value : Expr} (name : Name)
    (objectCapped : Capped capacity (start fuel (.evaluate object)) (evaluate fuel object))
    (valueCapped : Capped capacity (start fuel (.evaluate value)) (evaluate fuel value)) :
    Capped capacity (start (fuel + 1) (.evaluate (.set object name value)))
      (evaluate (fuel + 1) (.set object name value)) := by
  have framed := framedAt fuel
  apply Capped.of_parts
  apply objectCapped.bind (framed.evaluate object)
  intro found
  cases found with
  | object ref =>
      apply valueCapped.andThen (framed.evaluate value)
      intro assigned
      apply IgnoresCapacity.capped
      · apply (ignoresCapacity_setField ref name.text assigned).bind
        intro _
        exact ignoresCapacity_of_quiet (.pure _)
      · intro machine
        rfl
  | _ => exact capped_of_quiet (.fail _ _)

/-- A line that fits is written.  The first one that does not is where the run stops. -/
theorem endsCapped_printValue {capacity fuel : Nat} {expr : Expr} {start middle : Machine}
    {value : Value} {moments : List Moment} (unlimited : middle.sink.capacity = none)
    (fitted : middle.sink.written.size ≤ capacity)
    (member : ⟨fuel + 1, .execute (.print expr), start⟩ ∈ moments)
    (evaluated : evaluate fuel expr start = .ok value middle) :
    EndsCapped capacity middle moments (printValue value middle)
      (printValue value (middle.withCapacity (some capacity))) := by
  let line := printedLine middle value
  have written : (middle.sink.write line).written = middle.sink.written ++ line :=
    Sink.written_write_of_unlimited unlimited line
  have sameLine : printedLine (middle.withCapacity (some capacity)) value = line := rfl
  have printed : printValue value middle =
      .ok .normal { middle with sink := middle.sink.write line } := by
    rw [printValue_apply, if_pos (Sink.hasRoom_of_unlimited unlimited _)]
  rw [printed, printValue_apply, sameLine]
  by_cases room : middle.sink.written.size + line.size ≤ capacity
  · have hasRoom : (middle.withCapacity (some capacity)).sink.hasRoom line = true :=
      decide_eq_true room
    have sameSink : (middle.withCapacity (some capacity)).sink.write line =
        { middle.sink.write line with capacity := some capacity } :=
      Sink.write_of_fits unlimited room
    rw [if_pos hasRoom, sameSink]
    apply EndsCapped.fits
    · exact (Sink.capacity_write _ _).trans unlimited
    · change (middle.sink.write line).written.size ≤ capacity
      rw [written, ByteArray.size_append]
      exact room
  · have hasRoom : ¬ (middle.withCapacity (some capacity)).sink.hasRoom line = true := by
      intro hasRoom
      exact room (of_decide_eq_true hasRoom)
    have overfull : Overfull capacity ⟨fuel + 1, .execute (.print expr), start⟩ value middle :=
      ⟨⟨fuel, expr, rfl, rfl, evaluated⟩, fitted, Nat.not_le.mp room⟩
    rw [if_neg hasRoom]
    apply EndsCapped.full member overfull
    refine ⟨.empty, ?_⟩
    rw [ByteArray.append_empty]
    exact written

theorem capped_print {capacity fuel : Nat} {expr : Expr}
    (capped : Capped capacity (start fuel (.evaluate expr)) (evaluate fuel expr)) :
    Capped capacity (start (fuel + 1) (.execute (.print expr)))
      (execute (fuel + 1) (.print expr)) := by
  constructor
  · exact Machine.printsSinkOrder.bind capped.printing Machine.printsSinkOrder.printValue
  · intro machine unlimited fitted
    have ends := capped.ends machine unlimited fitted
    rw [execute_print, start, List.flatMap_singleton, Moment.moments_eq]
    change EndsCapped capacity machine (_ ::
      (start fuel (.evaluate expr) machine).flatMap Moment.moments) _ _
    generalize limited : evaluate fuel expr (machine.withCapacity (some capacity)) = limitedEnd
      at ends
    cases ends with
    | full member overfull written =>
        rw [bind_of_error limited]
        exact .full_bind (List.mem_cons_of_mem _ member) overfull written
          Machine.printsSinkOrder.printValue
    | fits unlimitedAfter fittedAfter =>
        cases result : evaluate fuel expr machine with
        | error cause middle =>
            rw [result] at limited unlimitedAfter fittedAfter
            rw [bind_of_error result, bind_of_error limited]
            exact .fits unlimitedAfter fittedAfter
        | ok value middle =>
            rw [result] at limited unlimitedAfter fittedAfter
            rw [bind_of_ok result, bind_of_ok limited]
            apply EndsCapped.of_grows (((framedAt fuel).evaluate expr).of_ok result)
            exact endsCapped_printValue unlimitedAfter fittedAfter List.mem_cons_self result

/-- With a limited sink, whatever is evaluated stops at the first line that does not fit. -/
theorem stepwise_capped (capacity : Nat) : Stepwise (Capped capacity) where
  quiet quiet := capped_of_quiet quiet.allow
  flush := ignoresCapacity_flush.capped fun machine => congrArg _ (flush_still machine)
  bind first framed rest := first.bind framed rest
  get starts _ same capped := Capped.get starts (fun machine capacity =>
    same machine machine.callLimit { machine.sink with capacity }) capped
  within scope capped := capped.within scope
  call called := called.call
  set name objectCapped valueCapped := capped_set name objectCapped valueCapped
  print capped := capped_print capped
  declare evaluated := Capped.of_parts (Stepwise.declared (Capped capacity) capped_of_quiet
    (fun first framed rest => first.bind framed rest) evaluated)
  whole _ _ capped := Capped.of_parts capped

end Lox
