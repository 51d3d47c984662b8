import Lox.Proofs.Evaluation.Stepwise

/-!
# Output is only added

Only printing touches the sink, and it adds to what is written there.  So whatever is
evaluated, and however it ends, the bytes written before stay in front, and the room of
the sink in all and its failure when it is flushed stay the same.
-/

namespace Lox

open Actions

namespace Machine

/-- The second machine has written what the first one has, and perhaps more. -/
def Prints (machine later : Machine) : Prop :=
  ∃ printed, later.sink.written = machine.sink.written ++ printed

variable {machine later : Machine}

theorem prints_of_sink (same : later.sink = machine.sink) : machine.Prints later := by
  refine ⟨.empty, ?_⟩
  rw [same, ByteArray.append_empty]

theorem printsOrder : StepOrder Prints where
  refl machine := prints_of_sink rfl
  trans := by
    rintro first second third ⟨printed, written⟩ ⟨printed', written'⟩
    refine ⟨printed ++ printed', ?_⟩
    rw [written', written, ByteArray.append_assoc]

end Machine

namespace Eval

/-! ## Printing a value -/

/-- The bytes that are printed for a value. -/
def printedLine (machine : Machine) (value : Value) : ByteArray :=
  (machine.heap.text value ++ "\n").toUTF8

/-- The last step of a print. -/
def printValue (value : Value) : Eval Flow := do
  writeLine ((← get).heap.text value)
  return .normal

theorem printValue_apply (value : Value) (machine : Machine) :
    printValue value machine =
      if machine.sink.hasRoom (printedLine machine value) then
        .ok .normal { machine with sink := machine.sink.write (printedLine machine value) }
      else
        .error (.output .sinkFull)
          { machine with sink := machine.sink.write (printedLine machine value) } := by
  change (writeLine (machine.heap.text value) >>= fun _ => pure Flow.normal) machine = _
  by_cases room : machine.sink.hasRoom (printedLine machine value) = true
  · have written : writeLine (machine.heap.text value) machine =
        .ok () { machine with sink := machine.sink.write (printedLine machine value) } :=
      if_pos room
    rw [bind_of_ok written, if_pos room, pure_apply]
  · have failed : writeLine (machine.heap.text value) machine = .error (.output .sinkFull)
        { machine with sink := machine.sink.write (printedLine machine value) } := if_neg room
    rw [bind_of_error failed, if_neg room]

theorem heap_printValue (value : Value) (machine : Machine) :
    (endState (printValue value machine)).heap = machine.heap := by
  rw [printValue_apply]
  split
  all_goals rfl

theorem flush_still (machine : Machine) : endState (flush machine) = machine := by
  change endState ((if _ then _ else _ : Eval Unit) machine) = machine
  split
  all_goals rfl

end Eval

open Eval

theorem execute_print (fuel : Nat) (value : Expr) :
    execute (fuel + 1) (.print value) = evaluate fuel value >>= printValue :=
  rfl

/-! ## What becomes of the sink -/

/-- An order of machines that looks at the sink only, and in which they may write to it. -/
structure SinkOrder (relation : Machine → Machine → Prop) : Prop where
  order : StepOrder relation
  same : ∀ {machine later : Machine}, later.sink = machine.sink → relation machine later
  write : ∀ (machine : Machine) (bytes : ByteArray),
    relation machine { machine with sink := machine.sink.write bytes }

namespace SinkOrder

variable {relation : Machine → Machine → Prop} {α β : Type}

theorem quiet (sinkOrder : SinkOrder relation) {action : Eval α} (quiet : Quiet true action) :
    Respects relation action := by
  intro machine
  apply sinkOrder.same
  rw [quiet.refit_self machine]
  cases action machine <;> rfl

theorem get (sinkOrder : SinkOrder relation) : Respects relation (get : Eval Machine) :=
  Respects.get sinkOrder.order

theorem bind (sinkOrder : SinkOrder relation) {first : Eval α} {next : α → Eval β}
    (firstRespects : Respects relation first)
    (nextRespects : ∀ value, Respects relation (next value)) :
    Respects relation (first >>= next) :=
  Respects.bind sinkOrder.order firstRespects nextRespects

theorem within (sinkOrder : SinkOrder relation) {action : Eval α}
    (respects : Respects relation action) (scope : ScopeRef) :
    Respects relation (within scope action) := by
  intro machine
  rw [endState_within]
  have entered : relation machine { machine with current := scope } := sinkOrder.same rfl
  have inside := sinkOrder.order.trans entered (respects _)
  exact sinkOrder.order.trans inside (sinkOrder.same rfl)

theorem counted (sinkOrder : SinkOrder relation) {action : Eval α}
    (respects : Respects relation action) : Respects relation (counted action) := by
  intro machine
  rw [endState_counted]
  have entered : relation machine { machine with callDepth := machine.callDepth + 1 } :=
    sinkOrder.same rfl
  have inside := sinkOrder.order.trans entered (respects _)
  exact sinkOrder.order.trans inside (sinkOrder.same rfl)

theorem setField (sinkOrder : SinkOrder relation) (ref : ObjectRef) (name : String)
    (value : Value) : Respects relation (onHeap fun heap => (heap.setField ref name value, ())) :=
  fun _ => sinkOrder.same rfl

theorem printValue (sinkOrder : SinkOrder relation) (value : Value) :
    Respects relation (printValue value) := by
  intro machine
  rw [printValue_apply]
  split
  · exact sinkOrder.write machine _
  · exact sinkOrder.write machine _

theorem flush (sinkOrder : SinkOrder relation) : Respects relation flush :=
  fun machine => sinkOrder.same (congrArg Machine.sink (flush_still machine))

theorem checkCall (sinkOrder : SinkOrder relation) (callee : Value) (line count : Nat) :
    Respects relation (checkCall callee line count) := by
  have depth : Respects relation (checkDepth line) := sinkOrder.bind sinkOrder.get fun _ =>
    Respects.ite (sinkOrder.quiet (.fail _ _)) (sinkOrder.quiet (.pure _))
  apply sinkOrder.bind sinkOrder.get
  intro machine
  split
  · exact sinkOrder.quiet (.fail _ _)
  · apply Respects.ite
    · exact sinkOrder.bind (sinkOrder.quiet (.fail _ _)) fun _ => depth
    · exact depth

theorem set (sinkOrder : SinkOrder relation) {fuel : Nat} {object value : Expr} (name : Name)
    (objectRespects : Respects relation (evaluate fuel object))
    (valueRespects : Respects relation (evaluate fuel value)) :
    Respects relation (evaluate (fuel + 1) (.set object name value)) := by
  apply sinkOrder.bind objectRespects
  intro found
  split
  · apply sinkOrder.bind valueRespects
    intro result
    exact sinkOrder.bind (sinkOrder.setField _ _ _) fun _ => sinkOrder.quiet (.pure _)
  · exact sinkOrder.quiet (.fail _ _)

/-- Whatever is evaluated, the machine moves on in the order. -/
theorem stepwise (sinkOrder : SinkOrder relation) :
    Stepwise fun _ action => Respects relation action where
  quiet quiet := sinkOrder.quiet quiet.allow
  flush := sinkOrder.flush
  bind first _ rest := sinkOrder.bind first rest
  get _ _ _ rest := sinkOrder.bind sinkOrder.get rest
  within scope respects := sinkOrder.within respects scope
  call respects := sinkOrder.bind (sinkOrder.checkCall _ _ _) fun _ => sinkOrder.counted respects
  set name objectRespects valueRespects := sinkOrder.set name objectRespects valueRespects
  print respects := sinkOrder.bind respects sinkOrder.printValue
  declare evaluated := Stepwise.declared (fun _ action => Respects relation action)
    sinkOrder.quiet (fun first _ rest => sinkOrder.bind first rest) evaluated
  whole _ _ respects := respects

end SinkOrder

/-! ## Output -/

theorem Machine.printsSinkOrder : SinkOrder Machine.Prints where
  order := printsOrder
  same := prints_of_sink
  write machine bytes := by
    unfold Sink.write
    split
    · exact ⟨_, rfl⟩
    · exact ⟨_, rfl⟩

/-- However the action ends, output has only been added. -/
abbrev Eval.Printing {α : Type} (action : Eval α) : Prop :=
  Respects Machine.Prints action

/-- A program adds to the output. -/
theorem printing_executeProgram (fuel : Nat) (program : List Stmt) :
    Printing (executeProgram fuel program) :=
  Machine.printsSinkOrder.stepwise.executeProgram fuel program

/-! ## Room and failure -/

/-- The sinks have the same room in all, and fail alike when they are flushed. -/
structure Machine.SameOutlet (machine later : Machine) : Prop where
  capacity : later.sink.capacity = machine.sink.capacity
  flushFails : later.sink.flushFails = machine.sink.flushFails

theorem Machine.sameOutletOrder : SinkOrder Machine.SameOutlet where
  order :=
    { refl := fun _ => ⟨rfl, rfl⟩
      trans := fun first second =>
        ⟨second.capacity.trans first.capacity, second.flushFails.trans first.flushFails⟩ }
  same unchanged := ⟨congrArg Sink.capacity unchanged, congrArg Sink.flushFails unchanged⟩
  write machine bytes := by
    unfold Sink.write
    split
    · exact ⟨rfl, rfl⟩
    · exact ⟨rfl, rfl⟩

end Lox
