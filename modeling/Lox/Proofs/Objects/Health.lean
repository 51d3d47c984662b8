import Lox.Proofs.Objects.Integrity
import Lox.Proofs.Receivers.Occurrences

/-!
# Evaluation keeps heaps intact

Whatever is evaluated, on a machine whose heap is intact, leaves an intact heap behind, and
the values it yields are there.  The same holds of whatever it starts.  No native function
fails, and no initializer is without its object.
-/

namespace Lox

open Actions Eval Timeline

/-! ## Healthy moments -/

/-- The machine is well-formed, and its heap is intact. -/
structure Machine.Healthy (machine : Machine) : Prop where
  formed : machine.Formed
  intact : machine.heap.Intact

/-- The values that the task works on are there. -/
def Task.Supplied (heap : Heap) : Task → Prop
  | .callValue callee arguments _ => heap.Has callee ∧ ∀ argument ∈ arguments, heap.Has argument
  | .callFunction closure arguments _ =>
      heap.Equipped closure ∧ ∀ argument ∈ arguments, heap.Has argument
  | _ => True

/-- The machine is healthy, and the task has well-formed trees and values that are there. -/
structure Moment.Healthy (moment : Moment) : Prop where
  machine : moment.machine.Healthy
  task : moment.task.Formed
  supplied : moment.task.Supplied moment.machine.heap

/-- The fault is one that programs can bring about. -/
def RuntimeFault.isOrdinary : RuntimeFault → Bool
  | .initializerNotBound => false
  | .nativeFailure _ => false
  | _ => true

/-- What the action starts is healthy.  However it ends, the machine is healthy and its heap
has widened.  If it yields a value, the condition holds, and if it fails, then with an
ordinary fault. -/
structure Keeps {α : Type} (timeline : Timeline) (action : Eval α) (machine : Machine)
    (condition : α → Heap → Prop) : Prop where
  starts : ∀ part ∈ timeline machine, part.Healthy
  healthy : (endState (action machine)).Healthy
  widens : machine.heap.Widens (endState (action machine)).heap
  ensures : ∀ {value final}, action machine = .ok value final → condition value final.heap
  ordinary : ∀ {error final}, action machine = .error (.runtime error) final →
    error.fault.isOrdinary = true

namespace Keeps

variable {α β : Type} {machine : Machine} {timeline : Timeline} {action : Eval α}
  {condition : α → Heap → Prop}

theorem pure (healthy : machine.Healthy) {value : α} (holds : condition value machine.heap) :
    Keeps idle (pure value : Eval α) machine condition := by
  constructor
  · intro part member
    cases member
  · exact healthy
  · exact .refl _
  · intro result final succeeded
    cases succeeded
    exact holds
  · intro error final impossible
    cases impossible

/-- An interrupt that is no error of the program, or an ordinary one. -/
theorem throw (healthy : machine.Healthy) {cause : Interrupt}
    (isOrdinary : ∀ error, cause = .runtime error → error.fault.isOrdinary = true) :
    Keeps idle (throw cause : Eval α) machine condition := by
  constructor
  · intro part member
    cases member
  · exact healthy
  · exact .refl _
  · intro value final impossible
    cases impossible
  · intro error final failed
    cases failed
    exact isOrdinary error rfl

theorem fail (healthy : machine.Healthy) (line : Nat) {fault : RuntimeFault}
    (isOrdinary : fault.isOrdinary = true) :
    Keeps idle (fail line fault : Eval α) machine condition := by
  apply throw healthy
  intro error same
  cases same
  exact isOrdinary

theorem outOfFuel (healthy : machine.Healthy) :
    Keeps idle (MonadExcept.throw Interrupt.outOfFuel : Eval α) machine condition := by
  apply throw healthy
  intro error impossible
  cases impossible

theorem weaken {weaker : α → Heap → Prop} (keeps : Keeps timeline action machine condition)
    (weakens : ∀ value final, condition value final → weaker value final) :
    Keeps timeline action machine weaker :=
  { keeps with ensures := fun result => weakens _ _ (keeps.ensures result) }

theorem of_ok {value : α} {final : Machine} (keeps : Keeps timeline action machine condition)
    (succeeded : action machine = .ok value final) :
    final.Healthy ∧ machine.heap.Widens final.heap ∧ condition value final.heap := by
  have healthy := keeps.healthy
  have widens := keeps.widens
  rw [succeeded] at healthy widens
  exact ⟨healthy, widens, keeps.ensures succeeded⟩

/-- Only what the action does on this machine matters. -/
theorem of_eq {other : Eval α} (same : action machine = other machine)
    (keeps : Keeps timeline other machine condition) : Keeps timeline action machine condition := by
  rcases keeps with ⟨starts, healthy, widens, ensures, ordinary⟩
  rw [← same] at healthy widens ensures ordinary
  exact ⟨starts, healthy, widens, ensures, ordinary⟩

theorem bind {next : α → Timeline} {continue_ : α → Eval β} {between : α → Heap → Prop}
    {condition : β → Heap → Prop} (first : Keeps timeline action machine between)
    (rest : ∀ value middle, middle.Healthy → machine.heap.Widens middle.heap →
      between value middle.heap → Keeps (next value) (continue_ value) middle condition) :
    Keeps (fun machine => timeline machine ++ after action next machine) (action >>= continue_)
      machine condition := by
  have healthy := first.healthy
  have widens := first.widens
  cases result : action machine with
  | ok value middle =>
      rw [result] at healthy widens
      have keeps := rest value middle healthy widens (first.ensures result)
      have same : (action >>= continue_) machine = continue_ value middle := bind_of_ok result
      constructor
      · intro part member
        rw [after_of_ok result] at member
        rcases List.mem_append.mp member with earlier | later
        · exact first.starts part earlier
        · exact keeps.starts part later
      · rw [same]
        exact keeps.healthy
      · rw [same]
        exact widens.trans keeps.widens
      · rw [same]
        exact keeps.ensures
      · rw [same]
        exact keeps.ordinary
  | error cause middle =>
      rw [result] at healthy widens
      have same : (action >>= continue_) machine = .error cause middle := bind_of_error result
      constructor
      · intro part member
        rw [after_of_error result, List.append_nil] at member
        exact first.starts part member
      · rw [same]
        exact healthy
      · rw [same]
        exact widens
      · rw [same]
        intro _ _ impossible
        cases impossible
      · rw [same]
        intro error final failed
        cases failed
        exact first.ordinary result

/-- What follows may start nothing more. -/
theorem andThen {continue_ : α → Eval β} {between : α → Heap → Prop}
    {condition : β → Heap → Prop} (first : Keeps timeline action machine between)
    (rest : ∀ value middle, middle.Healthy → machine.heap.Widens middle.heap →
      between value middle.heap → Keeps idle (continue_ value) middle condition) :
    Keeps timeline (action >>= continue_) machine condition := by
  have both := first.bind rest
  rw [Stepwise.append_idle] at both
  exact both

/-- What comes first may start nothing. -/
theorem after {next : α → Timeline} {continue_ : α → Eval β} {between : α → Heap → Prop}
    {condition : β → Heap → Prop} (first : Keeps idle action machine between)
    (rest : ∀ value middle, middle.Healthy → machine.heap.Widens middle.heap →
      between value middle.heap → Keeps (next value) (continue_ value) middle condition) :
    Keeps (Timeline.after action next) (action >>= continue_) machine condition :=
  first.bind rest

theorem startThen {fuel : Nat} {task : Task} {next : α → Timeline} {continue_ : α → Eval β}
    {between : α → Heap → Prop} {condition : β → Heap → Prop}
    (first : Keeps (start fuel task) action machine between)
    (rest : ∀ value middle, middle.Healthy → machine.heap.Widens middle.heap →
      between value middle.heap → Keeps (next value) (continue_ value) middle condition) :
    Keeps (startThen fuel task action next) (action >>= continue_) machine condition :=
  first.bind rest

/-- An action that first looks at the machine. -/
theorem get (starts : Machine → Timeline) {next : Machine → Eval α}
    (keeps : Keeps (starts machine) (next machine) machine condition) :
    Keeps (fun machine => starts machine machine) (get >>= next) machine condition :=
  ⟨keeps.starts, keeps.healthy, keeps.widens, keeps.ensures, keeps.ordinary⟩

/-- An action that first looks at the machine, and starts nothing. -/
theorem look {next : Machine → Eval α} (keeps : Keeps idle (next machine) machine condition) :
    Keeps idle (MonadState.get >>= next) machine condition :=
  ⟨keeps.starts, keeps.healthy, keeps.widens, keeps.ensures, keeps.ordinary⟩

/-- An evaluation that starts at a healthy moment. -/
theorem started {fuel : Nat} {task : Task} (keeps : Keeps timeline action machine condition)
    (healthy : Moment.Healthy ⟨fuel, task, machine⟩) :
    Keeps (start fuel task) action machine condition :=
  { keeps with
    starts := by
      intro part member
      rw [mem_start.mp member]
      exact healthy }

/-- An action on the heap. -/
theorem onHeap {action : Heap → Heap × α} (healthy : machine.Healthy)
    (formed : (action machine.heap).1.Formed) (intact : (action machine.heap).1.Intact)
    (widens : machine.heap.Widens (action machine.heap).1)
    (holds : condition (action machine.heap).2 (action machine.heap).1) :
    Keeps idle (Eval.onHeap action) machine condition := by
  constructor
  · intro part member
    cases member
  · exact ⟨healthy.formed.withHeap formed widens.persists, intact⟩
  · exact widens
  · intro value final succeeded
    cases succeeded
    exact holds
  · intro error final impossible
    cases impossible

theorem within {scope : ScopeRef} (healthy : machine.Healthy)
    (inside : Keeps timeline action { machine with current := scope } condition) :
    Keeps (fun machine => timeline { machine with current := scope }) (within scope action)
      machine condition := by
  have widens := inside.widens
  constructor
  · exact inside.starts
  · rw [endState_within]
    have returned := healthy.formed.withHeap inside.healthy.formed.heap widens.persists
    exact ⟨⟨returned.heap, returned.present, returned.noSuper⟩, inside.healthy.intact⟩
  · rw [endState_within]
    exact widens
  · intro value final succeeded
    unfold Eval.within at succeeded
    split at succeeded
    next result middle ran =>
      cases succeeded
      have holds := inside.ensures ran
      exact holds
    next => cases succeeded
  · intro error final failed
    unfold Eval.within at failed
    split at failed
    next => cases failed
    next cause middle ran =>
      cases failed
      exact inside.ordinary ran

theorem counted (keeps : Keeps timeline action
      { machine with callDepth := machine.callDepth + 1 } condition) :
    Keeps (fun machine => timeline { machine with callDepth := machine.callDepth + 1 })
      (counted action) machine condition := by
  constructor
  · exact keeps.starts
  · rw [endState_counted]
    have ended := keeps.healthy.formed
    exact ⟨⟨ended.heap, ended.present, ended.noSuper⟩, keeps.healthy.intact⟩
  · rw [endState_counted]
    exact keeps.widens
  · intro value final succeeded
    unfold Eval.counted at succeeded
    split at succeeded
    next result middle ran =>
      cases succeeded
      have holds := keeps.ensures ran
      exact holds
    next => cases succeeded
  · intro error final failed
    unfold Eval.counted at failed
    split at failed
    next => cases failed
    next cause middle ran =>
      cases failed
      exact keeps.ordinary ran

end Keeps

/-! ## Single steps -/

section Steps

variable {machine : Machine}

/-- A value that is there. -/
abbrev IsThere (value : Value) (heap : Heap) : Prop :=
  heap.Has value

/-- An action that yields nothing of interest. -/
abbrev Done (_ : Unit) (_ : Heap) : Prop :=
  True

theorem keeps_defineIn (healthy : machine.Healthy) (scope : ScopeRef) {name : Name}
    (plain : name.IsPlain) {value : Value} (has : machine.heap.Has value) :
    Keeps idle (onHeap fun heap => (heap.define scope name.text value, ())) machine Done := by
  have persists := machine.heap.persists_define scope value plain.not_reserved
  apply Keeps.onHeap healthy
  · exact healthy.formed.heap.later persists rfl rfl
  · exact healthy.intact.define scope plain.not_reserved has
  · exact ⟨persists, rfl, Nat.le_refl _⟩
  · trivial

theorem keeps_define (healthy : machine.Healthy) {name : Name} (plain : name.IsPlain)
    {value : Value} (has : machine.heap.Has value) :
    Keeps idle (define name.text value) machine Done := by
  have keeps := keeps_defineIn healthy machine.current plain has
  exact ⟨keeps.starts, keeps.healthy, keeps.widens, keeps.ensures, keeps.ordinary⟩

/-- A new scope whose bindings are there. -/
theorem keeps_openScope (healthy : machine.Healthy) {bindings : Bindings}
    {parent : Option ScopeRef}
    (bound : ∀ {name : String} {value : Value}, bindings[name]? = some value →
      machine.heap.Has value ∧ (name = "this" → ∃ object, value = .object object)) :
    Keeps idle (openScope bindings parent) machine fun scope heap =>
      scope.index < heap.scopes.cells.size ∧
        heap.scopes.own? scope "super" = bindings["super"]? := by
  have persists := machine.heap.persists_push { bindings, parent }
  apply Keeps.onHeap healthy
  · exact healthy.formed.heap.later persists rfl rfl
  · exact healthy.intact.push bound
  · exact ⟨persists, rfl, Nat.le_refl _⟩
  · constructor
    · change machine.heap.scopes.cells.size < (machine.heap.scopes.push _).cells.size
      rw [Scopes.push_size]
      exact Nat.lt_succ_self _
    · change (machine.heap.scopes.push _).own? machine.heap.scopes.nextRef "super" = _
      rw [Scopes.own?, Scopes.bindings_push_nextRef]

/-- A scope that does not bind `super` can be entered. -/
theorem Machine.Healthy.entered (healthy : machine.Healthy) {scope : ScopeRef}
    (present : scope.index < machine.heap.scopes.cells.size)
    (noSuper : machine.heap.scopes.own? scope "super" = none) :
    ({ machine with current := scope } : Machine).Healthy :=
  ⟨⟨healthy.formed.heap, present, noSuper⟩, healthy.intact⟩

theorem keeps_readVariable (healthy : machine.Healthy) (id : UseId) (name : Name) :
    Keeps idle (readVariable id name) machine IsThere := by
  have read : (∃ value, machine.heap.Has value ∧
        readVariable id name machine = (pure value : Eval Value) machine) ∨
      readVariable id name machine =
        (fail name.line (.undefinedVariable name.text) : Eval Value) machine := by
    unfold readVariable
    dsimp only
    split
    next value found =>
      refine .inl ⟨value, ?_, rfl⟩
      split at found
      · rw [Scopes.getAt?] at found
        split at found
        · exact healthy.intact.bindings found
        · cases found
      · exact healthy.intact.bindings found
    next => exact .inr rfl
  rcases read with ⟨value, has, same⟩ | same
  · exact Keeps.of_eq same (.pure healthy has)
  · exact Keeps.of_eq same (.fail healthy _ rfl)

theorem keeps_writeVariable (healthy : machine.Healthy) (id : UseId) {name : Name}
    (plain : name.IsPlain) {value : Value} (has : machine.heap.Has value) :
    Keeps idle (writeVariable id name value) machine Done := by
  apply Keeps.look
  split
  · exact keeps_defineIn healthy _ plain has
  · exact .fail healthy _ rfl

theorem keeps_addObject (healthy : machine.Healthy) {ofClass : ClassRef}
    (has : machine.heap.Has (.classRef ofClass)) :
    Keeps idle (onHeap fun heap => heap.addObject ofClass) machine
      fun ref heap => heap.Has (.object ref) := by
  have widens := machine.heap.widens_addObject ofClass
  apply Keeps.onHeap healthy
  · exact healthy.formed.heap.later widens.persists rfl rfl
  · exact healthy.intact.addObject has
  · exact widens
  · exact machine.heap.has_addObject ofClass

theorem keeps_setField (healthy : machine.Healthy) {ref : ObjectRef}
    (present : machine.heap.Has (.object ref)) (name : String) {value : Value}
    (has : machine.heap.Has value) :
    Keeps idle (onHeap fun heap => (heap.setField ref name value, ())) machine Done := by
  have widens := machine.heap.widens_setField ref name value
  apply Keeps.onHeap healthy
  · exact healthy.formed.heap.later widens.persists rfl rfl
  · exact healthy.intact.setField name present has
  · exact widens
  · trivial

theorem keeps_newFunction (healthy : machine.Healthy) {closure : Closure}
    (formed : Stmt.FunctionWellFormed closure.declaration)
    (equipped : machine.heap.Equipped closure) :
    Keeps idle (newFunction closure) machine IsThere := by
  have added : Keeps idle (onHeap fun heap => heap.addFunction closure) machine
      fun ref heap => heap.Has (.function ref) := by
    apply Keeps.onHeap healthy
    · exact healthy.formed.heap.addFunction formed
    · exact healthy.intact.addFunction equipped
    · exact machine.heap.widens_addFunction closure
    · exact machine.heap.has_addFunction closure
  apply added.andThen
  intro ref middle healthy _ has
  exact .pure healthy has

theorem keeps_bindHeap (healthy : machine.Healthy) (method : Closure) {ref : ObjectRef}
    (has : machine.heap.Has (.object ref)) :
    Keeps idle (onHeap fun heap => heap.bind method (.object ref)) machine fun bound heap =>
      bound.declaration = method.declaration ∧ heap.Equipped bound := by
  have widens := machine.heap.widens_bind method (.object ref)
  apply Keeps.onHeap healthy
  · exact healthy.formed.heap.later widens.persists rfl rfl
  · exact healthy.intact.bind method has
  · exact widens
  · refine ⟨rfl, fun _ => ?_⟩
    rw [Heap.own?_bind]
    rfl

theorem keeps_bindMethod (healthy : machine.Healthy) {method : Closure}
    (formed : Stmt.FunctionWellFormed method.declaration) {ref : ObjectRef}
    (has : machine.heap.Has (.object ref)) :
    Keeps idle (bindMethod method (.object ref)) machine IsThere := by
  apply (keeps_bindHeap healthy method has).andThen
  intro bound middle healthy _ ⟨declared, equipped⟩
  rw [← declared] at formed
  exact keeps_newFunction healthy formed equipped

theorem keeps_getProperty (healthy : machine.Healthy) {ref : ObjectRef}
    (has : machine.heap.Has (.object ref)) (name : Name) :
    Keeps idle (getProperty ref name) machine IsThere := by
  apply Keeps.look
  dsimp only
  split
  next value found => exact .pure healthy (healthy.intact.fields found)
  next =>
    split
    next method found =>
      exact keeps_bindMethod healthy (healthy.formed.heap.findMethod found) has
    next => exact .fail healthy _ rfl

/-- The object that `super` refers to is an object that is there. -/
theorem superTarget?_object (healthy : machine.Healthy) {id : UseId} {superclass : ClassRef}
    {this : Value} (found : superTarget? machine id = some (superclass, this)) :
    ∃ ref, this = .object ref ∧ machine.heap.Has (.object ref) := by
  unfold superTarget? at found
  dsimp only at found
  split at found
  next inner _ =>
    split at found
    next _ _ _ isThis =>
      cases found
      rw [Scopes.getAt?] at isThis
      split at isThis
      · rcases healthy.intact.receivers isThis with ⟨ref, rfl⟩
        exact ⟨ref, rfl, healthy.intact.bindings isThis⟩
      · cases isThis
    next => cases found
  next => cases found

theorem keeps_getSuper (healthy : machine.Healthy) (id : UseId) (line : Nat) (method : Name) :
    Keeps idle (getSuper id line method) machine IsThere := by
  apply Keeps.look
  split
  next superclass this target =>
    rcases superTarget?_object healthy target with ⟨ref, rfl, has⟩
    split
    next found isFound =>
      exact keeps_bindMethod healthy (healthy.formed.heap.findMethod isFound) has
    next => exact .fail healthy _ rfl
  next => exact .fail healthy _ rfl

/-- Every native function reads the clock. -/
theorem Heap.Intact.native {heap : Heap} (intact : heap.Intact) (ref : NativeRef) :
    (heap.native ref).action = .readClock := by
  rw [Heap.native, intact.natives, Array.getD_eq_getD_getElem?]
  rcases ref with ⟨index⟩
  cases index with
  | zero => rfl
  | succ index => rfl

theorem keeps_callNative (healthy : machine.Healthy) {native : Native}
    (readsClock : native.action = .readClock) (arguments : List Value) (line : Nat) :
    Keeps idle (callNative native arguments line) machine IsThere := by
  unfold callNative
  rw [readsClock]
  have formed := healthy.formed
  constructor
  · intro part member
    cases member
  · exact ⟨⟨formed.heap, formed.present, formed.noSuper⟩, healthy.intact⟩
  · exact .refl _
  · intro value final succeeded
    cases succeeded
    trivial
  · intro error final impossible
    cases impossible

/-- The value of a result is there, and its fault is ordinary. -/
def Heap.HasResult (heap : Heap) : Except RuntimeFault Value → Prop
  | .ok value => heap.Has value
  | .error fault => fault.isOrdinary = true

theorem hasResult_unary (heap : Heap) (operator : Token) (operand : Value) :
    heap.HasResult (unaryResult operator operand) := by
  unfold unaryResult
  split
  · trivial
  · rfl
  · trivial

theorem hasResult_binary (heap : Heap) (operator : Token) (left right : Value) :
    heap.HasResult (binaryResult operator left right) := by
  unfold binaryResult
  split
  · trivial
  · trivial
  · unfold sumResult
    split
    · trivial
    · trivial
    · rfl
  · split
    · unfold arithmeticResult
      split
      all_goals trivial
    · rfl

theorem keeps_ofResult (healthy : machine.Healthy) (line : Nat)
    {result : Except RuntimeFault Value} (has : machine.heap.HasResult result) :
    Keeps idle (ofResult line result) machine IsThere := by
  cases result with
  | ok value => exact .pure healthy has
  | error fault => exact .fail healthy line has

theorem Literal.has_toValue (heap : Heap) (literal : Literal) : heap.Has literal.toValue := by
  cases literal <;> trivial

/-! ## Declarations and calls -/

theorem keeps_declareFunction (healthy : machine.Healthy) {declaration : FunctionDecl}
    (formed : Stmt.FunctionWellFormed declaration) :
    Keeps idle (declareFunction declaration) machine Done := by
  have plain : declaration.name.IsPlain := by
    cases declaration
    exact formed.1
  apply Keeps.look
  apply (keeps_newFunction healthy formed (fun impossible => by cases impossible)).andThen
  intro value middle healthy _ has
  exact keeps_define healthy plain has

/-- The scope that methods close over binds `super` to the superclass, if there is one. -/
theorem keeps_methodScope (healthy : machine.Healthy) {superclass : Option ClassRef}
    (has : ∀ ref ∈ superclass, machine.heap.Has (.classRef ref)) :
    Keeps idle (methodScope superclass) machine fun scope heap =>
      scope.index < heap.scopes.cells.size ∧
        heap.scopes.own? scope "super" = superclass.map .classRef := by
  apply Keeps.look
  cases superclass with
  | none => exact .pure healthy ⟨healthy.formed.present, healthy.formed.noSuper⟩
  | some ref =>
      have bound : ∀ {name : String} {value : Value},
          ((∅ : Bindings).insert "super" (.classRef ref))[name]? = some value →
          machine.heap.Has value ∧ (name = "this" → ∃ object, value = .object object) := by
        intro name value found
        rw [Table.getElem?_insert] at found
        split at found
        next isSuper =>
          cases found
          refine ⟨has ref rfl, fun isThis => ?_⟩
          rw [isThis] at isSuper
          exact absurd isSuper (by decide)
        next => simp at found
      apply (keeps_openScope healthy bound).weaken
      intro scope heap opened
      rw [Table.getElem?_insert, if_pos rfl] at opened
      exact opened

theorem keeps_declareClass (healthy : machine.Healthy) {name : Name} (plain : name.IsPlain)
    {superclass : Option ClassRef} (has : ∀ ref ∈ superclass, machine.heap.Has (.classRef ref))
    {declarations : List FunctionDecl} (formed : Stmt.MethodsWellFormed declarations) :
    Keeps idle (declareClass name superclass declarations) machine Done := by
  have hasNil : machine.heap.Has .nil := trivial
  apply (keeps_define healthy plain hasNil).andThen
  intro _ defined healthy widens _
  apply (keeps_methodScope healthy fun ref isSuperclass =>
    (has ref isSuperclass).mono widens).andThen
  intro scope opened healthy widens' ⟨present, super⟩
  let info : ClassInfo :=
    { name := name.text, superclass, methods := methodTable declarations scope }
  have added : Keeps idle (onHeap fun heap => heap.addClass info) opened
      fun ref heap => heap.Has (.classRef ref) := by
    apply Keeps.onHeap healthy
    · exact healthy.formed.heap.addClass fun found => methodTable_formed formed present super found
    · apply healthy.intact.addClass
      · intro parent isSuperclass
        exact (has parent isSuperclass).mono (widens.trans widens')
      · exact ⟨declarations, scope, rfl⟩
    · exact opened.heap.widens_addClass info
    · exact opened.heap.has_addClass info
  apply added.andThen
  intro ref middle healthy _ has
  exact keeps_define healthy plain has

theorem keeps_expectClass (healthy : machine.Healthy) (line : Nat) {value : Value}
    (has : machine.heap.Has value) :
    Keeps idle (expectClass line value) machine fun ref heap => heap.Has (.classRef ref) := by
  unfold expectClass
  split
  · exact .pure healthy has
  · exact .fail healthy _ rfl

/-- The value that a statement returns, if it does, is there. -/
def Heap.HasFlow (heap : Heap) : Flow → Prop
  | .normal => True
  | .returned value => heap.Has value

theorem keeps_callResult (healthy : machine.Healthy) {closure : Closure}
    (equipped : machine.heap.Equipped closure) (line : Nat) {flow : Flow}
    (has : machine.heap.HasFlow flow) :
    Keeps idle (callResult closure line flow) machine IsThere := by
  unfold callResult
  split
  next isInitializer =>
    apply Keeps.look
    split
    next this found => exact .pure healthy (healthy.intact.bindings found)
    next absent =>
      have bound := equipped isInitializer
      rw [absent] at bound
      cases bound
  next =>
    cases flow with
    | normal => exact .pure healthy trivial
    | returned value => exact .pure healthy has

theorem keeps_checkCall (healthy : machine.Healthy) (callee : Value) (line count : Nat) :
    Keeps idle (checkCall callee line count) machine fun _ _ => True := by
  have depth : Keeps idle (checkDepth line) machine fun _ _ => True := by
    apply Keeps.look
    split
    · exact .fail healthy _ rfl
    · exact .pure healthy trivial
  apply Keeps.look
  split
  · exact .fail healthy _ rfl
  next arity _ =>
    split
    · have stopped : Keeps idle (fail line (.wrongArgumentCount arity count) : Eval PUnit) machine
        fun _ _ => False := .fail healthy line rfl
      exact stopped.andThen fun _ _ _ _ impossible => impossible.elim
    · exact depth

theorem keeps_printValue (healthy : machine.Healthy) (value : Value) :
    Keeps idle (printValue value) machine fun flow heap => heap.HasFlow flow := by
  have formed := healthy.formed
  constructor
  · intro part member
    cases member
  · rw [printValue_apply]
    split
    all_goals exact ⟨⟨formed.heap, formed.present, formed.noSuper⟩, healthy.intact⟩
  · rw [heap_printValue]
    exact .refl _
  · intro flow final succeeded
    rw [printValue_apply] at succeeded
    split at succeeded
    · cases succeeded
      trivial
    · cases succeeded
  · intro error final failed
    rw [printValue_apply] at failed
    split at failed
    all_goals cases failed

theorem keeps_flush (healthy : machine.Healthy) : Keeps idle flush machine Done := by
  apply Keeps.look
  split
  · apply Keeps.throw healthy
    intro error impossible
    cases impossible
  · exact .pure healthy trivial

/-- The arguments of a call are bound to its parameters. -/
theorem parameterBindings_from {params : List Name} {arguments : List Value} {name : String}
    {value : Value} (found : (parameterBindings params arguments)[name]? = some value) :
    value ∈ arguments ∧ ∃ param ∈ params, param.text = name := by
  -- An entry of the table that the fold ends with comes from the table it starts with, or
  -- from one of the pairs.
  have general : ∀ (pairs : List (Name × Value)) (bindings : Bindings),
      (pairs.foldl (fun bindings pair => bindings.insert pair.1.text pair.2) bindings)[name]? =
        some value →
      bindings[name]? = some value ∨ ∃ pair ∈ pairs, pair.1.text = name ∧ pair.2 = value := by
    intro pairs
    induction pairs with
    | nil => exact fun bindings found => .inl found
    | cons first rest inductionHypothesis =>
        intro bindings found
        rcases inductionHypothesis _ found with earlier | ⟨pair, member, named⟩
        · rw [Table.getElem?_insert] at earlier
          split at earlier
          next isName =>
            cases earlier
            exact .inr ⟨first, List.mem_cons_self, isName, rfl⟩
          next => exact .inl earlier
        · exact .inr ⟨pair, List.mem_cons_of_mem _ member, named⟩
  rcases general _ _ found with impossible | ⟨pair, member, isName, isValue⟩
  · simp at impossible
  · have both := List.of_mem_zip member
    rw [isValue] at both
    exact ⟨both.2, pair.1, both.1, isName⟩

end Steps

end Lox
