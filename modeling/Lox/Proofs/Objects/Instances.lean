import Lox.Proofs.Objects.Chronicle
import Lox.Proofs.Receivers.Methods
import Lox.Proofs.Session.Rejection

/-!
# Calls of classes and of initializers

A call of a class that succeeds yields a new object of that class, whatever its initializer
does.  A call of an initializer that was obtained from an object, or through `super`, yields
the object it is bound to.  No initializer is ever without its object.
-/

namespace Lox

open Actions Eval Timeline

/-! ## Objects keep their class -/

namespace Machine

/-- Objects were added, and those that were there are of the same class. -/
structure KeepsObjects (machine later : Machine) : Prop where
  size : machine.heap.objects.size ≤ later.heap.objects.size
  ofClass : ∀ ref : ObjectRef, ref.index < machine.heap.objects.size →
    (later.heap.object ref).ofClass = (machine.heap.object ref).ofClass

variable {machine later : Machine}

theorem Assigned.keepsObjects {log : List Assignment} (assigned : machine.Assigned log later) :
    machine.KeepsObjects later :=
  ⟨assigned.size, fun _ => assigned.ofClass⟩

theorem keepsObjectsOrder : StepOrder KeepsObjects where
  refl machine := (Assigned.refl machine).keepsObjects
  trans first second := by
    refine ⟨Nat.le_trans first.size second.size, fun ref present => ?_⟩
    rw [second.ofClass ref (Nat.lt_of_lt_of_le present first.size), first.ofClass ref present]

theorem keepsObjects_setField (machine : Machine) (ref : ObjectRef) (name : String)
    (value : Value) :
    machine.KeepsObjects { machine with heap := machine.heap.setField ref name value } := by
  by_cases present : ref.index < machine.heap.objects.size
  · exact (machine.assigned_setField name value present).keepsObjects
  · have same : machine.heap.objects.modify ref.index (fun object =>
        { object with fields := object.fields.insert name value }) = machine.heap.objects := by
      apply Array.ext_getElem?
      intro index
      rw [Array.getElem?_modify]
      split
      next isIndex =>
        rw [← isIndex, Array.getElem?_eq_none (Nat.not_lt.mp present)]
        rfl
      next => rfl
    exact (Assigned.of_objects same).keepsObjects

end Machine

/-- Whatever is evaluated, objects keep their class. -/
theorem stepwise_keepsObjects :
    Stepwise fun _ action => Respects Machine.KeepsObjects action where
  quiet quiet machine := (quiet.allow.assigned machine).keepsObjects
  flush machine := by
    rw [flush_still]
    exact Machine.keepsObjectsOrder.refl machine
  bind first _ rest := first.bind Machine.keepsObjectsOrder rest
  get _ _ _ rest machine := rest machine machine
  within scope respects machine := by
    rw [endState_within]
    have inside := respects { machine with current := scope }
    exact ⟨inside.size, inside.ofClass⟩
  call called := by
    apply Respects.bind Machine.keepsObjectsOrder
    · intro machine
      rw [checkCall_still]
      exact Machine.keepsObjectsOrder.refl machine
    · intro _ machine
      rw [endState_counted]
      have inside := called { machine with callDepth := machine.callDepth + 1 }
      exact ⟨inside.size, inside.ofClass⟩
  set name objectKeeps valueKeeps := by
    apply objectKeeps.bind Machine.keepsObjectsOrder
    intro found
    cases found with
    | object ref =>
        apply valueKeeps.bind Machine.keepsObjectsOrder
        intro assigned machine
        exact machine.keepsObjects_setField ref name.text assigned
    | _ => exact fun machine => Machine.keepsObjectsOrder.refl machine
  print keeps := by
    apply keeps.bind Machine.keepsObjectsOrder
    intro value machine
    have same := congrArg Heap.objects (heap_printValue value machine)
    exact (Machine.Assigned.of_objects same).keepsObjects
  declare evaluated := Stepwise.declared (fun _ action => Respects Machine.KeepsObjects action)
    (fun quiet machine => (quiet.assigned machine).keepsObjects)
    (fun first _ rest => first.bind Machine.keepsObjectsOrder rest) evaluated
  whole _ _ respects := respects

/-! ## Calls of classes -/

/-- The rest of a call of a class, once the object has been added. -/
def initializeWith (fuel : Nat) (arguments : List Value) (line : Nat) (object : ObjectRef) :
    Option Closure → Eval Value
  | some initializer => do
      let bound ← onHeap fun heap => heap.bind initializer (.object object)
      let _ ← callFunction fuel bound arguments line
      return .object object
  | none => return .object object

theorem callValue_classRef_apply (fuel : Nat) (ref : ClassRef) (arguments : List Value)
    (line : Nat) (machine : Machine) :
    callValue (fuel + 1) (.classRef ref) arguments line machine =
      initializeWith fuel arguments line ⟨machine.heap.objects.size⟩
        ((machine.heap.addObject ref).1.findMethod? ref "init")
        { machine with heap := (machine.heap.addObject ref).1 } := by
  rw [callValue]
  change (match (machine.heap.addObject ref).1.findMethod? ref "init" with
    | some initializer => (do
        let bound ← onHeap fun heap => heap.bind initializer (.object ⟨machine.heap.objects.size⟩)
        let _ ← callFunction fuel bound arguments line
        return .object ⟨machine.heap.objects.size⟩ : Eval Value)
    | none => return .object ⟨machine.heap.objects.size⟩) _ = _
  cases (machine.heap.addObject ref).1.findMethod? ref "init" <;> rfl

theorem initializeWith_ok {fuel : Nat} {arguments : List Value} {line : Nat} {object : ObjectRef}
    {initializer : Option Closure} {machine final : Machine} {value : Value}
    (succeeded : initializeWith fuel arguments line object initializer machine =
      .ok value final) : value = .object object ∧ machine.KeepsObjects final := by
  cases initializer with
  | none =>
      cases succeeded
      exact ⟨rfl, Machine.keepsObjectsOrder.refl _⟩
  | some initializer =>
      rcases bind_eq_ok_iff.mp succeeded with ⟨bound, opened, bindResult, called⟩
      rcases bind_eq_ok_iff.mp called with ⟨result, last, callResult, yielded⟩
      have binds : Quiet true (onHeap fun heap => heap.bind initializer (.object object)) :=
        .bindScope initializer (.object object)
      have bindKeeps := (binds.assigned machine).keepsObjects
      have callKeeps := (stepwise_keepsObjects.atFuel fuel).callFunction bound arguments line opened
      rw [bindResult] at bindKeeps
      rw [callResult] at callKeeps
      cases yielded
      exact ⟨rfl, Machine.keepsObjectsOrder.trans bindKeeps callKeeps⟩

/-- A call of a class yields the object that it adds. -/
theorem callValue_classRef {fuel : Nat} {ref : ClassRef} {arguments : List Value} {line : Nat}
    {machine final : Machine} {value : Value}
    (succeeded : callValue fuel (.classRef ref) arguments line machine = .ok value final) :
    value = .object ⟨machine.heap.objects.size⟩ ∧
      machine.heap.objects.size < final.heap.objects.size ∧
      (final.heap.object ⟨machine.heap.objects.size⟩).ofClass = ref := by
  cases fuel with
  | zero => cases succeeded
  | succ fuel =>
      rw [callValue_classRef_apply] at succeeded
      rcases initializeWith_ok succeeded with ⟨isObject, keeps⟩
      have isThere : machine.heap.objects.size < (machine.heap.addObject ref).1.objects.size :=
        machine.heap.has_addObject ref
      refine ⟨isObject, Nat.lt_of_lt_of_le isThere keeps.size, ?_⟩
      rw [keeps.ofClass ⟨machine.heap.objects.size⟩ isThere, Heap.object_addObject, if_pos rfl]

/-! ## Values in reach -/

/-- The value was yielded before the second moment, which is reached from the first one, by
a part of an evaluation that is in progress. -/
inductive Holds (start : Moment) : Moment → Value → Prop where
  | yielded {moment part next before after value} : Reaches start moment →
      moment.parts = before ++ next :: after → part ∈ before → part.Yields value →
      Holds start next value
  | passed {moment next value} : Holds start moment value → Calls moment next →
      Holds start next value

theorem Holds.reaches {start moment : Moment} {value : Value}
    (holds : Holds start moment value) : Reaches start moment := by
  induction holds with
  | yielded reaches split _ _ =>
      apply reaches.tail
      apply Moment.calls_of_mem_parts
      rw [split]
      exact List.mem_append_right _ List.mem_cons_self
  | passed _ calls inductionHypothesis => exact inductionHypothesis.tail calls

/-- An object that is held is there. -/
theorem Holds.object_lt {start moment : Moment} {value : Value} (holds : Holds start moment value)
    (healthy : ∀ other, Reaches start other → other.Healthy)
    (chronicled : ∀ other, Reaches start other → other.Chronicled) {ref : ObjectRef}
    (isObject : value = .object ref) : ref.index < moment.machine.heap.objects.size := by
  induction holds with
  | @yielded moment part next before after _ reaches split isEarlier yields =>
      have isPart : part ∈ moment.parts := by
        rw [split]
        exact List.mem_append_left _ isEarlier
      rw [isObject] at yields
      have has := ((healthy moment reaches).sound.parts part isPart).sound.yields yields
      rcases chronicled moment reaches with ⟨last, follows, -⟩
      rw [split] at follows
      exact Nat.lt_of_lt_of_le has (follows.size_le isEarlier)
  | @passed moment next _ outer calls inductionHypothesis =>
      rcases chronicled moment outer.reaches with ⟨last, follows, -⟩
      rcases List.append_of_mem calls.mem_parts with ⟨before, after, split⟩
      rw [split] at follows
      exact Nat.lt_of_lt_of_le (inductionHypothesis isObject) follows.assigned_before.size

namespace Session

variable {sink : Sink} {clock : Clock} {units : List (Nat × String)} {moment : Moment}

/-- The program can get hold of the value at the moment: a variable or a field has it, or
an evaluation in progress holds it. -/
inductive InReach (sink : Sink) (clock : Clock) (units : List (Nat × String)) (moment : Moment) :
    Value → Prop where
  | bound {ref name value} : moment.machine.heap.scopes.own? ref name = some value →
      InReach sink clock units moment value
  | field {ref : ObjectRef} {name : String} {value} :
      (moment.machine.heap.object ref).fields[name]? = some value →
      InReach sink clock units moment value
  | held {before fuel source program value} : before ++ [(fuel, source)] <+: units →
      ((initial sink clock).runAll before).Accepts source program →
      Holds ⟨fuel, .executeProgram program, ((initial sink clock).runAll before).resolved program⟩
        moment value →
      InReach sink clock units moment value

/-- An object in reach is there. -/
theorem Occurs.object_lt (occurs : Occurs sink clock units moment) {ref : ObjectRef}
    (inReach : InReach sink clock units moment (.object ref)) :
    ref.index < moment.machine.heap.objects.size := by
  have intact := occurs.healthy.machine.intact
  cases inReach with
  | bound found => exact intact.bindings found
  | field found => exact intact.fields found
  | @held before fuel source program _ isPrefix accepted holds =>
      have occursThen : ∀ other, Reaches ⟨fuel, .executeProgram program,
          ((initial sink clock).runAll before).resolved program⟩ other →
          Occurs sink clock units other :=
        fun other reaches => ⟨before, fuel, source, program, isPrefix, accepted, reaches⟩
      exact holds.object_lt (fun other reaches => (occursThen other reaches).healthy)
        (fun other reaches => (occursThen other reaches).chronicled) rfl

/-- An object that is not there yet equals nothing in reach. -/
theorem Occurs.not_equals (occurs : Occurs sink clock units moment) {value : Value}
    (inReach : InReach sink clock units moment value) :
    Value.equals (.object ⟨moment.machine.heap.objects.size⟩) value = false ∧
      value.equals (.object ⟨moment.machine.heap.objects.size⟩) = false := by
  cases value with
  | object ref =>
      have isThere := occurs.object_lt inReach
      have different : ref ≠ ⟨moment.machine.heap.objects.size⟩ := by
        intro same
        rw [same] at isThere
        exact Nat.lt_irrefl _ isThere
      exact ⟨decide_eq_false different.symm, decide_eq_false different⟩
  | _ => exact ⟨rfl, rfl⟩

end Session

/-! ## Calls of initializers -/

/-- However its body ends, an initializer yields what `this` is bound to around it. -/
theorem callResult_initializer {closure : Closure} {line : Nat} {flow : Flow} {machine : Machine}
    {this : Value} (isInitializer : closure.isInitializer = true)
    (isThis : machine.heap.scopes.own? closure.scope "this" = some this) :
    callResult closure line flow machine = .ok this machine := by
  have started : (get : Eval Machine) machine = .ok machine machine := rfl
  simp only [callResult, if_pos isInitializer, bind_of_ok started, isThis]
  rfl

/-- A call of a function that initializes an object yields the object, whatever its body
does. -/
theorem callFunction_initializer {fuel : Nat} {closure : Closure} {arguments : List Value}
    {line : Nat} {machine final : Machine} {value this : Value} (formed : machine.Formed)
    (declared : Stmt.FunctionWellFormed closure.declaration)
    (isInitializer : closure.isInitializer = true)
    (isThis : machine.heap.scopes.own? closure.scope "this" = some this)
    (succeeded : callFunction fuel closure arguments line machine = .ok value final) :
    value = this := by
  rcases closure with ⟨⟨name, params, body⟩, scope, flag⟩
  cases fuel with
  | zero => cases succeeded
  | succ fuel =>
      rcases bind_eq_ok_iff.mp succeeded with ⟨inner, opened, openResult, rest⟩
      rcases bind_eq_ok_iff.mp rest with ⟨flow, ended, bodyResult, yielded⟩
      have ran : Kept (openScope (parameterBindings params arguments) (some scope) >>= fun inner =>
          within inner (executeEach fuel body)) :=
        ((keptAt fuel).executeEach declared.2.2).inside
          (parameterBindings_super arguments declared.2.1)
      have persists := (ran machine formed).2
      rw [bind_of_ok openResult, bodyResult, endState_ok] at persists
      -- The scope that the function closes over is outside its body, where `this` cannot be
      -- bound anew.
      have isThere := Scopes.lt_of_own (Option.isSome_of_eq_some isThis)
      have still := persists.reserved (.inl rfl) isThere
      rw [callResult_initializer isInitializer (still.trans isThis)] at yielded
      cases yielded
      rfl

/-- A method named `init` is marked as an initializer. -/
theorem Heap.Intact.isInitializer {heap : Heap} (intact : heap.Intact) {ref : ClassRef}
    {method : Closure} (found : heap.findMethod? ref "init" = some method) :
    method.isInitializer = true := by
  rw [Heap.findMethod?_eq, Option.bind_eq_some_iff] at found
  rcases found with ⟨declarer, -, isMethod⟩
  rcases intact.methods declarer with ⟨declarations, scope, isTable⟩
  rw [isTable, getElem?_methodTable, Option.map_eq_some_iff] at isMethod
  rcases isMethod with ⟨declaration, -, rfl⟩
  rfl

namespace Session

/-- The value is an initializer that was bound to the object: it was read as a property of
the object, or through `super` in a method of the object. -/
inductive BindsInitializer (sink : Sink) (clock : Clock) (units : List (Nat × String)) :
    Value → ObjectRef → Prop where
  | property {fuel object name machine ref middle value final} :
      Occurs sink clock units ⟨fuel + 1, .evaluate (.get object name), machine⟩ →
      name.text = "init" → Lox.evaluate fuel object machine = .ok (.object ref) middle →
      (middle.heap.object ref).fields["init"]? = none →
      Lox.evaluate (fuel + 1) (.get object name) machine = .ok value final →
      BindsInitializer sink clock units value ref
  | super {fuel id line name machine superclass ref value final} :
      Occurs sink clock units ⟨fuel + 1, .evaluate (.super id line name), machine⟩ →
      name.text = "init" → superTarget? machine id = some (superclass, .object ref) →
      Lox.evaluate (fuel + 1) (.super id line name) machine = .ok value final →
      BindsInitializer sink clock units value ref

end Session

/-- The value is an initializer with its object. -/
def Heap.IsInitializerOf (heap : Heap) (ref : ObjectRef) (value : Value) : Prop :=
  ∃ function closure, value = .function function ∧
    heap.functions[function.index]? = some closure ∧ closure.isInitializer = true ∧
    heap.scopes.own? closure.scope "this" = some (.object ref)

/-- A method named `init` is an initializer once it is bound. -/
theorem isInitializerOf_bind {method : Closure} {superclass : ClassRef} {ref : ObjectRef}
    {value : Value} {machine final : Machine} {later : Heap} (intact : machine.heap.Intact)
    (found : machine.heap.findMethod? superclass "init" = some method)
    (bound : bindMethod method (.object ref) machine = .ok value final)
    (persists : final.heap.Persists later) : later.IsInitializerOf ref value := by
  have isThis := machine.heap.own?_bind method (.object ref)
  have isThere := Scopes.lt_of_own (Option.isSome_of_eq_some isThis)
  have isInitializer := intact.isInitializer found
  cases bound
  refine ⟨_, (machine.heap.bind method (.object ref)).2, rfl, ?_, isInitializer, ?_⟩
  · exact persists.functions Array.getElem?_push_size
  · exact (persists.reserved (.inl rfl) isThere).trans isThis

namespace Session

theorem getProperty_undefined {machine : Machine} {ref : ObjectRef} {name : Name}
    (noField : (machine.heap.object ref).fields[name.text]? = none)
    (notFound : machine.heap.findMethod? (machine.heap.object ref).ofClass name.text = none) :
    getProperty ref name machine = fail name.line (.undefinedProperty name.text) machine := by
  have started : (get : Eval Machine) machine = .ok machine machine := rfl
  rw [getProperty, bind_of_ok started]
  simp only [noField, notFound]

/-- An initializer that was bound is one at the end of the session, with its object. -/
theorem BindsInitializer.persists {value : Value} {ref : ObjectRef}
    (binds : BindsInitializer sink clock units value ref) :
    (finalHeap sink clock units).IsInitializerOf ref value := by
  cases binds with
  | @property fuel object name machine _ middle _ final occurs isInit objectResult noField result =>
      have healthy := occurs.healthy
      have between := (((keepsAt fuel).evaluate object healthy.machine healthy.task).of_ok
        objectResult).1
      have read : getProperty ref name middle = .ok value final := by
        rw [← result, Lox.evaluate, bind_of_ok objectResult]
      rw [← isInit] at noField
      cases found : middle.heap.findMethod? (middle.heap.object ref).ofClass name.text with
      | none =>
          rw [getProperty_undefined noField found] at read
          cases read
      | some method =>
          rw [getProperty_method noField found] at read
          rw [isInit] at found
          exact isInitializerOf_bind between.intact found read (occurs.persists_evaluated result)
  | @super fuel id line name machine superclass _ _ final occurs isInit target result =>
      have ends := occurs.persists_evaluated result
      rw [evaluate_super target] at result
      cases found : machine.heap.findMethod? superclass name.text with
      | none =>
          rw [found] at result
          cases result
      | some method =>
          rw [found] at result
          rw [isInit] at found
          exact isInitializerOf_bind occurs.healthy.machine.intact found result ends

/-- A call of an initializer that was bound yields its object, wherever the session makes
it. -/
theorem BindsInitializer.callValue {value result : Value} {ref : ObjectRef} {fuel line : Nat}
    {arguments : List Value} {final : Machine}
    (binds : BindsInitializer sink clock units value ref) (occurs : Occurs sink clock units moment)
    (has : moment.machine.heap.Has value)
    (succeeded : callValue fuel value arguments line moment.machine = .ok result final) :
    result = .object ref := by
  have healthy := occurs.healthy.machine
  have persists := occurs.persists
  rcases binds.persists with ⟨function, closure, rfl, isClosure, isInitializer, isThis⟩
  cases fuel with
  | zero => cases succeeded
  | succ fuel =>
      have found := Array.getElem?_eq_getElem has
      have same : moment.machine.heap.function function = closure := by
        cases (persists.functions found).symm.trans isClosure
        exact Heap.function_of_getElem? found
      have equipped := healthy.intact.initializers function
      rw [same] at equipped
      have isThere := Scopes.lt_of_own (equipped isInitializer)
      rw [finalHeap, persists.reserved (.inl rfl) isThere] at isThis
      have declared := healthy.formed.heap.function function
      rw [same] at declared
      have called : callFunction fuel closure arguments line moment.machine = .ok result final := by
        rw [← succeeded, Lox.callValue, ← same]
        rfl
      exact callFunction_initializer healthy.formed declared isInitializer isThis called

/-- What is read through `super` under the name `init` is an initializer that was bound. -/
theorem Occurs.bindsInitializer_super {fuel : Nat} {id : UseId} {line : Nat} {name : Name}
    {machine final : Machine} {value : Value}
    (occurs : Occurs sink clock units ⟨fuel + 1, .evaluate (.super id line name), machine⟩)
    (isInit : name.text = "init")
    (succeeded : Lox.evaluate (fuel + 1) (.super id line name) machine = .ok value final) :
    ∃ superclass ref, superTarget? machine id = some (superclass, .object ref) ∧
      BindsInitializer sink clock units value ref := by
  cases target : superTarget? machine id with
  | none =>
      have started : (get : Eval Machine) machine = .ok machine machine := rfl
      change getSuper id line name machine = _ at succeeded
      rw [getSuper, bind_of_ok started, target] at succeeded
      cases succeeded
  | some found =>
      rcases found with ⟨superclass, this⟩
      rcases superTarget?_object occurs.healthy.machine target with ⟨ref, rfl, -⟩
      exact ⟨superclass, ref, rfl, .super occurs isInit target succeeded⟩

end Session

/-! ## Faults -/

/-- Two texts differ if they do so in their first letters. -/
theorem append_ne {first text : String} (rest : String)
    (different : first.toList.take 3 ≠ text.toList.take 3) (long : 3 ≤ first.toList.length) :
    first ++ rest ≠ text := by
  intro same
  apply different
  rw [← same, String.toList_append, List.take_append_of_le_length long]

/-- The wording of an ordinary fault is not that of an initializer without an object. -/
theorem RuntimeFault.message_ne {fault : RuntimeFault} (isOrdinary : fault.isOrdinary = true) :
    fault.message ≠ RuntimeFault.initializerNotBound.message := by
  cases fault with
  | initializerNotBound => cases isOrdinary
  | nativeFailure message => cases isOrdinary
  | undefinedVariable name =>
      change "Undefined variable '" ++ name ++ "'." ≠ _
      rw [String.append_assoc]
      exact append_ne _ (by decide) (by decide)
  | undefinedProperty name =>
      change "Undefined property '" ++ name ++ "'." ≠ _
      rw [String.append_assoc]
      exact append_ne _ (by decide) (by decide)
  | invalidOperator lexeme =>
      change "Invalid binary operator '" ++ lexeme ++ "'." ≠ _
      rw [String.append_assoc]
      exact append_ne _ (by decide) (by decide)
  | wrongArgumentCount expected actual =>
      change "Expected " ++ toString expected ++ " arguments but got " ++ toString actual ++ "." ≠ _
      simp only [String.append_assoc]
      exact append_ne _ (by decide) (by decide)
  | _ => decide

namespace Session

/-- A unit is stopped by ordinary faults only. -/
theorem run_ordinary {session : Session} (healthy : session.machine.Healthy) {fuel : Nat}
    {source : String} {error : RuntimeError}
    (stopped : (session.run fuel source).1 = .interrupted (.runtime error)) :
    error.fault.isOrdinary = true := by
  rcases session.run_cases fuel source with
    ⟨program, nextId, reads⟩ | ⟨errors, nextId, -, rejected⟩
  · rw [reads.run_eq] at stopped
    by_cases clean : (resolveProgram session.machine.globalNames program).errors = []
    · have started := (reads.healthy healthy fuel).machine
      change (session.machine.runProgram fuel program).1 = _ at stopped
      rw [runProgram_outcome clean] at stopped
      cases result : executeProgram fuel program (session.resolved program) with
      | ok value final =>
          rw [result] at stopped
          cases stopped
      | error cause final =>
          rw [result] at stopped
          cases stopped
          exact (keeps_executeProgram fuel started reads.takes.wellFormed).ordinary result
    · change (session.machine.runProgram fuel program).1 = _ at stopped
      rw [runProgram_rejected clean] at stopped
      cases stopped
  · rw [rejected] at stopped
    cases stopped

end Session

/-- Calls of classes and of initializers yield their object.  Wherever a session is, a call
of a class that succeeds yields an object of that class which equals nothing in reach
before the call.  An initializer that was obtained from an object, or through `super`,
yields that object whenever a call of it succeeds.  No unit is stopped by an initializer
without an object. -/
theorem calls_yield_their_object (sink : Sink) (clock : Clock) (units : List (Nat × String)) :
    (∀ there, Session.Occurs sink clock units there →
      ∀ fuel ref arguments line value final,
        callValue fuel (.classRef ref) arguments line there.machine = .ok value final →
        ∃ object, value = .object object ∧ object.index < final.heap.objects.size ∧
          (final.heap.object object).ofClass = ref ∧
          ∀ other, Session.InReach sink clock units there other →
            value.equals other = false ∧ other.equals value = false) ∧
    (∀ fuel id line name machine value final,
      Session.Occurs sink clock units ⟨fuel + 1, .evaluate (.super id line name), machine⟩ →
      name.text = "init" → evaluate (fuel + 1) (.super id line name) machine = .ok value final →
      ∃ superclass ref, superTarget? machine id = some (superclass, .object ref) ∧
        Session.BindsInitializer sink clock units value ref) ∧
    (∀ value ref, Session.BindsInitializer sink clock units value ref →
      ∀ there, Session.Occurs sink clock units there → there.machine.heap.Has value →
      ∀ fuel arguments line result final,
        callValue fuel value arguments line there.machine = .ok result final →
        result = .object ref) ∧
    ∀ fuel source error,
      (((Session.initial sink clock).runAll units).run fuel source).1 =
        .interrupted (.runtime error) →
      error.fault.message ≠ "Initializer is not bound to an instance." := by
  refine ⟨?_, ?_, ?_, ?_⟩
  · intro there occurs fuel ref arguments line value final succeeded
    rcases callValue_classRef succeeded with ⟨rfl, isThere, ofClass⟩
    exact ⟨_, rfl, isThere, ofClass, fun other inReach => occurs.not_equals inReach⟩
  · intro fuel id line name machine value final occurs isInit succeeded
    exact occurs.bindsInitializer_super isInit succeeded
  · intro value ref binds there occurs has fuel arguments line result final succeeded
    exact binds.callValue occurs has succeeded
  · intro fuel source error stopped
    exact RuntimeFault.message_ne
      (Session.run_ordinary (Session.healthy_runAll sink clock units) stopped)

example : ((Session.initial .unlimited (.startingAt 0)).run 50
    ("class A \x7b init() \x7b while (true) \x7b return; \x7d \x7d \x7d " ++
      "class B < A \x7b m() \x7b return super.init; \x7d \x7d var b = B(); var f = b.m(); " ++
      "print f() == b; print B() == b;")).2.machine.sink.written = "true\nfalse\n".toUTF8 := by
  decide +kernel

/-! ### An initializer that is called again -/

namespace CalledAgain

/-- A class with an initializer, and a call of the initializer that was read from a new
object. -/
def source : String :=
  "class A \x7b init() \x7b \x7d \x7d A().init();"

def declaration : Stmt :=
  .class_ ⟨"A", 1⟩ none [⟨⟨"init", 1⟩, [], []⟩]

def instantiation : Expr :=
  .call (.var 0 ⟨"A", 1⟩) 1 []

def property : Expr :=
  .get instantiation ⟨"init", 1⟩

def program : List Stmt :=
  [declaration, .expression (.call property 1 [])]

theorem accepted : (Session.initial .unlimited (.startingAt 0)).Accepts source program :=
  ⟨⟨1, by decide +kernel, by rw [scanTokens_eq]; cbv⟩, by decide +kernel⟩

/-- The machine when the class has been declared. -/
def declared : Machine :=
  endState (execute 20 declaration
    ((Session.initial .unlimited (.startingAt 0)).resolved program))

/-- The machine when the class is called. -/
def instantiating : Machine :=
  { declared with callDepth := declared.callDepth + 1 }

/-- The machine when the initializer has been read. -/
def read : Machine :=
  endState (evaluate 18 property declared)

/-- The machine when the initializer is called again. -/
def called : Machine :=
  { read with callDepth := read.callDepth + 1 }

/-- The machine before the first statement. -/
abbrev start : Machine :=
  ((Session.initial .unlimited (.startingAt 0)).runAll []).resolved program

/-- What the program computes on the way to the second call of the initializer. -/
theorem computed :
    value? (execute 20 declaration start) = some .normal ∧
      value? (evaluate 17 instantiation declared) = some (.object ⟨0⟩) ∧
      ((endState (evaluate 17 instantiation declared)).heap.object ⟨0⟩).fields["init"]? = none ∧
      value? (evaluate 18 property declared) = some (.function ⟨0⟩) := by
  decide +kernel

abbrev Occurs : Moment → Prop :=
  Session.Occurs .unlimited (.startingAt 0) [(20, source)]

theorem occurs_call : Occurs ⟨19, .evaluate (.call property 1 []), declared⟩ := by
  refine ⟨[], 20, source, program, List.prefix_refl _, accepted, ?_⟩
  refine .head (.restOfProgram (eq_ok_of_value? .normal computed.1)) ?_
  exact .head .firstOfProgram (.head .expression .refl)

theorem occurs_instantiating :
    Occurs ⟨16, .callValue (.classRef ⟨0⟩) [] 1, instantiating⟩ := by
  have found : evaluate 16 (.var 0 ⟨"A", 1⟩) declared = .ok (.classRef ⟨0⟩) declared := by
    with_unfolding_all rfl
  have checked : checkCall (.classRef ⟨0⟩) 1 0 declared = .ok () declared := by
    with_unfolding_all rfl
  exact ((occurs_call.calls .callee).calls .getObject).calls (.call found rfl checked)

theorem isRead : evaluate 18 property declared = .ok (.function ⟨0⟩) read :=
  eq_ok_of_value? _ computed.2.2.2

theorem binds : Session.BindsInitializer .unlimited (.startingAt 0) [(20, source)]
    (.function ⟨0⟩) ⟨0⟩ := by
  obtain ⟨-, result, noField, -⟩ := computed
  have instantiated : evaluate 17 instantiation declared =
      .ok (.object ⟨0⟩) (endState (evaluate 17 instantiation declared)) :=
    eq_ok_of_value? _ result
  exact .property (occurs_call.calls .callee) rfl instantiated noField isRead

theorem occurs_called : Occurs ⟨18, .callValue (.function ⟨0⟩) [] 1, called⟩ := by
  have checked : checkCall (.function ⟨0⟩) 1 0 read = .ok () read := by with_unfolding_all rfl
  exact occurs_call.calls (.call isRead rfl checked)

end CalledAgain

/-- The class yields a new object, and its initializer yields it again. -/
theorem calledAgain_yields_object :
    (∃ value object final,
      callValue 16 (.classRef ⟨0⟩) [] 1 CalledAgain.instantiating = .ok value final ∧
        value = .object object ∧ object.index < final.heap.objects.size ∧
        (final.heap.object object).ofClass = ⟨0⟩) ∧
      ∃ result final,
        callValue 18 (.function ⟨0⟩) [] 1 CalledAgain.called = .ok result final ∧
          result = .object ⟨0⟩ := by
  have yields := calls_yield_their_object .unlimited (.startingAt 0) [(20, CalledAgain.source)]
  have instantiated : value? (callValue 16 (.classRef ⟨0⟩) [] 1 CalledAgain.instantiating) =
      some (.object ⟨0⟩) := by decide +kernel
  have again : value? (callValue 18 (.function ⟨0⟩) [] 1 CalledAgain.called) =
      some (.object ⟨0⟩) := by decide +kernel
  have isThere : CalledAgain.called.heap.Has (.function ⟨0⟩) := by
    change 0 < CalledAgain.called.heap.functions.size
    decide +kernel
  constructor
  · rcases yields.1 _ CalledAgain.occurs_instantiating _ _ _ _ _ _
      (eq_ok_of_value? _ instantiated) with ⟨object, isObject, present, ofClass, -⟩
    exact ⟨_, object, _, eq_ok_of_value? _ instantiated, isObject, present, ofClass⟩
  · exact ⟨_, _, eq_ok_of_value? _ again, yields.2.2.1 _ _ CalledAgain.binds _
      CalledAgain.occurs_called isThere _ _ _ _ _ (eq_ok_of_value? _ again)⟩

end Lox
