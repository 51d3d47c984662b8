import Mathlib
import Lox.Proofs.Receivers.Occurrences
import Lox.Proofs.Receivers.Sites

/-!
# Receivers of methods

A method that was obtained from an object runs with that object as its receiver, and so
do the functions nested in it, whenever they are called.  `this` is the receiver, and
`super` looks for methods from the superclass on that the class of the method was
declared with.
-/

namespace Lox

open Actions Eval

/-! ## Running methods -/

/-- A call of the function starts at the moment. -/
def Starts (occurs : Moment → Prop) (function : FunctionRef) (moment : Moment) : Prop :=
  ∃ fuel arguments line machine,
    occurs ⟨fuel + 1, .callValue (.function function) arguments line, machine⟩ ∧
    moment = ⟨fuel, .callFunction (machine.heap.function function) arguments line, machine⟩

/-- What is evaluated at the moment stands in the body of a method of the class, outside
the methods of nested classes, and the method was obtained for the receiver. -/
inductive RunsFor (occurs : Moment → Prop) : Moment → Value → ClassRef → Prop where
  /-- The method is read as a property of an object. -/
  | property {fuel object name machine ref middle later declarer function moment} :
      occurs ⟨fuel + 1, .evaluate (.get object name), machine⟩ →
      evaluate fuel object machine = .ok (.object ref) middle →
      (middle.heap.object ref).fields[name.text]? = none →
      middle.heap.declarer? (middle.heap.object ref).ofClass name.text = some declarer →
      evaluate (fuel + 1) (.get object name) machine = .ok (.function function) later →
      Starts occurs function moment → RunsFor occurs moment (.object ref) declarer
  /-- The method is obtained through `super` in a method with the same receiver. -/
  | super {fuel id line name machine receiver declaring start this later declarer function
      moment} :
      RunsFor occurs ⟨fuel + 1, .evaluate (.super id line name), machine⟩ receiver declaring →
      superTarget? machine id = some (start, this) →
      machine.heap.declarer? start name.text = some declarer →
      evaluate (fuel + 1) (.super id line name) machine = .ok (.function function) later →
      Starts occurs function moment → RunsFor occurs moment receiver declarer
  /-- The method initializes a new object. -/
  | initializer {fuel ref arguments line machine object middle declarer moment} :
      occurs ⟨fuel + 1, .callValue (.classRef ref) arguments line, machine⟩ →
      (onHeap fun heap => heap.addObject ref) machine = .ok object middle →
      middle.heap.declarer? ref "init" = some declarer →
      Calls ⟨fuel + 1, .callValue (.classRef ref) arguments line, machine⟩ moment →
      RunsFor occurs moment (.object object) declarer
  /-- A function is called whose declaration was executed in the method. -/
  | nested {fuel declaration machine receiver declaring flow later function moment} :
      RunsFor occurs ⟨fuel + 1, .execute (.function declaration), machine⟩ receiver declaring →
      execute (fuel + 1) (.function declaration) machine = .ok flow later →
      later.heap.scopes.own? machine.current declaration.name.text =
        some (.function function) →
      Starts occurs function moment → RunsFor occurs moment receiver declaring
  /-- What is evaluated next stands in the same body. -/
  | inside {first second receiver declaring} :
      RunsFor occurs first receiver declaring → Calls first second →
      (∀ callee arguments line, second.task ≠ .callValue callee arguments line) →
      RunsFor occurs second receiver declaring

/-- The declaration of a class with a superclass is executed at the moment, and the
superclass expression yields the class that is given. -/
def Moment.Declares (moment : Moment) (declared superclass : ClassRef) : Prop :=
  ∃ fuel name expr methods machine middle,
    moment = ⟨fuel + 1, .execute (.class_ name (some expr) methods), machine⟩ ∧
    evaluate fuel expr machine = .ok (.classRef superclass) middle ∧
    declared = ⟨middle.heap.classes.size⟩

/-! ## Receivers in the heap -/

theorem Scopes.getAt?_succ {scopes : Scopes} {inner scope : ScopeRef}
    (linked : scopes.parent? inner = some scope) (distance : Nat) (name : String) :
    scopes.getAt? inner (distance + 1) name = scopes.getAt? scope distance name := by
  rw [getAt?, ancestor?, linked, getAt?]

namespace Heap

/-- From the scope on, `this` is bound at the distance to the receiver, and `super` one
scope further out to the superclass of the class. -/
structure Receives (heap : Heap) (scope : ScopeRef) (distance : Nat) (receiver : Value)
    (declaring : ClassRef) : Prop where
  this : heap.scopes.getAt? scope distance "this" = some receiver
  super : heap.scopes.getAt? scope (distance + 1) "super" =
    (heap.classInfo declaring).superclass.map .classRef

variable {heap final : Heap} {receiver : Value} {declaring : ClassRef}

/-- In a scope inside, both are one scope further out. -/
theorem Receives.inner {scope inner : ScopeRef} {distance : Nat}
    (receives : heap.Receives scope distance receiver declaring)
    (linked : heap.scopes.parent? inner = some scope) :
    heap.Receives inner (distance + 1) receiver declaring :=
  ⟨(Scopes.getAt?_succ linked _ _).trans receives.this,
    (Scopes.getAt?_succ linked _ _).trans receives.super⟩

/-- What is bound under a reserved name stays so. -/
theorem Persists.getAt? (persists : heap.Persists final) {ref : ScopeRef} {distance : Nat}
    {name : String} (isReserved : IsReserved name) {value : Value}
    (found : heap.scopes.getAt? ref distance name = some value) :
    final.scopes.getAt? ref distance name = some value := by
  rw [Scopes.getAt?] at found ⊢
  cases reached : heap.scopes.ancestor? ref distance with
  | none =>
      rw [reached] at found
      cases found
  | some scope =>
      rw [reached] at found
      rw [persists.grows.ancestor reached]
      have present := Scopes.lt_of_own (Option.isSome_of_eq_some found)
      exact (persists.reserved isReserved present).trans found

/-- A method that was bound to the receiver closes over a scope that receives it. -/
theorem Formed.receives_bind {later : Heap} {name : String} {method : Closure}
    (formed : heap.Formed) (found : (heap.classInfo declaring).methods[name]? = some method)
    (bound : (heap.bind method receiver).1.Persists later) :
    later.Receives heap.scopes.nextRef 0 receiver declaring := by
  have isFormed := formed.method found
  have persists := (heap.persists_bind method receiver).trans bound
  have sameClass : later.classInfo declaring = heap.classInfo declaring :=
    classInfo_of_getElem? (persists.classes (getElem?_classes found))
  rw [bind_fst] at bound
  have linked : later.scopes.parent? heap.scopes.nextRef = some method.scope :=
    bound.grows.parent_some (Scopes.parent?_push_nextRef heap.scopes _)
  constructor
  · apply bound.getAt? (.inl rfl)
    change (heap.scopes.push _).own? heap.scopes.nextRef "this" = some receiver
    rw [Scopes.own?, Scopes.bindings_push_nextRef, Table.getElem?_insert, if_pos rfl]
  · rw [Scopes.getAt?_succ linked, sameClass]
    exact (persists.reserved (.inr rfl) isFormed.present).trans isFormed.super

/-- The body of the function stands in a method of the class, and has the receiver. -/
def FunctionReceives (known : Visit → Prop) (heap : Heap) (function : FunctionRef)
    (receiver : Value) (declaring : ClassRef) : Prop :=
  ∃ closure distance, heap.functions[function.index]? = some closure ∧
    heap.Receives closure.scope distance receiver declaring ∧
    Stmt.SitedEach known (distance + 1) closure.declaration.body

/-- The nearest class that declares a method has it among its own. -/
theorem exists_method {ref declarer : ClassRef} {name : String}
    (found : heap.declarer? ref name = some declarer) :
    ∃ method, (heap.classInfo declarer).methods[name]? = some method := by
  fun_induction heap.declarer? ref name with
  | case1 ref method isOwn =>
      cases found
      exact ⟨method, isOwn⟩
  | case2 ref _ superclass _ _ inductionHypothesis => exact inductionHypothesis found
  | case3 => cases found
  | case4 => cases found

theorem findMethod?_of_declarer {ref declarer : ClassRef} {name : String} {method : Closure}
    (found : heap.declarer? ref name = some declarer)
    (isMethod : (heap.classInfo declarer).methods[name]? = some method) :
    heap.findMethod? ref name = some method := by
  rw [findMethod?_eq, found]
  exact isMethod

end Heap

/-- What a task needs to have its receiver.  An empty body needs nothing. -/
def Task.Receives (known : Visit → Prop) (heap : Heap) (current : ScopeRef) (receiver : Value)
    (declaring : ClassRef) : Task → Prop
  | .evaluate expr => ∃ distance, heap.Receives current distance receiver declaring ∧
      expr.Sited known distance
  | .evaluateEach exprs => ∃ distance, heap.Receives current distance receiver declaring ∧
      Expr.SitedEach known distance exprs
  | .callValue _ _ _ => False
  | .callFunction closure _ _ => closure.declaration.body ≠ [] →
      ∃ distance, heap.Receives closure.scope distance receiver declaring ∧
        Stmt.SitedEach known (distance + 1) closure.declaration.body
  | .execute stmt => ∃ distance, heap.Receives current distance receiver declaring ∧
      stmt.Sited known distance
  | .executeEach stmts => stmts ≠ [] →
      ∃ distance, heap.Receives current distance receiver declaring ∧
        Stmt.SitedEach known distance stmts
  | .executeWhile condition body =>
      ∃ distance, heap.Receives current distance receiver declaring ∧
        condition.Sited known distance ∧ body.Sited known distance
  | .executeProgram _ => False

section Steps

variable {known : Visit → Prop} {heap : Heap} {fuel : Nat} {machine : Machine} {second : Moment}
  {receiver : Value} {declaring : ClassRef}

/-- A scope that was opened inside another one is still inside it at the end. -/
theorem parent_opened {bindings : Bindings} {parent scope : ScopeRef} {middle : Machine}
    (opened : openScope bindings (some parent) machine = .ok scope middle)
    (persists : middle.heap.Persists heap) : heap.scopes.parent? scope = some parent := by
  cases opened
  exact persists.grows.parent_some (Scopes.parent?_push_nextRef machine.heap.scopes _)

theorem current_evaluated {expr : Expr} {value : Value} {middle : Machine}
    (result : evaluate fuel expr machine = .ok value middle) : middle.current = machine.current :=
  (((framedAt fuel).evaluate expr).of_ok result).current

theorem current_executed {stmt : Stmt} {flow : Flow} {middle : Machine}
    (result : execute fuel stmt machine = .ok flow middle) : middle.current = machine.current :=
  (((framedAt fuel).execute stmt).of_ok result).current

theorem Calls.receives_evaluate {expr : Expr}
    (calls : Calls ⟨fuel, .evaluate expr, machine⟩ second)
    (inBody : ∀ callee arguments line, second.task ≠ .callValue callee arguments line)
    {distance : Nat} (receives : heap.Receives machine.current distance receiver declaring)
    (sited : expr.Sited known distance) :
    second.task.Receives known heap second.machine.current receiver declaring := by
  cases calls with
  | group => exact ⟨distance, receives, sited⟩
  | unary => exact ⟨distance, receives, sited⟩
  | binaryLeft => exact ⟨distance, receives, sited.1⟩
  | binaryRight result =>
      rw [← current_evaluated result] at receives
      exact ⟨distance, receives, sited.2⟩
  | logicalLeft => exact ⟨distance, receives, sited.1⟩
  | logicalRight result =>
      rw [← current_evaluated result] at receives
      exact ⟨distance, receives, sited.2⟩
  | assign => exact ⟨distance, receives, sited⟩
  | callee => exact ⟨distance, receives, sited.1⟩
  | arguments result =>
      rw [← current_evaluated result] at receives
      exact ⟨distance, receives, sited.2⟩
  | call => exact absurd rfl (inBody _ _ _)
  | getObject => exact ⟨distance, receives, sited⟩
  | setObject => exact ⟨distance, receives, sited.1⟩
  | setValue result =>
      rw [← current_evaluated result] at receives
      exact ⟨distance, receives, sited.2⟩

theorem Calls.receives_execute {stmt : Stmt} (calls : Calls ⟨fuel, .execute stmt, machine⟩ second)
    (persists : second.machine.heap.Persists heap) {distance : Nat}
    (receives : heap.Receives machine.current distance receiver declaring)
    (sited : stmt.Sited known distance) :
    second.task.Receives known heap second.machine.current receiver declaring := by
  cases calls with
  | expression => exact ⟨distance, receives, sited⟩
  | print => exact ⟨distance, receives, sited⟩
  | var => exact ⟨distance, receives, sited _ rfl⟩
  | block openResult =>
      intro _
      exact ⟨distance + 1, receives.inner (parent_opened openResult persists), sited⟩
  | @ifCondition _ _ _ elseBranch =>
      cases elseBranch with
      | none => exact ⟨distance, receives, sited.1⟩
      | some _ => exact ⟨distance, receives, sited.1⟩
  | @thenBranch _ _ _ elseBranch _ _ _ result =>
      rw [← current_evaluated result] at receives
      cases elseBranch with
      | none => exact ⟨distance, receives, sited.2⟩
      | some _ => exact ⟨distance, receives, sited.2.1⟩
  | elseBranch result =>
      rw [← current_evaluated result] at receives
      exact ⟨distance, receives, sited.2.2⟩
  | loop => exact ⟨distance, receives, sited⟩
  | return_ => exact ⟨distance, receives, sited _ rfl⟩
  | superclass => exact ⟨distance, receives, sited _ rfl⟩

theorem Calls.receives_executeWhile {condition : Expr} {body : Stmt}
    (calls : Calls ⟨fuel, .executeWhile condition body, machine⟩ second) {distance : Nat}
    (receives : heap.Receives machine.current distance receiver declaring)
    (conditionSited : condition.Sited known distance) (bodySited : body.Sited known distance) :
    second.task.Receives known heap second.machine.current receiver declaring := by
  cases calls with
  | loopCondition => exact ⟨distance, receives, conditionSited⟩
  | loopBody result =>
      rw [← current_evaluated result] at receives
      exact ⟨distance, receives, bodySited⟩
  | loopAgain result _ bodyResult =>
      rw [← current_evaluated result, ← current_executed bodyResult] at receives
      exact ⟨distance, receives, conditionSited, bodySited⟩

/-- What is evaluated next in the same body has the same receiver. -/
theorem Calls.receives {first : Moment} (calls : Calls first second)
    (persists : second.machine.heap.Persists heap)
    (inBody : ∀ callee arguments line, second.task ≠ .callValue callee arguments line)
    (receives : first.task.Receives known heap first.machine.current receiver declaring) :
    second.task.Receives known heap second.machine.current receiver declaring := by
  rcases first with ⟨fuel, task, machine⟩
  cases task with
  | evaluate expr =>
      rcases receives with ⟨distance, receives, sited⟩
      exact calls.receives_evaluate inBody receives sited
  | evaluateEach exprs =>
      rcases receives with ⟨distance, receives, sited⟩
      cases calls with
      | firstExpr => exact ⟨distance, receives, sited.1⟩
      | restExprs result =>
          rw [← current_evaluated result] at receives
          exact ⟨distance, receives, sited.2⟩
  | callValue callee arguments line => exact receives.elim
  | callFunction closure arguments line =>
      cases calls with
      | functionBody openResult =>
          intro nonempty
          rcases receives nonempty with ⟨distance, receives, sited⟩
          exact ⟨distance + 1, receives.inner (parent_opened openResult persists), sited⟩
  | execute stmt =>
      rcases receives with ⟨distance, receives, sited⟩
      exact calls.receives_execute persists receives sited
  | executeEach stmts =>
      cases calls with
      | firstStmt =>
          rcases receives (List.cons_ne_nil _ _) with ⟨distance, receives, sited⟩
          exact ⟨distance, receives, sited.1⟩
      | restStmts result =>
          rcases receives (List.cons_ne_nil _ _) with ⟨distance, receives, sited⟩
          rw [← current_executed result] at receives
          exact fun _ => ⟨distance, receives, sited.2⟩
  | executeWhile condition body =>
      rcases receives with ⟨distance, receives, conditionSited, bodySited⟩
      exact calls.receives_executeWhile receives conditionSited bodySited
  | executeProgram program => exact receives.elim

end Steps

/-! ## Histories -/

namespace Session

variable {sink : Sink} {clock : Clock} {units : List (Nat × String)}

/-- The visit is a legal one of an accepted unit. -/
def Met (sink : Sink) (clock : Clock) (units : List (Nat × String)) (visit : Visit) : Prop :=
  VisitedIn sink clock units visit ∧ visit.Legal

/-- The heap in which the history ends. -/
abbrev finalHeap (sink : Sink) (clock : Clock) (units : List (Nat × String)) : Heap :=
  ((initial sink clock).runAll units).machine.heap

/-- A use that is evaluated is the one that resolution found at the distance. -/
theorem Occurs.finds {fuel : Nat} {expr : Expr} {machine : Machine}
    (occurs : Occurs sink clock units ⟨fuel, .evaluate expr, machine⟩) {id : UseId} {name : String}
    (isUse : expr.use? = some (id, name, .read)) {distance : Nat}
    (found : FoundAt (Met sink clock units) id distance) :
    machine.distances[id]? = some distance ∧
      ∃ (tables : List NameTable) (isInner : Bool) (role : Role), machine.Realizes tables ∧
      Visit.Legal ⟨id, name, .read, role.place tables isInner⟩ ∧
      ResolverState.distance? name .read (role.place tables isInner).scopes = some distance := by
  rcases occurs.ready with ⟨known, ready, met⟩
  rcases ready.task with ⟨-, tables, isInner, role, realizes, visited⟩
  have isKnown := met _ (visited _ (expr.mem_visits_of_use isUse _))
  rcases found with ⟨visit, isMet, same, atDistance⟩
  rw [isMet.1.eq_of_id isKnown.1 same] at atDistance
  exact ⟨isKnown.2.2.trans atDistance, tables, isInner, role, realizes, isKnown.2.1, atDistance⟩

section Receives

variable {fuel : Nat} {machine : Machine} {id : UseId} {line distance : Nat} {receiver : Value}
  {declaring : ClassRef}

/-- `this` is the receiver. -/
theorem Occurs.this_eq
    (occurs : Occurs sink clock units ⟨fuel + 1, .evaluate (.this id line), machine⟩)
    (receives : (finalHeap sink clock units).Receives machine.current distance receiver declaring)
    (found : FoundAt (Met sink clock units) id distance) :
    Lox.evaluate (fuel + 1) (.this id line) machine = .ok receiver machine := by
  rcases occurs.finds rfl found with ⟨recorded, tables, isInner, role, realizes, legal, isFound⟩
  have notSuperclass : role ≠ .superclass "this" := fun same =>
    legal.superclass "this" ((role.place_role tables isInner).trans same) rfl
  have bound := realizes.isSome_getAt? notSuperclass isFound
  rcases Option.isSome_iff_exists.mp bound with ⟨value, isBound⟩
  have same : some value = some receiver :=
    (occurs.persists.getAt? (.inl rfl) isBound).symm.trans receives.this
  cases same
  change readVariable id ⟨"this", line⟩ machine = .ok receiver machine
  simp only [readVariable, recorded, isBound]

/-- `super` leads to the superclass of the class and to the receiver. -/
theorem Occurs.superTarget_eq {method : Name}
    (occurs : Occurs sink clock units ⟨fuel + 1, .evaluate (.super id line method), machine⟩)
    (receives : (finalHeap sink clock units).Receives machine.current distance receiver declaring)
    (found : FoundAt (Met sink clock units) id (distance + 1)) :
    ∃ parent, ((finalHeap sink clock units).classInfo declaring).superclass = some parent ∧
      superTarget? machine id = some (parent, receiver) := by
  rcases occurs.finds rfl found with ⟨recorded, tables, isInner, role, realizes, legal, isFound⟩
  have notSuperclass : ∀ name, role ≠ .superclass name := fun name same =>
    legal.within rfl name ((role.place_role tables isInner).trans same)
  rcases legal.super rfl with ⟨inner, thisFound, superFound⟩
  cases superFound.symm.trans isFound
  rcases Option.isSome_iff_exists.mp (realizes.isSome_getAt? (notSuperclass _) thisFound) with
    ⟨value, thisBound⟩
  rcases Option.isSome_iff_exists.mp (realizes.isSome_getAt? (notSuperclass _) superFound) with
    ⟨superclass, superBound⟩
  have sameThis : some value = some receiver :=
    (occurs.persists.getAt? (.inl rfl) thisBound).symm.trans receives.this
  cases sameThis
  have sameSuper := (occurs.persists.getAt? (.inr rfl) superBound).symm.trans receives.super
  rcases Option.map_eq_some_iff.mp sameSuper.symm with ⟨parent, isParent, rfl⟩
  refine ⟨parent, isParent, ?_⟩
  simp only [superTarget?, recorded, superBound, thisBound]

/-- A method of the superclass is bound to the receiver. -/
theorem evaluate_super {method : Name} {parent : ClassRef}
    (target : superTarget? machine id = some (parent, receiver)) :
    Lox.evaluate (fuel + 1) (.super id line method) machine =
      match machine.heap.findMethod? parent method.text with
      | some found => bindMethod found receiver machine
      | none => fail method.line (.undefinedProperty method.text) machine := by
  have started : (get : Eval Machine) machine = .ok machine machine := rfl
  change getSuper id line method machine = _
  rw [getSuper, bind_of_ok started, target]
  dsimp only
  cases machine.heap.findMethod? parent method.text <;> rfl

end Receives

/-! ### Functions -/

/-- In the methods of classes, `this` is found one scope outside that of the body. -/
theorem sitedEach_of_faithful {known : Visit → Prop} {heap : Heap} {globals : ScopeRef}
    (faithful : heap.Faithful known globals)
    (met : ∀ visit, known visit → Met sink clock units visit)
    {declarer : ClassRef} {name : String} {method : Closure}
    (found : (heap.classInfo declarer).methods[name]? = some method) :
    Stmt.SitedEach (Met sink clock units) 1 method.declaration.body := by
  rcases faithful.methods declarer name method found with ⟨tables, -, formed, visited⟩
  exact Stmt.sitedEach_method (fun _ isMet => isMet.2) formed fun visit member =>
    met visit (visited visit member)

/-- A method that was bound has its receiver. -/
theorem functionReceives_of_bind {machine later : Machine} {known : Visit → Prop}
    {declarer : ClassRef} {name : String} {method : Closure} {receiver : Value}
    {function : FunctionRef} (formed : machine.Formed) (faithful : machine.Faithful known)
    (met : ∀ visit, known visit → Met sink clock units visit)
    (found : (machine.heap.classInfo declarer).methods[name]? = some method)
    (bound : bindMethod method receiver machine = .ok (.function function) later)
    (persists : later.heap.Persists (finalHeap sink clock units)) :
    (finalHeap sink clock units).FunctionReceives (Met sink clock units) function receiver
      declarer := by
  have sited := sitedEach_of_faithful faithful met found
  cases bound
  have added := (machine.heap.bind method receiver).1.persists_addFunction
    (machine.heap.bind method receiver).2
  refine ⟨(machine.heap.bind method receiver).2, 0, persists.functions ?_, ?_, sited⟩
  · exact Array.getElem?_push_size
  · exact formed.heap.receives_bind found (added.trans persists)

/-- A call of a function that has a receiver has it too. -/
theorem receives_of_starts {function : FunctionRef} {moment : Moment} {receiver : Value}
    {declaring : ClassRef} (starts : Starts (Occurs sink clock units) function moment)
    (receives : (finalHeap sink clock units).FunctionReceives (Met sink clock units) function
      receiver declaring) :
    Occurs sink clock units moment ∧ moment.task.Receives (Met sink clock units)
      (finalHeap sink clock units) moment.machine.current receiver declaring := by
  rcases starts with ⟨fuel, arguments, line, machine, occurs, rfl⟩
  refine ⟨occurs.calls .function, ?_⟩
  intro nonempty
  rcases receives with ⟨closure, distance, isClosure, receives, sited⟩
  cases found : machine.heap.functions[function.index]? with
  | some other =>
      cases (occurs.persists.functions found).symm.trans isClosure
      rw [Heap.function_of_getElem? found]
      exact ⟨distance, receives, sited⟩
  | none =>
      rw [Heap.function, Array.getD_eq_getD_getElem?, found] at nonempty
      exact absurd rfl nonempty

theorem getProperty_method {machine : Machine} {ref : ObjectRef} {name : Name} {method : Closure}
    (noField : (machine.heap.object ref).fields[name.text]? = none)
    (found : machine.heap.findMethod? (machine.heap.object ref).ofClass name.text = some method) :
    getProperty ref name machine = bindMethod method (.object ref) machine := by
  have started : (get : Eval Machine) machine = .ok machine machine := rfl
  rw [getProperty, bind_of_ok started]
  simp only [noField, found]

/-- An evaluation that succeeds ends before the history does. -/
theorem Occurs.persists_evaluated {fuel : Nat} {expr : Expr} {machine later : Machine}
    {value : Value} (occurs : Occurs sink clock units ⟨fuel, .evaluate expr, machine⟩)
    (result : Lox.evaluate fuel expr machine = .ok value later) :
    later.heap.Persists (finalHeap sink clock units) := by
  have ends := occurs.enclosed.2
  rw [Moment.final, result] at ends
  exact ends

section Obtained

variable {fuel : Nat} {machine middle later : Machine} {declarer : ClassRef}
  {function : FunctionRef} {receiver : Value} {declaring : ClassRef}

theorem functionReceives_property {object : Expr} {name : Name} {ref : ObjectRef}
    (occurs : Occurs sink clock units ⟨fuel + 1, .evaluate (.get object name), machine⟩)
    (objectResult : Lox.evaluate fuel object machine = .ok (.object ref) middle)
    (noField : (middle.heap.object ref).fields[name.text]? = none)
    (found : middle.heap.declarer? (middle.heap.object ref).ofClass name.text = some declarer)
    (result : Lox.evaluate (fuel + 1) (.get object name) machine = .ok (.function function) later) :
    (finalHeap sink clock units).FunctionReceives (Met sink clock units) function (.object ref)
      declarer := by
  rcases occurs.ready with ⟨known, ready, met⟩
  have formed := occurs.enclosed.1
  have objectFormed : object.WellFormed := formed.task
  have between := ((keptAt fuel).evaluate object objectFormed).of_ok formed.machine objectResult
  rcases Calls.evaluated ready.faithful objectFormed objectResult with ⟨-, faithful⟩
  rcases Heap.exists_method found with ⟨method, isMethod⟩
  have isFound := Heap.findMethod?_of_declarer found isMethod
  have bound : bindMethod method (.object ref) middle = .ok (.function function) later := by
    rw [← getProperty_method noField isFound, ← result, Lox.evaluate, bind_of_ok objectResult]
  exact functionReceives_of_bind between faithful (fun visit isKnown => ⟨(met visit isKnown).1,
    (met visit isKnown).2.1⟩) isMethod bound (occurs.persists_evaluated result)

theorem functionReceives_super {id : UseId} {line : Nat} {name : Name} {start : ClassRef}
    (occurs : Occurs sink clock units ⟨fuel + 1, .evaluate (.super id line name), machine⟩)
    (target : superTarget? machine id = some (start, receiver))
    (found : machine.heap.declarer? start name.text = some declarer)
    (result : Lox.evaluate (fuel + 1) (.super id line name) machine =
      .ok (.function function) later) :
    (finalHeap sink clock units).FunctionReceives (Met sink clock units) function receiver
      declarer := by
  rcases occurs.ready with ⟨known, ready, met⟩
  rcases Heap.exists_method found with ⟨method, isMethod⟩
  have bound : bindMethod method receiver machine = .ok (.function function) later := by
    rw [← result, evaluate_super target, Heap.findMethod?_of_declarer found isMethod]
  exact functionReceives_of_bind occurs.enclosed.1.machine ready.faithful (fun visit isKnown =>
    ⟨(met visit isKnown).1, (met visit isKnown).2.1⟩) isMethod bound
    (occurs.persists_evaluated result)

theorem receives_initializer {ref : ClassRef} {arguments : List Value} {line : Nat}
    {object : ObjectRef} {moment : Moment}
    (occurs : Occurs sink clock units
      ⟨fuel + 1, .callValue (.classRef ref) arguments line, machine⟩)
    (added : (onHeap fun heap => heap.addObject ref) machine = .ok object middle)
    (found : middle.heap.declarer? ref "init" = some declarer)
    (calls : Calls ⟨fuel + 1, .callValue (.classRef ref) arguments line, machine⟩ moment) :
    moment.task.Receives (Met sink clock units) (finalHeap sink clock units)
      moment.machine.current (.object object) declarer := by
  have persists := (occurs.calls calls).persists
  rcases occurs.ready with ⟨known, ready, met⟩
  have between := (kept_addObject ref).of_ok occurs.enclosed.1.machine added
  rcases (Sound.addObject ready.faithful ref).of_ok added with ⟨-, faithful, -⟩
  rcases Heap.exists_method found with ⟨method, isMethod⟩
  have sited := sitedEach_of_faithful faithful (fun visit isKnown => ⟨(met visit isKnown).1,
    (met visit isKnown).2.1⟩) isMethod
  cases calls with
  | initializer addResult initFound bindResult =>
      cases added.symm.trans addResult
      cases (Heap.findMethod?_of_declarer found isMethod).symm.trans initFound
      cases bindResult
      exact fun _ => ⟨0, between.heap.receives_bind isMethod persists, sited⟩

theorem functionReceives_nested {declaration : FunctionDecl} {flow : Flow} {distance : Nat}
    (occurs : Occurs sink clock units ⟨fuel + 1, .execute (.function declaration), machine⟩)
    (receives : (finalHeap sink clock units).Receives machine.current distance receiver declaring)
    (sited : (Stmt.function declaration).Sited (Met sink clock units) distance)
    (result : execute (fuel + 1) (.function declaration) machine = .ok flow later)
    (named : later.heap.scopes.own? machine.current declaration.name.text =
      some (.function function)) :
    (finalHeap sink clock units).FunctionReceives (Met sink clock units) function receiver
      declaring := by
  have ends := occurs.enclosed.2
  rw [Moment.final, result] at ends
  let closure : Closure := ⟨declaration, machine.current, false⟩
  have bodySited :
      Stmt.SitedEach (Met sink clock units) (distance + 1) closure.declaration.body := by
    cases declaration
    exact sited
  cases result
  have bound : (machine.heap.scopes.define machine.current declaration.name.text
      (.function (machine.heap.addFunction closure).2)).own? machine.current
        declaration.name.text = some (.function function) := named
  rw [Scopes.own?_define _ _ _ _ _ _ occurs.enclosed.1.machine.present, if_pos ⟨rfl, rfl⟩] at bound
  cases bound
  exact ⟨closure, distance, ends.functions Array.getElem?_push_size, receives, bodySited⟩

end Obtained

/-- Whatever runs for a receiver has it. -/
theorem receives_of_runsFor {moment : Moment} {receiver : Value} {declaring : ClassRef}
    (runs : RunsFor (Occurs sink clock units) moment receiver declaring) :
    Occurs sink clock units moment ∧ moment.task.Receives (Met sink clock units)
      (finalHeap sink clock units) moment.machine.current receiver declaring := by
  induction runs with
  | property occurs objectResult noField found result starts =>
      exact receives_of_starts starts
        (functionReceives_property occurs objectResult noField found result)
  | super _ target found result starts inductionHypothesis =>
      rcases inductionHypothesis with ⟨occurs, distance, receives, sited⟩
      rcases occurs.superTarget_eq receives sited with ⟨parent, -, isTarget⟩
      cases target.symm.trans isTarget
      exact receives_of_starts starts (functionReceives_super occurs target found result)
  | initializer occurs added found calls =>
      exact ⟨occurs.calls calls, receives_initializer occurs added found calls⟩
  | nested _ result named starts inductionHypothesis =>
      rcases inductionHypothesis with ⟨occurs, distance, receives, sited⟩
      exact receives_of_starts starts
        (functionReceives_nested occurs receives sited result named)
  | inside _ calls inBody inductionHypothesis =>
      have occurs := inductionHypothesis.1.calls calls
      exact ⟨occurs, calls.receives occurs.persists inBody inductionHypothesis.2⟩

/-- A class keeps the superclass that it was declared with. -/
theorem Occurs.superclass_eq {moment : Moment} {declared superclass : ClassRef}
    (occurs : Occurs sink clock units moment) (declares : moment.Declares declared superclass) :
    ((finalHeap sink clock units).classInfo declared).superclass = some superclass := by
  rcases declares with ⟨fuel, name, expr, methods, machine, middle, rfl, result, rfl⟩
  rcases occurs.enclosed with ⟨formed, ends⟩
  have stmtFormed : (Stmt.class_ name (some expr) methods).WellFormed := formed.task
  have exprFormed := (stmtFormed.2.1 expr rfl).wellFormed
  have between := ((keptAt fuel).evaluate expr exprFormed).of_ok formed.machine result
  rcases declareClass_spec between stmtFormed.1 (some superclass) stmtFormed.2.2 with
    ⟨later, succeeded, -, -, info, isClass, isSuperclass⟩
  have ended : execute (fuel + 1) (.class_ name (some expr) methods) machine =
      .ok .normal later := by
    have expected : expectClass (superclassLine name expr) (.classRef superclass) middle =
        .ok superclass middle := rfl
    rw [execute, bind_of_ok result, bind_of_ok expected, bind_of_ok succeeded]
    rfl
  rw [Moment.final, ended] at ends
  have same : (finalHeap sink clock units).classInfo ⟨middle.heap.classes.size⟩ = info :=
    Heap.classInfo_of_getElem? (ends.classes isClass)
  rw [same]
  exact isSuperclass

end Session

/-- `this` and `super` are bound lexically and immutably: wherever a session evaluates
them in a method that was obtained for a receiver, `this` is the receiver, and `super`
looks for a method from the class on that the superclass expression yielded when the class
of the method was declared, and binds it to the receiver. -/
theorem receivers_are_lexical (sink : Sink) (clock : Clock) (units : List (Nat × String))
    {moment : Moment} {receiver : Value} {declaring : ClassRef}
    (runs : RunsFor (Session.Occurs sink clock units) moment receiver declaring) :
    (∀ fuel id line machine, moment = ⟨fuel + 1, .evaluate (.this id line), machine⟩ →
      evaluate (fuel + 1) (.this id line) machine = .ok receiver machine) ∧
    (∀ fuel id line method machine,
      moment = ⟨fuel + 1, .evaluate (.super id line method), machine⟩ →
      ∃ superclass,
        (((Session.initial sink clock).runAll units).machine.heap.classInfo
          declaring).superclass = some superclass ∧
        (∀ earlier other, Session.Occurs sink clock units earlier →
          earlier.Declares declaring other → other = superclass) ∧
        evaluate (fuel + 1) (.super id line method) machine =
          match machine.heap.findMethod? superclass method.text with
          | some found => bindMethod found receiver machine
          | none => fail method.line (.undefinedProperty method.text) machine) := by
  rcases Session.receives_of_runsFor runs with ⟨occurs, receives⟩
  constructor
  · rintro fuel id line machine rfl
    rcases receives with ⟨distance, receives, sited⟩
    exact occurs.this_eq receives sited
  · rintro fuel id line method machine rfl
    rcases receives with ⟨distance, receives, sited⟩
    rcases occurs.superTarget_eq receives sited with ⟨superclass, isSuperclass, target⟩
    refine ⟨superclass, isSuperclass, ?_, Session.evaluate_super target⟩
    intro earlier other earlierOccurs declares
    have same := (earlierOccurs.superclass_eq declares).symm.trans isSuperclass
    cases same
    rfl

/-! ### An example -/

namespace NestedSuper

/-- A class with a method that calls its own function, which reads a method through
`super`, and a call of that method on a new object. -/
def source : String :=
  "class A \x7b m() \x7b \x7d \x7d " ++
    "class B < A \x7b m() \x7b fun f() \x7b super.m; \x7d f(); \x7d \x7d B().m();"

def base : Stmt :=
  .class_ ⟨"A", 1⟩ none [⟨⟨"m", 1⟩, [], []⟩]

def nested : FunctionDecl :=
  ⟨⟨"f", 1⟩, [], [.expression (.super 1 1 ⟨"m", 1⟩)]⟩

def callOfNested : Expr :=
  .call (.var 2 ⟨"f", 1⟩) 1 []

def derived : Stmt :=
  .class_ ⟨"B", 1⟩ (some (.var 0 ⟨"A", 1⟩))
    [⟨⟨"m", 1⟩, [], [.function nested, .expression callOfNested]⟩]

def property : Expr :=
  .get (.call (.var 3 ⟨"B", 1⟩) 1 []) ⟨"m", 1⟩

def program : List Stmt :=
  [base, derived, .expression (.call property 1 [])]

theorem accepted : (Session.initial .unlimited (.startingAt 0)).Accepts source program :=
  ⟨⟨4, by decide +kernel, by rw [scanTokens_eq]; cbv⟩, by decide +kernel⟩

/-- The machine when the last statement is executed. -/
def declared : Machine :=
  endState (execute 20 derived (endState (execute 20 base
    ((Session.initial .unlimited (.startingAt 0)).resolved program))))

/-- The machine when the method is called. -/
def called : Machine :=
  { endState (evaluate 18 property declared) with
    callDepth := (endState (evaluate 18 property declared)).callDepth + 1 }

/-- The machine when the body of the method is executed. -/
def inMethod : Machine :=
  { endState (openScope ∅ (some (called.heap.function ⟨0⟩).scope) called) with
    current := called.heap.scopes.nextRef }

/-- The machine when the nested function is called. -/
def calledAgain : Machine :=
  { endState (execute 15 (.function nested) inMethod) with
    callDepth := (endState (execute 15 (.function nested) inMethod)).callDepth + 1 }

/-- The machine when the body of the nested function is executed. -/
def inNested : Machine :=
  { endState (openScope ∅ (some (calledAgain.heap.function ⟨1⟩).scope) calledAgain) with
    current := calledAgain.heap.scopes.nextRef }

/-- The machine before the first statement. -/
abbrev start : Machine :=
  ((Session.initial .unlimited (.startingAt 0)).runAll []).resolved program

abbrev creation : Expr :=
  .call (.var 3 ⟨"B", 1⟩) 1 []

/-- What the program computes on the way to the body of the nested function. -/
theorem computed :
    value? (execute 20 base start) = some .normal ∧
      value? (execute 20 derived (endState (execute 20 base start))) = some .normal ∧
      value? (evaluate 17 creation declared) = some (.object ⟨0⟩) ∧
      ((endState (evaluate 17 creation declared)).heap.object ⟨0⟩).fields["m"]? = none ∧
      (endState (evaluate 17 creation declared)).heap.declarer?
        ((endState (evaluate 17 creation declared)).heap.object ⟨0⟩).ofClass "m" = some ⟨1⟩ ∧
      value? (evaluate 18 property declared) = some (.function ⟨0⟩) ∧
      value? (execute 15 (.function nested) inMethod) = some .normal ∧
      calledAgain.heap.scopes.own? inMethod.current "f" = some (.function ⟨1⟩) := by
  decide +kernel

abbrev Occurs : Moment → Prop :=
  Session.Occurs .unlimited (.startingAt 0) [(20, source)]

theorem occurs_last : Occurs ⟨19, .evaluate (.call property 1 []), declared⟩ := by
  refine ⟨[], 20, source, program, List.prefix_refl _, accepted, ?_⟩
  obtain ⟨baseResult, derivedResult, -⟩ := computed
  refine .head (.restOfProgram (eq_ok_of_value? .normal baseResult)) ?_
  refine .head (.restOfProgram (eq_ok_of_value? .normal derivedResult)) ?_
  exact .head .firstOfProgram (.head .expression .refl)

theorem obtained : evaluate 18 property declared =
    .ok (.function ⟨0⟩) (endState (evaluate 18 property declared)) := by
  obtain ⟨-, -, -, -, -, result, -⟩ := computed
  exact eq_ok_of_value? _ result

theorem occurs_called : Occurs ⟨18, .callValue (.function ⟨0⟩) [] 1, called⟩ := by
  have checked : checkCall (.function ⟨0⟩) 1 0 (endState (evaluate 18 property declared)) =
      .ok () (endState (evaluate 18 property declared)) := by with_unfolding_all rfl
  exact occurs_last.calls (.call obtained rfl checked)

theorem runs_method : RunsFor Occurs
    ⟨17, .callFunction (called.heap.function ⟨0⟩) [] 1, called⟩ (.object ⟨0⟩) ⟨1⟩ := by
  obtain ⟨-, -, result, noField, declarer, -⟩ := computed
  have instantiated : evaluate 17 creation declared =
      .ok (.object ⟨0⟩) (endState (evaluate 17 creation declared)) :=
    eq_ok_of_value? _ result
  exact .property (occurs_last.calls .callee) instantiated noField declarer obtained
    ⟨17, [], 1, called, occurs_called, rfl⟩

theorem runs_body :
    RunsFor Occurs ⟨16, .executeEach [.function nested, .expression callOfNested], inMethod⟩
      (.object ⟨0⟩) ⟨1⟩ := by
  have body : (called.heap.function ⟨0⟩).declaration =
      ⟨⟨"m", 1⟩, [], [.function nested, .expression callOfNested]⟩ := by
    with_unfolding_all rfl
  have entered := runs_method.inside (.functionBody rfl) nofun
  rw [body] at entered
  exact entered

theorem executed : execute 15 (.function nested) inMethod =
    .ok .normal (endState (execute 15 (.function nested) inMethod)) := by
  obtain ⟨-, -, -, -, -, -, result, -⟩ := computed
  exact eq_ok_of_value? _ result

theorem occurs_calledAgain : Occurs ⟨12, .callValue (.function ⟨1⟩) [] 1, calledAgain⟩ := by
  have read : evaluate 12 (.var 2 ⟨"f", 1⟩) (endState (execute 15 (.function nested) inMethod)) =
      .ok (.function ⟨1⟩) (endState (execute 15 (.function nested) inMethod)) := by
    with_unfolding_all rfl
  have checked : checkCall (.function ⟨1⟩) 1 0 (endState (execute 15 (.function nested) inMethod)) =
      .ok () (endState (execute 15 (.function nested) inMethod)) := by with_unfolding_all rfl
  have occurs := (Session.receives_of_runsFor runs_body).1
  have last := ((occurs.calls (.restStmts executed)).calls .firstStmt).calls .expression
  exact last.calls (.call read rfl checked)

theorem runs_nested : RunsFor Occurs
    ⟨8, .evaluate (.super 1 1 ⟨"m", 1⟩), inNested⟩ (.object ⟨0⟩) ⟨1⟩ := by
  have body : (calledAgain.heap.function ⟨1⟩).declaration = nested := by
    with_unfolding_all rfl
  have inside := runs_body.inside .firstStmt nofun
  obtain ⟨-, -, -, -, -, -, -, found⟩ := computed
  have again := RunsFor.nested inside executed found
    ⟨11, [], 1, calledAgain, occurs_calledAgain, rfl⟩
  have entered := again.inside (.functionBody rfl) nofun
  rw [body] at entered
  exact (entered.inside .firstStmt nofun).inside .expression nofun

end NestedSuper

theorem nestedSuper_is_lexical :
    RunsFor NestedSuper.Occurs ⟨8, .evaluate (.super 1 1 ⟨"m", 1⟩), NestedSuper.inNested⟩
        (.object ⟨0⟩) ⟨1⟩ ∧
      ∃ superclass,
        (((Session.initial .unlimited (.startingAt 0)).runAll
          [(20, NestedSuper.source)]).machine.heap.classInfo ⟨1⟩).superclass = some superclass ∧
        (∀ earlier other, NestedSuper.Occurs earlier →
          earlier.Declares ⟨1⟩ other → other = superclass) ∧
        evaluate 8 (.super 1 1 ⟨"m", 1⟩) NestedSuper.inNested =
          match NestedSuper.inNested.heap.findMethod? superclass "m" with
          | some found => bindMethod found (.object ⟨0⟩) NestedSuper.inNested
          | none => fail 1 (.undefinedProperty "m") NestedSuper.inNested :=
  ⟨NestedSuper.runs_nested,
    (receivers_are_lexical .unlimited (.startingAt 0) [(20, NestedSuper.source)]
      NestedSuper.runs_nested).2 7 1 1 ⟨"m", 1⟩ NestedSuper.inNested rfl⟩

end Lox
