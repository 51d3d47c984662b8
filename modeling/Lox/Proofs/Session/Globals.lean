import Lox.Proofs.Session.Agreement

/-!
# The globals of a unit

Only what a unit declares outside all local scopes adds globals: a recorded distance
never leads to the global scope, and an assignment without one takes a global that
is there.  A unit that runs to its end binds all that it declares there.
-/

namespace Lox

open Actions Eval

/-! ## The global scope -/

namespace Scopes

variable {scopes later : Scopes} {globals ref : ScopeRef}

/-- If there is such a scope, then it is left alone. -/
def Keeps (globals : ScopeRef) (scopes later : Scopes) : Prop :=
  globals.index < scopes.cells.size → globals.index < later.cells.size ∧
    ∀ name, later.own? globals name = scopes.own? globals name

theorem keeps_refl (globals : ScopeRef) (scopes : Scopes) : scopes.Keeps globals scopes :=
  fun present => ⟨present, fun _ => rfl⟩

theorem keeps_push (globals : ScopeRef) (scopes : Scopes) (scope : Scope) :
    scopes.Keeps globals (scopes.push scope) := by
  intro present
  refine ⟨?_, own?_push_of_lt scopes scope present⟩
  rw [push_size]
  exact Nat.lt_succ_of_lt present

theorem keeps_define (scopes : Scopes) (name : String) (value : Value) (other : ref ≠ globals) :
    scopes.Keeps globals (scopes.define ref name value) := by
  intro present
  refine ⟨?_, ?_⟩
  · rw [define_size]
    exact present
  · intro sought
    rw [own?, bindings_define_of_ne scopes name value (Ne.symm other), own?]

end Scopes

namespace Machine

/-- The name is bound in the global scope. -/
def HasGlobal (machine : Machine) (name : String) : Prop :=
  (machine.heap.scopes.own? machine.globals name).isSome

theorem mem_globalNames (machine : Machine) (name : String) :
    name ∈ machine.globalNames ↔ machine.HasGlobal name := by
  rw [globalNames, Scopes.names, Std.TreeMap.mem_keys, HasGlobal, Scopes.own?,
    Std.TreeMap.mem_iff_isSome_getElem?]

/-- There is a global scope. -/
def IsRooted (machine : Machine) : Prop :=
  machine.globals.index < machine.heap.scopes.cells.size

/-- Of the globals of the later machine, only the given names are new. -/
def Adds (names : String → Prop) (machine later : Machine) : Prop :=
  machine.IsRooted → later.IsRooted ∧
    ∀ name, later.HasGlobal name → machine.HasGlobal name ∨ names name

variable {names : String → Prop} {machine later : Machine}

theorem addsOrder : StepOrder (Adds names) where
  refl _ rooted := ⟨rooted, fun _ => .inl⟩
  trans := by
    intro machine middle later first second rooted
    rcases first rooted with ⟨middleRooted, firstNew⟩
    rcases second middleRooted with ⟨laterRooted, secondNew⟩
    refine ⟨laterRooted, ?_⟩
    intro name bound
    rcases secondNew name bound with before | isNew
    · exact firstNew name before
    · exact .inr isNew

theorem adds_of_keeps (sameGlobals : later.globals = machine.globals)
    (keeps : machine.heap.scopes.Keeps machine.globals later.heap.scopes) :
    machine.Adds names later := by
  intro rooted
  rcases keeps rooted with ⟨present, same⟩
  refine ⟨?_, ?_⟩
  · rw [IsRooted, sameGlobals]
    exact present
  · intro name bound
    rw [HasGlobal, sameGlobals, same] at bound
    exact .inl bound

/-- A name is bound in the global scope, or in another one. -/
theorem adds_define (ref : ScopeRef) (name : String) (value : Value)
    (known : ref = machine.globals → machine.HasGlobal name ∨ names name) :
    machine.Adds names { machine with heap := machine.heap.define ref name value } := by
  by_cases isGlobal : ref = machine.globals
  · subst isGlobal
    intro rooted
    refine ⟨?_, ?_⟩
    · exact Nat.lt_of_lt_of_eq rooted (Scopes.define_size _ _ _ _).symm
    · intro sought bound
      have entry := Scopes.own?_define machine.heap.scopes machine.globals machine.globals name
        sought value rooted
      change ((machine.heap.scopes.define _ name value).own? machine.globals sought).isSome at bound
      by_cases same : sought = name
      · rw [same]
        exact known rfl
      · rw [entry, if_neg fun both => same both.2] at bound
        exact .inl bound
  · exact adds_of_keeps rfl (Scopes.keeps_define _ name value isGlobal)

end Machine

open Machine (addsOrder adds_of_keeps adds_define)

/-! ## Single steps -/

section Steps

variable {names : String → Prop} {machine : Machine} {α β : Type}

/-- A sequence on a machine: what follows is run only if the first part succeeds. -/
theorem adds_bind {first : Eval α} {next : α → Eval β}
    (firstAdds : machine.Adds names (endState (first machine)))
    (nextAdds : ∀ {value middle}, first machine = .ok value middle →
      middle.Adds names (endState (next value middle))) :
    machine.Adds names (endState ((first >>= next) machine)) := by
  cases result : first machine with
  | ok value middle =>
      rw [result] at firstAdds
      rw [bind_of_ok result]
      exact addsOrder.trans firstAdds (nextAdds result)
  | error cause middle =>
      rw [result] at firstAdds
      rw [bind_of_error result]
      exact firstAdds

theorem adds_get {next : Machine → Eval α}
    (adds : machine.Adds names (endState (next machine machine))) :
    machine.Adds names (endState ((get >>= next) machine)) :=
  adds

/-- On any machine, the action adds no globals but the given names. -/
abbrev Eval.Global (names : String → Prop) (action : Eval α) : Prop :=
  Respects (Machine.Adds names) action

theorem global_pure (value : α) : Global names (pure value : Eval α) :=
  Respects.pure addsOrder value

theorem global_fail (line : Nat) (fault : RuntimeFault) :
    Global names (fail line fault : Eval α) :=
  Respects.throw addsOrder _

theorem global_get : Global names (get : Eval Machine) :=
  Respects.get addsOrder

theorem Eval.Global.bind {first : Eval α} {next : α → Eval β} (firstGlobal : Global names first)
    (nextGlobal : ∀ value, Global names (next value)) : Global names (first >>= next) :=
  Respects.bind addsOrder firstGlobal nextGlobal

theorem global_onHeap {action : Heap → Heap × α}
    (keeps : ∀ (heap : Heap) globals, heap.scopes.Keeps globals (action heap).1.scopes) :
    Global names (onHeap action) :=
  fun machine => adds_of_keeps rfl (keeps machine.heap machine.globals)

theorem global_openScope (bindings : Bindings) (parent : Option ScopeRef) :
    Global names (openScope bindings parent) :=
  global_onHeap fun heap globals => Scopes.keeps_push globals heap.scopes _

theorem adds_within {action : Eval α} {scope : ScopeRef}
    (adds : Machine.Adds names { machine with current := scope }
      (endState (action { machine with current := scope }))) :
    machine.Adds names (endState (within scope action machine)) := by
  rw [endState_within]
  exact adds

theorem adds_counted {action : Eval α}
    (adds : Machine.Adds names { machine with callDepth := machine.callDepth + 1 }
      (endState (action { machine with callDepth := machine.callDepth + 1 }))) :
    machine.Adds names (endState (counted action machine)) := by
  rw [endState_counted]
  exact adds

theorem global_readVariable (id : UseId) (name : Name) : Global names (readVariable id name) := by
  intro machine
  unfold readVariable
  dsimp only
  repeat' split
  all_goals exact addsOrder.refl machine

/-- An assignment adds no global if recorded distances lead to local scopes. -/
theorem adds_writeVariable {id : UseId} (name : Name) (value : Value)
    (isLocal : ∀ distance, machine.distances[id]? = some distance →
      ∃ ref, machine.heap.scopes.ancestor? machine.current distance = some ref ∧
        ref ≠ machine.globals) :
    machine.Adds names (endState (writeVariable id name value machine)) := by
  have target : ∀ scope, assignedScope? machine id name.text = some scope →
      scope = machine.globals → machine.HasGlobal name.text := by
    intro scope found isGlobal
    unfold assignedScope? at found
    cases recorded : machine.distances[id]? with
    | some distance =>
        rcases isLocal distance recorded with ⟨ref, linked, apart⟩
        rw [recorded] at found
        exact absurd ((Option.some.inj (linked.symm.trans found)).trans isGlobal) apart
    | none =>
        simp only [recorded] at found
        by_cases bound : (machine.heap.scopes.own? machine.globals name.text).isSome
        · exact bound
        · rw [if_neg bound] at found
          cases found
  apply adds_get
  cases assigned : assignedScope? machine id name.text with
  | none => exact global_fail _ _ machine
  | some scope =>
      exact adds_define scope name.text value fun isGlobal =>
        .inl (target scope assigned isGlobal)

theorem global_newFunction (closure : Closure) : Global names (newFunction closure) :=
  (global_onHeap fun heap globals => Scopes.keeps_refl globals heap.scopes).bind fun _ =>
    global_pure _

theorem global_bindHeap (method : Closure) (this : Value) :
    Global names (onHeap fun heap => heap.bind method this) := by
  apply global_onHeap
  intro heap globals
  have opened : (heap.bind method this).1.scopes = heap.scopes.push
      { bindings := (∅ : Bindings).insert "this" this, parent := some method.scope } :=
    congrArg Heap.scopes (heap.define_openScope (some method.scope) "this" this)
  rw [opened]
  exact Scopes.keeps_push globals heap.scopes _

theorem global_bindMethod (method : Closure) (this : Value) :
    Global names (bindMethod method this) :=
  (global_bindHeap method this).bind fun _ => global_newFunction _

theorem global_getProperty (ref : ObjectRef) (name : Name) :
    Global names (getProperty ref name) := by
  refine global_get.bind ?_
  intro machine
  dsimp only
  split
  · exact global_pure _
  · split
    · exact global_bindMethod _ _
    · exact global_fail _ _

theorem global_getSuper (id : UseId) (line : Nat) (method : Name) :
    Global names (getSuper id line method) := by
  refine global_get.bind ?_
  intro machine
  split
  · split
    · exact global_bindMethod _ _
    · exact global_fail _ _
  · exact global_fail _ _

theorem global_callNative (native : Native) (arguments : List Value) (line : Nat) :
    Global names (callNative native arguments line) := by
  unfold callNative
  split
  · intro machine
    exact adds_of_keeps rfl (Scopes.keeps_refl _ _)
  · split
    · exact global_pure _
    · exact global_fail _ _

theorem global_writeLine (text : String) : Global names (writeLine text) := by
  intro machine
  unfold writeLine
  dsimp only
  split
  · exact adds_of_keeps rfl (Scopes.keeps_refl _ _)
  · exact adds_of_keeps rfl (Scopes.keeps_refl _ _)

theorem global_flush : Global names flush :=
  global_get.bind fun _ => Respects.ite (Respects.throw addsOrder _) (global_pure _)

theorem global_ofResult (line : Nat) (result : Except RuntimeFault Value) :
    Global names (ofResult line result) := by
  cases result with
  | ok value => exact global_pure value
  | error fault => exact global_fail line fault

theorem global_expectClass (line : Nat) (value : Value) : Global names (expectClass line value) := by
  unfold expectClass
  split
  · exact global_pure _
  · exact global_fail _ _

theorem global_callResult (closure : Closure) (line : Nat) (flow : Flow) :
    Global names (callResult closure line flow) := by
  unfold callResult
  refine Respects.ite ?_ ?_
  · refine global_get.bind ?_
    intro machine
    split
    · exact global_pure _
    · exact global_fail _ _
  · cases flow with
    | normal => exact global_pure _
    | returned value => exact global_pure _

theorem global_checkCall (callee : Value) (line count : Nat) :
    Global names (checkCall callee line count) := by
  have depth : Global names (checkDepth line) :=
    global_get.bind fun _ => Respects.ite (global_fail _ _) (global_pure _)
  refine global_get.bind ?_
  intro machine
  split
  · exact global_fail _ _
  · refine Respects.ite ?_ depth
    exact (global_fail _ _).bind fun _ => depth

theorem global_methodScope (superclass : Option ClassRef) :
    Global names (methodScope superclass) := by
  refine global_get.bind ?_
  intro machine
  cases superclass with
  | none => exact global_pure _
  | some ref => exact global_openScope _ _

/-! ### Declarations -/

/-- What may be declared in the current scope may be declared there later. -/
theorem declarable_mono {middle : Machine} {name : String} (grows : machine.Grows middle)
    (declarable : machine.current = machine.globals → names name) :
    middle.current = middle.globals → names name := by
  rw [grows.current, grows.globals]
  exact declarable

theorem adds_defineHere {name : String}
    (declarable : machine.current = machine.globals → names name) (value : Value) :
    machine.Adds names (endState (define name value machine)) :=
  adds_define machine.current name value fun isGlobal => .inr (declarable isGlobal)

theorem adds_declareFunction {declaration : FunctionDecl}
    (declarable : machine.current = machine.globals → names declaration.name.text) :
    machine.Adds names (endState (declareFunction declaration machine)) := by
  refine adds_get (adds_bind (global_newFunction _ machine) ?_)
  intro value middle added
  exact adds_defineHere (declarable_mono ((framed_newFunction _).of_ok added) declarable) value

theorem adds_declareClass {name : Name}
    (declarable : machine.current = machine.globals → names name.text)
    (superclass : Option ClassRef) (declarations : List FunctionDecl) :
    machine.Adds names (endState (declareClass name superclass declarations machine)) := by
  refine adds_bind (adds_defineHere declarable .nil) ?_
  intro _ middle defined
  have inMiddle := declarable_mono ((framed_define _ _).of_ok defined) declarable
  refine adds_bind (global_methodScope superclass middle) ?_
  intro scope inner opened
  have inInner := declarable_mono ((framed_methodScope _).of_ok opened) inMiddle
  refine adds_bind (global_onHeap (fun heap globals => Scopes.keeps_refl globals heap.scopes) inner) ?_
  intro ref last added
  have grows : inner.Grows last :=
    (framed_onHeap fun heap => Scopes.Grows.refl heap.scopes).of_ok added
  exact adds_defineHere (declarable_mono grows inInner) _

end Steps

/-! ## Runs -/

/-- The moment is ready, and the distances of all known visits are recorded. -/
structure Moment.Poised (known : Visit → Prop) (moment : Moment) : Prop where
  ready : moment.Ready known
  recorded : ∀ visit, known visit → moment.machine.distances[visit.id]? = visit.use.distance

theorem Calls.poised {known : Visit → Prop} {first second : Moment} (calls : Calls first second)
    (poised : first.Poised known) : second.Poised known := by
  refine ⟨calls.ready poised.ready, ?_⟩
  rw [calls.distances]
  exact poised.recorded

/-- The recorded distance of an assignment leads to a local scope. -/
theorem Moment.Poised.isLocal {known : Visit → Prop} {fuel : Nat} {machine : Machine}
    {id : UseId} {name : Name} {value : Expr}
    (poised : Moment.Poised known ⟨fuel, .evaluate (.assign id name value), machine⟩)
    {distance : Nat} (recorded : machine.distances[id]? = some distance) :
    ∃ ref, machine.heap.scopes.ancestor? machine.current distance = some ref ∧
      ref ≠ machine.globals := by
  rcases poised.ready.task with ⟨-, tables, isInner, role, realizes, visited⟩
  have knows := visited ⟨id, name.text, .write, role.place tables isInner⟩ (by simp [Expr.visits])
  have found := (poised.recorded _ knows).symm.trans recorded
  rcases distance?_eq_some found with ⟨table, present, -⟩
  rcases role.place_scopes tables isInner present with ⟨realized, inChain, -⟩
  rcases realizes.ancestor inChain with ⟨ref, linked, apart, -⟩
  exact ⟨ref, linked, apart⟩

/-- What evaluations with the given fuel add to the globals: nothing, unless they
execute a declaration in the global scope. -/
structure AddsAt (known : Visit → Prop) (names : String → Prop) (fuel : Nat) : Prop where
  evaluate : ∀ {expr machine}, Moment.Poised known ⟨fuel, .evaluate expr, machine⟩ →
    machine.Adds names (endState (evaluate fuel expr machine))
  evaluateEach : ∀ {exprs machine}, Moment.Poised known ⟨fuel, .evaluateEach exprs, machine⟩ →
    machine.Adds names (endState (evaluateEach fuel exprs machine))
  callValue : ∀ {callee arguments line machine},
    Moment.Poised known ⟨fuel, .callValue callee arguments line, machine⟩ →
    machine.Adds names (endState (callValue fuel callee arguments line machine))
  callFunction : ∀ {closure arguments line machine},
    Moment.Poised known ⟨fuel, .callFunction closure arguments line, machine⟩ →
    machine.Adds names (endState (callFunction fuel closure arguments line machine))
  execute : ∀ {stmt machine}, Moment.Poised known ⟨fuel, .execute stmt, machine⟩ →
    (machine.current = machine.globals → ∀ declared ∈ stmt.declares?, names declared.text) →
    machine.Adds names (endState (execute fuel stmt machine))
  executeEach : ∀ {stmts machine}, Moment.Poised known ⟨fuel, .executeEach stmts, machine⟩ →
    machine.current ≠ machine.globals →
    machine.Adds names (endState (executeEach fuel stmts machine))
  executeWhile : ∀ {condition body machine},
    Moment.Poised known ⟨fuel, .executeWhile condition body, machine⟩ →
    machine.Adds names (endState (executeWhile fuel condition body machine))

variable {known : Visit → Prop} {names : String → Prop} {fuel : Nat} {machine : Machine}

theorem addsAt_zero : AddsAt known names 0 where
  evaluate _ := addsOrder.refl _
  evaluateEach _ := addsOrder.refl _
  callValue _ := addsOrder.refl _
  callFunction _ := addsOrder.refl _
  execute _ _ := addsOrder.refl _
  executeEach _ _ := addsOrder.refl _
  executeWhile _ := addsOrder.refl _

namespace AddsAt

variable (adds : AddsAt known names fuel)

include adds

theorem evaluate_succ {expr : Expr}
    (poised : Moment.Poised known ⟨fuel + 1, .evaluate expr, machine⟩) :
    machine.Adds names (endState (Lox.evaluate (fuel + 1) expr machine)) := by
  cases expr with
  | literal value => exact global_pure value.toValue machine
  | group inner => exact adds.evaluate (Calls.group.poised poised)
  | unary operator operand =>
      refine adds_bind (adds.evaluate (Calls.unary.poised poised)) fun _ => ?_
      exact global_ofResult _ _ _
  | binary left operator right =>
      refine adds_bind (adds.evaluate (Calls.binaryLeft.poised poised)) fun leftResult => ?_
      have right := (Calls.binaryRight leftResult).poised poised
      exact adds_bind (adds.evaluate right) fun _ => global_ofResult _ _ _
  | logical left operator right =>
      refine adds_bind (adds.evaluate (Calls.logicalLeft.poised poised)) ?_
      intro value middle leftResult
      cases decided : decidesLogical operator value with
      | true => exact global_pure value middle
      | false => exact adds.evaluate ((Calls.logicalRight leftResult decided).poised poised)
  | var id name => exact global_readVariable id name machine
  | assign id name value =>
      refine adds_bind (adds.evaluate (Calls.assign.poised poised)) ?_
      intro result middle valueResult
      have grows := ((framedAt fuel).evaluate value).of_ok valueResult
      refine adds_bind (adds_writeVariable name result ?_) fun _ => global_pure result _
      intro distance recorded
      rw [grows.distances] at recorded
      rcases poised.isLocal recorded with ⟨ref, linked, apart⟩
      rw [grows.current, grows.globals]
      exact ⟨ref, grows.scopes.ancestor linked, apart⟩
  | call callee line arguments =>
      refine adds_bind (adds.evaluate (Calls.callee.poised poised)) fun calleeResult => ?_
      have inArguments := (Calls.arguments calleeResult).poised poised
      refine adds_bind (adds.evaluateEach inArguments) fun argumentsResult => ?_
      refine adds_bind (global_checkCall _ line _ _) fun checkResult => adds_counted ?_
      exact adds.callValue ((Calls.call calleeResult argumentsResult checkResult).poised poised)
  | get object name =>
      refine adds_bind (adds.evaluate (Calls.getObject.poised poised)) ?_
      intro value middle _
      cases value with
      | object ref => exact global_getProperty ref name middle
      | _ => exact global_fail _ _ middle
  | set object name value =>
      refine adds_bind (adds.evaluate (Calls.setObject.poised poised)) ?_
      intro target middle objectResult
      cases target with
      | object ref =>
          have inValue := (Calls.setValue objectResult).poised poised
          refine adds_bind (adds.evaluate inValue) ?_
          intro result last _
          have set : Global names (onHeap fun heap => (heap.setField ref name.text result, ())) :=
            global_onHeap fun heap globals => Scopes.keeps_refl globals heap.scopes
          exact adds_bind (set last) fun _ => global_pure result _
      | _ => exact global_fail _ _ middle
  | this id line => exact global_readVariable id _ machine
  | super id line method => exact global_getSuper id line method machine

theorem evaluateEach_succ {exprs : List Expr}
    (poised : Moment.Poised known ⟨fuel + 1, .evaluateEach exprs, machine⟩) :
    machine.Adds names (endState (Lox.evaluateEach (fuel + 1) exprs machine)) := by
  cases exprs with
  | nil => exact global_pure _ machine
  | cons first rest =>
      refine adds_bind (adds.evaluate (Calls.firstExpr.poised poised)) fun firstResult => ?_
      have inRest := (Calls.restExprs firstResult).poised poised
      exact adds_bind (adds.evaluateEach inRest) fun _ => global_pure _ _

theorem callValue_succ {callee : Value} {arguments : List Value} {line : Nat}
    (poised : Moment.Poised known ⟨fuel + 1, .callValue callee arguments line, machine⟩) :
    machine.Adds names (endState (Lox.callValue (fuel + 1) callee arguments line machine)) := by
  cases callee with
  | native ref => exact global_callNative _ arguments line machine
  | function ref => exact adds.callFunction (Calls.function.poised poised)
  | classRef ref =>
      have added : Global names (onHeap fun heap => heap.addObject ref) :=
        global_onHeap fun heap globals => Scopes.keeps_refl globals heap.scopes
      refine adds_bind (added machine) ?_
      intro object middle addResult
      apply adds_get
      cases found : middle.heap.findMethod? ref "init" with
      | none => exact global_pure _ middle
      | some initializer =>
          refine adds_bind (global_bindHeap initializer (.object object) middle) ?_
          intro bound later bindResult
          have inCall := (Calls.initializer addResult found bindResult).poised poised
          exact adds_bind (adds.callFunction inCall) fun _ => global_pure _ _
  | _ => exact global_fail _ _ machine

omit adds in
/-- A scope that was just opened is not the global one. -/
theorem opened_ne_globals {bindings : Bindings} {parent : Option ScopeRef} {scope : ScopeRef}
    {middle : Machine} (rooted : machine.IsRooted)
    (opened : openScope bindings parent machine = .ok scope middle) :
    scope ≠ middle.globals := by
  cases opened
  rintro isGlobal
  have sameIndex : machine.heap.scopes.cells.size = machine.globals.index :=
    congrArg ScopeRef.index isGlobal
  exact Nat.lt_irrefl _ (Nat.lt_of_lt_of_eq rooted sameIndex)

theorem callFunction_succ {closure : Closure} {arguments : List Value} {line : Nat}
    (poised : Moment.Poised known ⟨fuel + 1, .callFunction closure arguments line, machine⟩) :
    machine.Adds names
      (endState (Lox.callFunction (fuel + 1) closure arguments line machine)) := by
  refine adds_bind (global_openScope _ _ machine) ?_
  intro scope middle opened
  have isLocal := opened_ne_globals poised.ready.faithful.present opened
  have inBody := adds.executeEach ((Calls.functionBody opened).poised poised) isLocal
  exact adds_bind (adds_within inBody) fun _ => global_callResult closure line _ _

/-- A branch or the body of a loop, which is no declaration. -/
theorem executeBranch {stmt : Stmt} (poised : Moment.Poised known ⟨fuel, .execute stmt, machine⟩)
    (noDeclaration : stmt.declares? = none) :
    machine.Adds names (endState (Lox.execute fuel stmt machine)) := by
  apply adds.execute poised
  intro _ declared isDeclared
  rw [noDeclaration] at isDeclared
  cases isDeclared

theorem execute_succ {stmt : Stmt}
    (poised : Moment.Poised known ⟨fuel + 1, .execute stmt, machine⟩)
    (declarable : machine.current = machine.globals →
      ∀ declared ∈ stmt.declares?, names declared.text) :
    machine.Adds names (endState (Lox.execute (fuel + 1) stmt machine)) := by
  cases stmt with
  | expression value =>
      exact adds_bind (adds.evaluate (Calls.expression.poised poised)) fun _ => global_pure _ _
  | print value =>
      refine adds_bind (adds.evaluate (Calls.print.poised poised)) ?_
      intro result middle _
      exact adds_get (adds_bind (global_writeLine _ middle) fun _ => global_pure _ _)
  | var name initializer =>
      have here : machine.current = machine.globals → names name.text :=
        fun atGlobals => declarable atGlobals name rfl
      cases initializer with
      | none => exact adds_bind (adds_defineHere here .nil) fun _ => global_pure _ _
      | some value =>
          refine adds_bind (adds.evaluate (Calls.var.poised poised)) ?_
          intro result middle valueResult
          have grows := ((framedAt fuel).evaluate value).of_ok valueResult
          exact adds_bind (adds_defineHere (declarable_mono grows here) result) fun _ =>
            global_pure _ _
  | block body =>
      refine adds_get (adds_bind (global_openScope ∅ (some machine.current) machine) ?_)
      intro scope middle opened
      have isLocal := opened_ne_globals poised.ready.faithful.present opened
      exact adds_within (adds.executeEach ((Calls.block opened).poised poised) isLocal)
  | if_ condition thenBranch elseBranch =>
      rcases poised.ready.task with ⟨formed, -⟩
      refine adds_bind (adds.evaluate (Calls.ifCondition.poised poised)) ?_
      intro value middle conditionResult
      cases truthy : value.isTruthy with
      | true =>
          have inThen := (Calls.thenBranch conditionResult truthy).poised poised
          cases elseBranch with
          | none => exact adds.executeBranch inThen formed.2.2
          | some elseBranch => exact adds.executeBranch inThen formed.2.1.2
      | false =>
          cases elseBranch with
          | none => exact global_pure _ middle
          | some elseBranch =>
              have inElse := (Calls.elseBranch conditionResult truthy).poised poised
              exact adds.executeBranch inElse formed.2.2.2
  | while_ condition body => exact adds.executeWhile (Calls.loop.poised poised)
  | function declaration =>
      have here : machine.current = machine.globals → names declaration.name.text :=
        fun atGlobals => declarable atGlobals declaration.name rfl
      exact adds_bind (adds_declareFunction here) fun _ => global_pure _ _
  | return_ line value =>
      cases value with
      | none => exact global_pure _ machine
      | some value =>
          exact adds_bind (adds.evaluate (Calls.return_.poised poised)) fun _ => global_pure _ _
  | class_ name superclass methods =>
      have here : machine.current = machine.globals → names name.text :=
        fun atGlobals => declarable atGlobals name rfl
      cases superclass with
      | none => exact adds_bind (adds_declareClass here none methods) fun _ => global_pure _ _
      | some superclass =>
          refine adds_bind (adds.evaluate (Calls.superclass.poised poised)) ?_
          intro value middle superclassResult
          have grows := ((framedAt fuel).evaluate superclass).of_ok superclassResult
          refine adds_bind (global_expectClass _ value middle) ?_
          intro parent last expected
          have grows' := (framed_expectClass _ _).of_ok expected
          have later := declarable_mono grows' (declarable_mono grows here)
          exact adds_bind (adds_declareClass later (some parent) methods) fun _ => global_pure _ _

theorem executeEach_succ {stmts : List Stmt}
    (poised : Moment.Poised known ⟨fuel + 1, .executeEach stmts, machine⟩)
    (isLocal : machine.current ≠ machine.globals) :
    machine.Adds names (endState (Lox.executeEach (fuel + 1) stmts machine)) := by
  cases stmts with
  | nil => exact global_pure _ machine
  | cons first rest =>
      have inFirst := adds.execute (Calls.firstStmt.poised poised)
        fun atGlobals => absurd atGlobals isLocal
      refine adds_bind inFirst ?_
      intro flow middle firstResult
      cases flow with
      | returned value => exact global_pure _ middle
      | normal =>
          have grows := ((framedAt fuel).execute first).of_ok firstResult
          refine adds.executeEach ((Calls.restStmts firstResult).poised poised) ?_
          rw [grows.current, grows.globals]
          exact isLocal

theorem executeWhile_succ {condition : Expr} {body : Stmt}
    (poised : Moment.Poised known ⟨fuel + 1, .executeWhile condition body, machine⟩) :
    machine.Adds names (endState (Lox.executeWhile (fuel + 1) condition body machine)) := by
  rcases poised.ready.task with ⟨⟨-, -, noDeclaration⟩, -⟩
  refine adds_bind (adds.evaluate (Calls.loopCondition.poised poised)) ?_
  intro value middle conditionResult
  cases truthy : value.isTruthy with
  | false => exact global_pure _ middle
  | true =>
      have inBody := (Calls.loopBody conditionResult truthy).poised poised
      refine adds_bind (adds.executeBranch inBody noDeclaration) ?_
      intro flow last bodyResult
      cases flow with
      | returned value => exact global_pure _ last
      | normal =>
          exact adds.executeWhile ((Calls.loopAgain conditionResult truthy bodyResult).poised poised)

end AddsAt

theorem addsAt (known : Visit → Prop) (names : String → Prop) (fuel : Nat) :
    AddsAt known names fuel := by
  induction fuel with
  | zero => exact addsAt_zero
  | succ fuel inductionHypothesis =>
      exact {
        evaluate := inductionHypothesis.evaluate_succ
        evaluateEach := inductionHypothesis.evaluateEach_succ
        callValue := inductionHypothesis.callValue_succ
        callFunction := inductionHypothesis.callFunction_succ
        execute := inductionHypothesis.execute_succ
        executeEach := inductionHypothesis.executeEach_succ
        executeWhile := inductionHypothesis.executeWhile_succ }

/-! ## Programs -/

/-- A program adds no globals but what it declares. -/
theorem adds_executeProgram {program : List Stmt}
    (poised : Moment.Poised known ⟨fuel, .executeProgram program, machine⟩)
    (declarable : ∀ name ∈ Stmt.declaredNames program, names name) :
    machine.Adds names (endState (executeProgram fuel program machine)) := by
  induction program generalizing machine with
  | nil => exact global_flush machine
  | cons first rest inductionHypothesis =>
      have inFirst := (addsAt known names fuel).execute (Calls.firstOfProgram.poised poised)
        fun _ declared isDeclared =>
          declarable _ (Stmt.mem_declaredNames_cons.mpr (.inl ⟨declared, isDeclared, rfl⟩))
      refine adds_bind inFirst fun firstResult => ?_
      apply inductionHypothesis ((Calls.restOfProgram firstResult).poised poised)
      intro name member
      exact declarable name (Stmt.mem_declaredNames_cons.mpr (.inr member))

/-! ## Programs that run to their end -/

namespace Machine

/-- The machine is in its global scope. -/
structure AtRoot (machine : Machine) : Prop where
  rooted : machine.IsRooted
  current : machine.current = machine.globals

variable {machine later : Machine}

theorem Grows.atRoot (grows : machine.Grows later) (atRoot : machine.AtRoot) : later.AtRoot := by
  refine ⟨?_, ?_⟩
  · rw [IsRooted, grows.globals]
    exact Nat.lt_of_lt_of_le atRoot.rooted grows.scopes.size
  · rw [grows.current, grows.globals, atRoot.current]

theorem Grows.hasGlobal (grows : machine.Grows later) {name : String}
    (bound : machine.HasGlobal name) : later.HasGlobal name := by
  rw [HasGlobal, grows.globals]
  exact grows.scopes.bound bound

theorem AtRoot.hasGlobal (atRoot : machine.AtRoot) {name : String} {value : Value}
    (defined : define name value machine = .ok () later) : later.HasGlobal name := by
  cases defined
  have entry := Scopes.own?_define machine.heap.scopes machine.current machine.globals name name
    value (by rw [atRoot.current]; exact atRoot.rooted)
  rw [if_pos ⟨atRoot.current.symm, rfl⟩] at entry
  exact Option.isSome_of_eq_some entry

end Machine

section Completed

variable {middle final : Machine}

theorem hasGlobal_declareFunction (atRoot : machine.AtRoot) {declaration : FunctionDecl}
    (declared : declareFunction declaration machine = .ok () final) :
    final.HasGlobal declaration.name.text := by
  rcases bind_eq_ok_iff.mp declared with ⟨current, _, read, rest⟩
  cases read
  rcases bind_eq_ok_iff.mp rest with ⟨value, middle, added, defined⟩
  exact (((framed_newFunction _).of_ok added).atRoot atRoot).hasGlobal defined

theorem hasGlobal_declareClass (atRoot : machine.AtRoot) {name : Name}
    {superclass : Option ClassRef} {declarations : List FunctionDecl}
    (declared : declareClass name superclass declarations machine = .ok () final) :
    final.HasGlobal name.text := by
  rcases bind_eq_ok_iff.mp declared with ⟨_, first, announced, rest⟩
  rcases bind_eq_ok_iff.mp rest with ⟨scope, second, opened, rest⟩
  rcases bind_eq_ok_iff.mp rest with ⟨ref, third, added, defined⟩
  have atFirst := ((framed_define _ _).of_ok announced).atRoot atRoot
  have atSecond := ((framed_methodScope _).of_ok opened).atRoot atFirst
  have grows : second.Grows third :=
    (framed_onHeap fun heap => Scopes.Grows.refl heap.scopes).of_ok added
  exact (grows.atRoot atSecond).hasGlobal defined

/-- A declaration that was executed in the global scope is bound there. -/
theorem hasGlobal_execute (atRoot : machine.AtRoot) {stmt : Stmt} {flow : Flow}
    (executed : execute fuel stmt machine = .ok flow final) {declared : Name}
    (isDeclared : declared ∈ stmt.declares?) : final.HasGlobal declared.text := by
  cases fuel with
  | zero => cases executed
  | succ fuel =>
      cases stmt with
      | var name initializer =>
          cases isDeclared
          cases initializer with
          | none =>
              rcases bind_eq_ok_iff.mp executed with ⟨_, last, defined, ended⟩
              rcases pure_eq_ok_iff.mp ended with ⟨-, rfl⟩
              exact atRoot.hasGlobal defined
          | some value =>
              rcases bind_eq_ok_iff.mp executed with ⟨result, middle, evaluated, rest⟩
              rcases bind_eq_ok_iff.mp rest with ⟨_, last, defined, ended⟩
              rcases pure_eq_ok_iff.mp ended with ⟨-, rfl⟩
              have grows := ((framedAt fuel).evaluate value).of_ok evaluated
              exact (grows.atRoot atRoot).hasGlobal defined
      | function declaration =>
          cases isDeclared
          rcases bind_eq_ok_iff.mp executed with ⟨_, last, declared, ended⟩
          rcases pure_eq_ok_iff.mp ended with ⟨-, rfl⟩
          exact hasGlobal_declareFunction atRoot declared
      | class_ name superclass methods =>
          cases isDeclared
          cases superclass with
          | none =>
              rcases bind_eq_ok_iff.mp executed with ⟨_, last, declared, ended⟩
              rcases pure_eq_ok_iff.mp ended with ⟨-, rfl⟩
              exact hasGlobal_declareClass atRoot declared
          | some superclass =>
              rcases bind_eq_ok_iff.mp executed with ⟨value, middle, evaluated, rest⟩
              rcases bind_eq_ok_iff.mp rest with ⟨parent, later, expected, rest⟩
              rcases bind_eq_ok_iff.mp rest with ⟨_, last, declared, ended⟩
              rcases pure_eq_ok_iff.mp ended with ⟨-, rfl⟩
              have grows := ((framedAt fuel).evaluate superclass).of_ok evaluated
              have grows' := (framed_expectClass _ _).of_ok expected
              exact hasGlobal_declareClass (grows'.atRoot (grows.atRoot atRoot)) declared
      | _ => cases isDeclared

/-- A program that runs to its end binds what it declares. -/
theorem hasGlobal_executeProgram {program : List Stmt} (atRoot : machine.AtRoot)
    (executed : executeProgram fuel program machine = .ok () final) {name : String}
    (member : name ∈ Stmt.declaredNames program) : final.HasGlobal name := by
  induction program generalizing machine with
  | nil => cases member
  | cons first rest inductionHypothesis =>
      rcases bind_eq_ok_iff.mp executed with ⟨flow, middle, firstExecuted, restExecuted⟩
      have grows := ((framedAt fuel).execute first).of_ok firstExecuted
      have restGrows := (framed_executeProgram fuel rest).of_ok restExecuted
      rcases Stmt.mem_declaredNames_cons.mp member with ⟨declared, isDeclared, rfl⟩ | inRest
      · exact restGrows.hasGlobal (hasGlobal_execute atRoot firstExecuted isDeclared)
      · exact inductionHypothesis (grows.atRoot atRoot) restExecuted inRest

end Completed

/-- After a unit that ran to its end, the globals are those from before and those that
it declares. -/
theorem Session.Takes.mem_globalNames {session : Session} {origin : Visit → Prop}
    {program : List Stmt} {nextId : UseId} {final : Machine}
    (takes : session.Takes program nextId) (settled : session.Settled origin)
    (clean : (resolveProgram session.machine.globalNames program).errors = [])
    (executed : executeProgram fuel program (session.resolved program) = .ok () final)
    (name : String) :
    name ∈ final.globalNames ↔
      name ∈ session.machine.globalNames ∨ name ∈ Stmt.declaredNames program := by
  have rooted : (session.resolved program).IsRooted := settled.faithful.present
  have poised : Moment.Poised
      (Knows (session.WithUnit origin program) (session.resolved program).distances nextId)
      ⟨fuel, .executeProgram program, session.resolved program⟩ :=
    ⟨takes.ready settled clean fuel, fun _ knows => knows.recorded⟩
  rw [Machine.mem_globalNames, Machine.mem_globalNames]
  constructor
  · intro bound
    have adds := adds_executeProgram poised fun _ => id
    rw [executed] at adds
    exact (adds rooted).2 name bound
  · rintro (before | declared)
    · exact ((framed_executeProgram fuel program).of_ok executed).hasGlobal before
    · exact hasGlobal_executeProgram ⟨rooted, settled.atGlobals⟩ executed declared

end Lox
