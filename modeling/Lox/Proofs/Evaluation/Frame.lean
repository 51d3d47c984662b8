import Lox.Evaluation
import Lox.Proofs.Actions
import Lox.Proofs.Tables

/-!
# What every evaluation leaves alone

However an evaluation ends, it leaves the machine in the scope and at the call
depth in which it started, and does not touch the distances.  Scopes are only
added, keep the scope around them, and keep the names that they bind.
-/

namespace Lox

open Actions

/-! ## Scopes that grow -/

namespace Scopes

/-- Scopes were added, and the others have gained bindings. -/
structure Grows (scopes later : Scopes) : Prop where
  size : scopes.cells.size ≤ later.cells.size
  parent : ∀ {ref : ScopeRef}, ref.index < scopes.cells.size →
    later.parent? ref = scopes.parent? ref
  bound : ∀ {ref : ScopeRef} {name : String}, (scopes.own? ref name).isSome →
    (later.own? ref name).isSome

variable {scopes middle later : Scopes} {ref parent : ScopeRef} {name : String}

theorem lt_of_parent (linked : scopes.parent? ref = some parent) :
    ref.index < scopes.cells.size := by
  rcases Nat.lt_or_ge ref.index scopes.cells.size with present | outside
  · exact present
  · simp [parent?, Array.getElem?_eq_none outside] at linked

theorem lt_of_own (bound : (scopes.own? ref name).isSome) : ref.index < scopes.cells.size := by
  rcases Nat.lt_or_ge ref.index scopes.cells.size with present | outside
  · exact present
  · simp [own?, bindings, Array.getElem?_eq_none outside] at bound

theorem Grows.refl (scopes : Scopes) : Grows scopes scopes :=
  ⟨Nat.le_refl _, fun _ => rfl, id⟩

theorem Grows.trans (first : Grows scopes middle) (second : Grows middle later) :
    Grows scopes later where
  size := Nat.le_trans first.size second.size
  parent := by
    intro ref present
    have sizes := first.size
    rw [second.parent (by omega), first.parent present]
  bound := fun bound => second.bound (first.bound bound)

theorem Grows.parent_some (grows : Grows scopes later) (linked : scopes.parent? ref = some parent) :
    later.parent? ref = some parent := by
  rw [grows.parent (lt_of_parent linked), linked]

theorem Grows.ancestor (grows : Grows scopes later) {distance : Nat} {scope : ScopeRef}
    (found : scopes.ancestor? ref distance = some scope) :
    later.ancestor? ref distance = some scope := by
  induction distance generalizing ref with
  | zero => exact found
  | succ distance inductionHypothesis =>
      rw [ancestor?] at found ⊢
      cases linked : scopes.parent? ref with
      | none => simp [linked] at found
      | some parent =>
          rw [linked] at found
          rw [grows.parent_some linked]
          exact inductionHypothesis found

theorem define_size (scopes : Scopes) (ref : ScopeRef) (name : String) (value : Value) :
    (scopes.define ref name value).cells.size = scopes.cells.size := by
  simp [define]

theorem define_of_not_lt {scopes : Scopes} {ref : ScopeRef} (name : String) (value : Value)
    (outside : ¬ ref.index < scopes.cells.size) : scopes.define ref name value = scopes := by
  have unchanged : (scopes.define ref name value).cells = scopes.cells := by
    apply Array.ext_getElem?
    intro index
    simp only [define, Array.getElem?_modify]
    split
    next same =>
      subst same
      rw [Array.getElem?_eq_none (by omega)]
      rfl
    next => rfl
  cases scopes
  exact congrArg Scopes.mk unchanged

theorem own?_define_isSome (scopes : Scopes) (ref : ScopeRef) (name : String) (value : Value)
    {other : ScopeRef} {sought : String} (bound : (scopes.own? other sought).isSome) :
    ((scopes.define ref name value).own? other sought).isSome := by
  by_cases present : ref.index < scopes.cells.size
  · rw [own?_define scopes ref other name sought value present]
    split
    · rfl
    · exact bound
  · rw [define_of_not_lt name value present]
    exact bound

theorem grows_define (scopes : Scopes) (ref : ScopeRef) (name : String) (value : Value) :
    Grows scopes (scopes.define ref name value) where
  size := Nat.le_of_eq (define_size scopes ref name value).symm
  parent := fun _ => parent?_define scopes ref _ name value
  bound := own?_define_isSome scopes ref name value

theorem push_size (scopes : Scopes) (scope : Scope) :
    (scopes.push scope).cells.size = scopes.cells.size + 1 := by
  simp [push]

/-- A name that is bound in a new scope can as well be bound from the start. -/
theorem define_push (scopes : Scopes) (bindings : Bindings) (parent : Option ScopeRef)
    (name : String) (value : Value) :
    (scopes.push { bindings, parent }).define scopes.nextRef name value =
      scopes.push { bindings := bindings.insert name value, parent } := by
  have cells : ((scopes.push { bindings, parent }).define scopes.nextRef name value).cells =
      (scopes.push { bindings := bindings.insert name value, parent }).cells := by
    apply Array.ext_getElem?
    intro index
    simp only [define, push, nextRef, Array.getElem?_modify, Array.getElem?_push]
    split
    next same => simp [same]
    next different => rw [if_neg (Ne.symm different), if_neg (Ne.symm different)]
  exact congrArg Scopes.mk cells

theorem grows_push (scopes : Scopes) (scope : Scope) : Grows scopes (scopes.push scope) where
  size := by
    rw [push_size]
    omega
  parent := parent?_push_of_lt scopes scope
  bound := by
    intro ref name bound
    rw [own?_push_of_lt scopes scope (lt_of_own bound)]
    exact bound

end Scopes

theorem Heap.define_openScope (heap : Heap) (parent : Option ScopeRef) (name : String)
    (value : Value) :
    (heap.openScope parent).define heap.scopes.nextRef name value =
      { heap with
        scopes := heap.scopes.push { bindings := (∅ : Bindings).insert name value, parent } } := by
  rw [← Scopes.define_push]
  rfl

/-! ## Machines that grow -/

namespace Machine

/-- The machine is in the same scope and at the same depth of calls, with the same
distances, and its scopes have grown. -/
structure Grows (machine later : Machine) : Prop where
  current : later.current = machine.current
  globals : later.globals = machine.globals
  callDepth : later.callDepth = machine.callDepth
  callLimit : later.callLimit = machine.callLimit
  distances : later.distances = machine.distances
  scopes : machine.heap.scopes.Grows later.heap.scopes

theorem growsOrder : StepOrder Grows where
  refl _ := ⟨rfl, rfl, rfl, rfl, rfl, Scopes.Grows.refl _⟩
  trans first second :=
    ⟨second.current.trans first.current, second.globals.trans first.globals,
      second.callDepth.trans first.callDepth, second.callLimit.trans first.callLimit,
      second.distances.trans first.distances, first.scopes.trans second.scopes⟩

/-- A change of the heap alone. -/
theorem grows_heap {machine : Machine} {heap : Heap}
    (scopes : machine.heap.scopes.Grows heap.scopes) : Grows machine { machine with heap } :=
  ⟨rfl, rfl, rfl, rfl, rfl, scopes⟩

end Machine

/-! ## Single steps -/

namespace Eval

/-- However the action ends, the machine has grown. -/
abbrev Framed {α : Type} (action : Eval α) : Prop :=
  Respects Machine.Grows action

variable {α β : Type}

theorem framed_pure (value : α) : Framed (pure value : Eval α) :=
  Respects.pure Machine.growsOrder value

theorem framed_throw (interrupt : Interrupt) : Framed (throw interrupt : Eval α) :=
  Respects.throw Machine.growsOrder interrupt

theorem framed_fail (line : Nat) (fault : RuntimeFault) : Framed (fail line fault : Eval α) :=
  framed_throw _

theorem framed_get : Framed (get : Eval Machine) :=
  Respects.get Machine.growsOrder

theorem Framed.bind {first : Eval α} {next : α → Eval β} (firstFramed : Framed first)
    (nextFramed : ∀ value, Framed (next value)) : Framed (first >>= next) :=
  Respects.bind Machine.growsOrder firstFramed nextFramed

theorem framed_onHeap {action : Heap → Heap × α}
    (grows : ∀ heap : Heap, heap.scopes.Grows (action heap).1.scopes) :
    Framed (onHeap action) :=
  fun machine => Machine.grows_heap (grows machine.heap)

theorem framed_define (name : String) (value : Value) : Framed (define name value) :=
  fun machine => Machine.grows_heap
    (Scopes.grows_define machine.heap.scopes machine.current name value)

theorem framed_openScope (bindings : Bindings) (parent : Option ScopeRef) :
    Framed (openScope bindings parent) :=
  framed_onHeap fun heap => Scopes.grows_push heap.scopes _

theorem endState_within (scope : ScopeRef) (action : Eval α) (machine : Machine) :
    endState (within scope action machine) =
      { endState (action { machine with current := scope }) with current := machine.current } := by
  simp only [within]
  cases action { machine with current := scope } <;> rfl

theorem endState_counted (action : Eval α) (machine : Machine) :
    endState (counted action machine) =
      { endState (action { machine with callDepth := machine.callDepth + 1 }) with
        callDepth :=
          (endState (action { machine with callDepth := machine.callDepth + 1 })).callDepth - 1 } := by
  simp only [counted]
  cases action { machine with callDepth := machine.callDepth + 1 } <;> rfl

/-- A machine that has grown in another scope has grown when it returns from there. -/
theorem grows_return {machine later : Machine} {scope : ScopeRef}
    (grows : Machine.Grows { machine with current := scope } later) :
    machine.Grows { later with current := machine.current } :=
  ⟨rfl, grows.globals, grows.callDepth, grows.callLimit, grows.distances, grows.scopes⟩

/-- A call that was counted is not counted any more when it has ended. -/
theorem grows_uncount {machine later : Machine}
    (grows : Machine.Grows { machine with callDepth := machine.callDepth + 1 } later) :
    machine.Grows { later with callDepth := later.callDepth - 1 } := by
  have depth : later.callDepth = machine.callDepth + 1 := grows.callDepth
  exact ⟨grows.current, grows.globals, by simp [depth], grows.callLimit, grows.distances,
    grows.scopes⟩

theorem Framed.within {action : Eval α} (framed : Framed action) (scope : ScopeRef) :
    Framed (within scope action) := by
  intro machine
  rw [endState_within]
  exact grows_return (framed _)

theorem Framed.counted {action : Eval α} (framed : Framed action) : Framed (counted action) := by
  intro machine
  rw [endState_counted]
  exact grows_uncount (framed _)

theorem framed_checkDepth (line : Nat) : Framed (checkDepth line) :=
  framed_get.bind fun _ => Respects.ite (framed_fail _ _) (framed_pure _)

theorem framed_readVariable (id : UseId) (name : Name) : Framed (readVariable id name) := by
  intro machine
  unfold readVariable
  dsimp only
  repeat' split
  all_goals exact Machine.growsOrder.refl machine

theorem framed_writeVariable (id : UseId) (name : Name) (value : Value) :
    Framed (writeVariable id name value) := by
  refine framed_get.bind ?_
  intro machine
  split
  · exact framed_onHeap fun heap => Scopes.grows_define heap.scopes _ _ _
  · exact framed_fail _ _

theorem framed_newFunction (closure : Closure) : Framed (newFunction closure) :=
  (framed_onHeap fun heap => Scopes.Grows.refl heap.scopes).bind fun _ => framed_pure _

theorem grows_bind (heap : Heap) (method : Closure) (this : Value) :
    heap.scopes.Grows (heap.bind method this).1.scopes :=
  (Scopes.grows_push heap.scopes _).trans (Scopes.grows_define _ _ _ _)

theorem framed_bindMethod (method : Closure) (this : Value) : Framed (bindMethod method this) :=
  (framed_onHeap fun heap => grows_bind heap method this).bind fun _ => framed_newFunction _

theorem framed_getProperty (ref : ObjectRef) (name : Name) : Framed (getProperty ref name) := by
  refine framed_get.bind ?_
  intro machine
  dsimp only
  split
  · exact framed_pure _
  · split
    · exact framed_bindMethod _ _
    · exact framed_fail _ _

theorem framed_getSuper (id : UseId) (line : Nat) (method : Name) :
    Framed (getSuper id line method) := by
  refine framed_get.bind ?_
  intro machine
  split
  · split
    · exact framed_bindMethod _ _
    · exact framed_fail _ _
  · exact framed_fail _ _

theorem framed_callNative (native : Native) (arguments : List Value) (line : Nat) :
    Framed (callNative native arguments line) := by
  unfold callNative
  split
  · intro machine
    exact ⟨rfl, rfl, rfl, rfl, rfl, Scopes.Grows.refl _⟩
  · split
    · exact framed_pure _
    · exact framed_fail _ _

theorem framed_writeLine (text : String) : Framed (writeLine text) := by
  intro machine
  unfold writeLine
  dsimp only
  split
  · exact ⟨rfl, rfl, rfl, rfl, rfl, Scopes.Grows.refl _⟩
  · exact ⟨rfl, rfl, rfl, rfl, rfl, Scopes.Grows.refl _⟩

theorem framed_flush : Framed flush :=
  framed_get.bind fun _ => Respects.ite (framed_throw _) (framed_pure _)

/-! ## Declarations and calls -/

theorem framed_ofResult (line : Nat) (result : Except RuntimeFault Value) :
    Framed (ofResult line result) := by
  cases result with
  | ok value => exact framed_pure value
  | error fault => exact framed_fail line fault

theorem framed_declareFunction (declaration : FunctionDecl) :
    Framed (declareFunction declaration) :=
  framed_get.bind fun _ => (framed_newFunction _).bind fun _ => framed_define _ _

theorem framed_methodScope (superclass : Option ClassRef) : Framed (methodScope superclass) := by
  refine framed_get.bind ?_
  intro machine
  cases superclass with
  | none => exact framed_pure _
  | some ref => exact framed_openScope _ _

theorem framed_declareClass (name : Name) (superclass : Option ClassRef)
    (declarations : List FunctionDecl) : Framed (declareClass name superclass declarations) := by
  refine (framed_define _ _).bind fun _ => (framed_methodScope _).bind fun _ => ?_
  exact (framed_onHeap fun heap => Scopes.Grows.refl heap.scopes).bind fun _ => framed_define _ _

theorem framed_expectClass (line : Nat) (value : Value) : Framed (expectClass line value) := by
  unfold expectClass
  split
  · exact framed_pure _
  · exact framed_fail _ _

theorem framed_callResult (closure : Closure) (line : Nat) (flow : Flow) :
    Framed (callResult closure line flow) := by
  unfold callResult
  refine Respects.ite ?_ ?_
  · refine framed_get.bind ?_
    intro machine
    split
    · exact framed_pure _
    · exact framed_fail _ _
  · cases flow with
    | normal => exact framed_pure _
    | returned value => exact framed_pure _

theorem framed_checkCall (callee : Value) (line count : Nat) :
    Framed (checkCall callee line count) := by
  refine framed_get.bind ?_
  intro machine
  split
  · exact framed_fail _ _
  · refine Respects.ite ?_ (framed_checkDepth line)
    exact (framed_fail _ _).bind fun _ => framed_checkDepth line

end Eval

open Eval

/-! ## Evaluation -/

/-- Whatever is evaluated with the given fuel, the machine grows. -/
structure FramedAt (fuel : Nat) : Prop where
  evaluate : ∀ expr, Framed (evaluate fuel expr)
  evaluateEach : ∀ exprs, Framed (evaluateEach fuel exprs)
  callValue : ∀ callee arguments line, Framed (callValue fuel callee arguments line)
  callFunction : ∀ closure arguments line, Framed (callFunction fuel closure arguments line)
  execute : ∀ stmt, Framed (execute fuel stmt)
  executeEach : ∀ stmts, Framed (executeEach fuel stmts)
  executeWhile : ∀ condition body, Framed (executeWhile fuel condition body)

theorem framedAt_zero : FramedAt 0 where
  evaluate _ := framed_throw _
  evaluateEach _ := framed_throw _
  callValue _ _ _ := framed_throw _
  callFunction _ _ _ := framed_throw _
  execute _ := framed_throw _
  executeEach _ := framed_throw _
  executeWhile _ _ := framed_throw _

namespace FramedAt

variable {fuel : Nat}

theorem evaluate_succ (framed : FramedAt fuel) (expr : Expr) :
    Framed (Lox.evaluate (fuel + 1) expr) := by
  cases expr with
  | literal value =>
      exact framed_pure _
  | group inner => exact framed.evaluate inner
  | unary operator operand =>
      exact (framed.evaluate operand).bind fun _ => framed_ofResult _ _
  | binary left operator right =>
      refine (framed.evaluate left).bind fun _ => (framed.evaluate right).bind fun _ => ?_
      exact framed_ofResult _ _
  | logical left operator right =>
      refine (framed.evaluate left).bind fun _ => ?_
      exact Respects.ite (framed_pure _) (framed.evaluate right)
  | var id name =>
      exact framed_readVariable id name
  | assign id name value =>
      refine (framed.evaluate value).bind fun _ => ?_
      exact (framed_writeVariable id name _).bind fun _ => framed_pure _
  | call callee line arguments =>
      refine (framed.evaluate callee).bind fun _ => (framed.evaluateEach arguments).bind fun _ => ?_
      exact (framed_checkCall _ line _).bind fun _ => (framed.callValue _ _ line).counted
  | get object name =>
      refine (framed.evaluate object).bind ?_
      intro found
      split
      · exact framed_getProperty _ name
      · exact framed_fail _ _
  | set object name value =>
      refine (framed.evaluate object).bind ?_
      intro found
      split
      · refine (framed.evaluate value).bind fun _ => ?_
        exact (framed_onHeap fun heap => Scopes.Grows.refl heap.scopes).bind fun _ => framed_pure _
      · exact framed_fail _ _
  | this id line =>
      exact framed_readVariable id _
  | super id line method => exact framed_getSuper id line method

theorem evaluateEach_succ (framed : FramedAt fuel) (exprs : List Expr) :
    Framed (Lox.evaluateEach (fuel + 1) exprs) := by
  cases exprs with
  | nil =>
      exact framed_pure _
  | cons first rest =>
      refine (framed.evaluate first).bind fun _ => (framed.evaluateEach rest).bind fun _ => ?_
      exact framed_pure _

theorem callValue_succ (framed : FramedAt fuel) (callee : Value) (arguments : List Value)
    (line : Nat) : Framed (Lox.callValue (fuel + 1) callee arguments line) := by
  cases callee with
  | native ref =>
      exact framed_get.bind fun _ => framed_callNative _ _ _
  | function ref =>
      exact framed_get.bind fun _ => framed.callFunction _ _ _
  | classRef ref =>
      refine (framed_onHeap fun heap => Scopes.Grows.refl heap.scopes).bind fun _ => ?_
      refine framed_get.bind fun _ => ?_
      split
      · refine (framed_onHeap fun heap => grows_bind heap _ _).bind fun _ => ?_
        exact (framed.callFunction _ _ _).bind fun _ => framed_pure _
      · exact framed_pure _
  | _ => exact framed_fail _ _

theorem callFunction_succ (framed : FramedAt fuel) (closure : Closure) (arguments : List Value)
    (line : Nat) : Framed (Lox.callFunction (fuel + 1) closure arguments line) := by
  refine (framed_openScope _ _).bind fun scope => ?_
  exact ((framed.executeEach _).within scope).bind fun _ => framed_callResult _ _ _

theorem execute_succ (framed : FramedAt fuel) (stmt : Stmt) :
    Framed (Lox.execute (fuel + 1) stmt) := by
  cases stmt with
  | expression value =>
      exact (framed.evaluate value).bind fun _ => framed_pure _
  | print value =>
      refine (framed.evaluate value).bind fun _ => framed_get.bind fun _ => ?_
      exact (framed_writeLine _).bind fun _ => framed_pure _
  | var name initializer =>
      cases initializer with
      | none =>
          exact (framed_define _ _).bind fun _ => framed_pure _
      | some value =>
          refine (framed.evaluate value).bind fun _ => ?_
          exact (framed_define _ _).bind fun _ => framed_pure _
  | block body =>
      refine framed_get.bind fun _ => (framed_openScope _ _).bind fun scope => ?_
      exact (framed.executeEach body).within scope
  | if_ condition thenBranch elseBranch =>
      refine (framed.evaluate condition).bind fun _ => Respects.ite (framed.execute thenBranch) ?_
      cases elseBranch with
      | none => exact framed_pure _
      | some elseBranch => exact framed.execute elseBranch
  | while_ condition body =>
      exact framed.executeWhile condition body
  | function declaration =>
      exact (framed_declareFunction _).bind fun _ => framed_pure _
  | return_ line value =>
      cases value with
      | none =>
          exact framed_pure _
      | some value =>
          exact (framed.evaluate value).bind fun _ => framed_pure _
  | class_ name superclass methods =>
      cases superclass with
      | none =>
          exact (framed_declareClass _ _ _).bind fun _ => framed_pure _
      | some superclass =>
          refine (framed.evaluate superclass).bind fun _ => (framed_expectClass _ _).bind fun _ => ?_
          exact (framed_declareClass _ _ _).bind fun _ => framed_pure _

theorem executeEach_succ (framed : FramedAt fuel) (stmts : List Stmt) :
    Framed (Lox.executeEach (fuel + 1) stmts) := by
  cases stmts with
  | nil =>
      exact framed_pure _
  | cons first rest =>
      refine (framed.execute first).bind ?_
      intro flow
      cases flow with
      | returned value => exact framed_pure _
      | normal => exact framed.executeEach rest

theorem executeWhile_succ (framed : FramedAt fuel) (condition : Expr) (body : Stmt) :
    Framed (Lox.executeWhile (fuel + 1) condition body) := by
  refine (framed.evaluate condition).bind fun _ => Respects.ite ?_ (framed_pure _)
  refine (framed.execute body).bind ?_
  intro flow
  cases flow with
  | returned value => exact framed_pure _
  | normal => exact framed.executeWhile condition body

end FramedAt

theorem framedAt (fuel : Nat) : FramedAt fuel := by
  induction fuel with
  | zero => exact framedAt_zero
  | succ fuel inductionHypothesis =>
      exact {
        evaluate := inductionHypothesis.evaluate_succ
        evaluateEach := inductionHypothesis.evaluateEach_succ
        callValue := inductionHypothesis.callValue_succ
        callFunction := inductionHypothesis.callFunction_succ
        execute := inductionHypothesis.execute_succ
        executeEach := inductionHypothesis.executeEach_succ
        executeWhile := inductionHypothesis.executeWhile_succ }

theorem Eval.Framed.of_ok {α : Type} {action : Eval α} {machine middle : Machine} {value : α}
    (framed : Framed action) (succeeded : action machine = .ok value middle) :
    machine.Grows middle := by
  have grows := framed machine
  rw [succeeded] at grows
  exact grows

theorem framed_executeProgram (fuel : Nat) (program : List Stmt) :
    Framed (executeProgram fuel program) := by
  induction program with
  | nil => exact framed_flush
  | cons first rest inductionHypothesis =>
      exact ((framedAt fuel).execute first).bind fun _ => inductionHypothesis

end Lox
