import Lox.Proofs.Evaluation.Stepwise
import Lox.Proofs.Objects.Declarations

/-!
# Laws for functions

A law says which declarations may become functions, and which of them may be
initializers.  If all code that is executed obeys a law, and the bodies of lawful
functions do so again, then every function and method on the heap is lawful at
every moment of a run.
-/

namespace Lox

open Actions Eval Timeline

/-- Whether a declaration may become a function; the flag says whether as an
initializer. -/
abbrev FunctionLaw :=
  Bool → FunctionDecl → Prop

/-! ## Lawful code -/

namespace Stmt

mutual

/-- What the execution of the statement can declare itself is lawful. -/
def Obeys (law : FunctionLaw) : Stmt → Prop
  | .expression _ => True
  | .print _ => True
  | .var _ _ => True
  | .block body => ObeysEach law body
  | .if_ _ thenBranch none => thenBranch.Obeys law
  | .if_ _ thenBranch (some elseBranch) => thenBranch.Obeys law ∧ elseBranch.Obeys law
  | .while_ _ body => body.Obeys law
  | .function declaration => law false declaration
  | .return_ _ _ => True
  | .class_ _ _ methods => ∀ method ∈ methods, law (method.name.text = "init") method

/-- What the statements can declare themselves is lawful. -/
def ObeysEach (law : FunctionLaw) : List Stmt → Prop
  | [] => True
  | first :: rest => first.Obeys law ∧ ObeysEach law rest

end

theorem Obeys.thenBranch {law : FunctionLaw} {condition : Expr} {thenBranch : Stmt}
    {elseBranch : Option Stmt} (obeys : (Stmt.if_ condition thenBranch elseBranch).Obeys law) :
    thenBranch.Obeys law := by
  cases elseBranch with
  | none => exact obeys
  | some elseBranch => exact obeys.1

end Stmt

/-- Bodies of lawful functions declare lawful functions. -/
structure FunctionLaw.Hereditary (law : FunctionLaw) : Prop where
  body : ∀ {isInitializer : Bool} {declaration : FunctionDecl}, law isInitializer declaration →
    Stmt.ObeysEach law declaration.body
  /-- References that point to nothing are read as this function. -/
  default : law false default

/-- The function was declared in accordance with the law. -/
def Closure.Obeys (law : FunctionLaw) (closure : Closure) : Prop :=
  law closure.isInitializer closure.declaration

/-- What the task executes, or the function it calls, is lawful. -/
def Task.Obeys (law : FunctionLaw) : Task → Prop
  | .evaluate _ => True
  | .evaluateEach _ => True
  | .callValue _ _ _ => True
  | .callFunction closure _ _ => closure.Obeys law
  | .execute stmt => stmt.Obeys law
  | .executeEach stmts => Stmt.ObeysEach law stmts
  | .executeWhile _ body => body.Obeys law
  | .executeProgram program => Stmt.ObeysEach law program

/-! ## Lawful heaps -/

/-- The function or method is on the heap. -/
inductive Heap.Stores (heap : Heap) (closure : Closure) : Prop where
  | function : closure ∈ heap.functions → heap.Stores closure
  | method {info : ClassInfo} {name : String} : info ∈ heap.classes →
      info.methods[name]? = some closure → heap.Stores closure

/-- All functions and methods on the heap are lawful. -/
def Heap.Obeys (law : FunctionLaw) (heap : Heap) : Prop :=
  ∀ closure, heap.Stores closure → closure.Obeys law

namespace Heap

variable {law : FunctionLaw} {heap : Heap}

/-- Only the functions and classes count. -/
theorem Obeys.of_same {later : Heap} (obeys : heap.Obeys law)
    (functions : later.functions = heap.functions) (classes : later.classes = heap.classes) :
    later.Obeys law := by
  intro closure stored
  cases stored with
  | function member => exact obeys closure (.function (functions ▸ member))
  | method member found => exact obeys closure (.method (classes ▸ member) found)

theorem Obeys.addFunction (obeys : heap.Obeys law) {closure : Closure}
    (lawful : closure.Obeys law) : (heap.addFunction closure).1.Obeys law := by
  intro other stored
  cases stored with
  | function member =>
      rcases Array.mem_push.mp member with old | rfl
      · exact obeys other (.function old)
      · exact lawful
  | method member found => exact obeys other (.method member found)

theorem Obeys.addClass (obeys : heap.Obeys law) {info : ClassInfo}
    (lawful : ∀ (name : String) (method : Closure), info.methods[name]? = some method →
      method.Obeys law) : (heap.addClass info).1.Obeys law := by
  intro other stored
  cases stored with
  | function member => exact obeys other (.function member)
  | method member found =>
      rcases Array.mem_push.mp member with old | rfl
      · exact obeys other (.method old found)
      · exact lawful _ other found

theorem Obeys.function (obeys : heap.Obeys law) (hereditary : law.Hereditary)
    (ref : FunctionRef) : (heap.function ref).Obeys law := by
  cases found : heap.functions[ref.index]? with
  | some closure =>
      rw [function_of_getElem? found]
      exact obeys closure (.function (Array.mem_of_getElem? found))
  | none =>
      rw [Heap.function, Array.getD_eq_getD_getElem?, found]
      exact hereditary.default

theorem stores_of_findMethod? {ref : ClassRef} {name : String} {method : Closure}
    (found : heap.findMethod? ref name = some method) : heap.Stores method := by
  rw [findMethod?_eq, Option.bind_eq_some_iff] at found
  rcases found with ⟨declarer, -, isMethod⟩
  exact .method (Array.mem_of_getElem? (getElem?_classes isMethod)) isMethod

theorem Obeys.findMethod (obeys : heap.Obeys law) {ref : ClassRef} {name : String}
    {method : Closure} (found : heap.findMethod? ref name = some method) : method.Obeys law :=
  obeys method (stores_of_findMethod? found)

end Heap

/-- The machine and what is to be done at the moment are lawful. -/
structure Moment.Obeys (law : FunctionLaw) (moment : Moment) : Prop where
  heap : moment.machine.heap.Obeys law
  task : moment.task.Obeys law

/-! ## Steps that declare nothing -/

/-- The functions and classes are the same. -/
structure Machine.SameCode (machine later : Machine) : Prop where
  functions : later.heap.functions = machine.heap.functions
  classes : later.heap.classes = machine.heap.classes

theorem Machine.sameCodeOrder : StepOrder Machine.SameCode where
  refl _ := ⟨rfl, rfl⟩
  trans first second :=
    ⟨second.functions.trans first.functions, second.classes.trans first.classes⟩

/-- The action neither adds functions nor classes. -/
abbrev Eval.AddsNoCode {α : Type} (action : Eval α) : Prop :=
  Respects Machine.SameCode action

namespace Eval

variable {α β : Type}

theorem addsNoCode_pure (value : α) : AddsNoCode (pure value : Eval α) :=
  Respects.pure Machine.sameCodeOrder value

theorem addsNoCode_fail (line : Nat) (fault : RuntimeFault) :
    AddsNoCode (fail line fault : Eval α) :=
  Respects.throw Machine.sameCodeOrder _

theorem AddsNoCode.bind {first : Eval α} {next : α → Eval β} (firstAdds : AddsNoCode first)
    (nextAdds : ∀ value, AddsNoCode (next value)) : AddsNoCode (first >>= next) :=
  Respects.bind Machine.sameCodeOrder firstAdds nextAdds

theorem addsNoCode_get {next : Machine → Eval α} (adds : ∀ machine, AddsNoCode (next machine)) :
    AddsNoCode (get >>= next) :=
  (Respects.get Machine.sameCodeOrder).bind Machine.sameCodeOrder adds

theorem addsNoCode_define (name : String) (value : Value) : AddsNoCode (define name value) :=
  fun _ => ⟨rfl, rfl⟩

theorem addsNoCode_openScope (bindings : Bindings) (parent : Option ScopeRef) :
    AddsNoCode (openScope bindings parent) :=
  fun _ => ⟨rfl, rfl⟩

theorem addsNoCode_addObject (ref : ClassRef) :
    AddsNoCode (onHeap fun heap => heap.addObject ref) :=
  fun _ => ⟨rfl, rfl⟩

theorem addsNoCode_setField (ref : ObjectRef) (name : String) (value : Value) :
    AddsNoCode (onHeap fun heap => (heap.setField ref name value, ())) :=
  fun _ => ⟨rfl, rfl⟩

theorem addsNoCode_readVariable (id : UseId) (name : Name) :
    AddsNoCode (readVariable id name) := by
  intro machine
  unfold readVariable
  dsimp only
  repeat' split
  all_goals exact ⟨rfl, rfl⟩

theorem addsNoCode_writeVariable (id : UseId) (name : Name) (value : Value) :
    AddsNoCode (writeVariable id name value) := by
  apply addsNoCode_get
  intro machine
  split
  · exact fun _ => ⟨rfl, rfl⟩
  · exact addsNoCode_fail _ _

theorem addsNoCode_callNative (native : Native) (arguments : List Value) (line : Nat) :
    AddsNoCode (callNative native arguments line) := by
  unfold callNative
  split
  · exact fun _ => ⟨rfl, rfl⟩
  · split
    · exact addsNoCode_pure _
    · exact addsNoCode_fail _ _

theorem addsNoCode_ofResult (line : Nat) (result : Except RuntimeFault Value) :
    AddsNoCode (ofResult line result) := by
  cases result with
  | ok value => exact addsNoCode_pure value
  | error fault => exact addsNoCode_fail line fault

theorem addsNoCode_expectClass (line : Nat) (value : Value) :
    AddsNoCode (expectClass line value) := by
  unfold expectClass
  split
  · exact addsNoCode_pure _
  · exact addsNoCode_fail _ _

theorem addsNoCode_callResult (closure : Closure) (line : Nat) (flow : Flow) :
    AddsNoCode (callResult closure line flow) := by
  unfold callResult
  split
  · apply addsNoCode_get
    intro machine
    split
    · exact addsNoCode_pure _
    · exact addsNoCode_fail _ _
  · cases flow with
    | normal => exact addsNoCode_pure _
    | returned value => exact addsNoCode_pure _

theorem addsNoCode_checkCall (callee : Value) (line count : Nat) :
    AddsNoCode (checkCall callee line count) := by
  have depth : AddsNoCode (checkDepth line) :=
    addsNoCode_get fun _ => Respects.ite (addsNoCode_fail _ _) (addsNoCode_pure _)
  apply addsNoCode_get
  intro machine
  split
  · exact addsNoCode_fail _ _
  · exact Respects.ite ((addsNoCode_fail _ _).bind fun _ => depth) depth

theorem addsNoCode_methodScope (superclass : Option ClassRef) :
    AddsNoCode (methodScope superclass) := by
  apply addsNoCode_get
  intro machine
  cases superclass with
  | none => exact addsNoCode_pure _
  | some ref => exact addsNoCode_openScope _ _

theorem addsNoCode_writeLine (text : String) : AddsNoCode (writeLine text) := by
  intro machine
  unfold writeLine
  dsimp only
  split
  · exact ⟨rfl, rfl⟩
  · exact ⟨rfl, rfl⟩

theorem addsNoCode_flush : AddsNoCode flush := by
  apply addsNoCode_get
  intro machine
  exact Respects.ite (Respects.throw Machine.sameCodeOrder _) (addsNoCode_pure _)

end Eval

/-! ## Lawful evaluations -/

/-- On a lawful heap, everything that the action starts is lawful, and so is the heap
in the end. -/
def Lawful (law : FunctionLaw) {α : Type} (timeline : Timeline) (action : Eval α) : Prop :=
  ∀ machine : Machine, machine.heap.Obeys law →
    (endState (action machine)).heap.Obeys law ∧
      ∀ part ∈ timeline machine, part.Obeys law

namespace Lawful

variable {law : FunctionLaw} {α β : Type} {timeline : Timeline}

theorem idle_obeys (machine : Machine) : ∀ part ∈ idle machine, part.Obeys law :=
  fun _ member => absurd member List.not_mem_nil

theorem of_addsNoCode {action : Eval α} (adds : AddsNoCode action) : Lawful law idle action := by
  intro machine obeys
  exact ⟨obeys.of_same (adds machine).functions (adds machine).classes, idle_obeys machine⟩

theorem bind {first : Eval α} {next : α → Timeline} {continue_ : α → Eval β}
    (firstLawful : Lawful law timeline first)
    (nextLawful : ∀ value, Lawful law (next value) (continue_ value)) :
    Lawful law (fun machine => timeline machine ++ after first next machine)
      (first >>= continue_) := by
  intro machine obeys
  rcases firstLawful machine obeys with ⟨ended, started⟩
  cases result : first machine with
  | ok value middle =>
      rw [result] at ended
      rcases nextLawful value middle ended with ⟨finallyEnded, laterStarted⟩
      dsimp only
      rw [bind_of_ok result, after_of_ok result]
      exact ⟨finallyEnded, List.forall_mem_append.mpr ⟨started, laterStarted⟩⟩
  | error cause middle =>
      rw [result] at ended
      dsimp only
      rw [bind_of_error result, after_of_error result, List.append_nil]
      exact ⟨ended, started⟩

/-- What follows starts nothing more. -/
theorem andThen {first : Eval α} {continue_ : α → Eval β} (firstLawful : Lawful law timeline first)
    (rest : ∀ value, Lawful law idle (continue_ value)) :
    Lawful law timeline (first >>= continue_) := by
  have both := firstLawful.bind rest
  rw [Stepwise.append_idle] at both
  exact both

/-- What comes before starts nothing. -/
theorem after {first : Eval α} {next : α → Timeline} {continue_ : α → Eval β}
    (firstLawful : Lawful law idle first)
    (nextLawful : ∀ value, Lawful law (next value) (continue_ value)) :
    Lawful law (Timeline.after first next) (first >>= continue_) :=
  firstLawful.bind nextLawful

/-- The machine that an action looks at is lawful. -/
theorem get (starts : Machine → Timeline) {next : Machine → Eval α}
    (lawful : ∀ machine : Machine, machine.heap.Obeys law →
      Lawful law (starts machine) (next machine)) :
    Lawful law (fun machine => starts machine machine) (get >>= next) :=
  fun machine obeys => lawful machine obeys machine obeys

theorem within {action : Eval α} (lawful : Lawful law timeline action) (scope : ScopeRef) :
    Lawful law (fun machine => timeline { machine with current := scope })
      (within scope action) := by
  intro machine obeys
  rw [endState_within]
  exact lawful { machine with current := scope } obeys

theorem counted {action : Eval α} (lawful : Lawful law timeline action) :
    Lawful law (fun machine => timeline { machine with callDepth := machine.callDepth + 1 })
      (counted action) := by
  intro machine obeys
  rw [endState_counted]
  exact lawful { machine with callDepth := machine.callDepth + 1 } obeys

/-! ### Declarations -/

theorem newFunction {closure : Closure} (lawful : closure.Obeys law) :
    Lawful law idle (newFunction closure) := by
  have added : Lawful law idle (onHeap fun heap => heap.addFunction closure) :=
    fun machine obeys => ⟨obeys.addFunction lawful, idle_obeys machine⟩
  exact added.andThen fun _ => of_addsNoCode (addsNoCode_pure _)

/-- A bound method is as lawful as the method. -/
theorem bound {method : Closure} (lawful : method.Obeys law) (this : Value)
    {next : Closure → Timeline} {continue_ : Closure → Eval β}
    (nextLawful : ∀ bound : Closure, bound.Obeys law → Lawful law (next bound) (continue_ bound)) :
    Lawful law (Timeline.after (onHeap fun heap => heap.bind method this) next)
      (onHeap (fun heap => heap.bind method this) >>= continue_) := by
  intro machine obeys
  exact nextLawful { method with scope := machine.heap.scopes.nextRef } lawful _
    (obeys.of_same rfl rfl)

theorem bindMethod {method : Closure} (lawful : method.Obeys law) (this : Value) :
    Lawful law idle (bindMethod method this) :=
  bound lawful this fun _ isLawful => newFunction isLawful

theorem getProperty (ref : ObjectRef) (name : Name) : Lawful law idle (getProperty ref name) := by
  refine get (fun _ => idle) fun machine obeys => ?_
  dsimp only
  split
  · exact of_addsNoCode (addsNoCode_pure _)
  · split
    next method found => exact bindMethod (obeys.findMethod found) _
    next => exact of_addsNoCode (addsNoCode_fail _ _)

theorem getSuper (id : UseId) (line : Nat) (method : Name) :
    Lawful law idle (getSuper id line method) := by
  refine get (fun _ => idle) fun machine obeys => ?_
  split
  · split
    next found isFound => exact bindMethod (obeys.findMethod isFound) _
    next => exact of_addsNoCode (addsNoCode_fail _ _)
  · exact of_addsNoCode (addsNoCode_fail _ _)

theorem declareFunction {declaration : FunctionDecl} (lawful : law false declaration) :
    Lawful law idle (declareFunction declaration) := by
  refine get (fun _ => idle) fun machine _ => ?_
  have isLawful : Closure.Obeys law ⟨declaration, machine.current, false⟩ := lawful
  exact (newFunction isLawful).andThen fun _ => of_addsNoCode (addsNoCode_define _ _)

theorem methodTable_obeys {declarations : List FunctionDecl} {scope : ScopeRef}
    (lawful : ∀ method ∈ declarations, law (method.name.text = "init") method) {name : String}
    {method : Closure} (found : (methodTable declarations scope)[name]? = some method) :
    method.Obeys law := by
  rw [getElem?_methodTable, Option.map_eq_some_iff] at found
  obtain ⟨declaration, isLast, rfl⟩ := found
  have member := List.mem_filter.mp (List.mem_of_getLast? isLast)
  have named : declaration.name.text = name := of_decide_eq_true member.2
  have isLawful := lawful declaration member.1
  rw [named] at isLawful
  exact isLawful

theorem declareClass {declarations : List FunctionDecl} (name : Name)
    (superclass : Option ClassRef)
    (lawful : ∀ method ∈ declarations, law (method.name.text = "init") method) :
    Lawful law idle (declareClass name superclass declarations) := by
  refine (of_addsNoCode (addsNoCode_define _ _)).andThen fun _ => ?_
  refine (of_addsNoCode (addsNoCode_methodScope _)).andThen fun scope => ?_
  have added : Lawful law idle (onHeap fun heap => heap.addClass
      { name := name.text, superclass, methods := methodTable declarations scope }) :=
    fun machine obeys =>
      ⟨obeys.addClass fun _ _ found => methodTable_obeys lawful found, idle_obeys machine⟩
  exact added.andThen fun _ => of_addsNoCode (addsNoCode_define _ _)

end Lawful

/-- What can be evaluated with the given fuel keeps lawful heaps lawful. -/
structure LawfulAt (law : FunctionLaw) (fuel : Nat) : Prop where
  evaluate : ∀ expr, Lawful law (start fuel (.evaluate expr)) (evaluate fuel expr)
  evaluateEach : ∀ exprs, Lawful law (start fuel (.evaluateEach exprs)) (evaluateEach fuel exprs)
  callValue : ∀ callee arguments line,
    Lawful law (start fuel (.callValue callee arguments line))
      (callValue fuel callee arguments line)
  callFunction : ∀ {closure}, closure.Obeys law → ∀ arguments line,
    Lawful law (start fuel (.callFunction closure arguments line))
      (callFunction fuel closure arguments line)
  execute : ∀ {stmt}, stmt.Obeys law → Lawful law (start fuel (.execute stmt)) (execute fuel stmt)
  executeEach : ∀ {stmts}, Stmt.ObeysEach law stmts →
    Lawful law (start fuel (.executeEach stmts)) (executeEach fuel stmts)
  executeWhile : ∀ condition {body}, body.Obeys law →
    Lawful law (start fuel (.executeWhile condition body)) (executeWhile fuel condition body)

section Steps

variable {law : FunctionLaw} {fuel : Nat}

/-- An evaluation of a lawful task is lawful if its parts and its end are. -/
theorem Lawful.whole {α : Type} {task : Task} {action : Eval α} {timeline : Timeline}
    (lawful : Lawful law timeline action) (obeys : task.Obeys law) :
    Lawful law (start fuel task) action := by
  intro machine heapObeys
  refine ⟨(lawful machine heapObeys).1, ?_⟩
  intro part member
  obtain rfl := mem_start.mp member
  exact ⟨heapObeys, obeys⟩

theorem lawfulParts_evaluate (before : LawfulAt law fuel) (expr : Expr) :
    Lawful law (expr.parts fuel) (evaluate (fuel + 1) expr) := by
  cases expr with
  | literal value => exact .of_addsNoCode (addsNoCode_pure _)
  | group inner => exact before.evaluate inner
  | unary operator operand =>
      exact (before.evaluate operand).andThen fun _ => .of_addsNoCode (addsNoCode_ofResult _ _)
  | binary left operator right =>
      refine (before.evaluate left).bind fun value => ?_
      exact (before.evaluate right).andThen fun _ => .of_addsNoCode (addsNoCode_ofResult _ _)
  | logical left operator right =>
      refine (before.evaluate left).bind fun value => ?_
      split
      · exact .of_addsNoCode (addsNoCode_pure _)
      · exact before.evaluate right
  | var id name => exact .of_addsNoCode (addsNoCode_readVariable id name)
  | assign id name value =>
      refine (before.evaluate value).andThen fun assigned => .of_addsNoCode ?_
      exact (addsNoCode_writeVariable id name assigned).bind fun _ => addsNoCode_pure _
  | call callee line arguments =>
      refine (before.evaluate callee).bind fun value => ?_
      refine (before.evaluateEach arguments).bind fun values => ?_
      have checked : Lawful law idle (checkCall value line values.length) :=
        .of_addsNoCode (addsNoCode_checkCall value line values.length)
      refine checked.after fun _ => ?_
      exact (before.callValue value values line).counted
  | get object name =>
      refine (before.evaluate object).andThen fun found => ?_
      split
      · exact .getProperty _ name
      · exact .of_addsNoCode (addsNoCode_fail _ _)
  | set object name value =>
      refine (before.evaluate object).bind fun found => ?_
      cases found with
      | object ref =>
          refine (before.evaluate value).andThen fun assigned => .of_addsNoCode ?_
          exact (addsNoCode_setField ref name.text assigned).bind fun _ => addsNoCode_pure _
      | _ => exact .of_addsNoCode (addsNoCode_fail _ _)
  | this id line => exact .of_addsNoCode (addsNoCode_readVariable id _)
  | super id line method => exact .getSuper id line method

theorem lawfulParts_evaluateEach (before : LawfulAt law fuel) (exprs : List Expr) :
    Lawful law ((Task.evaluateEach exprs).parts (fuel + 1)) (evaluateEach (fuel + 1) exprs) := by
  cases exprs with
  | nil => exact .of_addsNoCode (addsNoCode_pure _)
  | cons first rest =>
      refine (before.evaluate first).bind fun value => ?_
      exact (before.evaluateEach rest).andThen fun _ => .of_addsNoCode (addsNoCode_pure _)

theorem lawfulParts_callValue (hereditary : law.Hereditary) (before : LawfulAt law fuel)
    (callee : Value) (arguments : List Value) (line : Nat) :
    Lawful law (callee.parts fuel arguments line) (callValue (fuel + 1) callee arguments line) := by
  cases callee with
  | native ref =>
      refine .of_addsNoCode (addsNoCode_get fun machine => ?_)
      exact addsNoCode_callNative _ _ _
  | function ref =>
      refine .get (fun machine => start fuel
        (.callFunction (machine.heap.function ref) arguments line)) fun machine obeys => ?_
      exact before.callFunction (obeys.function hereditary ref) arguments line
  | classRef ref =>
      rw [Value.parts, callValue]
      refine (Lawful.of_addsNoCode (addsNoCode_addObject ref)).after fun object => ?_
      refine .get (fun machine => initializerParts fuel arguments line object
        (machine.heap.findMethod? ref "init")) fun machine obeys => ?_
      cases found : machine.heap.findMethod? ref "init" with
      | none => exact .of_addsNoCode (addsNoCode_pure _)
      | some initializer =>
          have called : ∀ bound : Closure, bound.Obeys law →
              Lawful law (start fuel (.callFunction bound arguments line)) (do
                let _ ← callFunction fuel bound arguments line
                return Value.object object) :=
            fun bound lawful => (before.callFunction lawful arguments line).andThen fun _ =>
              .of_addsNoCode (addsNoCode_pure _)
          exact .bound (obeys.findMethod found) (.object object) called
  | _ => exact .of_addsNoCode (addsNoCode_fail _ _)

theorem lawfulParts_callFunction (hereditary : law.Hereditary) (before : LawfulAt law fuel)
    {closure : Closure} (obeys : closure.Obeys law) (arguments : List Value) (line : Nat) :
    Lawful law ((Task.callFunction closure arguments line).parts (fuel + 1))
      (callFunction (fuel + 1) closure arguments line) := by
  rw [Task.parts, callFunction]
  refine (Lawful.of_addsNoCode (addsNoCode_openScope _ _)).after fun scope => ?_
  refine ((before.executeEach (hereditary.body obeys)).within scope).andThen fun flow => ?_
  exact .of_addsNoCode (addsNoCode_callResult _ _ _)

theorem lawfulParts_execute (before : LawfulAt law fuel) {stmt : Stmt} (obeys : stmt.Obeys law) :
    Lawful law (stmt.parts fuel) (execute (fuel + 1) stmt) := by
  cases stmt with
  | expression value =>
      exact (before.evaluate value).andThen fun _ => .of_addsNoCode (addsNoCode_pure _)
  | print value =>
      refine (before.evaluate value).andThen fun result => .of_addsNoCode ?_
      refine addsNoCode_get fun machine => ?_
      exact (addsNoCode_writeLine _).bind fun _ => addsNoCode_pure _
  | var name initializer =>
      cases initializer with
      | none =>
          exact .of_addsNoCode ((addsNoCode_define _ _).bind fun _ => addsNoCode_pure _)
      | some value =>
          refine (before.evaluate value).andThen fun result => .of_addsNoCode ?_
          exact (addsNoCode_define _ _).bind fun _ => addsNoCode_pure _
  | block body =>
      rw [Stmt.parts, execute]
      refine .get (fun machine =>
        Timeline.after (openScope ∅ (some machine.current)) fun scope middle =>
          start fuel (.executeEach body) { middle with current := scope }) fun machine _ => ?_
      refine (Lawful.of_addsNoCode (addsNoCode_openScope _ _)).after fun scope => ?_
      exact (before.executeEach obeys).within scope
  | if_ condition thenBranch elseBranch =>
      refine (before.evaluate condition).bind fun value => ?_
      split
      · exact before.execute obeys.thenBranch
      · cases elseBranch with
        | none => exact .of_addsNoCode (addsNoCode_pure _)
        | some elseBranch => exact before.execute obeys.2
  | while_ condition body => exact before.executeWhile condition obeys
  | function declaration =>
      exact (Lawful.declareFunction obeys).andThen fun _ => .of_addsNoCode (addsNoCode_pure _)
  | return_ line value =>
      cases value with
      | none => exact .of_addsNoCode (addsNoCode_pure _)
      | some value =>
          exact (before.evaluate value).andThen fun _ => .of_addsNoCode (addsNoCode_pure _)
  | class_ name superclass methods =>
      have declared : ∀ parent, Lawful law idle (do
          declareClass name parent methods
          return Flow.normal) :=
        fun parent => (Lawful.declareClass name parent obeys).andThen fun _ =>
          .of_addsNoCode (addsNoCode_pure _)
      cases superclass with
      | none => exact declared none
      | some superclass =>
          refine (before.evaluate superclass).andThen fun value => ?_
          refine (Lawful.of_addsNoCode (addsNoCode_expectClass _ value)).andThen fun parent => ?_
          exact declared (some parent)

theorem lawfulParts_executeEach (before : LawfulAt law fuel) {stmts : List Stmt}
    (obeys : Stmt.ObeysEach law stmts) :
    Lawful law ((Task.executeEach stmts).parts (fuel + 1)) (executeEach (fuel + 1) stmts) := by
  cases stmts with
  | nil => exact .of_addsNoCode (addsNoCode_pure _)
  | cons first rest =>
      refine (before.execute obeys.1).bind fun flow => ?_
      cases flow with
      | normal => exact before.executeEach obeys.2
      | returned value => exact .of_addsNoCode (addsNoCode_pure _)

theorem lawfulParts_executeWhile (before : LawfulAt law fuel) (condition : Expr) {body : Stmt}
    (obeys : body.Obeys law) :
    Lawful law ((Task.executeWhile condition body).parts (fuel + 1))
      (executeWhile (fuel + 1) condition body) := by
  refine (before.evaluate condition).bind fun value => ?_
  split
  · refine (before.execute obeys).bind fun flow => ?_
    cases flow with
    | normal => exact before.executeWhile condition obeys
    | returned value => exact .of_addsNoCode (addsNoCode_pure _)
  · exact .of_addsNoCode (addsNoCode_pure _)

/-- Without fuel nothing is done. -/
theorem lawfulAt_zero (law : FunctionLaw) : LawfulAt law 0 := by
  have stops : ∀ {α : Type}, Lawful law idle (throw .outOfFuel : Eval α) :=
    .of_addsNoCode (Respects.throw Machine.sameCodeOrder _)
  exact {
    evaluate := fun _ => stops.whole trivial
    evaluateEach := fun _ => stops.whole trivial
    callValue := fun _ _ _ => stops.whole trivial
    callFunction := fun obeys _ _ => stops.whole obeys
    execute := fun obeys => stops.whole obeys
    executeEach := fun obeys => stops.whole obeys
    executeWhile := fun _ _ obeys => stops.whole obeys }

/-- Whatever is evaluated, lawful heaps stay lawful. -/
theorem lawfulAt (hereditary : law.Hereditary) (fuel : Nat) : LawfulAt law fuel := by
  induction fuel with
  | zero => exact lawfulAt_zero law
  | succ fuel before =>
      exact {
        evaluate := fun expr => (lawfulParts_evaluate before expr).whole trivial
        evaluateEach := fun exprs => (lawfulParts_evaluateEach before exprs).whole trivial
        callValue := fun callee arguments line =>
          (lawfulParts_callValue hereditary before callee arguments line).whole trivial
        callFunction := fun obeys arguments line =>
          (lawfulParts_callFunction hereditary before obeys arguments line).whole obeys
        execute := fun obeys => (lawfulParts_execute before obeys).whole obeys
        executeEach := fun obeys => (lawfulParts_executeEach before obeys).whole obeys
        executeWhile := fun condition _ obeys =>
          (lawfulParts_executeWhile before condition obeys).whole obeys }

end Steps

/-! ## Runs -/

section Runs

variable {law : FunctionLaw} {start moment : Moment}

theorem lawfulParts_executeProgram (hereditary : law.Hereditary) (fuel : Nat)
    {program : List Stmt} (obeys : Stmt.ObeysEach law program) :
    Lawful law ((Task.executeProgram program).parts fuel) (executeProgram fuel program) := by
  induction program with
  | nil =>
      rw [Task.parts]
      exact .of_addsNoCode addsNoCode_flush
  | cons first rest inductionHypothesis =>
      rw [Task.parts]
      refine ((lawfulAt hereditary fuel).execute obeys.1).bind fun flow => ?_
      exact (inductionHypothesis obeys.2).whole obeys.2

/-- What a lawful evaluation starts is lawful, and so is the heap in which it ends. -/
theorem Moment.Obeys.parts (hereditary : law.Hereditary) (obeys : moment.Obeys law) :
    moment.final.heap.Obeys law ∧ ∀ part ∈ moment.parts, part.Obeys law := by
  obtain ⟨fuel, task, machine⟩ := moment
  obtain ⟨heapObeys, taskObeys⟩ := obeys
  -- A program passes its fuel on, so even without fuel it has parts.
  cases fuel with
  | zero =>
      cases task with
      | executeProgram program =>
          exact lawfulParts_executeProgram hereditary 0 taskObeys machine heapObeys
      | _ => exact ⟨heapObeys, Lawful.idle_obeys machine⟩
  | succ fuel =>
      have before := lawfulAt hereditary fuel
      cases task with
      | evaluate expr => exact lawfulParts_evaluate before expr machine heapObeys
      | evaluateEach exprs => exact lawfulParts_evaluateEach before exprs machine heapObeys
      | callValue callee arguments line =>
          exact lawfulParts_callValue hereditary before callee arguments line machine heapObeys
      | callFunction closure arguments line =>
          exact lawfulParts_callFunction hereditary before taskObeys arguments line machine
            heapObeys
      | execute stmt => exact lawfulParts_execute before taskObeys machine heapObeys
      | executeEach stmts => exact lawfulParts_executeEach before taskObeys machine heapObeys
      | executeWhile condition body =>
          exact lawfulParts_executeWhile before condition taskObeys machine heapObeys
      | executeProgram program =>
          exact lawfulParts_executeProgram hereditary (fuel + 1) taskObeys machine heapObeys

/-- Every moment of a lawful run is lawful. -/
theorem Reaches.obeys (hereditary : law.Hereditary) (reaches : Reaches start moment)
    (obeys : start.Obeys law) : moment.Obeys law :=
  reaches.invariant obeys fun _ second calls isLawful =>
    (isLawful.parts hereditary).2 second calls.mem_parts

end Runs

end Lox
