import Lox.Evaluation
import Lox.Proofs.Actions
import Lox.Proofs.Syntax.Ids
import Lox.Proofs.Syntax.Relabel
import Lox.Proofs.Tables

/-!
# Machines whose trees are copies

Two machines hold the same values in the same places, but the trees of their
functions are copies: they may stand on other lines, and their uses may have other
identities, provided that the same distances are recorded for them.  Each step on
one machine is matched by the same step on the other one.
-/

namespace Lox

open Actions Eval

/-! ## Copies -/

/-- How the trees of two machines may differ: in identities, for which both machines
have recorded distances, and in lines. -/
structure Copying where
  /-- The distances that the first machine has recorded. -/
  distances : Std.TreeMap UseId Nat
  /-- The distances that the second machine has recorded. -/
  others : Std.TreeMap UseId Nat
  /-- The ways in which a tree may be moved to other lines. -/
  Moves : (Nat → Nat) → Prop

namespace Copying

variable (copying : Copying)

/-- Lines of the same place in a tree and in its copy. -/
def Lines (line line' : Nat) : Prop :=
  ∃ move, copying.Moves move ∧ line' = move line

/-- A tree with these uses may be relabelled so. -/
structure Labels (use : UseId → UseId) (line : Nat → Nat) (ids : List UseId) : Prop where
  moves : copying.Moves line
  same : ∀ id ∈ ids, copying.others[use id]? = copying.distances[id]?

/-- The second declaration is a copy of the first one.  One without statements has
nothing to relabel. -/
inductive Declarations : FunctionDecl → FunctionDecl → Prop where
  | empty {declaration : FunctionDecl} : declaration.body = [] →
      Declarations declaration declaration
  | relabelled {use : UseId → UseId} {line : Nat → Nat} {declaration : FunctionDecl} :
      copying.Labels use line (Stmt.functionIds declaration) →
      Declarations declaration (Stmt.relabelFunction use line declaration)

/-- The closures close over the same scope, and one declaration is a copy of the
other one. -/
structure Closures (closure closure' : Closure) : Prop where
  declaration : copying.Declarations closure.declaration closure'.declaration
  scope : closure'.scope = closure.scope
  isInitializer : closure'.isInitializer = closure.isInitializer

/-- The classes have the same name and superclass, and copied methods. -/
structure Classes (info info' : ClassInfo) : Prop where
  name : info'.name = info.name
  superclass : info'.superclass = info.superclass
  methods : ∀ name : String,
    Option.Rel copying.Closures info.methods[name]? info'.methods[name]?

/-- The heaps differ in declarations only. -/
structure Heaps (heap heap' : Heap) : Prop where
  scopes : heap'.scopes = heap.scopes
  natives : heap'.natives = heap.natives
  objects : heap'.objects = heap.objects
  functionCount : heap'.functions.size = heap.functions.size
  functions : ∀ ref, copying.Closures (heap.function ref) (heap'.function ref)
  classCount : heap'.classes.size = heap.classes.size
  classes : ∀ ref, copying.Classes (heap.classInfo ref) (heap'.classInfo ref)

/-- The machines differ in declarations and in recorded distances only. -/
structure Machines (machine machine' : Machine) : Prop where
  heap : copying.Heaps machine.heap machine'.heap
  globals : machine'.globals = machine.globals
  current : machine'.current = machine.current
  callDepth : machine'.callDepth = machine.callDepth
  callLimit : machine'.callLimit = machine.callLimit
  distances : machine.distances = copying.distances
  others : machine'.distances = copying.others
  sink : machine'.sink = machine.sink
  clock : machine'.clock = machine.clock

/-- The interrupts differ at most in the line of a runtime error. -/
inductive Interrupts : Interrupt → Interrupt → Prop where
  | runtime {line line' : Nat} (fault : RuntimeFault) :
      copying.Lines line line' → Interrupts (.runtime ⟨line, fault⟩) (.runtime ⟨line', fault⟩)
  | output (error : OutputError) : Interrupts (.output error) (.output error)
  | outOfFuel : Interrupts .outOfFuel .outOfFuel

variable {copying}

theorem Labels.mono {use : UseId → UseId} {line : Nat → Nat} {ids fewer : List UseId}
    (labels : copying.Labels use line ids) (subset : fewer ⊆ ids) :
    copying.Labels use line fewer :=
  ⟨labels.moves, fun id member => labels.same id (subset member)⟩

theorem Labels.left {use : UseId → UseId} {line : Nat → Nat} {ids more : List UseId}
    (labels : copying.Labels use line (ids ++ more)) : copying.Labels use line ids :=
  labels.mono (List.subset_append_left _ _)

theorem Labels.right {use : UseId → UseId} {line : Nat → Nat} {ids more : List UseId}
    (labels : copying.Labels use line (ids ++ more)) : copying.Labels use line more :=
  labels.mono (List.subset_append_right _ _)

theorem Labels.lines {use : UseId → UseId} {line : Nat → Nat} {ids : List UseId}
    (labels : copying.Labels use line ids) (number : Nat) : copying.Lines number (line number) :=
  ⟨line, labels.moves, rfl⟩

theorem Declarations.arity {declaration declaration' : FunctionDecl}
    (copied : copying.Declarations declaration declaration') :
    declaration'.arity = declaration.arity := by
  cases copied with
  | empty nothing => rfl
  | relabelled labels =>
      rcases declaration with ⟨name, params, body⟩
      simp [Stmt.relabelFunction, FunctionDecl.arity]

theorem Declarations.name {declaration declaration' : FunctionDecl}
    (copied : copying.Declarations declaration declaration') :
    declaration'.name.text = declaration.name.text := by
  cases copied with
  | empty nothing => rfl
  | relabelled labels =>
      rcases declaration with ⟨name, params, body⟩
      rw [Stmt.relabelFunction, Name.moved_text]

/-! ## Heaps -/

namespace Heaps

variable {heap heap' : Heap}

theorem withScopes (copied : copying.Heaps heap heap') {scopes scopes' : Scopes}
    (same : scopes' = scopes) :
    copying.Heaps { heap with scopes } { heap' with scopes := scopes' } :=
  ⟨same, copied.natives, copied.objects, copied.functionCount, copied.functions,
    copied.classCount, copied.classes⟩

theorem withObjects (copied : copying.Heaps heap heap') {objects objects' : Array Object}
    (same : objects' = objects) :
    copying.Heaps { heap with objects } { heap' with objects := objects' } :=
  ⟨copied.scopes, copied.natives, same, copied.functionCount, copied.functions,
    copied.classCount, copied.classes⟩

theorem addFunction (copied : copying.Heaps heap heap') {closure closure' : Closure}
    (closures : copying.Closures closure closure') :
    copying.Heaps (heap.addFunction closure).1 (heap'.addFunction closure').1 := by
  refine ⟨copied.scopes, copied.natives, copied.objects, ?_, ?_, copied.classCount,
    copied.classes⟩
  · simp [Heap.addFunction, copied.functionCount]
  · intro ref
    have old := copied.functions ref
    simp only [Heap.function, Heap.addFunction, Array.getD_eq_getD_getElem?, Array.getElem?_push,
      copied.functionCount] at old ⊢
    split
    · exact closures
    · exact old

theorem addClass (copied : copying.Heaps heap heap') {info info' : ClassInfo}
    (classes : copying.Classes info info') :
    copying.Heaps (heap.addClass info).1 (heap'.addClass info').1 := by
  refine ⟨copied.scopes, copied.natives, copied.objects, copied.functionCount,
    copied.functions, ?_, ?_⟩
  · simp [Heap.addClass, copied.classCount]
  · intro ref
    have old := copied.classes ref
    simp only [Heap.classInfo, Heap.addClass, Array.getD_eq_getD_getElem?, Array.getElem?_push,
      copied.classCount] at old ⊢
    split
    · exact classes
    · exact old

theorem native (copied : copying.Heaps heap heap') (ref : NativeRef) :
    heap'.native ref = heap.native ref := by
  rw [Heap.native, copied.natives, Heap.native]

theorem object (copied : copying.Heaps heap heap') (ref : ObjectRef) :
    heap'.object ref = heap.object ref := by
  rw [Heap.object, copied.objects, Heap.object]

/-- Copies of the same methods are found. -/
theorem findMethod (copied : copying.Heaps heap heap') (ref : ClassRef) (name : String) :
    Option.Rel copying.Closures (heap.findMethod? ref name) (heap'.findMethod? ref name) := by
  fun_induction heap.findMethod? ref name with
  | case1 ref own isOwn =>
      rcases Table.eq_some_of_rel ((copied.classes ref).methods name) isOwn with
        ⟨other, isOther, closures⟩
      rw [Heap.findMethod?, isOther]
      exact .some closures
  | case2 ref notOwn superclass isSuperclass earlier inductionHypothesis =>
      have noOther := Table.eq_none_of_rel ((copied.classes ref).methods name) notOwn
      have next : heap'.findMethod? ref name = heap'.findMethod? superclass name := by
        rw [Heap.findMethod?, noOther]
        simp only [(copied.classes ref).superclass, isSuperclass, earlier, if_true]
      rw [next]
      exact inductionHypothesis
  | case3 ref notOwn superclass isSuperclass notEarlier =>
      have noOther := Table.eq_none_of_rel ((copied.classes ref).methods name) notOwn
      rw [Heap.findMethod?, noOther]
      simp only [(copied.classes ref).superclass, isSuperclass, notEarlier, if_false]
      exact .none
  | case4 ref notOwn noSuperclass =>
      have noOther := Table.eq_none_of_rel ((copied.classes ref).methods name) notOwn
      rw [Heap.findMethod?, noOther]
      simp only [(copied.classes ref).superclass, noSuperclass]
      exact .none

theorem arity (copied : copying.Heaps heap heap') (callee : Value) :
    heap'.arity? callee = heap.arity? callee := by
  cases callee with
  | native ref => simp only [Heap.arity?, copied.native]
  | function ref =>
      have same := (copied.functions ref).declaration.arity
      simp only [Heap.arity?, Closure.arity, same]
  | classRef ref =>
      have found := copied.findMethod ref "init"
      simp only [Heap.arity?]
      generalize heap.findMethod? ref "init" = method at found
      generalize heap'.findMethod? ref "init" = method' at found
      cases found with
      | none => rfl
      | some closures =>
          have same := closures.declaration.arity
          simp only [Option.map_some, Closure.arity, same]
  | _ => rfl

theorem text (copied : copying.Heaps heap heap') (value : Value) :
    heap'.text value = heap.text value := by
  cases value with
  | function ref =>
      have same := (copied.functions ref).declaration.name
      simp only [Heap.text, Closure.text, Closure.name, same]
  | classRef ref => exact (copied.classes ref).name
  | object ref => simp only [Heap.text, copied.object, (copied.classes _).name]
  | _ => rfl

end Heaps

/-! ## Actions side by side -/

variable {machine machine' : Machine} {α β : Type}

/-- Both actions yield the same value, or both are interrupted, and the machines
still differ in declarations only. -/
def Agree (copying : Copying) (machine machine' : Machine) (action action' : Eval α) : Prop :=
  Paired
    (fun value final value' final' => value' = value ∧ copying.Machines final final')
    (fun cause final cause' final' =>
      copying.Interrupts cause cause' ∧ copying.Machines final final')
    (action machine) (action' machine')

theorem Machines.withHeap (copied : copying.Machines machine machine') {heap heap' : Heap}
    (heaps : copying.Heaps heap heap') :
    copying.Machines { machine with heap } { machine' with heap := heap' } :=
  ⟨heaps, copied.globals, copied.current, copied.callDepth, copied.callLimit, copied.distances,
    copied.others, copied.sink, copied.clock⟩

theorem Machines.enter (copied : copying.Machines machine machine') (scope : ScopeRef) :
    copying.Machines { machine with current := scope } { machine' with current := scope } :=
  ⟨copied.heap, copied.globals, rfl, copied.callDepth, copied.callLimit, copied.distances,
    copied.others, copied.sink, copied.clock⟩

theorem Machines.atDepth (copied : copying.Machines machine machine') (depth : Nat) :
    copying.Machines { machine with callDepth := depth } { machine' with callDepth := depth } :=
  ⟨copied.heap, copied.globals, copied.current, rfl, copied.callLimit, copied.distances,
    copied.others, copied.sink, copied.clock⟩

theorem Agree.bind {first first' : Eval α} {next next' : α → Eval β}
    (agree : copying.Agree machine machine' first first')
    (nextAgree : ∀ value {middle middle'}, copying.Machines middle middle' →
      copying.Agree middle middle' (next value) (next' value)) :
    copying.Agree machine machine' (first >>= next) (first' >>= next') := by
  refine Paired.bind agree ?_
  rintro value middle value' middle' ⟨rfl, later⟩
  exact nextAgree value' later

theorem Agree.pure (copied : copying.Machines machine machine') (value : α) :
    copying.Agree machine machine' (Pure.pure value) (Pure.pure value) :=
  ⟨rfl, copied⟩

theorem Agree.throw (copied : copying.Machines machine machine') {cause cause' : Interrupt}
    (interrupts : copying.Interrupts cause cause') :
    copying.Agree machine machine' (throw cause : Eval α) (throw cause') :=
  ⟨interrupts, copied⟩

theorem Agree.fail (copied : copying.Machines machine machine') {line line' : Nat}
    (lines : copying.Lines line line') (fault : RuntimeFault) :
    copying.Agree machine machine' (Eval.fail line fault : Eval α) (Eval.fail line' fault) :=
  Agree.throw copied (.runtime fault lines)

/-- Actions that first look at their machines. -/
theorem Agree.get {next next' : Machine → Eval α}
    (agree : copying.Agree machine machine' (next machine) (next' machine')) :
    copying.Agree machine machine' (MonadState.get >>= next) (MonadState.get >>= next') :=
  agree

theorem Agree.onHeap (copied : copying.Machines machine machine') {action action' : Heap → Heap × α}
    (value : (action' machine'.heap).2 = (action machine.heap).2)
    (heaps : copying.Heaps (action machine.heap).1 (action' machine'.heap).1) :
    copying.Agree machine machine' (Eval.onHeap action) (Eval.onHeap action') :=
  ⟨value, copied.withHeap heaps⟩

/-! ### Scopes -/

theorem Agree.define (copied : copying.Machines machine machine') (name : String) (value : Value) :
    copying.Agree machine machine' (Eval.define name value) (Eval.define name value) := by
  refine ⟨rfl, copied.withHeap (copied.heap.withScopes ?_)⟩
  rw [copied.heap.scopes, copied.current]

theorem Agree.openScope (copied : copying.Machines machine machine') (bindings : Bindings)
    (parent : Option ScopeRef) :
    copying.Agree machine machine' (Eval.openScope bindings parent)
      (Eval.openScope bindings parent) := by
  refine Agree.onHeap copied ?_ (copied.heap.withScopes ?_)
  · rw [copied.heap.scopes]
  · rw [copied.heap.scopes]

theorem Agree.within {action action' : Eval α} (copied : copying.Machines machine machine')
    (scope : ScopeRef)
    (agree : copying.Agree { machine with current := scope } { machine' with current := scope }
      action action') :
    copying.Agree machine machine' (Eval.within scope action) (Eval.within scope action') := by
  unfold Agree at agree ⊢
  unfold Eval.within
  rw [copied.current]
  generalize action { machine with current := scope } = result at agree ⊢
  generalize action' { machine' with current := scope } = result' at agree ⊢
  cases result with
  | ok value final =>
      cases result' with
      | ok value' final' => exact ⟨agree.1, agree.2.enter _⟩
      | error cause' final' => exact agree
  | error cause final =>
      cases result' with
      | ok value' final' => exact agree
      | error cause' final' => exact ⟨agree.1, agree.2.enter _⟩

theorem Agree.counted {action action' : Eval α} (copied : copying.Machines machine machine')
    (agree : ∀ {machine machine'}, copying.Machines machine machine' →
      copying.Agree machine machine' action action') :
    copying.Agree machine machine' (Eval.counted action) (Eval.counted action') := by
  have inside := agree (copied.atDepth (machine.callDepth + 1))
  unfold Agree at inside ⊢
  unfold Eval.counted
  rw [copied.callDepth]
  generalize action { machine with callDepth := machine.callDepth + 1 } = result at inside ⊢
  generalize action' { machine' with callDepth := machine.callDepth + 1 } = result' at inside ⊢
  cases result with
  | ok value final =>
      cases result' with
      | ok value' final' =>
          have depth := inside.2.callDepth
          dsimp only
          rw [depth]
          exact ⟨inside.1, inside.2.atDepth _⟩
      | error cause' final' => exact inside
  | error cause final =>
      cases result' with
      | ok value' final' => exact inside
      | error cause' final' =>
          have depth := inside.2.callDepth
          dsimp only
          rw [depth]
          exact ⟨inside.1, inside.2.atDepth _⟩

/-! ### Variables -/

theorem Agree.readVariable (copied : copying.Machines machine machine') {id id' : UseId}
    (same : copying.others[id']? = copying.distances[id]?) {name name' : Name}
    (text : name'.text = name.text) (lines : copying.Lines name.line name'.line) :
    copying.Agree machine machine' (Eval.readVariable id name) (Eval.readVariable id' name') := by
  unfold Agree Eval.readVariable
  rw [copied.others, same, ← copied.distances, copied.heap.scopes, copied.current, copied.globals,
    text]
  cases machine.distances[id]? with
  | none =>
      dsimp only
      cases machine.heap.scopes.own? machine.globals name.text with
      | none => exact Agree.fail copied lines _
      | some value => exact Agree.pure copied value
  | some distance =>
      dsimp only
      cases machine.heap.scopes.getAt? machine.current distance name.text with
      | none => exact Agree.fail copied lines _
      | some value => exact Agree.pure copied value

theorem Agree.writeVariable (copied : copying.Machines machine machine') {id id' : UseId}
    (same : copying.others[id']? = copying.distances[id]?) {name name' : Name}
    (text : name'.text = name.text) (lines : copying.Lines name.line name'.line) (value : Value) :
    copying.Agree machine machine' (Eval.writeVariable id name value)
      (Eval.writeVariable id' name' value) := by
  refine Agree.get ?_
  have assigned : assignedScope? machine' id' name'.text = assignedScope? machine id name.text := by
    unfold assignedScope?
    rw [copied.others, same, ← copied.distances, copied.heap.scopes, copied.current, copied.globals,
      text]
  rw [assigned]
  cases assignedScope? machine id name.text with
  | none =>
      rw [text]
      exact Agree.fail copied lines _
  | some scope =>
      refine Agree.onHeap copied rfl (copied.heap.withScopes ?_)
      rw [copied.heap.scopes, text]

/-! ### Functions and objects -/

theorem Agree.newFunction (copied : copying.Machines machine machine') {closure closure' : Closure}
    (closures : copying.Closures closure closure') :
    copying.Agree machine machine' (Eval.newFunction closure) (Eval.newFunction closure') := by
  have added : copying.Agree machine machine' (Eval.onHeap fun heap => heap.addFunction closure)
      (Eval.onHeap fun heap => heap.addFunction closure') := by
    refine Agree.onHeap copied ?_ (copied.heap.addFunction closures)
    simp [Heap.addFunction, copied.heap.functionCount]
  exact added.bind fun ref _ _ later => Agree.pure later (Value.function ref)

/-- A bound method is a copy of the other one. -/
theorem Heaps.bind {heap heap' : Heap} (copied : copying.Heaps heap heap')
    {method method' : Closure} (closures : copying.Closures method method') (this : Value) :
    copying.Heaps (heap.bind method this).1 (heap'.bind method' this).1 ∧
      copying.Closures (heap.bind method this).2 (heap'.bind method' this).2 := by
  constructor
  · refine copied.withScopes ?_
    simp only [Heap.openScope]
    rw [copied.scopes, closures.scope]
  · refine ⟨closures.declaration, ?_, closures.isInitializer⟩
    simp only [Heap.bind]
    rw [copied.scopes]

theorem Agree.bindHeap (copied : copying.Machines machine machine') {method method' : Closure}
    (closures : copying.Closures method method') (this : Value) {next next' : Closure → Eval β}
    (nextAgree : ∀ {bound bound' middle middle'}, copying.Machines middle middle' →
      copying.Closures bound bound' →
      copying.Agree middle middle' (next bound) (next' bound')) :
    copying.Agree machine machine' (Eval.onHeap (fun heap => heap.bind method this) >>= next)
      (Eval.onHeap (fun heap => heap.bind method' this) >>= next') :=
  nextAgree (copied.withHeap (copied.heap.bind closures this).1)
    (copied.heap.bind closures this).2

theorem Agree.addObject (copied : copying.Machines machine machine') (ref : ClassRef) :
    copying.Agree machine machine' (Eval.onHeap fun heap => heap.addObject ref)
      (Eval.onHeap fun heap => heap.addObject ref) := by
  refine Agree.onHeap copied ?_ (copied.heap.withObjects ?_)
  · simp [Heap.addObject, copied.heap.objects]
  · rw [copied.heap.objects]

theorem Agree.bindMethod (copied : copying.Machines machine machine') {method method' : Closure}
    (closures : copying.Closures method method') (this : Value) :
    copying.Agree machine machine' (Eval.bindMethod method this)
      (Eval.bindMethod method' this) :=
  Agree.bindHeap copied closures this fun later bound => Agree.newFunction later bound

theorem Agree.getProperty (copied : copying.Machines machine machine') (ref : ObjectRef)
    {name name' : Name} (text : name'.text = name.text)
    (lines : copying.Lines name.line name'.line) :
    copying.Agree machine machine' (Eval.getProperty ref name) (Eval.getProperty ref name') := by
  refine Agree.get ?_
  dsimp only
  rw [copied.heap.object, text]
  cases (machine.heap.object ref).fields[name.text]? with
  | some value => exact Agree.pure copied value
  | none =>
      have found := copied.heap.findMethod (machine.heap.object ref).ofClass name.text
      dsimp only
      generalize machine.heap.findMethod? (machine.heap.object ref).ofClass name.text = method
        at found ⊢
      generalize machine'.heap.findMethod? (machine.heap.object ref).ofClass name.text = method'
        at found ⊢
      cases found with
      | none => exact Agree.fail copied lines _
      | some closures => exact Agree.bindMethod copied closures _

theorem Agree.getSuper (copied : copying.Machines machine machine') {id id' : UseId}
    (same : copying.others[id']? = copying.distances[id]?) {line line' : Nat}
    (lines : copying.Lines line line') {method method' : Name} (text : method'.text = method.text)
    (methodLines : copying.Lines method.line method'.line) :
    copying.Agree machine machine' (Eval.getSuper id line method)
      (Eval.getSuper id' line' method') := by
  refine Agree.get ?_
  have target : superTarget? machine' id' = superTarget? machine id := by
    unfold superTarget?
    rw [copied.others, same, ← copied.distances, copied.heap.scopes, copied.current]
  rw [target]
  cases superTarget? machine id with
  | none => exact Agree.fail copied lines _
  | some target =>
      rcases target with ⟨superclass, this⟩
      have found := copied.heap.findMethod superclass method.text
      dsimp only
      rw [text]
      generalize machine.heap.findMethod? superclass method.text = closure at found ⊢
      generalize machine'.heap.findMethod? superclass method.text = closure' at found ⊢
      cases found with
      | none => exact Agree.fail copied methodLines _
      | some closures => exact Agree.bindMethod copied closures this

theorem Agree.callNative (copied : copying.Machines machine machine') (native : Native)
    (arguments : List Value) {line line' : Nat} (lines : copying.Lines line line') :
    copying.Agree machine machine' (Eval.callNative native arguments line)
      (Eval.callNative native arguments line') := by
  unfold Eval.callNative
  cases native.action with
  | readClock =>
      refine ⟨?_, copied.heap, copied.globals, copied.current, copied.callDepth, copied.callLimit,
        copied.distances, copied.others, copied.sink, ?_⟩
      · rw [copied.clock]
      · rw [copied.clock]
  | compute run =>
      dsimp only
      cases run arguments with
      | ok value => exact Agree.pure copied value
      | error message => exact Agree.fail copied lines _

/-! ### Output -/

theorem Agree.writeLine (copied : copying.Machines machine machine') (text : String) :
    copying.Agree machine machine' (Eval.writeLine text) (Eval.writeLine text) := by
  unfold Agree Eval.writeLine
  dsimp only
  rw [copied.sink]
  have written : copying.Machines
      { machine with sink := machine.sink.write (text ++ "\n").toUTF8 }
      { machine' with sink := machine.sink.write (text ++ "\n").toUTF8 } :=
    ⟨copied.heap, copied.globals, copied.current, copied.callDepth, copied.callLimit,
      copied.distances, copied.others, rfl, copied.clock⟩
  by_cases room : machine.sink.hasRoom (text ++ "\n").toUTF8
  · rw [if_pos room, if_pos room]
    exact ⟨rfl, written⟩
  · rw [if_neg room, if_neg room]
    exact ⟨.output .sinkFull, written⟩

theorem Agree.flush (copied : copying.Machines machine machine') :
    copying.Agree machine machine' Eval.flush Eval.flush := by
  refine Agree.get ?_
  rw [copied.sink]
  by_cases fails : machine.sink.flushFails
  · rw [if_pos fails]
    exact Agree.throw copied (.output .flushFailed)
  · rw [if_neg fails]
    exact Agree.pure copied ()

/-! ### Calls and declarations -/

theorem Agree.ofResult (copied : copying.Machines machine machine') {line line' : Nat}
    (lines : copying.Lines line line') (result : Except RuntimeFault Value) :
    copying.Agree machine machine' (Eval.ofResult line result) (Eval.ofResult line' result) := by
  cases result with
  | ok value => exact Agree.pure copied value
  | error fault => exact Agree.fail copied lines fault

theorem Agree.expectClass (copied : copying.Machines machine machine') {line line' : Nat}
    (lines : copying.Lines line line') (value : Value) :
    copying.Agree machine machine' (Eval.expectClass line value)
      (Eval.expectClass line' value) := by
  cases value with
  | classRef ref => exact Agree.pure copied ref
  | _ => exact Agree.fail copied lines _

theorem Agree.checkCall (copied : copying.Machines machine machine') (callee : Value)
    {line line' : Nat} (lines : copying.Lines line line') (count : Nat) :
    copying.Agree machine machine' (Eval.checkCall callee line count)
      (Eval.checkCall callee line' count) := by
  refine Agree.get ?_
  rw [copied.heap.arity]
  cases machine.heap.arity? callee with
  | none => exact Agree.fail copied lines _
  | some arity =>
      have depth : copying.Agree machine machine' (Eval.checkDepth line)
          (Eval.checkDepth line') := by
        refine Agree.get ?_
        rw [copied.callLimit, copied.callDepth]
        by_cases full : machine.callLimit.any (· ≤ machine.callDepth) = true
        · rw [if_pos full, if_pos full]
          exact Agree.fail copied lines _
        · rw [if_neg full, if_neg full]
          exact Agree.pure copied ()
      dsimp only
      by_cases differs : count ≠ arity
      · rw [if_pos differs, if_pos differs]
        exact Agree.fail copied lines _
      · rw [if_neg differs, if_neg differs]
        exact depth

theorem Agree.callResult (copied : copying.Machines machine machine') {closure closure' : Closure}
    (closures : copying.Closures closure closure') {line line' : Nat}
    (lines : copying.Lines line line') (flow : Flow) :
    copying.Agree machine machine' (Eval.callResult closure line flow)
      (Eval.callResult closure' line' flow) := by
  unfold Eval.callResult
  rw [closures.isInitializer, closures.scope]
  by_cases isInitializer : closure.isInitializer
  · rw [if_pos isInitializer, if_pos isInitializer]
    refine Agree.get ?_
    rw [copied.heap.scopes]
    cases machine.heap.scopes.own? closure.scope "this" with
    | none => exact Agree.fail copied lines _
    | some this => exact Agree.pure copied this
  · rw [if_neg isInitializer, if_neg isInitializer]
    cases flow with
    | normal => exact Agree.pure copied _
    | returned value => exact Agree.pure copied value

theorem Agree.declareFunction (copied : copying.Machines machine machine')
    {use : UseId → UseId} {line : Nat → Nat} {declaration : FunctionDecl}
    (labels : copying.Labels use line (Stmt.functionIds declaration)) :
    copying.Agree machine machine' (Eval.declareFunction declaration)
      (Eval.declareFunction (Stmt.relabelFunction use line declaration)) := by
  have declarations : copying.Declarations declaration
      (Stmt.relabelFunction use line declaration) := .relabelled labels
  have closures : copying.Closures ⟨declaration, machine.current, false⟩
      ⟨Stmt.relabelFunction use line declaration, machine.current, false⟩ :=
    ⟨declarations, rfl, rfl⟩
  refine Agree.get ?_
  rw [copied.current, declarations.name]
  exact (Agree.newFunction copied closures).bind fun value _ _ later =>
    Agree.define later _ value

theorem methodTable_copied {use : UseId → UseId} {line : Nat → Nat}
    {declarations : List FunctionDecl}
    (labels : copying.Labels use line (Stmt.methodIds declarations)) (scope : ScopeRef)
    (name : String) :
    Option.Rel copying.Closures (Eval.methodTable declarations scope)[name]?
      (Eval.methodTable (Stmt.relabelMethods use line declarations) scope)[name]? := by
  -- The tables that the folds start with are generalized: they only have to be related.
  have general : ∀ table table' : Std.TreeMap String Closure,
      (∀ name : String, Option.Rel copying.Closures table[name]? table'[name]?) →
      Option.Rel copying.Closures
        (declarations.foldl (fun table declaration => table.insert declaration.name.text
          { declaration, scope, isInitializer := declaration.name.text = "init" }) table)[name]?
        ((Stmt.relabelMethods use line declarations).foldl (fun table declaration =>
          table.insert declaration.name.text
            { declaration, scope, isInitializer := declaration.name.text = "init" })
          table')[name]? := by
    induction declarations with
    | nil =>
        intro table table' related
        rw [Stmt.relabelMethods]
        exact related name
    | cons first rest inductionHypothesis =>
        intro table table' related
        rw [Stmt.methodIds] at labels
        have declared : copying.Declarations first (Stmt.relabelFunction use line first) :=
          .relabelled labels.left
        rw [Stmt.relabelMethods, List.foldl_cons, List.foldl_cons, declared.name]
        apply inductionHypothesis labels.right
        intro sought
        rw [Table.getElem?_insert, Table.getElem?_insert]
        split
        · exact .some ⟨declared, rfl, rfl⟩
        · exact related sought
  exact general ∅ ∅ fun name => by simp

theorem Agree.methodScope (copied : copying.Machines machine machine')
    (superclass : Option ClassRef) :
    copying.Agree machine machine' (Eval.methodScope superclass)
      (Eval.methodScope superclass) := by
  refine Agree.get ?_
  rw [copied.current]
  cases superclass with
  | none => exact Agree.pure copied _
  | some ref => exact Agree.openScope copied _ _

theorem Agree.declareClass (copied : copying.Machines machine machine') {name name' : Name}
    (text : name'.text = name.text) (superclass : Option ClassRef) {use : UseId → UseId}
    {line : Nat → Nat} {declarations : List FunctionDecl}
    (labels : copying.Labels use line (Stmt.methodIds declarations)) :
    copying.Agree machine machine' (Eval.declareClass name superclass declarations)
      (Eval.declareClass name' superclass (Stmt.relabelMethods use line declarations)) := by
  unfold Eval.declareClass
  rw [text]
  refine (Agree.define copied _ _).bind fun _ _ _ later => ?_
  refine (Agree.methodScope later superclass).bind fun scope middle middle' later => ?_
  let info : ClassInfo := ⟨name.text, superclass, Eval.methodTable declarations scope⟩
  let info' : ClassInfo :=
    ⟨name.text, superclass, Eval.methodTable (Stmt.relabelMethods use line declarations) scope⟩
  have classes : copying.Classes info info' :=
    ⟨rfl, rfl, methodTable_copied labels scope⟩
  have added : copying.Agree middle middle' (Eval.onHeap fun heap => heap.addClass info)
      (Eval.onHeap fun heap => heap.addClass info') := by
    refine Agree.onHeap later ?_ (later.heap.addClass classes)
    simp [Heap.addClass, later.heap.classCount]
  exact added.bind fun ref _ _ later => Agree.define later _ _

end Copying

end Lox
