import Lox.Proofs.Evaluation.Readiness

/-!
# What evaluation never changes

Functions and classes are only added.  So are scopes, and no scope that is there gets
another binding of `this` or `super`: programs cannot declare or assign these names.
The scope around the methods of a class binds `super` to its superclass.
-/

namespace Lox

open Actions Eval

/-! ## Heaps that persist -/

/-- The names that methods see without a declaration. -/
def IsReserved (name : String) : Prop :=
  name = "this" ∨ name = "super"

theorem Name.IsPlain.not_reserved {name : Name} (plain : name.IsPlain) :
    ¬ IsReserved name.text := by
  rintro (isThis | isSuper)
  · exact plain.1 isThis
  · exact plain.2 isSuper

namespace Heap

/-- Everything in the first heap is still there, with the same reserved bindings. -/
structure Persists (heap later : Heap) : Prop where
  grows : heap.scopes.Grows later.scopes
  reserved : ∀ {ref : ScopeRef} {name : String}, IsReserved name →
    ref.index < heap.scopes.cells.size → later.scopes.own? ref name = heap.scopes.own? ref name
  functions : ∀ {index : Nat} {closure : Closure}, heap.functions[index]? = some closure →
    later.functions[index]? = some closure
  classes : ∀ {index : Nat} {info : ClassInfo}, heap.classes[index]? = some info →
    later.classes[index]? = some info

theorem Persists.refl (heap : Heap) : heap.Persists heap :=
  ⟨.refl _, fun _ _ => rfl, id, id⟩

theorem Persists.trans {heap middle later : Heap} (first : heap.Persists middle)
    (second : middle.Persists later) : heap.Persists later where
  grows := first.grows.trans second.grows
  reserved isReserved present :=
    (second.reserved isReserved (Nat.lt_of_lt_of_le present first.grows.size)).trans
      (first.reserved isReserved present)
  functions found := second.functions (first.functions found)
  classes found := second.classes (first.classes found)

variable {heap : Heap}

theorem persists_define (heap : Heap) (ref : ScopeRef) {name : String} (value : Value)
    (plain : ¬ IsReserved name) : heap.Persists (heap.define ref name value) := by
  refine ⟨Scopes.grows_define heap.scopes ref name value, ?_, id, id⟩
  intro other sought isReserved _
  by_cases present : ref.index < heap.scopes.cells.size
  · have different : ¬ (other = ref ∧ sought = name) := fun same => plain (same.2 ▸ isReserved)
    exact (Scopes.own?_define heap.scopes ref other name sought value present).trans
      (if_neg different)
  · rw [define, Scopes.define_of_not_lt name value present]

theorem persists_push (heap : Heap) (scope : Scope) :
    heap.Persists { heap with scopes := heap.scopes.push scope } :=
  ⟨Scopes.grows_push heap.scopes scope,
    fun _ present => Scopes.own?_push_of_lt heap.scopes scope present _, id, id⟩

theorem getElem?_push_of_some {α : Type} {entries : Array α} {index : Nat} {entry : α} (last : α)
    (found : entries[index]? = some entry) : (entries.push last)[index]? = some entry := by
  have present := (Array.getElem?_eq_some_iff.mp found).1
  rw [Array.getElem?_push, if_neg (Nat.ne_of_lt present), found]

theorem persists_addFunction (heap : Heap) (closure : Closure) :
    heap.Persists (heap.addFunction closure).1 :=
  ⟨.refl _, fun _ _ => rfl, getElem?_push_of_some closure, id⟩

theorem persists_addClass (heap : Heap) (info : ClassInfo) :
    heap.Persists (heap.addClass info).1 :=
  ⟨.refl _, fun _ _ => rfl, id, getElem?_push_of_some info⟩

/-- A change of the objects alone. -/
theorem persists_objects (heap : Heap) (objects : Array Object) :
    heap.Persists { heap with objects } :=
  ⟨.refl _, fun _ _ => rfl, id, id⟩

theorem function_of_getElem? {ref : FunctionRef} {closure : Closure}
    (found : heap.functions[ref.index]? = some closure) : heap.function ref = closure := by
  rw [function, Array.getD_eq_getD_getElem?, found, Option.getD_some]

theorem classInfo_of_getElem? {ref : ClassRef} {info : ClassInfo}
    (found : heap.classes[ref.index]? = some info) : heap.classInfo ref = info := by
  rw [classInfo, Array.getD_eq_getD_getElem?, found, Option.getD_some]

/-! ## Well-formed heaps -/

/-- The method was declared in a class with the given superclass, and closes over a
scope that binds `super` to it. -/
structure MethodFormed (scopes : Scopes) (superclass : Option ClassRef) (method : Closure) :
    Prop where
  declaration : Stmt.FunctionWellFormed method.declaration
  present : method.scope.index < scopes.cells.size
  super : scopes.own? method.scope "super" = superclass.map .classRef

/-- All functions and methods are well-formed. -/
structure Formed (heap : Heap) : Prop where
  functions : ∀ {index : Nat} {closure : Closure}, heap.functions[index]? = some closure →
    Stmt.FunctionWellFormed closure.declaration
  methods : ∀ {index : Nat} {info : ClassInfo}, heap.classes[index]? = some info →
    ∀ {name : String} {method : Closure}, info.methods[name]? = some method →
    MethodFormed heap.scopes info.superclass method

theorem MethodFormed.mono {scopes later : Scopes} {superclass : Option ClassRef} {method : Closure}
    (formed : MethodFormed scopes superclass method) (grows : scopes.Grows later)
    (reserved : later.own? method.scope "super" = scopes.own? method.scope "super") :
    MethodFormed later superclass method :=
  ⟨formed.declaration, Nat.lt_of_lt_of_le formed.present grows.size, reserved.trans formed.super⟩

/-- A change of scopes and objects in which the heap persists. -/
theorem Formed.later {later : Heap} (formed : heap.Formed) (persists : heap.Persists later)
    (functions : later.functions = heap.functions) (classes : later.classes = heap.classes) :
    later.Formed where
  functions found := formed.functions (functions ▸ found)
  methods := by
    intro index info found name method isMethod
    rw [classes] at found
    have isFormed := formed.methods found isMethod
    exact isFormed.mono persists.grows (persists.reserved (.inr rfl) isFormed.present)

theorem Formed.addFunction (formed : heap.Formed) {closure : Closure}
    (isFormed : Stmt.FunctionWellFormed closure.declaration) :
    (heap.addFunction closure).1.Formed where
  functions := by
    intro index other found
    change (heap.functions.push closure)[index]? = some other at found
    rw [Array.getElem?_push] at found
    split at found
    · cases found
      exact isFormed
    · exact formed.functions found
  methods := formed.methods

theorem Formed.addClass (formed : heap.Formed) {info : ClassInfo}
    (isFormed : ∀ {name : String} {method : Closure}, info.methods[name]? = some method →
      MethodFormed heap.scopes info.superclass method) :
    (heap.addClass info).1.Formed where
  functions := formed.functions
  methods := by
    intro index other found name method isMethod
    change (heap.classes.push info)[index]? = some other at found
    rw [Array.getElem?_push] at found
    split at found
    · cases found
      exact isFormed isMethod
    · exact formed.methods found isMethod

theorem Formed.function (formed : heap.Formed) (ref : FunctionRef) :
    Stmt.FunctionWellFormed (heap.function ref).declaration := by
  cases found : heap.functions[ref.index]? with
  | some closure =>
      rw [function_of_getElem? found]
      exact formed.functions found
  | none =>
      rw [Heap.function, Array.getD_eq_getD_getElem?, found]
      exact ⟨⟨by decide, by decide⟩, fun _ inNone => absurd inNone List.not_mem_nil, trivial⟩

/-- The nearest class that declares a method of the name, from a class outward over its
superclasses. -/
def declarer? (heap : Heap) (ref : ClassRef) (name : String) : Option ClassRef :=
  match (heap.classInfo ref).methods[name]? with
  | some _ => some ref
  | none =>
      match (heap.classInfo ref).superclass with
      | some superclass =>
          if superclass.index < ref.index then heap.declarer? superclass name else none
      | none => none
termination_by ref.index

/-- The method that is found is that of the nearest class that declares one. -/
theorem findMethod?_eq (heap : Heap) (ref : ClassRef) (name : String) :
    heap.findMethod? ref name =
      (heap.declarer? ref name).bind fun declarer => (heap.classInfo declarer).methods[name]? := by
  fun_induction heap.findMethod? ref name with
  | case1 ref method isOwn =>
      rw [declarer?, isOwn]
      exact isOwn.symm
  | case2 ref notOwn superclass isSuperclass earlier inductionHypothesis =>
      rw [declarer?, notOwn, isSuperclass]
      simp only [if_pos earlier]
      exact inductionHypothesis
  | case3 ref notOwn superclass isSuperclass notEarlier =>
      rw [declarer?, notOwn, isSuperclass]
      simp only [if_neg notEarlier]
      rfl
  | case4 ref notOwn noSuperclass =>
      rw [declarer?, notOwn, noSuperclass]
      rfl

/-- A class that has a method is in the heap. -/
theorem getElem?_classes {ref : ClassRef} {name : String} {method : Closure}
    (found : (heap.classInfo ref).methods[name]? = some method) :
    heap.classes[ref.index]? = some (heap.classInfo ref) := by
  cases present : heap.classes[ref.index]? with
  | some info => rw [classInfo_of_getElem? present]
  | none =>
      rw [classInfo, Array.getD_eq_getD_getElem?, present] at found
      simp [default] at found

theorem Formed.method (formed : heap.Formed) {ref : ClassRef} {name : String} {method : Closure}
    (found : (heap.classInfo ref).methods[name]? = some method) :
    MethodFormed heap.scopes (heap.classInfo ref).superclass method :=
  formed.methods (getElem?_classes found) found

theorem Formed.findMethod (formed : heap.Formed) {ref : ClassRef} {name : String}
    {method : Closure} (found : heap.findMethod? ref name = some method) :
    Stmt.FunctionWellFormed method.declaration := by
  rw [findMethod?_eq, Option.bind_eq_some_iff] at found
  rcases found with ⟨declarer, -, isMethod⟩
  exact (formed.method isMethod).declaration

theorem bind_fst (heap : Heap) (method : Closure) (this : Value) :
    (heap.bind method this).1 =
      { heap with
        scopes := heap.scopes.push
          { bindings := (∅ : Bindings).insert "this" this, parent := some method.scope } } :=
  define_openScope heap (some method.scope) "this" this

theorem persists_bind (heap : Heap) (method : Closure) (this : Value) :
    heap.Persists (heap.bind method this).1 := by
  rw [bind_fst]
  exact persists_push heap _

end Heap

/-! ## Machines that persist -/

namespace Machine

/-- The heap is well-formed, and the current scope does not bind `super`. -/
structure Formed (machine : Machine) : Prop where
  heap : machine.heap.Formed
  present : machine.current.index < machine.heap.scopes.cells.size
  noSuper : machine.heap.scopes.own? machine.current "super" = none

/-- If the machine is well-formed, it is so later on, and its heap persists. -/
def Persists (machine later : Machine) : Prop :=
  machine.Formed → later.Formed ∧ machine.heap.Persists later.heap

theorem persistsOrder : StepOrder Persists where
  refl machine formed := ⟨formed, .refl machine.heap⟩
  trans first second formed := by
    rcases first formed with ⟨formedBetween, firstPersists⟩
    rcases second formedBetween with ⟨formedLater, secondPersists⟩
    exact ⟨formedLater, firstPersists.trans secondPersists⟩

/-- The current scope stays as it is when the heap persists. -/
theorem Formed.withHeap {machine : Machine} (formed : machine.Formed) {heap : Heap}
    (isFormed : heap.Formed) (persists : machine.heap.Persists heap) :
    ({ machine with heap } : Machine).Formed :=
  ⟨isFormed, Nat.lt_of_lt_of_le formed.present persists.grows.size,
    (persists.reserved (.inr rfl) formed.present).trans formed.noSuper⟩

end Machine

/-- However the action ends, a well-formed machine persists. -/
abbrev Eval.Kept {α : Type} (action : Eval α) : Prop :=
  Respects Machine.Persists action

namespace Eval

variable {α β : Type}

theorem kept_pure (value : α) : Kept (pure value : Eval α) :=
  Respects.pure Machine.persistsOrder value

theorem kept_throw (interrupt : Interrupt) : Kept (throw interrupt : Eval α) :=
  Respects.throw Machine.persistsOrder interrupt

theorem kept_fail (line : Nat) (fault : RuntimeFault) : Kept (fail line fault : Eval α) :=
  kept_throw _

theorem Kept.bind {first : Eval α} {next : α → Eval β} (firstKept : Kept first)
    (nextKept : ∀ value, Kept (next value)) : Kept (first >>= next) :=
  Respects.bind Machine.persistsOrder firstKept nextKept

/-- The machine that an action looks at is well-formed. -/
theorem kept_get {next : Machine → Eval α}
    (kept : ∀ machine : Machine, machine.Formed → Kept (next machine)) :
    Kept (get >>= next) := by
  intro machine formed
  exact kept machine formed machine formed

theorem kept_onHeap {action : Heap → Heap × α}
    (kept : ∀ heap : Heap, heap.Formed →
      (action heap).1.Formed ∧ heap.Persists (action heap).1) :
    Kept (onHeap action) := by
  intro machine formed
  rcases kept machine.heap formed.heap with ⟨isFormed, persists⟩
  exact ⟨formed.withHeap isFormed persists, persists⟩

theorem kept_define {name : String} (plain : ¬ IsReserved name) (value : Value) :
    Kept (define name value) := by
  intro machine formed
  have persists := machine.heap.persists_define machine.current value plain
  exact ⟨formed.withHeap (formed.heap.later persists rfl rfl) persists, persists⟩

theorem kept_openScope (bindings : Bindings) (parent : Option ScopeRef) :
    Kept (openScope bindings parent) := by
  apply kept_onHeap
  intro heap formed
  have persists := heap.persists_push { bindings, parent }
  exact ⟨formed.later persists rfl rfl, persists⟩

/-- A new scope that does not bind `super` can be entered. -/
theorem formed_inside {machine middle : Machine} {bindings : Bindings} {parent : Option ScopeRef}
    {scope : ScopeRef} (formed : machine.Formed) (noSuper : bindings["super"]? = none)
    (opened : openScope bindings parent machine = .ok scope middle) :
    ({ middle with current := scope } : Machine).Formed := by
  have ended := (kept_openScope bindings parent machine formed).1
  cases opened
  refine ⟨ended.heap, ?_, ?_⟩
  · change machine.heap.scopes.cells.size < (machine.heap.scopes.push _).cells.size
    rw [Scopes.push_size]
    exact Nat.lt_succ_self _
  · change (machine.heap.scopes.push _).own? machine.heap.scopes.nextRef "super" = none
    rw [Scopes.own?, Scopes.bindings_push_nextRef]
    exact noSuper

/-- What persists in a scope that was entered persists when it is left. -/
theorem persists_within {machine : Machine} {scope : ScopeRef} {action : Eval α}
    (kept : Kept action) (inside : ({ machine with current := scope } : Machine).Formed) :
    machine.Persists (endState (within scope action machine)) := by
  intro formed
  rcases kept _ inside with ⟨ended, persists⟩
  rw [endState_within]
  have returned := formed.withHeap ended.heap persists
  exact ⟨⟨returned.heap, returned.present, returned.noSuper⟩, persists⟩

theorem Kept.inside {bindings : Bindings} {parent : Option ScopeRef} {action : Eval α}
    (kept : Kept action) (noSuper : bindings["super"]? = none) :
    Kept (openScope bindings parent >>= fun scope => within scope action) := by
  intro machine formed
  have started : openScope bindings parent machine =
      .ok machine.heap.scopes.nextRef (endState (openScope bindings parent machine)) := rfl
  rw [bind_of_ok started]
  exact Machine.persistsOrder.trans (kept_openScope bindings parent machine)
    (persists_within kept (formed_inside formed noSuper started)) formed

theorem Kept.counted {action : Eval α} (kept : Kept action) : Kept (counted action) := by
  intro machine formed
  have entered : ({ machine with callDepth := machine.callDepth + 1 } : Machine).Formed :=
    ⟨formed.heap, formed.present, formed.noSuper⟩
  rcases kept _ entered with ⟨ended, persists⟩
  rw [endState_counted]
  exact ⟨⟨ended.heap, ended.present, ended.noSuper⟩, persists⟩

/-- An action that changes nothing. -/
theorem kept_of_still {action : Eval α} (still : ∀ machine, endState (action machine) = machine) :
    Kept action := by
  intro machine
  rw [still]
  exact Machine.persistsOrder.refl machine

theorem kept_readVariable (id : UseId) (name : Name) : Kept (readVariable id name) := by
  apply kept_of_still
  intro machine
  unfold readVariable
  dsimp only
  repeat' split
  all_goals rfl

theorem kept_writeVariable (id : UseId) {name : Name} (plain : name.IsPlain) (value : Value) :
    Kept (writeVariable id name value) := by
  apply kept_get
  intro machine _
  split
  next scope _ =>
    apply kept_onHeap
    intro heap formed
    have persists := heap.persists_define scope value plain.not_reserved
    exact ⟨formed.later persists rfl rfl, persists⟩
  next => exact kept_fail _ _

theorem kept_newFunction {closure : Closure}
    (isFormed : Stmt.FunctionWellFormed closure.declaration) : Kept (newFunction closure) := by
  have added : Kept (onHeap fun heap => heap.addFunction closure) :=
    kept_onHeap fun heap formed => ⟨formed.addFunction isFormed, heap.persists_addFunction closure⟩
  exact added.bind fun _ => kept_pure _

theorem kept_bindHeap (method : Closure) (this : Value) :
    Kept (onHeap fun heap => heap.bind method this) := by
  apply kept_onHeap
  intro heap formed
  have persists := heap.persists_bind method this
  exact ⟨formed.later persists rfl rfl, persists⟩

theorem kept_bindMethod {method : Closure}
    (isFormed : Stmt.FunctionWellFormed method.declaration) (this : Value) :
    Kept (bindMethod method this) := by
  intro machine
  have added : Kept (newFunction { method with scope := machine.heap.scopes.nextRef }) :=
    kept_newFunction isFormed
  exact Machine.persistsOrder.trans (kept_bindHeap method this machine) (added _)

theorem kept_addObject (ref : ClassRef) : Kept (onHeap fun heap => heap.addObject ref) := by
  apply kept_onHeap
  intro heap formed
  have persists := heap.persists_objects (heap.objects.push { ofClass := ref, fields := ∅ })
  exact ⟨formed.later persists rfl rfl, persists⟩

theorem kept_setField (ref : ObjectRef) (name : String) (value : Value) :
    Kept (onHeap fun heap => (heap.setField ref name value, ())) := by
  apply kept_onHeap
  intro heap formed
  have persists := heap.persists_objects (heap.setField ref name value).objects
  exact ⟨formed.later persists rfl rfl, persists⟩

theorem kept_getProperty (ref : ObjectRef) (name : Name) : Kept (getProperty ref name) := by
  apply kept_get
  intro machine formed
  dsimp only
  split
  · exact kept_pure _
  · split
    next method found => exact kept_bindMethod (formed.heap.findMethod found) _
    next => exact kept_fail _ _

theorem kept_getSuper (id : UseId) (line : Nat) (method : Name) :
    Kept (getSuper id line method) := by
  apply kept_get
  intro machine formed
  split
  · split
    next found isFound => exact kept_bindMethod (formed.heap.findMethod isFound) _
    next => exact kept_fail _ _
  · exact kept_fail _ _

theorem kept_callNative (native : Native) (arguments : List Value) (line : Nat) :
    Kept (callNative native arguments line) := by
  unfold callNative
  split
  · intro machine formed
    exact ⟨⟨formed.heap, formed.present, formed.noSuper⟩, .refl machine.heap⟩
  · split
    · exact kept_pure _
    · exact kept_fail _ _

theorem kept_writeLine (text : String) : Kept (writeLine text) := by
  intro machine formed
  unfold writeLine
  dsimp only
  split
  · exact ⟨⟨formed.heap, formed.present, formed.noSuper⟩, .refl machine.heap⟩
  · exact ⟨⟨formed.heap, formed.present, formed.noSuper⟩, .refl machine.heap⟩

theorem kept_flush : Kept flush :=
  kept_get fun _ _ => Respects.ite (kept_throw _) (kept_pure _)

/-! ## Declarations and calls -/

theorem kept_ofResult (line : Nat) (result : Except RuntimeFault Value) :
    Kept (ofResult line result) := by
  cases result with
  | ok value => exact kept_pure value
  | error fault => exact kept_fail line fault

theorem kept_expectClass (line : Nat) (value : Value) : Kept (expectClass line value) := by
  unfold expectClass
  split
  · exact kept_pure _
  · exact kept_fail _ _

theorem kept_callResult (closure : Closure) (line : Nat) (flow : Flow) :
    Kept (callResult closure line flow) := by
  unfold callResult
  refine Respects.ite (kept_get fun machine _ => ?_) ?_
  · split
    · exact kept_pure _
    · exact kept_fail _ _
  · cases flow with
    | normal => exact kept_pure _
    | returned value => exact kept_pure _

theorem kept_checkCall (callee : Value) (line count : Nat) :
    Kept (checkCall callee line count) := by
  have depth : Kept (checkDepth line) := kept_of_still (checkDepth_still line)
  apply kept_get
  intro machine _
  split
  · exact kept_fail _ _
  · exact Respects.ite ((kept_fail _ _).bind fun _ => depth) depth

theorem kept_declareFunction {declaration : FunctionDecl}
    (formed : Stmt.FunctionWellFormed declaration) : Kept (declareFunction declaration) := by
  have plain : declaration.name.IsPlain := by
    cases declaration
    exact formed.1
  apply kept_get
  intro machine _
  exact (kept_newFunction formed).bind fun _ => kept_define plain.not_reserved _

/-- The methods of a class are well-formed if the scope they close over binds its
superclass. -/
theorem methodTable_formed {scopes : Scopes} {scope : ScopeRef} {superclass : Option ClassRef}
    {declarations : List FunctionDecl} (formed : Stmt.MethodsWellFormed declarations)
    (present : scope.index < scopes.cells.size)
    (super : scopes.own? scope "super" = superclass.map .classRef) {name : String}
    {method : Closure} (found : (methodTable declarations scope)[name]? = some method) :
    Heap.MethodFormed scopes superclass method := by
  rcases methodTable_declared found with ⟨declared, rfl⟩
  exact ⟨Stmt.methodsWellFormed_iff.mp formed _ declared, present, super⟩

/-- The scope that methods close over binds `super` to the superclass, if there is one. -/
theorem methodScope_spec {machine : Machine} (formed : machine.Formed)
    (superclass : Option ClassRef) :
    ∃ scope later, methodScope superclass machine = .ok scope later ∧ later.Formed ∧
      machine.heap.Persists later.heap ∧ scope.index < later.heap.scopes.cells.size ∧
      later.heap.scopes.own? scope "super" = superclass.map .classRef ∧
      later.heap.classes = machine.heap.classes := by
  cases superclass with
  | none =>
      exact ⟨machine.current, machine, rfl, formed, .refl machine.heap, formed.present,
        formed.noSuper, rfl⟩
  | some ref =>
      let bindings : Bindings := (∅ : Bindings).insert "super" (.classRef ref)
      rcases kept_openScope bindings (some machine.current) machine formed with ⟨opened, persists⟩
      refine ⟨machine.heap.scopes.nextRef, _, rfl, opened, persists, ?_, ?_, rfl⟩
      · change machine.heap.scopes.cells.size < (machine.heap.scopes.push _).cells.size
        rw [Scopes.push_size]
        exact Nat.lt_succ_self _
      · change (machine.heap.scopes.push _).own? machine.heap.scopes.nextRef "super" = _
        rw [Scopes.own?, Scopes.bindings_push_nextRef, Table.getElem?_insert, if_pos rfl]
        rfl

/-- A class that is declared is added with its superclass. -/
theorem declareClass_spec {machine : Machine} (formed : machine.Formed) {name : Name}
    (plain : name.IsPlain) (superclass : Option ClassRef) {declarations : List FunctionDecl}
    (methodsFormed : Stmt.MethodsWellFormed declarations) :
    ∃ later, declareClass name superclass declarations machine = .ok () later ∧ later.Formed ∧
      machine.heap.Persists later.heap ∧
      ∃ info, later.heap.classes[machine.heap.classes.size]? = some info ∧
        info.superclass = superclass := by
  rcases kept_define plain.not_reserved .nil machine formed with ⟨defined, definedPersists⟩
  rcases methodScope_spec defined superclass with
    ⟨scope, opened, isOpened, openedFormed, openedPersists, present, super, sameClasses⟩
  let info : ClassInfo :=
    { name := name.text, superclass, methods := methodTable declarations scope }
  have added : (opened.heap.addClass info).1.Formed :=
    openedFormed.heap.addClass fun found => methodTable_formed methodsFormed present super found
  have addedPersists := opened.heap.persists_addClass info
  have withClass := openedFormed.withHeap added addedPersists
  rcases kept_define plain.not_reserved (.classRef (opened.heap.addClass info).2) _ withClass with
    ⟨final, finalPersists⟩
  refine ⟨_, ?_, final, ?_, info, ?_, rfl⟩
  · have started : define name.text .nil machine =
        .ok () (endState (define name.text .nil machine)) := rfl
    rw [declareClass, bind_of_ok started, bind_of_ok isOpened]
    rfl
  · exact ((definedPersists.trans openedPersists).trans addedPersists).trans finalPersists
  · change (opened.heap.classes.push info)[machine.heap.classes.size]? = some info
    rw [sameClasses]
    exact Array.getElem?_push_size

theorem kept_declareClass {name : Name} (plain : name.IsPlain) (superclass : Option ClassRef)
    {declarations : List FunctionDecl} (methodsFormed : Stmt.MethodsWellFormed declarations) :
    Kept (declareClass name superclass declarations) := by
  intro machine formed
  rcases declareClass_spec formed plain superclass methodsFormed with
    ⟨later, succeeded, final, persists, -⟩
  rw [succeeded]
  exact ⟨final, persists⟩

end Eval

/-! ## Evaluation -/

/-- Whatever well-formed tree is evaluated with the given fuel, the machine persists. -/
structure KeptAt (fuel : Nat) : Prop where
  evaluate : ∀ expr : Expr, expr.WellFormed → Kept (evaluate fuel expr)
  evaluateEach : ∀ {exprs : List Expr}, Expr.WellFormedEach exprs →
    Kept (evaluateEach fuel exprs)
  callValue : ∀ callee arguments line, Kept (callValue fuel callee arguments line)
  callFunction : ∀ closure : Closure, Stmt.FunctionWellFormed closure.declaration →
    ∀ arguments line, Kept (callFunction fuel closure arguments line)
  execute : ∀ {stmt : Stmt}, stmt.WellFormed → Kept (execute fuel stmt)
  executeEach : ∀ {stmts : List Stmt}, Stmt.WellFormedEach stmts → Kept (executeEach fuel stmts)
  executeWhile : ∀ {condition : Expr} {body : Stmt}, condition.WellFormed → body.WellFormed →
    Kept (executeWhile fuel condition body)

theorem keptAt_zero : KeptAt 0 where
  evaluate _ _ := kept_throw _
  evaluateEach _ := kept_throw _
  callValue _ _ _ := kept_throw _
  callFunction _ _ _ _ := kept_throw _
  execute _ := kept_throw _
  executeEach _ := kept_throw _
  executeWhile _ _ := kept_throw _

namespace KeptAt

variable {fuel : Nat}

theorem evaluate_succ (kept : KeptAt fuel) (expr : Expr) (formed : expr.WellFormed) :
    Kept (Lox.evaluate (fuel + 1) expr) := by
  cases expr with
  | literal value => exact kept_pure _
  | group inner => exact kept.evaluate inner formed
  | unary operator operand => exact (kept.evaluate operand formed).bind fun _ => kept_ofResult _ _
  | binary left operator right =>
      refine (kept.evaluate left formed.1).bind fun _ => ?_
      refine (kept.evaluate right formed.2).bind fun _ => ?_
      exact kept_ofResult _ _
  | logical left operator right =>
      refine (kept.evaluate left formed.1).bind fun _ => ?_
      exact Respects.ite (kept_pure _) (kept.evaluate right formed.2)
  | var id name => exact kept_readVariable id name
  | assign id name value =>
      refine (kept.evaluate value formed.2).bind fun _ => ?_
      exact (kept_writeVariable id formed.1 _).bind fun _ => kept_pure _
  | call callee line arguments =>
      refine (kept.evaluate callee formed.1).bind fun _ => ?_
      refine (kept.evaluateEach formed.2).bind fun _ => ?_
      exact (kept_checkCall _ line _).bind fun _ => (kept.callValue _ _ line).counted
  | get object name =>
      refine (kept.evaluate object formed).bind fun found => ?_
      split
      · exact kept_getProperty _ name
      · exact kept_fail _ _
  | set object name value =>
      refine (kept.evaluate object formed.1).bind fun found => ?_
      split
      · refine (kept.evaluate value formed.2).bind fun _ => ?_
        exact (kept_setField _ name.text _).bind fun _ => kept_pure _
      · exact kept_fail _ _
  | this id line => exact kept_readVariable id _
  | super id line method => exact kept_getSuper id line method

theorem evaluateEach_succ (kept : KeptAt fuel) {exprs : List Expr}
    (formed : Expr.WellFormedEach exprs) : Kept (Lox.evaluateEach (fuel + 1) exprs) := by
  cases exprs with
  | nil => exact kept_pure _
  | cons first rest =>
      refine (kept.evaluate first formed.1).bind fun _ => ?_
      refine (kept.evaluateEach formed.2).bind fun _ => ?_
      exact kept_pure _

theorem callValue_succ (kept : KeptAt fuel) (callee : Value) (arguments : List Value)
    (line : Nat) : Kept (Lox.callValue (fuel + 1) callee arguments line) := by
  cases callee with
  | native ref => exact kept_get fun _ _ => kept_callNative _ _ _
  | function ref =>
      apply kept_get
      intro machine formed
      exact kept.callFunction _ (formed.heap.function ref) arguments line
  | classRef ref =>
      refine (kept_addObject ref).bind fun object => kept_get fun machine formed => ?_
      split
      next initializer found =>
        have isFormed := formed.heap.findMethod found
        intro start
        let bound : Closure := { initializer with scope := start.heap.scopes.nextRef }
        have called := (kept.callFunction bound isFormed arguments line).bind fun _ =>
          kept_pure (Value.object object)
        exact Machine.persistsOrder.trans (kept_bindHeap initializer (.object object) start)
          (called _)
      next => exact kept_pure _
  | _ => exact kept_fail _ _

theorem callFunction_succ (kept : KeptAt fuel) (closure : Closure)
    (formed : Stmt.FunctionWellFormed closure.declaration) (arguments : List Value) (line : Nat) :
    Kept (Lox.callFunction (fuel + 1) closure arguments line) := by
  rcases closure with ⟨⟨name, params, body⟩, scope, isInitializer⟩
  have ran : Kept (openScope (parameterBindings params arguments) (some scope) >>= fun inner =>
      within inner (Lox.executeEach fuel body)) :=
    (kept.executeEach formed.2.2).inside (parameterBindings_super arguments formed.2.1)
  have whole := ran.bind fun flow =>
    kept_callResult ⟨⟨name, params, body⟩, scope, isInitializer⟩ line flow
  rw [bind_assoc] at whole
  exact whole

theorem execute_succ (kept : KeptAt fuel) {stmt : Stmt} (formed : stmt.WellFormed) :
    Kept (Lox.execute (fuel + 1) stmt) := by
  cases stmt with
  | expression value => exact (kept.evaluate value formed).bind fun _ => kept_pure _
  | print value =>
      refine (kept.evaluate value formed).bind fun _ => kept_get fun _ _ => ?_
      exact (kept_writeLine _).bind fun _ => kept_pure _
  | var name initializer =>
      cases initializer with
      | none => exact (kept_define formed.1.not_reserved _).bind fun _ => kept_pure _
      | some value =>
          refine (kept.evaluate value (formed.2 value rfl)).bind fun _ => ?_
          exact (kept_define formed.1.not_reserved _).bind fun _ => kept_pure _
  | block body =>
      refine kept_get fun machine _ => ?_
      exact (kept.executeEach formed).inside (by simp)
  | if_ condition thenBranch elseBranch =>
      have conditionFormed := Stmt.condition_wellFormed formed
      refine (kept.evaluate condition conditionFormed).bind fun _ => Respects.ite
        (kept.execute (Stmt.thenBranch_wellFormed formed)) ?_
      cases elseBranch with
      | none => exact kept_pure _
      | some elseBranch => exact kept.execute formed.2.2.1
  | while_ condition body => exact kept.executeWhile formed.1 formed.2.1
  | function declaration => exact (kept_declareFunction formed).bind fun _ => kept_pure _
  | return_ line value =>
      cases value with
      | none => exact kept_pure _
      | some value => exact (kept.evaluate value (formed value rfl)).bind fun _ => kept_pure _
  | class_ name superclass methods =>
      cases superclass with
      | none => exact (kept_declareClass formed.1 none formed.2.2).bind fun _ => kept_pure _
      | some superclass =>
          have isFormed := (formed.2.1 superclass rfl).wellFormed
          refine (kept.evaluate superclass isFormed).bind fun _ => ?_
          refine (kept_expectClass _ _).bind fun parent => ?_
          exact (kept_declareClass formed.1 (some parent) formed.2.2).bind fun _ => kept_pure _

theorem executeEach_succ (kept : KeptAt fuel) {stmts : List Stmt}
    (formed : Stmt.WellFormedEach stmts) : Kept (Lox.executeEach (fuel + 1) stmts) := by
  cases stmts with
  | nil => exact kept_pure _
  | cons first rest =>
      refine (kept.execute formed.1).bind fun flow => ?_
      cases flow with
      | returned value => exact kept_pure _
      | normal => exact kept.executeEach formed.2

theorem executeWhile_succ (kept : KeptAt fuel) {condition : Expr} {body : Stmt}
    (conditionFormed : condition.WellFormed) (bodyFormed : body.WellFormed) :
    Kept (Lox.executeWhile (fuel + 1) condition body) := by
  refine (kept.evaluate condition conditionFormed).bind fun _ => Respects.ite ?_ (kept_pure _)
  refine (kept.execute bodyFormed).bind fun flow => ?_
  cases flow with
  | returned value => exact kept_pure _
  | normal => exact kept.executeWhile conditionFormed bodyFormed

end KeptAt

theorem keptAt (fuel : Nat) : KeptAt fuel := by
  induction fuel with
  | zero => exact keptAt_zero
  | succ fuel inductionHypothesis =>
      exact {
        evaluate := inductionHypothesis.evaluate_succ
        evaluateEach := inductionHypothesis.evaluateEach_succ
        callValue := inductionHypothesis.callValue_succ
        callFunction := inductionHypothesis.callFunction_succ
        execute := inductionHypothesis.execute_succ
        executeEach := inductionHypothesis.executeEach_succ
        executeWhile := inductionHypothesis.executeWhile_succ }

theorem kept_executeProgram (fuel : Nat) {program : List Stmt}
    (formed : Stmt.WellFormedEach program) : Kept (executeProgram fuel program) := by
  induction program with
  | nil => exact kept_flush
  | cons first rest inductionHypothesis =>
      exact ((keptAt fuel).execute formed.1).bind fun _ => inductionHypothesis formed.2

end Lox
