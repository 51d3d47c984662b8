import Lox.Proofs.Lexical.Correspondence

/-!
# Single steps of the machine and of the store

Each step of the machine and its counterpart of the lexical semantics end in the
same way, in states that mirror each other.
-/

namespace Lox

namespace Lexical

open Actions
open ResolverState (distance?)

/-! ## Actions side by side -/

/-- The actions are interrupted in the same way, or both yield values, and lead to
states that mirror each other. -/
def Simulates (known : Visit → Prop) (isOpen : Bool) (world : World) (machine : Machine)
    (store : Store) {α β : Type} (action : Eval α) (reference : Action β)
    (post : World → α → β → Machine → Prop) : Prop :=
  Paired
    (fun value final value' final' => ∃ later, world.Extends isOpen machine.current later ∧
      machine.Grows final ∧ Mirrors known later final final' ∧ post later value value' final)
    (fun cause final cause' final' => cause' = cause ∧ ∃ later,
      world.Extends isOpen machine.current later ∧ machine.Grows final ∧
        Mirrors known later final final')
    (action machine) (reference store)

/-- The actions moreover yield the same value. -/
abbrev Agrees (known : Visit → Prop) (isOpen : Bool) (world : World) (machine : Machine)
    (store : Store) {α : Type} (action : Eval α) (reference : Action α) : Prop :=
  Simulates known isOpen world machine store action reference
    fun _ value value' _ => value' = value

section Steps

variable {known : Visit → Prop} {isOpen : Bool} {world : World} {machine : Machine}
  {store : Store} {α β γ δ : Type}

/-- Actions that first get to later states. -/
theorem Simulates.of_later {action rest : Eval α} {reference rest' : Action β}
    {post : World → α → β → Machine → Prop} {later : World} {middle : Machine} {middle' : Store}
    (simulates : Simulates known isOpen later middle middle' rest rest' post)
    (extension : world.Extends isOpen machine.current later) (grows : machine.Grows middle)
    (same : action machine = rest middle) (same' : reference store = rest' middle') :
    Simulates known isOpen world machine store action reference post := by
  rw [Simulates, same, same']
  refine Paired.imp simulates ?_ ?_
  · rintro value final value' final' ⟨last, lastExtension, lastGrows, mirrors, holds⟩
    rw [grows.current] at lastExtension
    exact ⟨last, extension.trans lastExtension, Machine.growsOrder.trans grows lastGrows, mirrors,
      holds⟩
  · rintro cause final cause' final' ⟨sameCause, last, lastExtension, lastGrows, mirrors⟩
    rw [grows.current] at lastExtension
    exact ⟨sameCause, last, extension.trans lastExtension,
      Machine.growsOrder.trans grows lastGrows, mirrors⟩

theorem Simulates.bind {action : Eval α} {next : α → Eval β} {reference : Action γ}
    {next' : γ → Action δ} {between : World → α → γ → Machine → Prop}
    {post : World → β → δ → Machine → Prop}
    (first : Simulates known isOpen world machine store action reference between)
    (second : ∀ later value value' final final', world.Extends isOpen machine.current later →
      machine.Grows final → Mirrors known later final final' → between later value value' final →
      Simulates known isOpen later final final' (next value) (next' value') post) :
    Simulates known isOpen world machine store (action >>= next) (reference >>= next') post := by
  refine Paired.cases first ?_ ?_
  · rintro value middle value' middle' result result' ⟨later, extension, grows, mirrors, holds⟩
    have following := second later value value' middle middle' extension grows mirrors holds
    exact following.of_later extension grows (bind_of_ok result) (bind_of_ok result')
  · intro cause middle cause' middle' result result' stopped
    rw [Simulates, bind_of_error result, bind_of_error result']
    exact stopped

/-- The store may wrap up what it yields. -/
theorem Simulates.mapReference {action : Eval α} {reference : Action β} {wrap : β → γ}
    {post : World → α → β → Machine → Prop} {weaker : World → α → γ → Machine → Prop}
    (simulates : Simulates known isOpen world machine store action reference post)
    (imp : ∀ later value value' final, machine.Grows final → post later value value' final →
      weaker later value (wrap value') final) :
    Simulates known isOpen world machine store action
      (reference >>= fun value => pure (wrap value)) weaker := by
  refine Paired.cases simulates ?_ ?_
  · rintro value final value' final' result result' ⟨later, extension, grows, mirrors, holds⟩
    rw [Simulates, result, bind_of_ok result']
    exact ⟨later, extension, grows, mirrors, imp _ _ _ _ grows holds⟩
  · intro cause final cause' final' result result' stopped
    rw [Simulates, result, bind_of_error result']
    exact stopped

/-- What gives no sites to the current scope is possible while it is open. -/
theorem Simulates.opened {action : Eval α} {reference : Action β}
    {post : World → α → β → Machine → Prop}
    (simulates : Simulates known false world machine store action reference post) :
    Simulates known isOpen world machine store action reference fun later value value' final =>
      world.Extends false machine.current later ∧ post later value value' final := by
  refine Paired.imp simulates ?_ ?_
  · rintro value final value' final' ⟨later, extension, grows, mirrors, holds⟩
    exact ⟨later, extension.opened, grows, mirrors, extension, holds⟩
  · rintro cause final cause' final' ⟨sameCause, later, extension, grows, mirrors⟩
    exact ⟨sameCause, later, extension.opened, grows, mirrors⟩

theorem Simulates.pure {post : World → α → β → Machine → Prop}
    (mirrors : Mirrors known world machine store) {value : α} {value' : β}
    (holds : post world value value' machine) :
    Simulates known isOpen world machine store (pure value) (pure value') post :=
  ⟨world, World.Extends.refl _ _ _, Machine.growsOrder.refl machine, mirrors, holds⟩

theorem Agrees.pure (mirrors : Mirrors known world machine store) (value : α) :
    Agrees known isOpen world machine store (Pure.pure value) (Pure.pure value) :=
  Simulates.pure mirrors rfl

theorem Simulates.throw {post : World → α → β → Machine → Prop}
    (mirrors : Mirrors known world machine store) (interrupt : Interrupt) :
    Simulates known isOpen world machine store (throw interrupt) (throw interrupt) post :=
  ⟨rfl, world, World.Extends.refl _ _ _, Machine.growsOrder.refl machine, mirrors⟩

theorem Simulates.fail {post : World → α → β → Machine → Prop}
    (mirrors : Mirrors known world machine store) (line : Nat) (fault : RuntimeFault) :
    Simulates known isOpen world machine store (Eval.fail line fault) (fail line fault) post :=
  Simulates.throw mirrors _

/-- Actions that first look at their states. -/
theorem Simulates.get {next : Machine → Eval α} {next' : Store → Action β}
    {post : World → α → β → Machine → Prop}
    (simulates : Simulates known isOpen world machine store (next machine) (next' store) post) :
    Simulates known isOpen world machine store (get >>= next) (get >>= next') post :=
  simulates

/-- Both actions yield values at once. -/
theorem Simulates.of_ok {action : Eval α} {reference : Action β}
    {post : World → α → β → Machine → Prop} {later : World} {value : α} {value' : β}
    {final : Machine} {final' : Store} (result : action machine = .ok value final)
    (result' : reference store = .ok value' final')
    (extension : world.Extends isOpen machine.current later) (grows : machine.Grows final)
    (mirrors : Mirrors known later final final') (holds : post later value value' final) :
    Simulates known isOpen world machine store action reference post := by
  rw [Simulates, result, result']
  exact ⟨later, extension, grows, mirrors, holds⟩

/-! ## Steps that leave variables alone -/

theorem Agrees.ofResult (mirrors : Mirrors known world machine store) (line : Nat)
    (result : Except RuntimeFault Value) :
    Agrees known isOpen world machine store (Eval.ofResult line result)
      (ofResult line result) := by
  cases result with
  | ok value => exact Agrees.pure mirrors value
  | error fault => exact Simulates.fail mirrors line fault

theorem Agrees.setField (mirrors : Mirrors known world machine store) (ref : ObjectRef)
    (name : String) (value : Value) :
    Agrees known isOpen world machine store
      (Eval.onHeap fun heap => (heap.setField ref name value, ()))
      (setField ref name value) := by
  have same : (store.objects.modify ref.index fun object =>
      { object with fields := object.fields.insert name value }) =
      machine.heap.objects.modify ref.index fun object =>
        { object with fields := object.fields.insert name value } := by
    rw [mirrors.objects]
  exact Simulates.of_ok rfl rfl (World.Extends.refl _ _ _)
    (Machine.grows_heap (Scopes.Grows.refl _)) (mirrors.withObjects same) rfl

theorem Simulates.addObject (mirrors : Mirrors known world machine store) (ref : ClassRef) :
    Simulates known isOpen world machine store (Eval.onHeap fun heap => heap.addObject ref)
      (modifyGet fun store => ((⟨store.objects.size⟩ : ObjectRef),
        { store with objects := store.objects.push { ofClass := ref, fields := ∅ } }))
      fun _ object object' final =>
        object' = object ∧ final.heap.classes = machine.heap.classes := by
  have same : store.objects.push { ofClass := ref, fields := ∅ } =
      machine.heap.objects.push { ofClass := ref, fields := ∅ } := by
    rw [mirrors.objects]
  have sameRef : (⟨store.objects.size⟩ : ObjectRef) = ⟨machine.heap.objects.size⟩ := by
    rw [mirrors.objects]
  exact Simulates.of_ok rfl rfl (World.Extends.refl _ _ _)
    (Machine.grows_heap (Scopes.Grows.refl _)) (mirrors.withObjects same) ⟨sameRef, rfl⟩

theorem Agrees.callNative (mirrors : Mirrors known world machine store) (native : Native)
    (arguments : List Value) (line : Nat) :
    Agrees known isOpen world machine store (Eval.callNative native arguments line)
      (callNative native arguments line) := by
  unfold Eval.callNative Lexical.callNative
  cases native.action with
  | readClock =>
      refine Simulates.of_ok rfl rfl (World.Extends.refl _ _ _)
        ⟨rfl, rfl, rfl, rfl, rfl, Scopes.Grows.refl _⟩ (mirrors.withClock ?_) ?_
      · rw [mirrors.clock]
      · rw [mirrors.clock]
  | compute run =>
      dsimp only
      cases run arguments with
      | ok value => exact Agrees.pure mirrors value
      | error message => exact Simulates.fail mirrors line _

theorem Agrees.writeLine (mirrors : Mirrors known world machine store) (text : String) :
    Agrees known isOpen world machine store (Eval.writeLine text) (writeLine text) := by
  unfold Agrees Simulates Eval.writeLine Lexical.writeLine
  dsimp only
  rw [mirrors.sink]
  by_cases room : machine.sink.hasRoom (text ++ "\n").toUTF8
  · rw [if_pos room, if_pos room]
    exact ⟨world, World.Extends.refl _ _ _, ⟨rfl, rfl, rfl, rfl, rfl, Scopes.Grows.refl _⟩,
      mirrors.withSink rfl, rfl⟩
  · rw [if_neg room, if_neg room]
    exact ⟨rfl, world, World.Extends.refl _ _ _, ⟨rfl, rfl, rfl, rfl, rfl, Scopes.Grows.refl _⟩,
      mirrors.withSink rfl⟩

theorem Agrees.flush (mirrors : Mirrors known world machine store) :
    Agrees known isOpen world machine store Eval.flush flush := by
  refine Simulates.get ?_
  rw [mirrors.sink]
  split
  · exact Simulates.throw mirrors _
  · exact Agrees.pure mirrors ()

theorem Agrees.expectClass (mirrors : Mirrors known world machine store) (line : Nat)
    (value : Value) :
    Agrees known isOpen world machine store (Eval.expectClass line value)
      (expectClass line value) := by
  cases value with
  | classRef ref => exact Agrees.pure mirrors ref
  | _ => exact Simulates.fail mirrors line _

/-- A call goes ahead only with the right number of arguments. -/
theorem Simulates.checkCall (mirrors : Mirrors known world machine store) (callee : Value)
    (line count : Nat) :
    Simulates known isOpen world machine store (Eval.checkCall callee line count)
      (checkCall callee line count) fun _ _ _ final =>
        final.heap.arity? callee = some count := by
  refine Simulates.get ?_
  rw [mirrors.arity]
  cases isArity : machine.heap.arity? callee with
  | none => exact Simulates.fail mirrors line _
  | some arity =>
      dsimp only
      by_cases same : count = arity
      · subst same
        rw [if_neg (by simp), if_neg (by simp)]
        refine Simulates.get ?_
        rw [mirrors.callLimit, mirrors.callDepth]
        by_cases full : machine.callLimit.any (· ≤ machine.callDepth) = true
        · rw [if_pos full, if_pos full]
          exact Simulates.fail mirrors line _
        · rw [if_neg full, if_neg full]
          exact Simulates.pure mirrors isArity
      · rw [if_pos same, if_pos same]
        exact Simulates.fail mirrors line _

theorem Agrees.counted {action : Eval α} {reference : Action α}
    (agrees : Agrees known isOpen world { machine with callDepth := machine.callDepth + 1 }
      { store with callDepth := store.callDepth + 1 } action reference) :
    Agrees known isOpen world machine store (Eval.counted action) (counted reference) := by
  refine Paired.cases agrees ?_ ?_
  · rintro value final value' final' result result' ⟨later, extension, grows, mirrors, same⟩
    simp only [Agrees, Simulates, Eval.counted, Lexical.counted, result, result']
    exact ⟨later, extension, Eval.grows_uncount grows, mirrors.uncount, same⟩
  · rintro cause final cause' final' result result' ⟨same, later, extension, grows, mirrors⟩
    simp only [Agrees, Simulates, Eval.counted, Lexical.counted, result, result']
    exact ⟨same, later, extension, Eval.grows_uncount grows, mirrors.uncount⟩

/-! ## Variables -/

theorem Finds.value?_global {ref : ScopeRef} {locals : Locals} {name : String}
    (finds : Finds world machine.heap.scopes ref locals name none)
    (mirrors : Mirrors known world machine store) :
    store.value? locals name = machine.heap.scopes.own? machine.globals name := by
  have absent : locals[name]? = none := finds
  rw [Store.value?, absent]
  exact mirrors.stored.table name

theorem Finds.value?_local {ref : ScopeRef} {locals : Locals} {name : String} {hops : Nat}
    (finds : Finds world machine.heap.scopes ref locals name (some hops))
    (bound : IsBound machine.heap.scopes ref name (some hops))
    (mirrors : Mirrors known world machine store) :
    store.value? locals name = machine.heap.scopes.getAt? ref hops name := by
  rcases finds with ⟨scope, cell, reached, found, site⟩
  have isSome := bound hops rfl
  rw [Scopes.getAt?, reached] at isSome ⊢
  rcases Option.isSome_iff_exists.mp isSome with ⟨value, isValue⟩
  rw [Store.value?, found]
  exact (mirrors.stored.contents cell _ value site isValue).trans isValue.symm

/-- Reads agree if the machine finds what the store finds. -/
theorem Agrees.lookup {action : Eval Value} {locals : Locals} {name : Name}
    (mirrors : Mirrors known world machine store)
    (present : ∀ value, store.value? locals name.text = some value →
      action machine = .ok value machine)
    (absent : store.value? locals name.text = none →
      action machine = Eval.fail name.line (.undefinedVariable name.text) machine) :
    Agrees known isOpen world machine store action (read locals name) := by
  have started : (get : Action Store) store = .ok store store := rfl
  rw [Agrees, Simulates, read, bind_of_ok started]
  cases found : store.value? locals name.text with
  | none =>
      rw [absent found]
      exact Simulates.fail mirrors name.line (.undefinedVariable name.text)
  | some value =>
      rw [present value found]
      exact Agrees.pure mirrors value

theorem Agrees.readVariable {names : Names} {place : Place} {id : UseId} {name : Name}
    (mirrors : Mirrors known world machine store)
    (sees : Sees world machine.heap.scopes machine.current names place)
    (knows : known ⟨id, name.text, .read, place⟩) :
    Agrees known isOpen world machine store (Eval.readVariable id name)
      (read names.reads name) := by
  rcases mirrors.recorded _ knows with ⟨legal, recorded⟩
  rcases sees.reads name.text legal.superclass with ⟨finds, bound⟩
  dsimp only [Visit.use] at recorded
  refine Agrees.lookup mirrors ?_ ?_
  · intro value found
    cases distance : distance? name.text .read place.scopes with
    | none =>
        rw [distance] at recorded finds
        rw [finds.value?_global mirrors] at found
        simp only [Eval.readVariable, recorded, found]
    | some hops =>
        rw [distance] at recorded finds bound
        rw [finds.value?_local bound mirrors] at found
        simp only [Eval.readVariable, recorded, found]
  · intro absent
    cases distance : distance? name.text .read place.scopes with
    | none =>
        rw [distance] at recorded finds
        rw [finds.value?_global mirrors] at absent
        simp only [Eval.readVariable, recorded, absent]
    | some hops =>
        rw [distance] at recorded finds bound
        rw [finds.value?_local bound mirrors] at absent
        simp only [Eval.readVariable, recorded, absent]

/-- A local variable is written in its scope and in its cell. -/
theorem Agrees.assign (mirrors : Mirrors known world machine store) {cell : CellRef}
    {scope : ScopeRef} {name : String} (plain : name ≠ "super")
    (site : world.site? cell = some ⟨scope, name⟩) (value : Value) :
    Agrees known isOpen world machine store
      (Eval.onHeap fun heap => (heap.define scope name value, ())) (setCell cell value) := by
  have unchanged := World.Extends.refl isOpen machine.current world
  have grows := Scopes.grows_define machine.heap.scopes scope name value
  have assigned := mirrors.stored.assign site value fun isSuper => absurd isSuper plain
  exact Simulates.of_ok rfl rfl unchanged (Machine.grows_heap grows)
    (mirrors.withVariables grows unchanged assigned) rfl

/-- A global is written in the global scope and in the table. -/
theorem Agrees.assignGlobal (mirrors : Mirrors known world machine store) {name : String}
    (plain : name ≠ "super") (value : Value) :
    Agrees known isOpen world machine store
      (Eval.onHeap fun heap => (heap.define machine.globals name value, ()))
      (setGlobal name value) := by
  have unchanged := World.Extends.refl isOpen machine.current world
  have grows := Scopes.grows_define machine.heap.scopes machine.globals name value
  exact Simulates.of_ok rfl rfl unchanged (Machine.grows_heap grows)
    (mirrors.withVariables grows unchanged (mirrors.stored.assignGlobal plain value)) rfl

theorem Agrees.writeVariable {names : Names} {place : Place} {id : UseId} {name : Name}
    (mirrors : Mirrors known world machine store)
    (sees : Sees world machine.heap.scopes machine.current names place)
    (knows : known ⟨id, name.text, .write, place⟩) (plain : name.IsPlain) (value : Value) :
    Agrees known isOpen world machine store (Eval.writeVariable id name value)
      (write names.writes name value) := by
  rcases mirrors.recorded _ knows with ⟨legal, recorded⟩
  have finds := sees.writes name.text legal.superclass
  dsimp only [Visit.use] at recorded
  have started : (get : Eval Machine) machine = .ok machine machine := rfl
  rw [Agrees, Simulates, Eval.writeVariable, bind_of_ok started, write]
  cases distance : distance? name.text .write place.scopes with
  | some hops =>
      rw [distance] at recorded finds
      rcases finds with ⟨scope, cell, reached, found, site⟩
      have assigned : Eval.assignedScope? machine id name.text = some scope := by
        simp only [Eval.assignedScope?, recorded, reached]
      rw [assigned, found]
      exact Agrees.assign mirrors plain.2 site value
  | none =>
      rw [distance] at recorded finds
      have absent : names.writes[name.text]? = none := finds
      have started : (get : Action Store) store = .ok store store := rfl
      rw [absent]
      dsimp only
      rw [bind_of_ok started, mirrors.stored.table name.text]
      by_cases defined : (machine.heap.scopes.own? machine.globals name.text).isSome
      · have assigned : Eval.assignedScope? machine id name.text = some machine.globals := by
          simp only [Eval.assignedScope?, recorded, defined, if_true]
        rw [assigned, if_pos defined]
        exact Agrees.assignGlobal mirrors plain.2 value
      · have unassigned : Eval.assignedScope? machine id name.text = none := by
          simp only [Eval.assignedScope?, recorded, defined, Bool.false_eq_true, if_false]
        rw [unassigned, if_neg defined]
        exact Simulates.fail mirrors name.line (.undefinedVariable name.text)

/-! ## Functions and objects -/

/-- A scope that is opened is newer than the current one. -/
theorem Mirrors.extends_nextRef (mirrors : Mirrors known world machine store) (name : String) :
    world.Extends isOpen machine.current (world ++ [⟨machine.heap.scopes.nextRef, name⟩]) :=
  World.extends_singleton world (.inl mirrors.current)

theorem Agrees.newFunction (mirrors : Mirrors known world machine store) {closure : Lox.Closure}
    {other : Closure}
    (alike : Alike known [] world machine.heap.scopes machine.globals closure other) :
    Agrees known isOpen world machine store (Eval.newFunction closure) (newFunction other) := by
  have sameRef : (.function ⟨store.functions.size⟩ : Value) =
      .function ⟨machine.heap.functions.size⟩ := by
    rw [mirrors.functionCount]
  exact Simulates.of_ok rfl rfl (World.Extends.refl _ _ _)
    (Machine.grows_heap (Scopes.Grows.refl _)) (mirrors.addFunction alike) sameRef

/-- A bound method is a function. -/
theorem Simulates.bindHeap (mirrors : Mirrors known world machine store) {method : Lox.Closure}
    {other : Closure}
    (alike : Alike known [thisTable] world machine.heap.scopes machine.globals method other)
    (this : Value) :
    Simulates known isOpen world machine store (Eval.onHeap fun heap => heap.bind method this)
      (Lexical.bind other this) fun later closure closure' final =>
        closure.declaration = method.declaration ∧
          Alike known [] later final.heap.scopes final.globals closure closure' := by
  rcases alike.represents with ⟨tables, represents, callable⟩
  rcases mirrors.openScope represents with ⟨opened, entered, complete⟩
  rcases opened.bindNew entered complete (by simp) (adds_insert "this" ∅) this (by simp) with
    ⟨bound, binding, -⟩
  refine Simulates.of_ok rfl rfl (mirrors.extends_nextRef "this")
    (Machine.grows_heap (Eval.grows_bind _ _ _)) bound ⟨rfl, ?_⟩
  exact ⟨alike.declaration, alike.isInitializer, thisTable :: tables, binding,
    callable.formed, callable.distinct, callable.visited, callable.initializer⟩

theorem Agrees.bindMethod (mirrors : Mirrors known world machine store) {method : Lox.Closure}
    {other : Closure}
    (alike : Alike known [thisTable] world machine.heap.scopes machine.globals method other)
    (this : Value) :
    Agrees known isOpen world machine store (Eval.bindMethod method this)
      (Lexical.bind other this >>= Lexical.newFunction) := by
  refine (Simulates.bindHeap mirrors alike this).bind ?_
  intro later closure closure' final final' _ _ laterMirrors bound
  exact Agrees.newFunction laterMirrors bound.2

theorem Mirrors.object (mirrors : Mirrors known world machine store) (ref : ObjectRef) :
    store.object ref = machine.heap.object ref := by
  rw [Store.object, Heap.object, mirrors.objects]

theorem Agrees.getProperty (mirrors : Mirrors known world machine store) (ref : ObjectRef)
    (name : Name) :
    Agrees known isOpen world machine store (Eval.getProperty ref name)
      (getProperty ref name) := by
  refine Simulates.get ?_
  rw [mirrors.object ref]
  dsimp only
  cases (machine.heap.object ref).fields[name.text]? with
  | some value => exact Agrees.pure mirrors value
  | none =>
      dsimp only
      have methods := mirrors.findMethod (machine.heap.object ref).ofClass name.text
      generalize machine.heap.findMethod? (machine.heap.object ref).ofClass name.text = method
        at methods
      generalize store.findMethod? (machine.heap.object ref).ofClass name.text = other at methods
      cases methods with
      | none => exact Simulates.fail mirrors _ _
      | some alike => exact Agrees.bindMethod mirrors alike (.object ref)

theorem superTarget?_of_values {locals : Locals} {parent receiver : Option Value} :
    store.value? locals "super" = parent → store.value? locals "this" = receiver →
    superTarget? store locals =
      match parent, receiver with
      | some (.classRef superclass), some this => some (superclass, this)
      | _, _ => none := by
  rintro rfl rfl
  rfl

theorem Mirrors.superTarget {names : Names} {place : Place} {id : UseId}
    (mirrors : Mirrors known world machine store)
    (sees : Sees world machine.heap.scopes machine.current names place)
    (knows : known ⟨id, "super", .read, place⟩) :
    superTarget? store names.reads = Eval.superTarget? machine id := by
  rcases mirrors.recorded _ knows with ⟨legal, recorded⟩
  have within := legal.within rfl
  rcases legal.super rfl with ⟨inner, thisDistance, superDistance⟩
  dsimp only [Visit.use] at recorded thisDistance superDistance
  rw [superDistance] at recorded
  have superSeen := sees.reads "super" within.elim
  have thisSeen := sees.reads "this" within.elim
  rw [superDistance] at superSeen
  rw [thisDistance] at thisSeen
  rw [Eval.superTarget?, recorded]
  exact superTarget?_of_values (superSeen.1.value?_local superSeen.2 mirrors)
    (thisSeen.1.value?_local thisSeen.2 mirrors)

theorem Agrees.getSuper {names : Names} {place : Place} {id : UseId}
    (mirrors : Mirrors known world machine store)
    (sees : Sees world machine.heap.scopes machine.current names place)
    (knows : known ⟨id, "super", .read, place⟩) (line : Nat) (method : Name) :
    Agrees known isOpen world machine store (Eval.getSuper id line method)
      (getSuper names.reads line method) := by
  refine Simulates.get ?_
  rw [mirrors.superTarget sees knows]
  cases Eval.superTarget? machine id with
  | none => exact Simulates.fail mirrors _ _
  | some target =>
      dsimp only
      have methods := mirrors.findMethod target.1 method.text
      generalize machine.heap.findMethod? target.1 method.text = found at methods
      generalize store.findMethod? target.1 method.text = other at methods
      cases methods with
      | none => exact Simulates.fail mirrors _ _
      | some alike => exact Agrees.bindMethod mirrors alike target.2

/-- An initializer yields the object that it is bound to. -/
theorem Agrees.callResult (mirrors : Mirrors known world machine store) {closure : Lox.Closure}
    {other : Closure}
    (alike : Alike known [] world machine.heap.scopes machine.globals closure other) (line : Nat)
    (flow : Flow) :
    Agrees known isOpen world machine store (Eval.callResult closure line flow)
      (callResult other line flow) := by
  unfold Eval.callResult Lexical.callResult
  rw [alike.isInitializer]
  by_cases initializer : closure.isInitializer = true
  · rw [if_pos initializer, if_pos initializer]
    rcases alike.represents with ⟨tables, represents, callable⟩
    rcases callable.initializer initializer with ⟨outer, isThis⟩
    rw [List.nil_append] at isThis
    subst isThis
    have seen := represents.finds "this" .read
    rw [distance?_thisTable] at seen
    refine Simulates.get ?_
    have same : store.value? other.locals "this" =
        machine.heap.scopes.own? closure.scope "this" := seen.1.value?_local seen.2 mirrors
    rw [same]
    cases machine.heap.scopes.own? closure.scope "this" with
    | none => exact Simulates.fail mirrors line _
    | some this => exact Agrees.pure mirrors this
  · rw [if_neg initializer, if_neg initializer]
    cases flow with
    | normal => exact Agrees.pure mirrors _
    | returned value => exact Agrees.pure mirrors value

end Steps

end Lexical

end Lox
