import Lox.Proofs.Lexical.Steps

/-!
# Declarations of the machine and of the store

A frame of the lexical semantics fits the current scope if both represent the
tables that resolution has there.  A declaration extends the one with a new cell
and the other with a new binding, and they fit again.
-/

namespace Lox

namespace Lexical

open Actions
open ResolverState (distance?)

/-! ## Frames -/

/-- The current scope and the frame represent the tables, and all cells of the scope
belong to names of its table. -/
structure Fits (world : World) (machine : Machine) (tables : List NameTable)
    (frame : Frame) : Prop where
  represents : Represents world machine.heap.scopes machine.globals machine.current tables
    frame.locals
  isLocal : frame.isLocal = !tables.isEmpty
  complete : world.Complete machine.current tables

/-- A name is being declared: the frame inside has a cell for it, but the tables do
not have it yet. -/
inductive Pending (world : World) (machine : Machine) (name : String) :
    List NameTable → Frame → Frame → Prop
  | global {locals : Locals}
      (represents : Represents world machine.heap.scopes machine.globals machine.current []
        locals) :
      Pending world machine name [] ⟨locals, false⟩ ⟨locals, false⟩
  | nested {table : NameTable} {outer : List NameTable} {locals : Locals} {cell : CellRef}
      (represents : Represents world machine.heap.scopes machine.globals machine.current
        (table :: outer) locals)
      (isNew : table[name]? = none)
      (site : world.site? cell = some ⟨machine.current, name⟩)
      (complete : world.Complete machine.current (table.insert name .defined :: outer)) :
      Pending world machine name (table :: outer) ⟨locals, true⟩ ⟨locals.insert name cell, true⟩

/-- What is defined under the name in the frame is a binding of the current scope. -/
def Targets (world : World) (machine : Machine) (frame : Frame) (name : String) : Prop :=
  (frame.isLocal = false ∧ machine.current = machine.globals) ∨
    (frame.isLocal = true ∧ ∃ cell, frame.locals[name]? = some cell ∧
      world.site? cell = some ⟨machine.current, name⟩)

section Frames

variable {known : Visit → Prop} {isOpen : Bool} {world later : World} {machine final : Machine}
  {store : Store} {tables : List NameTable} {frame inner : Frame} {name : String} {α β : Type}

theorem Represents.grows {locals : Locals}
    (represents : Represents world machine.heap.scopes machine.globals machine.current tables
      locals)
    (grows : machine.Grows final) (extension : world.Extends isOpen machine.current later) :
    Represents later final.heap.scopes final.globals final.current tables locals := by
  rw [grows.globals, grows.current]
  exact represents.mono grows.scopes extension

/-- The current scope may have got sites meanwhile, if they are still complete. -/
theorem Fits.resume (fits : Fits world machine tables frame) (grows : machine.Grows final)
    (extension : world.Extends isOpen machine.current later)
    (complete : later.Complete final.current tables) : Fits later final tables frame :=
  ⟨fits.represents.grows grows extension, fits.isLocal, complete⟩

theorem Fits.mono (fits : Fits world machine tables frame) (grows : machine.Grows final)
    (extension : world.Extends false machine.current later) : Fits later final tables frame := by
  apply fits.resume grows extension
  rw [grows.current]
  exact fits.complete.extends extension

theorem Pending.mono (pending : Pending world machine name tables frame inner)
    (grows : machine.Grows final) (extension : world.Extends false machine.current later) :
    Pending later final name tables frame inner := by
  cases pending with
  | global represents => exact .global (represents.grows grows extension)
  | nested represents isNew site complete =>
      refine .nested (represents.grows grows extension) isNew ?_ ?_
      · rw [grows.current]
        exact extension.site?_eq site
      · rw [grows.current]
        exact complete.extends extension

theorem Fits.sees (fits : Fits world machine tables frame) (isInner : Bool) :
    Sees world machine.heap.scopes machine.current frame.names ⟨tables, isInner, .ordinary⟩ :=
  fits.represents.sees isInner .ordinary

theorem Fits.sees_superclass (fits : Fits world machine tables frame) (isInner : Bool)
    (declared : String) :
    Sees world machine.heap.scopes machine.current frame.names
      ⟨introduceIn declared tables, isInner, .superclass declared⟩ :=
  fits.represents.sees_superclass isInner declared

theorem Pending.sees (pending : Pending world machine name tables frame inner) (isInner : Bool) :
    Sees world machine.heap.scopes machine.current
      { reads := frame.locals, writes := inner.locals }
      ⟨declareIn name tables, isInner, .initializer name⟩ := by
  cases pending with
  | global represents => exact represents.sees isInner (.initializer name)
  | nested represents isNew site _ => exact represents.sees_initializer isNew site isInner

/-! ## Defining -/

theorem Pending.targets (pending : Pending world machine name tables frame inner) :
    Targets world machine inner name := by
  cases pending with
  | global represents => exact .inl ⟨rfl, represents.1⟩
  | @nested table outer locals cell represents isNew site complete =>
      exact .inr ⟨rfl, cell, by rw [Table.getElem?_insert, if_pos rfl], site⟩

/-- Once its name is defined, the declaration is complete. -/
theorem Pending.defined (pending : Pending world machine name tables frame inner)
    (value : Value) :
    Fits world { machine with heap := machine.heap.define machine.current name value }
      (introduceIn name tables) inner := by
  cases pending with
  | global represents => exact ⟨represents, rfl, trivial⟩
  | @nested table outer locals cell represents isNew site complete =>
      rcases introduceIn_adds name table outer with ⟨extended, introduced, adds⟩
      rw [introduced]
      refine ⟨represents.define adds site value, rfl, ?_⟩
      intro sought member
      have isSome := complete sought member
      rw [adds_insert name table sought] at isSome
      rw [adds sought]
      exact isSome

/-- A name that the frame has already can be defined again. -/
theorem Fits.targets (fits : Fits world machine (introduceIn name tables) frame) :
    Targets world machine frame name := by
  cases tables with
  | nil => exact .inl ⟨fits.isLocal, fits.represents.1⟩
  | cons table outer =>
      rcases introduceIn_adds name table outer with ⟨extended, introduced, adds⟩
      rw [introduced] at fits
      rcases fits.represents with ⟨-, parent, enclosing, -, -, layer⟩
      have entry : extended[name]? = some .defined := by
        rw [adds name, if_pos rfl]
      rcases layer.own name .defined entry with ⟨-, -, cell, found, site⟩
      exact .inr ⟨fits.isLocal, cell, found, site⟩

/-- A definition changes variables only. -/
theorem Targets.define (targets : Targets world machine frame name) (plain : name ≠ "super")
    (mirrors : Mirrors known world machine store) (value : Value) :
    ∃ cells globals,
      (∀ functions classes, Lexical.define frame name value { store with functions, classes } =
        .ok () { store with functions, classes, cells, globals }) ∧
      Mirrors known world
        { machine with heap := machine.heap.define machine.current name value }
        { store with cells, globals } := by
  have unchanged := World.Extends.refl false machine.current world
  have grows := Scopes.grows_define machine.heap.scopes machine.current name value
  rcases targets with ⟨isLocal, current⟩ | ⟨isLocal, cell, found, site⟩
  · have assigned : Variables world (machine.heap.scopes.define machine.current name value)
        machine.globals store.cells (store.globals.insert name value) := by
      rw [current]
      exact mirrors.stored.assignGlobal plain value
    refine ⟨_, _, ?_, mirrors.withVariables grows unchanged assigned⟩
    intro functions classes
    rw [Lexical.define, isLocal]
    rfl
  · refine ⟨store.cells.modify cell.index fun _ => value, store.globals, ?_, ?_⟩
    · intro functions classes
      rw [Lexical.define, isLocal, if_pos rfl, found]
      rfl
    · exact mirrors.withVariables grows unchanged
        (mirrors.stored.assign site value fun isSuper => absurd isSuper plain)

theorem Simulates.define (targets : Targets world machine frame name) (plain : name ≠ "super")
    (mirrors : Mirrors known world machine store) (value : Value) :
    Simulates known isOpen world machine store (Eval.define name value)
      (Lexical.define frame name value) fun later _ _ final =>
        later = world ∧
          final = { machine with heap := machine.heap.define machine.current name value } := by
  rcases targets.define plain mirrors value with ⟨cells, globals, defines, defined⟩
  exact Simulates.of_ok rfl (defines store.functions store.classes) (World.Extends.refl _ _ _)
    (Eval.framed_define name value machine) defined ⟨rfl, rfl⟩

/-! ## Introducing -/

/-- A declaration starts with a new cell, unless it is global. -/
theorem Fits.introduce (fits : Fits world machine tables frame)
    (mirrors : Mirrors known world machine store) (isNew : NewIn name tables) :
    ∃ later inner final', Lexical.introduce frame name store = .ok inner final' ∧
      world.Extends true machine.current later ∧ Mirrors known later machine final' ∧
      Pending later machine name tables frame inner := by
  rcases frame with ⟨locals, isLocal⟩
  cases tables with
  | nil =>
      have isGlobal : isLocal = false := fits.isLocal
      subst isGlobal
      exact ⟨world, ⟨locals, false⟩, store, rfl, World.Extends.refl _ _ _, mirrors,
        .global fits.represents⟩
  | cons table outer =>
      have isNested : isLocal = true := fits.isLocal
      subst isNested
      have represents := fits.represents
      have absent : ⟨machine.current, name⟩ ∉ world := by
        intro member
        have isSome := fits.complete name member
        have unknown : table[name]? = none := isNew
        rw [unknown] at isSome
        cases isSome
      have extension : world.Extends true machine.current (world ++ [⟨machine.current, name⟩]) :=
        World.extends_singleton world (.inr ⟨rfl, rfl⟩)
      have site : World.site? (world ++ [⟨machine.current, name⟩]) ⟨store.cells.size⟩ =
          some ⟨machine.current, name⟩ := by
        rw [mirrors.stored.size]
        exact World.site?_append_singleton world _
      have added := mirrors.stored.newSite represents.ne_globals represents.lt_size absent .nil
      have same := Scopes.Grows.refl machine.heap.scopes
      refine ⟨_, ⟨locals.insert name ⟨store.cells.size⟩, true⟩, _, rfl, extension,
        mirrors.withVariables same extension added,
        .nested (represents.mono same extension) isNew site ?_⟩
      intro sought member
      rw [adds_insert name table sought]
      split
      · rfl
      next different =>
        rcases List.mem_append.mp member with isOld | isAdded
        · exact fits.complete sought isOld
        · cases List.mem_singleton.mp isAdded
          exact absurd rfl different

theorem Simulates.introduce {action : Eval α} {rest : Frame → Action β}
    {post : World → α → β → Machine → Prop} (fits : Fits world machine tables frame)
    (mirrors : Mirrors known world machine store) (isNew : NewIn name tables)
    (simulates : ∀ later inner final', Mirrors known later machine final' →
      Pending later machine name tables frame inner →
      Simulates known true later machine final' action (rest inner) post) :
    Simulates known true world machine store action (Lexical.introduce frame name >>= rest)
      post := by
  rcases fits.introduce mirrors isNew with
    ⟨later, inner, final', introduced, extension, laterMirrors, pending⟩
  exact (simulates later inner final' laterMirrors pending).of_later extension
    (Machine.growsOrder.refl machine) rfl (bind_of_ok introduced)

/-- A step of the machine that the store does not make. -/
theorem Simulates.after {α γ : Type} {first : Eval γ} {next : γ → Eval α} {reference : Action β}
    {post : World → α → β → Machine → Prop} {value : γ}
    (result : first machine = .ok value final) (grows : machine.Grows final)
    (simulates : Simulates known isOpen world final store (next value) reference post) :
    Simulates known isOpen world machine store (first >>= next) reference post :=
  simulates.of_later (World.Extends.refl _ _ _) grows (bind_of_ok result) rfl

/-- What happens in a newer scope, which is open meanwhile, does not touch the current
one. -/
theorem Agrees.within {action : Eval α} {reference : Action α} {scope : ScopeRef}
    (present : machine.current.index < machine.heap.scopes.cells.size)
    (newer : machine.current.index < scope.index)
    (agrees : Agrees known true world { machine with current := scope } store action reference) :
    Agrees known isOpen world machine store (Eval.within scope action) reference := by
  refine Paired.cases agrees ?_ ?_
  · rintro value final value' final' result result' ⟨later, extension, grows, mirrors, same⟩
    have extension' : world.Extends true scope later := extension
    have returned := mirrors.enter (Nat.lt_of_lt_of_le present grows.scopes.size)
    simp only [Agrees, Simulates, Eval.within, result, result']
    exact ⟨later, extension'.leave newer, Eval.grows_return grows, returned, same⟩
  · rintro cause final cause' final' result result' ⟨same, later, extension, grows, mirrors⟩
    have extension' : world.Extends true scope later := extension
    have returned := mirrors.enter (Nat.lt_of_lt_of_le present grows.scopes.size)
    simp only [Agrees, Simulates, Eval.within, result, result']
    exact ⟨same, later, extension'.leave newer, Eval.grows_return grows, returned⟩

/-! ## Functions and classes -/

theorem Simulates.declareFunction {declaration : FunctionDecl}
    (fits : Fits world machine tables frame) (mirrors : Mirrors known world machine store)
    (isNew : NewIn declaration.name.text tables)
    (formed : Stmt.FunctionWellFormed declaration)
    (distinct : Stmt.FunctionDistinct (introduceIn declaration.name.text tables) declaration)
    (visited : ∀ visit ∈ Stmt.functionVisits (introduceIn declaration.name.text tables) declaration,
      known visit) :
    Simulates known true world machine store (Eval.declareFunction declaration)
      (Lexical.declareFunction frame declaration) fun later _ inner final =>
        Fits later final (introduceIn declaration.name.text tables) inner := by
  have plain : declaration.name.IsPlain := by
    cases declaration
    exact formed.1
  refine Simulates.introduce fits mirrors isNew ?_
  intro later inner final' laterMirrors pending
  let closure : Lox.Closure := { declaration, scope := machine.current, isInitializer := false }
  let other : Closure := { declaration, locals := inner.locals, isInitializer := false }
  let value : Value := .function ⟨machine.heap.functions.size⟩
  -- The machine adds the function before it defines the name, but the function closes
  -- over the scope in which the name is defined; the two steps can be exchanged.
  rcases pending.targets.define plain.2 laterMirrors value with ⟨cells, globals, defines, defined⟩
  have fitted := pending.defined value
  have alike : Alike known [] later (machine.heap.define machine.current _ value).scopes
      machine.globals closure other :=
    ⟨rfl, rfl, _, fitted.represents, formed, distinct, visited, fun impossible => by
      cases impossible⟩
  have created : newFunction other final' =
      .ok value { final' with functions := final'.functions.push other } := by
    rw [newFunction, laterMirrors.functionCount]
  have reference : (newFunction other >>= fun value =>
      Lexical.define inner declaration.name.text value >>= fun _ => Pure.pure inner) final' =
        .ok inner { final' with functions := final'.functions.push other, cells, globals } := by
    rw [bind_of_ok created, bind_of_ok (defines _ final'.classes)]
    rfl
  exact Simulates.of_ok rfl reference (World.Extends.refl _ _ _)
    (Eval.framed_declareFunction declaration machine) (defined.addFunction alike)
    ⟨fitted.represents, fitted.isLocal, fitted.complete⟩

/-- The scope and the map that methods close over represent the tables around the
methods, but for that of `this`. -/
theorem Simulates.methodScope {superclass : Option Expr} {parent : Option ClassRef}
    {locals : Locals} (mirrors : Mirrors known world machine store)
    (represents : Represents world machine.heap.scopes machine.globals machine.current tables
      locals)
    (derived : parent.isSome = superclass.isSome) :
    Simulates known false world machine store (Eval.methodScope parent)
      (methodLocals locals parent) fun later scope locals' final =>
        Represents later final.heap.scopes final.globals scope
          (methodScopes superclass tables).tail locals' := by
  cases parent with
  | none =>
      cases superclass with
      | some _ => cases derived
      | none => exact Simulates.pure mirrors represents
  | some ref =>
      cases superclass with
      | none => cases derived
      | some superclass =>
          rcases mirrors.openScope represents with ⟨opened, entered, complete⟩
          rcases opened.bindNew entered complete (by simp) (adds_insert "super" ∅) (.classRef ref)
            (fun _ => ⟨ref, rfl⟩) with ⟨bound, binding, -⟩
          dsimp only at bound binding
          rw [Heap.define_openScope] at bound binding
          exact Simulates.of_ok rfl rfl (mirrors.extends_nextRef "super")
            (Machine.grows_heap (Scopes.grows_push _ _)) bound binding

theorem methodTable_alike {scopes : Scopes} {globals scope : ScopeRef} {locals : Locals}
    {declarations : List FunctionDecl}
    (represents : Represents world scopes globals scope tables locals)
    (callable : ∀ declaration ∈ declarations, ∀ isInitializer,
      Callable known (thisTable :: tables) { declaration, scope, isInitializer }) (name : String) :
    Option.Rel (Alike known [thisTable] world scopes globals)
      (Eval.methodTable declarations scope)[name]? (methodTable declarations locals)[name]? := by
  -- The tables that the folds start with are generalized: they only have to be related.
  have general : ∀ (table : Std.TreeMap String Lox.Closure) (other : Std.TreeMap String Closure),
      (∀ name : String, Option.Rel (Alike known [thisTable] world scopes globals)
        table[name]? other[name]?) →
      Option.Rel (Alike known [thisTable] world scopes globals)
        (declarations.foldl (fun table declaration => table.insert declaration.name.text
          { declaration, scope, isInitializer := declaration.name.text = "init" }) table)[name]?
        (declarations.foldl (fun table declaration => table.insert declaration.name.text
          { declaration, locals, isInitializer := declaration.name.text = "init" }) other)[name]? := by
    induction declarations with
    | nil => exact fun table other related => related name
    | cons first rest inductionHypothesis =>
        intro table other related
        apply inductionHypothesis fun declaration member =>
          callable declaration (List.mem_cons_of_mem _ member)
        intro sought
        rw [Table.getElem?_insert, Table.getElem?_insert]
        split
        · exact .some ⟨rfl, rfl, tables, represents, callable first List.mem_cons_self _⟩
        · exact related sought
  exact general ∅ ∅ fun name => by simp

theorem methodScopes_eq (superclass : Option Expr) (tables : List NameTable) :
    methodScopes superclass tables = thisTable :: (methodScopes superclass tables).tail := by
  cases superclass <;> rfl

theorem Simulates.addClass (mirrors : Mirrors known world machine store)
    {info : Lox.ClassInfo} {other : ClassInfo}
    (alike : ClassAlike known world machine.heap.scopes machine.globals info other) :
    Simulates known isOpen world machine store (Eval.onHeap fun heap => heap.addClass info)
      (modifyGet fun store =>
        ((⟨store.classes.size⟩ : ClassRef), { store with classes := store.classes.push other }))
      fun later ref ref' final => ref' = ref ∧ later = world ∧
        final = { machine with heap := (machine.heap.addClass info).1 } := by
  have sameRef : (⟨store.classes.size⟩ : ClassRef) = ⟨machine.heap.classes.size⟩ := by
    rw [mirrors.classCount]
  exact Simulates.of_ok rfl rfl (World.Extends.refl _ _ _)
    (Machine.grows_heap (Scopes.Grows.refl _)) (mirrors.addClass alike) ⟨sameRef, rfl, rfl⟩

theorem Simulates.declareClass {name : Name} {superclass : Option Expr}
    {parent : Option ClassRef} {declarations : List FunctionDecl}
    (fits : Fits world machine tables frame) (mirrors : Mirrors known world machine store)
    (isNew : NewIn name.text tables) (plain : name.IsPlain)
    (formed : Stmt.MethodsWellFormed declarations)
    (distinct : Stmt.MethodsDistinct (methodScopes superclass (introduceIn name.text tables))
      declarations)
    (derived : parent.isSome = superclass.isSome)
    (visited : ∀ visit ∈ Stmt.methodVisits
      (methodScopes superclass (introduceIn name.text tables)) declarations, known visit) :
    Simulates known true world machine store (Eval.declareClass name parent declarations)
      (Lexical.declareClass frame name parent declarations) fun later _ inner final =>
        Fits later final (introduceIn name.text tables) inner := by
  refine Simulates.introduce fits mirrors isNew ?_
  intro later inner final' laterMirrors pending
  refine (Simulates.define pending.targets plain.2 laterMirrors .nil).bind ?_
  rintro _ _ _ _ defined' - - definedMirrors ⟨rfl, rfl⟩
  have fitted := pending.defined .nil
  refine (Simulates.methodScope definedMirrors fitted.represents derived).opened.bind ?_
  rintro around scope locals opened opened' - grows openedMirrors ⟨closed, represents⟩
  have callable : ∀ declaration ∈ declarations, ∀ isInitializer, Callable known
      (thisTable :: (methodScopes superclass (introduceIn name.text tables)).tail)
      { declaration, scope, isInitializer } := by
    rw [← methodScopes_eq]
    intro declaration member isInitializer
    exact ⟨Stmt.methodsWellFormed_iff.mp formed _ member,
      Stmt.methodsDistinct_iff.mp distinct _ member,
      fun visit inBody => visited visit (Stmt.mem_methodVisits member inBody),
      fun _ => ⟨_, methodScopes_eq _ _⟩⟩
  have alike : ClassAlike known around opened.heap.scopes opened.globals
      ⟨name.text, parent, Eval.methodTable declarations scope⟩
      ⟨name.text, parent, methodTable declarations locals⟩ :=
    ⟨rfl, rfl, methodTable_alike represents callable⟩
  refine (Simulates.addClass openedMirrors alike).bind ?_
  rintro added _ ref _ added' - - addedMirrors ⟨rfl, rfl, rfl⟩
  have fittedLater := fitted.mono grows closed
  have fittedAdded : Fits added { opened with heap := (opened.heap.addClass
      ⟨name.text, parent, Eval.methodTable declarations scope⟩).1 }
      (introduceIn name.text tables) inner :=
    ⟨fittedLater.represents, fittedLater.isLocal, fittedLater.complete⟩
  refine (Simulates.define fittedAdded.targets plain.2 addedMirrors (.classRef ref)).bind ?_
  rintro _ _ _ _ last' - lastGrows lastMirrors ⟨rfl, rfl⟩
  exact Simulates.pure lastMirrors (fittedAdded.mono lastGrows (World.Extends.refl _ _ _))

/-! ## Calls -/

/-- The arguments are bound one after another, in the new scope and in the map. -/
theorem bindParameters_simulates {scope : ScopeRef} {outer : List NameTable}
    (present : machine.current.index < machine.heap.scopes.cells.size) (params : List Name) :
    ∀ (arguments : List Value) {world : World} {store : Store} {bindings : Bindings}
      {table : NameTable} {locals : Locals},
      Mirrors known world { machine with heap := { machine.heap with
        scopes := machine.heap.scopes.push { bindings, parent := some scope } } } store →
      Represents world (machine.heap.scopes.push { bindings, parent := some scope })
        machine.globals machine.heap.scopes.nextRef (table :: outer) locals →
      world.Complete machine.heap.scopes.nextRef (table :: outer) →
      ParamsDistinct (table :: outer) params → (∀ param ∈ params, param.IsPlain) →
      arguments.length = params.length →
      ∃ later locals' final' bindings' table',
        Lexical.bindParameters locals params arguments store = .ok locals' final' ∧
        world.Extends false machine.current later ∧
        bindings' = (params.zip arguments).foldl
          (fun bindings (param, argument) => bindings.insert param.text argument) bindings ∧
        table' :: outer =
          params.foldl (fun opened param => introduceIn param.text opened) (table :: outer) ∧
        Mirrors known later { machine with heap := { machine.heap with
          scopes := machine.heap.scopes.push
            { bindings := bindings', parent := some scope } } } final' ∧
        Represents later (machine.heap.scopes.push
            { bindings := bindings', parent := some scope })
          machine.globals machine.heap.scopes.nextRef (table' :: outer) locals' ∧
        later.Complete machine.heap.scopes.nextRef (table' :: outer) := by
  induction params with
  | nil =>
      intro arguments world store bindings table locals mirrors represents complete _ _ _
      cases arguments with
      | nil =>
          exact ⟨world, locals, store, bindings, table, rfl, World.Extends.refl _ _ _, rfl, rfl,
            mirrors, represents, complete⟩
      | cons argument arguments => contradiction
  | cons param params inductionHypothesis =>
      intro arguments world store bindings table locals mirrors represents complete distinct plain
        sameLength
      cases arguments with
      | nil => contradiction
      | cons argument arguments =>
          rcases distinct with ⟨isNew, restDistinct⟩
          rcases introduceIn_adds param.text table outer with ⟨extended, introduced, adds⟩
          rw [introduced] at restDistinct
          have paramPlain := plain param List.mem_cons_self
          rcases mirrors.bindNew represents complete isNew adds argument
            (fun isSuper => absurd isSuper paramPlain.2) with ⟨bound, binding, boundComplete⟩
          dsimp only [Heap.define] at bound binding
          rw [Scopes.define_push] at bound binding
          rcases inductionHypothesis arguments bound binding boundComplete restDistinct
            (fun param member => plain param (List.mem_cons_of_mem _ member))
            (Nat.succ.inj sameLength) with
            ⟨later, locals', final', bindings', table', result, extension, sameBindings, sameTable,
              rest⟩
          refine ⟨later, locals', final', bindings', table', result, ?_, sameBindings, ?_, rest⟩
          · exact (World.extends_singleton world (.inl present)).trans extension
          · rw [List.foldl_cons, introduced]
            exact sameTable

/-- In the scope of a call, the body can be executed. -/
theorem Simulates.openBody (mirrors : Mirrors known world machine store)
    {closure : Lox.Closure} {other : Closure} {arguments : List Value}
    (alike : Alike known [] world machine.heap.scopes machine.globals closure other)
    (sameLength : arguments.length = closure.arity) :
    Simulates known false world machine store
      (Eval.openScope (Eval.parameterBindings closure.declaration.params arguments)
        (some closure.scope))
      (Lexical.bindParameters other.locals other.declaration.params arguments)
      fun later ref locals final => machine.current.index < ref.index ∧
        Stmt.WellFormedEach closure.declaration.body ∧ ∃ table outer,
          Fits later { final with current := ref } (table :: outer) ⟨locals, true⟩ ∧
          Stmt.DistinctEach (table :: outer) closure.declaration.body ∧
          ∀ visit ∈ Stmt.visitsEach (table :: outer) true closure.declaration.body, known visit := by
  rw [alike.declaration]
  rcases alike.represents with ⟨tables, represents, callable⟩
  rcases closure with ⟨⟨name, params, body⟩, scope, isInitializer⟩
  rcases callable with ⟨⟨-, paramsPlain, bodyFormed⟩, ⟨paramsDistinct, bodyDistinct⟩, visited, -⟩
  rcases mirrors.openScope represents with ⟨opened, entered, complete⟩
  rcases bindParameters_simulates mirrors.current params arguments opened entered complete
    paramsDistinct paramsPlain sameLength with
    ⟨later, locals', final', bindings, table, result, extension, sameBindings, sameTable, bound,
      binding, boundComplete⟩
  have bodyTables : bodyScopes params tables = table :: tables := sameTable.symm
  rw [Stmt.functionVisits, List.nil_append, bodyTables] at visited
  rw [List.nil_append, bodyTables] at bodyDistinct
  have openedResult : Eval.openScope (Eval.parameterBindings params arguments) (some scope)
      machine = .ok machine.heap.scopes.nextRef { machine with heap := { machine.heap with
        scopes := machine.heap.scopes.push { bindings, parent := some scope } } } := by
    rw [sameBindings]
    rfl
  exact Simulates.of_ok openedResult result extension
    (Machine.grows_heap (Scopes.grows_push _ _)) bound
    ⟨mirrors.current, bodyFormed, table, tables, ⟨binding, rfl, boundComplete⟩, bodyDistinct,
      visited⟩

end Frames

end Lexical

end Lox
