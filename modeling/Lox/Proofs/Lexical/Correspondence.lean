import Lox.Proofs.Lexical.Representation

/-!
# Machines and stores

A store mirrors a machine if its cells have the values of their sites, its globals
are those of the global scope, and its functions and classes are those of the heap,
with maps in the place of scopes.
-/

namespace Lox

namespace Lexical

/-! ## Variables -/

/-- The cells and the table of globals have the values that the scopes bind.  Every
local binding has a cell; a cell may be there before its site is bound. -/
structure Variables (world : World) (scopes : Scopes) (globals : ScopeRef)
    (cells : Array Value) (table : Bindings) : Prop where
  present : globals.index < scopes.cells.size
  size : cells.size = world.length
  nodup : world.Nodup
  sites : ∀ site ∈ world, site.scope ≠ globals ∧ site.scope.index < scopes.cells.size
  covered : ∀ (ref : ScopeRef) (name : String), ref ≠ globals →
    (scopes.own? ref name).isSome → ⟨ref, name⟩ ∈ world
  contents : ∀ (cell : CellRef) (site : Site) (value : Value), world.site? cell = some site →
    scopes.own? site.scope site.name = some value → cells[cell.index]? = some value
  table : ∀ name : String, table[name]? = scopes.own? globals name
  super : ∀ (ref : ScopeRef) (value : Value), scopes.own? ref "super" = some value →
    ∃ superclass, value = .classRef superclass

namespace Variables

variable {world : World} {scopes : Scopes} {globals : ScopeRef} {cells : Array Value}
  {table : Bindings}

theorem mem_of_site {cell : CellRef} {site : Site} (known : world.site? cell = some site) :
    site ∈ world :=
  List.mem_of_getElem? known

/-- Different cells have different sites. -/
theorem site_inj (stored : Variables world scopes globals cells table) {cell other : CellRef}
    {site : Site} (known : world.site? cell = some site) (same : world.site? other = some site) :
    cell.index = other.index := by
  have inside := (List.getElem?_eq_some_iff.mp known).1
  exact (List.getElem?_inj inside stored.nodup).mp (known.trans same.symm)

/-- A local variable changes in its scope and in its cell. -/
theorem assign (stored : Variables world scopes globals cells table) {cell : CellRef}
    {ref : ScopeRef} {name : String} (site : world.site? cell = some ⟨ref, name⟩) (value : Value)
    (super : name = "super" → ∃ superclass, value = .classRef superclass) :
    Variables world (scopes.define ref name value) globals
      (cells.modify cell.index fun _ => value) table := by
  rcases stored.sites _ (mem_of_site site) with ⟨isLocal, present⟩
  have own := fun other sought => Scopes.own?_define scopes ref other name sought value present
  have inside : cell.index < cells.size := by
    rw [stored.size]
    exact (List.getElem?_eq_some_iff.mp site).1
  refine ⟨?_, ?_, stored.nodup, ?_, ?_, ?_, ?_, ?_⟩
  · rw [Scopes.define_size]
    exact stored.present
  · rw [Array.size_modify]
    exact stored.size
  · rw [Scopes.define_size]
    exact stored.sites
  · intro other sought different bound
    rw [own] at bound
    split at bound
    next same =>
      rw [same.1, same.2]
      exact mem_of_site site
    next => exact stored.covered other sought different bound
  · intro other otherSite found otherKnown bound
    rw [own] at bound
    rw [Array.getElem?_modify]
    split at bound
    next same =>
      cases bound
      have sameSite : otherSite = ⟨ref, name⟩ := by
        rw [← same.1, ← same.2]
      rw [sameSite] at otherKnown
      have sameCell := stored.site_inj site otherKnown
      rw [if_pos sameCell, ← sameCell, Array.getElem?_eq_getElem inside]
      rfl
    next different =>
      have otherCell : cell.index ≠ other.index := by
        intro same
        have sameSite : some (⟨ref, name⟩ : Site) = some otherSite := by
          rw [← site, ← otherKnown, World.site?, World.site?, same]
        cases sameSite
        exact different ⟨rfl, rfl⟩
      rw [if_neg otherCell]
      exact stored.contents other otherSite found otherKnown bound
  · intro sought
    rw [own, if_neg fun same => isLocal same.1.symm]
    exact stored.table sought
  · intro other found bound
    rw [own] at bound
    split at bound
    next same =>
      cases bound
      exact super same.2.symm
    next => exact stored.super other found bound

/-- A global changes in the global scope and in the table. -/
theorem assignGlobal (stored : Variables world scopes globals cells table) {name : String}
    (plain : name ≠ "super") (value : Value) :
    Variables world (scopes.define globals name value) globals cells
      (table.insert name value) := by
  have own := fun other sought =>
    Scopes.own?_define scopes globals other name sought value stored.present
  refine ⟨?_, stored.size, stored.nodup, ?_, ?_, ?_, ?_, ?_⟩
  · rw [Scopes.define_size]
    exact stored.present
  · rw [Scopes.define_size]
    exact stored.sites
  · intro other sought different bound
    rw [own, if_neg fun same => different same.1] at bound
    exact stored.covered other sought different bound
  · intro cell site found known bound
    have isLocal := (stored.sites site (mem_of_site known)).1
    rw [own, if_neg fun same => isLocal same.1] at bound
    exact stored.contents cell site found known bound
  · intro sought
    rw [own, Table.getElem?_insert]
    by_cases same : name = sought
    · rw [if_pos same, if_pos ⟨rfl, same.symm⟩]
    · rw [if_neg same, if_neg fun equal => same equal.2.symm]
      exact stored.table sought
  · intro other found bound
    rw [own, if_neg fun same => plain same.2.symm] at bound
    exact stored.super other found bound

/-- A new site is not bound yet. -/
theorem newSite (stored : Variables world scopes globals cells table) {ref : ScopeRef}
    {name : String} (isLocal : ref ≠ globals) (present : ref.index < scopes.cells.size)
    (isNew : ⟨ref, name⟩ ∉ world) (value : Value) :
    Variables (world ++ [⟨ref, name⟩]) scopes globals (cells.push value) table := by
  refine ⟨stored.present, ?_, ?_, ?_, ?_, ?_, stored.table, stored.super⟩
  · rw [Array.size_push, stored.size, List.length_append, List.length_singleton]
  · rw [List.nodup_append]
    refine ⟨stored.nodup, List.pairwise_singleton _ _, ?_⟩
    intro site member other added same
    rw [List.mem_singleton.mp added] at same
    exact isNew (same ▸ member)
  · intro site member
    rcases List.mem_append.mp member with isOld | added
    · exact stored.sites site isOld
    · rw [List.mem_singleton.mp added]
      exact ⟨isLocal, present⟩
  · intro other sought different bound
    exact List.mem_append_left _ (stored.covered other sought different bound)
  · intro cell site found known bound
    rw [World.site?, List.getElem?_append] at known
    rw [Array.getElem?_push]
    split at known
    next inside =>
      rw [← stored.size] at inside
      rw [if_neg (Nat.ne_of_lt inside)]
      exact stored.contents cell site found known bound
    next outside =>
      have added := List.mem_singleton.mp (List.mem_of_getElem? known)
      rw [added] at bound
      have covered := stored.covered ref name isLocal (Option.isSome_of_eq_some bound)
      exact absurd covered isNew

theorem own?_push_empty (scopes : Scopes) (parent : Option ScopeRef) {ref : ScopeRef}
    {name : String} {value : Value}
    (bound : (scopes.push { bindings := ∅, parent }).own? ref name = some value) :
    scopes.own? ref name = some value := by
  by_cases isNew : ref = scopes.nextRef
  · rw [isNew, Scopes.own?, Scopes.bindings_push_nextRef] at bound
    simp at bound
  · have present := Scopes.lt_of_own (Option.isSome_of_eq_some bound)
    have apart : ref.index ≠ scopes.cells.size := fun same => isNew (congrArg ScopeRef.mk same)
    rw [Scopes.push_size] at present
    rw [Scopes.own?_push_of_lt scopes _ (by omega)] at bound
    exact bound

/-- A new scope without names changes no variable. -/
theorem push (stored : Variables world scopes globals cells table)
    (parent : Option ScopeRef) :
    Variables world (scopes.push { bindings := ∅, parent }) globals cells table := by
  have size := Scopes.push_size scopes { bindings := ∅, parent }
  have present := stored.present
  refine ⟨by omega, stored.size, stored.nodup, ?_, ?_, ?_, ?_, ?_⟩
  · intro site member
    rcases stored.sites site member with ⟨isLocal, inside⟩
    exact ⟨isLocal, by omega⟩
  · intro ref name isLocal bound
    rcases Option.isSome_iff_exists.mp bound with ⟨value, isValue⟩
    have before := own?_push_empty scopes parent isValue
    exact stored.covered ref name isLocal (Option.isSome_of_eq_some before)
  · intro cell site value known bound
    exact stored.contents cell site value known (own?_push_empty scopes parent bound)
  · intro name
    rw [Scopes.own?_push_of_lt scopes _ stored.present]
    exact stored.table name
  · intro ref value bound
    exact stored.super ref value (own?_push_empty scopes parent bound)

end Variables

/-! ## Functions and classes -/

/-- A function can be called where the tables are known: resolution accepted its body
there, and an initializer has `this` in the innermost table. -/
structure Callable (known : Visit → Prop) (tables : List NameTable) (closure : Lox.Closure) :
    Prop where
  formed : Stmt.FunctionWellFormed closure.declaration
  distinct : Stmt.FunctionDistinct tables closure.declaration
  visited : ∀ visit ∈ Stmt.functionVisits tables closure.declaration, known visit
  initializer : closure.isInitializer = true → ∃ outer, tables = thisTable :: outer

/-- The closures are of one function, and what they close over represents tables; with
the given tables around those the function can be called. -/
structure Alike (known : Visit → Prop) (around : List NameTable) (world : World)
    (scopes : Scopes) (globals : ScopeRef) (closure : Lox.Closure) (other : Closure) : Prop where
  declaration : other.declaration = closure.declaration
  isInitializer : other.isInitializer = closure.isInitializer
  represents : ∃ tables, Represents world scopes globals closure.scope tables other.locals ∧
    Callable known (around ++ tables) closure

/-- The classes have the same name, superclass and methods. -/
structure ClassAlike (known : Visit → Prop) (world : World) (scopes : Scopes)
    (globals : ScopeRef) (info : Lox.ClassInfo) (other : ClassInfo) : Prop where
  name : other.name = info.name
  superclass : other.superclass = info.superclass
  methods : ∀ name : String, Option.Rel (Alike known [thisTable] world scopes globals)
    info.methods[name]? other.methods[name]?

section Closures

variable {known : Visit → Prop} {around : List NameTable} {world later : World}
  {scopes grown : Scopes} {globals : ScopeRef} {isOpen : Bool} {current : ScopeRef}

theorem Alike.mono {closure : Lox.Closure} {other : Closure}
    (alike : Alike known around world scopes globals closure other)
    (grows : scopes.Grows grown) (extension : world.Extends isOpen current later) :
    Alike known around later grown globals closure other := by
  rcases alike.represents with ⟨tables, represents, callable⟩
  exact ⟨alike.declaration, alike.isInitializer, tables, represents.mono grows extension, callable⟩

theorem ClassAlike.mono {info : Lox.ClassInfo} {other : ClassInfo}
    (alike : ClassAlike known world scopes globals info other)
    (grows : scopes.Grows grown) (extension : world.Extends isOpen current later) :
    ClassAlike known later grown globals info other := by
  refine ⟨alike.name, alike.superclass, ?_⟩
  intro name
  exact Table.rel_imp (alike.methods name) fun _ _ method => method.mono grows extension

variable {weaker : Visit → Prop}

theorem Alike.imp {closure : Lox.Closure} {other : Closure}
    (alike : Alike known around world scopes globals closure other)
    (imp : ∀ visit, visit.place.isInner = true → known visit → weaker visit) :
    Alike weaker around world scopes globals closure other := by
  rcases alike.represents with ⟨tables, represents, callable⟩
  refine ⟨alike.declaration, alike.isInitializer, tables, represents, callable.formed,
    callable.distinct, ?_, callable.initializer⟩
  intro visit member
  exact imp visit (Stmt.isInner_of_mem_functionVisits _ _ member) (callable.visited visit member)

theorem ClassAlike.imp {info : Lox.ClassInfo} {other : ClassInfo}
    (alike : ClassAlike known world scopes globals info other)
    (imp : ∀ visit, visit.place.isInner = true → known visit → weaker visit) :
    ClassAlike weaker world scopes globals info other := by
  refine ⟨alike.name, alike.superclass, ?_⟩
  intro name
  exact Table.rel_imp (alike.methods name) fun _ _ method => method.imp imp

end Closures

/-! ## States -/

/-- The store has what the machine has. -/
structure Mirrors (known : Visit → Prop) (world : World) (machine : Machine) (store : Store) :
    Prop where
  current : machine.current.index < machine.heap.scopes.cells.size
  stored : Variables world machine.heap.scopes machine.globals store.cells store.globals
  functionCount : store.functions.size = machine.heap.functions.size
  functions : ∀ ref, Alike known [] world machine.heap.scopes machine.globals
    (machine.heap.function ref) (store.function ref)
  classCount : store.classes.size = machine.heap.classes.size
  classes : ∀ ref, ClassAlike known world machine.heap.scopes machine.globals
    (machine.heap.classInfo ref) (store.classInfo ref)
  natives : store.natives = machine.heap.natives
  objects : store.objects = machine.heap.objects
  callDepth : store.callDepth = machine.callDepth
  callLimit : store.callLimit = machine.callLimit
  sink : store.sink = machine.sink
  clock : store.clock = machine.clock
  recorded : ∀ visit, known visit →
    visit.Legal ∧ machine.distances[visit.id]? = visit.use.distance

namespace Mirrors

variable {known : Visit → Prop} {world later : World} {machine : Machine} {store : Store}

/-- Other distances, if they are right for what is known then.  Functions only need what
is known in function bodies. -/
theorem withDistances (mirrors : Mirrors known world machine store) {weaker : Visit → Prop}
    {distances : Std.TreeMap UseId Nat}
    (imp : ∀ visit, visit.place.isInner = true → known visit → weaker visit)
    (recorded : ∀ visit, weaker visit →
      visit.Legal ∧ distances[visit.id]? = visit.use.distance) :
    Mirrors weaker world { machine with distances } store where
  current := mirrors.current
  stored := mirrors.stored
  functionCount := mirrors.functionCount
  functions ref := (mirrors.functions ref).imp imp
  classCount := mirrors.classCount
  classes ref := (mirrors.classes ref).imp imp
  natives := mirrors.natives
  objects := mirrors.objects
  callDepth := mirrors.callDepth
  callLimit := mirrors.callLimit
  sink := mirrors.sink
  clock := mirrors.clock
  recorded := recorded

/-- A change of variables alone. -/
theorem withVariables (mirrors : Mirrors known world machine store) {isOpen : Bool}
    {inner : ScopeRef} {scopes : Scopes} {cells : Array Value} {globals : Bindings}
    (grows : machine.heap.scopes.Grows scopes) (extension : world.Extends isOpen inner later)
    (stored : Variables later scopes machine.globals cells globals) :
    Mirrors known later { machine with heap := { machine.heap with scopes } }
      { store with cells, globals } where
  current := Nat.lt_of_lt_of_le mirrors.current grows.size
  stored := stored
  functionCount := mirrors.functionCount
  functions ref := (mirrors.functions ref).mono grows extension
  classCount := mirrors.classCount
  classes ref := (mirrors.classes ref).mono grows extension
  natives := mirrors.natives
  objects := mirrors.objects
  callDepth := mirrors.callDepth
  callLimit := mirrors.callLimit
  sink := mirrors.sink
  clock := mirrors.clock
  recorded := mirrors.recorded

/-- In another scope the store is the same. -/
theorem enter (mirrors : Mirrors known world machine store) {scope : ScopeRef}
    (present : scope.index < machine.heap.scopes.cells.size) :
    Mirrors known world { machine with current := scope } store :=
  ⟨present, mirrors.stored, mirrors.functionCount, mirrors.functions, mirrors.classCount,
    mirrors.classes, mirrors.natives, mirrors.objects, mirrors.callDepth, mirrors.callLimit,
    mirrors.sink, mirrors.clock, mirrors.recorded⟩

theorem withDepth (mirrors : Mirrors known world machine store) {depth other : Nat}
    (same : other = depth) :
    Mirrors known world { machine with callDepth := depth } { store with callDepth := other } :=
  ⟨mirrors.current, mirrors.stored, mirrors.functionCount, mirrors.functions,
    mirrors.classCount, mirrors.classes, mirrors.natives, mirrors.objects, same,
    mirrors.callLimit, mirrors.sink, mirrors.clock, mirrors.recorded⟩

theorem uncount (mirrors : Mirrors known world machine store) :
    Mirrors known world { machine with callDepth := machine.callDepth - 1 }
      { store with callDepth := store.callDepth - 1 } :=
  mirrors.withDepth (by rw [mirrors.callDepth])

theorem withSink (mirrors : Mirrors known world machine store) {sink other : Sink}
    (same : other = sink) :
    Mirrors known world { machine with sink } { store with sink := other } :=
  ⟨mirrors.current, mirrors.stored, mirrors.functionCount, mirrors.functions,
    mirrors.classCount, mirrors.classes, mirrors.natives, mirrors.objects, mirrors.callDepth,
    mirrors.callLimit, same, mirrors.clock, mirrors.recorded⟩

theorem withClock (mirrors : Mirrors known world machine store) {clock other : Clock}
    (same : other = clock) :
    Mirrors known world { machine with clock } { store with clock := other } :=
  ⟨mirrors.current, mirrors.stored, mirrors.functionCount, mirrors.functions,
    mirrors.classCount, mirrors.classes, mirrors.natives, mirrors.objects, mirrors.callDepth,
    mirrors.callLimit, mirrors.sink, same, mirrors.recorded⟩

theorem withObjects (mirrors : Mirrors known world machine store) {objects others : Array Object}
    (same : others = objects) :
    Mirrors known world { machine with heap := { machine.heap with objects } }
      { store with objects := others } :=
  ⟨mirrors.current, mirrors.stored, mirrors.functionCount, mirrors.functions,
    mirrors.classCount, mirrors.classes, mirrors.natives, same, mirrors.callDepth,
    mirrors.callLimit, mirrors.sink, mirrors.clock, mirrors.recorded⟩

theorem addFunction (mirrors : Mirrors known world machine store) {closure : Lox.Closure}
    {other : Closure}
    (alike : Alike known [] world machine.heap.scopes machine.globals closure other) :
    Mirrors known world { machine with heap := (machine.heap.addFunction closure).1 }
      { store with functions := store.functions.push other } := by
  have count := mirrors.functionCount
  refine ⟨mirrors.current, mirrors.stored, ?_, ?_, mirrors.classCount, mirrors.classes,
    mirrors.natives, mirrors.objects, mirrors.callDepth, mirrors.callLimit, mirrors.sink,
    mirrors.clock, mirrors.recorded⟩
  · change (store.functions.push other).size = (machine.heap.functions.push closure).size
    rw [Array.size_push, Array.size_push, count]
  · intro ref
    have old := mirrors.functions ref
    simp only [Heap.function, Store.function, Array.getD_eq_getD_getElem?] at old
    simp only [Heap.function, Store.function, Heap.addFunction, Array.getD_eq_getD_getElem?,
      Array.getElem?_push, count]
    split
    · exact alike
    · exact old

theorem addClass (mirrors : Mirrors known world machine store) {info : Lox.ClassInfo}
    {other : ClassInfo}
    (alike : ClassAlike known world machine.heap.scopes machine.globals info other) :
    Mirrors known world { machine with heap := (machine.heap.addClass info).1 }
      { store with classes := store.classes.push other } := by
  have count := mirrors.classCount
  refine ⟨mirrors.current, mirrors.stored, mirrors.functionCount, mirrors.functions, ?_, ?_,
    mirrors.natives, mirrors.objects, mirrors.callDepth, mirrors.callLimit, mirrors.sink,
    mirrors.clock, mirrors.recorded⟩
  · change (store.classes.push other).size = (machine.heap.classes.push info).size
    rw [Array.size_push, Array.size_push, count]
  · intro ref
    have old := mirrors.classes ref
    simp only [Heap.classInfo, Store.classInfo, Array.getD_eq_getD_getElem?] at old
    simp only [Heap.classInfo, Store.classInfo, Heap.addClass, Array.getD_eq_getD_getElem?,
      Array.getElem?_push, count]
    split
    · exact alike
    · exact old

/-! ## Scopes and names -/

/-- A new scope without names represents one table more. -/
theorem openScope (mirrors : Mirrors known world machine store) {scope : ScopeRef}
    {tables : List NameTable} {locals : Locals}
    (represents : Represents world machine.heap.scopes machine.globals scope tables locals) :
    Mirrors known world { machine with heap := machine.heap.openScope (some scope) } store ∧
      Represents world (machine.heap.openScope (some scope)).scopes machine.globals
        machine.heap.scopes.nextRef (∅ :: tables) locals ∧
      world.Complete machine.heap.scopes.nextRef (∅ :: tables) := by
  refine ⟨?_, represents.push mirrors.stored.present, ?_⟩
  · exact mirrors.withVariables (Scopes.grows_push _ _) (World.Extends.refl false scope world)
      (mirrors.stored.push (some scope))
  · intro name member
    exact absurd (mirrors.stored.sites _ member).2 (Nat.lt_irrefl _)

theorem modify_push_size (cells : Array Value) (value : Value) :
    ((cells.push value).modify cells.size fun _ => value) = cells.push value := by
  apply Array.ext_getElem?
  intro index
  rw [Array.getElem?_modify]
  split
  next same => rw [← same, Array.getElem?_push_size, Option.map_some]
  next => rfl

/-- A name that is new in the innermost table gets a cell of its own. -/
theorem bindNew (mirrors : Mirrors known world machine store) {ref : ScopeRef}
    {table extended : NameTable} {outer : List NameTable} {locals : Locals} {name : String}
    (represents : Represents world machine.heap.scopes machine.globals ref (table :: outer) locals)
    (complete : world.Complete ref (table :: outer)) (isNew : table[name]? = none)
    (adds : Adds name table extended) (value : Value)
    (super : name = "super" → ∃ superclass, value = .classRef superclass) :
    Mirrors known (world ++ [⟨ref, name⟩])
        { machine with heap := machine.heap.define ref name value }
        { store with cells := store.cells.push value } ∧
      Represents (world ++ [⟨ref, name⟩]) (machine.heap.define ref name value).scopes
        machine.globals ref (extended :: outer) (locals.insert name ⟨store.cells.size⟩) ∧
      World.Complete (world ++ [⟨ref, name⟩]) ref (extended :: outer) := by
  have absent : ⟨ref, name⟩ ∉ world := by
    intro member
    have isSome := complete name member
    rw [isNew] at isSome
    cases isSome
  have extension : world.Extends true ref (world ++ [⟨ref, name⟩]) :=
    World.extends_singleton world (.inr ⟨rfl, rfl⟩)
  have site : World.site? (world ++ [⟨ref, name⟩]) ⟨store.cells.size⟩ = some ⟨ref, name⟩ := by
    rw [mirrors.stored.size]
    exact World.site?_append_singleton world _
  have added := mirrors.stored.newSite represents.ne_globals represents.lt_size absent value
  have assigned := added.assign site value super
  rw [modify_push_size] at assigned
  refine ⟨?_, ?_, ?_⟩
  · exact mirrors.withVariables (Scopes.grows_define _ ref name value) extension assigned
  · exact (represents.mono (Scopes.Grows.refl _) extension).define adds site value
  · intro sought member
    rw [adds sought]
    split
    · rfl
    next different =>
      rcases List.mem_append.mp member with isOld | isAdded
      · exact complete sought isOld
      · cases List.mem_singleton.mp isAdded
        exact absurd rfl different

/-! ## What both see -/

/-- The same methods are found. -/
theorem findMethod (mirrors : Mirrors known world machine store) (ref : ClassRef)
    (name : String) :
    Option.Rel (Alike known [thisTable] world machine.heap.scopes machine.globals)
      (machine.heap.findMethod? ref name) (store.findMethod? ref name) := by
  fun_induction machine.heap.findMethod? ref name with
  | case1 ref own isOwn =>
      rcases Table.eq_some_of_rel ((mirrors.classes ref).methods name) isOwn with
        ⟨other, isOther, alike⟩
      rw [Store.findMethod?, isOther]
      exact .some alike
  | case2 ref notOwn superclass isSuperclass earlier inductionHypothesis =>
      have noOther := Table.eq_none_of_rel ((mirrors.classes ref).methods name) notOwn
      rw [Store.findMethod?, noOther]
      simp only [(mirrors.classes ref).superclass, isSuperclass, earlier, if_true]
      exact inductionHypothesis
  | case3 ref notOwn superclass isSuperclass notEarlier =>
      have noOther := Table.eq_none_of_rel ((mirrors.classes ref).methods name) notOwn
      rw [Store.findMethod?, noOther]
      simp only [(mirrors.classes ref).superclass, isSuperclass, notEarlier, if_false]
      exact .none
  | case4 ref notOwn noSuperclass =>
      have noOther := Table.eq_none_of_rel ((mirrors.classes ref).methods name) notOwn
      rw [Store.findMethod?, noOther]
      simp only [(mirrors.classes ref).superclass, noSuperclass]
      exact .none

theorem arity (mirrors : Mirrors known world machine store) (callee : Value) :
    store.arity? callee = machine.heap.arity? callee := by
  cases callee with
  | native ref =>
      simp only [Store.arity?, Heap.arity?, Store.native, Heap.native, mirrors.natives]
  | function ref =>
      simp only [Store.arity?, Heap.arity?, (mirrors.functions ref).declaration]
      rfl
  | classRef ref =>
      simp only [Store.arity?, Heap.arity?]
      have found := mirrors.findMethod ref "init"
      generalize machine.heap.findMethod? ref "init" = method at found
      generalize store.findMethod? ref "init" = other at found
      cases found with
      | none => rfl
      | some alike =>
          simp only [Option.map_some, alike.declaration]
          rfl
  | _ => rfl

theorem text (mirrors : Mirrors known world machine store) (value : Value) :
    store.text value = machine.heap.text value := by
  cases value with
  | function ref =>
      simp only [Store.text, (mirrors.functions ref).declaration]
      rfl
  | classRef ref => exact (mirrors.classes ref).name
  | object ref =>
      have same : store.object ref = machine.heap.object ref := by
        rw [Store.object, Heap.object, mirrors.objects]
      simp only [Store.text, same, (mirrors.classes _).name]
      rfl
  | _ => rfl

end Mirrors

end Lexical

end Lox
