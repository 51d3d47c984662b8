import Lox.Proofs.Evaluation.Frame
import Lox.Proofs.Resolution.Visits

/-!
# Scopes that realize what resolution knew

A chain of scopes realizes a stack of name tables if it has a scope for each of
them, with the names of the table bound, before it ends in the global scope.  A
machine is faithful if each function closes over a chain that realizes the scopes
in which resolution visited its body.
-/

namespace Lox

/-! ## Tables -/

/-- The table has, besides its old entries, at most that of a name which is now
defined. -/
def Defines (name : String) (table later : NameTable) : Prop :=
  ∀ sought status, later[sought]? = some status →
    (sought = name ∧ status = .defined) ∨ table[sought]? = some status

theorem defines_insert (name : String) (table : NameTable) :
    Defines name table (table.insert name .defined) := by
  intro sought status found
  rw [Table.getElem?_insert] at found
  split at found
  next same =>
    cases found
    exact .inl ⟨same.symm, rfl⟩
  next => exact .inr found

theorem introduceIn_cons (name : String) (table : NameTable) (outer : List NameTable) :
    ∃ later, introduceIn name (table :: outer) = later :: outer ∧ Defines name table later := by
  rw [introduceIn, declareIn]
  split
  · exact ⟨table.insert name .defined, rfl, defines_insert name table⟩
  · refine ⟨(table.insert name .declared).insert name .defined, rfl, ?_⟩
    intro sought status found
    rw [Table.getElem?_insert, Table.getElem?_insert] at found
    split at found
    next same =>
      cases found
      exact .inl ⟨same.symm, rfl⟩
    next => exact .inr found

/-! ## Chains -/

/-- Every name of the table is defined, and bound in the scope. -/
def Binds (scopes : Scopes) (ref : ScopeRef) (table : NameTable) : Prop :=
  ∀ name status, table[name]? = some status →
    status = .defined ∧ (scopes.own? ref name).isSome

/-- The chain of scopes from `ref` on has a scope for each of the tables, and then
ends in the global scope. -/
def Realizes (scopes : Scopes) (globals : ScopeRef) : ScopeRef → List NameTable → Prop
  | ref, [] => ref = globals
  | ref, table :: outer =>
      ref ≠ globals ∧ Binds scopes ref table ∧
        ∃ parent, scopes.parent? ref = some parent ∧ Realizes scopes globals parent outer

section Chains

variable {scopes later : Scopes} {globals ref : ScopeRef} {tables : List NameTable}

theorem Binds.mono {table : NameTable} (binds : Binds scopes ref table)
    (grows : scopes.Grows later) : Binds later ref table := by
  intro name status known
  rcases binds name status known with ⟨defined, bound⟩
  exact ⟨defined, grows.bound bound⟩

theorem Realizes.mono (realizes : Realizes scopes globals ref tables)
    (grows : scopes.Grows later) : Realizes later globals ref tables := by
  induction tables generalizing ref with
  | nil => exact realizes
  | cons table outer inductionHypothesis =>
      rcases realizes with ⟨inner, binds, parent, linked, rest⟩
      exact ⟨inner, binds.mono grows, parent, grows.parent_some linked, inductionHypothesis rest⟩

/-- A new scope inside a chain that realizes tables realizes one table more. -/
theorem Realizes.push (realizes : Realizes scopes globals ref tables)
    (present : globals.index < scopes.cells.size) {bindings : Bindings} {table : NameTable}
    (bound : ∀ (name : String) (status : Status), table[name]? = some status →
      status = .defined ∧ (bindings[name]?).isSome) :
    Realizes (scopes.push { bindings, parent := some ref }) globals scopes.nextRef
      (table :: tables) := by
  refine ⟨?_, ?_, ref, ?_, realizes.mono (Scopes.grows_push scopes _)⟩
  · intro same
    rw [← same] at present
    exact Nat.lt_irrefl _ present
  · intro name status known
    rw [Scopes.own?, Scopes.bindings_push_nextRef]
    exact bound name status known
  · rw [Scopes.parent?_push_nextRef]

/-- A name that is bound in the innermost scope can be defined there. -/
theorem Realizes.define {table extended : NameTable}
    (realizes : Realizes scopes globals ref (table :: tables)) {name : String}
    (defines : Defines name table extended) (value : Value) :
    Realizes (scopes.define ref name value) globals ref (extended :: tables) := by
  have grows := Scopes.grows_define scopes ref name value
  rcases realizes with ⟨inner, binds, parent, linked, rest⟩
  refine ⟨inner, ?_, parent, grows.parent_some linked, rest.mono grows⟩
  intro sought status known
  rcases defines sought status known with ⟨rfl, rfl⟩ | old
  · rw [Scopes.own?_define scopes ref ref _ _ value (Scopes.lt_of_parent linked)]
    simp
  · rcases binds sought status old with ⟨defined, bound⟩
    exact ⟨defined, grows.bound bound⟩

theorem Realizes.introduce (realizes : Realizes scopes globals ref tables) (name : String)
    (value : Value) :
    Realizes (scopes.define ref name value) globals ref (introduceIn name tables) := by
  cases tables with
  | nil => exact realizes
  | cons table outer =>
      rcases introduceIn_cons name table outer with ⟨later, introduced, defines⟩
      rw [introduced]
      exact realizes.define defines value

end Chains

/-! ## Faithful machines -/

/-- A closure fits if its scope realizes tables such that the visits of its body,
with the given tables around it, are known. -/
def Closure.Fits (known : Visit → Prop) (around : List NameTable) (scopes : Scopes)
    (globals : ScopeRef) (closure : Closure) : Prop :=
  ∃ tables, Realizes scopes globals closure.scope tables ∧
    Stmt.FunctionWellFormed closure.declaration ∧
    ∀ visit ∈ Stmt.functionVisits (around ++ tables) closure.declaration, known visit

theorem Closure.Fits.mono {known : Visit → Prop} {around : List NameTable}
    {scopes later : Scopes} {globals : ScopeRef} {closure : Closure}
    (fits : closure.Fits known around scopes globals) (grows : scopes.Grows later) :
    closure.Fits known around later globals := by
  rcases fits with ⟨tables, realizes, formed, visited⟩
  exact ⟨tables, realizes.mono grows, formed, visited⟩

/-- All functions and methods fit, and `super` is bound to classes only. -/
structure Heap.Faithful (known : Visit → Prop) (globals : ScopeRef) (heap : Heap) : Prop where
  present : globals.index < heap.scopes.cells.size
  functions : ∀ ref, (heap.function ref).Fits known [] heap.scopes globals
  methods : ∀ (ref : ClassRef) (name : String) (method : Closure),
    (heap.classInfo ref).methods[name]? = some method →
    method.Fits known [thisTable] heap.scopes globals
  super : ∀ ref value, heap.scopes.own? ref "super" = some value →
    ∃ superclass, value = .classRef superclass

theorem Closure.Fits.imp {known weaker : Visit → Prop} {around : List NameTable}
    {scopes : Scopes} {globals : ScopeRef} {closure : Closure}
    (fits : closure.Fits known around scopes globals)
    (imp : ∀ visit, visit.place.isInner = true → known visit → weaker visit) :
    closure.Fits weaker around scopes globals := by
  rcases fits with ⟨tables, realizes, formed, visited⟩
  refine ⟨tables, realizes, formed, ?_⟩
  intro visit member
  exact imp visit (Stmt.isInner_of_mem_functionVisits _ _ member) (visited visit member)

namespace Heap

variable {known : Visit → Prop} {globals : ScopeRef} {heap : Heap}

/-- Only visits in function bodies have to be known. -/
theorem Faithful.imp {weaker : Visit → Prop} (faithful : heap.Faithful known globals)
    (imp : ∀ visit, visit.place.isInner = true → known visit → weaker visit) :
    heap.Faithful weaker globals where
  present := faithful.present
  functions ref := (faithful.functions ref).imp imp
  methods ref name method found := (faithful.methods ref name method found).imp imp
  super := faithful.super

/-- A change of the scopes in which `super` keeps its values. -/
theorem Faithful.withScopes (faithful : heap.Faithful known globals) {scopes : Scopes}
    (grows : heap.scopes.Grows scopes)
    (super : ∀ ref value, scopes.own? ref "super" = some value →
      heap.scopes.own? ref "super" = some value ∨ ∃ superclass, value = .classRef superclass) :
    ({ heap with scopes } : Heap).Faithful known globals where
  present := Nat.lt_of_lt_of_le faithful.present grows.size
  functions ref := (faithful.functions ref).mono grows
  methods ref name method found := (faithful.methods ref name method found).mono grows
  super := by
    intro ref value bound
    rcases super ref value bound with before | isClass
    · exact faithful.super ref value before
    · exact isClass

theorem Faithful.define (faithful : heap.Faithful known globals) (ref : ScopeRef) {name : String}
    (value : Value) (plain : name ≠ "super") :
    (heap.define ref name value).Faithful known globals := by
  apply faithful.withScopes (Scopes.grows_define heap.scopes ref name value)
  intro other bound found
  by_cases present : ref.index < heap.scopes.cells.size
  · rw [Scopes.own?_define heap.scopes ref other name "super" value present, if_neg] at found
    · exact .inl found
    · intro same
      exact plain same.2.symm
  · rw [Scopes.define_of_not_lt name value present] at found
    exact .inl found

theorem Faithful.push (faithful : heap.Faithful known globals) {scope : Scope}
    (super : ∀ value, scope.bindings["super"]? = some value →
      ∃ superclass, value = .classRef superclass) :
    ({ heap with scopes := heap.scopes.push scope } : Heap).Faithful known globals := by
  apply faithful.withScopes (Scopes.grows_push heap.scopes scope)
  intro ref value found
  by_cases isNew : ref = heap.scopes.nextRef
  · subst isNew
    rw [Scopes.own?, Scopes.bindings_push_nextRef] at found
    exact .inr (super value found)
  · have present : ref.index < (heap.scopes.push scope).cells.size :=
      Scopes.lt_of_own (Option.isSome_of_eq_some found)
    have old : ref.index < heap.scopes.cells.size := by
      rw [Scopes.push_size] at present
      have apart : ref.index ≠ heap.scopes.cells.size :=
        fun same => isNew (congrArg ScopeRef.mk same)
      omega
    rw [Scopes.own?_push_of_lt heap.scopes scope old] at found
    exact .inl found

theorem function_addFunction (heap : Heap) (closure : Closure) (ref : FunctionRef) :
    (heap.addFunction closure).1.function ref = heap.function ref ∨
      (heap.addFunction closure).1.function ref = closure := by
  simp only [function, addFunction, Array.getD_eq_getD_getElem?, Array.getElem?_push]
  split
  · exact .inr rfl
  · exact .inl rfl

theorem Faithful.addFunction (faithful : heap.Faithful known globals) {closure : Closure}
    (fits : closure.Fits known [] heap.scopes globals) :
    (heap.addFunction closure).1.Faithful known globals where
  present := faithful.present
  functions := by
    intro ref
    rcases function_addFunction heap closure ref with old | isNew
    · rw [old]
      exact faithful.functions ref
    · rw [isNew]
      exact fits
  methods := faithful.methods
  super := faithful.super

theorem classInfo_addClass (heap : Heap) (info : ClassInfo) (ref : ClassRef) :
    (heap.addClass info).1.classInfo ref = heap.classInfo ref ∨
      (heap.addClass info).1.classInfo ref = info := by
  simp only [classInfo, addClass, Array.getD_eq_getD_getElem?, Array.getElem?_push]
  split
  · exact .inr rfl
  · exact .inl rfl

theorem Faithful.addClass (faithful : heap.Faithful known globals) {info : ClassInfo}
    (fit : ∀ (name : String) (method : Closure), info.methods[name]? = some method →
      method.Fits known [thisTable] heap.scopes globals) :
    (heap.addClass info).1.Faithful known globals where
  present := faithful.present
  functions := faithful.functions
  methods := by
    intro ref name method found
    rcases classInfo_addClass heap info ref with old | isNew
    · rw [old] at found
      exact faithful.methods ref name method found
    · rw [isNew] at found
      exact fit name method found
  super := faithful.super

/-- A change of the objects alone. -/
theorem Faithful.withObjects (faithful : heap.Faithful known globals) (objects : Array Object) :
    ({ heap with objects } : Heap).Faithful known globals :=
  ⟨faithful.present, faithful.functions, faithful.methods, faithful.super⟩

/-- A method that is found fits, from whichever class it is. -/
theorem Faithful.findMethod (faithful : heap.Faithful known globals) {ref : ClassRef}
    {name : String} {method : Closure} (found : heap.findMethod? ref name = some method) :
    method.Fits known [thisTable] heap.scopes globals := by
  fun_induction heap.findMethod? ref name with
  | case1 ref own isOwn =>
      cases found
      exact faithful.methods ref name _ isOwn
  | case2 ref _ superclass _ _ inductionHypothesis => exact inductionHypothesis found
  | case3 => cases found
  | case4 => cases found

/-- Which methods are found depends on the classes only. -/
theorem findMethod?_congr {other : Heap} (same : other.classes = heap.classes) (ref : ClassRef)
    (name : String) : other.findMethod? ref name = heap.findMethod? ref name := by
  have sameInfo : ∀ ref, other.classInfo ref = heap.classInfo ref := by
    intro ref
    rw [classInfo, same, classInfo]
  fun_induction heap.findMethod? ref name with
  | case1 ref own isOwn => rw [findMethod?, sameInfo, isOwn]
  | case2 ref notOwn superclass isSuperclass earlier inductionHypothesis =>
      rw [findMethod?, sameInfo]
      simp only [notOwn, isSuperclass, earlier, if_true]
      exact inductionHypothesis
  | case3 ref notOwn superclass isSuperclass notEarlier =>
      rw [findMethod?, sameInfo]
      simp only [notOwn, isSuperclass, notEarlier, if_false]
  | case4 ref notOwn noSuperclass =>
      rw [findMethod?, sameInfo]
      simp only [notOwn, noSuperclass]

/-- A bound method is a function that fits. -/
theorem Faithful.bind (faithful : heap.Faithful known globals) {method : Closure} (this : Value)
    (fits : method.Fits known [thisTable] heap.scopes globals) :
    (heap.bind method this).1.Faithful known globals ∧
      (heap.bind method this).2.Fits known [] (heap.bind method this).1.scopes globals := by
  rcases fits with ⟨tables, realizes, formed, visited⟩
  have opened : (heap.openScope (some method.scope)).Faithful known globals := by
    apply faithful.push
    intro value found
    simp at found
  have entered : Realizes (heap.openScope (some method.scope)).scopes globals
      heap.scopes.nextRef (∅ :: tables) := by
    apply realizes.push faithful.present
    intro name status found
    simp at found
  have bound := entered.define (defines_insert "this" ∅) this
  exact ⟨opened.define _ this (by decide), thisTable :: tables, bound, formed, visited⟩

end Heap

end Lox
