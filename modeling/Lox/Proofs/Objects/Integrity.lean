import Lox.Proofs.Objects.Assignments
import Lox.Proofs.Receivers.Persistence

/-!
# Heaps without loose ends

Whatever a program can get hold of is in the heap: bindings, fields and superclasses refer
to entries that are there.  A class comes after its superclass, its methods are those that
its body declares, `this` is bound to objects only, and a function that initializes an
object closes over a scope that binds `this`.
-/

namespace Lox

open Actions Eval

namespace Heap

/-! ## Values that are there -/

/-- What the value refers to, if anything, is in the heap. -/
def Has (heap : Heap) : Value → Prop
  | .native ref => ref.index < heap.natives.size
  | .function ref => ref.index < heap.functions.size
  | .classRef ref => ref.index < heap.classes.size
  | .object ref => ref.index < heap.objects.size
  | _ => True

/-- The second heap has all entries of the first one. -/
structure Widens (heap later : Heap) : Prop where
  persists : heap.Persists later
  natives : later.natives = heap.natives
  objects : heap.objects.size ≤ later.objects.size

variable {heap middle later : Heap}

theorem Widens.refl (heap : Heap) : heap.Widens heap :=
  ⟨.refl _, rfl, Nat.le_refl _⟩

theorem Widens.trans (first : heap.Widens middle) (second : middle.Widens later) :
    heap.Widens later :=
  ⟨first.persists.trans second.persists, second.natives.trans first.natives,
    Nat.le_trans first.objects second.objects⟩

/-- What is there stays there. -/
theorem Has.mono {value : Value} (has : heap.Has value) (widens : heap.Widens later) :
    later.Has value := by
  cases value with
  | native ref =>
      rw [Has, widens.natives]
      exact has
  | function ref =>
      have found := widens.persists.functions (Array.getElem?_eq_getElem has)
      exact (Array.getElem?_eq_some_iff.mp found).1
  | classRef ref =>
      have found := widens.persists.classes (Array.getElem?_eq_getElem has)
      exact (Array.getElem?_eq_some_iff.mp found).1
  | object ref => exact Nat.lt_of_lt_of_le has widens.objects
  | _ => trivial

/-- What is there does not depend on the scopes. -/
theorem has_withScopes (scopes : Scopes) {value : Value} :
    ({ heap with scopes } : Heap).Has value ↔ heap.Has value := by
  cases value <;> exact Iff.rfl

theorem widens_addFunction (heap : Heap) (closure : Closure) :
    heap.Widens (heap.addFunction closure).1 :=
  ⟨heap.persists_addFunction closure, rfl, Nat.le_refl _⟩

theorem widens_addClass (heap : Heap) (info : ClassInfo) :
    heap.Widens (heap.addClass info).1 :=
  ⟨heap.persists_addClass info, rfl, Nat.le_refl _⟩

theorem widens_addObject (heap : Heap) (ofClass : ClassRef) :
    heap.Widens (heap.addObject ofClass).1 := by
  refine ⟨heap.persists_objects _, rfl, ?_⟩
  change _ ≤ (heap.objects.push _).size
  rw [Array.size_push]
  exact Nat.le_succ _

theorem widens_setField (heap : Heap) (ref : ObjectRef) (name : String) (value : Value) :
    heap.Widens (heap.setField ref name value) :=
  ⟨heap.persists_objects _, rfl, Nat.le_of_eq Array.size_modify.symm⟩

theorem widens_bind (heap : Heap) (method : Closure) (this : Value) :
    heap.Widens (heap.bind method this).1 :=
  ⟨heap.persists_bind method this, rfl, Nat.le_refl _⟩

theorem has_addFunction (heap : Heap) (closure : Closure) :
    (heap.addFunction closure).1.Has (.function (heap.addFunction closure).2) := by
  change heap.functions.size < (heap.functions.push closure).size
  rw [Array.size_push]
  exact Nat.lt_succ_self _

theorem has_addClass (heap : Heap) (info : ClassInfo) :
    (heap.addClass info).1.Has (.classRef (heap.addClass info).2) := by
  change heap.classes.size < (heap.classes.push info).size
  rw [Array.size_push]
  exact Nat.lt_succ_self _

theorem has_addObject (heap : Heap) (ofClass : ClassRef) :
    (heap.addObject ofClass).1.Has (.object (heap.addObject ofClass).2) := by
  change heap.objects.size < (heap.objects.push _).size
  rw [Array.size_push]
  exact Nat.lt_succ_self _

/-! ## Intact heaps -/

/-- If the function initializes objects, it has one. -/
def Equipped (heap : Heap) (closure : Closure) : Prop :=
  closure.isInitializer = true → (heap.scopes.own? closure.scope "this").isSome

/-- Nothing in the heap refers to what is not there, and all entries are as they are
declared. -/
structure Intact (heap : Heap) : Prop where
  /-- The clock is the only native function. -/
  natives : heap.natives = #[Machine.clockNative]
  bindings : ∀ {ref : ScopeRef} {name : String} {value : Value},
    heap.scopes.own? ref name = some value → heap.Has value
  fields : ∀ {ref : ObjectRef} {name : String} {value : Value},
    (heap.object ref).fields[name]? = some value → heap.Has value
  ofClass : ∀ {ref : ObjectRef}, ref.index < heap.objects.size →
    heap.Has (.classRef (heap.object ref).ofClass)
  superclass : ∀ {ref parent : ClassRef}, (heap.classInfo ref).superclass = some parent →
    parent.index < ref.index
  methods : ∀ ref : ClassRef, ∃ declarations scope,
    (heap.classInfo ref).methods = methodTable declarations scope
  receivers : ∀ {ref : ScopeRef} {value : Value}, heap.scopes.own? ref "this" = some value →
    ∃ object, value = .object object
  initializers : ∀ ref : FunctionRef, heap.Equipped (heap.function ref)

theorem Equipped.mono {closure : Closure} (equipped : heap.Equipped closure)
    (widens : heap.Widens later) : later.Equipped closure :=
  fun isInitializer => widens.persists.grows.bound (equipped isInitializer)

/-- A change of scopes. -/
theorem Intact.withScopes (intact : heap.Intact) {scopes : Scopes}
    (grows : heap.scopes.Grows scopes)
    (bound : ∀ {ref : ScopeRef} {name : String} {value : Value},
      scopes.own? ref name = some value →
      heap.scopes.own? ref name = some value ∨
        (heap.Has value ∧ (name = "this" → ∃ object, value = .object object))) :
    ({ heap with scopes } : Heap).Intact where
  natives := intact.natives
  bindings := by
    intro ref name value found
    apply (has_withScopes scopes).mpr
    rcases bound found with old | ⟨has, -⟩
    · exact intact.bindings old
    · exact has
  fields found := (has_withScopes scopes).mpr (intact.fields found)
  ofClass present := intact.ofClass present
  superclass := intact.superclass
  methods := intact.methods
  receivers := by
    intro ref value found
    rcases bound found with old | ⟨-, isObject⟩
    · exact intact.receivers old
    · exact isObject rfl
  initializers ref := by
    intro isInitializer
    exact grows.bound (intact.initializers ref isInitializer)

theorem Intact.define (intact : heap.Intact) (ref : ScopeRef) {name : String} {value : Value}
    (plain : ¬ IsReserved name) (has : heap.Has value) : (heap.define ref name value).Intact := by
  apply intact.withScopes (Scopes.grows_define _ _ _ _)
  intro other sought found isFound
  by_cases present : ref.index < heap.scopes.cells.size
  · rw [Scopes.own?_define heap.scopes ref other name sought value present] at isFound
    by_cases same : other = ref ∧ sought = name
    · rw [if_pos same] at isFound
      cases isFound
      refine .inr ⟨has, fun isThis => absurd (.inl ?_) plain⟩
      rw [← same.2, isThis]
    · rw [if_neg same] at isFound
      exact .inl isFound
  · rw [Scopes.define_of_not_lt name value present] at isFound
    exact .inl isFound

theorem Intact.push (intact : heap.Intact) {scope : Scope}
    (bound : ∀ {name : String} {value : Value}, scope.bindings[name]? = some value →
      heap.Has value ∧ (name = "this" → ∃ object, value = .object object)) :
    ({ heap with scopes := heap.scopes.push scope } : Heap).Intact := by
  apply intact.withScopes (Scopes.grows_push _ _)
  intro ref name value found
  by_cases old : ref.index < heap.scopes.cells.size
  · rw [Scopes.own?_push_of_lt heap.scopes scope old] at found
    exact .inl found
  · have present := Scopes.lt_of_own (Option.isSome_of_eq_some found)
    rw [Scopes.push_size] at present
    have isNew : ref = heap.scopes.nextRef :=
      congrArg ScopeRef.mk (Nat.le_antisymm (Nat.le_of_lt_succ present) (Nat.not_lt.mp old))
    rw [isNew, Scopes.own?, Scopes.bindings_push_nextRef] at found
    exact .inr (bound found)

theorem Intact.bind (intact : heap.Intact) (method : Closure) {ref : ObjectRef}
    (has : heap.Has (.object ref)) : (heap.bind method (.object ref)).1.Intact := by
  rw [bind_fst]
  apply intact.push
  intro name value found
  change ((∅ : Bindings).insert "this" (.object ref))[name]? = some value at found
  rw [Table.getElem?_insert] at found
  split at found
  · cases found
    exact ⟨has, fun _ => ⟨ref, rfl⟩⟩
  · simp at found

/-- The method that was bound has its object. -/
theorem own?_bind (heap : Heap) (method : Closure) (this : Value) :
    (heap.bind method this).1.scopes.own? (heap.bind method this).2.scope "this" = some this := by
  rw [bind_fst]
  change (heap.scopes.push _).own? heap.scopes.nextRef "this" = some this
  rw [Scopes.own?, Scopes.bindings_push_nextRef, Table.getElem?_insert, if_pos rfl]

theorem Intact.addFunction (intact : heap.Intact) {closure : Closure}
    (equipped : heap.Equipped closure) : (heap.addFunction closure).1.Intact where
  natives := intact.natives
  bindings found := (intact.bindings found).mono (heap.widens_addFunction closure)
  fields found := (intact.fields found).mono (heap.widens_addFunction closure)
  ofClass present := intact.ofClass present
  superclass := intact.superclass
  methods := intact.methods
  receivers := intact.receivers
  initializers ref := by
    rcases function_addFunction heap closure ref with old | isNew
    · rw [old]
      exact intact.initializers ref
    · rw [isNew]
      exact equipped

theorem Intact.addClass (intact : heap.Intact) {info : ClassInfo}
    (superclass : ∀ {parent : ClassRef}, info.superclass = some parent →
      heap.Has (.classRef parent))
    (methods : ∃ declarations scope, info.methods = methodTable declarations scope) :
    (heap.addClass info).1.Intact where
  natives := intact.natives
  bindings found := (intact.bindings found).mono (heap.widens_addClass info)
  fields found := (intact.fields found).mono (heap.widens_addClass info)
  ofClass present := (intact.ofClass present).mono (heap.widens_addClass info)
  superclass := by
    intro ref parent isParent
    by_cases isNew : ref.index = heap.classes.size
    · have added : (heap.addClass info).1.classInfo ref = info := by
        apply classInfo_of_getElem?
        rw [isNew]
        exact Array.getElem?_push_size
      rw [added] at isParent
      rw [isNew]
      exact superclass isParent
    · have old : (heap.addClass info).1.classInfo ref = heap.classInfo ref := by
        simp only [classInfo, Heap.addClass, Array.getD_eq_getD_getElem?, Array.getElem?_push,
          if_neg isNew]
      rw [old] at isParent
      exact intact.superclass isParent
  methods ref := by
    rcases classInfo_addClass heap info ref with old | isNew
    · rw [old]
      exact intact.methods ref
    · rw [isNew]
      exact methods
  receivers := intact.receivers
  initializers := intact.initializers

theorem Intact.addObject (intact : heap.Intact) {ofClass : ClassRef}
    (has : heap.Has (.classRef ofClass)) : (heap.addObject ofClass).1.Intact where
  natives := intact.natives
  bindings found := (intact.bindings found).mono (heap.widens_addObject ofClass)
  fields := by
    intro ref name value found
    rw [object_addObject] at found
    split at found
    · simp at found
    · exact (intact.fields found).mono (heap.widens_addObject ofClass)
  ofClass := by
    intro ref present
    rw [object_addObject]
    split
    next => exact has
    next isOld =>
      change ref.index < (heap.objects.push _).size at present
      rw [Array.size_push] at present
      exact intact.ofClass (Nat.lt_of_le_of_ne (Nat.le_of_lt_succ present) isOld)
  superclass := intact.superclass
  methods := intact.methods
  receivers := intact.receivers
  initializers := intact.initializers

theorem Intact.setField (intact : heap.Intact) {ref : ObjectRef} (name : String) {value : Value}
    (present : heap.Has (.object ref)) (has : heap.Has value) :
    (heap.setField ref name value).Intact where
  natives := intact.natives
  bindings found := (intact.bindings found).mono (heap.widens_setField ref name value)
  fields := by
    intro other sought found isFound
    apply Has.mono _ (heap.widens_setField ref name value)
    rw [object_setField heap present] at isFound
    split at isFound
    · rw [Table.getElem?_insert] at isFound
      split at isFound
      · cases isFound
        exact has
      · exact intact.fields isFound
    · exact intact.fields isFound
  ofClass := by
    intro other isThere
    change other.index < (heap.objects.modify _ _).size at isThere
    rw [Array.size_modify] at isThere
    rw [object_setField heap present]
    split
    next same =>
      rw [← same] at isThere
      exact intact.ofClass isThere
    next => exact intact.ofClass isThere
  superclass := intact.superclass
  methods := intact.methods
  receivers := intact.receivers
  initializers := intact.initializers

end Heap

end Lox
