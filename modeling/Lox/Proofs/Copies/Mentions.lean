import Lox.Proofs.Copies.Evaluation
import Lox.Proofs.Session.Histories

/-!
# The uses that a heap mentions

Functions in the heap can be called later on, so the distances of the uses in their
bodies have to stay as they are.  Whatever else is recorded or forgotten, the heap
stays a copy of another one.
-/

namespace Lox

/-- The use is in the body of a function or method in the heap. -/
def Heap.Mentions (heap : Heap) (id : UseId) : Prop :=
  (∃ ref, id ∈ Stmt.functionIds (heap.function ref).declaration) ∨
    ∃ (ref : ClassRef) (name : String) (method : Closure),
      (heap.classInfo ref).methods[name]? = some method ∧
      id ∈ Stmt.functionIds method.declaration

theorem Closure.Fits.exists_visit {known : Visit → Prop} {around : List NameTable}
    {scopes : Scopes} {globals : ScopeRef} {closure : Closure}
    (fits : closure.Fits known around scopes globals) {id : UseId}
    (member : id ∈ Stmt.functionIds closure.declaration) :
    ∃ visit, known visit ∧ visit.place.isInner = true ∧ visit.id = id := by
  rcases fits with ⟨tables, -, -, visited⟩
  have counted := Stmt.count_functionVisits (around ++ tables) closure.declaration id
  have positive := List.count_pos_iff.mpr member
  rw [← counted, List.count_pos_iff] at positive
  rcases List.mem_map.mp positive with ⟨visit, isVisit, same⟩
  exact ⟨visit, visited visit isVisit, Stmt.isInner_of_mem_functionVisits _ _ isVisit, same⟩

/-- All uses that a faithful heap mentions are known. -/
theorem Heap.Faithful.exists_visit {known : Visit → Prop} {globals : ScopeRef} {heap : Heap}
    (faithful : heap.Faithful known globals) {id : UseId} (mentions : heap.Mentions id) :
    ∃ visit, known visit ∧ visit.place.isInner = true ∧ visit.id = id := by
  rcases mentions with ⟨ref, member⟩ | ⟨ref, name, method, found, member⟩
  · exact (faithful.functions ref).exists_visit member
  · exact (faithful.methods ref name method found).exists_visit member

namespace Session

variable {session : Session} {origin : Visit → Prop} {program : List Stmt}
  {nextId : UseId} {id : UseId}

/-- Between units, the heap mentions only identities that have been given out. -/
theorem Settled.lt_nextId (settled : session.Settled origin)
    (mentions : session.machine.heap.Mentions id) : id < session.nextId := by
  rcases settled.faithful.exists_visit mentions with ⟨visit, knows, -, rfl⟩
  exact knows.bounded

/-- Resolution does not touch what the heap mentions. -/
theorem Takes.resolved_mentioned (takes : session.Takes program nextId)
    (settled : session.Settled origin) (mentions : session.machine.heap.Mentions id) :
    (session.resolved program).distances[id]? = session.machine.distances[id]? :=
  takes.resolved_old (.inl (settled.lt_nextId mentions))

/-- What the heap mentions when an accepted unit has run is not forgotten. -/
theorem Takes.released_mentioned (takes : session.Takes program nextId)
    (settled : session.Settled origin)
    (clean : (resolveProgram session.machine.globalNames program).errors = []) {fuel : Nat}
    (mentions : (session.finalMachine fuel program).heap.Mentions id) :
    ((session.finalMachine fuel program).release program).distances[id]? =
      (session.resolved program).distances[id]? := by
  have safe := takes.safe settled clean fuel
  have grows : (session.resolved program).Grows (session.finalMachine fuel program) := safe.grows
  have faithful : (session.finalMachine fuel program).Faithful
      (Knows (session.WithUnit origin program) (session.resolved program).distances nextId) :=
    safe.faithful
  rcases faithful.exists_visit mentions with ⟨visit, knows, isInner, rfl⟩
  rw [Machine.getElem?_release, if_neg (takes.not_outer isInner knows.origin), grows.distances]

/-- What the heap mentions is not forgotten when a unit is rejected. -/
theorem Takes.rejected_mentioned (takes : session.Takes program nextId)
    (settled : session.Settled origin) (mentions : session.machine.heap.Mentions id) :
    ((session.resolved program).release program).distances[id]? =
      session.machine.distances[id]? := by
  have bounded := settled.lt_nextId mentions
  have notOuter : id ∉ Stmt.outerUsesEach program := by
    intro outer
    exact Nat.lt_irrefl _ (Nat.lt_of_lt_of_le bounded (takes.outer_bounds outer).1)
  rw [Machine.getElem?_release, if_neg notOuter, takes.resolved_mentioned settled mentions]

end Session

/-! ## Other distances -/

namespace Copying

variable {copying later : Copying} {heap heap' : Heap}

/-- Only the distances of the uses that the heaps mention matter. -/
theorem Heaps.recast (heaps : copying.Heaps heap heap')
    (moves : ∀ move, copying.Moves move → later.Moves move)
    (same : ∀ id, heap.Mentions id → later.distances[id]? = copying.distances[id]?)
    (others : ∀ id, heap'.Mentions id → later.others[id]? = copying.others[id]?) :
    later.Heaps heap heap' := by
  have closures : ∀ {closure closure' : Closure}, copying.Closures closure closure' →
      (∀ id ∈ Stmt.functionIds closure.declaration, heap.Mentions id) →
      (∀ id ∈ Stmt.functionIds closure'.declaration, heap'.Mentions id) →
      later.Closures closure closure' := by
    rintro ⟨declaration, scope, isInitializer⟩ ⟨declaration', scope', isInitializer'⟩ copied
      mentioned mentioned'
    refine ⟨?_, copied.scope, copied.isInitializer⟩
    cases copied.declaration with
    | empty nothing => exact .empty nothing
    | @relabelled use line _ labels =>
        refine .relabelled ⟨moves line labels.moves, ?_⟩
        intro id member
        have member' : use id ∈ Stmt.functionIds (Stmt.relabelFunction use line declaration) := by
          rw [Stmt.functionIds_relabel]
          exact List.mem_map_of_mem member
        rw [same id (mentioned id member), others (use id) (mentioned' _ member'),
          labels.same id member]
  refine ⟨heaps.scopes, heaps.natives, heaps.objects, heaps.functionCount, ?_, heaps.classCount,
    ?_⟩
  · intro ref
    exact closures (heaps.functions ref) (fun id member => .inl ⟨ref, member⟩)
      fun id member => .inl ⟨ref, member⟩
  · intro ref
    have classes := heaps.classes ref
    refine ⟨classes.name, classes.superclass, ?_⟩
    intro name
    have related := classes.methods name
    generalize found : (heap.classInfo ref).methods[name]? = method at related
    generalize found' : (heap'.classInfo ref).methods[name]? = method' at related
    cases related with
    | none => exact .none
    | some copied =>
        exact .some (closures copied (fun id member => .inr ⟨ref, name, _, found, member⟩)
          fun id member => .inr ⟨ref, name, _, found', member⟩)

/-- A heap is a copy of itself if the same distances are recorded for what it
mentions. -/
theorem Heaps.of_same (still : copying.Moves id)
    (same : ∀ id, heap.Mentions id → copying.others[id]? = copying.distances[id]?) :
    copying.Heaps heap heap := by
  have closures : ∀ {closure : Closure},
      (∀ id ∈ Stmt.functionIds closure.declaration, heap.Mentions id) →
      copying.Closures closure closure := by
    intro closure mentioned
    refine ⟨?_, rfl, rfl⟩
    have labels : copying.Labels id id (Stmt.functionIds closure.declaration) :=
      ⟨still, fun id member => same id (mentioned id member)⟩
    have relabelled := Declarations.relabelled labels
    rw [Stmt.relabelFunction_id] at relabelled
    exact relabelled
  refine ⟨rfl, rfl, rfl, rfl, fun ref => closures fun id member => .inl ⟨ref, member⟩, rfl, ?_⟩
  intro ref
  refine ⟨rfl, rfl, ?_⟩
  intro name
  cases found : (heap.classInfo ref).methods[name]? with
  | none => exact .none
  | some method =>
      exact .some (closures fun id member => .inr ⟨ref, name, method, found, member⟩)

end Copying

end Lox
