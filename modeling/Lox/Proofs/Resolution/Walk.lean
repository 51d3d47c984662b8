import Lox.Proofs.Resolution.Visits
import Lox.Proofs.Tables

/-!
# What the walk of resolution does

Expressions leave the scopes alone, and statements add at most the name that they
declare.  As long as no violation is reported, resolution records exactly the
visits of a tree, and at every visit of `this` and `super` the scopes that bind
them are open.
-/

namespace Lox

open ResolverState (distance?)

/-! ## Distances -/

@[simp]
theorem distance?_empty_cons (name : String) (access : Access) (scopes : List NameTable) :
    distance? name access (∅ :: scopes) = (distance? name access scopes).map (· + 1) := by
  simp [distance?]

theorem distance?_insert_of_ne {name other : String} (different : other ≠ name)
    (access : Access) (scope : NameTable) (status : Status) (outer : List NameTable) :
    distance? name access (scope.insert other status :: outer) =
      distance? name access (scope :: outer) := by
  have entry : (scope.insert other status)[name]? = scope[name]? := by
    rw [Table.getElem?_insert, if_neg different]
  simp only [distance?, Std.TreeMap.contains_eq_isSome_getElem?, entry]

theorem distance?_defineIn_of_ne {name other : String} (different : other ≠ name)
    (access : Access) (scopes : List NameTable) :
    distance? name access (defineIn other scopes) = distance? name access scopes := by
  cases scopes with
  | nil => rfl
  | cons scope outer => exact distance?_insert_of_ne different access scope .defined outer

theorem distance?_declareIn_of_ne {name other : String} (different : other ≠ name)
    (access : Access) (scopes : List NameTable) :
    distance? name access (declareIn other scopes) = distance? name access scopes := by
  cases scopes with
  | nil => rfl
  | cons scope outer =>
      rw [declareIn]
      split
      · rfl
      · exact distance?_insert_of_ne different access scope .declared outer

theorem distance?_introduceIn_of_ne {name other : String} (different : other ≠ name)
    (access : Access) (scopes : List NameTable) :
    distance? name access (introduceIn other scopes) = distance? name access scopes := by
  rw [introduceIn, distance?_defineIn_of_ne different, distance?_declareIn_of_ne different]

theorem distance?_thisTable (access : Access) (scopes : List NameTable) :
    distance? "this" access (thisTable :: scopes) = some 0 := by
  have entry : thisTable["this"]? = some .defined := by
    rw [thisTable, Table.getElem?_insert, if_pos rfl]
  simp [distance?, entry]

theorem distance?_superTable (access : Access) (scopes : List NameTable) :
    distance? "super" access (thisTable :: superTable :: scopes) = some 1 := by
  have noEntry : thisTable["super"]? = none := by
    rw [thisTable, Table.getElem?_insert, if_neg (by decide)]
    rfl
  have entry : superTable["super"]? = some .defined := by
    rw [superTable, Table.getElem?_insert, if_pos rfl]
  simp [distance?, Std.TreeMap.contains_eq_isSome_getElem?, noEntry, entry]

/-! ## Where `this` and `super` may stand -/

/-- In a class body `this` is bound, and in one with a superclass `super` is bound
one scope further out. -/
structure MethodsPlaced (context : ClassContext) (scopes : List NameTable) : Prop where
  this : context ≠ .outside → ∃ distance, distance? "this" .read scopes = some distance
  super : context = .derived → ∃ distance, distance? "this" .read scopes = some distance ∧
    distance? "super" .read scopes = some (distance + 1)

theorem methodsPlaced_outside (scopes : List NameTable) : MethodsPlaced .outside scopes :=
  ⟨fun inside => absurd rfl inside, nofun⟩

theorem MethodsPlaced.congr {context : ClassContext} {scopes others : List NameTable}
    (placed : MethodsPlaced context scopes)
    (this : distance? "this" .read others = distance? "this" .read scopes)
    (super : distance? "super" .read others = distance? "super" .read scopes) :
    MethodsPlaced context others := by
  constructor
  · rw [this]
    exact placed.this
  · rw [this, super]
    exact placed.super

theorem MethodsPlaced.enter {context : ClassContext} {scopes : List NameTable}
    (placed : MethodsPlaced context scopes) : MethodsPlaced context (∅ :: scopes) := by
  constructor
  · intro inside
    rcases placed.this inside with ⟨distance, found⟩
    exact ⟨distance + 1, by simp [found]⟩
  · intro derived
    rcases placed.super derived with ⟨distance, foundThis, foundSuper⟩
    exact ⟨distance + 1, by simp [foundThis], by simp [foundSuper]⟩

theorem MethodsPlaced.introduce {context : ClassContext} {scopes : List NameTable} {name : Name}
    (placed : MethodsPlaced context scopes) (plain : name.IsPlain) :
    MethodsPlaced context (introduceIn name.text scopes) :=
  placed.congr (distance?_introduceIn_of_ne plain.1 _ _) (distance?_introduceIn_of_ne plain.2 _ _)

theorem MethodsPlaced.declare {context : ClassContext} {scopes : List NameTable} {name : Name}
    (placed : MethodsPlaced context scopes) (plain : name.IsPlain) :
    MethodsPlaced context (declareIn name.text scopes) :=
  placed.congr (distance?_declareIn_of_ne plain.1 _ _) (distance?_declareIn_of_ne plain.2 _ _)

/-- The place is not that of a superclass. -/
def Place.IsWithinBody (place : Place) : Prop :=
  ∀ name, place.role ≠ .superclass name

theorem Place.IsWithinBody.elim {place : Place} (within : place.IsWithinBody) {other : String}
    (name : String) (role : place.role = .superclass name) : other ≠ name :=
  absurd role (within name)

/-- At a legal visit, `this` and `super` are bound in open scopes, and a class is
not its own superclass. -/
structure Visit.Legal (visit : Visit) : Prop where
  within : visit.name = "super" → visit.place.IsWithinBody
  this : visit.name = "this" →
    ∃ distance, distance? "this" .read visit.place.scopes = some distance
  super : visit.name = "super" →
    ∃ distance, distance? "this" .read visit.place.scopes = some distance ∧
      distance? "super" .read visit.place.scopes = some (distance + 1)
  superclass : ∀ name, visit.place.role = .superclass name → visit.name ≠ name

/-! ## Walks -/

namespace ResolverState

/-- From one state to another, resolution has made the given visits.  A violation
takes everything back but that no other uses are recorded. -/
structure Records (state final : ResolverState) (visits : List Visit) : Prop where
  errors : state.errors.size ≤ final.errors.size
  known : ∀ use ∈ final.uses.toList, use ∈ state.uses.toList ∨ use.id ∈ visits.map Visit.id
  exact : final.errors.size = state.errors.size →
    final.uses.toList = state.uses.toList ++ visits.map Visit.use

/-- From one state to another, resolution has made the given visits and has the
given scopes open in the end.  If no violation was reported, all visits were legal,
provided that `this` and `super` were bound where they have to be. -/
structure Walk (state final : ResolverState) (scopes : List NameTable)
    (visits : List Visit) : Prop where
  scopes : final.scopes = scopes
  classContext : final.classContext = state.classContext
  records : Records state final visits
  legal : final.errors.size = state.errors.size → MethodsPlaced state.classContext state.scopes →
    MethodsPlaced final.classContext final.scopes ∧ ∀ visit ∈ visits, visit.Legal

variable {state middle final : ResolverState} {scopes between : List NameTable}
  {visits more : List Visit}

theorem Records.of_same (uses : final.uses = state.uses) (errors : final.errors = state.errors) :
    Records state final [] :=
  ⟨Nat.le_of_eq (congrArg Array.size errors.symm), fun _ member => .inl (by rwa [uses] at member),
    fun _ => by simp [uses]⟩

theorem Records.report (state : ResolverState) (name : Name) (fault : ResolutionFault)
    (visits : List Visit) : Records state (state.report name fault) visits := by
  have size : (state.report name fault).errors.size = state.errors.size + 1 := by
    simp [ResolverState.report]
  exact ⟨by omega, fun _ member => .inl member, fun clean => by omega⟩

theorem Records.trans (first : Records state middle visits) (second : Records middle final more) :
    Records state final (visits ++ more) where
  errors := Nat.le_trans first.errors second.errors
  known := by
    intro use member
    rw [List.map_append, List.mem_append]
    rcases second.known use member with earlier | visited
    · rcases first.known use earlier with start | visited
      · exact .inl start
      · exact .inr (.inl visited)
    · exact .inr (.inr visited)
  exact := by
    intro clean
    have firstErrors := first.errors
    have secondErrors := second.errors
    rw [second.exact (by omega), first.exact (by omega), List.map_append, List.append_assoc]

theorem Records.use (place : Place) (id : UseId) (name : String) (access : Access)
    (opened : state.scopes = place.scopes) :
    Records state (state.use id name access) [⟨id, name, access, place⟩] where
  errors := Nat.le_refl _
  known := by
    intro use member
    simp only [ResolverState.use, Array.toList_push, List.mem_append, List.mem_singleton] at member
    rcases member with earlier | rfl
    · exact .inl earlier
    · exact .inr (by simp)
  exact _ := by simp [ResolverState.use, Visit.use, opened]

theorem Walk.refl (state : ResolverState) : Walk state state state.scopes [] where
  scopes := rfl
  classContext := rfl
  records := Records.of_same rfl rfl
  legal _ placed := ⟨placed, nofun⟩

theorem Walk.trans (first : Walk state middle between visits)
    (second : Walk middle final scopes more) : Walk state final scopes (visits ++ more) where
  scopes := second.scopes
  classContext := second.classContext.trans first.classContext
  records := first.records.trans second.records
  legal := by
    intro clean placed
    have firstErrors := first.records.errors
    have secondErrors := second.records.errors
    rcases first.legal (by omega) placed with ⟨middlePlaced, firstLegal⟩
    rcases second.legal (by omega) middlePlaced with ⟨finalPlaced, secondLegal⟩
    refine ⟨finalPlaced, ?_⟩
    intro visit member
    rcases List.mem_append.mp member with inFirst | inSecond
    · exact firstLegal visit inFirst
    · exact secondLegal visit inSecond

/-- A reported violation makes the walk say nothing more. -/
theorem Walk.of_report (state : ResolverState) (name : Name) (fault : ResolutionFault)
    (visits : List Visit) : Walk state (state.report name fault) state.scopes visits := by
  have size : (state.report name fault).errors.size = state.errors.size + 1 := by
    simp [ResolverState.report]
  refine ⟨rfl, rfl, Records.report state name fault visits, ?_⟩
  intro clean
  omega

theorem Walk.use (place : Place) {id : UseId} {name : String} {access : Access}
    (opened : state.scopes = place.scopes)
    (legal : MethodsPlaced state.classContext state.scopes →
      Visit.Legal ⟨id, name, access, place⟩) :
    Walk state (state.use id name access) place.scopes [⟨id, name, access, place⟩] where
  scopes := opened
  classContext := rfl
  records := Records.use place id name access opened
  legal _ placed := ⟨placed, by
    intro visit member
    rw [List.mem_singleton.mp member]
    exact legal placed⟩

theorem Records.read (place : Place) (id : UseId) (name : Name)
    (opened : state.scopes = place.scopes) :
    Records state (state.read id name) [⟨id, name.text, .read, place⟩] := by
  have records := Records.use place id name.text .read opened
  unfold ResolverState.read
  dsimp only
  split
  · exact records
  · exact records.trans (Records.report _ name .readInOwnInitializer [])

theorem read_scopes (state : ResolverState) (id : UseId) (name : Name) :
    (state.read id name).scopes = state.scopes ∧
      (state.read id name).classContext = state.classContext := by
  unfold read
  dsimp only
  split <;> exact ⟨rfl, rfl⟩

theorem Walk.read (place : Place) {id : UseId} {name : Name} (opened : state.scopes = place.scopes)
    (legal : Visit.Legal ⟨id, name.text, .read, place⟩) :
    Walk state (state.read id name) place.scopes [⟨id, name.text, .read, place⟩] := by
  rcases read_scopes state id name with ⟨scopesSame, contextSame⟩
  refine ⟨scopesSame.trans opened, contextSame, Records.read place id name opened, ?_⟩
  intro _ placed
  rw [scopesSame, contextSame]
  refine ⟨placed, ?_⟩
  intro visit member
  rw [List.mem_singleton.mp member]
  exact legal

theorem Walk.enter (opened : state.scopes = scopes) : Walk state state.enter (∅ :: scopes) [] where
  scopes := congrArg (∅ :: ·) opened
  classContext := rfl
  records := Records.of_same rfl rfl
  legal _ placed := ⟨placed.enter, nofun⟩

/-- A scope that was opened for a while leaves the scopes around it alone. -/
theorem Walk.leave (walk : Walk state.enter final scopes visits)
    (same : scopes.tail = state.scopes) : Walk state final.leave state.scopes visits where
  scopes := by rw [ResolverState.leave, walk.scopes, same]
  classContext := walk.classContext
  records := ⟨walk.records.errors, walk.records.known, walk.records.exact⟩
  legal := by
    intro clean placed
    refine ⟨?_, (walk.legal clean placed.enter).2⟩
    have scopesSame : final.leave.scopes = state.scopes := by
      rw [ResolverState.leave, walk.scopes, same]
    rw [scopesSame]
    exact (show final.classContext = state.classContext from walk.classContext) ▸ placed

theorem declare_scopes (state : ResolverState) (name : Name) :
    (state.declare name).scopes = declareIn name.text state.scopes := by
  cases opened : state.scopes with
  | nil => simp only [declare, opened, declareIn]
  | cons scope outer =>
      simp only [declare, opened, declareIn]
      split
      · exact opened
      · rfl

theorem define_scopes (state : ResolverState) (name : String) :
    (state.define name).scopes = defineIn name state.scopes := by
  cases opened : state.scopes with
  | nil => simp only [define, opened, defineIn]
  | cons scope outer => simp only [define, opened, defineIn]

theorem declare_classContext (state : ResolverState) (name : Name) :
    (state.declare name).classContext = state.classContext := by
  unfold declare
  repeat' split
  all_goals rfl

theorem declare_records (state : ResolverState) (name : Name) :
    Records state (state.declare name) [] := by
  unfold declare
  split
  · exact Records.of_same rfl rfl
  · split
    · exact Records.report state name .alreadyDeclared []
    · exact Records.of_same rfl rfl

theorem Walk.declare {name : Name} (opened : state.scopes = scopes) (plain : name.IsPlain) :
    Walk state (state.declare name) (declareIn name.text scopes) [] := by
  have scopesSame := declare_scopes state name
  have contextSame := declare_classContext state name
  refine ⟨by rw [scopesSame, opened], contextSame, declare_records state name, ?_⟩
  intro _ placed
  refine ⟨?_, nofun⟩
  rw [scopesSame, contextSame]
  exact placed.declare plain

theorem Walk.define {name : String} (opened : state.scopes = scopes) (noThis : name ≠ "this")
    (noSuper : name ≠ "super") : Walk state (state.define name) (defineIn name scopes) [] := by
  have scopesSame := define_scopes state name
  rw [opened] at scopesSame
  have context : (state.define name).classContext = state.classContext := by
    unfold ResolverState.define
    split <;> rfl
  refine ⟨scopesSame, context, ?_, ?_⟩
  · unfold ResolverState.define
    split
    · exact Records.of_same rfl rfl
    · exact Records.of_same rfl rfl
  · intro _ placed
    refine ⟨?_, nofun⟩
    rw [scopesSame, context, ← opened]
    exact placed.congr (distance?_defineIn_of_ne noThis _ _) (distance?_defineIn_of_ne noSuper _ _)

theorem Walk.introduce {name : Name} (opened : state.scopes = scopes) (plain : name.IsPlain) :
    Walk state (state.introduce name) (introduceIn name.text scopes) [] := by
  have declared := Walk.declare opened plain
  exact declared.trans (Walk.define declared.scopes plain.1 plain.2)

end ResolverState

open ResolverState (Walk)

/-- A plain name can be used anywhere but as the superclass of its own class. -/
theorem Name.IsPlain.legal {name : Name} (plain : name.IsPlain) {id : UseId} {access : Access}
    {place : Place} (other : ∀ declared, place.role = .superclass declared → name.text ≠ declared) :
    Visit.Legal ⟨id, name.text, access, place⟩ :=
  ⟨fun isSuper => absurd isSuper plain.2, fun isThis => absurd isThis plain.1,
    fun isSuper => absurd isSuper plain.2, other⟩

namespace Expr

mutual

theorem resolve_walk : ∀ (expr : Expr) (state : ResolverState) (place : Place),
    state.scopes = place.scopes → place.IsWithinBody → expr.WellFormed →
      Walk state (expr.resolve state) place.scopes (expr.visits place)
  | .literal _, state, place, opened, _, _ => by
      rw [resolve, visits, ← opened]
      exact Walk.refl state
  | .group inner, state, place, opened, within, formed => by
      rw [resolve, visits]
      exact resolve_walk inner state place opened within formed
  | .unary _ operand, state, place, opened, within, formed => by
      rw [resolve, visits]
      exact resolve_walk operand state place opened within formed
  | .binary left _ right, state, place, opened, within, formed => by
      rw [resolve, visits]
      have leftWalk := resolve_walk left state place opened within formed.1
      exact leftWalk.trans (resolve_walk right _ place leftWalk.scopes within formed.2)
  | .logical left _ right, state, place, opened, within, formed => by
      rw [resolve, visits]
      have leftWalk := resolve_walk left state place opened within formed.1
      exact leftWalk.trans (resolve_walk right _ place leftWalk.scopes within formed.2)
  | .var id name, state, place, opened, within, formed => by
      rw [resolve, visits]
      exact Walk.read place opened (formed.legal within.elim)
  | .assign id name value, state, place, opened, within, formed => by
      rw [resolve, visits]
      have valueWalk := resolve_walk value state place opened within formed.2
      exact valueWalk.trans
        (Walk.use place valueWalk.scopes fun _ => formed.1.legal within.elim)
  | .call callee _ arguments, state, place, opened, within, formed => by
      rw [resolve, visits]
      have calleeWalk := resolve_walk callee state place opened within formed.1
      exact calleeWalk.trans
        (resolveEach_walk arguments _ place calleeWalk.scopes within formed.2)
  | .get object _, state, place, opened, within, formed => by
      rw [resolve, visits]
      exact resolve_walk object state place opened within formed
  | .set object _ value, state, place, opened, within, formed => by
      rw [resolve, visits]
      have valueWalk := resolve_walk value state place opened within formed.2
      exact valueWalk.trans (resolve_walk object _ place valueWalk.scopes within formed.1)
  | .this id line, state, place, opened, within, _ => by
      rw [resolve, visits]
      split
      next outside =>
        rw [← opened]
        exact Walk.of_report state _ _ _
      next inside =>
        refine Walk.use place opened fun placed => ⟨fun _ => within, fun _ => ?_, ?_, within.elim⟩
        · rw [← opened]
          exact placed.this inside
        · intro same
          simp at same
  | .super id line method, state, place, opened, within, _ => by
      rw [resolve, visits]
      split
      next outside =>
        rw [← opened]
        exact Walk.of_report state _ _ _
      next plain =>
        rw [← opened]
        exact Walk.of_report state _ _ _
      next derived =>
        refine Walk.use place opened fun placed => ⟨fun _ => within, ?_, fun _ => ?_, within.elim⟩
        · intro same
          simp at same
        · rw [← opened]
          exact placed.super derived

theorem resolveEach_walk : ∀ (exprs : List Expr) (state : ResolverState) (place : Place),
    state.scopes = place.scopes → place.IsWithinBody → WellFormedEach exprs →
      Walk state (resolveEach exprs state) place.scopes (visitsEach place exprs)
  | [], state, place, opened, _, _ => by
      rw [resolveEach, visitsEach, ← opened]
      exact Walk.refl state
  | first :: rest, state, place, opened, within, formed => by
      rw [resolveEach, visitsEach]
      have firstWalk := resolve_walk first state place opened within formed.1
      exact firstWalk.trans
        (resolveEach_walk rest _ place firstWalk.scopes within formed.2)

end

theorem resolveOption_walk (expr : Option Expr) (state : ResolverState) (place : Place)
    (opened : state.scopes = place.scopes) (within : place.IsWithinBody)
    (formed : OptionWellFormed expr) :
    Walk state (resolveOption expr state) place.scopes (optionVisits place expr) := by
  cases expr with
  | none =>
      rw [← opened]
      exact Walk.refl state
  | some value => exact resolve_walk value state place opened within (formed value rfl)

end Expr

/-! ## Statements -/

namespace ResolverState

variable {state final : ResolverState} {scopes : List NameTable} {visits : List Visit}

theorem Walk.checkReturn (opened : state.scopes = scopes) (line : Nat) (hasValue : Bool) :
    Walk state (state.checkReturn line hasValue) scopes [] := by
  subst opened
  unfold ResolverState.checkReturn
  dsimp only
  split
  · exact Walk.of_report state _ _ []
  · split
    · exact Walk.of_report state _ _ []
    · exact Walk.refl state
  · exact Walk.refl state

/-- The walk does not depend on the kind of function it is in. -/
theorem Walk.inFunction {context : FunctionContext}
    (walk : Walk { state with functionContext := context } final scopes visits)
    (restored : FunctionContext) :
    Walk state { final with functionContext := restored } scopes visits :=
  ⟨walk.scopes, walk.classContext,
    ⟨walk.records.errors, walk.records.known, walk.records.exact⟩, walk.legal⟩

theorem Walk.params (params : List Name) (state : ResolverState) (scopes : List NameTable)
    (opened : state.scopes = scopes) (plain : ∀ param ∈ params, param.IsPlain) :
    Walk state (params.foldl ResolverState.introduce state)
      (params.foldl (fun opened param => introduceIn param.text opened) scopes) [] := by
  induction params generalizing state scopes with
  | nil =>
      subst opened
      exact Walk.refl state
  | cons first rest inductionHypothesis =>
      have firstWalk := Walk.introduce opened (plain first List.mem_cons_self)
      have restWalk := inductionHypothesis _ _ firstWalk.scopes fun param member =>
        plain param (List.mem_cons_of_mem _ member)
      exact firstWalk.trans restWalk

theorem introduce_inClass (state : ResolverState) (name : Name) (context : ClassContext)
    (plain : name.IsPlain) :
    Records state (({ state with classContext := context } : ResolverState).introduce name) [] ∧
      (({ state with classContext := context } : ResolverState).introduce name).scopes =
        introduceIn name.text state.scopes ∧
      (({ state with classContext := context } : ResolverState).introduce name).classContext =
        context := by
  have inClass : ({ state with classContext := context } : ResolverState).scopes = state.scopes :=
    rfl
  have introduced := Walk.introduce inClass plain
  exact ⟨⟨introduced.records.errors, introduced.records.known, introduced.records.exact⟩,
    introduced.scopes, introduced.classContext⟩

theorem checkSuperclass_records (state : ResolverState) (name : Name) (id : UseId)
    (parent : Name) :
    Records state (state.checkSuperclass name (.var id parent)) [] ∧
      (state.checkSuperclass name (.var id parent)).scopes = state.scopes ∧
      ((state.checkSuperclass name (.var id parent)).errors.size = state.errors.size →
        parent.text ≠ name.text) := by
  unfold checkSuperclass
  dsimp only
  split
  next same =>
    have walk := Walk.of_report state parent .inheritsFromItself []
    refine ⟨walk.records, rfl, fun clean => ?_⟩
    simp [ResolverState.report] at clean
  next different => exact ⟨(Walk.refl state).records, rfl, fun _ => different⟩

/-- The walk over a class body, from the declaration of its name on. -/
theorem Walk.ofClass {opened walked : ResolverState} {context : ClassContext}
    {around : List NameTable} {superVisits methodVisits : List Visit}
    (before : Records state opened superVisits)
    (openedScopes : opened.scopes = thisTable :: around)
    (openedContext : opened.classContext = context)
    (openedPlaced : MethodsPlaced context (thisTable :: around))
    (superLegal : opened.errors.size = state.errors.size →
      ∀ visit ∈ superVisits, visit.Legal)
    (methods : Walk opened walked (thisTable :: around) methodVisits)
    (finalScopes : final.scopes = scopes) (finalContext : final.classContext = state.classContext)
    (finalUses : final.uses = walked.uses) (finalErrors : final.errors = walked.errors)
    (placed : MethodsPlaced state.classContext state.scopes →
      MethodsPlaced state.classContext scopes) :
    Walk state final scopes (superVisits ++ methodVisits) := by
  have after : Records walked final [] := Records.of_same finalUses finalErrors
  have records := (before.trans methods.records).trans after
  rw [List.append_nil] at records
  refine ⟨finalScopes, finalContext, records, ?_⟩
  intro clean statePlaced
  have beforeErrors := before.errors
  have methodErrors := methods.records.errors
  rw [finalErrors] at clean
  rw [finalContext, finalScopes]
  refine ⟨placed statePlaced, ?_⟩
  intro visit member
  rcases List.mem_append.mp member with inSuper | inMethods
  · exact superLegal (by omega) visit inSuper
  · have placedOpened : MethodsPlaced opened.classContext opened.scopes := by
      rw [openedContext, openedScopes]
      exact openedPlaced
    exact (methods.legal (by omega) placedOpened).2 visit inMethods

end ResolverState

theorem methodsPlaced_thisTable {context : ClassContext} (notDerived : context ≠ .derived)
    (scopes : List NameTable) : MethodsPlaced context (thisTable :: scopes) :=
  ⟨fun _ => ⟨0, distance?_thisTable _ _⟩, fun derived => absurd derived notDerived⟩

theorem methodsPlaced_superTable (context : ClassContext) (scopes : List NameTable) :
    MethodsPlaced context (thisTable :: superTable :: scopes) :=
  ⟨fun _ => ⟨0, distance?_thisTable _ _⟩,
    fun _ => ⟨0, distance?_thisTable _ _, distance?_superTable _ _⟩⟩

namespace Stmt

open ResolverState (Records)

/-- A class whose methods are walked over is walked over. -/
theorem class_walk {name : Name} {superclass : Option Expr} {methods : List FunctionDecl}
    (state : ResolverState) (isInner : Bool) (plain : name.IsPlain)
    (superclassFormed : ∀ expr ∈ superclass, expr.IsVariable)
    (methodsWalk : ∀ (opened : ResolverState) (scopes : List NameTable), opened.scopes = scopes →
      Walk opened (resolveMethods methods opened) scopes (methodVisits scopes methods)) :
    Walk state ((Stmt.class_ name superclass methods).resolve state)
      (introduceIn name.text state.scopes)
      ((Stmt.class_ name superclass methods).visits state.scopes isInner) := by
  rw [resolve, visits]
  rcases ResolverState.introduce_inClass state name .plain plain with
    ⟨declaredRecords, declaredScopes, declaredContext⟩
  generalize ({ state with classContext := .plain } : ResolverState).introduce name = declared at *
  have placed : MethodsPlaced state.classContext state.scopes →
      MethodsPlaced state.classContext (introduceIn name.text state.scopes) :=
    fun placed => placed.introduce plain
  cases superclass with
  | none =>
      have same : Records declared (declared.enter.define "this") [] := Records.of_same rfl rfl
      have openedScopes : (declared.enter.define "this").scopes =
          thisTable :: introduceIn name.text state.scopes :=
        congrArg (thisTable :: ·) declaredScopes
      have walk := methodsWalk (declared.enter.define "this") _ openedScopes
      refine Walk.ofClass (declaredRecords.trans same) openedScopes declaredContext
        (methodsPlaced_thisTable (by decide) _) (fun _ _ => List.not_mem_nil.elim) walk ?_ rfl rfl
        rfl placed
      change (resolveMethods methods (declared.enter.define "this")).scopes.tail = _
      rw [walk.scopes, List.tail_cons]
  | some superclass =>
      have isVariable := superclassFormed superclass rfl
      cases superclass with
      | var id parent =>
          let place : Place :=
            ⟨introduceIn name.text state.scopes, isInner, .superclass name.text⟩
          rcases ResolverState.checkSuperclass_records declared name id parent with
            ⟨checkedRecords, checkedScopes, checkedClean⟩
          rw [ResolverState.enterSuperclass, Expr.resolve]
          generalize declared.checkSuperclass name (.var id parent) = checked at *
          have readScopes : ({ checked with classContext := .derived } : ResolverState).scopes =
              place.scopes := checkedScopes.trans declaredScopes
          have readRecords := Records.read place id parent readScopes
          rcases ResolverState.read_scopes ({ checked with classContext := .derived }) id parent with
            ⟨scopesSame, contextSame⟩
          have readOpened := scopesSame.trans readScopes
          generalize ResolverState.read { checked with classContext := .derived } id parent = read at *
          have openedScopes : ((read.enter.define "super").enter.define "this").scopes =
              thisTable :: superTable :: introduceIn name.text state.scopes :=
            congrArg (thisTable :: superTable :: ·) readOpened
          have checkedRead : Records checked read [⟨id, parent.text, .read, place⟩] :=
            ⟨readRecords.errors, readRecords.known, readRecords.exact⟩
          have same : Records read ((read.enter.define "super").enter.define "this") [] :=
            Records.of_same rfl rfl
          have walk := methodsWalk ((read.enter.define "super").enter.define "this") _ openedScopes
          refine Walk.ofClass (((declaredRecords.trans checkedRecords).trans checkedRead).trans same)
            openedScopes contextSame (methodsPlaced_superTable _ _) ?_ walk ?_ rfl rfl rfl placed
          · intro clean visit member
            have declaredErrors := declaredRecords.errors
            have checkedErrors := checkedRecords.errors
            have readErrors := checkedRead.errors
            change read.errors.size = _ at clean
            have different := checkedClean (by omega)
            rw [Expr.optionVisits, Expr.visits] at member
            rw [List.mem_singleton.mp member]
            refine Name.IsPlain.legal isVariable ?_
            rintro declaredName ⟨⟩
            exact different
          · change (resolveMethods methods
              ((read.enter.define "super").enter.define "this")).scopes.tail.tail = _
            rw [walk.scopes, List.tail_cons, List.tail_cons]
      | _ => exact isVariable.elim

mutual

theorem resolve_walk : ∀ (stmt : Stmt) (state : ResolverState) (scopes : List NameTable)
    (isInner : Bool), state.scopes = scopes → stmt.WellFormed →
      Walk state (stmt.resolve state) (stmt.scopesAfter scopes) (stmt.visits scopes isInner)
  | .expression value, state, scopes, isInner, opened, formed => by
      rw [resolve, visits]
      exact value.resolve_walk state ⟨scopes, isInner, .ordinary⟩ opened nofun formed
  | .print value, state, scopes, isInner, opened, formed => by
      rw [resolve, visits]
      exact value.resolve_walk state ⟨scopes, isInner, .ordinary⟩ opened nofun formed
  | .var name initializer, state, scopes, isInner, opened, formed => by
      rw [resolve, visits]
      have declared := Walk.declare opened formed.1
      have walked := Expr.resolveOption_walk initializer _
        ⟨declareIn name.text scopes, isInner, .initializer name.text⟩ declared.scopes nofun formed.2
      have defined := Walk.define walked.scopes formed.1.1 formed.1.2
      have walk := (declared.trans walked).trans defined
      rw [List.nil_append, List.append_nil] at walk
      exact walk
  | .block body, state, scopes, isInner, opened, formed => by
      rw [resolve, visits]
      have entered := Walk.enter opened
      have walked := resolveEach_walk body state.enter _ isInner entered.scopes formed
      have same : (scopesAfterEach body (∅ :: scopes)).tail = state.scopes :=
        (tail_scopesAfterEach body _).trans opened.symm
      have walk := Walk.leave walked same
      rw [opened] at walk
      exact walk
  | .if_ condition thenBranch none, state, scopes, isInner, opened, formed => by
      rw [resolve, visits]
      rcases formed with ⟨conditionFormed, thenFormed, thenDeclares⟩
      have tested := condition.resolve_walk state ⟨scopes, isInner, .ordinary⟩ opened nofun conditionFormed
      have thenWalk := resolve_walk thenBranch _ scopes isInner tested.scopes thenFormed
      rw [scopesAfter, thenDeclares] at thenWalk
      exact tested.trans thenWalk
  | .if_ condition thenBranch (some elseBranch), state, scopes, isInner, opened, formed => by
      rw [resolve, visits]
      rcases formed with
        ⟨conditionFormed, ⟨thenFormed, thenDeclares⟩, elseFormed, elseDeclares⟩
      have tested := condition.resolve_walk state ⟨scopes, isInner, .ordinary⟩ opened nofun conditionFormed
      have thenWalk := resolve_walk thenBranch _ scopes isInner tested.scopes thenFormed
      rw [scopesAfter, thenDeclares] at thenWalk
      have elseWalk := resolve_walk elseBranch _ scopes isInner thenWalk.scopes elseFormed
      rw [scopesAfter, elseDeclares] at elseWalk
      exact (tested.trans thenWalk).trans elseWalk
  | .while_ condition body, state, scopes, isInner, opened, formed => by
      rw [resolve, visits]
      rcases formed with ⟨conditionFormed, bodyFormed, bodyDeclares⟩
      have tested := condition.resolve_walk state ⟨scopes, isInner, .ordinary⟩ opened nofun conditionFormed
      have bodyWalk := resolve_walk body _ scopes isInner tested.scopes bodyFormed
      rw [scopesAfter, bodyDeclares] at bodyWalk
      exact tested.trans bodyWalk
  | .function ⟨name, params, body⟩, state, scopes, isInner, opened, formed => by
      rw [resolve, visits]
      have introduced := Walk.introduce opened formed.1
      have walked := resolveFunction_walk ⟨name, params, body⟩ .function _ _ introduced.scopes formed
      exact introduced.trans walked
  | .return_ line value, state, scopes, isInner, opened, formed => by
      rw [resolve, visits]
      have checked := Walk.checkReturn opened line value.isSome
      have walked := Expr.resolveOption_walk value _ ⟨scopes, isInner, .ordinary⟩ checked.scopes
        nofun formed
      exact checked.trans walked
  | .class_ name superclass methods, state, scopes, isInner, opened, formed => by
      subst opened
      exact class_walk state isInner formed.1 formed.2.1 fun opened scopes openedScopes =>
        resolveMethods_walk methods opened scopes openedScopes formed.2.2

theorem resolveEach_walk : ∀ (stmts : List Stmt) (state : ResolverState)
    (scopes : List NameTable) (isInner : Bool), state.scopes = scopes → WellFormedEach stmts →
      Walk state (resolveEach stmts state) (scopesAfterEach stmts scopes)
        (visitsEach scopes isInner stmts)
  | [], state, scopes, _, opened, _ => by
      rw [resolveEach, visitsEach, ← opened]
      exact Walk.refl state
  | first :: rest, state, scopes, isInner, opened, formed => by
      rw [resolveEach, visitsEach]
      have firstWalk := resolve_walk first state scopes isInner opened formed.1
      exact firstWalk.trans
        (resolveEach_walk rest _ _ isInner firstWalk.scopes formed.2)

theorem resolveFunction_walk : ∀ (declaration : FunctionDecl) (context : FunctionContext)
    (state : ResolverState) (scopes : List NameTable), state.scopes = scopes →
      FunctionWellFormed declaration →
      Walk state (resolveFunction context declaration state) scopes
        (functionVisits scopes declaration)
  | ⟨name, params, body⟩, context, state, scopes, opened, formed => by
      subst opened
      rw [resolveFunction, functionVisits]
      rcases formed with ⟨-, paramsPlain, bodyFormed⟩
      have inContext : ({ state with functionContext := context } : ResolverState).scopes =
          state.scopes := rfl
      have entered := Walk.enter inContext
      have paramsWalk := Walk.params params _ _ entered.scopes paramsPlain
      have bodyWalk := resolveEach_walk body _ _ true paramsWalk.scopes bodyFormed
      have same : (scopesAfterEach body (bodyScopes params state.scopes)).tail = state.scopes := by
        rw [tail_scopesAfterEach, bodyScopes, tail_foldl_introduceIn]
        rfl
      exact (Walk.leave (paramsWalk.trans bodyWalk) same).inFunction state.functionContext

theorem resolveMethods_walk : ∀ (methods : List FunctionDecl) (state : ResolverState)
    (scopes : List NameTable), state.scopes = scopes → MethodsWellFormed methods →
      Walk state (resolveMethods methods state) scopes (methodVisits scopes methods)
  | [], state, scopes, opened, _ => by
      rw [resolveMethods, methodVisits, ← opened]
      exact Walk.refl state
  | first :: rest, state, scopes, opened, formed => by
      rw [resolveMethods, methodVisits]
      have firstWalk := resolveFunction_walk first (methodContext first.name) state scopes opened formed.1
      exact firstWalk.trans (resolveMethods_walk rest _ scopes firstWalk.scopes formed.2)

end

end Stmt

/-! ## Programs -/

/-- Whatever resolution records for a program belongs to one of its visits. -/
theorem resolveProgram_known (globals : List String) {program : List Stmt}
    (formed : Stmt.WellFormedEach program) :
    ∀ use ∈ (resolveProgram globals program).uses,
      use.id ∈ (Stmt.visitsEach [] false program).map Visit.id := by
  have walk := Stmt.resolveEach_walk program (.initial globals) [] false rfl formed
  intro use member
  rcases walk.records.known use member with initially | visited
  · simp [ResolverState.initial] at initially
  · exact visited

/-- A program without violations is resolved visit by visit, and all visits are
legal. -/
theorem resolveProgram_visits {globals : List String} {program : List Stmt}
    (formed : Stmt.WellFormedEach program)
    (clean : (resolveProgram globals program).errors = []) :
    (resolveProgram globals program).uses =
        (Stmt.visitsEach [] false program).map Visit.use ∧
      ∀ visit ∈ Stmt.visitsEach [] false program, visit.Legal := by
  have walk := Stmt.resolveEach_walk program (.initial globals) [] false rfl formed
  have same : (Stmt.resolveEach program (.initial globals)).errors.size =
      (ResolverState.initial globals).errors.size := by
    have empty : (Stmt.resolveEach program (.initial globals)).errors.toList = [] := clean
    rw [← Array.length_toList, empty]
    rfl
  refine ⟨?_, (walk.legal same (methodsPlaced_outside _)).2⟩
  have recorded := walk.records.exact same
  have initially : (ResolverState.initial globals).uses.toList = [] := rfl
  rw [initially, List.nil_append] at recorded
  exact recorded

end Lox
