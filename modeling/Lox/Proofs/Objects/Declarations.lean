import Lox.Proofs.Objects.Invariance

/-!
# Classes and their declarations

Every class comes from a class declaration that was executed: it has the superclass that the
declaration evaluated, and the methods of its body, of which the last one of a name counts.
The superclasses of a class form a chain without repetition, and a method is looked for
along it.
-/

namespace Lox

open Actions Eval Timeline

/-! ## Method tables -/

/-- The last declaration of the name. -/
def lastDeclared? (declarations : List FunctionDecl) (name : String) : Option FunctionDecl :=
  (declarations.filter fun declaration => declaration.name.text = name).getLast?

/-- The method of a name is the one that is declared last. -/
theorem getElem?_methodTable (declarations : List FunctionDecl) (scope : ScopeRef)
    (name : String) :
    (methodTable declarations scope)[name]? =
      (lastDeclared? declarations name).map fun declaration =>
        { declaration, scope, isInitializer := name = "init" } := by
  induction declarations using List.reverseRecOn with
  | nil => exact Std.TreeMap.getElem?_emptyc
  | append_singleton declarations last inductionHypothesis =>
      rw [methodTable, List.foldl_append]
      change ((methodTable declarations scope).insert last.name.text _)[name]? = _
      rw [Table.getElem?_insert, lastDeclared?, List.filter_append]
      by_cases named : last.name.text = name
      · rw [if_pos named, List.filter_cons_of_pos (by simpa using named), List.filter_nil,
          List.getLast?_concat, Option.map_some, named]
      · rw [if_neg named, List.filter_cons_of_neg (by simpa using named), List.filter_nil,
          List.append_nil, inductionHypothesis, lastDeclared?]

/-! ## Chains of superclasses -/

namespace Heap

/-- The classes from the class outward over its superclasses, up to one without. -/
inductive Lineage (heap : Heap) : ClassRef → List ClassRef → Prop where
  | base {ref} : (heap.classInfo ref).superclass = none → Lineage heap ref [ref]
  | derived {ref parent rest} : (heap.classInfo ref).superclass = some parent →
      Lineage heap parent rest → Lineage heap ref (ref :: rest)

variable {heap : Heap} {ref : ClassRef} {chain : List ClassRef}

/-- No class of the chain was created after the class it starts with. -/
theorem Lineage.index_le (lineage : heap.Lineage ref chain) (intact : heap.Intact) :
    ∀ ancestor ∈ chain, ancestor.index ≤ ref.index := by
  induction lineage with
  | base _ =>
      intro ancestor member
      rw [List.mem_singleton.mp member]
  | derived isParent _ inductionHypothesis =>
      intro ancestor member
      rcases List.mem_cons.mp member with rfl | inRest
      · exact Nat.le_refl _
      · exact Nat.le_trans (inductionHypothesis ancestor inRest)
          (Nat.le_of_lt (intact.superclass isParent))

/-- No class is its own ancestor. -/
theorem Lineage.nodup (lineage : heap.Lineage ref chain) (intact : heap.Intact) :
    chain.Nodup := by
  induction lineage with
  | base _ => exact List.nodup_singleton _
  | derived isParent rest inductionHypothesis =>
      refine List.nodup_cons.mpr ⟨fun member => ?_, inductionHypothesis⟩
      have notLater := rest.index_le intact _ member
      exact Nat.lt_irrefl _ (Nat.lt_of_lt_of_le (intact.superclass isParent) notLater)

/-- A method is that of the first class of the chain that has one of the name. -/
theorem Lineage.findMethod?_eq (lineage : heap.Lineage ref chain) (intact : heap.Intact)
    (name : String) :
    heap.findMethod? ref name =
      chain.findSome? fun ancestor => (heap.classInfo ancestor).methods[name]? := by
  induction lineage with
  | @base ref isBase =>
      rw [findMethod?, isBase, List.findSome?_singleton]
      cases (heap.classInfo ref).methods[name]? <;> rfl
  | @derived ref parent rest isParent _ inductionHypothesis =>
      rw [findMethod?, isParent, List.findSome?_cons]
      cases (heap.classInfo ref).methods[name]? with
      | some method => rfl
      | none =>
          dsimp only
          rw [if_pos (intact.superclass isParent), inductionHypothesis]

end Heap

/-! ## Class declarations -/

/-- The superclass of a class declaration, if it names one. -/
def superclassOf (fuel : Nat) (name : Name) : Option Expr → Eval (Option ClassRef)
  | none => return none
  | some expr => do return some (← expectClass (superclassLine name expr) (← evaluate fuel expr))

theorem execute_class (fuel : Nat) (name : Name) (superclass : Option Expr)
    (methods : List FunctionDecl) (machine : Machine) :
    execute (fuel + 1) (.class_ name superclass methods) machine =
      (superclassOf fuel name superclass >>= fun parent => do
        declareClass name parent methods
        return Flow.normal) machine := by
  cases superclass with
  | none => rfl
  | some expr =>
      rw [execute, superclassOf, bind_apply, bind_apply, bind_apply]
      cases evaluate fuel expr machine with
      | error cause middle => rfl
      | ok value middle => cases value <;> rfl

/-- The class that a declaration adds, and what its name is bound to. -/
theorem declareClass_apply (name : Name) (parent : Option ClassRef) (methods : List FunctionDecl)
    (machine : Machine) :
    ∃ scope final, declareClass name parent methods machine = .ok () final ∧
      final.current = machine.current ∧
      final.heap.classes = machine.heap.classes.push
        { name := name.text, superclass := parent, methods := methodTable methods scope } ∧
      (machine.current.index < machine.heap.scopes.cells.size →
        final.heap.scopes.own? machine.current name.text =
          some (.classRef ⟨machine.heap.classes.size⟩)) := by
  cases parent with
  | none =>
      refine ⟨machine.current, _, rfl, rfl, rfl, fun present => ?_⟩
      apply (Scopes.own?_define _ _ _ _ _ _ ?_).trans (if_pos ⟨rfl, rfl⟩)
      exact Nat.lt_of_lt_of_eq present (Scopes.define_size _ _ _ _).symm
  | some ref =>
      refine ⟨_, _, rfl, rfl, rfl, fun present => ?_⟩
      apply (Scopes.own?_define _ _ _ _ _ _ ?_).trans (if_pos ⟨rfl, rfl⟩)
      apply Nat.lt_of_lt_of_le present
      exact ((Scopes.grows_define _ _ _ _).trans (Scopes.grows_push _ _)).size

/-- The class declaration at the moment binds its name to the class, whose superclass it has
evaluated, and its body has the given methods. -/
def Moment.DeclaresClass (moment : Moment) (declared : ClassRef) (parent : Option ClassRef)
    (methods : List FunctionDecl) : Prop :=
  ∃ fuel name superclass machine middle final,
    moment = ⟨fuel + 1, .execute (.class_ name superclass methods), machine⟩ ∧
    superclassOf fuel name superclass machine = .ok parent middle ∧
    declareClass name parent methods middle = .ok () final ∧
    final.heap.scopes.own? final.current name.text = some (.classRef declared)

/-- The class declaration at the moment adds the class with the given index. -/
def Moment.AddsClass (moment : Moment) (index : Nat) : Prop :=
  ∃ fuel name superclass methods machine parent middle,
    moment = ⟨fuel + 1, .execute (.class_ name superclass methods), machine⟩ ∧
    superclassOf fuel name superclass machine = .ok parent middle ∧
    index = middle.heap.classes.size

/-- Every class that the action adds is declared at one of the moments that it leads to. -/
def AddsDeclared {α : Type} (timeline : Timeline) (action : Eval α) : Prop :=
  ∀ (machine : Machine) (index : Nat), machine.heap.classes.size ≤ index →
    index < (endState (action machine)).heap.classes.size →
    ∃ moment ∈ (timeline machine).flatMap Moment.moments, moment.AddsClass index

theorem Quiet.classes {α : Type} {action : Eval α} (quiet : Quiet false action)
    (machine : Machine) : (endState (action machine)).heap.classes = machine.heap.classes := by
  induction quiet generalizing machine with
  | @bind _ _ first next _ _ firstHypothesis nextHypothesis =>
      have firstClasses := firstHypothesis machine
      rw [bind_apply]
      cases result : first machine with
      | ok value middle =>
          rw [result] at firstClasses
          exact (nextHypothesis value middle).trans firstClasses
      | error cause middle =>
          rw [result] at firstClasses
          exact firstClasses
  | get _ _ inductionHypothesis => exact inductionHypothesis machine machine
  | addClass allowed => cases allowed
  | readVariable id name =>
      simp only [Eval.readVariable]
      split
      all_goals rfl
  | _ => rfl

namespace AddsDeclared

variable {α β : Type} {timeline : Timeline} {action : Eval α} {fuel : Nat}

/-- An action that adds no class. -/
theorem of_classes (timeline : Timeline)
    (same : ∀ machine, (endState (action machine)).heap.classes = machine.heap.classes) :
    AddsDeclared timeline action := by
  intro machine index isNew isThere
  rw [same] at isThere
  exact absurd isThere (Nat.not_lt.mpr isNew)

theorem bind {next : α → Timeline} {continue_ : α → Eval β} (first : AddsDeclared timeline action)
    (rest : ∀ value, AddsDeclared (next value) (continue_ value)) :
    AddsDeclared (fun machine => timeline machine ++ after action next machine)
      (action >>= continue_) := by
  intro machine index isNew isThere
  dsimp only
  rw [List.flatMap_append]
  have inFirst := first machine index isNew
  cases result : action machine with
  | error cause middle =>
      rw [bind_of_error result] at isThere
      rw [result] at inFirst
      rcases inFirst isThere with ⟨moment, member, adds⟩
      exact ⟨moment, List.mem_append_left _ member, adds⟩
  | ok value middle =>
      rw [bind_of_ok result] at isThere
      rw [result] at inFirst
      rw [after_of_ok result]
      by_cases earlier : index < middle.heap.classes.size
      · rcases inFirst earlier with ⟨moment, member, adds⟩
        exact ⟨moment, List.mem_append_left _ member, adds⟩
      · rcases rest value middle index (Nat.not_lt.mp earlier) isThere with ⟨moment, member, adds⟩
        exact ⟨moment, List.mem_append_right _ member, adds⟩

/-- What follows may start nothing and add no class. -/
theorem andThen {continue_ : α → Eval β} (first : AddsDeclared timeline action)
    (rest : ∀ value machine,
      (endState (continue_ value machine)).heap.classes = machine.heap.classes) :
    AddsDeclared timeline (action >>= continue_) := by
  have both := first.bind fun value => of_classes idle (rest value)
  rw [Stepwise.append_idle] at both
  exact both

theorem within (adds : AddsDeclared timeline action) (scope : ScopeRef) :
    AddsDeclared (fun machine => timeline { machine with current := scope })
      (within scope action) := by
  intro machine index isNew isThere
  rw [endState_within] at isThere
  exact adds { machine with current := scope } index isNew isThere

theorem counted (adds : AddsDeclared timeline action) :
    AddsDeclared (fun machine => timeline { machine with callDepth := machine.callDepth + 1 })
      (counted action) := by
  intro machine index isNew isThere
  rw [endState_counted] at isThere
  exact adds { machine with callDepth := machine.callDepth + 1 } index isNew isThere

theorem of_parts {task : Task} (adds : AddsDeclared (task.parts fuel) action) :
    AddsDeclared (start fuel task) action := by
  intro machine index isNew isThere
  rcases adds machine index isNew isThere with ⟨moment, member, isAdded⟩
  refine ⟨moment, ?_, isAdded⟩
  rw [start, List.flatMap_singleton, Moment.moments_eq]
  exact List.mem_cons_of_mem _ member

end AddsDeclared

section Declare

variable {fuel : Nat} {name : Name} {superclass : Option Expr} {methods : List FunctionDecl}

theorem addsDeclared_superclassOf (name : Name) (methods : List FunctionDecl)
    (evaluated : ∀ expr ∈ superclass,
      AddsDeclared (start fuel (.evaluate expr)) (evaluate fuel expr)) :
    AddsDeclared ((Task.execute (.class_ name superclass methods)).parts (fuel + 1))
      (superclassOf fuel name superclass) := by
  cases superclass with
  | none => exact .of_classes _ fun _ => rfl
  | some expr =>
      apply (evaluated expr rfl).andThen
      intro value
      exact ((Quiet.expectClass _ value).bind fun _ => .pure _).classes

/-- A class declaration adds a class itself, once the superclass has been evaluated. -/
theorem addsDeclared_class
    (evaluated : ∀ expr ∈ superclass,
      AddsDeclared (start fuel (.evaluate expr)) (evaluate fuel expr)) :
    AddsDeclared (start (fuel + 1) (.execute (.class_ name superclass methods)))
      (execute (fuel + 1) (.class_ name superclass methods)) := by
  have before := (addsDeclared_superclassOf name methods evaluated).of_parts
  intro machine index isNew isThere
  have inSuperclass := before machine index isNew
  rw [execute_class] at isThere
  cases result : superclassOf fuel name superclass machine with
  | error cause middle =>
      rw [bind_of_error result] at isThere
      rw [result] at inSuperclass
      exact inSuperclass isThere
  | ok parent middle =>
      rw [result] at inSuperclass
      rcases declareClass_apply name parent methods middle with
        ⟨scope, final, declared, -, classes, -⟩
      rw [bind_of_ok result, bind_of_ok declared] at isThere
      change index < final.heap.classes.size at isThere
      rw [classes, Array.size_push] at isThere
      by_cases earlier : index < middle.heap.classes.size
      · exact inSuperclass earlier
      · refine ⟨⟨fuel + 1, .execute (.class_ name superclass methods), machine⟩, ?_, ?_⟩
        · rw [start, List.flatMap_singleton, Moment.moments_eq]
          exact List.mem_cons_self
        · have isLast := Nat.le_antisymm (Nat.le_of_lt_succ isThere) (Nat.not_lt.mp earlier)
          exact ⟨fuel, name, superclass, methods, machine, parent, middle, rfl, result, isLast⟩

end Declare

/-- Classes are added by class declarations only. -/
theorem stepwise_addsDeclared : Stepwise AddsDeclared where
  quiet quiet := .of_classes _ quiet.classes
  flush := .of_classes _ fun machine => by rw [flush_still]
  bind first _ rest := first.bind rest
  get starts _ _ rest := fun machine => rest machine machine
  within scope adds := adds.within scope
  call called := by
    apply (AddsDeclared.of_classes idle fun machine => ?_).bind fun _ => called.counted
    rw [checkCall_still]
  set name objectAdds valueAdds := by
    apply AddsDeclared.of_parts
    apply objectAdds.bind
    intro found
    cases found with
    | object ref =>
        apply valueAdds.andThen
        intro assigned machine
        rfl
    | _ => exact .of_classes _ fun _ => rfl
  print adds := by
    apply AddsDeclared.of_parts
    apply adds.andThen
    intro value machine
    exact congrArg Heap.classes (heap_printValue value machine)
  declare evaluated := addsDeclared_class evaluated
  whole _ _ adds := adds.of_parts

/-! ## Histories -/

theorem kept_superclassOf {fuel : Nat} {name : Name} {superclass : Option Expr}
    {methods : List FunctionDecl} (formed : (Stmt.class_ name superclass methods).WellFormed) :
    Kept (superclassOf fuel name superclass) := by
  cases superclass with
  | none => exact kept_pure _
  | some expr =>
      have exprFormed := (formed.2.1 expr rfl).wellFormed
      exact ((keptAt fuel).evaluate expr exprFormed).bind fun _ =>
        (kept_expectClass _ _).bind fun _ => kept_pure _

namespace Session

variable {sink : Sink} {clock : Clock} {units : List (Nat × String)}

/-- The session comes through the machine: it is left with it after some of the units, or an
evaluation starts or ends with it. -/
inductive Passes (sink : Sink) (clock : Clock) (units : List (Nat × String)) : Machine → Prop where
  | rests {before} : before <+: units →
      Passes sink clock units ((initial sink clock).runAll before).machine
  | starts {moment} : Occurs sink clock units moment → Passes sink clock units moment.machine
  | ends {moment} : Occurs sink clock units moment → Passes sink clock units moment.final

theorem Passes.healthy {machine : Machine} (passes : Passes sink clock units machine) :
    machine.Healthy := by
  cases passes with
  | @rests before _ => exact healthy_runAll sink clock before
  | starts occurs => exact occurs.healthy.machine
  | ends occurs => exact occurs.healthy.sound.final

/-- Whatever the session comes through persists until its end. -/
theorem Passes.persists {machine : Machine} (passes : Passes sink clock units machine) :
    machine.heap.Persists ((initial sink clock).runAll units).machine.heap := by
  cases passes with
  | @rests before isPrefix =>
      rcases isPrefix with ⟨after, rfl⟩
      rw [runAll_append]
      exact (runAll_persists _ after (formed_runAll sink clock before)).2
  | starts occurs => exact occurs.persists
  | ends occurs => exact occurs.enclosed.2

theorem Occurs.append {moment : Moment} (occurs : Occurs sink clock units moment)
    (more : List (Nat × String)) : Occurs sink clock (units ++ more) moment := by
  rcases occurs with ⟨before, fuel, source, program, isPrefix, started⟩
  exact ⟨before, fuel, source, program, isPrefix.trans (List.prefix_append _ _), started⟩

/-- Every class was added by a class declaration. -/
theorem exists_addsClass {index : Nat}
    (isThere : index < ((initial sink clock).runAll units).machine.heap.classes.size) :
    ∃ moment, Occurs sink clock units moment ∧ moment.AddsClass index := by
  induction units using List.reverseRecOn with
  | nil => cases isThere
  | append_singleton units unit inductionHypothesis =>
      by_cases earlier : index < ((initial sink clock).runAll units).machine.heap.classes.size
      · rcases inductionHypothesis earlier with ⟨moment, occurs, adds⟩
        exact ⟨moment, occurs.append [unit], adds⟩
      · rw [runAll_append_singleton] at isThere
        rcases run_cases ((initial sink clock).runAll units) unit.1 unit.2 with
          ⟨program, nextId, reads⟩ | ⟨errors, nextId, -, rejected⟩
        · rw [reads.run_eq] at isThere
          by_cases clean : (resolveProgram
              ((initial sink clock).runAll units).machine.globalNames program).errors = []
          · rw [runProgram_clean clean] at isThere
            rcases stepwise_addsDeclared.executeProgram unit.1 program
              (((initial sink clock).runAll units).resolved program) index
              (Nat.not_lt.mp earlier) isThere with ⟨moment, member, adds⟩
            rw [start, List.flatMap_singleton] at member
            exact ⟨moment, ⟨units, unit.1, unit.2, program, List.prefix_refl _,
              ⟨⟨nextId, reads⟩, clean⟩, Moment.reaches_of_mem_moments member⟩, adds⟩
          · rw [runProgram_unclean clean] at isThere
            exact absurd isThere earlier
        · rw [rejected] at isThere
          exact absurd isThere earlier

/-- A declaration that adds a class binds its name to the class. -/
theorem Occurs.declaresClass {moment : Moment} {index : Nat}
    (occurs : Occurs sink clock units moment) (adds : moment.AddsClass index) :
    ∃ parent methods, moment.DeclaresClass ⟨index⟩ parent methods := by
  rcases adds with ⟨fuel, name, superclass, methods, machine, parent, middle, rfl, evaluated, rfl⟩
  rcases occurs.enclosed.1 with ⟨formed, stmtFormed⟩
  have between := (kept_superclassOf stmtFormed).of_ok formed evaluated
  rcases declareClass_apply name parent methods middle with
    ⟨scope, final, declared, sameScope, -, isBound⟩
  refine ⟨parent, methods, fuel, name, superclass, machine, middle, final, rfl, evaluated, declared,
    ?_⟩
  rw [sameScope]
  exact isBound between.present

/-- A class stays what it was declared as. -/
theorem Occurs.classInfo_eq {moment : Moment} {ref : ClassRef} {parent : Option ClassRef}
    {methods : List FunctionDecl} (occurs : Occurs sink clock units moment)
    (declares : moment.DeclaresClass ref parent methods) :
    ∃ info scope, ((initial sink clock).runAll units).machine.heap.classes[ref.index]? = some info ∧
      info.superclass = parent ∧ info.methods = methodTable methods scope := by
  rcases declares with
    ⟨fuel, name, superclass, machine, middle, final, rfl, evaluated, declared, isBound⟩
  rcases occurs.enclosed with ⟨⟨formed, stmtFormed⟩, ends⟩
  have between := (kept_superclassOf stmtFormed).of_ok formed evaluated
  rcases declareClass_apply name parent methods middle with
    ⟨scope, last, declares, sameScope, classes, isLast⟩
  cases declared.symm.trans declares
  rw [sameScope, isLast between.present] at isBound
  cases isBound
  have ended : Moment.final ⟨fuel + 1, .execute (.class_ name superclass methods), machine⟩ =
      final := by
    rw [Moment.final, execute_class, bind_of_ok evaluated, bind_of_ok declared]
    rfl
  rw [ended] at ends
  refine ⟨{ name := name.text, superclass := parent, methods := methodTable methods scope }, scope,
    ends.classes ?_, rfl, rfl⟩
  rw [classes]
  exact Array.getElem?_push_size

/-- A class that is there is what it is at the end. -/
theorem Passes.classInfo {machine : Machine} (passes : Passes sink clock units machine)
    {ref : ClassRef} (has : machine.heap.Has (.classRef ref)) {info : ClassInfo}
    (isClass : ((initial sink clock).runAll units).machine.heap.classes[ref.index]? = some info) :
    machine.heap.classInfo ref = info := by
  have found := Array.getElem?_eq_getElem has
  cases (passes.persists.classes found).symm.trans isClass
  exact Heap.classInfo_of_getElem? found

/-- The class and its superclasses, outward, as they were declared: each with the methods of
its body. -/
inductive Ancestry (sink : Sink) (clock : Clock) (units : List (Nat × String)) :
    ClassRef → List (ClassRef × List FunctionDecl) → Prop where
  | base {moment ref methods} : Occurs sink clock units moment →
      moment.DeclaresClass ref none methods → Ancestry sink clock units ref [(ref, methods)]
  | derived {moment ref parent methods rest} : Occurs sink clock units moment →
      moment.DeclaresClass ref (some parent) methods → Ancestry sink clock units parent rest →
      Ancestry sink clock units ref ((ref, methods) :: rest)

/-- The method of the nearest class that declares one of the name; in a class, the last
one. -/
def nearest? (ancestry : List (ClassRef × List FunctionDecl)) (name : String) :
    Option FunctionDecl :=
  ancestry.findSome? fun ancestor => lastDeclared? ancestor.2 name

variable {machine : Machine} {ref : ClassRef}

/-- Every class has an ancestry. -/
theorem Passes.exists_ancestry (passes : Passes sink clock units machine)
    (has : machine.heap.Has (.classRef ref)) :
    ∃ ancestry, Ancestry sink clock units ref ancestry := by
  -- The superclass of a class was created before it.
  induction index : ref.index using Nat.strongRecOn generalizing ref with
  | ind _ inductionHypothesis =>
      have isThere := passes.persists.classes (Array.getElem?_eq_getElem has)
      rcases exists_addsClass (Array.getElem?_eq_some_iff.mp isThere).1 with ⟨moment, occurs, adds⟩
      rcases occurs.declaresClass adds with ⟨parent, methods, declares⟩
      cases parent with
      | none => exact ⟨_, .base occurs declares⟩
      | some parent =>
          rcases occurs.classInfo_eq declares with ⟨info, scope, isClass, isParent, -⟩
          rw [← passes.classInfo has isClass] at isParent
          have earlier := passes.healthy.intact.superclass isParent
          have hasParent : machine.heap.Has (.classRef parent) := Nat.lt_trans earlier has
          rcases inductionHypothesis parent.index (index ▸ earlier) hasParent rfl with
            ⟨rest, isRest⟩
          exact ⟨_, .derived occurs declares isRest⟩

/-- The superclasses in the heap are those that were declared. -/
theorem Ancestry.lineage {ancestry : List (ClassRef × List FunctionDecl)}
    (isAncestry : Ancestry sink clock units ref ancestry) (passes : Passes sink clock units machine)
    (has : machine.heap.Has (.classRef ref)) :
    machine.heap.Lineage ref (ancestry.map Prod.fst) := by
  induction isAncestry with
  | base occurs declares =>
      rcases occurs.classInfo_eq declares with ⟨info, scope, isClass, isParent, -⟩
      rw [← passes.classInfo has isClass] at isParent
      exact .base isParent
  | derived occurs declares _ inductionHypothesis =>
      rcases occurs.classInfo_eq declares with ⟨info, scope, isClass, isParent, -⟩
      rw [← passes.classInfo has isClass] at isParent
      have earlier := passes.healthy.intact.superclass isParent
      exact .derived isParent (inductionHypothesis (Nat.lt_trans earlier has))

/-- The own methods of a class are those of its body. -/
theorem Passes.method_eq {moment : Moment} {parent : Option ClassRef} {methods : List FunctionDecl}
    (passes : Passes sink clock units machine) (has : machine.heap.Has (.classRef ref))
    (occurs : Occurs sink clock units moment) (declares : moment.DeclaresClass ref parent methods)
    (name : String) :
    (machine.heap.classInfo ref).methods[name]?.map Closure.declaration =
      lastDeclared? methods name := by
  rcases occurs.classInfo_eq declares with ⟨info, scope, isClass, -, isTable⟩
  rw [← passes.classInfo has isClass] at isTable
  rw [isTable, getElem?_methodTable, Option.map_map]
  exact Option.map_id'

/-- The method that is found is the one that the nearest class declares last. -/
theorem Ancestry.findMethod?_eq {ancestry : List (ClassRef × List FunctionDecl)}
    (isAncestry : Ancestry sink clock units ref ancestry) (passes : Passes sink clock units machine)
    (has : machine.heap.Has (.classRef ref)) (name : String) :
    (machine.heap.findMethod? ref name).map Closure.declaration = nearest? ancestry name := by
  have intact := passes.healthy.intact
  rw [(isAncestry.lineage passes has).findMethod?_eq intact]
  induction isAncestry with
  | base occurs declares =>
      have own := passes.method_eq has occurs declares name
      rw [List.map_singleton, List.findSome?_singleton, own, nearest?, List.findSome?_singleton]
  | @derived moment ref parent methods rest occurs declares isRest inductionHypothesis =>
      have own := passes.method_eq has occurs declares name
      rcases occurs.classInfo_eq declares with ⟨info, scope, isClass, isParent, -⟩
      rw [← passes.classInfo has isClass] at isParent
      have later := inductionHypothesis (Nat.lt_trans (intact.superclass isParent) has)
      rw [List.map_cons, List.findSome?_cons, nearest?, List.findSome?_cons, ← own]
      cases (machine.heap.classInfo ref).methods[name]? with
      | some method => rfl
      | none => exact later

end Session

end Lox
