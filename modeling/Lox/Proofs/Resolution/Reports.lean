import Mathlib.Data.List.Basic
import Lox.Proofs.Resolution.Rules
import Lox.Proofs.Resolution.Walk

/-!
# What is reported

The state of resolution reflects the surroundings of what it walks over: contexts
are the innermost function and class, and the names known in the scopes are those
declared earlier.  So a read, a declaration or a keyword is reported exactly if it
violates a rule where it stands.
-/

namespace Lox

open ResolverState (distance?)

/-! ## Surroundings -/

namespace Surroundings

/-- The context of a `return` in the given functions and methods. -/
def functionContext : List BodyOwner → FunctionContext
  | [] => .outside
  | .function :: _ => .function
  | .method name :: _ => if name = "init" then .initializer else .method

/-- The context of `this` and `super` in the given classes. -/
def classContext : List Bool → ClassContext
  | [] => .outside
  | false :: _ => .plain
  | true :: _ => .derived

theorem declare_global (around : Surroundings) {name : String} (scope : around.scope = none) :
    around.declare name = { around with globals := name :: around.globals } := by
  rw [declare, scope]

theorem declare_local (around : Surroundings) {name : String} {names : List String}
    (scope : around.scope = some names) :
    around.declare name = { around with scope := some (name :: names) } := by
  rw [declare, scope]

@[simp]
theorem declare_owners (around : Surroundings) (name : String) :
    (around.declare name).owners = around.owners := by
  unfold declare
  split <;> rfl

@[simp]
theorem declare_classes (around : Surroundings) (name : String) :
    (around.declare name).classes = around.classes := by
  unfold declare
  split <;> rfl

@[simp]
theorem declare_initializing (around : Surroundings) (name : String) :
    (around.declare name).initializing = around.initializing := by
  unfold declare
  split <;> rfl

/-- In a local scope, declarations change that scope only. -/
structure Continues (around later : Surroundings) : Prop where
  owners : later.owners = around.owners
  classes : later.classes = around.classes
  scope : later.scope.isSome
  globals : later.globals = around.globals

theorem Continues.refl {around : Surroundings} (isLocal : around.scope.isSome) :
    around.Continues around :=
  ⟨rfl, rfl, isLocal, rfl⟩

theorem Continues.trans {around middle later : Surroundings} (first : around.Continues middle)
    (second : middle.Continues later) : around.Continues later :=
  ⟨second.owners.trans first.owners, second.classes.trans first.classes, second.scope,
    second.globals.trans first.globals⟩

theorem Continues.declare {around : Surroundings} (isLocal : around.scope.isSome)
    (name : String) : around.Continues (around.declare name) := by
  rcases Option.isSome_iff_exists.mp isLocal with ⟨names, scope⟩
  unfold Surroundings.declare
  rw [scope]
  exact ⟨rfl, rfl, rfl, rfl⟩

theorem Continues.after {around : Surroundings} (isLocal : around.scope.isSome)
    (stmt : Stmt) : around.Continues (around.after stmt) := by
  unfold Surroundings.after
  split
  · exact Continues.refl isLocal
  · exact Continues.declare isLocal _

theorem Continues.afterParams {around : Surroundings} (isLocal : around.scope.isSome)
    (params : List Name) : around.Continues (around.afterParams params) := by
  induction params generalizing around with
  | nil => exact Continues.refl isLocal
  | cons first rest inductionHypothesis =>
      have declared := Continues.declare isLocal first.text
      exact declared.trans (inductionHypothesis declared.scope)

/-- Behind statements. -/
def afterEach (around : Surroundings) (stmts : List Stmt) : Surroundings :=
  stmts.foldl after around

theorem Continues.afterEach {around : Surroundings} (isLocal : around.scope.isSome)
    (stmts : List Stmt) : around.Continues (around.afterEach stmts) := by
  induction stmts generalizing around with
  | nil => exact Continues.refl isLocal
  | cons first rest inductionHypothesis =>
      have walked := Continues.after isLocal first
      exact walked.trans (inductionHypothesis walked.scope)

end Surroundings

open Surroundings (Continues)

/-! ## Reports -/

/-- The errors that occurrences are reported with, in their order. -/
def reports (occurrences : List Occurrence) : List ResolutionError :=
  occurrences.filterMap Occurrence.violation?

namespace ResolverState

/-- From one state to the other, the violations among the occurrences were
reported. -/
def Reports (state final : ResolverState) (occurrences : List Occurrence) : Prop :=
  final.errors.toList = state.errors.toList ++ reports occurrences

theorem Reports.refl (state : ResolverState) : Reports state state [] :=
  (List.append_nil _).symm

theorem Reports.trans {state middle final : ResolverState} {first second : List Occurrence}
    (before : Reports state middle first) (after : Reports middle final second) :
    Reports state final (first ++ second) := by
  unfold Reports at before after ⊢
  rw [after, before, reports, reports, reports, List.filterMap_append, List.append_assoc]

/-- A state that differs in other things than errors. -/
theorem Reports.congr {state final start last : ResolverState} {occurrences : List Occurrence}
    (between : Reports state final occurrences) (same : start.errors = state.errors)
    (sameLast : last.errors = final.errors) : Reports start last occurrences := by
  unfold Reports at between ⊢
  rw [same, sameLast, between]

/-- One occurrence is reported, or not. -/
theorem Reports.single {state final : ResolverState} {occurrence : Occurrence}
    (same : final.errors.toList = state.errors.toList ++ occurrence.violation?.toList) :
    Reports state final [occurrence] := by
  unfold Reports
  rw [same, reports, List.filterMap_cons]
  cases occurrence.violation? <;> rfl

/-- The state differs at most in what was found. -/
structure SameNames (state final : ResolverState) : Prop where
  scopes : final.scopes = state.scopes
  globals : final.globals = state.globals
  functionContext : final.functionContext = state.functionContext
  classContext : final.classContext = state.classContext

theorem SameNames.refl (state : ResolverState) : SameNames state state :=
  ⟨rfl, rfl, rfl, rfl⟩

theorem SameNames.trans {state middle final : ResolverState} (first : SameNames state middle)
    (second : SameNames middle final) : SameNames state final :=
  ⟨second.scopes.trans first.scopes, second.globals.trans first.globals,
    second.functionContext.trans first.functionContext,
    second.classContext.trans first.classContext⟩

/-! ## Expressions -/

/-- A read of the name finds something. -/
def Readable (state : ResolverState) (name : String) : Prop :=
  (distance? name .read state.scopes).isSome || state.globalReadable name

/-- What is read is reported exactly if the surroundings say so. -/
structure Sees (state : ResolverState) (around : Surroundings) : Prop where
  classContext : state.classContext = Surroundings.classContext around.classes
  reads : ∀ name : Name, name.IsPlain →
    (state.Readable name.text ↔ Occurrence.violation? ⟨.read name, around⟩ = none)

theorem Sees.congr {state final : ResolverState} {around : Surroundings}
    (sees : state.Sees around) (same : SameNames state final) : final.Sees around := by
  refine ⟨same.classContext.trans sees.classContext, ?_⟩
  intro name plain
  rw [← sees.reads name plain, Readable, Readable, globalReadable, globalReadable, same.scopes,
    same.globals]

theorem violation?_read_eq_none {around : Surroundings} {name : Name} :
    Occurrence.violation? ⟨.read name, around⟩ = none ↔
      (around.initializing = some name.text →
        name.text ∈ around.locals ∨ name.text ∈ around.globals) := by
  simp only [Occurrence.violation?]
  split
  next unreadable => simp [unreadable]
  next allowed =>
    have known : around.initializing = some name.text →
        name.text ∈ around.locals ∨ name.text ∈ around.globals := by
      intro initializing
      by_contra neither
      exact allowed ⟨initializing, not_or.mp neither⟩
    exact ⟨fun _ => known, fun _ => rfl⟩

theorem violation?_read {around : Surroundings} {name : Name}
    (unreadable : Occurrence.violation? ⟨.read name, around⟩ ≠ none) :
    Occurrence.violation? ⟨.read name, around⟩ = some ⟨name, .readInOwnInitializer⟩ := by
  simp only [Occurrence.violation?] at unreadable ⊢
  split
  next => rfl
  next allowed => exact absurd (if_neg allowed) unreadable

theorem Sees.read {state : ResolverState} {around : Surroundings} (sees : state.Sees around)
    (id : UseId) {name : Name} (plain : name.IsPlain) :
    SameNames state (state.read id name) ∧
      Reports state (state.read id name) [⟨.read name, around⟩] := by
  have reads := sees.reads name plain
  unfold ResolverState.read
  dsimp only
  split
  next readable =>
    refine ⟨⟨rfl, rfl, rfl, rfl⟩, Reports.single ?_⟩
    rw [reads.mp readable, Option.toList_none, List.append_nil]
    rfl
  next unreadable =>
    have reported := violation?_read fun allowed => unreadable (reads.mpr allowed)
    refine ⟨⟨rfl, rfl, rfl, rfl⟩, Reports.single ?_⟩
    rw [reported]
    exact Array.toList_push

theorem SameNames.report (state : ResolverState) (name : Name) (fault : ResolutionFault) :
    SameNames state (state.report name fault) :=
  ⟨rfl, rfl, rfl, rfl⟩

/-- A report at one occurrence. -/
theorem Reports.report {state : ResolverState} {name : Name} {fault : ResolutionFault}
    {occurrence : Occurrence} (violated : occurrence.violation? = some ⟨name, fault⟩) :
    Reports state (state.report name fault) [occurrence] := by
  apply Reports.single
  rw [violated]
  exact Array.toList_push

/-- No report at one occurrence. -/
theorem Reports.silent {state final : ResolverState} {occurrence : Occurrence}
    (allowed : occurrence.violation? = none) (same : final.errors = state.errors) :
    Reports state final [occurrence] := by
  apply Reports.single
  rw [allowed, same, Option.toList_none, List.append_nil]

end ResolverState

open ResolverState (Sees Reports SameNames)

namespace Expr

mutual

theorem resolve_reports : ∀ (expr : Expr) (state : ResolverState) (around : Surroundings),
    state.Sees around → expr.WellFormed →
      SameNames state (expr.resolve state) ∧
        Reports state (expr.resolve state) (expr.occurrences around)
  | .literal _, state, _, _, _ => by
      rw [resolve, occurrences]
      exact ⟨.refl state, .refl state⟩
  | .group inner, state, around, sees, formed => by
      rw [resolve, occurrences]
      exact resolve_reports inner state around sees formed
  | .unary _ operand, state, around, sees, formed => by
      rw [resolve, occurrences]
      exact resolve_reports operand state around sees formed
  | .binary left _ right, state, around, sees, formed => by
      rw [resolve, occurrences]
      rcases resolve_reports left state around sees formed.1 with ⟨same, reported⟩
      rcases resolve_reports right _ around (sees.congr same) formed.2 with ⟨same', reported'⟩
      exact ⟨same.trans same', reported.trans reported'⟩
  | .logical left _ right, state, around, sees, formed => by
      rw [resolve, occurrences]
      rcases resolve_reports left state around sees formed.1 with ⟨same, reported⟩
      rcases resolve_reports right _ around (sees.congr same) formed.2 with ⟨same', reported'⟩
      exact ⟨same.trans same', reported.trans reported'⟩
  | .var id name, state, around, sees, formed => by
      rw [resolve, occurrences]
      exact sees.read id formed
  | .assign id name value, state, around, sees, formed => by
      rw [resolve, occurrences]
      rcases resolve_reports value state around sees formed.2 with ⟨same, reported⟩
      exact ⟨⟨same.scopes, same.globals, same.functionContext, same.classContext⟩,
        reported.congr rfl rfl⟩
  | .call callee _ arguments, state, around, sees, formed => by
      rw [resolve, occurrences]
      rcases resolve_reports callee state around sees formed.1 with ⟨same, reported⟩
      rcases resolveEach_reports arguments _ around (sees.congr same) formed.2 with
        ⟨same', reported'⟩
      exact ⟨same.trans same', reported.trans reported'⟩
  | .get object _, state, around, sees, formed => by
      rw [resolve, occurrences]
      exact resolve_reports object state around sees formed
  | .set object _ value, state, around, sees, formed => by
      rw [resolve, occurrences]
      rcases resolve_reports value state around sees formed.2 with ⟨same, reported⟩
      rcases resolve_reports object _ around (sees.congr same) formed.1 with ⟨same', reported'⟩
      exact ⟨same.trans same', reported.trans reported'⟩
  | .this id line, state, around, sees, _ => by
      rw [resolve, occurrences, sees.classContext]
      cases classes : around.classes with
      | nil =>
          exact ⟨.report _ _ _, .report (by simp [Occurrence.violation?, classes])⟩
      | cons hasSuperclass rest =>
          have inside : Surroundings.classContext (hasSuperclass :: rest) ≠ .outside := by
            cases hasSuperclass <;> simp [Surroundings.classContext]
          rw [if_neg inside]
          exact ⟨⟨rfl, rfl, rfl, rfl⟩, .silent (by simp [Occurrence.violation?, classes]) rfl⟩
  | .super id line method, state, around, sees, _ => by
      rw [resolve, occurrences, sees.classContext]
      cases classes : around.classes with
      | nil =>
          exact ⟨.report _ _ _, .report (by simp [Occurrence.violation?, classes])⟩
      | cons hasSuperclass rest =>
          cases hasSuperclass with
          | false =>
              exact ⟨.report _ _ _, .report (by simp [Occurrence.violation?, classes])⟩
          | true =>
              exact ⟨⟨rfl, rfl, rfl, rfl⟩,
                .silent (by simp [Occurrence.violation?, classes]) rfl⟩

theorem resolveEach_reports : ∀ (exprs : List Expr) (state : ResolverState)
    (around : Surroundings), state.Sees around → WellFormedEach exprs →
      SameNames state (resolveEach exprs state) ∧
        Reports state (resolveEach exprs state) (occurrencesEach around exprs)
  | [], state, _, _, _ => by
      rw [resolveEach, occurrencesEach]
      exact ⟨.refl state, .refl state⟩
  | first :: rest, state, around, sees, formed => by
      rw [resolveEach, occurrencesEach]
      rcases resolve_reports first state around sees formed.1 with ⟨same, reported⟩
      rcases resolveEach_reports rest _ around (sees.congr same) formed.2 with ⟨same', reported'⟩
      exact ⟨same.trans same', reported.trans reported'⟩

end

theorem resolveOption_reports (expr : Option Expr) {state : ResolverState}
    {around : Surroundings} (sees : state.Sees around) (formed : OptionWellFormed expr) :
    SameNames state (resolveOption expr state) ∧
      Reports state (resolveOption expr state) (optionOccurrences around expr) := by
  cases expr with
  | none => exact ⟨.refl state, .refl state⟩
  | some value => exact resolve_reports value state around sees (formed value rfl)

end Expr

/-! ## Statements -/

namespace ResolverState

/-- The innermost open scope knows the plain names declared earlier in it. -/
inductive Innermost : List NameTable → Option (List String) → Prop where
  | global : Innermost [] none
  | local {table outer names} :
      (∀ name : Name, name.IsPlain → (name.text ∈ table ↔ name.text ∈ names)) →
      Innermost (table :: outer) (some names)

/-- The state is one in which the methods of a class with these surroundings are
resolved: all names are defined and, but for `this` and `super`, are those declared
earlier. -/
structure Encloses (state : ResolverState) (around : Surroundings) : Prop where
  functionContext : state.functionContext = Surroundings.functionContext around.owners
  classContext : state.classContext = Surroundings.classContext around.classes
  defined : ∀ table ∈ state.scopes, ∀ name ∈ table, table[name]? = some .defined
  locals : ∀ name : Name, name.IsPlain →
    ((∃ table ∈ state.scopes, name.text ∈ table) ↔ name.text ∈ around.locals)
  globals : ∀ name, state.globals[name]? = if name ∈ around.globals then some .defined else none
  initializing : around.initializing = none

/-- The state is one in which a statement with these surroundings is resolved. -/
structure Reflects (state : ResolverState) (around : Surroundings) : Prop
    extends Encloses state around where
  innermost : Innermost state.scopes around.scope

variable {state middle final : ResolverState} {around : Surroundings}

theorem Encloses.congr (encloses : state.Encloses around) (scopes : final.scopes = state.scopes)
    (globals : ∀ name : String, final.globals[name]? = state.globals[name]?)
    (functionContext : final.functionContext = state.functionContext)
    (classContext : final.classContext = state.classContext) : final.Encloses around where
  functionContext := functionContext.trans encloses.functionContext
  classContext := classContext.trans encloses.classContext
  defined := by
    rw [scopes]
    exact encloses.defined
  locals := by
    rw [scopes]
    exact encloses.locals
  globals name := (globals name).trans (encloses.globals name)
  initializing := encloses.initializing

theorem Encloses.same (encloses : state.Encloses around) (same : SameNames state final) :
    final.Encloses around :=
  encloses.congr same.scopes (fun _ => by rw [same.globals]) same.functionContext
    same.classContext

/-- What was walked over behind a state left no trace but in what was found. -/
theorem Encloses.restore {walked : ResolverState} {later : Surroundings}
    (encloses : state.Encloses around) (inside : walked.Encloses later)
    (laterGlobals : later.globals = around.globals) (scopes : final.scopes = state.scopes)
    (globals : final.globals = walked.globals)
    (functionContext : final.functionContext = state.functionContext)
    (classContext : final.classContext = state.classContext) : final.Encloses around := by
  refine encloses.congr scopes ?_ functionContext classContext
  intro name
  rw [globals, inside.globals, laterGlobals, encloses.globals]

theorem Reflects.restore (reflects : state.Reflects around) (encloses : final.Encloses around)
    (scopes : final.scopes = state.scopes) : final.Reflects around := by
  refine ⟨encloses, ?_⟩
  rw [scopes]
  exact reflects.innermost

theorem Reflects.same (reflects : state.Reflects around) (same : SameNames state final) :
    final.Reflects around :=
  reflects.restore (reflects.toEncloses.same same) same.scopes

/-! ### Reads -/

/-- A read finds each name that an open scope defines. -/
theorem isSome_distance?_read {name : String} {scopes : List NameTable}
    (defined : ∀ table ∈ scopes, name ∈ table → table[name]? = some .defined) :
    (distance? name .read scopes).isSome ↔ ∃ table ∈ scopes, name ∈ table := by
  induction scopes with
  | nil => simp [distance?]
  | cons table outer inductionHypothesis =>
      have outerDefined := inductionHypothesis fun other member =>
        defined other (List.mem_cons_of_mem _ member)
      rw [distance?]
      by_cases known : name ∈ table
      · have entry := defined table List.mem_cons_self known
        rw [entry]
        simp [known]
      · simp [known, outerDefined]

theorem any_contains (scopes : List NameTable) (name : String) :
    scopes.any (·.contains name) = true ↔ ∃ table ∈ scopes, name ∈ table := by
  simp

/-- Where every name is defined, every read is allowed. -/
theorem Encloses.readable (encloses : state.Encloses around) (name : String) :
    state.Readable name := by
  have found := isSome_distance?_read fun table member => encloses.defined table member name
  by_cases known : ∃ table ∈ state.scopes, name ∈ table
  · simp [Readable, found.mpr known]
  · have unknown : state.scopes.any (·.contains name) = false := by
      rw [← Bool.not_eq_true, any_contains]
      exact known
    rw [Readable, globalReadable, encloses.globals, unknown]
    by_cases isGlobal : name ∈ around.globals
    · simp [isGlobal]
    · simp [isGlobal]

theorem Encloses.sees (encloses : state.Encloses around) : state.Sees around := by
  refine ⟨encloses.classContext, ?_⟩
  intro name _
  have allowed : Occurrence.violation? ⟨.read name, around⟩ = none := by
    rw [violation?_read_eq_none, encloses.initializing]
    exact nofun
  exact ⟨fun _ => allowed, fun _ => encloses.readable name.text⟩

/-! ### Declarations -/

/-- A declaration is reported exactly if the innermost scope knows the name. -/
theorem declare_reports {scope : Option (List String)} {name : Name}
    (innermost : Innermost state.scopes scope) (plain : name.IsPlain) (isHere : around.scope = scope) :
    Reports state (state.declare name) [⟨.declaration name, around⟩] := by
  unfold declare
  generalize state.scopes = scopes at innermost
  cases innermost with
  | global => exact .silent (by simp [Occurrence.violation?, isHere]) rfl
  | @«local» table outer names known =>
      dsimp only
      split
      next contained =>
        have declared := (known name plain).mp (Std.TreeMap.mem_iff_contains.mpr contained)
        exact .report (by simp [Occurrence.violation?, isHere, declared])
      next free =>
        have undeclared : name.text ∉ names := fun declared =>
          free (Std.TreeMap.mem_iff_contains.mp ((known name plain).mpr declared))
        exact .silent (by simp [Occurrence.violation?, isHere, undeclared]) rfl

theorem readable_declare_of_ne {name : Name} {other : String} (different : name.text ≠ other) :
    (state.declare name).Readable other ↔ state.Readable other := by
  unfold Readable globalReadable declare
  cases opened : state.scopes with
  | nil =>
      have apart : compare name.text other ≠ .eq :=
        fun equal => different (Std.LawfulEqCmp.eq_of_compare equal)
      simp [Std.TreeMap.getElem?_insertIfNew, apart]
  | cons table outer =>
      dsimp only
      split
      next => simp only [ResolverState.report, opened]
      next =>
        have entry : (table.insert name.text .declared).contains other = table.contains other := by
          rw [Std.TreeMap.contains_eq_isSome_getElem?, Table.getElem?_insert, if_neg different,
            Std.TreeMap.contains_eq_isSome_getElem?]
        simp only [distance?_insert_of_ne different, List.any_cons, entry]

/-- A name that is being declared can be read if it was known before. -/
theorem Encloses.readable_declare (encloses : state.Encloses around) (name : Name) :
    (state.declare name).Readable name.text ↔
      (∃ table ∈ state.scopes, name.text ∈ table) ∨ name.text ∈ around.globals := by
  have globals := encloses.globals name.text
  unfold Readable globalReadable declare
  cases opened : state.scopes with
  | nil =>
      rw [Table.getElem?_insertIfNew, globals]
      by_cases isGlobal : name.text ∈ around.globals
      · simp [isGlobal]
      · simp [isGlobal, distance?]
  | cons table outer =>
      dsimp only
      have found : ∀ tables, (∀ table ∈ tables, table ∈ state.scopes) →
          ((distance? name.text .read tables).isSome ↔ ∃ table ∈ tables, name.text ∈ table) :=
        fun tables among => isSome_distance?_read fun table member =>
          encloses.defined table (among table member) name.text
      split
      next contained =>
        have known : name.text ∈ table := Std.TreeMap.mem_iff_contains.mpr contained
        have here := (found (table :: outer) (by simp [opened])).mpr
          ⟨table, List.mem_cons_self, known⟩
        simp [ResolverState.report, opened, here, known]
      next free =>
        have outerFound := found outer (by simp +contextual [opened])
        have unknown : name.text ∉ table := fun known =>
          free (Std.TreeMap.mem_iff_contains.mp known)
        have entry : (table.insert name.text Status.declared)[name.text]? = some .declared := by
          rw [Table.getElem?_insert, if_pos rfl]
        by_cases isGlobal : name.text ∈ around.globals
        · rw [if_pos isGlobal] at globals
          simp [globals, isGlobal]
        · rw [if_neg isGlobal] at globals
          rw [globals, distance?, entry]
          simp [isGlobal, unknown, outerFound]

/-- While its initializer is resolved, a name is known but not defined. -/
theorem Reflects.sees_inInitializer (reflects : state.Reflects around) {name : Name}
    (plain : name.IsPlain) : (state.declare name).Sees (around.inInitializer name.text) := by
  refine ⟨(declare_classContext state name).trans reflects.classContext, ?_⟩
  intro read _
  rw [violation?_read_eq_none, Surroundings.inInitializer, Option.some_inj]
  by_cases same : name.text = read.text
  · have locals := reflects.locals name plain
    rw [← same, reflects.readable_declare, locals]
    exact ⟨fun known _ => known, fun known => known rfl⟩
  · have readable := (readable_declare_of_ne same).mpr (reflects.readable read.text)
    exact ⟨fun _ isSame => absurd isSame same, fun _ => readable⟩

/-- A name that was declared and is now defined is known in the innermost scope. -/
theorem exists_introduceIn (name : String) (table : NameTable) (outer : List NameTable) :
    ∃ grown : NameTable, introduceIn name (table :: outer) = grown :: outer ∧
      ∀ other, grown[other]? = if name = other then some .defined else table[other]? := by
  rw [introduceIn, declareIn]
  split
  · refine ⟨_, rfl, ?_⟩
    intro other
    rw [Table.getElem?_insert]
  · refine ⟨_, rfl, ?_⟩
    intro other
    rw [Table.getElem?_insert, Table.getElem?_insert]
    split <;> rfl

theorem Innermost.introduce {scopes : List NameTable}
    (innermost : Innermost scopes around.scope) (name : String) :
    Innermost (introduceIn name scopes) (around.declare name).scope := by
  generalize scope : around.scope = names at innermost
  cases innermost with
  | global =>
      have still : (around.declare name).scope = none := by rw [around.declare_global scope, scope]
      rw [still]
      exact .global
  | @«local» table outer names known =>
      rcases exists_introduceIn name table outer with ⟨grown, introduced, entries⟩
      rw [introduced, around.declare_local scope]
      refine .local ?_
      intro other plain
      rw [Std.TreeMap.mem_iff_isSome_getElem?, entries, List.mem_cons, ← known other plain,
        Std.TreeMap.mem_iff_isSome_getElem?]
      by_cases same : name = other.text
      · simp [same]
      · simp [same, Ne.symm same]

theorem introduce_scopes (state : ResolverState) (name : Name) :
    (state.introduce name).scopes = introduceIn name.text state.scopes := by
  rw [introduce, define_scopes, declare_scopes, introduceIn]

/-- In a local scope, a declaration changes that scope only. -/
theorem introduce_local {name : Name} {table : NameTable} {outer : List NameTable}
    (opened : state.scopes = table :: outer) :
    (state.introduce name).globals = state.globals ∧
      (state.introduce name).functionContext = state.functionContext ∧
      (state.introduce name).classContext = state.classContext := by
  by_cases contained : table.contains name.text
  · simp only [introduce, declare, define, opened, if_pos contained, ResolverState.report, and_self]
  · simp only [introduce, declare, define, opened, if_neg contained, and_self]

theorem introduce_contexts (state : ResolverState) (name : Name) :
    (state.introduce name).functionContext = state.functionContext ∧
      (state.introduce name).classContext = state.classContext := by
  cases opened : state.scopes with
  | nil => simp [introduce, declare, define, opened]
  | cons table outer => exact (introduce_local opened).2

theorem getElem?_introduce_globals {name : Name} (opened : state.scopes = []) (other : String) :
    (state.introduce name).globals[other]? =
      if name.text = other then some .defined else state.globals[other]? := by
  simp only [introduce, define, declare, opened]
  rw [Table.getElem?_insert, Std.TreeMap.getElem?_insertIfNew]
  by_cases same : name.text = other
  · rw [if_pos same, if_pos same]
  · have apart : compare name.text other ≠ .eq :=
      fun equal => same (Std.LawfulEqCmp.eq_of_compare equal)
    rw [if_neg same, if_neg same, if_neg fun new => apart new.1]

/-- Behind a declaration the name is known. -/
theorem Reflects.introduce (reflects : state.Reflects around) (name : Name) :
    (state.introduce name).Reflects (around.declare name.text) := by
  rcases introduce_contexts state name with ⟨functionContext, classContext⟩
  have scopes := introduce_scopes state name
  have innermost := reflects.innermost.introduce name.text
  rw [← scopes] at innermost
  have before := reflects.innermost
  generalize opened : state.scopes = tables at before scopes
  generalize scope : around.scope = names at before
  refine ⟨⟨?_, ?_, ?_, ?_, ?_, ?_⟩, innermost⟩
  · rw [functionContext, reflects.functionContext, around.declare_owners]
  · rw [classContext, reflects.classContext, around.declare_classes]
  · rw [scopes]
    cases before with
    | global => exact nofun
    | @«local» table outer names known =>
        rcases exists_introduceIn name.text table outer with ⟨grown, introduced, entries⟩
        have defined := reflects.defined
        rw [opened] at defined
        rw [introduced]
        intro tables member other inTable
        rcases List.mem_cons.mp member with rfl | inOuter
        · rw [entries]
          by_cases same : name.text = other
          · rw [if_pos same]
          · rw [Std.TreeMap.mem_iff_isSome_getElem?, entries, if_neg same,
              ← Std.TreeMap.mem_iff_isSome_getElem?] at inTable
            rw [if_neg same, defined table List.mem_cons_self other inTable]
        · exact defined tables (List.mem_cons_of_mem _ inOuter) other inTable
  · rw [scopes]
    have locals := reflects.locals
    rw [opened] at locals
    cases before with
    | global =>
        rw [around.declare_global scope]
        exact locals
    | @«local» table outer names known =>
        rcases exists_introduceIn name.text table outer with ⟨grown, introduced, entries⟩
        rw [introduced, around.declare_local scope]
        intro other plain
        have here : other.text ∈ grown ↔ other.text = name.text ∨ other.text ∈ table := by
          rw [Std.TreeMap.mem_iff_isSome_getElem?, entries, Std.TreeMap.mem_iff_isSome_getElem?]
          by_cases same : name.text = other.text
          · simp [same]
          · simp [same, Ne.symm same]
        have earlier := locals other plain
        rw [List.exists_mem_cons_iff] at earlier
        rw [List.exists_mem_cons_iff, here, or_assoc, earlier]
        simp [Surroundings.locals, scope]
  · intro other
    cases before with
    | global =>
        rw [getElem?_introduce_globals opened, reflects.globals, around.declare_global scope]
        by_cases same : name.text = other
        · simp [same]
        · simp [same, Ne.symm same]
    | @«local» table outer names known =>
        rw [(introduce_local opened).1, reflects.globals, around.declare_local scope]
  · rw [around.declare_initializing, reflects.initializing]

end ResolverState

end Lox
