import Mathlib
import Lox.Proofs.Resolution.Distinct
import Lox.Proofs.Resolution.Reports
import Lox.Proofs.Session.Histories

/-!
# Resolution reports the violations of the static rules

Bodies, scopes and classes are entered and left so that the state reflects the
surroundings again behind them.  So each violation in a program is reported once,
where it stands, and nothing else is.
-/

namespace Lox

open Surroundings (Continues)
open ResolverState (Sees Reports SameNames Encloses Reflects)

/-! ## Statements -/

namespace ResolverState

variable {state final : ResolverState} {around : Surroundings}

theorem SameNames.define (same : SameNames state final) (name : String) :
    SameNames (state.define name) (final.define name) := by
  unfold ResolverState.define
  rw [same.scopes, same.globals]
  split
  · exact ⟨rfl, rfl, same.functionContext, same.classContext⟩
  · exact ⟨rfl, rfl, same.functionContext, same.classContext⟩

theorem introduce_reports (reflects : state.Reflects around) {name : Name} (plain : name.IsPlain) :
    Reports state (state.introduce name) [⟨.declaration name, around⟩] :=
  (declare_reports reflects.innermost plain rfl).congr rfl (define_errors _ _)

theorem params_reports (params : List Name) (reflects : state.Reflects around)
    (plain : ∀ param ∈ params, param.IsPlain) :
    (params.foldl ResolverState.introduce state).Reflects (around.afterParams params) ∧
      Reports state (params.foldl ResolverState.introduce state)
        (paramOccurrences around params) := by
  induction params generalizing state around with
  | nil => exact ⟨reflects, .refl state⟩
  | cons first rest inductionHypothesis =>
      have reported := introduce_reports reflects (plain first List.mem_cons_self)
      rcases inductionHypothesis (reflects.introduce first) fun param member =>
        plain param (List.mem_cons_of_mem _ member) with ⟨restReflects, restReported⟩
      exact ⟨restReflects, reported.trans restReported⟩

/-! ### Scopes and bodies -/

theorem Encloses.enter (encloses : state.Encloses around) : state.enter.Reflects around.inScope := by
  refine ⟨⟨encloses.functionContext, encloses.classContext, ?_, ?_, encloses.globals,
    encloses.initializing⟩, .local fun name _ => ?_⟩
  · intro table member
    rcases List.mem_cons.mp member with rfl | outer
    · intro name known
      simp at known
    · exact encloses.defined table outer
  · intro name plain
    have locals := encloses.locals name plain
    rw [ResolverState.enter, List.exists_mem_cons_iff, locals]
    simp [Surroundings.inScope, Surroundings.locals]
  · simp

/-- In the scope of the parameters and the body of a function. -/
theorem Encloses.enterBody (encloses : state.Encloses around) {context : FunctionContext}
    {owner : BodyOwner}
    (inContext : context = Surroundings.functionContext (owner :: around.owners)) :
    ({ state with functionContext := context }.enter).Reflects (around.inBody owner) := by
  have entered := encloses.enter
  exact ⟨⟨inContext, entered.classContext, entered.defined, entered.locals, entered.globals,
    entered.initializing⟩, entered.innermost⟩

/-- In a scope that binds `this` or `super` alone. -/
theorem Encloses.bind (encloses : state.Encloses around) {word : String}
    (reserved : word = "this" ∨ word = "super") : (state.enter.define word).Encloses around := by
  have notPlain : ∀ name : Name, name.IsPlain → word ≠ name.text := by
    rintro name plain rfl
    exact reserved.elim plain.1 plain.2
  have entries : ∀ other, ((∅ : NameTable).insert word .defined)[other]? =
      if word = other then some .defined else none := by
    intro other
    rw [Table.getElem?_insert]
    rfl
  refine ⟨encloses.functionContext, encloses.classContext, ?_, ?_, encloses.globals,
    encloses.initializing⟩
  · intro table member
    rcases List.mem_cons.mp member with rfl | outer
    · intro name known
      rw [Std.TreeMap.mem_iff_isSome_getElem?, entries] at known
      rw [entries]
      split at known
      next same => rw [if_pos same]
      next => cases known
    · exact encloses.defined table outer
  · intro name plain
    have locals := encloses.locals name plain
    have absent : name.text ∉ (∅ : NameTable).insert word .defined := by
      rw [Std.TreeMap.mem_iff_isSome_getElem?, entries, if_neg (notPlain name plain)]
      exact Bool.false_ne_true
    change (∃ table ∈ _ :: state.scopes, _) ↔ _
    rw [List.exists_mem_cons_iff, locals, or_iff_right absent]

theorem checkReturn_reports (encloses : state.Encloses around) (line : Nat) (hasValue : Bool) :
    SameNames state (state.checkReturn line hasValue) ∧
      Reports state (state.checkReturn line hasValue) [⟨.return_ line hasValue, around⟩] := by
  unfold checkReturn
  rw [encloses.functionContext]
  cases owners : around.owners with
  | nil => exact ⟨.report _ _ _, .report (by simp [Occurrence.violation?, owners])⟩
  | cons owner rest =>
      cases owner with
      | function => exact ⟨.refl state, .silent (by simp [Occurrence.violation?, owners]) rfl⟩
      | method name =>
          by_cases isInit : name = "init"
          · cases hasValue with
            | false =>
                simp only [Surroundings.functionContext, if_pos isInit]
                exact ⟨.refl state, .silent (by simp [Occurrence.violation?, owners]) rfl⟩
            | true =>
                simp only [Surroundings.functionContext, if_pos isInit]
                exact ⟨.report _ _ _, .report (by simp [Occurrence.violation?, owners, isInit])⟩
          · simp only [Surroundings.functionContext, if_neg isInit]
            exact ⟨.refl state, .silent (by simp [Occurrence.violation?, owners, isInit]) rfl⟩

theorem checkSuperclass_reports (state : ResolverState) (around : Surroundings) (name : Name)
    (id : UseId) (superclass : Name) :
    SameNames state (state.checkSuperclass name (.var id superclass)) ∧
      Reports state (state.checkSuperclass name (.var id superclass))
        [⟨.superclass name.text superclass, around⟩] := by
  unfold checkSuperclass
  dsimp only
  split
  next same => exact ⟨.report _ _ _, .report (by simp [Occurrence.violation?, same])⟩
  next different => exact ⟨.refl state, .silent (by simp [Occurrence.violation?, different]) rfl⟩

theorem Encloses.inClass (encloses : state.Encloses around) (hasSuperclass : Bool) :
    ({ state with
      classContext := Surroundings.classContext (hasSuperclass :: around.classes) }).Encloses
      (around.inClass hasSuperclass) :=
  ⟨encloses.functionContext, rfl, encloses.defined, encloses.locals, encloses.globals,
    encloses.initializing⟩

/-- The superclass of a class is resolved behind the declaration of its name. -/
theorem enterSuperclass_reports (encloses : state.Encloses around) (name : Name)
    {superclass : Option Expr} (formed : ∀ expr ∈ superclass, expr.IsVariable) :
    (({ state with classContext := .plain }).enterSuperclass name superclass).Encloses
        (around.inClass superclass.isSome) ∧
      Reports state (({ state with classContext := .plain }).enterSuperclass name superclass)
        (Expr.superclassOccurrences around name.text superclass) := by
  cases superclass with
  | none => exact ⟨encloses.inClass false, (Reports.refl state).congr rfl rfl⟩
  | some superclass =>
      have isVariable := formed superclass rfl
      cases superclass with
      | var id parent =>
          rcases checkSuperclass_reports { state with classContext := .plain } around name id
            parent with ⟨checkedSame, checkedReported⟩
          rw [enterSuperclass]
          generalize ({ state with classContext := .plain } : ResolverState).checkSuperclass name
            (.var id parent) = checked at *
          have derived : ({ checked with classContext := .derived }).Encloses
              (around.inClass true) :=
            (encloses.inClass true).congr checkedSame.scopes (fun _ => by rw [checkedSame.globals])
              checkedSame.functionContext rfl
          rcases derived.sees.read id isVariable with ⟨readSame, readReported⟩
          refine ⟨(derived.same readSame).bind (.inr rfl), ?_⟩
          exact (checkedReported.congr rfl rfl).trans (readReported.congr rfl rfl)
      | _ => exact isVariable.elim

theorem leaveSuperclass_keeps (state : ResolverState) (superclass : Option Expr) :
    (state.leaveSuperclass superclass).globals = state.globals ∧
      (state.leaveSuperclass superclass).functionContext = state.functionContext ∧
      (state.leaveSuperclass superclass).errors = state.errors := by
  cases superclass <;> exact ⟨rfl, rfl, rfl⟩

theorem introduce_inContext (state : ResolverState) (name : Name) (context : ClassContext) :
    ({ state with classContext := context }).introduce name =
      { state.introduce name with classContext := context } := by
  cases opened : state.scopes with
  | nil => simp only [introduce, declare, define, opened]
  | cons table outer =>
      by_cases contained : table.contains name.text
      · simp only [introduce, declare, define, opened, if_pos contained, ResolverState.report]
      · simp only [introduce, declare, define, opened, if_neg contained]

end ResolverState

namespace Stmt

/-- The violations in a class are reported if those in its methods are. -/
theorem class_reports {name : Name} {superclass : Option Expr} {methods : List FunctionDecl}
    {state : ResolverState} {around : Surroundings} (reflects : state.Reflects around)
    (formed : (Stmt.class_ name superclass methods).WellFormed)
    (methodsReported : ∀ (opened : ResolverState) (inside : Surroundings),
      opened.Encloses inside → (resolveMethods methods opened).Encloses inside ∧
        Reports opened (resolveMethods methods opened) (methodOccurrences inside methods)) :
    ((Stmt.class_ name superclass methods).resolve state).Reflects (around.declare name.text) ∧
      Reports state ((Stmt.class_ name superclass methods).resolve state)
        ((Stmt.class_ name superclass methods).occurrences around) := by
  have scopes : ((Stmt.class_ name superclass methods).resolve state).scopes =
      (state.introduce name).scopes :=
    (resolve_walk _ state state.scopes false rfl formed).scopes.trans
      (ResolverState.introduce_scopes state name).symm
  have declared := reflects.introduce name
  have introduced := ResolverState.introduce_reports reflects formed.1
  have stateContext : state.classContext = (state.introduce name).classContext :=
    (ResolverState.introduce_contexts state name).2.symm
  rw [resolve, ResolverState.introduce_inContext, stateContext] at scopes ⊢
  rw [occurrences]
  generalize state.introduce name = opened at *
  rcases ResolverState.enterSuperclass_reports declared.toEncloses name formed.2.1 with
    ⟨superEncloses, superReported⟩
  generalize ({ opened with classContext := .plain } : ResolverState).enterSuperclass name
    superclass = entered at *
  rcases methodsReported _ _ (superEncloses.bind (.inl rfl)) with ⟨inside, reported⟩
  generalize resolveMethods methods (entered.enter.define "this") = walked at *
  rcases ResolverState.leaveSuperclass_keeps walked.leave superclass with
    ⟨globals, functionContext, errors⟩
  have restored := functionContext.trans
    (inside.functionContext.trans declared.functionContext.symm)
  have encloses := declared.toEncloses.restore inside rfl scopes globals restored rfl
  refine ⟨declared.restore encloses scopes, ?_⟩
  exact introduced.trans (superReported.trans (reported.congr rfl errors))

mutual

theorem resolve_reports : ∀ (stmt : Stmt) (state : ResolverState) (around : Surroundings),
    state.Reflects around → stmt.WellFormed →
      (stmt.resolve state).Reflects (around.after stmt) ∧
        Reports state (stmt.resolve state) (stmt.occurrences around)
  | .expression value, state, around, reflects, formed => by
      rw [resolve, occurrences]
      rcases value.resolve_reports state around reflects.sees formed with ⟨same, reported⟩
      exact ⟨reflects.same same, reported⟩
  | .print value, state, around, reflects, formed => by
      rw [resolve, occurrences]
      rcases value.resolve_reports state around reflects.sees formed with ⟨same, reported⟩
      exact ⟨reflects.same same, reported⟩
  | .var name initializer, state, around, reflects, formed => by
      rw [resolve, occurrences]
      have declared := ResolverState.declare_reports reflects.innermost formed.1 rfl
      rcases Expr.resolveOption_reports initializer (reflects.sees_inInitializer formed.1)
        formed.2 with ⟨same, reported⟩
      refine ⟨(reflects.introduce name).same (same.define name.text), ?_⟩
      exact (declared.trans reported).congr rfl (ResolverState.define_errors _ _)
  | .block body, state, around, reflects, formed => by
      have scopes := (resolve_walk (.block body) state state.scopes false rfl formed).scopes
      rw [resolve] at scopes
      rw [resolve, occurrences]
      rcases resolveEach_reports body state.enter around.inScope reflects.enter formed with
        ⟨inside, reported⟩
      have continues : around.inScope.Continues (around.inScope.afterEach body) :=
        Continues.afterEach rfl body
      have functionContext : (resolveEach body state.enter).functionContext =
          state.functionContext := by
        rw [inside.functionContext, continues.owners, reflects.functionContext]
        rfl
      have classContext : (resolveEach body state.enter).classContext = state.classContext := by
        rw [inside.classContext, continues.classes, reflects.classContext]
        rfl
      have encloses := reflects.toEncloses.restore inside.toEncloses continues.globals scopes rfl
        functionContext classContext
      exact ⟨reflects.restore encloses scopes, reported.congr rfl rfl⟩
  | .if_ condition thenBranch none, state, around, reflects, formed => by
      rw [resolve, occurrences]
      rcases formed with ⟨conditionFormed, thenFormed, thenDeclares⟩
      rcases condition.resolve_reports state around reflects.sees conditionFormed with
        ⟨same, reported⟩
      rcases resolve_reports thenBranch _ around (reflects.same same) thenFormed with
        ⟨thenReflects, thenReported⟩
      rw [Surroundings.after, thenDeclares] at thenReflects
      exact ⟨thenReflects, reported.trans thenReported⟩
  | .if_ condition thenBranch (some elseBranch), state, around, reflects, formed => by
      rw [resolve, occurrences]
      rcases formed with
        ⟨conditionFormed, ⟨thenFormed, thenDeclares⟩, elseFormed, elseDeclares⟩
      rcases condition.resolve_reports state around reflects.sees conditionFormed with
        ⟨same, reported⟩
      rcases resolve_reports thenBranch _ around (reflects.same same) thenFormed with
        ⟨thenReflects, thenReported⟩
      rw [Surroundings.after, thenDeclares] at thenReflects
      rcases resolve_reports elseBranch _ around thenReflects elseFormed with
        ⟨elseReflects, elseReported⟩
      rw [Surroundings.after, elseDeclares] at elseReflects
      exact ⟨elseReflects, (reported.trans thenReported).trans elseReported⟩
  | .while_ condition body, state, around, reflects, formed => by
      rw [resolve, occurrences]
      rcases formed with ⟨conditionFormed, bodyFormed, bodyDeclares⟩
      rcases condition.resolve_reports state around reflects.sees conditionFormed with
        ⟨same, reported⟩
      rcases resolve_reports body _ around (reflects.same same) bodyFormed with
        ⟨bodyReflects, bodyReported⟩
      rw [Surroundings.after, bodyDeclares] at bodyReflects
      exact ⟨bodyReflects, reported.trans bodyReported⟩
  | .function ⟨name, params, body⟩, state, around, reflects, formed => by
      rw [resolve, occurrences]
      have introduced := ResolverState.introduce_reports reflects formed.1
      have declared := reflects.introduce name
      have scopes := (resolveFunction_walk ⟨name, params, body⟩ .function (state.introduce name) _ rfl
        formed).scopes
      rcases resolveFunction_reports ⟨name, params, body⟩ .function .function _ _ declared.toEncloses rfl
        formed with ⟨encloses, reported⟩
      exact ⟨declared.restore encloses scopes, introduced.trans reported⟩
  | .return_ line value, state, around, reflects, formed => by
      rw [resolve, occurrences]
      rcases ResolverState.checkReturn_reports reflects.toEncloses line value.isSome with
        ⟨same, reported⟩
      rcases Expr.resolveOption_reports value (reflects.same same).sees formed with
        ⟨valueSame, valueReported⟩
      exact ⟨reflects.same (same.trans valueSame), reported.trans valueReported⟩
  | .class_ name superclass methods, state, around, reflects, formed =>
      class_reports reflects formed fun opened inside encloses =>
        resolveMethods_reports methods opened inside encloses formed.2.2

theorem resolveEach_reports : ∀ (stmts : List Stmt) (state : ResolverState)
    (around : Surroundings), state.Reflects around → WellFormedEach stmts →
      (resolveEach stmts state).Reflects (around.afterEach stmts) ∧
        Reports state (resolveEach stmts state) (occurrencesEach around stmts)
  | [], state, around, reflects, _ => by
      rw [resolveEach, occurrencesEach]
      exact ⟨reflects, .refl state⟩
  | first :: rest, state, around, reflects, formed => by
      rw [resolveEach, occurrencesEach]
      rcases resolve_reports first state around reflects formed.1 with ⟨firstReflects, reported⟩
      rcases resolveEach_reports rest _ _ firstReflects formed.2 with ⟨restReflects, restReported⟩
      exact ⟨restReflects, reported.trans restReported⟩

theorem resolveFunction_reports : ∀ (declaration : FunctionDecl) (context : FunctionContext)
    (owner : BodyOwner) (state : ResolverState) (around : Surroundings),
    state.Encloses around → context = Surroundings.functionContext (owner :: around.owners) →
      FunctionWellFormed declaration →
      (resolveFunction context declaration state).Encloses around ∧
        Reports state (resolveFunction context declaration state)
          (functionOccurrences around owner declaration)
  | ⟨name, params, body⟩, context, owner, state, around, encloses, inContext, formed => by
      have scopes := (resolveFunction_walk ⟨name, params, body⟩ context state _ rfl formed).scopes
      rw [resolveFunction] at scopes
      rw [resolveFunction, functionOccurrences]
      rcases formed with ⟨-, paramsPlain, bodyFormed⟩
      rcases ResolverState.params_reports params (encloses.enterBody inContext) paramsPlain with
        ⟨paramsReflect, paramsReported⟩
      rcases resolveEach_reports body _ _ paramsReflect bodyFormed with ⟨inside, reported⟩
      have throughParams : (around.inBody owner).Continues
          ((around.inBody owner).afterParams params) := Continues.afterParams rfl params
      have continues := throughParams.trans (Continues.afterEach throughParams.scope body)
      have classContext := inside.classContext
      rw [continues.classes] at classContext
      exact ⟨encloses.restore inside.toEncloses continues.globals scopes rfl rfl
        (classContext.trans encloses.classContext.symm), (paramsReported.trans reported).congr rfl rfl⟩

theorem resolveMethods_reports : ∀ (methods : List FunctionDecl) (state : ResolverState)
    (around : Surroundings), state.Encloses around → MethodsWellFormed methods →
      (resolveMethods methods state).Encloses around ∧
        Reports state (resolveMethods methods state) (methodOccurrences around methods)
  | [], state, around, encloses, _ => by
      rw [resolveMethods, methodOccurrences]
      exact ⟨encloses, .refl state⟩
  | first :: rest, state, around, encloses, formed => by
      rw [resolveMethods, methodOccurrences]
      rcases resolveFunction_reports first (methodContext first.name) (.method first.name.text)
        state around encloses rfl formed.1 with ⟨firstEncloses, reported⟩
      rcases resolveMethods_reports rest _ around firstEncloses formed.2 with
        ⟨restEncloses, restReported⟩
      exact ⟨restEncloses, reported.trans restReported⟩

end

end Stmt

/-! ## Programs -/

theorem getElem?_foldl_insert (names : List String) (table : NameTable) (other : String) :
    (names.foldl (fun table name => table.insert name .defined) table)[other]? =
      if other ∈ names then some .defined else table[other]? := by
  induction names generalizing table with
  | nil => simp
  | cons first rest inductionHypothesis =>
      rw [List.foldl_cons, inductionHypothesis, Table.getElem?_insert]
      by_cases inRest : other ∈ rest
      · simp [inRest]
      · by_cases same : first = other
        · simp [same]
        · simp [inRest, same, Ne.symm same]

theorem ResolverState.initial_reflects (globals : List String) :
    (ResolverState.initial globals).Reflects (.outermost globals) := by
  refine ⟨⟨rfl, rfl, nofun, ?_, ?_, rfl⟩, .global⟩
  · intro name _
    simp [ResolverState.initial, Surroundings.outermost, Surroundings.locals]
  · intro name
    rw [ResolverState.initial, getElem?_foldl_insert]
    rfl

theorem resolveProgram_reports (globals : List String) {program : List Stmt}
    (formed : Stmt.WellFormedEach program) :
    (resolveProgram globals program).errors = reports (programOccurrences globals program) := by
  have reported := (Stmt.resolveEach_reports program (.initial globals) (.outermost globals)
    (ResolverState.initial_reflects globals) formed).2
  rw [ResolverState.Reports] at reported
  exact reported.trans (List.nil_append _)

theorem reports_eq_nil_iff {occurrences : List Occurrence} :
    reports occurrences = [] ↔ ∀ occurrence ∈ occurrences, ¬ occurrence.IsViolation := by
  simp [reports, Occurrence.isViolation_iff]

/-- None of the occurrences violates a static rule. -/
abbrev Legal (occurrences : List Occurrence) : Prop :=
  ∀ occurrence ∈ occurrences, ¬ occurrence.IsViolation

theorem Session.Accepts.legal {session : Session} {source : String} {program : List Stmt}
    (accepted : session.Accepts source program) :
    Legal (programOccurrences session.machine.globalNames program) := by
  obtain ⟨⟨nextId, reads⟩, clean⟩ := accepted
  rw [resolveProgram_reports _ reads.takes.wellFormed] at clean
  exact reports_eq_nil_iff.mp clean

/-- There is one report for each violation, in the same order. -/
theorem forall₂_reports (occurrences : List Occurrence) :
    List.Forall₂ Occurrence.Violates (occurrences.filter (·.IsViolation))
      (reports occurrences) := by
  induction occurrences with
  | nil => exact .nil
  | cons first rest inductionHypothesis =>
      rw [reports] at inductionHypothesis ⊢
      cases violation : first.violation? with
      | none =>
          have allowed : ¬ first.IsViolation := by simp [Occurrence.isViolation_iff, violation]
          rw [List.filter_cons_of_neg (by simpa using allowed),
            List.filterMap_cons_none violation]
          exact inductionHypothesis
      | some error =>
          have violates := Occurrence.violation?_eq_some_iff.mp violation
          rw [List.filter_cons_of_pos (by simpa using ⟨error, violates⟩),
            List.filterMap_cons_some violation]
          exact .cons violates inductionHypothesis

/-- Resolution accepts a program exactly if nothing in it violates a static rule.
Otherwise it reports each violation once, in the order in which they stand in the
program, and nothing else. -/
theorem resolution_reports_violations {source : String} {firstId nextId : UseId}
    {program : List Stmt} (globals : List String)
    (parsed : parseProgram firstId (scanTokens source) = (.ok program, nextId)) :
    ((resolveProgram globals program).errors = [] ↔
        ∀ occurrence ∈ programOccurrences globals program, ¬ occurrence.IsViolation) ∧
      List.Forall₂ Occurrence.Violates
        ((programOccurrences globals program).filter (·.IsViolation))
        (resolveProgram globals program).errors := by
  have formed := wellFormed_of_parse (scanned_scanTokens _) parsed
  rw [resolveProgram_reports globals formed]
  exact ⟨reports_eq_nil_iff, forall₂_reports _⟩

/-- A class in the initializer of another class, with violations on both sides of
it. -/
def nestedContextsSource : String :=
  "class A \x7b init() \x7b class B < A \x7b m() \x7b return super.m; \x7d \x7d return this; \x7d \x7d return super.m;"

/-- The tree of `nestedContextsSource`. -/
def nestedContextsProgram : List Stmt :=
  [.class_ ⟨"A", 1⟩ none
    [⟨⟨"init", 1⟩, [],
      [.class_ ⟨"B", 1⟩ (some (.var 0 ⟨"A", 1⟩))
        [⟨⟨"m", 1⟩, [], [.return_ 1 (some (.super 1 1 ⟨"m", 1⟩))]⟩],
      .return_ 1 (some (.this 2 1))]⟩],
  .return_ 1 (some (.super 3 1 ⟨"m", 1⟩))]

theorem nestedContextsSource_parsed :
    parseProgram 0 (scanTokens nestedContextsSource) = (.ok nestedContextsProgram, 4) := by
  rw [scanTokens_eq]
  cbv

theorem nestedContexts_violations :
    parseProgram 0 (scanTokens nestedContextsSource) = (.ok nestedContextsProgram, 4) ∧
      List.Forall₂ Occurrence.Violates
        ((programOccurrences [] nestedContextsProgram).filter (·.IsViolation))
        (resolveProgram [] nestedContextsProgram).errors ∧
      (resolveProgram [] nestedContextsProgram).errors.map ResolutionError.fault =
        [.returnValueFromInitializer, .returnOutsideFunction, .superOutsideClass] :=
  ⟨nestedContextsSource_parsed,
    (resolution_reports_violations [] nestedContextsSource_parsed).2, by decide +kernel⟩

end Lox
