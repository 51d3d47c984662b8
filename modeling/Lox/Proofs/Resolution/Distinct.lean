import Lox.Proofs.Resolution.Walk

/-!
# Distinct declarations

A program that resolution accepts declares each name at most once in each local
scope, parameters included.
-/

namespace Lox

/-- The innermost of the given scopes does not have the name yet. -/
def NewIn (name : String) : List NameTable → Prop
  | [] => True
  | table :: _ => table[name]? = none

/-- The parameters are new one after another. -/
def ParamsDistinct : List NameTable → List Name → Prop
  | _, [] => True
  | scopes, first :: rest =>
      NewIn first.text scopes ∧ ParamsDistinct (introduceIn first.text scopes) rest

namespace Stmt

mutual

/-- Every local name is new where the statement declares it. -/
def Distinct (scopes : List NameTable) : Stmt → Prop
  | .expression _ => True
  | .print _ => True
  | .var name _ => NewIn name.text scopes
  | .block body => DistinctEach (∅ :: scopes) body
  | .if_ _ thenBranch none => thenBranch.Distinct scopes
  | .if_ _ thenBranch (some elseBranch) =>
      thenBranch.Distinct scopes ∧ elseBranch.Distinct scopes
  | .while_ _ body => body.Distinct scopes
  | .function declaration =>
      NewIn declaration.name.text scopes ∧
        FunctionDistinct (introduceIn declaration.name.text scopes) declaration
  | .return_ _ _ => True
  | .class_ name superclass methods =>
      NewIn name.text scopes ∧
        MethodsDistinct (methodScopes superclass (introduceIn name.text scopes)) methods

/-- Every local name is new where one of the statements declares it. -/
def DistinctEach (scopes : List NameTable) : List Stmt → Prop
  | [] => True
  | first :: rest => first.Distinct scopes ∧ DistinctEach (first.scopesAfter scopes) rest

/-- The parameters of a function and the names its body declares are new. -/
def FunctionDistinct (scopes : List NameTable) : FunctionDecl → Prop
  | ⟨_, params, body⟩ =>
      ParamsDistinct (∅ :: scopes) params ∧ DistinctEach (bodyScopes params scopes) body

/-- So it is in all methods. -/
def MethodsDistinct (scopes : List NameTable) : List FunctionDecl → Prop
  | [] => True
  | first :: rest => FunctionDistinct scopes first ∧ MethodsDistinct scopes rest

end

theorem methodsDistinct_iff {scopes : List NameTable} {methods : List FunctionDecl} :
    MethodsDistinct scopes methods ↔ ∀ method ∈ methods, FunctionDistinct scopes method := by
  induction methods with
  | nil => simp [MethodsDistinct]
  | cons first rest inductionHypothesis => simp [MethodsDistinct, inductionHypothesis]

end Stmt

/-! ## Accepted declarations -/

namespace ResolverState

theorem newIn_of_declare {state : ResolverState} {name : Name} {scopes : List NameTable}
    (opened : state.scopes = scopes)
    (clean : (state.declare name).errors.size = state.errors.size) : NewIn name.text scopes := by
  cases scopes with
  | nil => exact trivial
  | cons table outer =>
      by_cases known : table.contains name.text
      · simp [declare, opened, known, report] at clean
      · rw [Std.TreeMap.contains_eq_isSome_getElem?, Option.not_isSome_iff_eq_none] at known
        exact known

theorem define_errors (state : ResolverState) (name : String) :
    (state.define name).errors = state.errors := by
  unfold define
  split <;> rfl

theorem newIn_of_introduce {state : ResolverState} {name : Name} {scopes : List NameTable}
    (opened : state.scopes = scopes)
    (clean : (state.introduce name).errors.size = state.errors.size) :
    NewIn name.text scopes := by
  apply newIn_of_declare opened
  rw [← clean, introduce, define_errors]

theorem paramsDistinct_of_clean (params : List Name) (state : ResolverState)
    (scopes : List NameTable) (opened : state.scopes = scopes)
    (plain : ∀ param ∈ params, param.IsPlain)
    (clean : (params.foldl introduce state).errors.size = state.errors.size) :
    ParamsDistinct scopes params := by
  induction params generalizing state scopes with
  | nil => exact trivial
  | cons first rest inductionHypothesis =>
      have restPlain : ∀ param ∈ rest, param.IsPlain := fun param member =>
        plain param (List.mem_cons_of_mem _ member)
      have firstWalk := Walk.introduce opened (plain first List.mem_cons_self)
      have restWalk := Walk.params rest _ _ firstWalk.scopes restPlain
      have firstErrors := firstWalk.records.errors
      have restErrors := restWalk.records.errors
      rw [List.foldl_cons] at clean
      refine ⟨newIn_of_introduce opened (by omega), ?_⟩
      exact inductionHypothesis _ _ firstWalk.scopes restPlain (by omega)

/-- Up to the methods of a class, the name is introduced and the superclass read. -/
theorem enterSuperclass_errors (state : ResolverState) (name : Name) {superclass : Option Expr}
    (isVariable : ∀ expr ∈ superclass, expr.IsVariable) :
    state.errors.size ≤ (state.enterSuperclass name superclass).errors.size ∧
      (state.enterSuperclass name superclass).scopes =
        (methodScopes superclass state.scopes).tail := by
  cases superclass with
  | none => exact ⟨Nat.le_refl _, rfl⟩
  | some superclass =>
      have formed := isVariable superclass rfl
      cases superclass with
      | var id parent =>
          rcases checkSuperclass_records state name id parent with ⟨records, scopes, -⟩
          rw [enterSuperclass, Expr.resolve]
          generalize state.checkSuperclass name (.var id parent) = checked at *
          have sameScopes : ({ checked with classContext := .derived } : ResolverState).scopes =
              (⟨checked.scopes, false, .ordinary⟩ : Place).scopes := rfl
          have read := Records.read _ id parent sameScopes
          rcases read_scopes { checked with classContext := .derived } id parent with
            ⟨readScopes, -⟩
          rw [define_errors, define_scopes]
          refine ⟨Nat.le_trans records.errors read.errors, ?_⟩
          change defineIn "super" (∅ :: (ResolverState.read _ id parent).scopes) = _
          rw [readScopes]
          change defineIn "super" (∅ :: checked.scopes) = _
          rw [scopes]
          rfl
      | _ => exact formed.elim

end ResolverState

namespace Stmt

open ResolverState (Walk)

mutual

theorem distinct_of_clean : ∀ (stmt : Stmt) (state : ResolverState) (scopes : List NameTable),
    state.scopes = scopes → stmt.WellFormed →
      (stmt.resolve state).errors.size = state.errors.size → stmt.Distinct scopes
  | .expression _, _, _, _, _, _ => by
      rw [Distinct]
      trivial
  | .print _, _, _, _, _, _ => by
      rw [Distinct]
      trivial
  | .var name initializer, state, scopes, opened, formed, clean => by
      rw [resolve, ResolverState.define_errors] at clean
      rw [Distinct]
      have declared := Walk.declare opened formed.1
      have walked := Expr.resolveOption_walk initializer _
        ⟨declareIn name.text scopes, false, .initializer name.text⟩ declared.scopes nofun formed.2
      have declaredErrors := declared.records.errors
      have walkedErrors := walked.records.errors
      exact ResolverState.newIn_of_declare opened (by omega)
  | .block body, state, scopes, opened, formed, clean => by
      rw [resolve] at clean
      rw [Distinct]
      exact distinctEach_of_clean body state.enter _ (Walk.enter opened).scopes formed clean
  | .if_ condition thenBranch none, state, scopes, opened, formed, clean => by
      rw [resolve] at clean
      rw [Distinct]
      rcases formed with ⟨conditionFormed, thenFormed, -⟩
      have tested := condition.resolve_walk state ⟨scopes, false, .ordinary⟩ opened nofun
        conditionFormed
      have thenWalk := resolve_walk thenBranch _ scopes false tested.scopes thenFormed
      have testedErrors := tested.records.errors
      have thenErrors := thenWalk.records.errors
      exact distinct_of_clean thenBranch _ scopes tested.scopes thenFormed (by omega)
  | .if_ condition thenBranch (some elseBranch), state, scopes, opened, formed, clean => by
      rw [resolve] at clean
      rw [Distinct]
      rcases formed with ⟨conditionFormed, ⟨thenFormed, thenDeclares⟩, elseFormed, -⟩
      have tested := condition.resolve_walk state ⟨scopes, false, .ordinary⟩ opened nofun
        conditionFormed
      have thenWalk := resolve_walk thenBranch _ scopes false tested.scopes thenFormed
      rw [scopesAfter, thenDeclares] at thenWalk
      have elseWalk := resolve_walk elseBranch _ scopes false thenWalk.scopes elseFormed
      have testedErrors := tested.records.errors
      have thenErrors := thenWalk.records.errors
      have elseErrors := elseWalk.records.errors
      refine ⟨?_, ?_⟩
      · exact distinct_of_clean thenBranch _ scopes tested.scopes thenFormed (by omega)
      · exact distinct_of_clean elseBranch _ scopes thenWalk.scopes elseFormed (by omega)
  | .while_ condition body, state, scopes, opened, formed, clean => by
      rw [resolve] at clean
      rw [Distinct]
      rcases formed with ⟨conditionFormed, bodyFormed, -⟩
      have tested := condition.resolve_walk state ⟨scopes, false, .ordinary⟩ opened nofun
        conditionFormed
      have bodyWalk := resolve_walk body _ scopes false tested.scopes bodyFormed
      have testedErrors := tested.records.errors
      have bodyErrors := bodyWalk.records.errors
      exact distinct_of_clean body _ scopes tested.scopes bodyFormed (by omega)
  | .function ⟨name, params, body⟩, state, scopes, opened, formed, clean => by
      rw [resolve] at clean
      rw [Distinct]
      have introduced := Walk.introduce opened formed.1
      have walked :=
        resolveFunction_walk ⟨name, params, body⟩ .function _ _ introduced.scopes formed
      have introducedErrors := introduced.records.errors
      have walkedErrors := walked.records.errors
      dsimp only at clean
      have named : NewIn name.text scopes := ResolverState.newIn_of_introduce opened (by omega)
      refine ⟨named, ?_⟩
      exact functionDistinct_of_clean _ .function _ _ introduced.scopes formed (by omega)
  | .return_ _ _, _, _, _, _, _ => by
      rw [Distinct]
      trivial
  | .class_ name superclass methods, state, scopes, opened, formed, clean => by
      subst opened
      rcases formed with ⟨plain, isVariable, methodsFormed⟩
      rw [Distinct]
      rcases ResolverState.introduce_inClass state name .plain plain with
        ⟨declaredRecords, declaredScopes, -⟩
      have declaredErrors := declaredRecords.errors
      have inClass : ({ state with classContext := .plain } : ResolverState).scopes =
          state.scopes := rfl
      have named : (({ state with classContext := .plain } : ResolverState).introduce
          name).errors.size = state.errors.size → NewIn name.text state.scopes :=
        ResolverState.newIn_of_introduce inClass
      rw [resolve] at clean
      generalize ({ state with classContext := .plain } : ResolverState).introduce name =
        declared at *
      rcases declared.enterSuperclass_errors name isVariable with ⟨enteredErrors, enteredScopes⟩
      generalize declared.enterSuperclass name superclass = entered at *
      have openedScopes : (entered.enter.define "this").scopes =
          methodScopes superclass (introduceIn name.text state.scopes) := by
        rw [ResolverState.define_scopes]
        change defineIn "this" (∅ :: entered.scopes) = _
        rw [enteredScopes, declaredScopes]
        cases superclass <;> rfl
      have walk := resolveMethods_walk methods _ _ openedScopes methodsFormed
      have walkErrors := walk.records.errors
      have openedErrors : (entered.enter.define "this").errors = entered.errors :=
        ResolverState.define_errors _ _
      have cleanMethods :
          (resolveMethods methods (entered.enter.define "this")).errors.size =
            state.errors.size := by
        cases superclass <;> exact clean
      rw [openedErrors] at walkErrors
      refine ⟨named (by omega), ?_⟩
      exact methodsDistinct_of_clean methods _ _ openedScopes methodsFormed
        (by rw [openedErrors]; omega)

theorem distinctEach_of_clean : ∀ (stmts : List Stmt) (state : ResolverState)
    (scopes : List NameTable), state.scopes = scopes → WellFormedEach stmts →
      (resolveEach stmts state).errors.size = state.errors.size → DistinctEach scopes stmts
  | [], _, _, _, _, _ => by
      rw [DistinctEach]
      trivial
  | first :: rest, state, scopes, opened, formed, clean => by
      rw [resolveEach] at clean
      rw [DistinctEach]
      have firstWalk := resolve_walk first state scopes false opened formed.1
      have restWalk := resolveEach_walk rest _ _ false firstWalk.scopes formed.2
      have firstErrors := firstWalk.records.errors
      have restErrors := restWalk.records.errors
      refine ⟨?_, ?_⟩
      · exact distinct_of_clean first state scopes opened formed.1 (by omega)
      · exact distinctEach_of_clean rest _ _ firstWalk.scopes formed.2 (by omega)

theorem functionDistinct_of_clean : ∀ (declaration : FunctionDecl) (context : FunctionContext)
    (state : ResolverState) (scopes : List NameTable), state.scopes = scopes →
      FunctionWellFormed declaration →
      (resolveFunction context declaration state).errors.size = state.errors.size →
      FunctionDistinct scopes declaration
  | ⟨name, params, body⟩, context, state, scopes, opened, formed, clean => by
      subst opened
      rw [resolveFunction] at clean
      rw [FunctionDistinct]
      rcases formed with ⟨-, paramsPlain, bodyFormed⟩
      have inContext : ({ state with functionContext := context } : ResolverState).scopes =
          state.scopes := rfl
      have entered := Walk.enter inContext
      have paramsWalk := Walk.params params _ _ entered.scopes paramsPlain
      have bodyWalk := resolveEach_walk body _ _ true paramsWalk.scopes bodyFormed
      have paramsErrors := paramsWalk.records.errors
      have bodyErrors := bodyWalk.records.errors
      change (resolveEach body (params.foldl ResolverState.introduce
        ({ state with functionContext := context } : ResolverState).enter)).errors.size =
          state.errors.size at clean
      change state.errors.size ≤ _ at paramsErrors
      refine ⟨?_, ?_⟩
      · exact ResolverState.paramsDistinct_of_clean params _ _ entered.scopes paramsPlain
          (show _ = state.errors.size by omega)
      · exact distinctEach_of_clean body _ _ paramsWalk.scopes bodyFormed (by omega)

theorem methodsDistinct_of_clean : ∀ (methods : List FunctionDecl) (state : ResolverState)
    (scopes : List NameTable), state.scopes = scopes → MethodsWellFormed methods →
      (resolveMethods methods state).errors.size = state.errors.size →
      MethodsDistinct scopes methods
  | [], _, _, _, _, _ => by
      rw [MethodsDistinct]
      trivial
  | first :: rest, state, scopes, opened, formed, clean => by
      rw [resolveMethods] at clean
      rw [MethodsDistinct]
      have firstWalk :=
        resolveFunction_walk first (methodContext first.name) state scopes opened formed.1
      have restWalk := resolveMethods_walk rest _ scopes firstWalk.scopes formed.2
      have firstErrors := firstWalk.records.errors
      have restErrors := restWalk.records.errors
      refine ⟨?_, ?_⟩
      · exact functionDistinct_of_clean first (methodContext first.name) state scopes opened
          formed.1 (by omega)
      · exact methodsDistinct_of_clean rest _ scopes firstWalk.scopes formed.2 (by omega)

end

end Stmt

/-- In an accepted program every local name is new where it is declared. -/
theorem resolveProgram_distinct {globals : List String} {program : List Stmt}
    (formed : Stmt.WellFormedEach program)
    (clean : (resolveProgram globals program).errors = []) : Stmt.DistinctEach [] program := by
  apply Stmt.distinctEach_of_clean program (.initial globals) [] rfl formed
  have empty : (Stmt.resolveEach program (.initial globals)).errors.toList = [] := clean
  rw [← Array.length_toList, empty]
  rfl

end Lox
