import Lox.Proofs.Resolution.Relocation
import Lox.Proofs.Resolution.Violations

/-!
# Programs one after another

Resolution walks over two programs put together as it walks over the first one and
then, with what that declares as further globals, over the second one.
-/

namespace Lox

/-! ## What a program leaves behind -/

namespace Stmt

theorem scopesAfterEach_nil (stmts : List Stmt) : scopesAfterEach stmts [] = [] := by
  induction stmts with
  | nil => rfl
  | cons first rest inductionHypothesis =>
      rw [scopesAfterEach, List.foldl_cons, scopesAfter_nil]
      exact inductionHypothesis

theorem visitsEach_append (scopes : List NameTable) (isInner : Bool) (first second : List Stmt) :
    visitsEach scopes isInner (first ++ second) =
      visitsEach scopes isInner first ++ visitsEach (scopesAfterEach first scopes) isInner second := by
  induction first generalizing scopes with
  | nil => rfl
  | cons stmt rest inductionHypothesis =>
      rw [List.cons_append, visitsEach, inductionHypothesis, visitsEach, List.append_assoc]
      rfl

theorem occurrencesEach_append (around : Surroundings) (first second : List Stmt) :
    occurrencesEach around (first ++ second) =
      occurrencesEach around first ++ occurrencesEach (around.afterEach first) second := by
  induction first generalizing around with
  | nil => rfl
  | cons stmt rest inductionHypothesis =>
      rw [List.cons_append, occurrencesEach, inductionHypothesis, occurrencesEach,
        List.append_assoc]
      rfl

theorem wellFormedEach_append {first second : List Stmt} :
    WellFormedEach (first ++ second) ↔ WellFormedEach first ∧ WellFormedEach second := by
  simp only [wellFormedEach_iff, List.forall_mem_append]

theorem relabelEach_append (use : UseId → UseId) (line : Nat → Nat) (first second : List Stmt) :
    relabelEach use line (first ++ second) =
      relabelEach use line first ++ relabelEach use line second := by
  simp only [relabelEach_eq_map, List.map_append]

theorem declares?_relabel (use : UseId → UseId) (line : Nat → Nat) (stmt : Stmt) :
    (stmt.relabel use line).declares? = stmt.declares?.map (Name.moved line) := by
  cases stmt with
  | if_ condition thenBranch elseBranch =>
      rw [relabel_if]
      rfl
  | function declaration =>
      rcases declaration with ⟨name, params, body⟩
      rw [relabel, relabelFunction]
      rfl
  | _ =>
      rw [relabel]
      rfl

theorem declaredNames_relabel (use : UseId → UseId) (line : Nat → Nat) (program : List Stmt) :
    declaredNames (relabelEach use line program) = declaredNames program := by
  rw [declaredNames, relabelEach_eq_map, List.filterMap_map, declaredNames]
  refine congrArg (List.filterMap · program) (funext fun stmt => ?_)
  rw [Function.comp_apply, declares?_relabel, Option.map_map]
  rfl

end Stmt

/-- Behind a program there are more globals, and nothing else is different. -/
theorem Surroundings.afterEach_outermost (globals : List String) (program : List Stmt) :
    (outermost globals).afterEach program =
      outermost ((Stmt.declaredNames program).reverse ++ globals) := by
  induction program generalizing globals with
  | nil => rfl
  | cons first rest inductionHypothesis =>
      rw [afterEach, List.foldl_cons, after, Stmt.declaredNames, List.filterMap_cons]
      cases declares : first.declares? with
      | none => exact inductionHypothesis globals
      | some name =>
          have declared : (outermost globals).declare name.text =
              outermost (name.text :: globals) := rfl
          simp only [declared, Option.map_some, List.reverse_cons, List.append_assoc,
            List.singleton_append]
          exact inductionHypothesis (name.text :: globals)

/-! ## Violations -/

/-- Of the globals only the names matter. -/
theorem resolveProgram_errors_congr {globals others : List String} {program : List Stmt}
    (formed : Stmt.WellFormedEach program) (same : ∀ name, name ∈ globals ↔ name ∈ others) :
    (resolveProgram globals program).errors = (resolveProgram others program).errors := by
  have reflects : (ResolverState.initial globals).Reflects (.outermost others) := by
    have initially := ResolverState.initial_reflects globals
    refine ⟨⟨initially.functionContext, initially.classContext, initially.defined,
      initially.locals, ?_, initially.initializing⟩, initially.innermost⟩
    intro name
    rw [initially.globals name]
    exact if_congr (same name) rfl rfl
  have reported := (Stmt.resolveEach_reports program _ _ reflects formed).2
  rw [ResolverState.Reports] at reported
  rw [resolveProgram_reports others formed]
  exact reported.trans (List.nil_append _)

variable {globals others : List String} {first second : List Stmt}

/-- Two programs without violations, put together, have none, and the same uses are
found. -/
theorem resolveProgram_append (formed : Stmt.WellFormedEach (first ++ second))
    (known : ∀ name, name ∈ others ↔ name ∈ globals ∨ name ∈ Stmt.declaredNames first)
    (firstClean : (resolveProgram globals first).errors = [])
    (secondClean : (resolveProgram others second).errors = []) :
    (resolveProgram globals (first ++ second)).errors = [] ∧
      (resolveProgram globals (first ++ second)).uses =
        (resolveProgram globals first).uses ++ (resolveProgram others second).uses := by
  rcases Stmt.wellFormedEach_append.mp formed with ⟨firstFormed, secondFormed⟩
  have clean : (resolveProgram globals (first ++ second)).errors = [] := by
    have sameNames : ∀ name, name ∈ (Stmt.declaredNames first).reverse ++ globals ↔
        name ∈ others := by
      intro name
      rw [known, List.mem_append, List.mem_reverse, or_comm]
    have behind := resolveProgram_errors_congr secondFormed sameNames
    rw [secondClean, resolveProgram_reports _ secondFormed, programOccurrences] at behind
    rw [resolveProgram_reports _ firstFormed, programOccurrences] at firstClean
    rw [resolveProgram_reports _ formed, programOccurrences, Stmt.occurrencesEach_append,
      Surroundings.afterEach_outermost, reports, List.filterMap_append]
    rw [reports] at firstClean behind
    rw [firstClean, behind, List.append_nil]
  refine ⟨clean, ?_⟩
  rw [(resolveProgram_visits formed clean).1, (resolveProgram_visits firstFormed firstClean).1,
    (resolveProgram_visits secondFormed secondClean).1, Stmt.visitsEach_append,
    Stmt.scopesAfterEach_nil, List.map_append]

end Lox
