import Lox.Resolution
import Lox.Proofs.Syntax.Relabel

/-!
# Resolving relabelled trees

Resolution looks neither at lines nor at identities.  In a tree with other lines and
identities it finds the same distances under the other identities, and reports the
same violations on the other lines.
-/

namespace Lox

/-- What was found for a use with another identity. -/
def Use.relabel (use : UseId → UseId) (found : Use) : Use :=
  { found with id := use found.id }

/-- A violation on another line. -/
def ResolutionError.moved (line : Nat → Nat) (error : ResolutionError) : ResolutionError :=
  { error with name := error.name.moved line }

namespace ResolverState

variable (use : UseId → UseId) (line : Nat → Nat)

/-- The state after the walk over a relabelled tree. -/
def relabel (state : ResolverState) : ResolverState :=
  { state with
    uses := state.uses.map (Use.relabel use)
    errors := state.errors.map (ResolutionError.moved line) }

theorem relabel_report (state : ResolverState) (name : Name) (fault : ResolutionFault) :
    (state.report name fault).relabel use line =
      (state.relabel use line).report (name.moved line) fault := by
  simp [relabel, report, ResolutionError.moved]

theorem relabel_use (state : ResolverState) (id : UseId) (name : String) (access : Access) :
    (state.use id name access).relabel use line =
      (state.relabel use line).use (use id) name access := by
  simp [relabel, ResolverState.use, Use.relabel]

theorem relabel_declare (state : ResolverState) (name : Name) :
    (state.declare name).relabel use line =
      (state.relabel use line).declare (name.moved line) := by
  have scopes : (state.relabel use line).scopes = state.scopes := rfl
  unfold declare
  rw [scopes]
  cases state.scopes with
  | nil => rfl
  | cons scope outer =>
      by_cases contained : scope.contains name.text
      · have containedMoved : scope.contains (name.moved line).text := contained
        simp only [if_pos contained, if_pos containedMoved]
        exact relabel_report use line state name .alreadyDeclared
      · have freeMoved : ¬ scope.contains (name.moved line).text := contained
        simp only [if_neg contained, if_neg freeMoved]
        rfl

theorem relabel_define (state : ResolverState) (name : String) :
    (state.define name).relabel use line = (state.relabel use line).define name := by
  have scopes : (state.relabel use line).scopes = state.scopes := rfl
  unfold define
  rw [scopes]
  cases state.scopes <;> rfl

theorem relabel_introduce (state : ResolverState) (name : Name) :
    (state.introduce name).relabel use line =
      (state.relabel use line).introduce (name.moved line) := by
  rw [introduce, relabel_define, relabel_declare, introduce, Name.moved_text]

theorem relabel_read (state : ResolverState) (id : UseId) (name : Name) :
    (state.read id name).relabel use line =
      (state.relabel use line).read (use id) (name.moved line) := by
  have sameReadable : (state.relabel use line).globalReadable name.text =
      state.globalReadable name.text := rfl
  have scopes : (state.relabel use line).scopes = state.scopes := rfl
  unfold read
  by_cases readable : ((distance? name.text .read state.scopes).isSome ||
      state.globalReadable name.text) = true
  · simp only [Name.moved_text, scopes, sameReadable, if_pos readable, ← relabel_use]
  · simp only [Name.moved_text, scopes, sameReadable, if_neg readable, ← relabel_use]
    exact relabel_report use line _ name .readInOwnInitializer

theorem relabel_checkReturn (state : ResolverState) (keyword : Nat) (hasValue : Bool) :
    (state.checkReturn keyword hasValue).relabel use line =
      (state.relabel use line).checkReturn (line keyword) hasValue := by
  have context : (state.relabel use line).functionContext = state.functionContext := rfl
  unfold checkReturn
  dsimp only
  rw [context]
  cases state.functionContext with
  | outside => exact relabel_report use line state ⟨"return", keyword⟩ .returnOutsideFunction
  | initializer =>
      cases hasValue with
      | false => rfl
      | true => exact relabel_report use line state ⟨"return", keyword⟩ .returnValueFromInitializer
  | _ => rfl

theorem relabel_checkSuperclass (state : ResolverState) (name : Name) (superclass : Expr) :
    (state.checkSuperclass name superclass).relabel use line =
      (state.relabel use line).checkSuperclass (name.moved line)
        (superclass.relabel use line) := by
  cases superclass with
  | var id parent =>
      rw [Expr.relabel, checkSuperclass, checkSuperclass, Name.moved_text, Name.moved_text]
      split
      · exact relabel_report use line state parent .inheritsFromItself
      · rfl
  | _ =>
      rw [Expr.relabel]
      rfl

theorem relabel_params (params : List Name) (state : ResolverState) :
    (params.foldl introduce state).relabel use line =
      (params.map (Name.moved line)).foldl introduce (state.relabel use line) := by
  induction params generalizing state with
  | nil => rfl
  | cons first rest inductionHypothesis =>
      rw [List.foldl_cons, inductionHypothesis, relabel_introduce, List.map_cons, List.foldl_cons]

theorem relabel_leaveSuperclass (state : ResolverState) (superclass : Option Expr) :
    (state.leaveSuperclass superclass).relabel use line =
      (state.relabel use line).leaveSuperclass (superclass.map (·.relabel use line)) := by
  cases superclass <;> rfl

end ResolverState

open ResolverState (relabel_report relabel_use relabel_read)

namespace Expr

variable (use : UseId → UseId) (line : Nat → Nat)

mutual

theorem resolve_relabel : ∀ (expr : Expr) (state : ResolverState),
    (expr.relabel use line).resolve (state.relabel use line) =
      (expr.resolve state).relabel use line
  | .literal _, state => by
      rw [relabel, resolve, resolve]
  | .group inner, state => by
      rw [relabel, resolve, resolve, resolve_relabel inner]
  | .unary _ operand, state => by
      rw [relabel, resolve, resolve, resolve_relabel operand]
  | .binary left _ right, state => by
      rw [relabel, resolve, resolve, resolve_relabel left, resolve_relabel right]
  | .logical left _ right, state => by
      rw [relabel, resolve, resolve, resolve_relabel left, resolve_relabel right]
  | .var id name, state => by
      rw [relabel, resolve, resolve, relabel_read]
  | .assign id name value, state => by
      rw [relabel, resolve, resolve, resolve_relabel value, relabel_use, Name.moved_text]
  | .call callee _ arguments, state => by
      rw [relabel, resolve, resolve, resolve_relabel callee, resolveEach_relabel arguments]
  | .get object _, state => by
      rw [relabel, resolve, resolve, resolve_relabel object]
  | .set object _ value, state => by
      rw [relabel, resolve, resolve, resolve_relabel value, resolve_relabel object]
  | .this id keyword, state => by
      have context : (state.relabel use line).classContext = state.classContext := rfl
      rw [relabel, resolve, resolve, context]
      split
      · exact (relabel_report use line state ⟨"this", keyword⟩ .thisOutsideClass).symm
      · exact (relabel_use use line state id "this" .read).symm
  | .super id keyword method, state => by
      have context : (state.relabel use line).classContext = state.classContext := rfl
      rw [relabel, resolve, resolve, context]
      cases state.classContext with
      | outside => exact (relabel_report use line state ⟨"super", keyword⟩ .superOutsideClass).symm
      | plain => exact (relabel_report use line state ⟨"super", keyword⟩ .superWithoutSuperclass).symm
      | derived => exact (relabel_use use line state id "super" .read).symm

theorem resolveEach_relabel : ∀ (exprs : List Expr) (state : ResolverState),
    resolveEach (relabelEach use line exprs) (state.relabel use line) =
      (resolveEach exprs state).relabel use line
  | [], state => by
      rw [relabelEach, resolveEach, resolveEach]
  | first :: rest, state => by
      rw [relabelEach, resolveEach, resolveEach, resolve_relabel first, resolveEach_relabel rest]

end

theorem resolveOption_relabel (expr : Option Expr) (state : ResolverState) :
    resolveOption (expr.map (·.relabel use line)) (state.relabel use line) =
      (resolveOption expr state).relabel use line := by
  cases expr with
  | none => rfl
  | some value => exact resolve_relabel use line value state

end Expr

namespace ResolverState

theorem relabel_enterSuperclass (use : UseId → UseId) (line : Nat → Nat) (state : ResolverState)
    (name : Name) (superclass : Option Expr) :
    (state.enterSuperclass name superclass).relabel use line =
      (state.relabel use line).enterSuperclass (name.moved line)
        (superclass.map (·.relabel use line)) := by
  cases superclass with
  | none => rfl
  | some superclass =>
      rw [Option.map_some, enterSuperclass, enterSuperclass, relabel_define]
      have checked := relabel_checkSuperclass use line state name superclass
      generalize state.checkSuperclass name superclass = opened at checked ⊢
      rw [← checked]
      have resolved := superclass.resolve_relabel use line { opened with classContext := .derived }
      exact congrArg (fun walked => (enter walked).define "super") resolved.symm

end ResolverState

namespace Stmt

variable (use : UseId → UseId) (line : Nat → Nat)

mutual

theorem resolve_relabel : ∀ (stmt : Stmt) (state : ResolverState),
    (stmt.relabel use line).resolve (state.relabel use line) =
      (stmt.resolve state).relabel use line
  | .expression value, state => by
      rw [relabel, resolve, resolve, value.resolve_relabel]
  | .print value, state => by
      rw [relabel, resolve, resolve, value.resolve_relabel]
  | .var name initializer, state => by
      rw [relabel, resolve, resolve, ← ResolverState.relabel_declare,
        Expr.resolveOption_relabel, ResolverState.relabel_define, Name.moved_text]
  | .block body, state => by
      rw [relabel, resolve, resolve]
      exact congrArg ResolverState.leave (resolveEach_relabel body state.enter)
  | .if_ condition thenBranch none, state => by
      rw [relabel, resolve, resolve, condition.resolve_relabel, resolve_relabel thenBranch]
  | .if_ condition thenBranch (some elseBranch), state => by
      rw [relabel, resolve, resolve, condition.resolve_relabel, resolve_relabel thenBranch,
        resolve_relabel elseBranch]
  | .while_ condition body, state => by
      rw [relabel, resolve, resolve, condition.resolve_relabel, resolve_relabel body]
  | .function ⟨name, params, body⟩, state => by
      rw [relabel, resolve, resolve]
      have introduced := ResolverState.relabel_introduce use line state name
      have walked := resolveFunction_relabel .function ⟨name, params, body⟩ (state.introduce name)
      rw [introduced] at walked
      exact walked
  | .return_ keyword value, state => by
      rw [relabel, resolve, resolve, Option.isSome_map, ← ResolverState.relabel_checkReturn,
        Expr.resolveOption_relabel]
  | .class_ name superclass methods, state => by
      rw [relabel, resolve, resolve]
      have declared := ResolverState.relabel_introduce use line
        { state with classContext := .plain } name
      generalize ({ state with classContext := .plain } : ResolverState).introduce name = opened
        at declared ⊢
      have entered := ResolverState.relabel_enterSuperclass use line opened name superclass
      rw [declared] at entered
      generalize opened.enterSuperclass name superclass = inClass at entered ⊢
      have bound := ResolverState.relabel_define use line inClass.enter "this"
      have walked := resolveMethods_relabel methods (inClass.enter.define "this")
      rw [bound] at walked
      have left := ResolverState.relabel_leaveSuperclass use line
        (resolveMethods methods (inClass.enter.define "this")).leave superclass
      have same : ((resolveMethods (relabelMethods use line methods)
          ((inClass.relabel use line).enter.define "this")).leave).leaveSuperclass
          (superclass.map (·.relabel use line)) =
          (((resolveMethods methods (inClass.enter.define "this")).leave).leaveSuperclass
            superclass).relabel use line := by
        rw [left]
        exact congrArg (fun walked => (ResolverState.leave walked).leaveSuperclass _) walked
      rw [entered] at same
      exact congrArg (fun walked : ResolverState =>
        { walked with classContext := state.classContext }) same

theorem resolveEach_relabel : ∀ (stmts : List Stmt) (state : ResolverState),
    resolveEach (relabelEach use line stmts) (state.relabel use line) =
      (resolveEach stmts state).relabel use line
  | [], state => by
      rw [relabelEach, resolveEach, resolveEach]
  | first :: rest, state => by
      rw [relabelEach, resolveEach, resolveEach, resolve_relabel first, resolveEach_relabel rest]

theorem resolveFunction_relabel : ∀ (context : FunctionContext) (declaration : FunctionDecl)
    (state : ResolverState),
    resolveFunction context (relabelFunction use line declaration) (state.relabel use line) =
      (resolveFunction context declaration state).relabel use line
  | context, ⟨name, params, body⟩, state => by
      rw [relabelFunction, resolveFunction, resolveFunction]
      have opened := ResolverState.relabel_params use line params
        ({ state with functionContext := context } : ResolverState).enter
      have walked := resolveEach_relabel body (params.foldl ResolverState.introduce
        ({ state with functionContext := context } : ResolverState).enter)
      rw [opened] at walked
      exact congrArg (fun walked : ResolverState =>
        { walked.leave with functionContext := state.functionContext }) walked

theorem resolveMethods_relabel : ∀ (methods : List FunctionDecl) (state : ResolverState),
    resolveMethods (relabelMethods use line methods) (state.relabel use line) =
      (resolveMethods methods state).relabel use line
  | [], state => by
      rw [relabelMethods, resolveMethods, resolveMethods]
  | ⟨name, params, body⟩ :: rest, state => by
      rw [relabelMethods, resolveMethods, resolveMethods]
      have first := resolveFunction_relabel (methodContext name) ⟨name, params, body⟩ state
      have later := resolveMethods_relabel rest
        (resolveFunction (methodContext name) ⟨name, params, body⟩ state)
      rw [← first] at later
      exact later

end

end Stmt

/-- In a relabelled program resolution finds and reports the same. -/
theorem resolveProgram_relabel (use : UseId → UseId) (line : Nat → Nat) (globals : List String)
    (program : List Stmt) :
    resolveProgram globals (Stmt.relabelEach use line program) =
      { uses := (resolveProgram globals program).uses.map (Use.relabel use)
        errors := (resolveProgram globals program).errors.map (ResolutionError.moved line) } := by
  have walked := Stmt.resolveEach_relabel use line program (.initial globals)
  have start : (ResolverState.initial globals).relabel use line = .initial globals := by
    simp [ResolverState.relabel, ResolverState.initial]
  rw [start] at walked
  rw [resolveProgram, resolveProgram, walked]
  simp [ResolverState.relabel]

end Lox
