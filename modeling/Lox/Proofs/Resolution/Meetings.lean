import Mathlib.Data.List.Forall2
import Lox.Proofs.Resolution.Walk

/-!
# The states in which resolution meets uses

Each use of a variable together with the state of resolution when it gets there.
These are the visits of `Stmt.visits`, in the same order and with the same scopes.
-/

namespace Lox

/-- The identity, the name and the kind of access of a use of a variable. -/
def Expr.use? : Expr → Option (UseId × String × Access)
  | .var id name => some (id, name.text, .read)
  | .assign id name _ => some (id, name.text, .write)
  | .this id _ => some (id, "this", .read)
  | .super id _ _ => some (id, "super", .read)
  | _ => none

/-- A use of a variable and the state in which resolution meets it. -/
structure Meeting where
  node : Expr
  role : Role
  state : ResolverState

/-! ## Expressions -/

namespace Expr

mutual

/-- The uses that resolution of an expression meets. -/
def meetings (role : Role) : Expr → ResolverState → List Meeting
  | .literal _, _ => []
  | .group inner, state => inner.meetings role state
  | .unary _ operand, state => operand.meetings role state
  | .binary left _ right, state =>
      left.meetings role state ++ right.meetings role (left.resolve state)
  | .logical left _ right, state =>
      left.meetings role state ++ right.meetings role (left.resolve state)
  | .var id name, state => [⟨.var id name, role, state⟩]
  | .assign id name value, state =>
      value.meetings role state ++ [⟨.assign id name value, role, value.resolve state⟩]
  | .call callee _ arguments, state =>
      callee.meetings role state ++ meetingsEach role arguments (callee.resolve state)
  | .get object _, state => object.meetings role state
  | .set object _ value, state =>
      value.meetings role state ++ object.meetings role (value.resolve state)
  | .this id line, state => [⟨.this id line, role, state⟩]
  | .super id line method, state => [⟨.super id line method, role, state⟩]

/-- The uses that resolution of expressions meets. -/
def meetingsEach (role : Role) : List Expr → ResolverState → List Meeting
  | [], _ => []
  | first :: rest, state =>
      first.meetings role state ++ meetingsEach role rest (first.resolve state)

end

/-- The uses that resolution of an optional expression meets. -/
def optionMeetings (role : Role) : Option Expr → ResolverState → List Meeting
  | none, _ => []
  | some value, state => value.meetings role state

end Expr

/-! ## Statements -/

namespace Stmt

mutual

/-- The uses that resolution of a statement meets. -/
def meetings : Stmt → ResolverState → List Meeting
  | .expression value, state => value.meetings .ordinary state
  | .print value, state => value.meetings .ordinary state
  | .var name initializer, state =>
      Expr.optionMeetings (.initializer name.text) initializer (state.declare name)
  | .block body, state => meetingsEach body state.enter
  | .if_ condition thenBranch none, state =>
      condition.meetings .ordinary state ++ thenBranch.meetings (condition.resolve state)
  | .if_ condition thenBranch (some elseBranch), state =>
      condition.meetings .ordinary state ++ thenBranch.meetings (condition.resolve state) ++
        elseBranch.meetings (thenBranch.resolve (condition.resolve state))
  | .while_ condition body, state =>
      condition.meetings .ordinary state ++ body.meetings (condition.resolve state)
  | .function declaration, state =>
      functionMeetings .function declaration (state.introduce declaration.name)
  | .return_ line value, state =>
      Expr.optionMeetings .ordinary value (state.checkReturn line value.isSome)
  | .class_ name none methods, state =>
      let declared := { state with classContext := .plain }.introduce name
      methodMeetings methods (declared.enter.define "this")
  | .class_ name (some superclass) methods, state =>
      let declared := { state with classContext := .plain }.introduce name
      let checked := { declared.checkSuperclass name superclass with classContext := .derived }
      superclass.meetings (.superclass name.text) checked ++
        methodMeetings methods ((declared.enterSuperclass name (some superclass)).enter.define "this")

/-- The uses that resolution of statements meets. -/
def meetingsEach : List Stmt → ResolverState → List Meeting
  | [], _ => []
  | first :: rest, state => first.meetings state ++ meetingsEach rest (first.resolve state)

/-- The uses that resolution of a function meets. -/
def functionMeetings (context : FunctionContext) : FunctionDecl → ResolverState → List Meeting
  | ⟨_, params, body⟩, state =>
      meetingsEach body
        (params.foldl ResolverState.introduce { state with functionContext := context }.enter)

/-- The uses that resolution of methods meets. -/
def methodMeetings : List FunctionDecl → ResolverState → List Meeting
  | [], _ => []
  | first :: rest, state =>
      functionMeetings (methodContext first.name) first state ++
        methodMeetings rest (resolveFunction (methodContext first.name) first state)

end

end Stmt

/-! ## Meetings and visits -/

/-- The meeting is the visit: the same use in the same scopes. -/
structure Meeting.Matches (meeting : Meeting) (visit : Visit) : Prop where
  use : meeting.node.use? = some (visit.id, visit.name, visit.access)
  scopes : meeting.state.scopes = visit.place.scopes
  role : meeting.role = visit.place.role

open List (Forall₂)
open Meeting (Matches)

namespace Expr

/-- Resolution of an expression leaves the scopes alone. -/
theorem resolve_scopes (expr : Expr) (state : ResolverState) (formed : expr.WellFormed) :
    (expr.resolve state).scopes = state.scopes :=
  (expr.resolve_walk state ⟨state.scopes, false, .ordinary⟩ rfl nofun formed).scopes

mutual

theorem meetings_match : ∀ (expr : Expr) (state : ResolverState) (place : Place),
    state.scopes = place.scopes → expr.WellFormed →
      Forall₂ Matches (expr.meetings place.role state) (expr.visits place)
  | .literal _, _, _, _, _ => by
      rw [meetings, visits]
      exact .nil
  | .group inner, state, place, opened, formed => by
      rw [meetings, visits]
      exact meetings_match inner state place opened formed
  | .unary _ operand, state, place, opened, formed => by
      rw [meetings, visits]
      exact meetings_match operand state place opened formed
  | .binary left _ right, state, place, opened, formed => by
      rw [meetings, visits]
      have after := (left.resolve_scopes state formed.1).trans opened
      exact List.rel_append (meetings_match left state place opened formed.1)
        (meetings_match right _ place after formed.2)
  | .logical left _ right, state, place, opened, formed => by
      rw [meetings, visits]
      have after := (left.resolve_scopes state formed.1).trans opened
      exact List.rel_append (meetings_match left state place opened formed.1)
        (meetings_match right _ place after formed.2)
  | .var _ _, _, _, opened, _ => by
      rw [meetings, visits]
      exact .cons ⟨rfl, opened, rfl⟩ .nil
  | .assign _ _ value, state, place, opened, formed => by
      rw [meetings, visits]
      have after := (value.resolve_scopes state formed.2).trans opened
      exact List.rel_append (meetings_match value state place opened formed.2)
        (.cons ⟨rfl, after, rfl⟩ .nil)
  | .call callee _ arguments, state, place, opened, formed => by
      rw [meetings, visits]
      have after := (callee.resolve_scopes state formed.1).trans opened
      exact List.rel_append (meetings_match callee state place opened formed.1)
        (meetingsEach_match arguments _ place after formed.2)
  | .get object _, state, place, opened, formed => by
      rw [meetings, visits]
      exact meetings_match object state place opened formed
  | .set object _ value, state, place, opened, formed => by
      rw [meetings, visits]
      have after := (value.resolve_scopes state formed.2).trans opened
      exact List.rel_append (meetings_match value state place opened formed.2)
        (meetings_match object _ place after formed.1)
  | .this _ _, _, _, opened, _ => by
      rw [meetings, visits]
      exact .cons ⟨rfl, opened, rfl⟩ .nil
  | .super _ _ _, _, _, opened, _ => by
      rw [meetings, visits]
      exact .cons ⟨rfl, opened, rfl⟩ .nil

theorem meetingsEach_match : ∀ (exprs : List Expr) (state : ResolverState) (place : Place),
    state.scopes = place.scopes → WellFormedEach exprs →
      Forall₂ Matches (meetingsEach place.role exprs state) (visitsEach place exprs)
  | [], _, _, _, _ => by
      rw [meetingsEach, visitsEach]
      exact .nil
  | first :: rest, state, place, opened, formed => by
      rw [meetingsEach, visitsEach]
      have after := (first.resolve_scopes state formed.1).trans opened
      exact List.rel_append (meetings_match first state place opened formed.1)
        (meetingsEach_match rest _ place after formed.2)

end

theorem optionMeetings_match (expr : Option Expr) (state : ResolverState) (place : Place)
    (opened : state.scopes = place.scopes) (formed : OptionWellFormed expr) :
    Forall₂ Matches (optionMeetings place.role expr state) (optionVisits place expr) := by
  cases expr with
  | none => exact .nil
  | some value => exact meetings_match value state place opened (formed value rfl)

end Expr

namespace Stmt

open ResolverState (Walk)

/-- The scopes after resolution of a statement are those that the tree says. -/
theorem resolve_scopes (stmt : Stmt) {state : ResolverState} {scopes : List NameTable}
    (opened : state.scopes = scopes) (formed : stmt.WellFormed) :
    (stmt.resolve state).scopes = stmt.scopesAfter scopes :=
  (stmt.resolve_walk state scopes false opened formed).scopes

/-- A superclass is met where the class is introduced, and the methods inside. -/
theorem superclass_match (state : ResolverState) (name : Name) (superclass : Expr)
    (isInner : Bool) (plain : name.IsPlain) (isVariable : superclass.IsVariable) :
    let declared := { state with classContext := .plain }.introduce name
    let checked := { declared.checkSuperclass name superclass with classContext := .derived }
    Forall₂ Matches (superclass.meetings (.superclass name.text) checked)
        (superclass.visits
          ⟨introduceIn name.text state.scopes, isInner, .superclass name.text⟩) ∧
      ((declared.enterSuperclass name (some superclass)).enter.define "this").scopes =
        thisTable :: superTable :: introduceIn name.text state.scopes := by
  rcases ResolverState.introduce_inClass state name .plain plain with ⟨-, declaredScopes, -⟩
  generalize ({ state with classContext := .plain } : ResolverState).introduce name = declared at *
  cases superclass with
  | var id parent =>
      rcases ResolverState.checkSuperclass_records declared name id parent with
        ⟨-, checkedScopes, -⟩
      have opened := checkedScopes.trans declaredScopes
      refine ⟨?_, ?_⟩
      · rw [Expr.meetings, Expr.visits]
        exact .cons ⟨rfl, opened, rfl⟩ .nil
      · rw [ResolverState.enterSuperclass, Expr.resolve]
        have readScopes := (ResolverState.read_scopes
          { declared.checkSuperclass name (.var id parent) with classContext := .derived }
          id parent).1.trans opened
        exact congrArg (thisTable :: superTable :: ·) readScopes
  | _ => exact isVariable.elim

mutual

theorem meetings_match : ∀ (stmt : Stmt) (state : ResolverState) (scopes : List NameTable)
    (isInner : Bool), state.scopes = scopes → stmt.WellFormed →
      Forall₂ Matches (stmt.meetings state) (stmt.visits scopes isInner)
  | .expression value, state, scopes, isInner, opened, formed => by
      rw [meetings, visits]
      exact value.meetings_match state ⟨scopes, isInner, .ordinary⟩ opened formed
  | .print value, state, scopes, isInner, opened, formed => by
      rw [meetings, visits]
      exact value.meetings_match state ⟨scopes, isInner, .ordinary⟩ opened formed
  | .var name initializer, state, scopes, isInner, opened, formed => by
      rw [meetings, visits]
      have declared := ResolverState.declare_scopes state name
      rw [opened] at declared
      exact Expr.optionMeetings_match initializer _
        ⟨declareIn name.text scopes, isInner, .initializer name.text⟩ declared formed.2
  | .block body, state, scopes, isInner, opened, formed => by
      rw [meetings, visits]
      exact meetingsEach_match body state.enter _ isInner (congrArg (∅ :: ·) opened) formed
  | .if_ condition thenBranch none, state, scopes, isInner, opened, formed => by
      rw [meetings, visits]
      rcases formed with ⟨conditionFormed, thenFormed, -⟩
      have tested := (condition.resolve_scopes state conditionFormed).trans opened
      exact List.rel_append
        (condition.meetings_match state ⟨scopes, isInner, .ordinary⟩ opened conditionFormed)
        (meetings_match thenBranch _ scopes isInner tested thenFormed)
  | .if_ condition thenBranch (some elseBranch), state, scopes, isInner, opened, formed => by
      rw [meetings, visits]
      rcases formed with
        ⟨conditionFormed, ⟨thenFormed, thenDeclares⟩, elseFormed, elseDeclares⟩
      have tested := (condition.resolve_scopes state conditionFormed).trans opened
      have taken := thenBranch.resolve_scopes tested thenFormed
      rw [scopesAfter, thenDeclares] at taken
      exact List.rel_append
        (List.rel_append
          (condition.meetings_match state ⟨scopes, isInner, .ordinary⟩ opened conditionFormed)
          (meetings_match thenBranch _ scopes isInner tested thenFormed))
        (meetings_match elseBranch _ scopes isInner taken elseFormed)
  | .while_ condition body, state, scopes, isInner, opened, formed => by
      rw [meetings, visits]
      rcases formed with ⟨conditionFormed, bodyFormed, -⟩
      have tested := (condition.resolve_scopes state conditionFormed).trans opened
      exact List.rel_append
        (condition.meetings_match state ⟨scopes, isInner, .ordinary⟩ opened conditionFormed)
        (meetings_match body _ scopes isInner tested bodyFormed)
  | .function ⟨name, params, body⟩, state, scopes, isInner, opened, formed => by
      rw [meetings, visits]
      exact functionMeetings_match ⟨name, params, body⟩ .function _ _
        (Walk.introduce opened formed.1).scopes formed
  | .return_ line value, state, scopes, isInner, opened, formed => by
      rw [meetings, visits]
      exact Expr.optionMeetings_match value _ ⟨scopes, isInner, .ordinary⟩
        (Walk.checkReturn opened line value.isSome).scopes formed
  | .class_ name none methods, state, scopes, isInner, opened, formed => by
      subst opened
      rw [meetings, visits]
      have declared := (ResolverState.introduce_inClass state name .plain formed.1).2.1
      exact methodMeetings_match methods _ _ (congrArg (thisTable :: ·) declared) formed.2.2
  | .class_ name (some superclass) methods, state, scopes, isInner, opened, formed => by
      subst opened
      rw [meetings, visits]
      rcases superclass_match state name superclass isInner formed.1 (formed.2.1 superclass rfl)
        with ⟨superclassMet, entered⟩
      exact List.rel_append superclassMet
        (methodMeetings_match methods _ _ entered formed.2.2)

theorem meetingsEach_match : ∀ (stmts : List Stmt) (state : ResolverState)
    (scopes : List NameTable) (isInner : Bool), state.scopes = scopes → WellFormedEach stmts →
      Forall₂ Matches (meetingsEach stmts state) (visitsEach scopes isInner stmts)
  | [], _, _, _, _, _ => by
      rw [meetingsEach, visitsEach]
      exact .nil
  | first :: rest, state, scopes, isInner, opened, formed => by
      rw [meetingsEach, visitsEach]
      exact List.rel_append (meetings_match first state scopes isInner opened formed.1)
        (meetingsEach_match rest _ _ isInner (first.resolve_scopes opened formed.1) formed.2)

theorem functionMeetings_match : ∀ (declaration : FunctionDecl) (context : FunctionContext)
    (state : ResolverState) (scopes : List NameTable), state.scopes = scopes →
      FunctionWellFormed declaration →
      Forall₂ Matches (functionMeetings context declaration state)
        (functionVisits scopes declaration)
  | ⟨name, params, body⟩, context, state, scopes, opened, formed => by
      rw [functionMeetings, functionVisits]
      rcases formed with ⟨-, paramsPlain, bodyFormed⟩
      have entered : ({ state with functionContext := context } : ResolverState).enter.scopes =
          ∅ :: scopes := congrArg (∅ :: ·) opened
      exact meetingsEach_match body _ _ true (Walk.params params _ _ entered paramsPlain).scopes
        bodyFormed

theorem methodMeetings_match : ∀ (methods : List FunctionDecl) (state : ResolverState)
    (scopes : List NameTable), state.scopes = scopes → MethodsWellFormed methods →
      Forall₂ Matches (methodMeetings methods state) (methodVisits scopes methods)
  | [], _, _, _, _ => by
      rw [methodMeetings, methodVisits]
      exact .nil
  | first :: rest, state, scopes, opened, formed => by
      rw [methodMeetings, methodVisits]
      have walked := resolveFunction_walk first (methodContext first.name) state scopes opened
        formed.1
      exact List.rel_append (functionMeetings_match first _ state scopes opened formed.1)
        (methodMeetings_match rest _ scopes walked.scopes formed.2)

end

end Stmt

/-- Every visit of a program is met by its resolution. -/
theorem exists_meeting {program : List Stmt} (globals : List String)
    (formed : Stmt.WellFormedEach program) {visit : Visit}
    (visited : visit ∈ Stmt.visitsEach [] false program) :
    ∃ meeting ∈ Stmt.meetingsEach program (.initial globals), meeting.Matches visit := by
  have matched := Stmt.meetingsEach_match program (.initial globals) [] false rfl formed
  generalize Stmt.meetingsEach program (.initial globals) = meetings at matched
  generalize Stmt.visitsEach [] false program = visits at matched visited
  induction matched with
  | nil => cases visited
  | cons isMatch _ inductionHypothesis =>
      rcases List.mem_cons.mp visited with rfl | inRest
      · exact ⟨_, List.mem_cons_self, isMatch⟩
      · rcases inductionHypothesis inRest with ⟨meeting, member, isMatch⟩
        exact ⟨meeting, List.mem_cons_of_mem _ member, isMatch⟩

end Lox
