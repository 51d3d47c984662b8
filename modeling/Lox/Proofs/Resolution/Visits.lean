import Lox.Resolution
import Lox.Proofs.Syntax.Ids
import Lox.Proofs.Syntax.WellFormed

/-!
# Visits of resolution

Resolution visits every use of a variable once.  A visit says which scopes are
open at that moment, whether the use stands in a function body, and whether it
belongs to a variable or a class that is just being declared.  The visits of a program
depend on its tree only; `resolveEach_walk` says that they are what resolution
records.
-/

namespace Lox

/-! ## Scopes alone -/

/-- Declare a name in the innermost of the given scopes. -/
def declareIn (name : String) : List NameTable → List NameTable
  | [] => []
  | scope :: outer =>
      if scope.contains name then scope :: outer else scope.insert name .declared :: outer

/-- Define a name in the innermost of the given scopes. -/
def defineIn (name : String) : List NameTable → List NameTable
  | [] => []
  | scope :: outer => scope.insert name .defined :: outer

/-- Declare a name and define it at once. -/
def introduceIn (name : String) (scopes : List NameTable) : List NameTable :=
  defineIn name (declareIn name scopes)

/-- The scope around the methods of a class. -/
def thisTable : NameTable :=
  (∅ : NameTable).insert "this" .defined

/-- The scope around the methods of a class with a superclass. -/
def superTable : NameTable :=
  (∅ : NameTable).insert "super" .defined

/-- The scopes around the methods of a class that is declared in the given ones. -/
def methodScopes (superclass : Option Expr) (scopes : List NameTable) : List NameTable :=
  match superclass with
  | none => thisTable :: scopes
  | some _ => thisTable :: superTable :: scopes

/-- The scopes in which the body of a function starts. -/
def bodyScopes (params : List Name) (scopes : List NameTable) : List NameTable :=
  params.foldl (fun opened param => introduceIn param.text opened) (∅ :: scopes)

/-- The scopes behind a statement. -/
def Stmt.scopesAfter (stmt : Stmt) (scopes : List NameTable) : List NameTable :=
  match stmt.declares? with
  | none => scopes
  | some name => introduceIn name.text scopes

/-- The scopes behind statements. -/
def Stmt.scopesAfterEach (stmts : List Stmt) (scopes : List NameTable) : List NameTable :=
  stmts.foldl (fun opened stmt => stmt.scopesAfter opened) scopes

@[simp]
theorem tail_introduceIn (name : String) (scopes : List NameTable) :
    (introduceIn name scopes).tail = scopes.tail := by
  cases scopes with
  | nil => rfl
  | cons scope outer =>
      rw [introduceIn, declareIn]
      split <;> rfl

theorem Stmt.tail_scopesAfter (stmt : Stmt) (scopes : List NameTable) :
    (stmt.scopesAfter scopes).tail = scopes.tail := by
  unfold scopesAfter
  split
  · rfl
  · exact tail_introduceIn _ _

theorem Stmt.scopesAfter_nil (stmt : Stmt) : stmt.scopesAfter [] = [] := by
  unfold scopesAfter
  split
  · rfl
  · rfl

theorem Stmt.tail_scopesAfterEach (stmts : List Stmt) (scopes : List NameTable) :
    (scopesAfterEach stmts scopes).tail = scopes.tail := by
  induction stmts generalizing scopes with
  | nil => rfl
  | cons first rest inductionHypothesis =>
      exact (inductionHypothesis (first.scopesAfter scopes)).trans
        (first.tail_scopesAfter scopes)

theorem tail_foldl_introduceIn (params : List Name) (scopes : List NameTable) :
    (params.foldl (fun opened param => introduceIn param.text opened) scopes).tail =
      scopes.tail := by
  induction params generalizing scopes with
  | nil => rfl
  | cons first rest inductionHypothesis =>
      exact (inductionHypothesis (introduceIn first.text scopes)).trans (tail_introduceIn _ _)

/-! ## Visits -/

/-- What an expression is to the statement that it stands in. -/
inductive Role where
  | ordinary
  /-- The value of a variable that is just being declared. -/
  | initializer (name : String)
  /-- The superclass of a class that is just being declared. -/
  | superclass (name : String)
  deriving DecidableEq, Repr

/-- Where resolution is. -/
structure Place where
  /-- The names of the open local scopes, the innermost first. -/
  scopes : List NameTable
  /-- Whether the place is in a function body. -/
  isInner : Bool
  role : Role

/-- A use of a variable at a place. -/
structure Visit where
  id : UseId
  name : String
  access : Access
  place : Place

namespace Visit

/-- What resolution finds at a visit. -/
def use (visit : Visit) : Use where
  id := visit.id
  name := visit.name
  distance := ResolverState.distance? visit.name visit.access visit.place.scopes

end Visit

namespace Expr

mutual

/-- The visits of an expression at a place. -/
def visits (place : Place) : Expr → List Visit
  | .literal _ => []
  | .group inner => inner.visits place
  | .unary _ operand => operand.visits place
  | .binary left _ right => left.visits place ++ right.visits place
  | .logical left _ right => left.visits place ++ right.visits place
  | .var id name => [⟨id, name.text, .read, place⟩]
  | .assign id name value => value.visits place ++ [⟨id, name.text, .write, place⟩]
  | .call callee _ arguments => callee.visits place ++ visitsEach place arguments
  | .get object _ => object.visits place
  | .set object _ value => value.visits place ++ object.visits place
  | .this id _ => [⟨id, "this", .read, place⟩]
  | .super id _ _ => [⟨id, "super", .read, place⟩]

/-- The visits of expressions from left to right. -/
def visitsEach (place : Place) : List Expr → List Visit
  | [] => []
  | first :: rest => first.visits place ++ visitsEach place rest

end

/-- The visits of an optional expression. -/
def optionVisits (place : Place) : Option Expr → List Visit
  | none => []
  | some value => value.visits place

end Expr

namespace Stmt

mutual

/-- The visits of a statement in the given scopes. -/
def visits (scopes : List NameTable) (isInner : Bool) : Stmt → List Visit
  | .expression value => value.visits ⟨scopes, isInner, .ordinary⟩
  | .print value => value.visits ⟨scopes, isInner, .ordinary⟩
  | .var name initializer =>
      Expr.optionVisits ⟨declareIn name.text scopes, isInner, .initializer name.text⟩ initializer
  | .block body => visitsEach (∅ :: scopes) isInner body
  | .if_ condition thenBranch none =>
      condition.visits ⟨scopes, isInner, .ordinary⟩ ++ thenBranch.visits scopes isInner
  | .if_ condition thenBranch (some elseBranch) =>
      condition.visits ⟨scopes, isInner, .ordinary⟩ ++ thenBranch.visits scopes isInner ++
        elseBranch.visits scopes isInner
  | .while_ condition body =>
      condition.visits ⟨scopes, isInner, .ordinary⟩ ++ body.visits scopes isInner
  | .function declaration =>
      functionVisits (introduceIn declaration.name.text scopes) declaration
  | .return_ _ value => Expr.optionVisits ⟨scopes, isInner, .ordinary⟩ value
  | .class_ name superclass methods =>
      Expr.optionVisits ⟨introduceIn name.text scopes, isInner, .superclass name.text⟩ superclass ++
        methodVisits (methodScopes superclass (introduceIn name.text scopes)) methods

/-- The visits of statements from first to last. -/
def visitsEach (scopes : List NameTable) (isInner : Bool) : List Stmt → List Visit
  | [] => []
  | first :: rest =>
      first.visits scopes isInner ++ visitsEach (first.scopesAfter scopes) isInner rest

/-- The visits of the body of a function that is declared in the given scopes. -/
def functionVisits (scopes : List NameTable) : FunctionDecl → List Visit
  | ⟨_, params, body⟩ => visitsEach (bodyScopes params scopes) true body

/-- The visits of the bodies of methods from first to last. -/
def methodVisits (scopes : List NameTable) : List FunctionDecl → List Visit
  | [] => []
  | first :: rest => functionVisits scopes first ++ methodVisits scopes rest

end

end Stmt

theorem Stmt.mem_methodVisits {scopes : List NameTable} {methods : List FunctionDecl}
    {declaration : FunctionDecl} (member : declaration ∈ methods) {visit : Visit}
    (visited : visit ∈ functionVisits scopes declaration) :
    visit ∈ methodVisits scopes methods := by
  induction methods with
  | nil => cases member
  | cons first rest inductionHypothesis =>
      rw [methodVisits, List.mem_append]
      rcases List.mem_cons.mp member with rfl | inRest
      · exact .inl visited
      · exact .inr (inductionHypothesis inRest)

/-! ## The identities of visits -/

namespace Expr

mutual

/-- The visits of an expression are its uses, in another order. -/
theorem count_visits : ∀ (place : Place) (expr : Expr) (id : UseId),
    ((expr.visits place).map Visit.id).count id = expr.uses.count id
  | _, .literal _, _ => by simp [visits, uses]
  | place, .group inner, id => by
      rw [visits, uses]
      exact count_visits place inner id
  | place, .unary _ operand, id => by
      rw [visits, uses]
      exact count_visits place operand id
  | place, .binary left _ right, id => by
      rw [visits, uses, List.map_append, List.count_append, List.count_append,
        count_visits place left, count_visits place right]
  | place, .logical left _ right, id => by
      rw [visits, uses, List.map_append, List.count_append, List.count_append,
        count_visits place left, count_visits place right]
  | _, .var _ _, _ => by simp [visits, uses]
  | place, .assign _ _ value, id => by
      rw [visits, uses, List.map_append, List.count_append, count_visits place value,
        List.count_cons, List.map_cons, List.map_nil, List.count_singleton]
  | place, .call callee _ arguments, id => by
      rw [visits, uses, List.map_append, List.count_append, List.count_append,
        count_visits place callee, count_visitsEach place arguments]
  | place, .get object _, id => by
      rw [visits, uses]
      exact count_visits place object id
  | place, .set object _ value, id => by
      rw [visits, uses, List.map_append, List.count_append, List.count_append,
        count_visits place value, count_visits place object, Nat.add_comm]
  | _, .this _ _, _ => by simp [visits, uses]
  | _, .super _ _ _, _ => by simp [visits, uses]

theorem count_visitsEach : ∀ (place : Place) (exprs : List Expr) (id : UseId),
    ((visitsEach place exprs).map Visit.id).count id = (usesEach exprs).count id
  | _, [], _ => by simp [visitsEach, usesEach]
  | place, first :: rest, id => by
      rw [visitsEach, usesEach, List.map_append, List.count_append, List.count_append,
        count_visits place first, count_visitsEach place rest]

end

theorem count_optionVisits (place : Place) (expr : Option Expr) (id : UseId) :
    ((optionVisits place expr).map Visit.id).count id = (optionUses expr).count id := by
  cases expr with
  | none => rfl
  | some value => exact count_visits place value id

mutual

/-- All visits of an expression are at its place. -/
theorem place_of_mem_visits : ∀ (place : Place) (expr : Expr) {visit : Visit},
    visit ∈ expr.visits place → visit.place = place
  | _, .literal _, _, member => by simp [visits] at member
  | place, .group inner, _, member => by
      rw [visits] at member
      exact place_of_mem_visits place inner member
  | place, .unary _ operand, _, member => by
      rw [visits] at member
      exact place_of_mem_visits place operand member
  | place, .binary left _ right, _, member => by
      rw [visits, List.mem_append] at member
      rcases member with inLeft | inRight
      · exact place_of_mem_visits place left inLeft
      · exact place_of_mem_visits place right inRight
  | place, .logical left _ right, _, member => by
      rw [visits, List.mem_append] at member
      rcases member with inLeft | inRight
      · exact place_of_mem_visits place left inLeft
      · exact place_of_mem_visits place right inRight
  | _, .var _ _, _, member => by
      rw [visits] at member
      rw [List.mem_singleton.mp member]
  | place, .assign _ _ value, _, member => by
      rw [visits, List.mem_append] at member
      rcases member with inValue | inTarget
      · exact place_of_mem_visits place value inValue
      · rw [List.mem_singleton.mp inTarget]
  | place, .call callee _ arguments, _, member => by
      rw [visits, List.mem_append] at member
      rcases member with inCallee | inArguments
      · exact place_of_mem_visits place callee inCallee
      · exact place_of_mem_visitsEach place arguments inArguments
  | place, .get object _, _, member => by
      rw [visits] at member
      exact place_of_mem_visits place object member
  | place, .set object _ value, _, member => by
      rw [visits, List.mem_append] at member
      rcases member with inValue | inObject
      · exact place_of_mem_visits place value inValue
      · exact place_of_mem_visits place object inObject
  | _, .this _ _, _, member => by
      rw [visits] at member
      rw [List.mem_singleton.mp member]
  | _, .super _ _ _, _, member => by
      rw [visits] at member
      rw [List.mem_singleton.mp member]

theorem place_of_mem_visitsEach : ∀ (place : Place) (exprs : List Expr) {visit : Visit},
    visit ∈ visitsEach place exprs → visit.place = place
  | _, [], _, member => by simp [visitsEach] at member
  | place, first :: rest, _, member => by
      rw [visitsEach, List.mem_append] at member
      rcases member with inFirst | inRest
      · exact place_of_mem_visits place first inFirst
      · exact place_of_mem_visitsEach place rest inRest

end

theorem place_of_mem_optionVisits {place : Place} {expr : Option Expr} {visit : Visit}
    (member : visit ∈ optionVisits place expr) : visit.place = place := by
  cases expr with
  | none => cases member
  | some value => exact place_of_mem_visits place value member

end Expr

namespace Stmt

mutual

/-- The visits of a statement are its uses, in another order. -/
theorem count_visits : ∀ (scopes : List NameTable) (isInner : Bool) (stmt : Stmt) (id : UseId),
    ((stmt.visits scopes isInner).map Visit.id).count id = stmt.ids.count id
  | scopes, isInner, .expression value, id => by
      rw [visits, ids]
      exact Expr.count_visits _ value id
  | scopes, isInner, .print value, id => by
      rw [visits, ids]
      exact Expr.count_visits _ value id
  | scopes, isInner, .var _ initializer, id => by
      rw [visits, ids]
      exact Expr.count_optionVisits _ initializer id
  | scopes, isInner, .block body, id => by
      rw [visits, ids]
      exact count_visitsEach _ isInner body id
  | scopes, isInner, .if_ condition thenBranch none, id => by
      rw [visits, ids, List.map_append, List.count_append, List.count_append,
        Expr.count_visits, count_visits scopes isInner thenBranch]
  | scopes, isInner, .if_ condition thenBranch (some elseBranch), id => by
      rw [visits, ids, List.map_append, List.map_append, List.count_append, List.count_append,
        List.count_append, List.count_append, Expr.count_visits,
        count_visits scopes isInner thenBranch, count_visits scopes isInner elseBranch]
  | scopes, isInner, .while_ condition body, id => by
      rw [visits, ids, List.map_append, List.count_append, List.count_append,
        Expr.count_visits, count_visits scopes isInner body]
  | scopes, isInner, .function declaration, id => by
      rw [visits, ids]
      exact count_functionVisits _ declaration id
  | scopes, isInner, .return_ _ value, id => by
      rw [visits, ids]
      exact Expr.count_optionVisits _ value id
  | scopes, isInner, .class_ name superclass methods, id => by
      rw [visits, ids, List.map_append, List.count_append, List.count_append,
        Expr.count_optionVisits, count_methodVisits _ methods]

theorem count_visitsEach : ∀ (scopes : List NameTable) (isInner : Bool) (stmts : List Stmt)
    (id : UseId),
    ((visitsEach scopes isInner stmts).map Visit.id).count id = (idsEach stmts).count id
  | _, _, [], _ => by simp [visitsEach, idsEach]
  | scopes, isInner, first :: rest, id => by
      rw [visitsEach, idsEach, List.map_append, List.count_append, List.count_append,
        count_visits scopes isInner first, count_visitsEach _ isInner rest]

theorem count_functionVisits : ∀ (scopes : List NameTable) (declaration : FunctionDecl)
    (id : UseId),
    ((functionVisits scopes declaration).map Visit.id).count id =
      (functionIds declaration).count id
  | scopes, ⟨_, params, body⟩, id => by
      rw [functionVisits, functionIds]
      exact count_visitsEach _ true body id

theorem count_methodVisits : ∀ (scopes : List NameTable) (methods : List FunctionDecl)
    (id : UseId),
    ((methodVisits scopes methods).map Visit.id).count id = (methodIds methods).count id
  | _, [], _ => by simp [methodVisits, methodIds]
  | scopes, first :: rest, id => by
      rw [methodVisits, methodIds, List.map_append, List.count_append, List.count_append,
        count_functionVisits scopes first, count_methodVisits scopes rest]

end

mutual

theorem isInner_of_mem_visits : ∀ (scopes : List NameTable) (stmt : Stmt) {visit : Visit},
    visit ∈ stmt.visits scopes true → visit.place.isInner = true
  | _, .expression value, _, member => by
      rw [visits] at member
      rw [Expr.place_of_mem_visits _ value member]
  | _, .print value, _, member => by
      rw [visits] at member
      rw [Expr.place_of_mem_visits _ value member]
  | _, .var _ initializer, _, member => by
      rw [visits] at member
      rw [Expr.place_of_mem_optionVisits member]
  | scopes, .block body, _, member => by
      rw [visits] at member
      exact isInner_of_mem_visitsEach _ body member
  | scopes, .if_ condition thenBranch none, _, member => by
      rw [visits, List.mem_append] at member
      rcases member with inCondition | inThen
      · rw [Expr.place_of_mem_visits _ condition inCondition]
      · exact isInner_of_mem_visits scopes thenBranch inThen
  | scopes, .if_ condition thenBranch (some elseBranch), _, member => by
      rw [visits, List.mem_append, List.mem_append] at member
      rcases member with (inCondition | inThen) | inElse
      · rw [Expr.place_of_mem_visits _ condition inCondition]
      · exact isInner_of_mem_visits scopes thenBranch inThen
      · exact isInner_of_mem_visits scopes elseBranch inElse
  | scopes, .while_ condition body, _, member => by
      rw [visits, List.mem_append] at member
      rcases member with inCondition | inBody
      · rw [Expr.place_of_mem_visits _ condition inCondition]
      · exact isInner_of_mem_visits scopes body inBody
  | _, .function declaration, _, member => by
      rw [visits] at member
      exact isInner_of_mem_functionVisits _ declaration member
  | _, .return_ _ value, _, member => by
      rw [visits] at member
      rw [Expr.place_of_mem_optionVisits member]
  | _, .class_ _ superclass methods, _, member => by
      rw [visits, List.mem_append] at member
      rcases member with inSuperclass | inMethods
      · rw [Expr.place_of_mem_optionVisits inSuperclass]
      · exact isInner_of_mem_methodVisits _ methods inMethods

theorem isInner_of_mem_visitsEach : ∀ (scopes : List NameTable) (stmts : List Stmt)
    {visit : Visit}, visit ∈ visitsEach scopes true stmts → visit.place.isInner = true
  | _, [], _, member => by simp [visitsEach] at member
  | scopes, first :: rest, _, member => by
      rw [visitsEach, List.mem_append] at member
      rcases member with inFirst | inRest
      · exact isInner_of_mem_visits scopes first inFirst
      · exact isInner_of_mem_visitsEach _ rest inRest

/-- The visits of a function are in a function body. -/
theorem isInner_of_mem_functionVisits : ∀ (scopes : List NameTable)
    (declaration : FunctionDecl) {visit : Visit},
    visit ∈ functionVisits scopes declaration → visit.place.isInner = true
  | _, ⟨_, _, body⟩, _, member => by
      rw [functionVisits] at member
      exact isInner_of_mem_visitsEach _ body member

theorem isInner_of_mem_methodVisits : ∀ (scopes : List NameTable)
    (methods : List FunctionDecl) {visit : Visit},
    visit ∈ methodVisits scopes methods → visit.place.isInner = true
  | _, [], _, member => by simp [methodVisits] at member
  | scopes, first :: rest, _, member => by
      rw [methodVisits, List.mem_append] at member
      rcases member with inFirst | inRest
      · exact isInner_of_mem_functionVisits scopes first inFirst
      · exact isInner_of_mem_methodVisits scopes rest inRest

end

end Stmt

theorem Expr.exists_visit (place : Place) (expr : Expr) {id : UseId} (member : id ∈ expr.uses) :
    ∃ visit ∈ expr.visits place, visit.id = id := by
  rw [← List.count_pos_iff, ← count_visits place, List.count_pos_iff] at member
  exact List.mem_map.mp member

theorem Expr.exists_optionVisit (place : Place) (expr : Option Expr) {id : UseId}
    (member : id ∈ optionUses expr) : ∃ visit ∈ optionVisits place expr, visit.id = id := by
  rw [← List.count_pos_iff, ← count_optionVisits place, List.count_pos_iff] at member
  exact List.mem_map.mp member

namespace Stmt

mutual

/-- A use outside function bodies is visited outside function bodies. -/
theorem exists_outerVisit : ∀ (scopes : List NameTable) (stmt : Stmt) {id : UseId},
    id ∈ stmt.outerUses →
      ∃ visit ∈ stmt.visits scopes false, visit.id = id ∧ visit.place.isInner = false
  | _, .expression value, _, member => by
      rw [outerUses] at member
      rw [visits]
      rcases value.exists_visit _ member with ⟨visit, visited, same⟩
      exact ⟨visit, visited, same, by rw [Expr.place_of_mem_visits _ value visited]⟩
  | _, .print value, _, member => by
      rw [outerUses] at member
      rw [visits]
      rcases value.exists_visit _ member with ⟨visit, visited, same⟩
      exact ⟨visit, visited, same, by rw [Expr.place_of_mem_visits _ value visited]⟩
  | _, .var _ initializer, _, member => by
      rw [outerUses] at member
      rw [visits]
      rcases Expr.exists_optionVisit _ initializer member with ⟨visit, visited, same⟩
      exact ⟨visit, visited, same, by rw [Expr.place_of_mem_optionVisits visited]⟩
  | _, .block body, _, member => by
      rw [outerUses] at member
      rw [visits]
      exact exists_outerVisitEach _ body member
  | scopes, .if_ condition thenBranch none, _, member => by
      rw [outerUses, List.mem_append] at member
      rw [visits]
      rcases member with inCondition | inThen
      · rcases condition.exists_visit ⟨scopes, false, .ordinary⟩ inCondition with ⟨visit, visited, same⟩
        exact ⟨visit, List.mem_append_left _ visited, same, by
          rw [Expr.place_of_mem_visits _ condition visited]⟩
      · rcases exists_outerVisit scopes thenBranch inThen with ⟨visit, visited, outer⟩
        exact ⟨visit, List.mem_append_right _ visited, outer⟩
  | scopes, .if_ condition thenBranch (some elseBranch), _, member => by
      rw [outerUses, List.mem_append, List.mem_append] at member
      rw [visits]
      rcases member with (inCondition | inThen) | inElse
      · rcases condition.exists_visit ⟨scopes, false, .ordinary⟩ inCondition with ⟨visit, visited, same⟩
        exact ⟨visit, List.mem_append_left _ (List.mem_append_left _ visited), same, by
          rw [Expr.place_of_mem_visits _ condition visited]⟩
      · rcases exists_outerVisit scopes thenBranch inThen with ⟨visit, visited, outer⟩
        exact ⟨visit, List.mem_append_left _ (List.mem_append_right _ visited), outer⟩
      · rcases exists_outerVisit scopes elseBranch inElse with ⟨visit, visited, outer⟩
        exact ⟨visit, List.mem_append_right _ visited, outer⟩
  | scopes, .while_ condition body, _, member => by
      rw [outerUses, List.mem_append] at member
      rw [visits]
      rcases member with inCondition | inBody
      · rcases condition.exists_visit ⟨scopes, false, .ordinary⟩ inCondition with ⟨visit, visited, same⟩
        exact ⟨visit, List.mem_append_left _ visited, same, by
          rw [Expr.place_of_mem_visits _ condition visited]⟩
      · rcases exists_outerVisit scopes body inBody with ⟨visit, visited, outer⟩
        exact ⟨visit, List.mem_append_right _ visited, outer⟩
  | _, .function _, _, member => by simp [outerUses] at member
  | _, .return_ _ value, _, member => by
      rw [outerUses] at member
      rw [visits]
      rcases Expr.exists_optionVisit _ value member with ⟨visit, visited, same⟩
      exact ⟨visit, visited, same, by rw [Expr.place_of_mem_optionVisits visited]⟩
  | scopes, .class_ name superclass _, _, member => by
      rw [outerUses] at member
      rw [visits]
      rcases Expr.exists_optionVisit
        ⟨introduceIn name.text scopes, false, .superclass name.text⟩ superclass member with
        ⟨visit, visited, same⟩
      exact ⟨visit, List.mem_append_left _ visited, same, by
        rw [Expr.place_of_mem_optionVisits visited]⟩

theorem exists_outerVisitEach : ∀ (scopes : List NameTable) (stmts : List Stmt) {id : UseId},
    id ∈ outerUsesEach stmts →
      ∃ visit ∈ visitsEach scopes false stmts, visit.id = id ∧ visit.place.isInner = false
  | _, [], _, member => by simp [outerUsesEach] at member
  | scopes, first :: rest, _, member => by
      rw [outerUsesEach, List.mem_append] at member
      rw [visitsEach]
      rcases member with inFirst | inRest
      · rcases exists_outerVisit scopes first inFirst with ⟨visit, visited, outer⟩
        exact ⟨visit, List.mem_append_left _ visited, outer⟩
      · rcases exists_outerVisitEach (first.scopesAfter scopes) rest inRest with
          ⟨visit, visited, outer⟩
        exact ⟨visit, List.mem_append_right _ visited, outer⟩

end

end Stmt

end Lox
