import Lox.Proofs.Resolution.Walk

/-!
# Distances of `this` and `super`

In the body of a method, and in the blocks and functions nested in it, resolution finds
`this` in the same scope everywhere, and `super` in the scope around that one.  So the
distances grow by one with every block and every function in which a use is nested.
-/

namespace Lox

open ResolverState (distance?)

/-- Resolution found the use of the identity at the distance. -/
def FoundAt (known : Visit → Prop) (id : UseId) (distance : Nat) : Prop :=
  ∃ visit, known visit ∧ visit.id = id ∧ visit.use.distance = some distance

/-! ## Trees -/

namespace Expr

mutual

/-- All uses of `this` were found at the distance, and all uses of `super` one scope
further out. -/
def Sited (known : Visit → Prop) (distance : Nat) : Expr → Prop
  | .literal _ => True
  | .group inner => inner.Sited known distance
  | .unary _ operand => operand.Sited known distance
  | .binary left _ right => left.Sited known distance ∧ right.Sited known distance
  | .logical left _ right => left.Sited known distance ∧ right.Sited known distance
  | .var _ _ => True
  | .assign _ _ value => value.Sited known distance
  | .call callee _ arguments => callee.Sited known distance ∧ SitedEach known distance arguments
  | .get object _ => object.Sited known distance
  | .set object _ value => object.Sited known distance ∧ value.Sited known distance
  | .this id _ => FoundAt known id distance
  | .super id _ _ => FoundAt known id (distance + 1)

/-- All expressions are sited. -/
def SitedEach (known : Visit → Prop) (distance : Nat) : List Expr → Prop
  | [] => True
  | first :: rest => first.Sited known distance ∧ SitedEach known distance rest

end

end Expr

namespace Stmt

mutual

/-- All uses of `this` outside the methods of nested classes were found in the scope at
the distance from that of the statement, and all uses of `super` in the one around it. -/
def Sited (known : Visit → Prop) (distance : Nat) : Stmt → Prop
  | .expression value => value.Sited known distance
  | .print value => value.Sited known distance
  | .var _ initializer => ∀ value ∈ initializer, value.Sited known distance
  | .block body => SitedEach known (distance + 1) body
  | .if_ condition thenBranch none =>
      condition.Sited known distance ∧ thenBranch.Sited known distance
  | .if_ condition thenBranch (some elseBranch) =>
      condition.Sited known distance ∧ thenBranch.Sited known distance ∧
        elseBranch.Sited known distance
  | .while_ condition body => condition.Sited known distance ∧ body.Sited known distance
  | .function ⟨_, _, body⟩ => SitedEach known (distance + 1) body
  | .return_ _ result => ∀ value ∈ result, value.Sited known distance
  | .class_ _ superclass _ => ∀ value ∈ superclass, value.Sited known distance

/-- All statements are sited. -/
def SitedEach (known : Visit → Prop) (distance : Nat) : List Stmt → Prop
  | [] => True
  | first :: rest => first.Sited known distance ∧ SitedEach known distance rest

end

end Stmt

/-! ## Visits -/

section Visits

variable {known : Visit → Prop}

namespace Expr

mutual

theorem sited_of_visits (legal : ∀ visit, known visit → visit.Legal) :
    ∀ (expr : Expr) {place : Place} {distance : Nat},
    (∀ visit ∈ expr.visits place, known visit) →
    distance? "this" .read place.scopes = some distance → expr.Sited known distance
  | .literal _, _, _, _, _ => trivial
  | .group inner, _, _, visited, found => by
      rw [visits] at visited
      exact sited_of_visits legal inner visited found
  | .unary _ operand, _, _, visited, found => by
      rw [visits] at visited
      exact sited_of_visits legal operand visited found
  | .binary left _ right, _, _, visited, found => by
      rw [visits, List.forall_mem_append] at visited
      exact ⟨sited_of_visits legal left visited.1 found,
        sited_of_visits legal right visited.2 found⟩
  | .logical left _ right, _, _, visited, found => by
      rw [visits, List.forall_mem_append] at visited
      exact ⟨sited_of_visits legal left visited.1 found,
        sited_of_visits legal right visited.2 found⟩
  | .var _ _, _, _, _, _ => trivial
  | .assign _ _ value, _, _, visited, found => by
      rw [visits, List.forall_mem_append] at visited
      exact sited_of_visits legal value visited.1 found
  | .call callee _ arguments, _, _, visited, found => by
      rw [visits, List.forall_mem_append] at visited
      exact ⟨sited_of_visits legal callee visited.1 found,
        sitedEach_of_visits legal arguments visited.2 found⟩
  | .get object _, _, _, visited, found => by
      rw [visits] at visited
      exact sited_of_visits legal object visited found
  | .set object _ value, _, _, visited, found => by
      rw [visits, List.forall_mem_append] at visited
      exact ⟨sited_of_visits legal object visited.2 found,
        sited_of_visits legal value visited.1 found⟩
  | .this id _, place, _, visited, found => by
      rw [visits, List.forall_mem_singleton] at visited
      exact ⟨_, visited, rfl, found⟩
  | .super id _ _, place, _, visited, found => by
      rw [visits, List.forall_mem_singleton] at visited
      -- A legal use of `super` has `this` in the scope inside that of `super`.
      rcases (legal _ visited).super rfl with ⟨inner, isThis, isSuper⟩
      cases isThis.symm.trans found
      exact ⟨_, visited, rfl, isSuper⟩

theorem sitedEach_of_visits (legal : ∀ visit, known visit → visit.Legal) :
    ∀ (exprs : List Expr) {place : Place} {distance : Nat},
    (∀ visit ∈ visitsEach place exprs, known visit) →
    distance? "this" .read place.scopes = some distance → SitedEach known distance exprs
  | [], _, _, _, _ => trivial
  | first :: rest, _, _, visited, found => by
      rw [visitsEach, List.forall_mem_append] at visited
      exact ⟨sited_of_visits legal first visited.1 found,
        sitedEach_of_visits legal rest visited.2 found⟩

end

theorem sited_of_optionVisits (legal : ∀ visit, known visit → visit.Legal)
    (expr : Option Expr) {place : Place} {distance : Nat}
    (visited : ∀ visit ∈ optionVisits place expr, known visit)
    (found : distance? "this" .read place.scopes = some distance) :
    ∀ value ∈ expr, value.Sited known distance := by
  rintro value ⟨⟩
  exact sited_of_visits legal value visited found

end Expr

theorem distance?_bodyScopes {params : List Name} (plain : ∀ param ∈ params, param.IsPlain)
    {scopes : List NameTable} {distance : Nat}
    (found : distance? "this" .read scopes = some distance) :
    distance? "this" .read (bodyScopes params scopes) = some (distance + 1) := by
  have general : ∀ opened : List NameTable, distance? "this" .read
      (params.foldl (fun opened param => introduceIn param.text opened) opened) =
        distance? "this" .read opened := by
    induction params with
    | nil => exact fun _ => rfl
    | cons first rest inductionHypothesis =>
        rw [List.forall_mem_cons] at plain
        intro opened
        rw [List.foldl_cons, inductionHypothesis plain.2]
        exact distance?_introduceIn_of_ne plain.1.1 _ _
  rw [bodyScopes, general, distance?_empty_cons, found]
  rfl

namespace Stmt

theorem declares?_isPlain {stmt : Stmt} (formed : stmt.WellFormed) {name : Name}
    (declares : stmt.declares? = some name) : name.IsPlain := by
  cases stmt with
  | var => cases declares; exact formed.1
  | function declaration =>
      cases declares
      cases declaration
      exact formed.1
  | class_ => cases declares; exact formed.1
  | _ => cases declares

theorem distance?_scopesAfter {stmt : Stmt} (formed : stmt.WellFormed) (scopes : List NameTable) :
    distance? "this" .read (stmt.scopesAfter scopes) = distance? "this" .read scopes := by
  rw [scopesAfter]
  split
  next => rfl
  next name declares =>
    exact distance?_introduceIn_of_ne (declares?_isPlain formed declares).1 _ _

mutual

theorem sited_of_visits (legal : ∀ visit, known visit → visit.Legal) :
    ∀ (stmt : Stmt) {scopes : List NameTable} {isInner : Bool} {distance : Nat},
    stmt.WellFormed → (∀ visit ∈ stmt.visits scopes isInner, known visit) →
    distance? "this" .read scopes = some distance → stmt.Sited known distance
  | .expression value, _, _, _, _, visited, found => by
      rw [visits] at visited
      exact value.sited_of_visits legal visited found
  | .print value, _, _, _, _, visited, found => by
      rw [visits] at visited
      exact value.sited_of_visits legal visited found
  | .var name initializer, scopes, _, _, formed, visited, found => by
      rw [visits] at visited
      rw [← distance?_declareIn_of_ne formed.1.1 .read scopes] at found
      exact Expr.sited_of_optionVisits legal initializer visited found
  | .block body, scopes, _, _, formed, visited, found => by
      rw [visits] at visited
      have entered : distance? "this" .read (∅ :: scopes) = some _ :=
        (distance?_empty_cons _ _ _).trans (congrArg (Option.map (· + 1)) found)
      exact sitedEach_of_visits legal body formed visited entered
  | .if_ condition thenBranch none, _, _, _, formed, visited, found => by
      rw [visits, List.forall_mem_append] at visited
      exact ⟨condition.sited_of_visits legal visited.1 found,
        sited_of_visits legal thenBranch formed.2.1 visited.2 found⟩
  | .if_ condition thenBranch (some elseBranch), _, _, _, formed, visited, found => by
      rw [visits, List.forall_mem_append, List.forall_mem_append] at visited
      exact ⟨condition.sited_of_visits legal visited.1.1 found,
        sited_of_visits legal thenBranch formed.2.1.1 visited.1.2 found,
        sited_of_visits legal elseBranch formed.2.2.1 visited.2 found⟩
  | .while_ condition body, _, _, _, formed, visited, found => by
      rw [visits, List.forall_mem_append] at visited
      exact ⟨condition.sited_of_visits legal visited.1 found,
        sited_of_visits legal body formed.2.1 visited.2 found⟩
  | .function ⟨name, params, body⟩, scopes, _, _, formed, visited, found => by
      rw [visits, functionVisits] at visited
      rw [← distance?_introduceIn_of_ne formed.1.1 .read scopes] at found
      exact sitedEach_of_visits legal body formed.2.2 visited
        (distance?_bodyScopes formed.2.1 found)
  | .return_ _ value, _, _, _, _, visited, found => by
      rw [visits] at visited
      exact Expr.sited_of_optionVisits legal value visited found
  | .class_ name superclass _, scopes, _, _, formed, visited, found => by
      rw [visits, List.forall_mem_append] at visited
      rw [← distance?_introduceIn_of_ne formed.1.1 .read scopes] at found
      exact Expr.sited_of_optionVisits legal superclass visited.1 found

theorem sitedEach_of_visits (legal : ∀ visit, known visit → visit.Legal) :
    ∀ (stmts : List Stmt) {scopes : List NameTable} {isInner : Bool} {distance : Nat},
    WellFormedEach stmts →
    (∀ visit ∈ visitsEach scopes isInner stmts, known visit) →
    distance? "this" .read scopes = some distance → SitedEach known distance stmts
  | [], _, _, _, _, _, _ => trivial
  | first :: rest, scopes, _, _, formed, visited, found => by
      rw [visitsEach, List.forall_mem_append] at visited
      have after := (distance?_scopesAfter formed.1 scopes).trans found
      exact ⟨sited_of_visits legal first formed.1 visited.1 found,
        sitedEach_of_visits legal rest formed.2 visited.2 after⟩

end

/-- In the body of a method, `this` is found one scope outside that of the body. -/
theorem sitedEach_method (legal : ∀ visit, known visit → visit.Legal)
    {declaration : FunctionDecl} {tables : List NameTable}
    (formed : FunctionWellFormed declaration)
    (visited : ∀ visit ∈ functionVisits (thisTable :: tables) declaration, known visit) :
    SitedEach known 1 declaration.body := by
  rcases declaration with ⟨name, params, body⟩
  exact sitedEach_of_visits legal body formed.2.2 visited
    (distance?_bodyScopes formed.2.1 (distance?_thisTable .read tables))

end Stmt

end Visits

end Lox
