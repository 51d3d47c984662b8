import Lox.Proofs.Syntax.Ids

/-!
# Uses in function bodies

A program declares functions and methods in blocks, branches, loops, classes and
other functions.  Every use of a variable stands in the body of one of them, or it
is one of those that `outerUses` lists; with distinct identities it is never both.
-/

namespace Lox

namespace Stmt

/-- The function or method is declared by the statement or somewhere in it. -/
inductive HasFunction : Stmt → FunctionDecl → Prop where
  | function {declaration} : HasFunction (.function declaration) declaration
  | method {name superclass methods declaration} :
      declaration ∈ methods → HasFunction (.class_ name superclass methods) declaration
  | block {body stmt declaration} :
      stmt ∈ body → HasFunction stmt declaration → HasFunction (.block body) declaration
  | thenBranch {condition thenBranch elseBranch declaration} :
      HasFunction thenBranch declaration →
      HasFunction (.if_ condition thenBranch elseBranch) declaration
  | elseBranch {condition thenBranch elseBranch declaration} :
      HasFunction elseBranch declaration →
      HasFunction (.if_ condition thenBranch (some elseBranch)) declaration
  | loop {condition body declaration} :
      HasFunction body declaration → HasFunction (.while_ condition body) declaration
  | functionBody {outer stmt declaration} :
      stmt ∈ outer.body → HasFunction stmt declaration → HasFunction (.function outer) declaration
  | methodBody {name superclass methods method stmt declaration} :
      method ∈ methods → stmt ∈ method.body → HasFunction stmt declaration →
      HasFunction (.class_ name superclass methods) declaration

/-- The use stands in the body of a function or method that the program declares,
at whatever depth. -/
def InBody (program : List Stmt) (id : UseId) : Prop :=
  ∃ stmt ∈ program, ∃ declaration, stmt.HasFunction declaration ∧ id ∈ idsEach declaration.body

/-! ## Uses that are listed -/

mutual

/-- The identities of the uses in a statement that lie in a function body. -/
def innerUses : Stmt → List UseId
  | .expression _ => []
  | .print _ => []
  | .var _ _ => []
  | .block body => innerUsesEach body
  | .if_ _ thenBranch none => thenBranch.innerUses
  | .if_ _ thenBranch (some elseBranch) => thenBranch.innerUses ++ elseBranch.innerUses
  | .while_ _ body => body.innerUses
  | .function declaration => functionIds declaration
  | .return_ _ _ => []
  | .class_ _ _ methods => methodIds methods

/-- The identities of the uses in statements that lie in a function body. -/
def innerUsesEach : List Stmt → List UseId
  | [] => []
  | first :: rest => first.innerUses ++ innerUsesEach rest

end

mutual

/-- A use is either outside function bodies or in one. -/
theorem count_ids : ∀ (stmt : Stmt) (id : UseId),
    stmt.ids.count id = stmt.outerUses.count id + stmt.innerUses.count id
  | .expression _, _ => by simp [ids, outerUses, innerUses]
  | .print _, _ => by simp [ids, outerUses, innerUses]
  | .var _ _, _ => by simp [ids, outerUses, innerUses]
  | .block body, id => by
      rw [ids, outerUses, innerUses]
      exact count_idsEach body id
  | .if_ condition thenBranch none, id => by
      rw [ids, outerUses, innerUses, List.count_append, List.count_append, count_ids thenBranch]
      omega
  | .if_ condition thenBranch (some elseBranch), id => by
      rw [ids, outerUses, innerUses]
      simp only [List.count_append]
      rw [count_ids thenBranch, count_ids elseBranch]
      omega
  | .while_ condition body, id => by
      rw [ids, outerUses, innerUses, List.count_append, List.count_append, count_ids body]
      omega
  | .function _, _ => by simp [ids, outerUses, innerUses]
  | .return_ _ _, _ => by simp [ids, outerUses, innerUses]
  | .class_ _ _ _, _ => by simp [ids, outerUses, innerUses]

theorem count_idsEach : ∀ (stmts : List Stmt) (id : UseId),
    (idsEach stmts).count id = (outerUsesEach stmts).count id + (innerUsesEach stmts).count id
  | [], _ => by simp [idsEach, outerUsesEach, innerUsesEach]
  | first :: rest, id => by
      rw [idsEach, outerUsesEach, innerUsesEach]
      simp only [List.count_append]
      rw [count_ids first, count_idsEach rest]
      omega

end

theorem mem_ids_iff {stmt : Stmt} {id : UseId} :
    id ∈ stmt.ids ↔ id ∈ stmt.outerUses ∨ id ∈ stmt.innerUses := by
  simp only [← List.count_pos_iff, count_ids]
  omega

theorem mem_idsEach_iff {stmts : List Stmt} {id : UseId} :
    id ∈ idsEach stmts ↔ id ∈ outerUsesEach stmts ∨ id ∈ innerUsesEach stmts := by
  simp only [← List.count_pos_iff, count_idsEach]
  omega

/-! ## Uses in bodies -/

theorem functionIds_eq (declaration : FunctionDecl) :
    functionIds declaration = idsEach declaration.body := by
  cases declaration
  rw [functionIds]

theorem mem_idsEach {stmts : List Stmt} {id : UseId} :
    id ∈ idsEach stmts ↔ ∃ stmt ∈ stmts, id ∈ stmt.ids := by
  induction stmts with
  | nil => simp [idsEach]
  | cons first rest inductionHypothesis => simp [idsEach, inductionHypothesis]

theorem mem_innerUsesEach {stmts : List Stmt} {id : UseId} :
    id ∈ innerUsesEach stmts ↔ ∃ stmt ∈ stmts, id ∈ stmt.innerUses := by
  induction stmts with
  | nil => simp [innerUsesEach]
  | cons first rest inductionHypothesis => simp [innerUsesEach, inductionHypothesis]

theorem mem_methodIds {methods : List FunctionDecl} {id : UseId} :
    id ∈ methodIds methods ↔ ∃ method ∈ methods, id ∈ idsEach method.body := by
  induction methods with
  | nil => simp [methodIds]
  | cons first rest inductionHypothesis => simp [methodIds, functionIds_eq, inductionHypothesis]

/-- A use in the body of a declared function is listed, also if that function is
declared in the body of another one. -/
theorem HasFunction.mem_innerUses {stmt : Stmt} {declaration : FunctionDecl}
    (has : stmt.HasFunction declaration) {id : UseId} (inside : id ∈ idsEach declaration.body) :
    id ∈ stmt.innerUses := by
  induction has with
  | function =>
      rw [innerUses, functionIds_eq]
      exact inside
  | method member =>
      rw [innerUses, mem_methodIds]
      exact ⟨_, member, inside⟩
  | block member _ inductionHypothesis =>
      rw [innerUses, mem_innerUsesEach]
      exact ⟨_, member, inductionHypothesis inside⟩
  | @thenBranch _ _ elseBranch _ _ inductionHypothesis =>
      cases elseBranch with
      | none =>
          rw [innerUses]
          exact inductionHypothesis inside
      | some elseBranch =>
          rw [innerUses]
          exact List.mem_append_left _ (inductionHypothesis inside)
  | elseBranch _ inductionHypothesis =>
      rw [innerUses]
      exact List.mem_append_right _ (inductionHypothesis inside)
  | loop _ inductionHypothesis =>
      rw [innerUses]
      exact inductionHypothesis inside
  | functionBody member _ inductionHypothesis =>
      rw [innerUses, functionIds_eq, mem_idsEach]
      exact ⟨_, member, mem_ids_iff.mpr (.inr (inductionHypothesis inside))⟩
  | methodBody isMethod member _ inductionHypothesis =>
      rw [innerUses, mem_methodIds]
      refine ⟨_, isMethod, mem_idsEach.mpr ?_⟩
      exact ⟨_, member, mem_ids_iff.mpr (.inr (inductionHypothesis inside))⟩

mutual

/-- A listed use stands in the body of a declared function. -/
theorem exists_hasFunction : ∀ (stmt : Stmt) {id : UseId}, id ∈ stmt.innerUses →
    ∃ declaration, stmt.HasFunction declaration ∧ id ∈ idsEach declaration.body
  | .expression _, _, listed => by simp [innerUses] at listed
  | .print _, _, listed => by simp [innerUses] at listed
  | .var _ _, _, listed => by simp [innerUses] at listed
  | .block body, _, listed => by
      rw [innerUses] at listed
      rcases exists_hasFunctionEach body listed with ⟨stmt, member, declaration, has, inside⟩
      exact ⟨declaration, .block member has, inside⟩
  | .if_ condition thenBranch none, _, listed => by
      rw [innerUses] at listed
      rcases exists_hasFunction thenBranch listed with ⟨declaration, has, inside⟩
      exact ⟨declaration, .thenBranch has, inside⟩
  | .if_ condition thenBranch (some elseBranch), _, listed => by
      rw [innerUses, List.mem_append] at listed
      rcases listed with inThen | inElse
      · rcases exists_hasFunction thenBranch inThen with ⟨declaration, has, inside⟩
        exact ⟨declaration, .thenBranch has, inside⟩
      · rcases exists_hasFunction elseBranch inElse with ⟨declaration, has, inside⟩
        exact ⟨declaration, .elseBranch has, inside⟩
  | .while_ condition body, _, listed => by
      rw [innerUses] at listed
      rcases exists_hasFunction body listed with ⟨declaration, has, inside⟩
      exact ⟨declaration, .loop has, inside⟩
  | .function declaration, _, listed => by
      rw [innerUses, functionIds_eq] at listed
      exact ⟨declaration, .function, listed⟩
  | .return_ _ _, _, listed => by simp [innerUses] at listed
  | .class_ _ _ methods, _, listed => by
      rw [innerUses, mem_methodIds] at listed
      rcases listed with ⟨method, member, inside⟩
      exact ⟨method, .method member, inside⟩

theorem exists_hasFunctionEach : ∀ (stmts : List Stmt) {id : UseId}, id ∈ innerUsesEach stmts →
    InBody stmts id
  | [], _, listed => by simp [innerUsesEach] at listed
  | first :: rest, _, listed => by
      rw [innerUsesEach, List.mem_append] at listed
      rcases listed with inFirst | inRest
      · rcases exists_hasFunction first inFirst with ⟨declaration, has⟩
        exact ⟨first, List.mem_cons_self, declaration, has⟩
      · rcases exists_hasFunctionEach rest inRest with ⟨stmt, member, has⟩
        exact ⟨stmt, List.mem_cons_of_mem _ member, has⟩

end

theorem inBody_iff {program : List Stmt} {id : UseId} :
    InBody program id ↔ id ∈ innerUsesEach program := by
  constructor
  · rintro ⟨stmt, member, declaration, has, inside⟩
    exact mem_innerUsesEach.mpr ⟨stmt, member, has.mem_innerUses inside⟩
  · exact exists_hasFunctionEach program

/-- With distinct identities, the uses in function bodies are exactly those that are
not listed as outer ones. -/
theorem inBody_iff_not_outer {program : List Stmt} (distinct : (idsEach program).Nodup)
    {id : UseId} (member : id ∈ idsEach program) :
    InBody program id ↔ id ∉ outerUsesEach program := by
  have once := List.nodup_iff_count.mp distinct id
  rw [count_idsEach] at once
  rw [inBody_iff]
  constructor
  · intro inner outer
    rw [← List.count_pos_iff] at inner outer
    omega
  · intro notOuter
    exact (mem_idsEach_iff.mp member).resolve_left notOuter

end Stmt

end Lox
