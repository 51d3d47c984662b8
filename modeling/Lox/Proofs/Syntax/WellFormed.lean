import Lox.Proofs.Grammar

/-!
# Well-formed trees

What the shape of the grammar promises of the trees of its derivations: a branch
or the body of a loop is no declaration, a superclass is a name, and no name is
spelled `this` or `super`, provided that no identifier is.
-/

namespace Lox

namespace Name

/-- The name is not one of those that methods see without a declaration. -/
def IsPlain (name : Name) : Prop :=
  name.text ≠ "this" ∧ name.text ≠ "super"

end Name

/-! ## Expressions -/

namespace Expr

mutual

/-- Only plain names are read and assigned. -/
def WellFormed : Expr → Prop
  | .literal _ => True
  | .group inner => inner.WellFormed
  | .unary _ operand => operand.WellFormed
  | .binary left _ right => left.WellFormed ∧ right.WellFormed
  | .logical left _ right => left.WellFormed ∧ right.WellFormed
  | .var _ name => name.IsPlain
  | .assign _ name value => name.IsPlain ∧ value.WellFormed
  | .call callee _ arguments => callee.WellFormed ∧ WellFormedEach arguments
  | .get object _ => object.WellFormed
  | .set object _ value => object.WellFormed ∧ value.WellFormed
  | .this _ _ => True
  | .super _ _ _ => True

/-- All expressions are well-formed. -/
def WellFormedEach : List Expr → Prop
  | [] => True
  | first :: rest => first.WellFormed ∧ WellFormedEach rest

end

theorem wellFormedEach_iff {exprs : List Expr} :
    WellFormedEach exprs ↔ ∀ expr ∈ exprs, expr.WellFormed := by
  induction exprs with
  | nil => simp [WellFormedEach]
  | cons first rest inductionHypothesis => simp [WellFormedEach, inductionHypothesis]

/-- An optional expression is well-formed. -/
def OptionWellFormed (expr : Option Expr) : Prop :=
  ∀ value ∈ expr, value.WellFormed

/-- The expression reads a variable, as superclasses do. -/
def IsVariable : Expr → Prop
  | .var _ name => name.IsPlain
  | _ => False

theorem IsVariable.wellFormed {expr : Expr} (isVariable : expr.IsVariable) : expr.WellFormed := by
  cases expr with
  | var id name => exact isVariable
  | _ => exact isVariable.elim

end Expr

/-! ## Statements -/

namespace Stmt

/-- The name that a statement adds to the scope it stands in. -/
def declares? : Stmt → Option Name
  | .var name _ => some name
  | .function declaration => some declaration.name
  | .class_ name _ _ => some name
  | _ => none

/-- The names that a program declares outside all local scopes. -/
def declaredNames (program : List Stmt) : List String :=
  program.filterMap fun stmt => stmt.declares?.map Name.text

theorem mem_declaredNames_cons {first : Stmt} {rest : List Stmt} {name : String} :
    name ∈ declaredNames (first :: rest) ↔
      (∃ declared ∈ first.declares?, declared.text = name) ∨ name ∈ declaredNames rest := by
  rw [declaredNames, List.filterMap_cons]
  cases declares : first.declares? <;> simp [declaredNames, eq_comm]

mutual

/-- Branches and bodies of loops are no declarations, superclasses are variables,
and names are plain. -/
def WellFormed : Stmt → Prop
  | .expression value => value.WellFormed
  | .print value => value.WellFormed
  | .var name initializer => name.IsPlain ∧ Expr.OptionWellFormed initializer
  | .block body => WellFormedEach body
  | .if_ condition thenBranch none =>
      condition.WellFormed ∧ thenBranch.WellFormed ∧ thenBranch.declares? = none
  | .if_ condition thenBranch (some elseBranch) =>
      condition.WellFormed ∧ (thenBranch.WellFormed ∧ thenBranch.declares? = none) ∧
        elseBranch.WellFormed ∧ elseBranch.declares? = none
  | .while_ condition body =>
      condition.WellFormed ∧ body.WellFormed ∧ body.declares? = none
  | .function declaration => FunctionWellFormed declaration
  | .return_ _ value => Expr.OptionWellFormed value
  | .class_ name superclass methods =>
      name.IsPlain ∧ (∀ expr ∈ superclass, expr.IsVariable) ∧ MethodsWellFormed methods

/-- All statements are well-formed. -/
def WellFormedEach : List Stmt → Prop
  | [] => True
  | first :: rest => first.WellFormed ∧ WellFormedEach rest

/-- The names of a function and its parameters are plain, and its body is
well-formed. -/
def FunctionWellFormed : FunctionDecl → Prop
  | ⟨name, params, body⟩ =>
      name.IsPlain ∧ (∀ param ∈ params, param.IsPlain) ∧ WellFormedEach body

/-- All methods are well-formed. -/
def MethodsWellFormed : List FunctionDecl → Prop
  | [] => True
  | first :: rest => FunctionWellFormed first ∧ MethodsWellFormed rest

end

theorem wellFormedEach_iff {stmts : List Stmt} :
    WellFormedEach stmts ↔ ∀ stmt ∈ stmts, stmt.WellFormed := by
  induction stmts with
  | nil => simp [WellFormedEach]
  | cons first rest inductionHypothesis => simp [WellFormedEach, inductionHypothesis]

theorem methodsWellFormed_iff {methods : List FunctionDecl} :
    MethodsWellFormed methods ↔ ∀ method ∈ methods, FunctionWellFormed method := by
  induction methods with
  | nil => simp [MethodsWellFormed]
  | cons first rest inductionHypothesis => simp [MethodsWellFormed, inductionHypothesis]

end Stmt

/-! ## Trees of derivations -/

namespace Grammar

/-- No identifier among the tokens is spelled `this` or `super`. -/
def PlainNames (tokens : List Token) : Prop :=
  ∀ token ∈ tokens, token.kind = .identifier → token.toName.IsPlain

@[simp]
theorem plainNames_nil : PlainNames [] :=
  nofun

@[simp]
theorem plainNames_cons {token : Token} {tokens : List Token} :
    PlainNames (token :: tokens) ↔
      (token.kind = .identifier → token.toName.IsPlain) ∧ PlainNames tokens := by
  simp [PlainNames]

@[simp]
theorem plainNames_append {before after : List Token} :
    PlainNames (before ++ after) ↔ PlainNames before ∧ PlainNames after := by
  simp [PlainNames, or_imp, forall_and]

@[simp]
theorem plainNames_flatMap {α : Type} {tokensOf : α → List Token} {parts : List α} :
    PlainNames (parts.flatMap tokensOf) ↔ ∀ part ∈ parts, PlainNames (tokensOf part) := by
  induction parts with
  | nil => simp
  | cons first later inductionHypothesis => simp [inductionHypothesis]

theorem Separated.plainNames {parts : List (List Token)} {whole : List Token}
    (separated : Separated parts whole) (plain : PlainNames whole) :
    ∀ part ∈ parts, PlainNames part := by
  induction separated with
  | empty => exact nofun
  | single tokens => simpa using plain
  | more _ _ inductionHypothesis =>
      simp only [plainNames_append, plainNames_cons] at plain
      have laterPlain := inductionHypothesis plain.2.2
      intro part member
      rcases List.mem_cons.mp member with rfl | later
      · exact plain.1
      · exact laterPlain part later

theorem Derives.wellFormed {phrase : Phrase} {tokens : List Token} {expr : Expr}
    (derived : Derives phrase tokens expr) (plain : PlainNames tokens) : expr.WellFormed := by
  induction derived with
  | @operation tier _ _ _ _ _ _ _ _ leftFormed rightFormed =>
      simp only [plainNames_append, plainNames_cons] at plain
      have both := And.intro (leftFormed plain.1) (rightFormed plain.2.2)
      cases tier <;> exact both
  | invocation _ _ _ _ separated _ calleeFormed argumentsFormed =>
      simp only [plainNames_append, plainNames_cons] at plain
      refine ⟨calleeFormed plain.1, Expr.wellFormedEach_iff.mpr ?_⟩
      have argumentsPlain := separated.plainNames plain.2.2.1
      intro expr member
      rcases List.mem_map.mp member with ⟨argument, argumentMember, rfl⟩
      apply argumentsFormed argument argumentMember
      exact argumentsPlain _ (List.mem_map_of_mem argumentMember)
  | _ => simp_all [Expr.WellFormed]

theorem DerivesOptional.wellFormed {tokens : List Token} {expr : Option Expr}
    (derived : DerivesOptional tokens expr) (plain : PlainNames tokens) :
    Expr.OptionWellFormed expr := by
  cases derived with
  | absent => exact nofun
  | present derived =>
      rintro value ⟨⟩
      exact derived.wellFormed plain

theorem VarDeclaration.wellFormed {tokens : List Token} {stmt : Stmt}
    (declared : VarDeclaration tokens stmt) (plain : PlainNames tokens) : stmt.WellFormed := by
  cases declared with
  | plain _ nameKind =>
      simp only [plainNames_cons] at plain
      exact ⟨plain.2.1 nameKind, nofun⟩
  | initialized _ nameKind _ derived =>
      simp only [plainNames_cons, plainNames_append] at plain
      refine ⟨plain.2.1 nameKind, ?_⟩
      rintro value ⟨⟩
      exact derived.wellFormed plain.2.2.2.1

theorem ExpressionStatement.wellFormed {tokens : List Token} {stmt : Stmt}
    (stated : ExpressionStatement tokens stmt) (plain : PlainNames tokens) :
    stmt.WellFormed ∧ stmt.declares? = none := by
  obtain ⟨derived, -⟩ := stated
  simp only [plainNames_append] at plain
  exact ⟨derived.wellFormed plain.1, rfl⟩

theorem ForInitializer.wellFormed {tokens : List Token} {initializer : Option Stmt}
    (derived : ForInitializer tokens initializer) (plain : PlainNames tokens) :
    ∀ stmt ∈ initializer, stmt.WellFormed := by
  cases derived with
  | absent => exact nofun
  | declaration declared =>
      rintro stmt ⟨⟩
      exact declared.wellFormed plain
  | expression stated =>
      rintro stmt ⟨⟩
      exact (stated.wellFormed plain).1

theorem SuperclassClause.wellFormed {tokens : List Token} {superclass : Option Expr}
    (derived : SuperclassClause tokens superclass) (plain : PlainNames tokens) :
    ∀ expr ∈ superclass, expr.IsVariable := by
  cases derived with
  | absent => exact nofun
  | present id _ nameKind =>
      rintro expr ⟨⟩
      simp only [plainNames_cons] at plain
      exact plain.2.1 nameKind

theorem lowerFor_wellFormed {initializer : Option Stmt} {condition increment : Option Expr}
    {body : Stmt} (initializerFormed : ∀ stmt ∈ initializer, stmt.WellFormed)
    (conditionFormed : Expr.OptionWellFormed condition)
    (incrementFormed : Expr.OptionWellFormed increment)
    (bodyFormed : body.WellFormed ∧ body.declares? = none) :
    (lowerFor initializer condition increment body).WellFormed ∧
      (lowerFor initializer condition increment body).declares? = none := by
  have testFormed : (condition.getD (.literal (.bool true))).WellFormed := by
    cases condition with
    | none => trivial
    | some value => exact conditionFormed value rfl
  have around : ∀ {loop : Stmt}, loop.WellFormed → ∀ stmt ∈ initializer,
      (Stmt.block [stmt, loop]).WellFormed := by
    intro loop loopFormed stmt member
    exact ⟨initializerFormed stmt member, loopFormed, trivial⟩
  cases increment with
  | none =>
      have loopFormed : (Stmt.while_ _ body).WellFormed := ⟨testFormed, bodyFormed⟩
      cases initializer with
      | none => exact ⟨loopFormed, rfl⟩
      | some stmt => exact ⟨around loopFormed stmt rfl, rfl⟩
  | some value =>
      have stepFormed : (Stmt.block [body, .expression value]).WellFormed :=
        ⟨bodyFormed.1, incrementFormed value rfl, trivial⟩
      have loopFormed : (Stmt.while_ _ (.block [body, .expression value])).WellFormed :=
        ⟨testFormed, stepFormed, rfl⟩
      cases initializer with
      | none => exact ⟨loopFormed, rfl⟩
      | some stmt => exact ⟨around loopFormed stmt rfl, rfl⟩

/-- The tree of a declaration is well-formed, and that of a statement declares
nothing. -/
theorem DerivesStmt.wellFormed {nearest : Bool} {clause : Clause} {tokens : List Token}
    {stmt : Stmt} {isOpen : Bool} (derived : DerivesStmt nearest clause tokens stmt isOpen)
    (plain : PlainNames tokens) :
    stmt.WellFormed ∧ (clause = .statement → stmt.declares? = none) := by
  induction derived with
  | classDeclaration _ nameKind superclassDerived _ _ _ methodsFormed =>
      simp only [plainNames_cons, plainNames_append, plainNames_flatMap] at plain
      refine ⟨⟨plain.2.1 nameKind, superclassDerived.wellFormed plain.2.2.1, ?_⟩, nofun⟩
      apply Stmt.methodsWellFormed_iff.mpr
      intro method member
      rcases List.mem_map.mp member with ⟨pair, pairMember, rfl⟩
      exact (methodsFormed pair pairMember (plain.2.2.2.2.1 pair pairMember)).1
  | functionDeclaration _ _ functionFormed =>
      simp only [plainNames_cons] at plain
      exact ⟨(functionFormed plain.2).1, nofun⟩
  | varDeclaration declared => exact ⟨declared.wellFormed plain, nofun⟩
  | noDeclaration _ statementFormed => exact ⟨(statementFormed plain).1, nofun⟩
  | function nameKind _ _ names separated _ _ _ _ bodyFormed =>
      simp only [plainNames_cons, plainNames_append, plainNames_flatMap] at plain
      have paramsPlain := separated.plainNames plain.2.2.1
      refine ⟨⟨plain.1 nameKind, ?_, ?_⟩, nofun⟩
      · intro param member
        rcases List.mem_map.mp member with ⟨token, tokenMember, rfl⟩
        have tokenPlain := paramsPlain [token] (List.mem_map_of_mem tokenMember)
        exact tokenPlain token List.mem_cons_self (names token tokenMember)
      · apply Stmt.wellFormedEach_iff.mpr
        intro stmt member
        rcases List.mem_map.mp member with ⟨part, partMember, rfl⟩
        exact (bodyFormed part partMember (plain.2.2.2.2.2.1 part partMember)).1
  | expression stated =>
      have formed := stated.wellFormed plain
      exact ⟨formed.1, fun _ => formed.2⟩
  | forLoop _ _ initializer condition _ increment _ _ bodyFormed =>
      simp only [plainNames_cons, plainNames_append] at plain
      have body := bodyFormed plain.2.2.2.2.2.2.2
      have formed := lowerFor_wellFormed (initializer.wellFormed plain.2.2.1)
        (condition.wellFormed plain.2.2.2.1) (increment.wellFormed plain.2.2.2.2.2.1)
        ⟨body.1, body.2 rfl⟩
      exact ⟨formed.1, fun _ => formed.2⟩
  | ifThen _ _ condition _ _ branchFormed =>
      simp only [plainNames_cons, plainNames_append] at plain
      have branch := branchFormed plain.2.2.2.2
      exact ⟨⟨condition.wellFormed plain.2.2.1, branch.1, branch.2 rfl⟩, fun _ => rfl⟩
  | ifThenElse _ _ condition _ _ _ _ _ branchFormed alternativeFormed =>
      simp only [plainNames_cons, plainNames_append] at plain
      have branch := branchFormed plain.2.2.2.2.1
      have alternative := alternativeFormed plain.2.2.2.2.2.2
      exact ⟨⟨condition.wellFormed plain.2.2.1, ⟨branch.1, branch.2 rfl⟩, alternative.1,
        alternative.2 rfl⟩, fun _ => rfl⟩
  | print _ value =>
      simp only [plainNames_cons, plainNames_append] at plain
      exact ⟨value.wellFormed plain.2.1, fun _ => rfl⟩
  | return_ _ value =>
      simp only [plainNames_cons, plainNames_append] at plain
      exact ⟨value.wellFormed plain.2.1, fun _ => rfl⟩
  | whileLoop _ _ condition _ _ bodyFormed =>
      simp only [plainNames_cons, plainNames_append] at plain
      have body := bodyFormed plain.2.2.2.2
      exact ⟨⟨condition.wellFormed plain.2.2.1, body.1, body.2 rfl⟩, fun _ => rfl⟩
  | block _ _ _ bodyFormed =>
      simp only [plainNames_cons, plainNames_append, plainNames_flatMap] at plain
      refine ⟨Stmt.wellFormedEach_iff.mpr ?_, fun _ => rfl⟩
      intro stmt member
      rcases List.mem_map.mp member with ⟨part, partMember, rfl⟩
      exact (bodyFormed part partMember (plain.2.1 part partMember)).1

theorem DerivesProgram.wellFormed {nearest : Bool} {tokens : List Token} {program : List Stmt}
    (derived : DerivesProgram nearest tokens program) (plain : PlainNames tokens) :
    Stmt.WellFormedEach program := by
  obtain ⟨derived⟩ := derived
  rw [plainNames_flatMap] at plain
  apply Stmt.wellFormedEach_iff.mpr
  intro stmt member
  rcases List.mem_map.mp member with ⟨part, partMember, rfl⟩
  exact ((derived part partMember).wellFormed (plain part partMember)).1

end Grammar

end Lox
