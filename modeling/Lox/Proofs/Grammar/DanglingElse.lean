import Lox.Proofs.Grammar

/-!
# Dangling `else`

The grammar leaves open to which `if` an `else` belongs.  Reading it with the
nearest `if` loses no program: an `else` behind a statement that ends with an
open `if` can be moved into that statement.
-/

namespace Lox

namespace Grammar

/-- The reading with the nearest `if` is one of the readings of the grammar. -/
theorem DerivesStmt.of_nearest {clause : Clause} {tokens : List Token} {stmt : Stmt}
    {isOpen : Bool} (derived : DerivesStmt true clause tokens stmt isOpen) :
    DerivesStmt false clause tokens stmt isOpen := by
  induction derived with
  | classDeclaration keywordKind nameKind superclassDerived openingKind _ closingKind methods =>
      exact .classDeclaration keywordKind nameKind superclassDerived openingKind methods closingKind
  | functionDeclaration keywordKind _ function => exact .functionDeclaration keywordKind function
  | varDeclaration declared => exact .varDeclaration declared
  | noDeclaration _ statement => exact .noDeclaration statement
  | function nameKind openingKind bounded names separated closingKind openedKind _ closedKind
      body =>
      exact .function nameKind openingKind bounded names separated closingKind openedKind body
        closedKind
  | expression stated => exact .expression stated
  | forLoop keywordKind openingKind initializer condition semicolonKind increment closingKind _
      body =>
      exact .forLoop keywordKind openingKind initializer condition semicolonKind increment
        closingKind body
  | ifThen keywordKind openingKind condition closingKind _ branch =>
      exact .ifThen keywordKind openingKind condition closingKind branch
  | ifThenElse keywordKind openingKind condition closingKind _ _ otherwiseKind _ branch
      alternative =>
      exact .ifThenElse keywordKind openingKind condition closingKind branch nofun otherwiseKind
        alternative
  | print keywordKind value semicolonKind => exact .print keywordKind value semicolonKind
  | return_ keywordKind value semicolonKind => exact .return_ keywordKind value semicolonKind
  | whileLoop keywordKind openingKind condition closingKind _ body =>
      exact .whileLoop keywordKind openingKind condition closingKind body
  | block openedKind _ closedKind body => exact .block openedKind body closedKind

/-- The tokens derive from the nonterminal with every `else` at the nearest `if`. -/
def HasNearest (clause : Clause) (tokens : List Token) : Prop :=
  ∃ stmt isOpen, DerivesStmt true clause tokens stmt isOpen

/-- An `else` behind a statement with an open `if` goes to the nearest one. -/
theorem attachElse {clause : Clause} {branch alternative : List Token} {stmt : Stmt}
    {isOpen : Bool} {otherwise : Token} (derived : DerivesStmt true clause branch stmt isOpen)
    (isStatement : clause = .statement) (isOpenEnd : isOpen = true)
    (otherwiseKind : otherwise.kind = .keyword .else_)
    (alternativeDerived : HasNearest .statement alternative) :
    HasNearest .statement (branch ++ otherwise :: alternative) := by
  induction derived with
  | forLoop keywordKind openingKind initializer condition semicolonKind increment closingKind _
      inductionHypothesis =>
      obtain ⟨body, bodyOpen, bodyDerived⟩ := inductionHypothesis rfl isOpenEnd
      have derived := DerivesStmt.forLoop keywordKind openingKind initializer condition
        semicolonKind increment closingKind bodyDerived
      exact ⟨_, _, by simpa using derived⟩
  | @ifThen _ _ _ _ _ _ _ branchOpen keywordKind openingKind condition closingKind branchDerived
      inductionHypothesis =>
      cases branchOpen with
      | true =>
          obtain ⟨inner, innerOpen, innerDerived⟩ := inductionHypothesis rfl rfl
          have derived :=
            DerivesStmt.ifThen keywordKind openingKind condition closingKind innerDerived
          exact ⟨_, _, by simpa using derived⟩
      | false =>
          obtain ⟨other, otherOpen, otherDerived⟩ := alternativeDerived
          have derived := DerivesStmt.ifThenElse keywordKind openingKind condition closingKind
            branchDerived (fun _ => rfl) otherwiseKind otherDerived
          exact ⟨_, _, by simpa using derived⟩
  | ifThenElse keywordKind openingKind condition closingKind branchDerived branchClosed
      innerKind _ _ inductionHypothesis =>
      obtain ⟨other, otherOpen, otherDerived⟩ := inductionHypothesis rfl isOpenEnd
      have derived := DerivesStmt.ifThenElse keywordKind openingKind condition closingKind
        branchDerived branchClosed innerKind otherDerived
      exact ⟨_, _, by simpa using derived⟩
  | whileLoop keywordKind openingKind condition closingKind _ inductionHypothesis =>
      obtain ⟨body, bodyOpen, bodyDerived⟩ := inductionHypothesis rfl isOpenEnd
      have derived :=
        DerivesStmt.whileLoop keywordKind openingKind condition closingKind bodyDerived
      exact ⟨_, _, by simpa using derived⟩
  | noDeclaration => cases isStatement
  | _ => cases isOpenEnd

/-- The tree of a function declares it, and no `if` is left open. -/
theorem DerivesStmt.function_inv {nearest : Bool} {tokens : List Token} {stmt : Stmt}
    {isOpen : Bool} (derived : DerivesStmt nearest .function tokens stmt isOpen) :
    isOpen = false ∧ ∃ declaration, stmt = .function declaration := by
  cases derived with
  | function => exact ⟨rfl, _, rfl⟩

/-- Parts that each have a nearest reading have one together. -/
theorem exists_sentences {body : List Sentence}
    (parts : ∀ part ∈ body, HasNearest .declaration part.tokens) :
    ∃ nearest : List Sentence,
      nearest.flatMap Sentence.tokens = body.flatMap Sentence.tokens ∧
        ∀ part ∈ nearest, DerivesStmt true .declaration part.tokens part.tree part.isOpen := by
  induction body with
  | nil => exact ⟨[], rfl, nofun⟩
  | cons first later inductionHypothesis =>
      obtain ⟨stmt, isOpen, derived⟩ := parts first List.mem_cons_self
      obtain ⟨nearest, tokensEquality, nearestDerived⟩ :=
        inductionHypothesis fun part member => parts part (List.mem_cons_of_mem _ member)
      refine ⟨⟨first.tokens, stmt, isOpen⟩ :: nearest, by simp [tokensEquality], ?_⟩
      intro part member
      rcases List.mem_cons.mp member with rfl | member
      · exact derived
      · exact nearestDerived part member

/-- Methods that each have a nearest reading have one together. -/
theorem exists_methods {methods : List (List Token × FunctionDecl)}
    (parts : ∀ method ∈ methods, HasNearest .function method.1) :
    ∃ nearest : List (List Token × FunctionDecl),
      nearest.flatMap Prod.fst = methods.flatMap Prod.fst ∧
        ∀ method ∈ nearest, DerivesStmt true .function method.1 (.function method.2) false := by
  induction methods with
  | nil => exact ⟨[], rfl, nofun⟩
  | cons first later inductionHypothesis =>
      obtain ⟨stmt, isOpen, derived⟩ := parts first List.mem_cons_self
      obtain ⟨rfl, declaration, rfl⟩ := derived.function_inv
      obtain ⟨nearest, tokensEquality, nearestDerived⟩ :=
        inductionHypothesis fun method member => parts method (List.mem_cons_of_mem _ member)
      refine ⟨(first.1, declaration) :: nearest, by simp [tokensEquality], ?_⟩
      intro method member
      rcases List.mem_cons.mp member with rfl | member
      · exact derived
      · exact nearestDerived method member

/-- Whatever the grammar derives has a reading with the nearest `if`. -/
theorem DerivesStmt.hasNearest {clause : Clause} {tokens : List Token} {stmt : Stmt}
    {isOpen : Bool} (derived : DerivesStmt false clause tokens stmt isOpen) :
    HasNearest clause tokens := by
  induction derived with
  | classDeclaration keywordKind nameKind superclassDerived openingKind _ closingKind methods =>
      obtain ⟨nearest, tokensEquality, nearestDerived⟩ := exists_methods methods
      rw [← tokensEquality]
      exact ⟨_, _, .classDeclaration keywordKind nameKind superclassDerived openingKind
        nearestDerived closingKind⟩
  | functionDeclaration keywordKind _ function =>
      obtain ⟨stmt, isOpen, functionDerived⟩ := function
      obtain ⟨rfl, -⟩ := functionDerived.function_inv
      exact ⟨_, _, .functionDeclaration keywordKind functionDerived⟩
  | varDeclaration declared => exact ⟨_, _, .varDeclaration declared⟩
  | noDeclaration _ statement =>
      obtain ⟨stmt, isOpen, statementDerived⟩ := statement
      exact ⟨_, _, .noDeclaration statementDerived⟩
  | function nameKind openingKind bounded names separated closingKind openedKind _ closedKind
      body =>
      obtain ⟨nearest, tokensEquality, nearestDerived⟩ := exists_sentences body
      rw [← tokensEquality]
      exact ⟨_, _, .function nameKind openingKind bounded names separated closingKind openedKind
        nearestDerived closedKind⟩
  | expression stated => exact ⟨_, _, .expression stated⟩
  | forLoop keywordKind openingKind initializer condition semicolonKind increment closingKind _
      body =>
      obtain ⟨stmt, isOpen, bodyDerived⟩ := body
      exact ⟨_, _, .forLoop keywordKind openingKind initializer condition semicolonKind increment
        closingKind bodyDerived⟩
  | ifThen keywordKind openingKind condition closingKind _ branch =>
      obtain ⟨stmt, isOpen, branchDerived⟩ := branch
      exact ⟨_, _, .ifThen keywordKind openingKind condition closingKind branchDerived⟩
  | ifThenElse keywordKind openingKind condition closingKind _ _ otherwiseKind _ branch
      alternative =>
      obtain ⟨stmt, isOpen, branchDerived⟩ := branch
      cases isOpen with
      | false =>
          obtain ⟨other, otherOpen, otherDerived⟩ := alternative
          exact ⟨_, _, .ifThenElse keywordKind openingKind condition closingKind branchDerived
            (fun _ => rfl) otherwiseKind otherDerived⟩
      | true =>
          obtain ⟨inner, innerOpen, innerDerived⟩ :=
            attachElse branchDerived rfl rfl otherwiseKind alternative
          exact ⟨_, _, .ifThen keywordKind openingKind condition closingKind innerDerived⟩
  | print keywordKind value semicolonKind => exact ⟨_, _, .print keywordKind value semicolonKind⟩
  | return_ keywordKind value semicolonKind =>
      exact ⟨_, _, .return_ keywordKind value semicolonKind⟩
  | whileLoop keywordKind openingKind condition closingKind _ body =>
      obtain ⟨stmt, isOpen, bodyDerived⟩ := body
      exact ⟨_, _, .whileLoop keywordKind openingKind condition closingKind bodyDerived⟩
  | block openedKind _ closedKind body =>
      obtain ⟨nearest, tokensEquality, nearestDerived⟩ := exists_sentences body
      rw [← tokensEquality]
      exact ⟨_, _, .block openedKind nearestDerived closedKind⟩

/-- A program derives from the grammar exactly if it does so with every `else` at
the nearest `if`. -/
theorem exists_derivesProgram_iff {tokens : List Token} :
    (∃ program, DerivesProgram false tokens program) ↔
      ∃ program, DerivesProgram true tokens program := by
  constructor
  · rintro ⟨_, ⟨derived⟩⟩
    obtain ⟨nearest, tokensEquality, nearestDerived⟩ :=
      exists_sentences fun part member => (derived part member).hasNearest
    rw [← tokensEquality]
    exact ⟨_, .mk nearestDerived⟩
  · rintro ⟨_, ⟨derived⟩⟩
    exact ⟨_, .mk fun part member => (derived part member).of_nearest⟩

end Grammar

end Lox
