import Mathlib.Tactic.Tauto
import Lox.Proofs.Parser.StatementSoundness
import Lox.Proofs.Scan.Rendering

/-!
# Spelling

Which names, operators and literals stand in a tree.  In the trees of scanned source
texts every name is written as a name and every operator as its kind asks; only the
literals are not restricted, so the predicates take what is allowed of them.
-/

namespace Lox

open Grammar

/-- The name is written as a name: it is a word, and it is not reserved. -/
def Name.IsSpelled (name : Name) : Prop :=
  Lexeme name.text.toList .identifier

namespace Token

/-- The operators before an operand. -/
def signs : List TokenKind :=
  [.punct .bang, .punct .minus]

/-- The operators between two operands that are always both evaluated. -/
def binaries : List TokenKind :=
  [.punct .bangEqual, .punct .equalEqual, .punct .greater, .punct .greaterEqual, .punct .less,
    .punct .lessEqual, .punct .minus, .punct .plus, .punct .slash, .punct .star]

/-- The operators between two operands of which the second may be skipped. -/
def connectives : List TokenKind :=
  [.keyword .or_, .keyword .and_]

/-- The token is written as its kind asks, and the kind is one of those listed. -/
def IsOneOf (kinds : List TokenKind) (token : Token) : Prop :=
  token.IsWritten ∧ token.kind ∈ kinds

end Token

/-- No string, and no number beyond the finite ones. -/
def Literal.IsPlain : Literal → Prop
  | .number value => value.isFinite = true
  | .string _ => False
  | _ => True

/-! ## Expressions -/

namespace Expr

/-- The expressions that an expression is put together from. -/
def children : Expr → List Expr
  | .group inner => [inner]
  | .unary _ operand => [operand]
  | .binary left _ right => [left, right]
  | .logical left _ right => [left, right]
  | .assign _ _ value => [value]
  | .call callee _ arguments => callee :: arguments
  | .get object _ => [object]
  | .set object _ value => [object, value]
  | _ => []

mutual

/-- The literals in an expression, from left to right. -/
def literals : Expr → List Literal
  | .literal value => [value]
  | .group inner => inner.literals
  | .unary _ operand => operand.literals
  | .binary left _ right => left.literals ++ right.literals
  | .logical left _ right => left.literals ++ right.literals
  | .var _ _ => []
  | .assign _ _ value => value.literals
  | .call callee _ arguments => callee.literals ++ literalsEach arguments
  | .get object _ => object.literals
  | .set object _ value => object.literals ++ value.literals
  | .this _ _ => []
  | .super _ _ _ => []

/-- The literals in expressions, from left to right. -/
def literalsEach : List Expr → List Literal
  | [] => []
  | first :: rest => first.literals ++ literalsEach rest

end

/-- The literals in an optional expression. -/
def optionLiterals : Option Expr → List Literal
  | none => []
  | some value => value.literals

section Spelled

variable (allowed : Literal → Prop)

mutual

/-- Names are names, operators are written as their kinds ask and stand where they may,
and literals are allowed. -/
def Spelled : Expr → Prop
  | .literal value => allowed value
  | .group inner => inner.Spelled
  | .unary operator operand => operator.IsOneOf Token.signs ∧ operand.Spelled
  | .binary left operator right =>
      operator.IsOneOf Token.binaries ∧ left.Spelled ∧ right.Spelled
  | .logical left operator right =>
      operator.IsOneOf Token.connectives ∧ left.Spelled ∧ right.Spelled
  | .var _ name => name.IsSpelled
  | .assign _ name value => name.IsSpelled ∧ value.Spelled
  | .call callee _ arguments => callee.Spelled ∧ SpelledEach arguments
  | .get object name => name.IsSpelled ∧ object.Spelled
  | .set object name value => name.IsSpelled ∧ object.Spelled ∧ value.Spelled
  | .this _ _ => True
  | .super _ _ method => method.IsSpelled

/-- All expressions are well spelled. -/
def SpelledEach : List Expr → Prop
  | [] => True
  | first :: rest => first.Spelled ∧ SpelledEach rest

end

/-- An optional expression is well spelled. -/
def OptionSpelled (expr : Option Expr) : Prop :=
  ∀ value ∈ expr, value.Spelled allowed

end Spelled

variable {allowed others : Literal → Prop}

theorem spelledEach_iff {exprs : List Expr} :
    SpelledEach allowed exprs ↔ ∀ expr ∈ exprs, expr.Spelled allowed := by
  induction exprs with
  | nil => simp [SpelledEach]
  | cons first rest inductionHypothesis => simp [SpelledEach, inductionHypothesis]

theorem Spelled.of_mem_children {whole : Expr} (spelled : whole.Spelled allowed) :
    ∀ expr ∈ whole.children, expr.Spelled allowed := by
  cases whole with
  | call callee line arguments =>
      exact List.forall_mem_cons.mpr ⟨spelled.1, spelledEach_iff.mp spelled.2⟩
  | _ => simp_all [children, Spelled]

mutual

/-- Whatever holds of all literals in a well spelled expression may be required of them. -/
theorem spelled_of_literals : ∀ expr : Expr, expr.Spelled allowed →
    (∀ literal ∈ expr.literals, others literal) → expr.Spelled others
  | .literal value, _, hold => hold value List.mem_cons_self
  | .group inner, spelled, hold => spelled_of_literals inner spelled hold
  | .unary _ operand, spelled, hold => ⟨spelled.1, spelled_of_literals operand spelled.2 hold⟩
  | .binary left _ right, spelled, hold =>
      have holdEach := List.forall_mem_append.mp hold
      ⟨spelled.1, spelled_of_literals left spelled.2.1 holdEach.1,
        spelled_of_literals right spelled.2.2 holdEach.2⟩
  | .logical left _ right, spelled, hold =>
      have holdEach := List.forall_mem_append.mp hold
      ⟨spelled.1, spelled_of_literals left spelled.2.1 holdEach.1,
        spelled_of_literals right spelled.2.2 holdEach.2⟩
  | .var _ _, spelled, _ => spelled
  | .assign _ _ value, spelled, hold => ⟨spelled.1, spelled_of_literals value spelled.2 hold⟩
  | .call callee _ arguments, spelled, hold =>
      have holdEach := List.forall_mem_append.mp hold
      ⟨spelled_of_literals callee spelled.1 holdEach.1,
        spelledEach_of_literals arguments spelled.2 holdEach.2⟩
  | .get object _, spelled, hold => ⟨spelled.1, spelled_of_literals object spelled.2 hold⟩
  | .set object _ value, spelled, hold =>
      have holdEach := List.forall_mem_append.mp hold
      ⟨spelled.1, spelled_of_literals object spelled.2.1 holdEach.1,
        spelled_of_literals value spelled.2.2 holdEach.2⟩
  | .this _ _, spelled, _ => spelled
  | .super _ _ _, spelled, _ => spelled

theorem spelledEach_of_literals : ∀ exprs : List Expr, SpelledEach allowed exprs →
    (∀ literal ∈ literalsEach exprs, others literal) → SpelledEach others exprs
  | [], spelled, _ => spelled
  | first :: rest, spelled, hold =>
      have holdEach := List.forall_mem_append.mp hold
      ⟨spelled_of_literals first spelled.1 holdEach.1,
        spelledEach_of_literals rest spelled.2 holdEach.2⟩

end

theorem optionSpelled_of_literals {expr : Option Expr} (spelled : OptionSpelled allowed expr)
    (hold : ∀ literal ∈ optionLiterals expr, others literal) : OptionSpelled others expr := by
  rintro value ⟨⟩
  exact spelled_of_literals value (spelled value rfl) hold

end Expr

/-! ## Statements -/

namespace Stmt

/-- The statements that a statement is put together from. -/
def children : Stmt → List Stmt
  | .block body => body
  | .if_ _ thenBranch elseBranch => thenBranch :: elseBranch.toList
  | .while_ _ body => [body]
  | .function declaration => declaration.body
  | .class_ _ _ methods => methods.flatMap FunctionDecl.body
  | _ => []

/-- The expressions that stand in a statement, outside its children. -/
def exprs : Stmt → List Expr
  | .expression value => [value]
  | .print value => [value]
  | .var _ initializer => initializer.toList
  | .if_ condition _ _ => [condition]
  | .while_ condition _ => [condition]
  | .return_ _ value => value.toList
  | .class_ _ superclass _ => superclass.toList
  | _ => []

mutual

/-- The literals in a statement, from left to right. -/
def literals : Stmt → List Literal
  | .expression value => value.literals
  | .print value => value.literals
  | .var _ initializer => Expr.optionLiterals initializer
  | .block body => literalsEach body
  | .if_ condition thenBranch none => condition.literals ++ thenBranch.literals
  | .if_ condition thenBranch (some elseBranch) =>
      condition.literals ++ (thenBranch.literals ++ elseBranch.literals)
  | .while_ condition body => condition.literals ++ body.literals
  | .function declaration => functionLiterals declaration
  | .return_ _ value => Expr.optionLiterals value
  | .class_ _ superclass methods => Expr.optionLiterals superclass ++ methodLiterals methods

/-- The literals in statements, from left to right. -/
def literalsEach : List Stmt → List Literal
  | [] => []
  | first :: rest => first.literals ++ literalsEach rest

/-- The literals in the body of a function. -/
def functionLiterals : FunctionDecl → List Literal
  | ⟨_, _, body⟩ => literalsEach body

/-- The literals in the bodies of methods. -/
def methodLiterals : List FunctionDecl → List Literal
  | [] => []
  | first :: rest => functionLiterals first ++ methodLiterals rest

end

section Spelled

variable (allowed : Literal → Prop)

mutual

/-- Names are names, operators are written as their kinds ask and stand where they may,
and literals are allowed. -/
def Spelled : Stmt → Prop
  | .expression value => value.Spelled allowed
  | .print value => value.Spelled allowed
  | .var name initializer => name.IsSpelled ∧ Expr.OptionSpelled allowed initializer
  | .block body => SpelledEach body
  | .if_ condition thenBranch none => condition.Spelled allowed ∧ thenBranch.Spelled
  | .if_ condition thenBranch (some elseBranch) =>
      condition.Spelled allowed ∧ thenBranch.Spelled ∧ elseBranch.Spelled
  | .while_ condition body => condition.Spelled allowed ∧ body.Spelled
  | .function declaration => FunctionSpelled declaration
  | .return_ _ value => Expr.OptionSpelled allowed value
  | .class_ name superclass methods =>
      name.IsSpelled ∧ Expr.OptionSpelled allowed superclass ∧ MethodsSpelled methods

/-- All statements are well spelled. -/
def SpelledEach : List Stmt → Prop
  | [] => True
  | first :: rest => first.Spelled ∧ SpelledEach rest

/-- The names of a function and its parameters are names, and its body is well spelled. -/
def FunctionSpelled : FunctionDecl → Prop
  | ⟨name, params, body⟩ =>
      name.IsSpelled ∧ (∀ param ∈ params, param.IsSpelled) ∧ SpelledEach body

/-- All methods are well spelled. -/
def MethodsSpelled : List FunctionDecl → Prop
  | [] => True
  | first :: rest => FunctionSpelled first ∧ MethodsSpelled rest

end

end Spelled

variable {allowed others : Literal → Prop}

theorem spelledEach_iff {stmts : List Stmt} :
    SpelledEach allowed stmts ↔ ∀ stmt ∈ stmts, stmt.Spelled allowed := by
  induction stmts with
  | nil => simp [SpelledEach]
  | cons first rest inductionHypothesis => simp [SpelledEach, inductionHypothesis]

theorem methodsSpelled_iff {methods : List FunctionDecl} :
    MethodsSpelled allowed methods ↔ ∀ method ∈ methods, FunctionSpelled allowed method := by
  induction methods with
  | nil => simp [MethodsSpelled]
  | cons first rest inductionHypothesis => simp [MethodsSpelled, inductionHypothesis]

theorem FunctionSpelled.body {declaration : FunctionDecl}
    (spelled : FunctionSpelled allowed declaration) : SpelledEach allowed declaration.body := by
  cases declaration
  exact spelled.2.2

theorem Spelled.of_mem_children {whole stmt : Stmt} (spelled : whole.Spelled allowed)
    (member : stmt ∈ whole.children) : stmt.Spelled allowed := by
  cases whole with
  | block body => exact spelledEach_iff.mp spelled stmt member
  | if_ condition thenBranch elseBranch =>
      cases elseBranch with
      | none =>
          cases List.mem_singleton.mp member
          exact spelled.2
      | some elseBranch =>
          rcases List.mem_cons.mp member with rfl | isElse
          · exact spelled.2.1
          · cases List.mem_singleton.mp isElse
            exact spelled.2.2
  | while_ condition body =>
      cases List.mem_singleton.mp member
      exact spelled.2
  | function declaration => exact spelledEach_iff.mp spelled.body stmt member
  | class_ name superclass methods =>
      rcases List.mem_flatMap.mp member with ⟨method, isMethod, inBody⟩
      have methodSpelled := methodsSpelled_iff.mp spelled.2.2 method isMethod
      exact spelledEach_iff.mp methodSpelled.body stmt inBody
  | _ => cases member

theorem Spelled.of_mem_exprs {stmt : Stmt} {expr : Expr} (spelled : stmt.Spelled allowed)
    (member : expr ∈ stmt.exprs) : expr.Spelled allowed := by
  cases stmt with
  | expression value =>
      cases List.mem_singleton.mp member
      exact spelled
  | print value =>
      cases List.mem_singleton.mp member
      exact spelled
  | var name initializer => exact spelled.2 expr (Option.mem_toList.mp member)
  | if_ condition thenBranch elseBranch =>
      cases List.mem_singleton.mp member
      cases elseBranch with
      | none => exact spelled.1
      | some elseBranch => exact spelled.1
  | while_ condition body =>
      cases List.mem_singleton.mp member
      exact spelled.1
  | return_ line value => exact spelled expr (Option.mem_toList.mp member)
  | class_ name superclass methods => exact spelled.2.1 expr (Option.mem_toList.mp member)
  | block body => cases member
  | function declaration => cases member

mutual

/-- Whatever holds of all literals in a well spelled statement may be required of them. -/
theorem spelled_of_literals : ∀ stmt : Stmt, stmt.Spelled allowed →
    (∀ literal ∈ stmt.literals, others literal) → stmt.Spelled others
  | .expression value, spelled, hold => value.spelled_of_literals spelled hold
  | .print value, spelled, hold => value.spelled_of_literals spelled hold
  | .var _ _, spelled, hold => ⟨spelled.1, Expr.optionSpelled_of_literals spelled.2 hold⟩
  | .block body, spelled, hold => spelledEach_of_literals body spelled hold
  | .if_ condition thenBranch none, spelled, hold =>
      have holdEach := List.forall_mem_append.mp hold
      ⟨condition.spelled_of_literals spelled.1 holdEach.1,
        spelled_of_literals thenBranch spelled.2 holdEach.2⟩
  | .if_ condition thenBranch (some elseBranch), spelled, hold =>
      have holdEach := List.forall_mem_append.mp hold
      have branches := List.forall_mem_append.mp holdEach.2
      ⟨condition.spelled_of_literals spelled.1 holdEach.1,
        spelled_of_literals thenBranch spelled.2.1 branches.1,
        spelled_of_literals elseBranch spelled.2.2 branches.2⟩
  | .while_ condition body, spelled, hold =>
      have holdEach := List.forall_mem_append.mp hold
      ⟨condition.spelled_of_literals spelled.1 holdEach.1,
        spelled_of_literals body spelled.2 holdEach.2⟩
  | .function declaration, spelled, hold =>
      functionSpelled_of_literals declaration spelled hold
  | .return_ _ _, spelled, hold => Expr.optionSpelled_of_literals spelled hold
  | .class_ _ _ methods, spelled, hold =>
      have holdEach := List.forall_mem_append.mp hold
      ⟨spelled.1, Expr.optionSpelled_of_literals spelled.2.1 holdEach.1,
        methodsSpelled_of_literals methods spelled.2.2 holdEach.2⟩

theorem spelledEach_of_literals : ∀ stmts : List Stmt, SpelledEach allowed stmts →
    (∀ literal ∈ literalsEach stmts, others literal) → SpelledEach others stmts
  | [], spelled, _ => spelled
  | first :: rest, spelled, hold =>
      have holdEach := List.forall_mem_append.mp hold
      ⟨spelled_of_literals first spelled.1 holdEach.1,
        spelledEach_of_literals rest spelled.2 holdEach.2⟩

theorem functionSpelled_of_literals : ∀ declaration : FunctionDecl,
    FunctionSpelled allowed declaration →
    (∀ literal ∈ functionLiterals declaration, others literal) →
    FunctionSpelled others declaration
  | ⟨_, _, body⟩, spelled, hold =>
      ⟨spelled.1, spelled.2.1, spelledEach_of_literals body spelled.2.2 hold⟩

theorem methodsSpelled_of_literals : ∀ methods : List FunctionDecl,
    MethodsSpelled allowed methods →
    (∀ literal ∈ methodLiterals methods, others literal) → MethodsSpelled others methods
  | [], spelled, _ => spelled
  | first :: rest, spelled, hold =>
      have holdEach := List.forall_mem_append.mp hold
      ⟨functionSpelled_of_literals first spelled.1 holdEach.1,
        methodsSpelled_of_literals rest spelled.2 holdEach.2⟩

end

end Stmt

/-! ## Trees of derivations -/

namespace Grammar

variable {allowed : Literal → Prop}

/-- All of the tokens are written as their kinds ask. -/
def Written (tokens : List Token) : Prop :=
  ∀ token ∈ tokens, token.IsWritten

@[simp]
theorem written_cons {token : Token} {tokens : List Token} :
    Written (token :: tokens) ↔ token.IsWritten ∧ Written tokens := by
  simp [Written]

@[simp]
theorem written_append {before after : List Token} :
    Written (before ++ after) ↔ Written before ∧ Written after := by
  simp [Written, or_imp, forall_and]

@[simp]
theorem written_flatMap {α : Type} {tokensOf : α → List Token} {parts : List α} :
    Written (parts.flatMap tokensOf) ↔ ∀ part ∈ parts, Written (tokensOf part) := by
  simp only [Written, List.mem_flatMap]
  exact ⟨fun written part member token inPart => written token ⟨part, member, inPart⟩,
    fun written token ⟨part, member, inPart⟩ => written part member token inPart⟩

theorem Separated.written {parts : List (List Token)} {whole : List Token}
    (separated : Separated parts whole) (written : Written whole) :
    ∀ part ∈ parts, Written part := by
  induction separated with
  | empty => exact nofun
  | single tokens => simpa using written
  | more _ _ inductionHypothesis =>
      simp only [written_append, written_cons] at written
      exact List.forall_mem_cons.mpr ⟨written.1, inductionHypothesis written.2.2⟩

theorem isSpelled_toName {token : Token} (written : token.IsWritten)
    (isName : token.kind = .identifier) : token.toName.IsSpelled := by
  rw [Token.IsWritten, isName] at written
  exact written

theorem spelled_node {tier : Tier} {operator : Token} (written : operator.IsWritten)
    (member : operator.kind ∈ tier.operators) {left right : Expr}
    (leftSpelled : left.Spelled allowed) (rightSpelled : right.Spelled allowed) :
    (tier.node left operator right).Spelled allowed := by
  cases tier
  all_goals
    refine ⟨⟨written, ?_⟩, leftSpelled, rightSpelled⟩
    simp only [Tier.operators, List.mem_cons, List.not_mem_nil, or_false] at member
    simp only [Token.binaries, Token.connectives, List.mem_cons]
    tauto

theorem Derives.spelled {phrase : Phrase} {tokens : List Token} {expr : Expr}
    (derived : Derives phrase tokens expr) (written : Written tokens) :
    expr.Spelled fun _ => True := by
  induction derived with
  | operation _ operatorKind _ leftSpelled rightSpelled =>
      simp only [written_append, written_cons] at written
      exact spelled_node written.2.1 operatorKind (leftSpelled written.1)
        (rightSpelled written.2.2)
  | unaryOperation operatorKind _ operandSpelled =>
      simp only [written_cons] at written
      refine ⟨⟨written.1, ?_⟩, operandSpelled written.2⟩
      simpa [Token.signs] using operatorKind
  | invocation _ _ _ _ separated _ calleeSpelled argumentsSpelled =>
      simp only [written_append, written_cons] at written
      refine ⟨calleeSpelled written.1, Expr.spelledEach_iff.mpr ?_⟩
      have argumentsWritten := separated.written written.2.2.1
      intro expr member
      rcases List.mem_map.mp member with ⟨argument, argumentMember, rfl⟩
      apply argumentsSpelled argument argumentMember
      exact argumentsWritten _ (List.mem_map_of_mem argumentMember)
  | _ => simp_all [Expr.Spelled, isSpelled_toName]

theorem DerivesOptional.spelled {tokens : List Token} {expr : Option Expr}
    (derived : DerivesOptional tokens expr) (written : Written tokens) :
    Expr.OptionSpelled (fun _ => True) expr := by
  cases derived with
  | absent => exact nofun
  | present derived =>
      rintro value ⟨⟩
      exact derived.spelled written

theorem VarDeclaration.spelled {tokens : List Token} {stmt : Stmt}
    (declared : VarDeclaration tokens stmt) (written : Written tokens) :
    stmt.Spelled fun _ => True := by
  cases declared with
  | plain _ nameKind =>
      simp only [written_cons] at written
      exact ⟨isSpelled_toName written.2.1 nameKind, nofun⟩
  | initialized _ nameKind _ derived =>
      simp only [written_cons, written_append] at written
      refine ⟨isSpelled_toName written.2.1 nameKind, ?_⟩
      rintro value ⟨⟩
      exact derived.spelled written.2.2.2.1

theorem ExpressionStatement.spelled {tokens : List Token} {stmt : Stmt}
    (stated : ExpressionStatement tokens stmt) (written : Written tokens) :
    stmt.Spelled fun _ => True := by
  obtain ⟨derived, -⟩ := stated
  simp only [written_append] at written
  exact derived.spelled written.1

theorem ForInitializer.spelled {tokens : List Token} {initializer : Option Stmt}
    (derived : ForInitializer tokens initializer) (written : Written tokens) :
    ∀ stmt ∈ initializer, stmt.Spelled fun _ => True := by
  cases derived with
  | absent => exact nofun
  | declaration declared =>
      rintro stmt ⟨⟩
      exact declared.spelled written
  | expression stated =>
      rintro stmt ⟨⟩
      exact stated.spelled written

theorem SuperclassClause.spelled {tokens : List Token} {superclass : Option Expr}
    (derived : SuperclassClause tokens superclass) (written : Written tokens) :
    Expr.OptionSpelled (fun _ => True) superclass := by
  cases derived with
  | absent => exact nofun
  | present id _ nameKind =>
      rintro expr ⟨⟩
      simp only [written_cons] at written
      exact isSpelled_toName written.2.1 nameKind

theorem lowerFor_spelled {initializer : Option Stmt} {condition increment : Option Expr}
    {body : Stmt} (initializerSpelled : ∀ stmt ∈ initializer, stmt.Spelled fun _ => True)
    (conditionSpelled : Expr.OptionSpelled (fun _ => True) condition)
    (incrementSpelled : Expr.OptionSpelled (fun _ => True) increment)
    (bodySpelled : body.Spelled fun _ => True) :
    (lowerFor initializer condition increment body).Spelled fun _ => True := by
  have testSpelled : (condition.getD (.literal (.bool true))).Spelled fun _ => True := by
    cases condition with
    | none => trivial
    | some value => exact conditionSpelled value rfl
  have around : ∀ {loop : Stmt}, (loop.Spelled fun _ => True) → ∀ stmt ∈ initializer,
      (Stmt.block [stmt, loop]).Spelled fun _ => True := by
    intro loop loopSpelled stmt member
    exact ⟨initializerSpelled stmt member, loopSpelled, trivial⟩
  cases increment with
  | none =>
      have loopSpelled : (Stmt.while_ _ body).Spelled fun _ => True := ⟨testSpelled, bodySpelled⟩
      cases initializer with
      | none => exact loopSpelled
      | some stmt => exact around loopSpelled stmt rfl
  | some value =>
      have loopSpelled : (Stmt.while_ _ (.block [body, .expression value])).Spelled
          fun _ => True := ⟨testSpelled, bodySpelled, incrementSpelled value rfl, trivial⟩
      cases initializer with
      | none => exact loopSpelled
      | some stmt => exact around loopSpelled stmt rfl

theorem DerivesStmt.spelled {nearest : Bool} {clause : Clause} {tokens : List Token}
    {stmt : Stmt} {isOpen : Bool} (derived : DerivesStmt nearest clause tokens stmt isOpen)
    (written : Written tokens) : stmt.Spelled fun _ => True := by
  induction derived with
  | classDeclaration _ nameKind superclassDerived _ _ _ methodsSpelled =>
      simp only [written_cons, written_append, written_flatMap] at written
      refine ⟨isSpelled_toName written.2.1 nameKind, superclassDerived.spelled written.2.2.1, ?_⟩
      apply Stmt.methodsSpelled_iff.mpr
      intro method member
      rcases List.mem_map.mp member with ⟨pair, pairMember, rfl⟩
      exact methodsSpelled pair pairMember (written.2.2.2.2.1 pair pairMember)
  | functionDeclaration _ _ functionSpelled =>
      simp only [written_cons] at written
      exact functionSpelled written.2
  | varDeclaration declared => exact declared.spelled written
  | noDeclaration _ statementSpelled => exact statementSpelled written
  | function nameKind _ _ names separated _ _ _ _ bodySpelled =>
      simp only [written_cons, written_append, written_flatMap] at written
      have paramsWritten := separated.written written.2.2.1
      refine ⟨isSpelled_toName written.1 nameKind, ?_, ?_⟩
      · intro param member
        rcases List.mem_map.mp member with ⟨token, tokenMember, rfl⟩
        have tokenWritten := paramsWritten [token] (List.mem_map_of_mem tokenMember)
        exact isSpelled_toName (tokenWritten token List.mem_cons_self) (names token tokenMember)
      · apply Stmt.spelledEach_iff.mpr
        intro stmt member
        rcases List.mem_map.mp member with ⟨part, partMember, rfl⟩
        exact bodySpelled part partMember (written.2.2.2.2.2.1 part partMember)
  | expression stated => exact stated.spelled written
  | forLoop _ _ initializer condition _ increment _ _ bodySpelled =>
      simp only [written_cons, written_append] at written
      exact lowerFor_spelled (initializer.spelled written.2.2.1)
        (condition.spelled written.2.2.2.1) (increment.spelled written.2.2.2.2.2.1)
        (bodySpelled written.2.2.2.2.2.2.2)
  | ifThen _ _ condition _ _ branchSpelled =>
      simp only [written_cons, written_append] at written
      exact ⟨condition.spelled written.2.2.1, branchSpelled written.2.2.2.2⟩
  | ifThenElse _ _ condition _ _ _ _ _ branchSpelled alternativeSpelled =>
      simp only [written_cons, written_append] at written
      exact ⟨condition.spelled written.2.2.1, branchSpelled written.2.2.2.2.1,
        alternativeSpelled written.2.2.2.2.2.2⟩
  | print _ value =>
      simp only [written_cons, written_append] at written
      exact value.spelled written.2.1
  | return_ _ value =>
      simp only [written_cons, written_append] at written
      exact value.spelled written.2.1
  | whileLoop _ _ condition _ _ bodySpelled =>
      simp only [written_cons, written_append] at written
      exact ⟨condition.spelled written.2.2.1, bodySpelled written.2.2.2.2⟩
  | block _ _ _ bodySpelled =>
      simp only [written_cons, written_append, written_flatMap] at written
      apply Stmt.spelledEach_iff.mpr
      intro stmt member
      rcases List.mem_map.mp member with ⟨part, partMember, rfl⟩
      exact bodySpelled part partMember (written.2.1 part partMember)

/-- What derives from the tokens of a source text is written as it should be. -/
theorem written_of_scanned {source : String} {before rest : List Token}
    (split : scanTokens source = before ++ rest) (inside : Inside before) : Written before := by
  intro token member
  have scanned : token ∈ scanTokens source := by
    rw [split]
    exact List.mem_append_left _ member
  exact isWritten_of_mem_scanTokens scanned (inside token member)

end Grammar

/-! ## Trees of source texts -/

/-- The expression that `parseExpression` gives is the tree of the tokens it took. -/
theorem parseExpression_sound {nextId finalId : UseId} {tokens : List Token} {expr : Expr}
    (parsed : parseExpression nextId tokens = (.ok expr, finalId)) :
    ∃ before rest, tokens = before ++ rest ∧ Derives .assignment before expr := by
  obtain ⟨final, result, clean, -⟩ := Parser.parseExpression_eq_ok parsed
  obtain ⟨before, restEquality, derived⟩ :=
    Parser.expression_sound tokens.length (Nat.le_refl _) result clean
  exact ⟨before, final.rest, restEquality, derived⟩

/-- The statement stands, at whatever depth, in a program that was parsed from a source
text. -/
inductive Stmt.IsParsed : Stmt → Prop where
  | declaration {source nextId finalId program stmt} :
      parseProgram nextId (scanTokens source) = (.ok program, finalId) →
      stmt ∈ program → Stmt.IsParsed stmt
  | part {whole stmt} : Stmt.IsParsed whole → stmt ∈ whole.children → Stmt.IsParsed stmt

/-- The expression was parsed from a source text, or it stands, at whatever depth, in an
expression or a statement that was. -/
inductive Expr.IsParsed : Expr → Prop where
  | expression {source nextId finalId expr} :
      parseExpression nextId (scanTokens source) = (.ok expr, finalId) → Expr.IsParsed expr
  | statement {stmt : Stmt} {expr} : stmt.IsParsed → expr ∈ stmt.exprs → Expr.IsParsed expr
  | part {whole expr} : Expr.IsParsed whole → expr ∈ whole.children → Expr.IsParsed expr

theorem Stmt.IsParsed.spelled {stmt : Stmt} (parsed : stmt.IsParsed) :
    stmt.Spelled fun _ => True := by
  induction parsed with
  | declaration isProgram member =>
      obtain ⟨before, rest, split, -, ⟨derived⟩⟩ := parseProgram_sound isProgram
      rcases List.mem_map.mp member with ⟨sentence, sentenceMember, rfl⟩
      have inside : Inside (_ : List Token) := inside_flatMap.mpr fun part partMember =>
        (derived part partMember).inside
      have written := written_flatMap.mp (written_of_scanned split inside)
      exact (derived sentence sentenceMember).spelled (written sentence sentenceMember)
  | part _ member wholeSpelled => exact wholeSpelled.of_mem_children member

theorem Expr.IsParsed.spelled {expr : Expr} (parsed : expr.IsParsed) :
    expr.Spelled fun _ => True := by
  induction parsed with
  | expression isExpression =>
      obtain ⟨before, rest, split, derived⟩ := parseExpression_sound isExpression
      exact derived.spelled (written_of_scanned split derived.inside)
  | statement isParsed member => exact isParsed.spelled.of_mem_exprs member
  | part _ member wholeSpelled => exact wholeSpelled.of_mem_children _ member

end Lox
