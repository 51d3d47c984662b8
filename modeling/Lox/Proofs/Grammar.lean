import Lox.Proofs.Syntax.Relabel

/-!
# The grammar

The grammar of programs as relations between token lists and trees:

```text
program     → declaration* EOF
declaration → classDecl | funDecl | varDecl | statement
classDecl   → "class" IDENT ( "<" IDENT )? "{" function* "}"
funDecl     → "fun" function
function    → IDENT "(" parameters? ")" block
varDecl     → "var" IDENT ( "=" expression )? ";"
statement   → exprStmt | forStmt | ifStmt | printStmt | returnStmt | whileStmt | block
forStmt     → "for" "(" ( varDecl | exprStmt | ";" ) expression? ";" expression? ")" statement
expression  → assignment
assignment  → ( call "." )? IDENT "=" assignment | logic_or
logic_or    → logic_and ( "or" logic_and )*      and so on, down to factor
unary       → ( "!" | "-" ) unary | call
call        → primary ( "(" arguments? ")" | "." IDENT )*
```

Repetitions of operators are read as left recursion, which gives the tree of a
left-associative level.  Uses of variables may carry any identities.  The
grammar leaves open to which `if` an `else` belongs; the relation for
statements says whether a statement ends with an `if` that could still take an
`else`, so that the reading with the nearest `if` can be singled out.
-/

namespace Lox

namespace Grammar

/-! ## Expressions -/

/-- The levels of operators between two operands, the loosest first. -/
inductive Tier where
  | or
  | and
  | equality
  | comparison
  | term
  | factor
  deriving DecidableEq

/-- The nonterminals for expressions. -/
inductive Phrase where
  | assignment
  | tier (tier : Tier)
  | unary
  | call
  | primary

namespace Tier

/-- The operators of a level. -/
def operators : Tier → List TokenKind
  | .or => [.keyword .or_]
  | .and => [.keyword .and_]
  | .equality => [.punct .bangEqual, .punct .equalEqual]
  | .comparison =>
      [.punct .greater, .punct .greaterEqual, .punct .less, .punct .lessEqual]
  | .term => [.punct .minus, .punct .plus]
  | .factor => [.punct .slash, .punct .star]

/-- The nonterminal of the operands of a level. -/
def operand : Tier → Phrase
  | .or => .tier .and
  | .and => .tier .equality
  | .equality => .tier .comparison
  | .comparison => .tier .term
  | .term => .tier .factor
  | .factor => .unary

/-- The tree of an operator of a level between two operands. -/
def node : Tier → Expr → Token → Expr → Expr
  | .or => .logical
  | .and => .logical
  | _ => .binary

theorem inside {tier : Tier} {kind : TokenKind} (member : kind ∈ tier.operators) :
    kind ≠ .endOfInput := by
  rintro rfl
  cases tier <;> simp [operators] at member

end Tier

/-- Token lists with a comma between each two of them, put together. -/
inductive Separated : List (List Token) → List Token → Prop
  | empty : Separated [] []
  | single (tokens : List Token) : Separated [tokens] tokens
  | more {tokens next joined : List Token} {later : List (List Token)} {comma : Token} :
      comma.kind = .punct .comma →
      Separated (next :: later) joined →
      Separated (tokens :: next :: later) (tokens ++ comma :: joined)

theorem Separated.cons_cons {tokens next whole : List Token} {later : List (List Token)}
    (separated : Separated (tokens :: next :: later) whole) :
    ∃ comma joined, comma.kind = .punct .comma ∧ Separated (next :: later) joined ∧
      whole = tokens ++ comma :: joined := by
  cases separated with
  | more commaKind laterSeparated => exact ⟨_, _, commaKind, laterSeparated, rfl⟩

theorem Separated.length_le_of_mem {parts : List (List Token)} {whole tokens : List Token}
    (separated : Separated parts whole) (member : tokens ∈ parts) :
    tokens.length ≤ whole.length := by
  induction separated with
  | empty => cases member
  | single => exact Nat.le_of_eq (congrArg List.length (List.mem_singleton.mp member))
  | more _ _ inductionHypothesis =>
      rw [List.length_append, List.length_cons]
      rcases List.mem_cons.mp member with rfl | later
      · omega
      · have shorter := inductionHypothesis later
        omega

/-- There are no more parts than tokens. -/
theorem Separated.count_le {parts : List (List Token)} {whole : List Token}
    (separated : Separated parts whole) (nonempty : ∀ tokens ∈ parts, tokens ≠ []) :
    parts.length ≤ whole.length := by
  induction separated with
  | empty => exact Nat.le_refl _
  | single tokens =>
      have taken := List.length_pos_iff.mpr (nonempty tokens List.mem_cons_self)
      rw [List.length_singleton]
      omega
  | more _ _ inductionHypothesis =>
      have fewer := inductionHypothesis fun tokens member =>
        nonempty tokens (List.mem_cons_of_mem _ member)
      simp only [List.length_append, List.length_cons] at fewer ⊢
      omega

/-- None of the tokens is the end of input. -/
def Inside (tokens : List Token) : Prop :=
  ∀ token ∈ tokens, token.kind ≠ .endOfInput

@[simp]
theorem inside_nil : Inside [] :=
  nofun

@[simp]
theorem inside_cons {token : Token} {tokens : List Token} :
    Inside (token :: tokens) ↔ token.kind ≠ .endOfInput ∧ Inside tokens := by
  simp [Inside]

@[simp]
theorem inside_append {before after : List Token} :
    Inside (before ++ after) ↔ Inside before ∧ Inside after := by
  simp [Inside, or_imp, forall_and]

@[simp]
theorem inside_flatMap {α : Type} {tokensOf : α → List Token} {parts : List α} :
    Inside (parts.flatMap tokensOf) ↔ ∀ part ∈ parts, Inside (tokensOf part) := by
  induction parts with
  | nil => simp
  | cons first later inductionHypothesis => simp [inductionHypothesis]

theorem Separated.inside {parts : List (List Token)} {whole : List Token}
    (separated : Separated parts whole) (partsInside : ∀ tokens ∈ parts, Inside tokens) :
    Inside whole := by
  induction separated with
  | empty => exact inside_nil
  | single tokens => exact partsInside tokens List.mem_cons_self
  | more commaKind _ inductionHypothesis =>
      have laterInside := inductionHypothesis fun tokens member =>
        partsInside tokens (List.mem_cons_of_mem _ member)
      simp [commaKind, laterInside, partsInside]

/-- The most arguments a call and parameters a function may have. -/
def maxArity : Nat :=
  255

/-- The tokens derive from the nonterminal, and the expression is the tree of
that derivation. -/
inductive Derives : Phrase → List Token → Expr → Prop
  | assign {name equals : Token} {tokens : List Token} {value : Expr} (id : UseId) :
      name.kind = .identifier →
      equals.kind = .punct .equal →
      Derives .assignment tokens value →
      Derives .assignment (name :: equals :: tokens) (.assign id name.toName value)
  | set {target tokens : List Token} {dot name equals : Token} {object value : Expr} :
      Derives .call target object →
      dot.kind = .punct .dot →
      name.kind = .identifier →
      equals.kind = .punct .equal →
      Derives .assignment tokens value →
      Derives .assignment (target ++ dot :: name :: equals :: tokens)
        (.set object name.toName value)
  | noAssignment {tokens : List Token} {expr : Expr} :
      Derives (.tier .or) tokens expr →
      Derives .assignment tokens expr
  | operand {tier : Tier} {tokens : List Token} {expr : Expr} :
      Derives tier.operand tokens expr →
      Derives (.tier tier) tokens expr
  | operation {tier : Tier} {before after : List Token} {operator : Token}
      {left right : Expr} :
      Derives (.tier tier) before left →
      operator.kind ∈ tier.operators →
      Derives tier.operand after right →
      Derives (.tier tier) (before ++ operator :: after) (tier.node left operator right)
  | unaryOperation {operator : Token} {tokens : List Token} {expr : Expr} :
      operator.kind = .punct .bang ∨ operator.kind = .punct .minus →
      Derives .unary tokens expr →
      Derives .unary (operator :: tokens) (.unary operator expr)
  | noOperation {tokens : List Token} {expr : Expr} :
      Derives .call tokens expr →
      Derives .unary tokens expr
  | invocation {callee joined : List Token} {opening closing : Token} {subject : Expr}
      {arguments : List (List Token × Expr)} :
      Derives .call callee subject →
      opening.kind = .punct .leftParen →
      arguments.length ≤ maxArity →
      (∀ argument ∈ arguments, Derives .assignment argument.1 argument.2) →
      Separated (arguments.map Prod.fst) joined →
      closing.kind = .punct .rightParen →
      Derives .call (callee ++ opening :: (joined ++ [closing]))
        (.call subject closing.line (arguments.map Prod.snd))
  | property {target : List Token} {dot name : Token} {object : Expr} :
      Derives .call target object →
      dot.kind = .punct .dot →
      name.kind = .identifier →
      Derives .call (target ++ [dot, name]) (.get object name.toName)
  | noSuffix {tokens : List Token} {expr : Expr} :
      Derives .primary tokens expr →
      Derives .call tokens expr
  | numberLiteral {token : Token} {value : Float} :
      token.kind = .number value →
      Derives .primary [token] (.literal (.number value))
  | stringLiteral {token : Token} {contents : String} :
      token.kind = .string contents →
      Derives .primary [token] (.literal (.string contents))
  | trueLiteral {token : Token} :
      token.kind = .keyword .true_ →
      Derives .primary [token] (.literal (.bool true))
  | falseLiteral {token : Token} :
      token.kind = .keyword .false_ →
      Derives .primary [token] (.literal (.bool false))
  | nilLiteral {token : Token} :
      token.kind = .keyword .nil_ →
      Derives .primary [token] (.literal .nil)
  | this {token : Token} (id : UseId) :
      token.kind = .keyword .this_ →
      Derives .primary [token] (.this id token.line)
  | identifier {token : Token} (id : UseId) :
      token.kind = .identifier →
      Derives .primary [token] (.var id token.toName)
  | group {opening closing : Token} {tokens : List Token} {inner : Expr} :
      opening.kind = .punct .leftParen →
      Derives .assignment tokens inner →
      closing.kind = .punct .rightParen →
      Derives .primary (opening :: (tokens ++ [closing])) (.group inner)
  | super {keyword dot method : Token} (id : UseId) :
      keyword.kind = .keyword .super_ →
      dot.kind = .punct .dot →
      method.kind = .identifier →
      Derives .primary [keyword, dot, method] (.super id keyword.line method.toName)

/-- The kinds of tokens with which calls start. -/
def startsCall : TokenKind → Bool
  | .number _ => true
  | .string _ => true
  | .identifier => true
  | .keyword .true_ => true
  | .keyword .false_ => true
  | .keyword .nil_ => true
  | .keyword .this_ => true
  | .keyword .super_ => true
  | .punct .leftParen => true
  | _ => false

/-- The kinds of tokens with which expressions start. -/
def startsExpression (kind : TokenKind) : Bool :=
  kind = .punct .bang || kind = .punct .minus || startsCall kind

/-- The first token of a phrase. -/
theorem Derives.head {phrase : Phrase} {tokens : List Token} {expr : Expr}
    (derived : Derives phrase tokens expr) :
    ∃ first later, tokens = first :: later ∧ startsExpression first.kind = true ∧
      (phrase = .call ∨ phrase = .primary → startsCall first.kind = true) := by
  have ofCall : ∀ {kind}, startsCall kind = true → startsExpression kind = true := by
    intro kind starts
    simp [startsExpression, starts]
  induction derived with
  | assign _ nameKind =>
      exact ⟨_, _, rfl, by rw [nameKind]; rfl, by simp⟩
  | set _ _ _ _ _ inductionHypothesis =>
      obtain ⟨first, later, rfl, starts, -⟩ := inductionHypothesis
      exact ⟨first, _, rfl, starts, by simp⟩
  | noAssignment _ inductionHypothesis =>
      obtain ⟨first, later, rfl, starts, -⟩ := inductionHypothesis
      exact ⟨first, _, rfl, starts, by simp⟩
  | operand _ inductionHypothesis =>
      obtain ⟨first, later, rfl, starts, -⟩ := inductionHypothesis
      exact ⟨first, _, rfl, starts, by simp⟩
  | operation _ _ _ inductionHypothesis =>
      obtain ⟨first, later, rfl, starts, -⟩ := inductionHypothesis
      exact ⟨first, _, rfl, starts, by simp⟩
  | unaryOperation operatorKind =>
      refine ⟨_, _, rfl, ?_, by simp⟩
      rcases operatorKind with kind | kind <;> rw [kind] <;> rfl
  | noOperation _ inductionHypothesis =>
      obtain ⟨first, later, rfl, starts, -⟩ := inductionHypothesis
      exact ⟨first, _, rfl, starts, by simp⟩
  | invocation _ _ _ _ _ _ inductionHypothesis =>
      obtain ⟨first, later, rfl, starts, startsToo⟩ := inductionHypothesis
      exact ⟨first, _, rfl, starts, fun _ => startsToo (.inl rfl)⟩
  | property _ _ _ inductionHypothesis =>
      obtain ⟨first, later, rfl, starts, startsToo⟩ := inductionHypothesis
      exact ⟨first, _, rfl, starts, fun _ => startsToo (.inl rfl)⟩
  | noSuffix _ inductionHypothesis =>
      obtain ⟨first, later, rfl, starts, startsToo⟩ := inductionHypothesis
      exact ⟨first, _, rfl, starts, fun _ => startsToo (.inr rfl)⟩
  | numberLiteral kind => exact ⟨_, _, rfl, ofCall (by rw [kind]; rfl), fun _ => by rw [kind]; rfl⟩
  | stringLiteral kind => exact ⟨_, _, rfl, ofCall (by rw [kind]; rfl), fun _ => by rw [kind]; rfl⟩
  | trueLiteral kind => exact ⟨_, _, rfl, ofCall (by rw [kind]; rfl), fun _ => by rw [kind]; rfl⟩
  | falseLiteral kind => exact ⟨_, _, rfl, ofCall (by rw [kind]; rfl), fun _ => by rw [kind]; rfl⟩
  | nilLiteral kind => exact ⟨_, _, rfl, ofCall (by rw [kind]; rfl), fun _ => by rw [kind]; rfl⟩
  | this _ kind => exact ⟨_, _, rfl, ofCall (by rw [kind]; rfl), fun _ => by rw [kind]; rfl⟩
  | identifier _ kind => exact ⟨_, _, rfl, ofCall (by rw [kind]; rfl), fun _ => by rw [kind]; rfl⟩
  | group kind => exact ⟨_, _, rfl, ofCall (by rw [kind]; rfl), fun _ => by rw [kind]; rfl⟩
  | super _ kind => exact ⟨_, _, rfl, ofCall (by rw [kind]; rfl), fun _ => by rw [kind]; rfl⟩

/-- Every expression has at least one token. -/
theorem Derives.tokens_ne_nil {phrase : Phrase} {tokens : List Token} {expr : Expr}
    (derived : Derives phrase tokens expr) :
    tokens ≠ [] := by
  obtain ⟨first, later, rfl, -⟩ := derived.head
  simp

/-- A call is an expression of every level. -/
theorem Derives.of_call {tokens : List Token} {expr : Expr} (derived : Derives .call tokens expr) :
    Derives .assignment tokens expr := by
  have factor : Derives (.tier .factor) tokens expr := .operand (.noOperation derived)
  have comparison : Derives (.tier .comparison) tokens expr := .operand (.operand factor)
  have conjunct : Derives (.tier .and) tokens expr := .operand (.operand comparison)
  exact .noAssignment (.operand conjunct)

/-- No expression goes beyond the end of input. -/
theorem Derives.inside {phrase : Phrase} {tokens : List Token} {expr : Expr}
    (derived : Derives phrase tokens expr) : Inside tokens := by
  induction derived with
  | operation _ operatorKind _ leftInside rightInside =>
      simp [leftInside, rightInside, Tier.inside operatorKind]
  | unaryOperation operatorKind _ operandInside =>
      rcases operatorKind with kind | kind <;> simp [kind, operandInside]
  | invocation _ openingKind _ _ separated closingKind calleeInside argumentsInside =>
      have joinedInside := separated.inside (by simpa using argumentsInside)
      simp [calleeInside, openingKind, joinedInside, closingKind]
  | _ => simp_all

/-- An expression or nothing. -/
inductive DerivesOptional : List Token → Option Expr → Prop
  | absent : DerivesOptional [] none
  | present {tokens : List Token} {expr : Expr} :
      Derives .assignment tokens expr →
      DerivesOptional tokens (some expr)

theorem DerivesOptional.inside {tokens : List Token} {expr : Option Expr}
    (derived : DerivesOptional tokens expr) :
    Inside tokens := by
  cases derived with
  | absent => exact nofun
  | present derived => exact derived.inside

/-! ## Statements -/

/-- A variable declaration. -/
inductive VarDeclaration : List Token → Stmt → Prop
  | plain {keyword name semicolon : Token} :
      keyword.kind = .keyword .var_ →
      name.kind = .identifier →
      semicolon.kind = .punct .semicolon →
      VarDeclaration [keyword, name, semicolon] (.var name.toName none)
  | initialized {keyword name equals semicolon : Token} {tokens : List Token} {value : Expr} :
      keyword.kind = .keyword .var_ →
      name.kind = .identifier →
      equals.kind = .punct .equal →
      Derives .assignment tokens value →
      semicolon.kind = .punct .semicolon →
      VarDeclaration (keyword :: name :: equals :: (tokens ++ [semicolon]))
        (.var name.toName (some value))

theorem VarDeclaration.head {tokens : List Token} {stmt : Stmt}
    (declared : VarDeclaration tokens stmt) :
    ∃ keyword later, tokens = keyword :: later ∧ keyword.kind = .keyword .var_ := by
  cases declared with
  | plain keywordKind => exact ⟨_, _, rfl, keywordKind⟩
  | initialized keywordKind => exact ⟨_, _, rfl, keywordKind⟩

theorem VarDeclaration.inside {tokens : List Token} {stmt : Stmt}
    (declared : VarDeclaration tokens stmt) :
    Inside tokens := by
  cases declared with
  | plain => simp_all
  | initialized _ _ _ derived =>
      have valueInside := derived.inside
      simp_all

/-- An expression and a semicolon. -/
inductive ExpressionStatement : List Token → Stmt → Prop
  | mk {tokens : List Token} {semicolon : Token} {value : Expr} :
      Derives .assignment tokens value →
      semicolon.kind = .punct .semicolon →
      ExpressionStatement (tokens ++ [semicolon]) (.expression value)

theorem ExpressionStatement.head {tokens : List Token} {stmt : Stmt}
    (stated : ExpressionStatement tokens stmt) :
    ∃ first later, tokens = first :: later ∧ startsExpression first.kind = true := by
  obtain ⟨derived, -⟩ := stated
  obtain ⟨first, later, rfl, starts, -⟩ := derived.head
  exact ⟨first, _, rfl, starts⟩

theorem ExpressionStatement.inside {tokens : List Token} {stmt : Stmt}
    (stated : ExpressionStatement tokens stmt) :
    Inside tokens := by
  obtain ⟨derived, semicolonKind⟩ := stated
  have valueInside := derived.inside
  simp_all

/-- The first clause of a `for` loop. -/
inductive ForInitializer : List Token → Option Stmt → Prop
  | absent {semicolon : Token} :
      semicolon.kind = .punct .semicolon →
      ForInitializer [semicolon] none
  | declaration {tokens : List Token} {stmt : Stmt} :
      VarDeclaration tokens stmt →
      ForInitializer tokens (some stmt)
  | expression {tokens : List Token} {stmt : Stmt} :
      ExpressionStatement tokens stmt →
      ForInitializer tokens (some stmt)

theorem ForInitializer.inside {tokens : List Token} {initializer : Option Stmt}
    (derived : ForInitializer tokens initializer) :
    Inside tokens := by
  cases derived with
  | absent semicolonKind => simp [semicolonKind]
  | declaration declared => exact declared.inside
  | expression stated => exact stated.inside

/-- What a `for` loop stands for: the initializer, if there is one, in a block
around a `while` loop.  A missing condition is `true`, and the increment, if
there is one, follows the body in a block of its own. -/
def lowerFor (initializer : Option Stmt) (condition increment : Option Expr)
    (body : Stmt) : Stmt :=
  let repeated :=
    match increment with
    | none => body
    | some value => .block [body, .expression value]
  let loop := .while_ (condition.getD (.literal (.bool true))) repeated
  match initializer with
  | none => loop
  | some stmt => .block [stmt, loop]

/-- The superclass clause of a class. -/
inductive SuperclassClause : List Token → Option Expr → Prop
  | absent : SuperclassClause [] none
  | present {less name : Token} (id : UseId) :
      less.kind = .punct .less →
      name.kind = .identifier →
      SuperclassClause [less, name] (some (.var id name.toName))

theorem SuperclassClause.inside {tokens : List Token} {superclass : Option Expr}
    (derived : SuperclassClause tokens superclass) :
    Inside tokens := by
  cases derived <;> simp_all

/-- The nonterminals for statements.  The tree of a function is the statement
that declares it. -/
inductive Clause where
  | declaration
  | statement
  | function

/-- A statement with its tokens; `isOpen` says whether it ends with an `if`
that has no `else`. -/
structure Sentence where
  tokens : List Token
  tree : Stmt
  isOpen : Bool

/-- The tokens derive from the nonterminal, and the statement is the tree of that
derivation.  The last argument says whether the tokens end with an `if` that has
no `else`.  With `nearest`, an `else` belongs to the nearest `if` that can take
it: no such `if` may end the branch before the `else`. -/
inductive DerivesStmt (nearest : Bool) : Clause → List Token → Stmt → Bool → Prop
  | classDeclaration {keyword name opening closing : Token} {clause : List Token}
      {superclass : Option Expr} {methods : List (List Token × FunctionDecl)} :
      keyword.kind = .keyword .class_ →
      name.kind = .identifier →
      SuperclassClause clause superclass →
      opening.kind = .punct .leftBrace →
      (∀ method ∈ methods,
        DerivesStmt nearest .function method.1 (.function method.2) false) →
      closing.kind = .punct .rightBrace →
      DerivesStmt nearest .declaration
        (keyword :: name :: (clause ++ opening :: (methods.flatMap Prod.fst ++ [closing])))
        (.class_ name.toName superclass (methods.map Prod.snd)) false
  | functionDeclaration {keyword : Token} {tokens : List Token} {stmt : Stmt} :
      keyword.kind = .keyword .fun_ →
      DerivesStmt nearest .function tokens stmt false →
      DerivesStmt nearest .declaration (keyword :: tokens) stmt false
  | varDeclaration {tokens : List Token} {stmt : Stmt} :
      VarDeclaration tokens stmt →
      DerivesStmt nearest .declaration tokens stmt false
  | noDeclaration {tokens : List Token} {stmt : Stmt} {isOpen : Bool} :
      DerivesStmt nearest .statement tokens stmt isOpen →
      DerivesStmt nearest .declaration tokens stmt isOpen
  | function {name opening closing opened closed : Token} {joined : List Token}
      {params : List Token} {body : List Sentence} :
      name.kind = .identifier →
      opening.kind = .punct .leftParen →
      params.length ≤ maxArity →
      (∀ param ∈ params, param.kind = .identifier) →
      Separated (params.map ([·])) joined →
      closing.kind = .punct .rightParen →
      opened.kind = .punct .leftBrace →
      (∀ part ∈ body, DerivesStmt nearest .declaration part.tokens part.tree part.isOpen) →
      closed.kind = .punct .rightBrace →
      DerivesStmt nearest .function
        (name :: opening ::
          (joined ++ closing :: opened :: (body.flatMap Sentence.tokens ++ [closed])))
        (.function
          { name := name.toName
            params := params.map Token.toName
            body := body.map Sentence.tree }) false
  | expression {tokens : List Token} {stmt : Stmt} :
      ExpressionStatement tokens stmt →
      DerivesStmt nearest .statement tokens stmt false
  | forLoop {keyword opening semicolon closing : Token}
      {first second third last : List Token} {initializer : Option Stmt}
      {condition increment : Option Expr} {body : Stmt} {isOpen : Bool} :
      keyword.kind = .keyword .for_ →
      opening.kind = .punct .leftParen →
      ForInitializer first initializer →
      DerivesOptional second condition →
      semicolon.kind = .punct .semicolon →
      DerivesOptional third increment →
      closing.kind = .punct .rightParen →
      DerivesStmt nearest .statement last body isOpen →
      DerivesStmt nearest .statement
        (keyword :: opening :: (first ++ (second ++ semicolon :: (third ++ closing :: last))))
        (lowerFor initializer condition increment body) isOpen
  | ifThen {keyword opening closing : Token} {tested branch : List Token}
      {condition : Expr} {thenBranch : Stmt} {isOpen : Bool} :
      keyword.kind = .keyword .if_ →
      opening.kind = .punct .leftParen →
      Derives .assignment tested condition →
      closing.kind = .punct .rightParen →
      DerivesStmt nearest .statement branch thenBranch isOpen →
      DerivesStmt nearest .statement (keyword :: opening :: (tested ++ closing :: branch))
        (.if_ condition thenBranch none) true
  | ifThenElse {keyword opening closing otherwise : Token}
      {tested branch alternative : List Token} {condition : Expr}
      {thenBranch elseBranch : Stmt} {thenOpen isOpen : Bool} :
      keyword.kind = .keyword .if_ →
      opening.kind = .punct .leftParen →
      Derives .assignment tested condition →
      closing.kind = .punct .rightParen →
      DerivesStmt nearest .statement branch thenBranch thenOpen →
      (nearest = true → thenOpen = false) →
      otherwise.kind = .keyword .else_ →
      DerivesStmt nearest .statement alternative elseBranch isOpen →
      DerivesStmt nearest .statement
        (keyword :: opening :: (tested ++ closing :: (branch ++ otherwise :: alternative)))
        (.if_ condition thenBranch (some elseBranch)) isOpen
  | print {keyword semicolon : Token} {tokens : List Token} {value : Expr} :
      keyword.kind = .keyword .print_ →
      Derives .assignment tokens value →
      semicolon.kind = .punct .semicolon →
      DerivesStmt nearest .statement (keyword :: (tokens ++ [semicolon])) (.print value) false
  | return_ {keyword semicolon : Token} {tokens : List Token} {value : Option Expr} :
      keyword.kind = .keyword .return_ →
      DerivesOptional tokens value →
      semicolon.kind = .punct .semicolon →
      DerivesStmt nearest .statement (keyword :: (tokens ++ [semicolon]))
        (.return_ keyword.line value) false
  | whileLoop {keyword opening closing : Token} {tested last : List Token}
      {condition : Expr} {body : Stmt} {isOpen : Bool} :
      keyword.kind = .keyword .while_ →
      opening.kind = .punct .leftParen →
      Derives .assignment tested condition →
      closing.kind = .punct .rightParen →
      DerivesStmt nearest .statement last body isOpen →
      DerivesStmt nearest .statement (keyword :: opening :: (tested ++ closing :: last))
        (.while_ condition body) isOpen
  | block {opened closed : Token} {body : List Sentence} :
      opened.kind = .punct .leftBrace →
      (∀ part ∈ body, DerivesStmt nearest .declaration part.tokens part.tree part.isOpen) →
      closed.kind = .punct .rightBrace →
      DerivesStmt nearest .statement (opened :: (body.flatMap Sentence.tokens ++ [closed]))
        (.block (body.map Sentence.tree)) false

/-- The tokens derive from `program`, and the statements are the tree of that
derivation. -/
inductive DerivesProgram (nearest : Bool) : List Token → List Stmt → Prop
  | mk {body : List Sentence} :
      (∀ part ∈ body, DerivesStmt nearest .declaration part.tokens part.tree part.isOpen) →
      DerivesProgram nearest (body.flatMap Sentence.tokens) (body.map Sentence.tree)

/-- No declaration goes beyond the end of input. -/
theorem DerivesStmt.inside {nearest : Bool} {clause : Clause} {tokens : List Token}
    {stmt : Stmt} {isOpen : Bool} (derived : DerivesStmt nearest clause tokens stmt isOpen) :
    Inside tokens := by
  induction derived with
  | classDeclaration keywordKind nameKind superclassDerived openingKind _ closingKind
      methodsInside =>
      simpa [keywordKind, nameKind, superclassDerived.inside, openingKind, closingKind] using
        methodsInside
  | functionDeclaration keywordKind _ functionInside => simp [keywordKind, functionInside]
  | varDeclaration declared => exact declared.inside
  | noDeclaration _ statementInside => exact statementInside
  | function nameKind openingKind _ names separated closingKind openedKind _ closedKind
      bodyInside =>
      have joinedInside := separated.inside (by simp +contextual [names])
      simpa [nameKind, openingKind, joinedInside, closingKind, openedKind, closedKind] using
        bodyInside
  | expression stated => exact stated.inside
  | forLoop keywordKind openingKind initializerDerived conditionDerived semicolonKind
      incrementDerived closingKind _ bodyInside =>
      simp [keywordKind, openingKind, initializerDerived.inside, conditionDerived.inside,
        semicolonKind, incrementDerived.inside, closingKind, bodyInside]
  | ifThen keywordKind openingKind derived closingKind _ branchInside =>
      simp [keywordKind, openingKind, derived.inside, closingKind, branchInside]
  | ifThenElse keywordKind openingKind derived closingKind _ _ otherwiseKind _ branchInside
      alternativeInside =>
      simp [keywordKind, openingKind, derived.inside, closingKind, branchInside, otherwiseKind,
        alternativeInside]
  | print keywordKind derived semicolonKind => simp [keywordKind, derived.inside, semicolonKind]
  | return_ keywordKind derived semicolonKind =>
      simp [keywordKind, derived.inside, semicolonKind]
  | whileLoop keywordKind openingKind derived closingKind _ bodyInside =>
      simp [keywordKind, openingKind, derived.inside, closingKind, bodyInside]
  | block openedKind _ closedKind bodyInside =>
      simpa [openedKind, closedKind] using bodyInside

/-- The kinds of tokens with which statements start. -/
def opensStatement : TokenKind → Bool
  | .keyword .for_ => true
  | .keyword .if_ => true
  | .keyword .print_ => true
  | .keyword .return_ => true
  | .keyword .while_ => true
  | .punct .leftBrace => true
  | kind => startsExpression kind

/-- The kinds of tokens with which declarations start. -/
def opensDeclaration : TokenKind → Bool
  | .keyword .class_ => true
  | .keyword .fun_ => true
  | .keyword .var_ => true
  | kind => opensStatement kind

theorem opensStatement_of_startsExpression {kind : TokenKind}
    (starts : startsExpression kind = true) : opensStatement kind = true := by
  unfold opensStatement
  split
  all_goals first | rfl | exact starts

theorem opensDeclaration_of_opensStatement {kind : TokenKind}
    (opens : opensStatement kind = true) : opensDeclaration kind = true := by
  unfold opensDeclaration
  split
  all_goals first | rfl | exact opens

/-- The tokens start with one that can start the nonterminal. -/
def Opens (clause : Clause) (tokens : List Token) : Prop :=
  ∃ first later, tokens = first :: later ∧ opensDeclaration first.kind = true ∧
    (clause = .statement → opensStatement first.kind = true) ∧
    (clause = .function → first.kind = .identifier)

theorem opens_statement {first : Token} {later : List Token}
    (opens : opensStatement first.kind = true) : Opens .statement (first :: later) :=
  ⟨first, later, rfl, opensDeclaration_of_opensStatement opens, fun _ => opens, nofun⟩

theorem opens_declaration {first : Token} {later : List Token}
    (opens : opensDeclaration first.kind = true) : Opens .declaration (first :: later) :=
  ⟨first, later, rfl, opens, nofun, nofun⟩

/-- The first token of a declaration, a statement or a function. -/
theorem DerivesStmt.head {nearest : Bool} {clause : Clause} {tokens : List Token}
    {stmt : Stmt} {isOpen : Bool} (derived : DerivesStmt nearest clause tokens stmt isOpen) :
    Opens clause tokens := by
  induction derived with
  | classDeclaration kind => exact opens_declaration (by rw [kind]; rfl)
  | functionDeclaration kind => exact opens_declaration (by rw [kind]; rfl)
  | varDeclaration declared =>
      obtain ⟨keyword, later, rfl, kind⟩ := declared.head
      exact opens_declaration (by rw [kind]; rfl)
  | noDeclaration _ inductionHypothesis =>
      obtain ⟨first, later, rfl, opens, -⟩ := inductionHypothesis
      exact opens_declaration opens
  | function kind => exact ⟨_, _, rfl, by rw [kind]; rfl, nofun, fun _ => kind⟩
  | expression stated =>
      obtain ⟨first, later, rfl, starts⟩ := stated.head
      exact opens_statement (opensStatement_of_startsExpression starts)
  | forLoop kind => exact opens_statement (by rw [kind]; rfl)
  | ifThen kind => exact opens_statement (by rw [kind]; rfl)
  | ifThenElse kind => exact opens_statement (by rw [kind]; rfl)
  | print kind => exact opens_statement (by rw [kind]; rfl)
  | return_ kind => exact opens_statement (by rw [kind]; rfl)
  | whileLoop kind => exact opens_statement (by rw [kind]; rfl)
  | block kind => exact opens_statement (by rw [kind]; rfl)

/-- Every declaration has at least one token. -/
theorem DerivesStmt.tokens_ne_nil {nearest : Bool} {clause : Clause} {tokens : List Token}
    {stmt : Stmt} {isOpen : Bool} (derived : DerivesStmt nearest clause tokens stmt isOpen) :
    tokens ≠ [] := by
  obtain ⟨first, later, rfl, -⟩ := derived.head
  simp

end Grammar

end Lox
