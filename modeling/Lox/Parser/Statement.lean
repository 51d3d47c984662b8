import Lox.Parser.Expression
import Lox.Parser.Reader

/-!
# Parsing statements and programs

Statements and declarations, and recovery from syntax errors: a declaration that
fails is recorded and dropped, and reading goes on at the next statement
boundary.  As for expressions, a budget of the number of tokens is enough.
-/

namespace Lox

namespace Parser

variable {ε σ : Type} [TokenSource ε σ]

/-! ## Recovery -/

/-- The kinds of tokens that start a statement after an error. -/
def startsStatement : TokenKind → Bool
  | .keyword .class_ => true
  | .keyword .fun_ => true
  | .keyword .var_ => true
  | .keyword .for_ => true
  | .keyword .if_ => true
  | .keyword .while_ => true
  | .keyword .print_ => true
  | .keyword .return_ => true
  | _ => false

/-- Behind a token that was read, skip further ones until a semicolon has been skipped
or a token follows that starts a statement.  The end of input is never skipped.  At most
`budget` tokens are skipped. -/
def synchronizeBehind : Nat → Token → EStateM ε σ Unit
  | 0, _ => return ()
  | budget + 1, passed => do
      if ← isAtEnd then return ()
      else if passed.kind = .punct .semicolon then return ()
      else if startsStatement (← peek).kind then return ()
      else synchronizeBehind budget (← advance)

/-- Skip the token that caused an error, and all others up to a statement boundary. -/
def synchronize : EStateM ε σ Unit := do
  let passed ← advance
  synchronizeBehind (TokenSource.remaining (← get)) passed

/-- Run a parser for a statement; if it fails with a syntax error, record the error and
skip to the next statement boundary. -/
def recovering (statement : EStateM ε σ Stmt) : EStateM ε σ (Option Stmt) := fun state =>
  match statement state with
  | .ok result state => .ok (some result) state
  | .error failure state =>
      match TokenSource.syntaxError? σ failure with
      | some error => (synchronize >>= fun _ => pure none) (TokenSource.record error state)
      | none => .error failure state

/-! ## Simple statements -/

/-- A variable declaration behind `var`. -/
def varDeclaration (expression : EStateM ε σ Expr) : EStateM ε σ Stmt := do
  let name ← expectName .expectVariableName
  let initializer ← if ← skip (.punct .equal) then some <$> expression else pure none
  let _ ← expect (.punct .semicolon) .expectVariableEnd
  return .var name initializer

/-- An expression and a semicolon. -/
def expressionStatement (expression : EStateM ε σ Expr) : EStateM ε σ Stmt := do
  let value ← expression
  let _ ← expect (.punct .semicolon) .expectExpressionEnd
  return .expression value

/-- What `print` writes, and a semicolon. -/
def printStatement (expression : EStateM ε σ Expr) : EStateM ε σ Stmt := do
  let value ← expression
  let _ ← expect (.punct .semicolon) .expectPrintEnd
  return .print value

/-- An expression, unless a token of the given kind follows. -/
def unlessNext (kind : TokenKind) (expression : EStateM ε σ Expr) :
    EStateM ε σ (Option Expr) := do
  if ← check kind then return none else some <$> expression

/-- What `return` on the given line gives back, and a semicolon. -/
def returnStatement (expression : EStateM ε σ Expr) (line : Nat) : EStateM ε σ Stmt := do
  let value ← unlessNext (.punct .semicolon) expression
  let _ ← expect (.punct .semicolon) .expectReturnEnd
  return .return_ line value

/-! ## Statements with parts -/

/-- Statements up to the closing brace, behind `done` in reverse order. -/
def blockBody (declaration : EStateM ε σ (Option Stmt)) :
    Nat → List Stmt → EStateM ε σ (List Stmt)
  | 0, _ => fail .expectBlockEnd
  | budget + 1, done => do
      if (← check (.punct .rightBrace)) || (← isAtEnd) then
        let _ ← expect (.punct .rightBrace) .expectBlockEnd
        return done.reverse
      else
        let next ← declaration
        blockBody declaration budget (next.toList ++ done)

/-- A condition and two branches behind `if`. -/
def ifStatement (expression : EStateM ε σ Expr) (statement : EStateM ε σ Stmt) :
    EStateM ε σ Stmt := do
  let _ ← expect (.punct .leftParen) .expectIfCondition
  let condition ← expression
  let _ ← expect (.punct .rightParen) .expectIfConditionEnd
  let thenBranch ← statement
  let elseBranch ← if ← skip (.keyword .else_) then some <$> statement else pure none
  return .if_ condition thenBranch elseBranch

/-- A condition and a body behind `while`. -/
def whileStatement (expression : EStateM ε σ Expr) (statement : EStateM ε σ Stmt) :
    EStateM ε σ Stmt := do
  let _ ← expect (.punct .leftParen) .expectWhileCondition
  let condition ← expression
  let _ ← expect (.punct .rightParen) .expectWhileConditionEnd
  let body ← statement
  return .while_ condition body

/-- The meaning of a `for` loop: its first clause in a block around a `while`
loop, whose body is followed by the last clause. -/
def forLoop (first : Option Stmt) (condition : Option Expr) (last : Option Expr)
    (body : Stmt) : Stmt :=
  let step :=
    match last with
    | none => body
    | some value => .block [body, .expression value]
  let loop := .while_ (condition.getD (.literal (.bool true))) step
  match first with
  | none => loop
  | some statement => .block [statement, loop]

/-- The first clause of a `for` loop and the semicolon behind it. -/
def forInitializer (expression : EStateM ε σ Expr) : EStateM ε σ (Option Stmt) := do
  if ← skip (.punct .semicolon) then return none
  else if ← skip (.keyword .var_) then some <$> varDeclaration expression
  else some <$> expressionStatement expression

/-- Three clauses and a body behind `for`. -/
def forStatement (expression : EStateM ε σ Expr) (statement : EStateM ε σ Stmt) :
    EStateM ε σ Stmt := do
  let _ ← expect (.punct .leftParen) .expectForClauses
  let first ← forInitializer expression
  let condition ← unlessNext (.punct .semicolon) expression
  let _ ← expect (.punct .semicolon) .expectForConditionEnd
  let last ← unlessNext (.punct .rightParen) expression
  let _ ← expect (.punct .rightParen) .expectForClausesEnd
  let body ← statement
  return forLoop first condition last body

/-- The parsers for the parts of a statement. -/
structure PartsOf (ε σ : Type) where
  /-- Bounds every repetition. -/
  budget : Nat
  expression : EStateM ε σ Expr
  statement : EStateM ε σ Stmt
  declaration : EStateM ε σ (Option Stmt)

/-- A statement that declares nothing. -/
def statementOf (parts : PartsOf ε σ) : EStateM ε σ Stmt := do
  let token ← peek
  match token.kind with
  | .keyword .for_ =>
      let _ ← advance
      forStatement parts.expression parts.statement
  | .keyword .if_ =>
      let _ ← advance
      ifStatement parts.expression parts.statement
  | .keyword .while_ =>
      let _ ← advance
      whileStatement parts.expression parts.statement
  | .keyword .return_ =>
      let _ ← advance
      returnStatement parts.expression token.line
  | .punct .leftBrace =>
      let _ ← advance
      return .block (← blockBody parts.declaration parts.budget [])
  | .keyword .print_ =>
      let _ ← advance
      printStatement parts.expression
  | _ => expressionStatement parts.expression

/-! ## Declarations -/

/-- The parameters of a function, up to the closing parenthesis. -/
def parameters (budget : Nat) : EStateM ε σ (List Name) := do
  if ← check (.punct .rightParen) then
    return []
  else
    commaSeparated (expectName .expectParameterName) .tooManyParameters budget []

/-- A function or method, from its name to its closing brace. -/
def functionDeclaration (parts : PartsOf ε σ) (role : FunctionRole) :
    EStateM ε σ FunctionDecl := do
  let name ← expectName (.expectFunctionName role)
  let _ ← expect (.punct .leftParen) (.expectParameters role)
  let params ← parameters parts.budget
  let _ ← expect (.punct .rightParen) .expectParametersEnd
  let _ ← expect (.punct .leftBrace) (.expectFunctionBody role)
  let body ← blockBody parts.declaration parts.budget []
  return { name, params, body }

/-- Methods up to the closing brace, behind `done` in reverse order. -/
def methods (parts : PartsOf ε σ) : Nat → List FunctionDecl → EStateM ε σ (List FunctionDecl)
  | 0, _ => fail .expectClassEnd
  | budget + 1, done => do
      if (← check (.punct .rightBrace)) || (← isAtEnd) then
        let _ ← expect (.punct .rightBrace) .expectClassEnd
        return done.reverse
      else
        let next ← functionDeclaration parts .method
        methods parts budget (next :: done)

/-- The superclass clause of a class, if there is one. -/
def superclassClause : EStateM ε σ (Option Expr) := do
  if ← skip (.punct .less) then
    let name ← expectName .expectSuperclassName
    return some (.var (← freshId) name)
  else
    return none

/-- A class declaration behind `class`. -/
def classDeclaration (parts : PartsOf ε σ) : EStateM ε σ Stmt := do
  let name ← expectName .expectClassName
  let superclass ← superclassClause
  let _ ← expect (.punct .leftBrace) .expectClassBody
  let methods ← methods parts parts.budget []
  return .class_ name superclass methods

/-- A declaration or another statement. -/
def declarationOf (parts : PartsOf ε σ) : EStateM ε σ Stmt := do
  if ← skip (.keyword .class_) then classDeclaration parts
  else if ← skip (.keyword .fun_) then
    return .function (← functionDeclaration parts .function)
  else if ← skip (.keyword .var_) then varDeclaration parts.expression
  else statementOf parts

mutual

/-- A statement that declares nothing. -/
def statement : Nat → EStateM ε σ Stmt
  | 0 => fail .expectExpression
  | budget + 1 =>
      statementOf
        { budget := budget + 1
          expression := expression (budget + 1)
          statement := statement budget
          declaration := declaration budget }

/-- A declaration or another statement, or nothing after a syntax error. -/
def declaration : Nat → EStateM ε σ (Option Stmt)
  | 0 => recovering (fail .expectExpression)
  | budget + 1 =>
      recovering <|
        declarationOf
          { budget := budget + 1
            expression := expression (budget + 1)
            statement := statement budget
            declaration := declaration budget }

end

/-- Declarations up to the end of input, behind `done` in reverse order. -/
def declarations (declaration : EStateM ε σ (Option Stmt)) :
    Nat → List Stmt → EStateM ε σ (List Stmt)
  | 0, done => return done.reverse
  | budget + 1, done => do
      if ← isAtEnd then
        return done.reverse
      else
        let next ← declaration
        declarations declaration budget (next.toList ++ done)

/-! ## Whole inputs -/

/-- Run a parser on a token list.  The result is a value, or all errors if there
were any; beside it stands the next free identity.  A list that ends with the end of
input has all tokens that are looked at; on others there may be no result. -/
def run {α : Type} (parser : EStateM ParserStop TokenReader α) (nextId : UseId)
    (tokens : List Token) : Except (List SyntaxError) α × UseId :=
  match parser (.start tokens nextId) with
  | .ok value reader =>
      (if reader.errors.isEmpty then .ok value else .error reader.errors.toList, reader.nextId)
  | .error (.syntactic error) reader =>
      (.error (reader.record error).errors.toList, reader.nextId)
  | .error .outOfRange _ => (.error [], nextId)

end Parser

/-- Parse a token list as a program, giving out identities from `nextId` on. -/
def parseProgram (nextId : UseId) (tokens : List Token) :
    Except (List SyntaxError) (List Stmt) × UseId :=
  let budget := tokens.length
  Parser.run (Parser.declarations (Parser.declaration budget) budget []) nextId tokens

/-- Parse the expression at the front of a token list, giving out identities from
`nextId` on. -/
def parseExpression (nextId : UseId) (tokens : List Token) :
    Except (List SyntaxError) Expr × UseId :=
  Parser.run (Parser.expression tokens.length) nextId tokens

end Lox
