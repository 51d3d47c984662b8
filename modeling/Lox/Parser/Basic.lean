import Lox.Syntax

/-!
# Parsers over a source of tokens

A parser reads tokens from a source whose last one is the end of input, which it
never moves past.  It fails with a syntax error, or succeeds; on both ways it may
have recorded further errors and given out identities for uses of variables.  How
the source finds its tokens, and what becomes of a parser that looks where there are
none, is up to the source.
-/

namespace Lox

/-- The two kinds of function declarations, told apart only in messages. -/
inductive FunctionRole where
  | function
  | method
  deriving DecidableEq, Repr

/-- What the grammar misses, or does not allow, at a token. -/
inductive SyntaxFault where
  | expectExpression
  | expectClassName
  | expectSuperclassName
  | expectClassBody
  | expectClassEnd
  | expectFunctionName (role : FunctionRole)
  | expectParameters (role : FunctionRole)
  | expectParameterName
  | expectParametersEnd
  | expectFunctionBody (role : FunctionRole)
  | expectVariableName
  | expectVariableEnd
  | expectForClauses
  | expectForConditionEnd
  | expectForClausesEnd
  | expectIfCondition
  | expectIfConditionEnd
  | expectWhileCondition
  | expectWhileConditionEnd
  | expectPrintEnd
  | expectExpressionEnd
  | expectReturnEnd
  | expectBlockEnd
  | expectPropertyName
  | expectArgumentsEnd
  | expectSuperDot
  | expectSuperMethod
  | expectGroupEnd
  | tooManyParameters
  | tooManyArguments
  | invalidAssignmentTarget
  deriving DecidableEq, Repr

/-- A fault and the token at which it was found. -/
structure SyntaxError where
  token : Token
  fault : SyntaxFault
  deriving DecidableEq

namespace FunctionRole

/-- The word for the role. -/
def text : FunctionRole → String
  | .function => "function"
  | .method => "method"

end FunctionRole

namespace SyntaxFault

/-- The wording of the fault. -/
def message : SyntaxFault → String
  | .expectExpression => "Expect expression."
  | .expectClassName => "Expect class name."
  | .expectSuperclassName => "Expect superclass name."
  | .expectClassBody => "Expect '\x7b' before class body."
  | .expectClassEnd => "Expect '\x7d' after class body."
  | .expectFunctionName role => "Expect " ++ role.text ++ " name."
  | .expectParameters role => "Expect '(' after " ++ role.text ++ " name."
  | .expectParameterName => "Expect parameter name."
  | .expectParametersEnd => "Expect ')' after parameters."
  | .expectFunctionBody role => "Expect '\x7b' before " ++ role.text ++ " body."
  | .expectVariableName => "Expect variable name."
  | .expectVariableEnd => "Expect ';' after variable declaration."
  | .expectForClauses => "Expect '(' after 'for'."
  | .expectForConditionEnd => "Expect ';' after loop condition."
  | .expectForClausesEnd => "Expect ')' after for clauses."
  | .expectIfCondition => "Expect '(' after 'if'."
  | .expectIfConditionEnd => "Expect ')' after if condition."
  | .expectWhileCondition => "Expect '(' after 'while'."
  | .expectWhileConditionEnd => "Expect ')' after condition."
  | .expectPrintEnd => "Expect ';' after value."
  | .expectExpressionEnd => "Expect ';' after expression."
  | .expectReturnEnd => "Expect ';' after return value."
  | .expectBlockEnd => "Expect '\x7d' after block."
  | .expectPropertyName => "Expect property name after '.'."
  | .expectArgumentsEnd => "Expect ')' after arguments."
  | .expectSuperDot => "Expect '.' after 'super'."
  | .expectSuperMethod => "Expect superclass method name."
  | .expectGroupEnd => "Expect ')' after expression."
  | .tooManyParameters => "Can't have more than 255 parameters."
  | .tooManyArguments => "Can't have more than 255 arguments."
  | .invalidAssignmentTarget => "Invalid assignment target."

end SyntaxFault

namespace Token

/-- Where an error at this token is reported to be. -/
def place (token : Token) : String :=
  if token.kind = .endOfInput then "at end" else "at '" ++ token.lexeme ++ "'"

end Token

namespace SyntaxError

/-- The report of the error. -/
def message (error : SyntaxError) : String :=
  "[line " ++ toString error.token.line ++ "] Error " ++ error.token.place ++ ": " ++
    error.fault.message

end SyntaxError

/-- Where tokens are read from.  `σ` is the state of reading and of what has been
found, `ε` is what parsing fails with. -/
class TokenSource (ε : outParam Type) (σ : Type) where
  /-- The token to be read next. -/
  peek : EStateM ε σ Token
  /-- Read the next token unless it is the end of input, and give the token that was
  read last. -/
  advance : EStateM ε σ Token
  /-- No more tokens than these are left. -/
  remaining : σ → Nat
  /-- Record an error. -/
  record : SyntaxError → σ → σ
  /-- An identity that no other use of a variable has. -/
  freshId : EStateM ε σ UseId
  /-- The failure with a syntax error. -/
  raise : SyntaxError → ε
  /-- The syntax error of a failure, unless it is of another kind. -/
  syntaxError? : ε → Option SyntaxError

namespace Parser

variable {ε σ : Type} [TokenSource ε σ]

/-- The token to be read next. -/
def peek : EStateM ε σ Token :=
  TokenSource.peek

/-- Whether all tokens but the end of input have been read. -/
def isAtEnd : EStateM ε σ Bool := do
  return (← peek).kind = .endOfInput

/-- Whether the next token is of the given kind, and not the end of input. -/
def check (kind : TokenKind) : EStateM ε σ Bool := do
  if ← isAtEnd then return false else return (← peek).kind = kind

/-- Read the next token unless it is the end of input, and give the token that was
read last. -/
def advance : EStateM ε σ Token :=
  TokenSource.advance

/-- Read the next token if its kind, which is not the end of input, passes the
test. -/
def acceptIf (accepts : TokenKind → Bool) : EStateM ε σ (Option Token) := do
  if ← isAtEnd then return none
  else if accepts (← peek).kind then return some (← advance)
  else return none

/-- Read the next token if it is of the given kind. -/
def accept (kind : TokenKind) : EStateM ε σ (Option Token) :=
  acceptIf fun found => found = kind

/-- Read the next token if it is of the given kind, and say whether it was. -/
def skip (kind : TokenKind) : EStateM ε σ Bool := do
  return (← accept kind).isSome

/-- Fail at the next token. -/
def fail {α : Type} (fault : SyntaxFault) : EStateM ε σ α := do
  let token ← peek
  throw (TokenSource.raise σ { token, fault })

/-- Record a fault at a token and go on. -/
def reportAt (token : Token) (fault : SyntaxFault) : EStateM ε σ Unit :=
  modify (TokenSource.record { token, fault })

/-- Record a fault at the next token and go on. -/
def report (fault : SyntaxFault) : EStateM ε σ Unit := do
  reportAt (← peek) fault

/-- Read a token of the given kind, or fail. -/
def expect (kind : TokenKind) (fault : SyntaxFault) : EStateM ε σ Token := do
  match ← accept kind with
  | some token => return token
  | none => fail fault

/-- Read a name, or fail. -/
def expectName (fault : SyntaxFault) : EStateM ε σ Name := do
  return (← expect .identifier fault).toName

/-- An identity that no other use of a variable has. -/
def freshId : EStateM ε σ UseId :=
  TokenSource.freshId

/-- The most arguments a call and parameters a function may have. -/
def maxArity : Nat :=
  255

/-- One or more items separated by commas, behind `done` in reverse order.  Each
item past the limit is recorded as a fault.  At most `budget` items are read. -/
def commaSeparated {α : Type} (item : EStateM ε σ α) (fault : SyntaxFault) :
    Nat → List α → EStateM ε σ (List α)
  | 0, done => return done.reverse
  | budget + 1, done => do
      if maxArity ≤ done.length then report fault
      let next ← item
      if ← skip (.punct .comma) then
        commaSeparated item fault budget (next :: done)
      else
        return (next :: done).reverse

end Parser

end Lox
