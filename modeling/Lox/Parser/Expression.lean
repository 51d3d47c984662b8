import Lox.Parser.Basic

/-!
# Parsing expressions

The grammar of expressions, from the tightest level to the loosest.  Every
level is a parser built from the parser for whole expressions, which it uses
for the parts in parentheses, arguments and assigned values.  `expression` ties
the knot; its budget bounds the nesting and every repetition, and a budget of
the number of tokens is enough, since a nested expression is met only behind a
token.
-/

namespace Lox

namespace Parser

variable {ε σ : Type} [TokenSource ε σ]

/-! ## Primary expressions and calls -/

/-- Read the next token and give a constant. -/
def constant (value : Literal) : EStateM ε σ Expr := do
  let _ ← advance
  return .literal value

/-- A constant, a name, `this`, `super.method` or an expression in
parentheses. -/
def primary (expression : EStateM ε σ Expr) : EStateM ε σ Expr := do
  let token ← peek
  match token.kind with
  | .keyword .false_ => constant (.bool false)
  | .keyword .true_ => constant (.bool true)
  | .keyword .nil_ => constant .nil
  | .number value => constant (.number value)
  | .string contents => constant (.string contents)
  | .keyword .super_ =>
      let _ ← advance
      let _ ← expect (.punct .dot) .expectSuperDot
      let method ← expectName .expectSuperMethod
      return .super (← freshId) token.line method
  | .keyword .this_ =>
      let _ ← advance
      return .this (← freshId) token.line
  | .identifier =>
      let _ ← advance
      return .var (← freshId) token.toName
  | .punct .leftParen =>
      let _ ← advance
      let inner ← expression
      let _ ← expect (.punct .rightParen) .expectGroupEnd
      return .group inner
  | _ => fail .expectExpression

/-- The arguments of a call, up to the closing parenthesis. -/
def arguments (expression : EStateM ε σ Expr) (budget : Nat) : EStateM ε σ (List Expr) := do
  if ← check (.punct .rightParen) then
    return []
  else
    commaSeparated expression .tooManyArguments budget []

/-- The calls and property accesses that follow an expression. -/
def suffixes (expression : EStateM ε σ Expr) : Nat → Expr → EStateM ε σ Expr
  | 0, subject => return subject
  | budget + 1, subject => do
      if ← skip (.punct .leftParen) then
        let arguments ← arguments expression budget
        let close ← expect (.punct .rightParen) .expectArgumentsEnd
        suffixes expression budget (.call subject close.line arguments)
      else if ← skip (.punct .dot) then
        let name ← expectName .expectPropertyName
        suffixes expression budget (.get subject name)
      else
        return subject

/-- A primary expression with its calls and property accesses. -/
def call (expression : EStateM ε σ Expr) (budget : Nat) : EStateM ε σ Expr := do
  suffixes expression budget (← primary expression)

/-! ## Operators -/

/-- The operators that stand before their operand. -/
def isUnaryOperator (kind : TokenKind) : Bool :=
  kind = .punct .bang || kind = .punct .minus

/-- Operators before an operand; the last one binds first. -/
def unary (expression : EStateM ε σ Expr) (budget : Nat) : Nat → EStateM ε σ Expr
  | 0 => call expression budget
  | depth + 1 => do
      match ← acceptIf isUnaryOperator with
      | some operator => return .unary operator (← unary expression budget depth)
      | none => call expression budget

/-- A level of left-associative operators between two operands. -/
structure Level where
  operators : List TokenKind
  combine : Expr → Token → Expr → Expr

/-- The levels of operators between two operands, the loosest first. -/
def levels : List Level :=
  [ { operators := [.keyword .or_], combine := .logical },
    { operators := [.keyword .and_], combine := .logical },
    { operators := [.punct .bangEqual, .punct .equalEqual], combine := .binary },
    { operators := [.punct .greater, .punct .greaterEqual, .punct .less, .punct .lessEqual]
      combine := .binary },
    { operators := [.punct .minus, .punct .plus], combine := .binary },
    { operators := [.punct .slash, .punct .star], combine := .binary } ]

/-- The operators of a level and their right operands that follow an operand. -/
def operations (level : Level) (operand : EStateM ε σ Expr) : Nat → Expr → EStateM ε σ Expr
  | 0, left => return left
  | budget + 1, left => do
      match ← acceptIf level.operators.contains with
      | some operator =>
          let right ← operand
          operations level operand budget (level.combine left operator right)
      | none => return left

/-- An expression of the first of the given levels. -/
def infixLevels (operand : EStateM ε σ Expr) (budget : Nat) : List Level → EStateM ε σ Expr
  | [] => operand
  | level :: tighter => do
      let left ← infixLevels operand budget tighter
      operations level (infixLevels operand budget tighter) budget left

/-! ## Assignment -/

/-- Turn the expression before `=` into an assignment.  Only variables and
properties can be assigned; for all else a fault is recorded at the `=`, and the
expression before it is kept. -/
def assignTo (target : Expr) (equals : Token) (value : Expr) : EStateM ε σ Expr := do
  match target with
  | .var _ name => return .assign (← freshId) name value
  | .get object name => return .set object name value
  | other =>
      reportAt equals .invalidAssignmentTarget
      return other

/-- An expression, whose nested expressions are parsed by `expression`. -/
def assignment (expression : EStateM ε σ Expr) (budget : Nat) : EStateM ε σ Expr := do
  let target ← infixLevels (unary expression budget budget) budget levels
  match ← accept (.punct .equal) with
  | some equals => assignTo target equals (← expression)
  | none => return target

/-- An expression. -/
def expression : Nat → EStateM ε σ Expr
  | 0 => fail .expectExpression
  | budget + 1 => assignment (expression budget) budget

end Parser

end Lox
