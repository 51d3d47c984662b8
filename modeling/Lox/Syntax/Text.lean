import Lox.Decimal.Format
import Lox.Syntax

/-!
# Trees as text

Trees are shown in prefix form: an operator or a tag first, its parts behind
it, all in parentheses.
-/

namespace Lox

namespace Literal

/-- A constant as it is shown in a tree; strings stand without quotes. -/
def text : Literal → String
  | .nil => "nil"
  | .bool true => "true"
  | .bool false => "false"
  | .number value => NumberFormat.literal.render value
  | .string value => value

end Literal

namespace Expr

mutual

/-- The prefix form of an expression. -/
def text : Expr → String
  | .literal value => value.text
  | .group inner => "(group " ++ inner.text ++ ")"
  | .unary operator operand => "(" ++ operator.lexeme ++ " " ++ operand.text ++ ")"
  | .binary left operator right =>
      "(" ++ operator.lexeme ++ " " ++ left.text ++ " " ++ right.text ++ ")"
  | .logical left operator right =>
      "(" ++ operator.lexeme ++ " " ++ left.text ++ " " ++ right.text ++ ")"
  | .var _ name => name.text
  | .assign _ name value => "(= " ++ name.text ++ " " ++ value.text ++ ")"
  | .call callee _ arguments => "(call " ++ callee.text ++ textEach arguments ++ ")"
  | .get object name => "(. " ++ object.text ++ " " ++ name.text ++ ")"
  | .set object name value =>
      "(= (. " ++ object.text ++ " " ++ name.text ++ ") " ++ value.text ++ ")"
  | .this _ _ => "this"
  | .super _ _ method => "(super " ++ method.text ++ ")"

/-- The prefix forms of expressions, each behind a space. -/
def textEach : List Expr → String
  | [] => ""
  | first :: rest => " " ++ first.text ++ textEach rest

end

/-- An optional expression behind a space, or nothing. -/
def optionText : Option Expr → String
  | none => ""
  | some value => " " ++ value.text

end Expr

namespace Name

/-- Names separated by spaces. -/
def spaced (names : List Name) : String :=
  " ".intercalate (names.map text)

end Name

namespace Stmt

mutual

/-- The prefix form of a statement. -/
def text : Stmt → String
  | .expression value => "(; " ++ value.text ++ ")"
  | .print value => "(print " ++ value.text ++ ")"
  | .var name initializer => "(var " ++ name.text ++ Expr.optionText initializer ++ ")"
  | .block body => "(block" ++ textEach body ++ ")"
  | .if_ condition thenBranch none =>
      "(if " ++ condition.text ++ " " ++ thenBranch.text ++ ")"
  | .if_ condition thenBranch (some elseBranch) =>
      "(if " ++ condition.text ++ " " ++ thenBranch.text ++ " " ++ elseBranch.text ++ ")"
  | .while_ condition body => "(while " ++ condition.text ++ " " ++ body.text ++ ")"
  | .function declaration => functionText "fun" declaration
  | .return_ _ value => "(return" ++ Expr.optionText value ++ ")"
  | .class_ name superclass methods =>
      "(class " ++ name.text ++
        (match superclass with
        | none => ""
        | some parent => " < " ++ parent.text) ++
        methodsText methods ++ ")"

/-- The prefix forms of statements, each behind a space. -/
def textEach : List Stmt → String
  | [] => ""
  | first :: rest => " " ++ first.text ++ textEach rest

/-- The prefix form of a function under the given tag. -/
def functionText (tag : String) : FunctionDecl → String
  | ⟨name, params, body⟩ =>
      "(" ++ tag ++ " " ++ name.text ++ "(" ++ Name.spaced params ++ ")" ++
        textEach body ++ ")"

/-- The prefix forms of methods, each behind a space. -/
def methodsText : List FunctionDecl → String
  | [] => ""
  | first :: rest => " " ++ functionText "method" first ++ methodsText rest

end

end Stmt

end Lox
