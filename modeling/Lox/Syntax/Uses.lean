import Lox.Syntax

/-!
# Uses of variables outside function bodies

The identities of all uses that run only while their own unit runs: those that
lie in no function or method body.
-/

namespace Lox

namespace Expr

mutual

/-- The identities of the uses in an expression. -/
def uses : Expr → List UseId
  | .literal _ => []
  | .group inner => inner.uses
  | .unary _ operand => operand.uses
  | .binary left _ right => left.uses ++ right.uses
  | .logical left _ right => left.uses ++ right.uses
  | .var id _ => [id]
  | .assign id _ value => id :: value.uses
  | .call callee _ arguments => callee.uses ++ usesEach arguments
  | .get object _ => object.uses
  | .set object _ value => object.uses ++ value.uses
  | .this id _ => [id]
  | .super id _ _ => [id]

/-- The identities of the uses in a list of expressions. -/
def usesEach : List Expr → List UseId
  | [] => []
  | first :: rest => first.uses ++ usesEach rest

end

/-- The identities of the uses in an optional expression. -/
def optionUses : Option Expr → List UseId
  | none => []
  | some value => value.uses

end Expr

namespace Stmt

mutual

/-- The identities of the uses in a statement that lie in no function body. -/
def outerUses : Stmt → List UseId
  | .expression value => value.uses
  | .print value => value.uses
  | .var _ initializer => Expr.optionUses initializer
  | .block body => outerUsesEach body
  | .if_ condition thenBranch none => condition.uses ++ thenBranch.outerUses
  | .if_ condition thenBranch (some elseBranch) =>
      condition.uses ++ thenBranch.outerUses ++ elseBranch.outerUses
  | .while_ condition body => condition.uses ++ body.outerUses
  | .function _ => []
  | .return_ _ value => Expr.optionUses value
  | .class_ _ superclass _ => Expr.optionUses superclass

/-- The identities of the uses in statements that lie in no function body. -/
def outerUsesEach : List Stmt → List UseId
  | [] => []
  | first :: rest => first.outerUses ++ outerUsesEach rest

end

end Stmt

end Lox
