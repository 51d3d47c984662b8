import Lox.Token

/-!
# Syntax trees

Expressions, statements and function declarations.  Nodes that use a variable
(`var`, `assign`, `this`, `super`) carry an identity of their own, under which
the distance to their variable is recorded.  There is no node for `for`: such a
loop is built from blocks and `while`.
-/

namespace Lox

/-- The identity of a use of a variable. -/
abbrev UseId :=
  Nat

/-- A name and the line on which it stands. -/
structure Name where
  text : String
  line : Nat
  deriving DecidableEq, Repr

namespace Token

/-- The name that a token spells. -/
def toName (token : Token) : Name :=
  { text := token.lexeme, line := token.line }

end Token

/-- A constant written in the source. -/
inductive Literal where
  | nil
  | bool (value : Bool)
  | number (value : Float)
  | string (value : String)
  deriving DecidableEq

/-- Expressions. -/
inductive Expr where
  | literal (value : Literal)
  | group (inner : Expr)
  | unary (operator : Token) (operand : Expr)
  | binary (left : Expr) (operator : Token) (right : Expr)
  | logical (left : Expr) (operator : Token) (right : Expr)
  | var (id : UseId) (name : Name)
  | assign (id : UseId) (name : Name) (value : Expr)
  /-- A call; `line` is that of the closing parenthesis. -/
  | call (callee : Expr) (line : Nat) (arguments : List Expr)
  | get (object : Expr) (name : Name)
  | set (object : Expr) (name : Name) (value : Expr)
  | this (id : UseId) (line : Nat)
  | super (id : UseId) (line : Nat) (method : Name)

mutual

/-- Statements. -/
inductive Stmt where
  | expression (value : Expr)
  | print (value : Expr)
  | var (name : Name) (initializer : Option Expr)
  | block (body : List Stmt)
  | if_ (condition : Expr) (thenBranch : Stmt) (elseBranch : Option Stmt)
  | while_ (condition : Expr) (body : Stmt)
  | function (declaration : FunctionDecl)
  | return_ (line : Nat) (value : Option Expr)
  | class_ (name : Name) (superclass : Option Expr) (methods : List FunctionDecl)

/-- A named function or method. -/
structure FunctionDecl where
  name : Name
  params : List Name
  body : List Stmt

end

instance : Inhabited FunctionDecl :=
  ⟨{ name := { text := "", line := 0 }, params := [], body := [] }⟩

namespace FunctionDecl

/-- The number of arguments a call has to supply. -/
def arity (declaration : FunctionDecl) : Nat :=
  declaration.params.length

end FunctionDecl

end Lox
