import Lox.Proofs.Syntax.Ids

/-!
# Relabelled trees

The identities of uses and the line numbers of a tree can be changed without
changing its shape.  `relabel` applies one function to all identities and
another one to all lines.  The shape of a tree has zero in the place of every
identity, so that trees with one shape differ in identities only.
-/

namespace Lox

namespace Name

/-- A name on another line. -/
def moved (line : Nat → Nat) (name : Name) : Name :=
  { name with line := line name.line }

@[simp]
theorem moved_id (name : Name) : name.moved id = name :=
  rfl

@[simp]
theorem moved_text (line : Nat → Nat) (name : Name) :
    (name.moved line).text = name.text :=
  rfl

end Name

namespace Token

/-- A token on another line. -/
def moved (line : Nat → Nat) (token : Token) : Token :=
  { token with line := line token.line }

@[simp]
theorem moved_id (token : Token) : token.moved id = token :=
  rfl

@[simp]
theorem moved_kind (line : Nat → Nat) (token : Token) :
    (token.moved line).kind = token.kind :=
  rfl

@[simp]
theorem moved_lexeme (line : Nat → Nat) (token : Token) :
    (token.moved line).lexeme = token.lexeme :=
  rfl

@[simp]
theorem moved_line (line : Nat → Nat) (token : Token) :
    (token.moved line).line = line token.line :=
  rfl

@[simp]
theorem moved_toName (line : Nat → Nat) (token : Token) :
    (token.moved line).toName = token.toName.moved line :=
  rfl

end Token

/-! ## Expressions -/

namespace Expr

mutual

/-- The expression with other identities and on other lines. -/
def relabel (use : UseId → UseId) (line : Nat → Nat) : Expr → Expr
  | .literal value => .literal value
  | .group inner => .group (inner.relabel use line)
  | .unary operator operand => .unary (operator.moved line) (operand.relabel use line)
  | .binary left operator right =>
      .binary (left.relabel use line) (operator.moved line) (right.relabel use line)
  | .logical left operator right =>
      .logical (left.relabel use line) (operator.moved line) (right.relabel use line)
  | .var id name => .var (use id) (name.moved line)
  | .assign id name value => .assign (use id) (name.moved line) (value.relabel use line)
  | .call callee closing arguments =>
      .call (callee.relabel use line) (line closing) (relabelEach use line arguments)
  | .get object name => .get (object.relabel use line) (name.moved line)
  | .set object name value =>
      .set (object.relabel use line) (name.moved line) (value.relabel use line)
  | .this id keyword => .this (use id) (line keyword)
  | .super id keyword method => .super (use id) (line keyword) (method.moved line)

/-- Relabel expressions from left to right. -/
def relabelEach (use : UseId → UseId) (line : Nat → Nat) : List Expr → List Expr
  | [] => []
  | first :: rest => first.relabel use line :: relabelEach use line rest

end

theorem relabelEach_eq_map (use : UseId → UseId) (line : Nat → Nat) (exprs : List Expr) :
    relabelEach use line exprs = exprs.map (relabel use line) := by
  induction exprs with
  | nil =>
      rw [relabelEach, List.map_nil]
  | cons first rest inductionHypothesis =>
      rw [relabelEach, List.map_cons, inductionHypothesis]

/-- The expression without the identities of its uses. -/
def shape (expr : Expr) : Expr :=
  expr.relabel (fun _ => 0) id

mutual

theorem relabel_id : ∀ expr : Expr, expr.relabel id id = expr
  | .literal _ => by rw [relabel]
  | .group inner => by rw [relabel, relabel_id inner]
  | .unary _ operand => by rw [relabel, relabel_id operand, Token.moved_id]
  | .binary left _ right => by rw [relabel, relabel_id left, relabel_id right, Token.moved_id]
  | .logical left _ right => by rw [relabel, relabel_id left, relabel_id right, Token.moved_id]
  | .var _ name => by rw [relabel, Name.moved_id, id]
  | .assign _ name value => by rw [relabel, relabel_id value, Name.moved_id, id]
  | .call callee _ arguments => by
      rw [relabel, relabel_id callee, relabelEach_id arguments, id]
  | .get object _ => by rw [relabel, relabel_id object, Name.moved_id]
  | .set object _ value => by rw [relabel, relabel_id object, relabel_id value, Name.moved_id]
  | .this _ _ => by rw [relabel, id, id]
  | .super _ _ _ => by rw [relabel, Name.moved_id, id, id]

theorem relabelEach_id : ∀ exprs : List Expr, relabelEach id id exprs = exprs
  | [] => by rw [relabelEach]
  | first :: rest => by rw [relabelEach, relabel_id first, relabelEach_id rest]

end

section Twice

variable (use later : UseId → UseId) (line further : Nat → Nat)

mutual

theorem relabel_relabel : ∀ expr : Expr,
    (expr.relabel use line).relabel later further = expr.relabel (later ∘ use) (further ∘ line)
  | .literal _ => by rw [relabel, relabel, relabel]
  | .group inner => by rw [relabel, relabel, relabel, relabel_relabel inner]
  | .unary _ operand => by
      rw [relabel, relabel, relabel, relabel_relabel operand]
      rfl
  | .binary left _ right => by
      rw [relabel, relabel, relabel, relabel_relabel left, relabel_relabel right]
      rfl
  | .logical left _ right => by
      rw [relabel, relabel, relabel, relabel_relabel left, relabel_relabel right]
      rfl
  | .var _ _ => by
      rw [relabel, relabel, relabel]
      rfl
  | .assign _ _ value => by
      rw [relabel, relabel, relabel, relabel_relabel value]
      rfl
  | .call callee _ arguments => by
      rw [relabel, relabel, relabel, relabel_relabel callee, relabelEach_relabelEach arguments]
      rfl
  | .get object _ => by
      rw [relabel, relabel, relabel, relabel_relabel object]
      rfl
  | .set object _ value => by
      rw [relabel, relabel, relabel, relabel_relabel object, relabel_relabel value]
      rfl
  | .this _ _ => by
      rw [relabel, relabel, relabel]
      rfl
  | .super _ _ _ => by
      rw [relabel, relabel, relabel]
      rfl

theorem relabelEach_relabelEach : ∀ exprs : List Expr,
    relabelEach later further (relabelEach use line exprs) =
      relabelEach (later ∘ use) (further ∘ line) exprs
  | [] => by rw [relabelEach, relabelEach, relabelEach]
  | first :: rest => by
      rw [relabelEach, relabelEach, relabelEach, relabel_relabel first,
        relabelEach_relabelEach rest]

end

theorem map_relabel_relabel (expr : Option Expr) :
    (expr.map (·.relabel use line)).map (·.relabel later further) =
      expr.map (·.relabel (later ∘ use) (further ∘ line)) := by
  rw [Option.map_map]
  exact congrArg (Option.map · expr) (funext (relabel_relabel use later line further))

end Twice

section Uses

variable (use : UseId → UseId) (line : Nat → Nat)

mutual

theorem uses_relabel : ∀ expr : Expr, (expr.relabel use line).uses = expr.uses.map use
  | .literal _ => by rw [relabel, uses, List.map_nil]
  | .group inner => by rw [relabel, uses, uses, uses_relabel inner]
  | .unary _ operand => by rw [relabel, uses, uses, uses_relabel operand]
  | .binary left _ right => by
      rw [relabel, uses, uses, uses_relabel left, uses_relabel right, List.map_append]
  | .logical left _ right => by
      rw [relabel, uses, uses, uses_relabel left, uses_relabel right, List.map_append]
  | .var _ _ => by rw [relabel, uses, uses, List.map_singleton]
  | .assign _ _ value => by rw [relabel, uses, uses, uses_relabel value, List.map_cons]
  | .call callee _ arguments => by
      rw [relabel, uses, uses, uses_relabel callee, usesEach_relabel arguments, List.map_append]
  | .get object _ => by rw [relabel, uses, uses, uses_relabel object]
  | .set object _ value => by
      rw [relabel, uses, uses, uses_relabel object, uses_relabel value, List.map_append]
  | .this _ _ => by rw [relabel, uses, uses, List.map_singleton]
  | .super _ _ _ => by rw [relabel, uses, uses, List.map_singleton]

theorem usesEach_relabel : ∀ exprs : List Expr,
    usesEach (relabelEach use line exprs) = (usesEach exprs).map use
  | [] => by rw [relabelEach, usesEach, List.map_nil]
  | first :: rest => by
      rw [relabelEach, usesEach, usesEach, uses_relabel first, usesEach_relabel rest,
        List.map_append]

end

theorem optionUses_relabel (expr : Option Expr) :
    optionUses (expr.map (·.relabel use line)) = (optionUses expr).map use := by
  cases expr with
  | none => rfl
  | some value => exact uses_relabel use line value

end Uses

end Expr

/-! ## Statements -/

namespace Stmt

mutual

/-- The statement with other identities and on other lines. -/
def relabel (use : UseId → UseId) (line : Nat → Nat) : Stmt → Stmt
  | .expression value => .expression (value.relabel use line)
  | .print value => .print (value.relabel use line)
  | .var name initializer => .var (name.moved line) (initializer.map (·.relabel use line))
  | .block body => .block (relabelEach use line body)
  | .if_ condition thenBranch none =>
      .if_ (condition.relabel use line) (thenBranch.relabel use line) none
  | .if_ condition thenBranch (some elseBranch) =>
      .if_ (condition.relabel use line) (thenBranch.relabel use line)
        (some (elseBranch.relabel use line))
  | .while_ condition body => .while_ (condition.relabel use line) (body.relabel use line)
  | .function declaration => .function (relabelFunction use line declaration)
  | .return_ keyword value => .return_ (line keyword) (value.map (·.relabel use line))
  | .class_ name superclass methods =>
      .class_ (name.moved line) (superclass.map (·.relabel use line))
        (relabelMethods use line methods)

/-- Relabel statements from first to last. -/
def relabelEach (use : UseId → UseId) (line : Nat → Nat) : List Stmt → List Stmt
  | [] => []
  | first :: rest => first.relabel use line :: relabelEach use line rest

/-- Relabel a function with its body. -/
def relabelFunction (use : UseId → UseId) (line : Nat → Nat) : FunctionDecl → FunctionDecl
  | ⟨name, params, body⟩ =>
      ⟨name.moved line, params.map (Name.moved line), relabelEach use line body⟩

/-- Relabel methods from first to last. -/
def relabelMethods (use : UseId → UseId) (line : Nat → Nat) :
    List FunctionDecl → List FunctionDecl
  | [] => []
  | first :: rest => relabelFunction use line first :: relabelMethods use line rest

end

mutual

theorem relabel_id : ∀ stmt : Stmt, stmt.relabel id id = stmt
  | .expression value => by rw [relabel, value.relabel_id]
  | .print value => by rw [relabel, value.relabel_id]
  | .var name initializer => by
      rw [relabel, Name.moved_id, funext Expr.relabel_id, Option.map_id']
  | .block body => by rw [relabel, relabelEach_id body]
  | .if_ condition thenBranch none => by
      rw [relabel, condition.relabel_id, relabel_id thenBranch]
  | .if_ condition thenBranch (some elseBranch) => by
      rw [relabel, condition.relabel_id, relabel_id thenBranch, relabel_id elseBranch]
  | .while_ condition body => by rw [relabel, condition.relabel_id, relabel_id body]
  | .function declaration => by rw [relabel, relabelFunction_id declaration]
  | .return_ _ value => by rw [relabel, funext Expr.relabel_id, Option.map_id', id]
  | .class_ name superclass methods => by
      rw [relabel, Name.moved_id, funext Expr.relabel_id, Option.map_id',
        relabelMethods_id methods]

theorem relabelEach_id : ∀ stmts : List Stmt, relabelEach id id stmts = stmts
  | [] => by rw [relabelEach]
  | first :: rest => by rw [relabelEach, relabel_id first, relabelEach_id rest]

theorem relabelFunction_id : ∀ declaration : FunctionDecl,
    relabelFunction id id declaration = declaration
  | ⟨name, params, body⟩ => by
      rw [relabelFunction, Name.moved_id, funext Name.moved_id, List.map_id',
        relabelEach_id body]

theorem relabelMethods_id : ∀ methods : List FunctionDecl, relabelMethods id id methods = methods
  | [] => by rw [relabelMethods]
  | first :: rest => by rw [relabelMethods, relabelFunction_id first, relabelMethods_id rest]

end

theorem relabelEach_eq_map (use : UseId → UseId) (line : Nat → Nat) (stmts : List Stmt) :
    relabelEach use line stmts = stmts.map (relabel use line) := by
  induction stmts with
  | nil =>
      rw [relabelEach, List.map_nil]
  | cons first rest inductionHypothesis =>
      rw [relabelEach, List.map_cons, inductionHypothesis]

theorem relabelMethods_eq_map (use : UseId → UseId) (line : Nat → Nat)
    (methods : List FunctionDecl) :
    relabelMethods use line methods = methods.map (relabelFunction use line) := by
  induction methods with
  | nil =>
      rw [relabelMethods, List.map_nil]
  | cons first rest inductionHypothesis =>
      rw [relabelMethods, List.map_cons, inductionHypothesis]

theorem relabel_if (use : UseId → UseId) (line : Nat → Nat) (condition : Expr)
    (thenBranch : Stmt) (elseBranch : Option Stmt) :
    (Stmt.if_ condition thenBranch elseBranch).relabel use line =
      .if_ (condition.relabel use line) (thenBranch.relabel use line)
        (elseBranch.map (·.relabel use line)) := by
  cases elseBranch with
  | none => rw [relabel, Option.map_none]
  | some elseBranch => rw [relabel, Option.map_some]

/-- The statement without the identities of its uses. -/
def shape (stmt : Stmt) : Stmt :=
  stmt.relabel (fun _ => 0) id

/-- The function without the identities of the uses in its body. -/
def functionShape (declaration : FunctionDecl) : FunctionDecl :=
  relabelFunction (fun _ => 0) id declaration

theorem shape_expression (value : Expr) :
    (Stmt.expression value).shape = .expression value.shape := by
  rw [shape, relabel, Expr.shape]

theorem shape_print (value : Expr) : (Stmt.print value).shape = .print value.shape := by
  rw [shape, relabel, Expr.shape]

theorem shape_var (name : Name) (initializer : Option Expr) :
    (Stmt.var name initializer).shape = .var name (initializer.map Expr.shape) := by
  rw [shape, relabel, Name.moved_id]
  rfl

theorem shape_block (body : List Stmt) : (Stmt.block body).shape = .block (body.map shape) := by
  rw [shape, relabel, relabelEach_eq_map]
  rfl

theorem shape_if (condition : Expr) (thenBranch : Stmt) (elseBranch : Option Stmt) :
    (Stmt.if_ condition thenBranch elseBranch).shape =
      .if_ condition.shape thenBranch.shape (elseBranch.map shape) :=
  relabel_if _ _ _ _ _

theorem shape_while (condition : Expr) (body : Stmt) :
    (Stmt.while_ condition body).shape = .while_ condition.shape body.shape := by
  rw [shape, relabel, Expr.shape, shape]

theorem shape_function (declaration : FunctionDecl) :
    (Stmt.function declaration).shape = .function (functionShape declaration) := by
  rw [shape, relabel, functionShape]

theorem functionShape_mk (name : Name) (params : List Name) (body : List Stmt) :
    functionShape ⟨name, params, body⟩ = ⟨name, params, body.map shape⟩ := by
  rw [functionShape, relabelFunction, relabelEach_eq_map, Name.moved_id, funext Name.moved_id]
  simp only [List.map_id', FunctionDecl.mk.injEq, true_and]
  rfl

theorem shape_return (line : Nat) (value : Option Expr) :
    (Stmt.return_ line value).shape = .return_ line (value.map Expr.shape) := by
  rw [shape, relabel]
  rfl

theorem shape_class (name : Name) (superclass : Option Expr) (methods : List FunctionDecl) :
    (Stmt.class_ name superclass methods).shape =
      .class_ name (superclass.map Expr.shape) (methods.map functionShape) := by
  rw [shape, relabel, relabelMethods_eq_map, Name.moved_id]
  rfl

section Twice

variable (use later : UseId → UseId) (line further : Nat → Nat)

mutual

theorem relabel_relabel : ∀ stmt : Stmt,
    (stmt.relabel use line).relabel later further = stmt.relabel (later ∘ use) (further ∘ line)
  | .expression value => by rw [relabel, relabel, relabel, value.relabel_relabel]
  | .print value => by rw [relabel, relabel, relabel, value.relabel_relabel]
  | .var name initializer => by
      rw [relabel, relabel, relabel, Expr.map_relabel_relabel]
      rfl
  | .block body => by rw [relabel, relabel, relabel, relabelEach_relabelEach body]
  | .if_ condition thenBranch none => by
      rw [relabel, relabel, relabel, condition.relabel_relabel, relabel_relabel thenBranch]
  | .if_ condition thenBranch (some elseBranch) => by
      rw [relabel, relabel, relabel, condition.relabel_relabel, relabel_relabel thenBranch,
        relabel_relabel elseBranch]
  | .while_ condition body => by
      rw [relabel, relabel, relabel, condition.relabel_relabel, relabel_relabel body]
  | .function declaration => by
      rw [relabel, relabel, relabel, relabelFunction_relabelFunction declaration]
  | .return_ _ value => by
      rw [relabel, relabel, relabel, Expr.map_relabel_relabel]
      rfl
  | .class_ name superclass methods => by
      rw [relabel, relabel, relabel, Expr.map_relabel_relabel,
        relabelMethods_relabelMethods methods]
      rfl

theorem relabelEach_relabelEach : ∀ stmts : List Stmt,
    relabelEach later further (relabelEach use line stmts) =
      relabelEach (later ∘ use) (further ∘ line) stmts
  | [] => by rw [relabelEach, relabelEach, relabelEach]
  | first :: rest => by
      rw [relabelEach, relabelEach, relabelEach, relabel_relabel first,
        relabelEach_relabelEach rest]

theorem relabelFunction_relabelFunction : ∀ declaration : FunctionDecl,
    relabelFunction later further (relabelFunction use line declaration) =
      relabelFunction (later ∘ use) (further ∘ line) declaration
  | ⟨name, params, body⟩ => by
      rw [relabelFunction, relabelFunction, relabelFunction, relabelEach_relabelEach body,
        List.map_map]
      rfl

theorem relabelMethods_relabelMethods : ∀ methods : List FunctionDecl,
    relabelMethods later further (relabelMethods use line methods) =
      relabelMethods (later ∘ use) (further ∘ line) methods
  | [] => by rw [relabelMethods, relabelMethods, relabelMethods]
  | first :: rest => by
      rw [relabelMethods, relabelMethods, relabelMethods, relabelFunction_relabelFunction first,
        relabelMethods_relabelMethods rest]

end

end Twice

section Ids

variable (use : UseId → UseId) (line : Nat → Nat)

mutual

theorem ids_relabel : ∀ stmt : Stmt, (stmt.relabel use line).ids = stmt.ids.map use
  | .expression value => by rw [relabel, ids, ids, value.uses_relabel]
  | .print value => by rw [relabel, ids, ids, value.uses_relabel]
  | .var _ initializer => by rw [relabel, ids, ids, Expr.optionUses_relabel]
  | .block body => by rw [relabel, ids, ids, idsEach_relabel body]
  | .if_ condition thenBranch none => by
      rw [relabel, ids, ids, condition.uses_relabel, ids_relabel thenBranch, List.map_append]
  | .if_ condition thenBranch (some elseBranch) => by
      rw [relabel, ids, ids, condition.uses_relabel, ids_relabel thenBranch,
        ids_relabel elseBranch, List.map_append, List.map_append]
  | .while_ condition body => by
      rw [relabel, ids, ids, condition.uses_relabel, ids_relabel body, List.map_append]
  | .function declaration => by rw [relabel, ids, ids, functionIds_relabel declaration]
  | .return_ _ value => by rw [relabel, ids, ids, Expr.optionUses_relabel]
  | .class_ _ superclass methods => by
      rw [relabel, ids, ids, Expr.optionUses_relabel, methodIds_relabel methods, List.map_append]

theorem idsEach_relabel : ∀ stmts : List Stmt,
    idsEach (relabelEach use line stmts) = (idsEach stmts).map use
  | [] => by rw [relabelEach, idsEach, List.map_nil]
  | first :: rest => by
      rw [relabelEach, idsEach, idsEach, ids_relabel first, idsEach_relabel rest, List.map_append]

theorem functionIds_relabel : ∀ declaration : FunctionDecl,
    functionIds (relabelFunction use line declaration) = (functionIds declaration).map use
  | ⟨name, params, body⟩ => by rw [relabelFunction, functionIds, functionIds, idsEach_relabel body]

theorem methodIds_relabel : ∀ methods : List FunctionDecl,
    methodIds (relabelMethods use line methods) = (methodIds methods).map use
  | [] => by rw [relabelMethods, methodIds, List.map_nil]
  | first :: rest => by
      rw [relabelMethods, methodIds, methodIds, functionIds_relabel first, methodIds_relabel rest,
        List.map_append]

end

end Ids

end Stmt

end Lox
