import Lox.Proofs.Parser.Reader
import Lox.Proofs.Parser.Basic

/-!
# Parsers only move forward

Every parser for a part of a program leads to a later state: it takes tokens
from the front only, keeps the errors recorded before, and gives out identities
in ascending order.  This holds also when it fails, and after recovery.
-/

namespace Lox

namespace Parser

open Actions

variable {expression : Parser Expr} {statement : Parser Stmt}

/-! ## Expressions -/

theorem advancing_constant (value : Literal) : Advancing (constant value) :=
  advancing_advance.bind fun _ => Advancing.pure _

theorem advancing_primary (advances : Advancing expression) :
    Advancing (primary expression) := by
  refine advancing_peek.bind ?_
  intro token
  split
  case h_6 =>
    refine advancing_advance.bind fun _ => (advancing_expect _ _).bind fun _ => ?_
    exact (advancing_expectName _).bind fun _ => advancing_freshId.bind fun _ => Advancing.pure _
  case h_7 =>
    exact advancing_advance.bind fun _ => advancing_freshId.bind fun _ => Advancing.pure _
  case h_8 =>
    exact advancing_advance.bind fun _ => advancing_freshId.bind fun _ => Advancing.pure _
  case h_9 =>
    refine advancing_advance.bind fun _ => advances.bind fun _ => ?_
    exact (advancing_expect _ _).bind fun _ => Advancing.pure _
  case h_10 =>
    exact advancing_fail _
  all_goals exact advancing_constant _

theorem advancing_arguments (advances : Advancing expression) (budget : Nat) :
    Advancing (arguments expression budget) :=
  (advancing_check _).bind fun _ =>
    Advancing.ite (Advancing.pure _) (advancing_commaSeparated _ advances _ _)

theorem advancing_suffixes (advances : Advancing expression) (budget : Nat) (subject : Expr) :
    Advancing (suffixes expression budget subject) := by
  induction budget generalizing subject with
  | zero => exact Advancing.pure _
  | succ budget inductionHypothesis =>
      refine (advancing_skip _).bind fun _ => Advancing.ite ?_ ?_
      · refine (advancing_arguments advances budget).bind fun _ => ?_
        exact (advancing_expect _ _).bind fun _ => inductionHypothesis _
      · refine (advancing_skip _).bind fun _ => Advancing.ite ?_ (Advancing.pure _)
        exact (advancing_expectName _).bind fun _ => inductionHypothesis _

theorem advancing_call (advances : Advancing expression) (budget : Nat) :
    Advancing (call expression budget) :=
  (advancing_primary advances).bind fun _ => advancing_suffixes advances budget _

theorem advancing_unary (advances : Advancing expression) (budget depth : Nat) :
    Advancing (unary expression budget depth) := by
  induction depth with
  | zero => exact advancing_call advances budget
  | succ depth inductionHypothesis =>
      refine (advancing_acceptIf _).bind ?_
      intro found
      cases found with
      | none => exact advancing_call advances budget
      | some operator => exact inductionHypothesis.bind fun _ => Advancing.pure _

theorem advancing_operations (level : Level) {operand : Parser Expr}
    (advances : Advancing operand) (budget : Nat) (left : Expr) :
    Advancing (operations level operand budget left) := by
  induction budget generalizing left with
  | zero => exact Advancing.pure _
  | succ budget inductionHypothesis =>
      refine (advancing_acceptIf _).bind ?_
      intro found
      cases found with
      | none => exact Advancing.pure _
      | some operator => exact advances.bind fun _ => inductionHypothesis _

theorem advancing_infixLevels {operand : Parser Expr} (advances : Advancing operand)
    (budget : Nat) (levels : List Level) :
    Advancing (infixLevels operand budget levels) := by
  induction levels with
  | nil => exact advances
  | cons level tighter inductionHypothesis =>
      exact inductionHypothesis.bind fun _ =>
        advancing_operations level inductionHypothesis budget _

theorem advancing_assignTo (target : Expr) (equals : Token) (value : Expr) :
    Advancing (assignTo target equals value) := by
  unfold assignTo
  split
  · exact advancing_freshId.bind fun _ => Advancing.pure _
  · exact Advancing.pure _
  · exact (advancing_reportAt _ _).bind fun _ => Advancing.pure _

theorem advancing_assignment (advances : Advancing expression) (budget : Nat) :
    Advancing (assignment expression budget) := by
  have operandAdvances := advancing_unary advances budget budget
  refine (advancing_infixLevels operandAdvances budget levels).bind fun target => ?_
  refine (advancing_accept _).bind ?_
  intro found
  cases found with
  | none => exact Advancing.pure _
  | some equals => exact advances.bind fun _ => advancing_assignTo _ _ _

theorem advancing_expression (budget : Nat) : Advancing (Parser.expression budget) := by
  induction budget with
  | zero => exact advancing_fail _
  | succ budget inductionHypothesis => exact advancing_assignment inductionHypothesis budget

/-! ## Statements -/

theorem skipStatement_suffix (tokens : List Token) : skipStatement tokens <:+ tokens := by
  induction tokens with
  | nil => exact List.suffix_refl _
  | cons token rest inductionHypothesis =>
      unfold skipStatement
      split
      · exact List.suffix_refl _
      · split
        · exact List.suffix_cons _ _
        · split
          · exact List.suffix_cons _ _
          · exact inductionHypothesis.trans (List.suffix_cons _ _)

theorem getLast?_skipStatement {tokens : List Token} {last : Token}
    (found : tokens.getLast? = some last) (isEnd : last.kind = .endOfInput) :
    (skipStatement tokens).getLast? = some last := by
  induction tokens with
  | nil => cases found
  | cons token rest inductionHypothesis =>
      unfold skipStatement
      split
      next => exact found
      next inside =>
        have inRest : rest.getLast? = some last := by
          cases rest with
          | nil =>
              cases found
              exact absurd isEnd inside
          | cons next rest =>
              rw [List.getLast?_cons_cons] at found
              exact found
        split
        · exact inRest
        · split
          · exact inRest
          · exact inductionHypothesis inRest

theorem advancing_recovering (advances : Advancing statement) :
    Advancing (recovering statement) := by
  intro state
  have step := advances state
  rw [recovering_apply]
  cases result : statement state with
  | ok stmt final =>
      rw [result] at step
      exact step
  | error error final =>
      rw [result] at step
      refine ParserState.precedes_order.trans step ⟨skipStatement_suffix _, ?_, Nat.le_refl _⟩
      simp [ParserState.record]

theorem advancing_varDeclaration (advances : Advancing expression) :
    Advancing (varDeclaration expression) := by
  have ending : ∀ (name : Name) (initializer : Option Expr),
      Advancing (expect (.punct .semicolon) .expectVariableEnd >>= fun _ =>
        pure (Stmt.var name initializer)) :=
    fun _ _ => (advancing_expect _ _).bind fun _ => Advancing.pure _
  refine (advancing_expectName _).bind fun name => (advancing_skip _).bind fun _ => ?_
  exact Advancing.ite ((advances.map _).bind (ending name)) ((Advancing.pure _).bind (ending name))

theorem advancing_expressionStatement (advances : Advancing expression) :
    Advancing (expressionStatement expression) :=
  advances.bind fun _ => (advancing_expect _ _).bind fun _ => Advancing.pure _

theorem advancing_printStatement (advances : Advancing expression) :
    Advancing (printStatement expression) :=
  advances.bind fun _ => (advancing_expect _ _).bind fun _ => Advancing.pure _

theorem advancing_unlessNext (kind : TokenKind) (advances : Advancing expression) :
    Advancing (unlessNext kind expression) :=
  (advancing_check _).bind fun _ => Advancing.ite (Advancing.pure _) (advances.map _)

theorem advancing_returnStatement (advances : Advancing expression) (line : Nat) :
    Advancing (returnStatement expression line) :=
  (advancing_unlessNext _ advances).bind fun _ =>
    (advancing_expect _ _).bind fun _ => Advancing.pure _

theorem advancing_blockBody {declaration : Parser (Option Stmt)}
    (advances : Advancing declaration) (budget : Nat) (done : List Stmt) :
    Advancing (blockBody declaration budget done) := by
  induction budget generalizing done with
  | zero => exact advancing_fail _
  | succ budget inductionHypothesis =>
      refine (advancing_check _).bind fun _ => advancing_isAtEnd.bind fun _ => ?_
      refine Advancing.ite ?_ (advances.bind fun _ => inductionHypothesis _)
      exact (advancing_expect _ _).bind fun _ => Advancing.pure _

theorem advancing_ifStatement (advances : Advancing expression)
    (statementAdvances : Advancing statement) :
    Advancing (ifStatement expression statement) := by
  refine (advancing_expect _ _).bind fun _ => advances.bind fun _ => ?_
  refine (advancing_expect _ _).bind fun _ => statementAdvances.bind fun _ => ?_
  refine (advancing_skip _).bind fun _ => Advancing.ite ?_ ?_
  · exact (statementAdvances.map _).bind fun _ => Advancing.pure _
  · exact (Advancing.pure _).bind fun _ => Advancing.pure _

theorem advancing_whileStatement (advances : Advancing expression)
    (statementAdvances : Advancing statement) :
    Advancing (whileStatement expression statement) := by
  refine (advancing_expect _ _).bind fun _ => advances.bind fun _ => ?_
  exact (advancing_expect _ _).bind fun _ => statementAdvances.bind fun _ => Advancing.pure _

theorem advancing_forInitializer (advances : Advancing expression) :
    Advancing (forInitializer expression) := by
  refine (advancing_skip _).bind fun _ => Advancing.ite (Advancing.pure _) ?_
  exact (advancing_skip _).bind fun _ =>
    Advancing.ite ((advancing_varDeclaration advances).map _)
      ((advancing_expressionStatement advances).map _)

theorem advancing_forStatement (advances : Advancing expression)
    (statementAdvances : Advancing statement) :
    Advancing (forStatement expression statement) := by
  refine (advancing_expect _ _).bind fun _ => (advancing_forInitializer advances).bind fun _ => ?_
  refine (advancing_unlessNext _ advances).bind fun _ => (advancing_expect _ _).bind fun _ => ?_
  refine (advancing_unlessNext _ advances).bind fun _ => (advancing_expect _ _).bind fun _ => ?_
  exact statementAdvances.bind fun _ => Advancing.pure _

theorem advancing_parameters (budget : Nat) : Advancing (parameters budget) :=
  (advancing_check _).bind fun _ =>
    Advancing.ite (Advancing.pure _)
      (advancing_commaSeparated _ (advancing_expectName _) _ _)

theorem advancing_superclassClause : Advancing superclassClause :=
  (advancing_skip _).bind fun _ =>
    Advancing.ite
      ((advancing_expectName _).bind fun _ => advancing_freshId.bind fun _ => Advancing.pure _)
      (Advancing.pure _)

namespace Parts

/-- All parsers for the parts of a statement only move forward. -/
structure Advancing (parts : Parts) : Prop where
  expression : Parser.Advancing parts.expression
  statement : Parser.Advancing parts.statement
  declaration : Parser.Advancing parts.declaration

end Parts

variable {parts : Parts}

theorem advancing_statementOf (advances : parts.Advancing) :
    Advancing (statementOf parts) := by
  refine advancing_peek.bind ?_
  intro token
  split
  · exact advancing_advance.bind fun _ =>
      advancing_forStatement advances.expression advances.statement
  · exact advancing_advance.bind fun _ =>
      advancing_ifStatement advances.expression advances.statement
  · exact advancing_advance.bind fun _ =>
      advancing_whileStatement advances.expression advances.statement
  · exact advancing_advance.bind fun _ => advancing_returnStatement advances.expression _
  · exact advancing_advance.bind fun _ =>
      (advancing_blockBody advances.declaration _ _).bind fun _ => Advancing.pure _
  · exact advancing_advance.bind fun _ => advancing_printStatement advances.expression
  · exact advancing_expressionStatement advances.expression

theorem advancing_functionDeclaration (advances : parts.Advancing) (role : FunctionRole) :
    Advancing (functionDeclaration parts role) := by
  refine (advancing_expectName _).bind fun _ => (advancing_expect _ _).bind fun _ => ?_
  refine (advancing_parameters _).bind fun _ => (advancing_expect _ _).bind fun _ => ?_
  refine (advancing_expect _ _).bind fun _ => ?_
  exact (advancing_blockBody advances.declaration _ _).bind fun _ => Advancing.pure _

theorem advancing_methods (advances : parts.Advancing) (budget : Nat)
    (done : List FunctionDecl) :
    Advancing (methods parts budget done) := by
  induction budget generalizing done with
  | zero => exact advancing_fail _
  | succ budget inductionHypothesis =>
      refine (advancing_check _).bind fun _ => advancing_isAtEnd.bind fun _ => ?_
      refine Advancing.ite ?_
        ((advancing_functionDeclaration advances _).bind fun _ => inductionHypothesis _)
      exact (advancing_expect _ _).bind fun _ => Advancing.pure _

theorem advancing_classDeclaration (advances : parts.Advancing) :
    Advancing (classDeclaration parts) := by
  refine (advancing_expectName _).bind fun _ => advancing_superclassClause.bind fun _ => ?_
  exact (advancing_expect _ _).bind fun _ =>
    (advancing_methods advances _ _).bind fun _ => Advancing.pure _

theorem advancing_declarationOf (advances : parts.Advancing) :
    Advancing (declarationOf parts) := by
  refine (advancing_skip _).bind fun _ =>
    Advancing.ite (advancing_classDeclaration advances) ?_
  refine (advancing_skip _).bind fun _ => Advancing.ite ?_ ?_
  · exact (advancing_functionDeclaration advances _).bind fun _ => Advancing.pure _
  · exact (advancing_skip _).bind fun _ =>
      Advancing.ite (advancing_varDeclaration advances.expression)
        (advancing_statementOf advances)

/-- The parsers for the parts of a statement that may take `budget + 1` steps. -/
def partsOf (budget : Nat) : Parts where
  budget := budget + 1
  expression := Parser.expression (budget + 1)
  statement := Parser.statement budget
  declaration := Parser.declaration budget

theorem statement_succ (budget : Nat) :
    Parser.statement (budget + 1) = statementOf (partsOf budget) := by
  rw [Parser.statement, partsOf]

theorem declaration_succ (budget : Nat) :
    declaration (budget + 1) = recovering (declarationOf (partsOf budget)) := by
  rw [declaration, partsOf]

theorem advancing_partsOf (budget : Nat) : (partsOf budget).Advancing := by
  induction budget with
  | zero =>
      exact ⟨advancing_expression 1, by
        rw [partsOf, Parser.statement]
        exact advancing_fail _, by
        rw [partsOf, declaration]
        exact advancing_recovering (advancing_fail _)⟩
  | succ budget inductionHypothesis =>
      exact ⟨advancing_expression (budget + 2), by
        rw [partsOf, statement_succ]
        exact advancing_statementOf inductionHypothesis, by
        rw [partsOf, declaration_succ]
        exact advancing_recovering (advancing_declarationOf inductionHypothesis)⟩

theorem advancing_declaration (budget : Nat) : Advancing (declaration budget) :=
  (advancing_partsOf budget).declaration

theorem advancing_declarations {declaration : Parser (Option Stmt)}
    (advances : Advancing declaration) (budget : Nat) (done : List Stmt) :
    Advancing (declarations declaration budget done) := by
  induction budget generalizing done with
  | zero => exact Advancing.pure _
  | succ budget inductionHypothesis =>
      exact advancing_isAtEnd.bind fun _ =>
        Advancing.ite (Advancing.pure _) (advances.bind fun _ => inductionHypothesis _)

end Parser

end Lox
