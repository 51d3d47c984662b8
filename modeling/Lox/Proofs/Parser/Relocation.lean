import Lox.Proofs.Parser.Progress
import Lox.Proofs.Syntax.Relabel

/-!
# Parsing elsewhere

A parser looks neither at the lines of tokens nor at the identities that it gives
out.  If the tokens stand on other lines and identities are given out from a later
one on, the same tree is parsed with other lines and identities, and the same
errors are found at the moved tokens.
-/

namespace Lox

open Actions

/-- An error at a token on another line. -/
def SyntaxError.moved (line : Nat → Nat) (error : SyntaxError) : SyntaxError :=
  { error with token := error.token.moved line }

namespace ParserState

/-- The state with all tokens on other lines and with later identities. -/
def moved (shift : Nat) (line : Nat → Nat) (state : ParserState) : ParserState where
  rest := state.rest.map (Token.moved line)
  errors := state.errors.map (SyntaxError.moved line)
  nextId := state.nextId + shift

variable {state : ParserState}

theorem Ended.peek (ended : state.Ended) (shift : Nat) (line : Nat → Nat) :
    (state.moved shift line).peek = state.peek.moved line := by
  rcases ended with ⟨last, found, -⟩
  unfold ParserState.peek moved
  cases rest : state.rest with
  | nil =>
      rw [rest] at found
      cases found
  | cons token rest => rfl

theorem Ended.isAtEnd (ended : state.Ended) (shift : Nat) (line : Nat → Nat) :
    (state.moved shift line).isAtEnd = state.isAtEnd := by
  unfold ParserState.isAtEnd
  rw [ended.peek, Token.moved_kind]

theorem moved_tail (shift : Nat) (line : Nat → Nat) (state : ParserState) :
    ({ state with rest := state.rest.tail } : ParserState).moved shift line =
      { state.moved shift line with rest := (state.moved shift line).rest.tail } := by
  simp [moved]

theorem moved_record (shift : Nat) (line : Nat → Nat) (state : ParserState)
    (error : SyntaxError) :
    (state.record error).moved shift line =
      (state.moved shift line).record (error.moved line) := by
  simp [moved, record]

end ParserState

namespace Parser

variable {shift : Nat} {line : Nat → Nat}

/-! ## Parsers side by side -/

section Commutes

variable {α β : Type}

/-- On moved tokens, the second parser does what the first one does on the tokens
themselves: its value is the moved one, and so are its errors. -/
def Commutes (shift : Nat) (line : Nat → Nat) (move : α → α) (parser parser' : Parser α) :
    Prop :=
  ∀ state : ParserState, state.Ended →
    Paired
      (fun value final value' final' =>
        (value' = move value ∧ final' = final.moved shift line) ∧ final.Ended)
      (fun error final error' final' =>
        (error' = error.moved line ∧ final' = final.moved shift line) ∧ final.Ended)
      (parser state) (parser' (state.moved shift line))

variable {move : α → α} {moveNext : β → β}

theorem Commutes.pure {value value' : α} (moved : value' = move value) :
    Commutes shift line move (Pure.pure value) (Pure.pure value') :=
  fun _ ended => ⟨⟨moved, rfl⟩, ended⟩

theorem Commutes.bind {first first' : Parser α} {next next' : α → Parser β}
    (commutes : Commutes shift line move first first')
    (nextCommutes : ∀ value, Commutes shift line moveNext (next value) (next' (move value))) :
    Commutes shift line moveNext (first >>= next) (first' >>= next') := by
  intro state ended
  refine Paired.bind (commutes state ended) ?_
  rintro value middle value' middle' ⟨⟨rfl, rfl⟩, middleEnded⟩
  exact nextCommutes value middle middleEnded

theorem Commutes.map {first first' : Parser α} {f : α → β}
    (commutes : Commutes shift line move first first')
    (moved : ∀ value, f (move value) = moveNext (f value)) :
    Commutes shift line moveNext (f <$> first) (f <$> first') :=
  commutes.bind fun value => Commutes.pure (moved value)

theorem Commutes.ite {condition : Prop} [Decidable condition]
    {first first' second second' : Parser α} (commutes : Commutes shift line move first first')
    (otherCommutes : Commutes shift line move second second') :
    Commutes shift line move (if condition then first else second)
      (if condition then first' else second') := by
  split
  · exact commutes
  · exact otherCommutes

end Commutes

/-! ## Tokens -/

theorem commutes_peek : Commutes shift line (Token.moved line) peek peek :=
  fun _ ended => ⟨⟨ended.peek shift line, rfl⟩, ended⟩

theorem commutes_isAtEnd : Commutes shift line id isAtEnd isAtEnd :=
  fun _ ended => ⟨⟨ended.isAtEnd shift line, rfl⟩, ended⟩

theorem commutes_check (kind : TokenKind) : Commutes shift line id (check kind) (check kind) := by
  intro state ended
  rw [check_apply, check_apply, ended.isAtEnd, ended.peek, Token.moved_kind]
  exact ⟨⟨rfl, rfl⟩, ended⟩

theorem commutes_advance : Commutes shift line (Token.moved line) advance advance := by
  intro state ended
  rw [advance_apply, advance_apply, ended.peek, ParserState.advance, ParserState.advance,
    ended.isAtEnd]
  cases atEnd : state.isAtEnd with
  | true => exact ⟨⟨rfl, rfl⟩, ended⟩
  | false => exact ⟨⟨rfl, (state.moved_tail shift line).symm⟩, ended.tail atEnd⟩

theorem commutes_acceptIf (accepts : TokenKind → Bool) :
    Commutes shift line (Option.map (Token.moved line)) (acceptIf accepts) (acceptIf accepts) := by
  intro state ended
  rw [acceptIf_apply, acceptIf_apply, ended.isAtEnd, ended.peek, Token.moved_kind]
  by_cases accepted : (!state.isAtEnd && accepts state.peek.kind) = true
  · rw [if_pos accepted, if_pos accepted]
    have inside : state.isAtEnd = false := by
      rw [Bool.and_eq_true, Bool.not_eq_true'] at accepted
      exact accepted.1
    exact ⟨⟨rfl, (state.moved_tail shift line).symm⟩, ended.tail inside⟩
  · rw [if_neg accepted, if_neg accepted]
    exact ⟨⟨rfl, rfl⟩, ended⟩

theorem commutes_accept (kind : TokenKind) :
    Commutes shift line (Option.map (Token.moved line)) (accept kind) (accept kind) :=
  commutes_acceptIf _

theorem commutes_skip (kind : TokenKind) : Commutes shift line id (skip kind) (skip kind) :=
  (commutes_accept kind).bind fun _ => .pure (by simp)

theorem commutes_fail {α : Type} {move : α → α} (fault : SyntaxFault) :
    Commutes shift line move (fail fault) (fail fault) := by
  intro state ended
  refine ⟨⟨?_, rfl⟩, ended⟩
  rw [ended.peek]
  rfl

theorem commutes_reportAt (token : Token) (fault : SyntaxFault) :
    Commutes shift line id (reportAt token fault) (reportAt (token.moved line) fault) :=
  fun state ended => ⟨⟨rfl, (state.moved_record shift line ⟨token, fault⟩).symm⟩, ended⟩

theorem commutes_report (fault : SyntaxFault) :
    Commutes shift line id (report fault) (report fault) := by
  intro state ended
  refine ⟨⟨rfl, ?_⟩, ended⟩
  rw [ended.peek]
  exact (state.moved_record shift line ⟨state.peek, fault⟩).symm

theorem commutes_expect (kind : TokenKind) (fault : SyntaxFault) :
    Commutes shift line (Token.moved line) (expect kind fault) (expect kind fault) := by
  refine (commutes_accept kind).bind ?_
  intro found
  cases found with
  | none => exact commutes_fail fault
  | some token => exact .pure rfl

theorem commutes_expectName (fault : SyntaxFault) :
    Commutes shift line (Name.moved line) (expectName fault) (expectName fault) :=
  (commutes_expect _ fault).bind fun _ => .pure rfl

theorem commutes_freshId : Commutes shift line (· + shift) freshId freshId := by
  intro state ended
  refine ⟨⟨rfl, ?_⟩, ended⟩
  simp [ParserState.moved, Nat.add_right_comm]

theorem commutes_commaSeparated {α : Type} {move : α → α} {item item' : Parser α}
    (commutes : Commutes shift line move item item') (fault : SyntaxFault) (budget : Nat)
    (done : List α) :
    Commutes shift line (List.map move) (commaSeparated item fault budget done)
      (commaSeparated item' fault budget (done.map move)) := by
  induction budget generalizing done with
  | zero => exact .pure (by simp)
  | succ budget inductionHypothesis =>
      have continued : Commutes shift line (List.map move)
          (item >>= fun next => skip (.punct .comma) >>= fun more =>
            if more then commaSeparated item fault budget (next :: done)
            else return (next :: done).reverse)
          (item' >>= fun next => skip (.punct .comma) >>= fun more =>
            if more then commaSeparated item' fault budget (next :: done.map move)
            else return (next :: done.map move).reverse) := by
        refine commutes.bind fun next => (commutes_skip _).bind fun more => ?_
        exact .ite (inductionHypothesis (next :: done)) (.pure (by simp))
      unfold commaSeparated
      rw [List.length_map]
      by_cases full : maxArity ≤ done.length
      · simp only [if_pos full]
        exact (commutes_report fault).bind fun _ => continued
      · simp only [if_neg full]
        exact continued

/-! ## Expressions -/

/-- The expression with the identities and on the lines of the moved tokens. -/
abbrev moveExpr (shift : Nat) (line : Nat → Nat) : Expr → Expr :=
  Expr.relabel (· + shift) line

section Expressions

variable {expression expression' : Parser Expr}

theorem commutes_constant (value : Literal) :
    Commutes shift line (moveExpr shift line) (constant value) (constant value) :=
  commutes_advance.bind fun _ => .pure (by simp [moveExpr, Expr.relabel])

theorem commutes_primary
    (commutes : Commutes shift line (moveExpr shift line) expression expression') :
    Commutes shift line (moveExpr shift line) (primary expression) (primary expression') := by
  refine commutes_peek.bind ?_
  intro token
  rw [Token.moved_kind]
  generalize token.kind = kind
  split
  case h_6 =>
    refine commutes_advance.bind fun _ => (commutes_expect _ _).bind fun _ => ?_
    refine (commutes_expectName _).bind fun method => commutes_freshId.bind fun id => ?_
    exact .pure (by simp [moveExpr, Expr.relabel])
  case h_7 =>
    refine commutes_advance.bind fun _ => commutes_freshId.bind fun id => ?_
    exact .pure (by simp [moveExpr, Expr.relabel])
  case h_8 =>
    refine commutes_advance.bind fun _ => commutes_freshId.bind fun id => ?_
    exact .pure (by simp [moveExpr, Expr.relabel])
  case h_9 =>
    refine commutes_advance.bind fun _ => commutes.bind fun inner => ?_
    exact (commutes_expect _ _).bind fun _ => .pure (by simp [moveExpr, Expr.relabel])
  case h_10 => exact commutes_fail _
  all_goals exact commutes_constant _

theorem commutes_arguments
    (commutes : Commutes shift line (moveExpr shift line) expression expression')
    (budget : Nat) :
    Commutes shift line (List.map (moveExpr shift line)) (arguments expression budget)
      (arguments expression' budget) :=
  (commutes_check _).bind fun _ =>
    .ite (.pure rfl) (commutes_commaSeparated commutes _ budget [])

theorem commutes_suffixes
    (commutes : Commutes shift line (moveExpr shift line) expression expression')
    (budget : Nat) (subject : Expr) :
    Commutes shift line (moveExpr shift line) (suffixes expression budget subject)
      (suffixes expression' budget (moveExpr shift line subject)) := by
  induction budget generalizing subject with
  | zero => exact .pure rfl
  | succ budget inductionHypothesis =>
      refine (commutes_skip _).bind fun _ => .ite ?_ ?_
      · refine (commutes_arguments commutes budget).bind fun arguments => ?_
        refine (commutes_expect _ _).bind fun close => ?_
        have next := inductionHypothesis (.call subject close.line arguments)
        rw [moveExpr, Expr.relabel, Expr.relabelEach_eq_map] at next
        exact next
      · refine (commutes_skip _).bind fun _ => .ite ?_ (.pure rfl)
        refine (commutes_expectName _).bind fun name => ?_
        have next := inductionHypothesis (.get subject name)
        rw [moveExpr, Expr.relabel] at next
        exact next

theorem commutes_call
    (commutes : Commutes shift line (moveExpr shift line) expression expression')
    (budget : Nat) :
    Commutes shift line (moveExpr shift line) (call expression budget) (call expression' budget) :=
  (commutes_primary commutes).bind fun subject => commutes_suffixes commutes budget subject

theorem commutes_unary
    (commutes : Commutes shift line (moveExpr shift line) expression expression')
    (budget depth : Nat) :
    Commutes shift line (moveExpr shift line) (unary expression budget depth)
      (unary expression' budget depth) := by
  induction depth with
  | zero => exact commutes_call commutes budget
  | succ depth inductionHypothesis =>
      refine (commutes_acceptIf _).bind ?_
      intro found
      cases found with
      | none => exact commutes_call commutes budget
      | some operator =>
          refine inductionHypothesis.bind fun operand => ?_
          exact .pure (by simp [moveExpr, Expr.relabel])

/-- The level builds the same kind of node on other lines. -/
def Level.Moves (shift : Nat) (line : Nat → Nat) (level : Level) : Prop :=
  ∀ left operator right,
    moveExpr shift line (level.combine left operator right) =
      level.combine (moveExpr shift line left) (operator.moved line) (moveExpr shift line right)

theorem commutes_operations {level : Level} (moves : level.Moves shift line)
    (commutes : Commutes shift line (moveExpr shift line) expression expression')
    (budget : Nat) (left : Expr) :
    Commutes shift line (moveExpr shift line) (operations level expression budget left)
      (operations level expression' budget (moveExpr shift line left)) := by
  induction budget generalizing left with
  | zero => exact .pure rfl
  | succ budget inductionHypothesis =>
      refine (commutes_acceptIf _).bind ?_
      intro found
      cases found with
      | none => exact .pure rfl
      | some operator =>
          refine commutes.bind fun right => ?_
          have next := inductionHypothesis (level.combine left operator right)
          rw [moves] at next
          exact next

theorem commutes_infixLevels
    (commutes : Commutes shift line (moveExpr shift line) expression expression')
    (budget : Nat) {levels : List Level} (moves : ∀ level ∈ levels, level.Moves shift line) :
    Commutes shift line (moveExpr shift line) (infixLevels expression budget levels)
      (infixLevels expression' budget levels) := by
  induction levels with
  | nil => exact commutes
  | cons level tighter inductionHypothesis =>
      have tighterCommutes := inductionHypothesis fun other member =>
        moves other (List.mem_cons_of_mem _ member)
      exact tighterCommutes.bind fun left =>
        commutes_operations (moves level List.mem_cons_self) tighterCommutes budget left

theorem levels_move : ∀ level ∈ levels, level.Moves shift line := by
  intro level member left operator right
  simp only [levels, List.mem_cons, List.not_mem_nil, or_false] at member
  rcases member with rfl | rfl | rfl | rfl | rfl | rfl <;> simp [moveExpr, Expr.relabel]

theorem commutes_assignTo (target : Expr) (equals : Token) (value : Expr) :
    Commutes shift line (moveExpr shift line) (assignTo target equals value)
      (assignTo (moveExpr shift line target) (equals.moved line) (moveExpr shift line value)) := by
  cases target with
  | var id name =>
      rw [moveExpr, Expr.relabel]
      exact commutes_freshId.bind fun id => .pure (by simp [Expr.relabel])
  | get object name =>
      rw [moveExpr, Expr.relabel]
      exact .pure (by simp [Expr.relabel])
  | _ =>
      rw [moveExpr, Expr.relabel]
      exact (commutes_reportAt equals _).bind fun _ => .pure (by simp [Expr.relabel])

theorem commutes_assignment
    (commutes : Commutes shift line (moveExpr shift line) expression expression')
    (budget : Nat) :
    Commutes shift line (moveExpr shift line) (assignment expression budget)
      (assignment expression' budget) := by
  have operandCommutes := commutes_unary commutes budget budget
  refine (commutes_infixLevels operandCommutes budget levels_move).bind fun target => ?_
  refine (commutes_accept _).bind ?_
  intro found
  cases found with
  | none => exact .pure rfl
  | some equals => exact commutes.bind fun value => commutes_assignTo target equals value

end Expressions

theorem commutes_expression (budget : Nat) :
    Commutes shift line (moveExpr shift line) (expression budget) (expression budget) := by
  induction budget with
  | zero => exact commutes_fail _
  | succ budget inductionHypothesis => exact commutes_assignment inductionHypothesis budget

/-! ## Statements -/

/-- The statement with the identities and on the lines of the moved tokens. -/
abbrev moveStmt (shift : Nat) (line : Nat → Nat) : Stmt → Stmt :=
  Stmt.relabel (· + shift) line

/-- The function with the identities and on the lines of the moved tokens. -/
abbrev moveFunction (shift : Nat) (line : Nat → Nat) : FunctionDecl → FunctionDecl :=
  Stmt.relabelFunction (· + shift) line

section Statements

variable {expression expression' : Parser Expr} {statement statement' : Parser Stmt}
  {declaration declaration' : Parser (Option Stmt)}

theorem moved_skipStatement (tokens : List Token) :
    skipStatement (tokens.map (Token.moved line)) =
      (skipStatement tokens).map (Token.moved line) := by
  induction tokens with
  | nil => rfl
  | cons token rest inductionHypothesis =>
      have next : (rest.map (Token.moved line)).head?.any (fun next => startsStatement next.kind) =
          rest.head?.any fun next => startsStatement next.kind := by
        cases rest <;> rfl
      rw [List.map_cons, skipStatement, skipStatement, Token.moved_kind, next]
      split
      · rfl
      · split
        · rfl
        · split
          · rfl
          · exact inductionHypothesis

theorem commutes_recovering
    (commutes : Commutes shift line (moveStmt shift line) statement statement') :
    Commutes shift line (Option.map (moveStmt shift line)) (recovering statement)
      (recovering statement') := by
  intro state ended
  have paired := commutes state ended
  rw [recovering_apply, recovering_apply]
  cases result : statement state with
  | ok stmt final =>
      cases result' : statement' (state.moved shift line) with
      | ok stmt' final' =>
          rw [result, result'] at paired
          exact ⟨⟨congrArg some paired.1.1, paired.1.2⟩, paired.2⟩
      | error error' final' =>
          rw [result, result'] at paired
          exact paired.elim
  | error error final =>
      cases result' : statement' (state.moved shift line) with
      | ok stmt' final' =>
          rw [result, result'] at paired
          exact paired.elim
      | error error' final' =>
          rw [result, result'] at paired
          rcases paired with ⟨⟨rfl, rfl⟩, last, found, isEnd⟩
          refine ⟨⟨rfl, ?_⟩, last, getLast?_skipStatement found isEnd, isEnd⟩
          simp [ParserState.moved, ParserState.record, moved_skipStatement]

theorem commutes_present
    (commutes : Commutes shift line (moveExpr shift line) expression expression') :
    Commutes shift line (Option.map (moveExpr shift line)) (some <$> expression)
      (some <$> expression') :=
  commutes.map fun _ => rfl

theorem commutes_varDeclaration
    (commutes : Commutes shift line (moveExpr shift line) expression expression') :
    Commutes shift line (moveStmt shift line) (varDeclaration expression)
      (varDeclaration expression') := by
  have absent : Commutes shift line (Option.map (moveExpr shift line)) (Pure.pure none)
      (Pure.pure none) := .pure rfl
  refine (commutes_expectName _).bind fun name => (commutes_skip _).bind fun _ => .ite ?_ ?_
  · refine (commutes_present commutes).bind fun value => (commutes_expect _ _).bind fun _ => ?_
    exact .pure (by simp [moveStmt, Stmt.relabel])
  · refine absent.bind fun value => (commutes_expect _ _).bind fun _ => ?_
    exact .pure (by simp [moveStmt, Stmt.relabel])

theorem commutes_expressionStatement
    (commutes : Commutes shift line (moveExpr shift line) expression expression') :
    Commutes shift line (moveStmt shift line) (expressionStatement expression)
      (expressionStatement expression') :=
  commutes.bind fun value => (commutes_expect _ _).bind fun _ =>
    .pure (by simp [moveStmt, Stmt.relabel])

theorem commutes_printStatement
    (commutes : Commutes shift line (moveExpr shift line) expression expression') :
    Commutes shift line (moveStmt shift line) (printStatement expression)
      (printStatement expression') :=
  commutes.bind fun value => (commutes_expect _ _).bind fun _ =>
    .pure (by simp [moveStmt, Stmt.relabel])

theorem commutes_unlessNext (kind : TokenKind)
    (commutes : Commutes shift line (moveExpr shift line) expression expression') :
    Commutes shift line (Option.map (moveExpr shift line)) (unlessNext kind expression)
      (unlessNext kind expression') :=
  (commutes_check _).bind fun _ => .ite (.pure rfl) (commutes_present commutes)

theorem commutes_returnStatement (keyword : Nat)
    (commutes : Commutes shift line (moveExpr shift line) expression expression') :
    Commutes shift line (moveStmt shift line) (returnStatement expression keyword)
      (returnStatement expression' (line keyword)) :=
  (commutes_unlessNext _ commutes).bind fun value => (commutes_expect _ _).bind fun _ =>
    .pure (by simp [moveStmt, Stmt.relabel])

theorem commutes_blockBody
    (commutes : Commutes shift line (Option.map (moveStmt shift line)) declaration declaration')
    (budget : Nat) (done : List Stmt) :
    Commutes shift line (List.map (moveStmt shift line)) (blockBody declaration budget done)
      (blockBody declaration' budget (done.map (moveStmt shift line))) := by
  induction budget generalizing done with
  | zero => exact commutes_fail _
  | succ budget inductionHypothesis =>
      refine (commutes_check _).bind fun atBrace => commutes_isAtEnd.bind fun atEnd => ?_
      refine .ite ((commutes_expect _ _).bind fun _ => .pure (by simp)) ?_
      refine commutes.bind fun next => ?_
      have continued := inductionHypothesis (next.toList ++ done)
      rw [List.map_append, ← Option.toList_map] at continued
      exact continued

theorem commutes_ifStatement
    (commutes : Commutes shift line (moveExpr shift line) expression expression')
    (branchCommutes : Commutes shift line (moveStmt shift line) statement statement') :
    Commutes shift line (moveStmt shift line) (ifStatement expression statement)
      (ifStatement expression' statement') := by
  refine (commutes_expect _ _).bind fun _ => commutes.bind fun condition => ?_
  refine (commutes_expect _ _).bind fun _ => branchCommutes.bind fun thenBranch => ?_
  have present : Commutes shift line (Option.map (moveStmt shift line)) (some <$> statement)
      (some <$> statement') := branchCommutes.map fun _ => rfl
  have absent : Commutes shift line (Option.map (moveStmt shift line)) (Pure.pure none)
      (Pure.pure none) := .pure rfl
  refine (commutes_skip _).bind fun _ => .ite ?_ ?_
  · exact present.bind fun elseBranch => .pure (Stmt.relabel_if _ _ _ _ _).symm
  · exact absent.bind fun elseBranch => .pure (Stmt.relabel_if _ _ _ _ _).symm

theorem commutes_whileStatement
    (commutes : Commutes shift line (moveExpr shift line) expression expression')
    (bodyCommutes : Commutes shift line (moveStmt shift line) statement statement') :
    Commutes shift line (moveStmt shift line) (whileStatement expression statement)
      (whileStatement expression' statement') := by
  refine (commutes_expect _ _).bind fun _ => commutes.bind fun condition => ?_
  refine (commutes_expect _ _).bind fun _ => bodyCommutes.bind fun body => ?_
  exact .pure (by simp [moveStmt, Stmt.relabel])

theorem moved_forLoop (first : Option Stmt) (condition last : Option Expr) (body : Stmt) :
    moveStmt shift line (forLoop first condition last body) =
      forLoop (first.map (moveStmt shift line)) (condition.map (moveExpr shift line))
        (last.map (moveExpr shift line)) (moveStmt shift line body) := by
  unfold forLoop
  cases first <;> cases condition <;> cases last <;>
    simp [moveStmt, Stmt.relabel, Stmt.relabelEach, Expr.relabel]

theorem commutes_forInitializer
    (commutes : Commutes shift line (moveExpr shift line) expression expression') :
    Commutes shift line (Option.map (moveStmt shift line)) (forInitializer expression)
      (forInitializer expression') := by
  refine (commutes_skip _).bind fun _ => .ite (.pure rfl) ?_
  refine (commutes_skip _).bind fun _ => .ite ?_ ?_
  · exact (commutes_varDeclaration commutes).map fun _ => rfl
  · exact (commutes_expressionStatement commutes).map fun _ => rfl

theorem commutes_forStatement
    (commutes : Commutes shift line (moveExpr shift line) expression expression')
    (bodyCommutes : Commutes shift line (moveStmt shift line) statement statement') :
    Commutes shift line (moveStmt shift line) (forStatement expression statement)
      (forStatement expression' statement') := by
  refine (commutes_expect _ _).bind fun _ => (commutes_forInitializer commutes).bind fun first => ?_
  refine (commutes_unlessNext _ commutes).bind fun condition => (commutes_expect _ _).bind fun _ => ?_
  refine (commutes_unlessNext _ commutes).bind fun last => (commutes_expect _ _).bind fun _ => ?_
  exact bodyCommutes.bind fun body => .pure (moved_forLoop first condition last body).symm

/-- All parts of statements are parsed in the same way on moved tokens. -/
structure PartsCommute (shift : Nat) (line : Nat → Nat) (parts parts' : Parts) : Prop where
  budget : parts'.budget = parts.budget
  expression : Commutes shift line (moveExpr shift line) parts.expression parts'.expression
  statement : Commutes shift line (moveStmt shift line) parts.statement parts'.statement
  declaration :
    Commutes shift line (Option.map (moveStmt shift line)) parts.declaration parts'.declaration

variable {parts parts' : Parts}

theorem commutes_body (commute : PartsCommute shift line parts parts') :
    Commutes shift line (List.map (moveStmt shift line))
      (blockBody parts.declaration parts.budget []) (blockBody parts'.declaration parts'.budget []) := by
  rw [commute.budget]
  exact commutes_blockBody commute.declaration parts.budget []

theorem commutes_statementOf (commute : PartsCommute shift line parts parts') :
    Commutes shift line (moveStmt shift line) (statementOf parts) (statementOf parts') := by
  refine commutes_peek.bind ?_
  intro token
  rw [Token.moved_kind]
  generalize token.kind = kind
  split
  · exact commutes_advance.bind fun _ => commutes_forStatement commute.expression commute.statement
  · exact commutes_advance.bind fun _ => commutes_ifStatement commute.expression commute.statement
  · exact commutes_advance.bind fun _ => commutes_whileStatement commute.expression commute.statement
  · exact commutes_advance.bind fun _ => commutes_returnStatement token.line commute.expression
  · refine commutes_advance.bind fun _ => (commutes_body commute).bind fun body => ?_
    exact .pure (by simp [moveStmt, Stmt.relabel, Stmt.relabelEach_eq_map])
  · exact commutes_advance.bind fun _ => commutes_printStatement commute.expression
  · exact commutes_expressionStatement commute.expression

theorem commutes_parameters (budget : Nat) :
    Commutes shift line (List.map (Name.moved line)) (parameters budget) (parameters budget) :=
  (commutes_check _).bind fun _ =>
    .ite (.pure rfl) (commutes_commaSeparated (commutes_expectName _) _ budget [])

theorem commutes_functionDeclaration (commute : PartsCommute shift line parts parts')
    (role : FunctionRole) :
    Commutes shift line (moveFunction shift line) (functionDeclaration parts role)
      (functionDeclaration parts' role) := by
  refine (commutes_expectName _).bind fun name => (commutes_expect _ _).bind fun _ => ?_
  rw [commute.budget]
  refine (commutes_parameters parts.budget).bind fun params => (commutes_expect _ _).bind fun _ => ?_
  refine (commutes_expect _ _).bind fun _ => ?_
  refine (commutes_blockBody commute.declaration parts.budget []).bind fun body => ?_
  exact .pure (by simp [moveFunction, Stmt.relabelFunction, Stmt.relabelEach_eq_map])

theorem commutes_methods (commute : PartsCommute shift line parts parts') (budget : Nat)
    (done : List FunctionDecl) :
    Commutes shift line (List.map (moveFunction shift line)) (methods parts budget done)
      (methods parts' budget (done.map (moveFunction shift line))) := by
  induction budget generalizing done with
  | zero => exact commutes_fail _
  | succ budget inductionHypothesis =>
      refine (commutes_check _).bind fun atBrace => commutes_isAtEnd.bind fun atEnd => ?_
      refine .ite ((commutes_expect _ _).bind fun _ => .pure (by simp)) ?_
      exact (commutes_functionDeclaration commute .method).bind fun next =>
        inductionHypothesis (next :: done)

theorem commutes_superclassClause :
    Commutes shift line (Option.map (moveExpr shift line)) superclassClause superclassClause := by
  refine (commutes_skip _).bind fun _ => .ite ?_ (.pure rfl)
  refine (commutes_expectName _).bind fun name => commutes_freshId.bind fun id => ?_
  exact .pure (by simp [moveExpr, Expr.relabel])

theorem commutes_classDeclaration (commute : PartsCommute shift line parts parts') :
    Commutes shift line (moveStmt shift line) (classDeclaration parts) (classDeclaration parts') := by
  refine (commutes_expectName _).bind fun name => commutes_superclassClause.bind fun superclass => ?_
  refine (commutes_expect _ _).bind fun _ => ?_
  rw [commute.budget]
  refine (commutes_methods commute parts.budget []).bind fun methods => ?_
  exact .pure (by simp [moveStmt, Stmt.relabel, Stmt.relabelMethods_eq_map])

theorem commutes_declarationOf (commute : PartsCommute shift line parts parts') :
    Commutes shift line (moveStmt shift line) (declarationOf parts) (declarationOf parts') := by
  refine (commutes_skip _).bind fun _ => .ite (commutes_classDeclaration commute) ?_
  refine (commutes_skip _).bind fun _ => .ite ?_ ?_
  · refine (commutes_functionDeclaration commute .function).bind fun declaration => ?_
    exact .pure (by simp [moveStmt, Stmt.relabel])
  · refine (commutes_skip _).bind fun _ => .ite (commutes_varDeclaration commute.expression) ?_
    exact commutes_statementOf commute

end Statements

mutual

theorem commutes_statement : ∀ budget : Nat,
    Commutes shift line (moveStmt shift line) (statement budget) (statement budget)
  | 0 => by
      rw [statement]
      exact commutes_fail _
  | budget + 1 => by
      rw [statement]
      exact commutes_statementOf ⟨rfl, commutes_expression _, commutes_statement budget,
        commutes_declaration budget⟩

theorem commutes_declaration : ∀ budget : Nat,
    Commutes shift line (Option.map (moveStmt shift line)) (declaration budget)
      (declaration budget)
  | 0 => by
      rw [declaration]
      exact commutes_recovering (commutes_fail _)
  | budget + 1 => by
      rw [declaration]
      exact commutes_recovering (commutes_declarationOf ⟨rfl, commutes_expression _,
        commutes_statement budget, commutes_declaration budget⟩)

end

theorem commutes_declarations {declaration declaration' : Parser (Option Stmt)}
    (commutes : Commutes shift line (Option.map (moveStmt shift line)) declaration declaration')
    (budget : Nat) (done : List Stmt) :
    Commutes shift line (List.map (moveStmt shift line)) (declarations declaration budget done)
      (declarations declaration' budget (done.map (moveStmt shift line))) := by
  induction budget generalizing done with
  | zero => exact .pure (by simp)
  | succ budget inductionHypothesis =>
      refine commutes_isAtEnd.bind fun atEnd => .ite (.pure (by simp)) ?_
      refine commutes.bind fun next => ?_
      have continued := inductionHypothesis (next.toList ++ done)
      rw [List.map_append, ← Option.toList_map] at continued
      exact continued

/-! ## Whole inputs -/

/-- The result of a parser on moved tokens. -/
def movedResult {α : Type} (shift : Nat) (line : Nat → Nat) (move : α → α) :
    Except (List SyntaxError) α × UseId → Except (List SyntaxError) α × UseId
  | (.ok value, nextId) => (.ok (move value), nextId + shift)
  | (.error errors, nextId) => (.error (errors.map (SyntaxError.moved line)), nextId + shift)

theorem Commutes.run {α : Type} {move : α → α} {parser : Parser α}
    (commutes : Commutes shift line move parser parser) (firstId : UseId) {tokens : List Token}
    {last : Token} (found : tokens.getLast? = some last) (isEnd : last.kind = .endOfInput) :
    Parser.read parser (firstId + shift) (tokens.map (Token.moved line)) =
      movedResult shift line move (Parser.read parser firstId tokens) := by
  have paired := commutes ⟨tokens, #[], firstId⟩ ⟨last, found, isEnd⟩
  have start : (ParserState.mk tokens #[] firstId).moved shift line =
      ⟨tokens.map (Token.moved line), #[], firstId + shift⟩ := by
    simp [ParserState.moved]
  rw [start] at paired
  unfold Parser.read
  generalize parser ⟨tokens, #[], firstId⟩ = result at paired ⊢
  generalize parser ⟨tokens.map (Token.moved line), #[], firstId + shift⟩ = result' at paired ⊢
  cases result with
  | ok value final =>
      cases result' with
      | ok value' final' =>
          rcases paired with ⟨⟨rfl, rfl⟩, -⟩
          by_cases clean : final.errors = #[]
          · simp [ParserState.moved, clean, movedResult]
          · simp [ParserState.moved, clean, movedResult]
      | error error' final' => exact paired.elim
  | error error final =>
      cases result' with
      | ok value' final' => exact paired.elim
      | error error' final' =>
          rcases paired with ⟨⟨rfl, rfl⟩, -⟩
          simp [ParserState.moved, ParserState.record, movedResult]

end Parser

/-- On moved tokens and with later identities the same program is parsed, moved, or
the same errors are found at the moved tokens. -/
theorem parseProgram_moved (shift : Nat) (line : Nat → Nat) (firstId : UseId)
    {tokens : List Token} {last : Token} (found : tokens.getLast? = some last)
    (isEnd : last.kind = .endOfInput) :
    parseProgram (firstId + shift) (tokens.map (Token.moved line)) =
      Parser.movedResult shift line (Stmt.relabelEach (· + shift) line)
        (parseProgram firstId tokens) := by
  have commutes : Parser.Commutes shift line (List.map (Parser.moveStmt shift line))
      (Parser.declarations (Parser.declaration tokens.length) tokens.length [])
      (Parser.declarations (Parser.declaration tokens.length) tokens.length []) :=
    Parser.commutes_declarations (Parser.commutes_declaration _) _ []
  have move : Stmt.relabelEach (· + shift) line = List.map (Parser.moveStmt shift line) :=
    funext (Stmt.relabelEach_eq_map _ _)
  have foundMoved : (tokens.map (Token.moved line)).getLast? = some (last.moved line) := by
    rw [List.getLast?_map, found]
    rfl
  have isEndMoved : (last.moved line).kind = .endOfInput := (Token.moved_kind _ _).trans isEnd
  rw [Parser.parseProgram_eq_read firstId found isEnd,
    Parser.parseProgram_eq_read (firstId + shift) foundMoved isEndMoved, List.length_map, move]
  exact commutes.run firstId found isEnd

end Lox
