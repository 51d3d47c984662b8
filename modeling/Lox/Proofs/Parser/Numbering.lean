import Lox.Proofs.Parser.Progress
import Lox.Proofs.Syntax.Ids

/-!
# Uses get identities of their own

No two uses in a parsed program have the same identity, and all identities are
among those given out while the program was parsed.  Each parser is followed with
the identities collected before it, which is what its result is built from.
-/

namespace Lox

namespace Parser

open Actions

variable {α β : Type} {before : List UseId} {ids : α → List UseId} {moreIds : β → List UseId}

/-- If the identities in `before` are fresh when the parser starts, then so are
those of its result when it ends. -/
def Collects (before : List UseId) (ids : α → List UseId) (parser : Parser α) : Prop :=
  ∀ ⦃low state value final⦄, parser state = .ok value final → low ≤ state.nextId →
    Fresh low state.nextId before → Fresh low final.nextId (ids value)

/-- The identities of a result were given out by its parser. -/
def Numbers (ids : α → List UseId) (parser : Parser α) : Prop :=
  ∀ ⦃state value final⦄, parser state = .ok value final →
    Fresh state.nextId final.nextId (ids value)

theorem Collects.numbers {parser : Parser α} (collects : Collects [] ids parser) :
    Numbers ids parser :=
  fun _ _ _ parsed => collects parsed (Nat.le_refl _) Fresh.nil

theorem Advancing.nextId_le {parser : Parser α} (advances : Advancing parser)
    {state final : ParserState} {value : α} (parsed : parser state = .ok value final) :
    state.nextId ≤ final.nextId := by
  have step := advances state
  rw [parsed] at step
  exact step.nextId

theorem Numbers.collects {parser : Parser α} (numbers : Numbers ids parser)
    (advances : Advancing parser) :
    Collects before (fun value => before ++ ids value) parser := by
  intro low state value final parsed bounded fresh
  exact fresh.append (numbers parsed) (advances.nextId_le parsed) bounded

theorem Collects.of_advancing {parser : Parser α} (advances : Advancing parser) :
    Collects before (fun _ => before) parser :=
  fun _ _ _ _ parsed _ fresh => fresh.mono (advances.nextId_le parsed)

theorem Collects.pure {value : α}
    (fewer : ∀ id, (ids value).count id ≤ before.count id) :
    Collects before ids (Pure.pure value) := by
  intro low state result final parsed _ fresh
  rcases pure_eq_ok_iff.mp parsed with ⟨rfl, rfl⟩
  exact fresh.of_count_le fewer

theorem Collects.fail (fault : SyntaxFault) : Collects before ids (Parser.fail fault) :=
  nofun

theorem Collects.bind {first : Parser α} {next : α → Parser β}
    (advances : Advancing first) (firstCollects : Collects before ids first)
    (nextCollects : ∀ value, Collects (ids value) moreIds (next value)) :
    Collects before moreIds (first >>= next) := by
  intro low state result final parsed bounded fresh
  rw [bind_eq_ok_iff] at parsed
  rcases parsed with ⟨value, middle, firstParsed, nextParsed⟩
  have ordered := advances.nextId_le firstParsed
  have collected := firstCollects firstParsed bounded fresh
  exact nextCollects value nextParsed (Nat.le_trans bounded ordered) collected

theorem Collects.pure_bind {value : α} {next : α → Parser β}
    (nextCollects : Collects before moreIds (next value)) :
    Collects before moreIds (Pure.pure value >>= next) :=
  fun _ _ _ _ parsed => nextCollects parsed

/-- A parser that gives out no identity of its own may come first. -/
theorem Collects.after {first : Parser α} {next : α → Parser β} (advances : Advancing first)
    (nextCollects : ∀ value, Collects before moreIds (next value)) :
    Collects before moreIds (first >>= next) :=
  Collects.bind advances (Collects.of_advancing advances) nextCollects

theorem Collects.ite {condition : Prop} [Decidable condition] {first second : Parser α}
    (firstCollects : Collects before ids first) (secondCollects : Collects before ids second) :
    Collects before ids (if condition then first else second) := by
  split
  · exact firstCollects
  · exact secondCollects

theorem Collects.map {first : Parser α} {f : α → β} (collects : Collects before ids first)
    (fewer : ∀ value id, (moreIds (f value)).count id ≤ (ids value).count id) :
    Collects before moreIds (f <$> first) := by
  intro low state result final parsed bounded fresh
  rcases map_eq_ok_iff.mp parsed with ⟨value, firstParsed, rfl⟩
  exact (collects firstParsed bounded fresh).of_count_le (fewer value)

theorem numbers_freshId : Numbers (fun id => [id]) freshId := by
  intro state id final parsed
  rcases freshId_ok parsed with ⟨rfl, rfl⟩
  exact Fresh.singleton state.nextId

/-! ## Expressions -/

variable {expression : Parser Expr} {statement : Parser Stmt}

theorem collects_freshUse {node : UseId → Expr} (uses : ∀ id, (node id).uses = [id]) :
    Collects before (fun expr => before ++ expr.uses)
      (freshId >>= fun id => Pure.pure (node id)) := by
  refine .bind advancing_freshId (numbers_freshId.collects advancing_freshId) fun id => ?_
  exact .pure (by simp [uses])

theorem numbers_primary (advances : Advancing expression) (numbers : Numbers Expr.uses expression) :
    Numbers Expr.uses (primary expression) := by
  apply Collects.numbers
  refine .after advancing_peek ?_
  intro token
  have constantCollects : ∀ value, Collects [] Expr.uses (constant value) := by
    intro value
    exact .after advancing_advance fun _ => .pure (by simp [Expr.uses])
  split
  case h_6 =>
    refine .after advancing_advance fun _ => .after (advancing_expect _ _) fun _ => ?_
    exact .after (advancing_expectName _) fun _ => collects_freshUse fun _ => by simp [Expr.uses]
  case h_7 =>
    exact .after advancing_advance fun _ => collects_freshUse fun _ => by simp [Expr.uses]
  case h_8 =>
    exact .after advancing_advance fun _ => collects_freshUse fun _ => by simp [Expr.uses]
  case h_9 =>
    refine .after advancing_advance fun _ => ?_
    refine .bind advances (numbers.collects advances) fun inner => ?_
    exact .after (advancing_expect _ _) fun _ => .pure (by simp [Expr.uses])
  case h_10 => exact .fail _
  all_goals exact constantCollects _

/-- Items read one after another keep the identities of those read before. -/
theorem collects_commaSeparated {item : Parser α} (fault : SyntaxFault) (advances : Advancing item)
    (numbers : Numbers ids item) (budget : Nat) (done : List α) :
    Collects (done.flatMap ids) (List.flatMap ids) (commaSeparated item fault budget done) := by
  have reversed : ∀ (values : List α) (id : UseId),
      (values.reverse.flatMap ids).count id ≤ (values.flatMap ids).count id := by
    intro values id
    exact Nat.le_of_eq (((List.reverse_perm values).flatMap_right ids).count_eq id)
  induction budget generalizing done with
  | zero => exact .pure (reversed done)
  | succ budget inductionHypothesis =>
      rw [commaSeparated_succ]
      refine .after (Advancing.ite (advancing_report fault) (Advancing.pure _)) fun _ => ?_
      refine .bind advances (numbers.collects advances) fun next => ?_
      refine .after (advancing_skip _) fun _ => .ite ?_ ?_
      · have collects := inductionHypothesis (next :: done)
        intro low state value final parsed bounded fresh
        refine collects parsed bounded (fresh.of_count_le fun id => ?_)
        simp only [List.flatMap_cons, List.count_append]
        omega
      · refine .pure fun id => Nat.le_trans (reversed (next :: done) id) ?_
        simp only [List.flatMap_cons, List.count_append]
        omega

theorem usesEach_eq_flatMap (exprs : List Expr) :
    Expr.usesEach exprs = exprs.flatMap Expr.uses := by
  induction exprs with
  | nil => rfl
  | cons first rest inductionHypothesis =>
      rw [Expr.usesEach, inductionHypothesis, List.flatMap_cons]

theorem numbers_arguments (advances : Advancing expression)
    (numbers : Numbers Expr.uses expression) (budget : Nat) :
    Numbers Expr.usesEach (arguments expression budget) := by
  rw [funext usesEach_eq_flatMap]
  apply Collects.numbers
  refine .after (advancing_check _) fun _ => .ite (.pure fun _ => Nat.le_refl _) ?_
  exact collects_commaSeparated _ advances numbers budget []

theorem collects_suffixes (advances : Advancing expression)
    (numbers : Numbers Expr.uses expression) (budget : Nat) (subject : Expr) :
    Collects subject.uses Expr.uses (suffixes expression budget subject) := by
  induction budget generalizing subject with
  | zero => exact .pure fun _ => Nat.le_refl _
  | succ budget inductionHypothesis =>
      refine .after (advancing_skip _) fun _ => .ite ?_ ?_
      · have argumentsAdvance := advancing_arguments advances budget
        have argumentsNumber := numbers_arguments advances numbers budget
        refine .bind argumentsAdvance (argumentsNumber.collects argumentsAdvance) ?_
        intro arguments
        exact .after (advancing_expect _ _) fun closing =>
          inductionHypothesis (.call subject closing.line arguments)
      · refine .after (advancing_skip _) fun _ => .ite ?_ (.pure fun _ => Nat.le_refl _)
        exact .after (advancing_expectName _) fun name => inductionHypothesis (.get subject name)

theorem numbers_call (advances : Advancing expression) (numbers : Numbers Expr.uses expression)
    (budget : Nat) : Numbers Expr.uses (call expression budget) := by
  apply Collects.numbers
  have primaryAdvances := advancing_primary advances
  have primaryNumbers := numbers_primary advances numbers
  refine .bind primaryAdvances (primaryNumbers.collects primaryAdvances) fun subject => ?_
  exact collects_suffixes advances numbers budget subject

theorem numbers_unary (advances : Advancing expression) (numbers : Numbers Expr.uses expression)
    (budget depth : Nat) : Numbers Expr.uses (unary expression budget depth) := by
  have callNumbers := numbers_call advances numbers budget
  have callAdvances := advancing_call advances budget
  induction depth with
  | zero => exact callNumbers
  | succ depth inductionHypothesis =>
      apply Collects.numbers
      refine .after (advancing_acceptIf _) ?_
      intro found
      cases found with
      | none => exact callNumbers.collects callAdvances
      | some operator =>
          have operandAdvances := advancing_unary advances budget depth
          refine .bind operandAdvances (inductionHypothesis.collects operandAdvances) ?_
          intro operand
          exact .pure fun _ => Nat.le_refl _

theorem collects_operations {level : Level} (member : level ∈ levels) {operand : Parser Expr}
    (advances : Advancing operand) (numbers : Numbers Expr.uses operand) (budget : Nat)
    (left : Expr) : Collects left.uses Expr.uses (operations level operand budget left) := by
  have combined : ∀ left operator right, (level.combine left operator right).uses =
      left.uses ++ right.uses := by
    intro left operator right
    simp only [levels, List.mem_cons, List.not_mem_nil, or_false] at member
    rcases member with rfl | rfl | rfl | rfl | rfl | rfl <;> simp [Expr.uses]
  induction budget generalizing left with
  | zero => exact .pure fun _ => Nat.le_refl _
  | succ budget inductionHypothesis =>
      refine .after (advancing_acceptIf _) ?_
      intro found
      cases found with
      | none => exact .pure fun _ => Nat.le_refl _
      | some operator =>
          refine .bind advances (numbers.collects advances) fun right => ?_
          have collects := inductionHypothesis (level.combine left operator right)
          rw [combined] at collects
          exact collects

theorem numbers_infixLevels {operand : Parser Expr} (advances : Advancing operand)
    (numbers : Numbers Expr.uses operand) (budget : Nat) {tiers : List Level}
    (subset : ∀ level ∈ tiers, level ∈ levels) :
    Numbers Expr.uses (infixLevels operand budget tiers) := by
  induction tiers with
  | nil => exact numbers
  | cons level tighter inductionHypothesis =>
      have tighterNumbers := inductionHypothesis fun other member =>
        subset other (List.mem_cons_of_mem _ member)
      have tighterAdvances := advancing_infixLevels advances budget tighter
      apply Collects.numbers
      refine .bind tighterAdvances (tighterNumbers.collects tighterAdvances) fun left => ?_
      exact collects_operations (subset level List.mem_cons_self) tighterAdvances tighterNumbers
        budget left

theorem collects_assignTo (target : Expr) (equals : Token) (value : Expr) :
    Collects (target.uses ++ value.uses) Expr.uses (assignTo target equals value) := by
  unfold assignTo
  split
  · refine .bind advancing_freshId (numbers_freshId.collects advancing_freshId) fun id => ?_
    refine .pure fun other => ?_
    simp only [Expr.uses, List.count_append, List.count_cons, List.count_nil]
    omega
  · refine .pure fun other => ?_
    simp [Expr.uses]
  · refine .after (advancing_reportAt _ _) fun _ => .pure fun other => ?_
    simp only [List.count_append]
    omega

theorem numbers_expression (budget : Nat) : Numbers Expr.uses (Parser.expression budget) := by
  induction budget with
  | zero => exact (Collects.fail _).numbers
  | succ budget inductionHypothesis =>
      have advances := advancing_expression budget
      have operandAdvances := advancing_unary advances budget budget
      have operandNumbers := numbers_unary advances inductionHypothesis budget budget
      have targetAdvances := advancing_infixLevels operandAdvances budget levels
      have targetNumbers :=
        numbers_infixLevels operandAdvances operandNumbers budget fun _ member => member
      apply Collects.numbers
      refine .bind targetAdvances (targetNumbers.collects targetAdvances) fun target => ?_
      refine .after (advancing_accept _) ?_
      intro found
      cases found with
      | none => exact .pure fun _ => Nat.le_refl _
      | some equals =>
          refine .bind advances (inductionHypothesis.collects advances) fun value => ?_
          exact collects_assignTo target equals value

/-! ## Statements -/

theorem numbers_present (advances : Advancing expression) (numbers : Numbers Expr.uses expression) :
    Numbers Expr.optionUses (some <$> expression) := by
  apply Collects.numbers
  exact .map (numbers.collects advances) fun _ _ => Nat.le_refl _

theorem numbers_varDeclaration (advances : Advancing expression)
    (numbers : Numbers Expr.uses expression) : Numbers Stmt.ids (varDeclaration expression) := by
  apply Collects.numbers
  refine .after (advancing_expectName _) fun name => .after (advancing_skip _) fun _ => .ite ?_ ?_
  · have presentNumbers := numbers_present advances numbers
    refine .bind (advances.map _) (presentNumbers.collects (advances.map _)) fun initializer => ?_
    exact .after (advancing_expect _ _) fun _ => .pure fun _ => Nat.le_refl _
  · refine .pure_bind (.after (advancing_expect _ _) fun _ => ?_)
    exact .pure fun _ => Nat.le_refl _

theorem numbers_expressionStatement (advances : Advancing expression)
    (numbers : Numbers Expr.uses expression) :
    Numbers Stmt.ids (expressionStatement expression) := by
  apply Collects.numbers
  refine .bind advances (numbers.collects advances) fun value => ?_
  exact .after (advancing_expect _ _) fun _ => .pure fun _ => Nat.le_refl _

theorem numbers_printStatement (advances : Advancing expression)
    (numbers : Numbers Expr.uses expression) : Numbers Stmt.ids (printStatement expression) := by
  apply Collects.numbers
  refine .bind advances (numbers.collects advances) fun value => ?_
  exact .after (advancing_expect _ _) fun _ => .pure fun _ => Nat.le_refl _

theorem numbers_unlessNext (kind : TokenKind) (advances : Advancing expression)
    (numbers : Numbers Expr.uses expression) :
    Numbers Expr.optionUses (unlessNext kind expression) := by
  apply Collects.numbers
  refine .after (advancing_check _) fun _ => .ite (.pure fun _ => Nat.le_refl _) ?_
  exact (numbers_present advances numbers).collects (advances.map _)

theorem numbers_returnStatement (advances : Advancing expression)
    (numbers : Numbers Expr.uses expression) (line : Nat) :
    Numbers Stmt.ids (returnStatement expression line) := by
  apply Collects.numbers
  have valueAdvances := advancing_unlessNext (.punct .semicolon) advances
  have valueNumbers := numbers_unlessNext (.punct .semicolon) advances numbers
  refine .bind valueAdvances (valueNumbers.collects valueAdvances) fun value => ?_
  exact .after (advancing_expect _ _) fun _ => .pure fun _ => Nat.le_refl _

theorem count_idsEach_reverse (stmts : List Stmt) (id : UseId) :
    (Stmt.idsEach stmts.reverse).count id = (Stmt.idsEach stmts).count id := by
  induction stmts with
  | nil => rfl
  | cons first rest inductionHypothesis =>
      simp only [List.reverse_cons, Stmt.idsEach_append, Stmt.idsEach, List.append_nil,
        List.count_append, inductionHypothesis]
      omega

theorem collects_blockBody {declaration : Parser (Option Stmt)} (advances : Advancing declaration)
    (numbers : Numbers (fun found => Stmt.idsEach found.toList) declaration) (budget : Nat)
    (done : List Stmt) :
    Collects (Stmt.idsEach done) Stmt.idsEach (blockBody declaration budget done) := by
  induction budget generalizing done with
  | zero => exact .fail _
  | succ budget inductionHypothesis =>
      refine .after (advancing_check _) fun _ => .after advancing_isAtEnd fun _ => .ite ?_ ?_
      · refine .after (advancing_expect _ _) fun _ => .pure fun id => ?_
        exact Nat.le_of_eq (count_idsEach_reverse done id)
      · refine .bind advances (numbers.collects advances) fun next => ?_
        have collects := inductionHypothesis (next.toList ++ done)
        intro low state value final parsed bounded fresh
        refine collects parsed bounded (fresh.of_count_le fun id => ?_)
        simp only [Stmt.idsEach_append, List.count_append]
        omega

theorem numbers_ifStatement (advances : Advancing expression)
    (statementAdvances : Advancing statement) (numbers : Numbers Expr.uses expression)
    (statementNumbers : Numbers Stmt.ids statement) :
    Numbers Stmt.ids (ifStatement expression statement) := by
  have elseCollects : ∀ {before : List UseId}, Collects before
      (fun found => before ++ Stmt.idsEach found.toList) (some <$> statement) := by
    intro before
    refine .map (statementNumbers.collects statementAdvances) fun stmt id => ?_
    simp [Stmt.idsEach]
  apply Collects.numbers
  refine .after (advancing_expect _ _) fun _ => ?_
  refine .bind advances (numbers.collects advances) fun condition => ?_
  refine .after (advancing_expect _ _) fun _ => ?_
  refine .bind statementAdvances (statementNumbers.collects statementAdvances) ?_
  intro thenBranch
  refine .after (advancing_skip _) fun _ => .ite ?_ ?_
  · refine .bind (statementAdvances.map _) elseCollects fun elseBranch => .pure fun id => ?_
    simp [Stmt.ids_if]
  · refine .pure_bind (.pure fun id => ?_)
    simp [Stmt.ids_if, Stmt.idsEach]

theorem numbers_whileStatement (advances : Advancing expression)
    (statementAdvances : Advancing statement) (numbers : Numbers Expr.uses expression)
    (statementNumbers : Numbers Stmt.ids statement) :
    Numbers Stmt.ids (whileStatement expression statement) := by
  apply Collects.numbers
  refine .after (advancing_expect _ _) fun _ => ?_
  refine .bind advances (numbers.collects advances) fun condition => ?_
  refine .after (advancing_expect _ _) fun _ => ?_
  refine .bind statementAdvances (statementNumbers.collects statementAdvances) ?_
  intro body
  exact .pure fun _ => Nat.le_refl _

theorem numbers_forInitializer (advances : Advancing expression)
    (numbers : Numbers Expr.uses expression) :
    Numbers (fun found => Stmt.idsEach found.toList) (forInitializer expression) := by
  have someCollects : ∀ {parser : Parser Stmt}, Advancing parser → Numbers Stmt.ids parser →
      Collects [] (fun found : Option Stmt => Stmt.idsEach found.toList) (some <$> parser) := by
    intro parser parserAdvances parserNumbers
    refine .map (parserNumbers.collects parserAdvances) fun stmt id => ?_
    simp [Stmt.idsEach]
  apply Collects.numbers
  refine .after (advancing_skip _) fun _ => .ite (.pure fun _ => Nat.le_refl _) ?_
  refine .after (advancing_skip _) fun _ => .ite ?_ ?_
  · exact someCollects (advancing_varDeclaration advances) (numbers_varDeclaration advances numbers)
  · exact someCollects (advancing_expressionStatement advances)
      (numbers_expressionStatement advances numbers)

theorem count_forLoop (first : Option Stmt) (condition last : Option Expr) (body : Stmt)
    (id : UseId) :
    (forLoop first condition last body).ids.count id =
      (Stmt.idsEach first.toList).count id + (Expr.optionUses condition).count id +
        (Expr.optionUses last).count id + body.ids.count id := by
  cases first <;> cases condition <;> cases last <;>
    simp [forLoop, Stmt.ids, Stmt.idsEach, Expr.optionUses, Expr.uses] <;> omega

theorem numbers_forStatement (advances : Advancing expression)
    (statementAdvances : Advancing statement) (numbers : Numbers Expr.uses expression)
    (statementNumbers : Numbers Stmt.ids statement) :
    Numbers Stmt.ids (forStatement expression statement) := by
  have firstAdvances := advancing_forInitializer advances
  have firstNumbers := numbers_forInitializer advances numbers
  have clauseAdvances := fun kind => advancing_unlessNext kind advances
  have clauseNumbers := fun kind => numbers_unlessNext kind advances numbers
  apply Collects.numbers
  refine .after (advancing_expect _ _) fun _ => ?_
  refine .bind firstAdvances (firstNumbers.collects firstAdvances) fun first => ?_
  refine .bind (clauseAdvances _) ((clauseNumbers _).collects (clauseAdvances _)) ?_
  intro condition
  refine .after (advancing_expect _ _) fun _ => ?_
  refine .bind (clauseAdvances _) ((clauseNumbers _).collects (clauseAdvances _)) ?_
  intro last
  refine .after (advancing_expect _ _) fun _ => ?_
  refine .bind statementAdvances (statementNumbers.collects statementAdvances) fun body => ?_
  refine .pure fun id => ?_
  rw [count_forLoop]
  simp only [List.count_append, List.nil_append]
  omega

theorem numbers_superclassClause : Numbers Expr.optionUses superclassClause := by
  apply Collects.numbers
  refine .after (advancing_skip _) fun _ => .ite ?_ (.pure fun _ => Nat.le_refl _)
  refine .after (advancing_expectName _) fun name => ?_
  refine .bind advancing_freshId (numbers_freshId.collects advancing_freshId) fun id => ?_
  exact .pure fun _ => Nat.le_refl _

namespace Parts

/-- The identities of all parts were given out by their parsers. -/
structure Numbers (parts : Parts) : Prop where
  expression : Parser.Numbers Expr.uses parts.expression
  statement : Parser.Numbers Stmt.ids parts.statement
  declaration : Parser.Numbers (fun found => Stmt.idsEach found.toList) parts.declaration

end Parts

variable {parts : Parts}

theorem numbers_statementOf (advances : parts.Advancing) (numbers : parts.Numbers) :
    Numbers Stmt.ids (statementOf parts) := by
  apply Collects.numbers
  refine .after advancing_peek ?_
  intro token
  split
  · refine .after advancing_advance fun _ => ?_
    exact (numbers_forStatement advances.expression advances.statement numbers.expression
      numbers.statement).collects (advancing_forStatement advances.expression advances.statement)
  · refine .after advancing_advance fun _ => ?_
    exact (numbers_ifStatement advances.expression advances.statement numbers.expression
      numbers.statement).collects (advancing_ifStatement advances.expression advances.statement)
  · refine .after advancing_advance fun _ => ?_
    exact (numbers_whileStatement advances.expression advances.statement numbers.expression
      numbers.statement).collects (advancing_whileStatement advances.expression advances.statement)
  · refine .after advancing_advance fun _ => ?_
    exact (numbers_returnStatement advances.expression numbers.expression _).collects
      (advancing_returnStatement advances.expression _)
  · refine .after advancing_advance fun _ => ?_
    refine .bind (advancing_blockBody advances.declaration _ _)
      (collects_blockBody advances.declaration numbers.declaration _ []) fun body => ?_
    exact .pure fun _ => Nat.le_refl _
  · refine .after advancing_advance fun _ => ?_
    exact (numbers_printStatement advances.expression numbers.expression).collects
      (advancing_printStatement advances.expression)
  · exact (numbers_expressionStatement advances.expression numbers.expression).collects
      (advancing_expressionStatement advances.expression)

theorem numbers_functionDeclaration (advances : parts.Advancing) (numbers : parts.Numbers)
    (role : FunctionRole) : Numbers Stmt.functionIds (functionDeclaration parts role) := by
  apply Collects.numbers
  refine .after (advancing_expectName _) fun _ => .after (advancing_expect _ _) fun _ => ?_
  refine .after (advancing_parameters _) fun _ => .after (advancing_expect _ _) fun _ => ?_
  refine .after (advancing_expect _ _) fun _ => ?_
  refine .bind (advancing_blockBody advances.declaration _ _)
    (collects_blockBody advances.declaration numbers.declaration _ []) fun body => ?_
  exact .pure fun _ => Nat.le_refl _

theorem count_methodIds_reverse (methods : List FunctionDecl) (id : UseId) :
    (Stmt.methodIds methods.reverse).count id = (Stmt.methodIds methods).count id := by
  induction methods with
  | nil => rfl
  | cons first rest inductionHypothesis =>
      simp only [List.reverse_cons, Stmt.methodIds_append, Stmt.methodIds, List.append_nil,
        List.count_append, inductionHypothesis]
      omega

theorem collects_methods (advances : parts.Advancing) (numbers : parts.Numbers) (budget : Nat)
    (done : List FunctionDecl) :
    Collects (Stmt.methodIds done) Stmt.methodIds (methods parts budget done) := by
  have functionAdvances := advancing_functionDeclaration advances .method
  have functionNumbers := numbers_functionDeclaration advances numbers .method
  induction budget generalizing done with
  | zero => exact .fail _
  | succ budget inductionHypothesis =>
      refine .after (advancing_check _) fun _ => .after advancing_isAtEnd fun _ => .ite ?_ ?_
      · refine .after (advancing_expect _ _) fun _ => .pure fun id => ?_
        exact Nat.le_of_eq (count_methodIds_reverse done id)
      · refine .bind functionAdvances (functionNumbers.collects functionAdvances) fun next => ?_
        have collects := inductionHypothesis (next :: done)
        intro low state value final parsed bounded fresh
        refine collects parsed bounded (fresh.of_count_le fun id => ?_)
        simp only [Stmt.methodIds, List.count_append]
        omega

theorem numbers_classDeclaration (advances : parts.Advancing) (numbers : parts.Numbers) :
    Numbers Stmt.ids (classDeclaration parts) := by
  apply Collects.numbers
  refine .after (advancing_expectName _) fun name => ?_
  refine .bind advancing_superclassClause
    (numbers_superclassClause.collects advancing_superclassClause) fun superclass => ?_
  refine .after (advancing_expect _ _) fun _ => ?_
  have methodsAdvance := advancing_methods advances parts.budget []
  have methodsNumber := (collects_methods advances numbers parts.budget []).numbers
  refine .bind methodsAdvance (methodsNumber.collects methodsAdvance) fun methods => ?_
  exact .pure fun _ => Nat.le_refl _

theorem numbers_declarationOf (advances : parts.Advancing) (numbers : parts.Numbers) :
    Numbers Stmt.ids (declarationOf parts) := by
  have functionAdvances := advancing_functionDeclaration advances .function
  have functionNumbers := numbers_functionDeclaration advances numbers .function
  apply Collects.numbers
  refine .after (advancing_skip _) fun _ => .ite ?_ ?_
  · exact (numbers_classDeclaration advances numbers).collects
      (advancing_classDeclaration advances)
  refine .after (advancing_skip _) fun _ => .ite ?_ ?_
  · refine .bind functionAdvances (functionNumbers.collects functionAdvances) fun _ => ?_
    exact .pure fun _ => Nat.le_refl _
  refine .after (advancing_skip _) fun _ => .ite ?_ ?_
  · exact (numbers_varDeclaration advances.expression numbers.expression).collects
      (advancing_varDeclaration advances.expression)
  · exact (numbers_statementOf advances numbers).collects (advancing_statementOf advances)

theorem numbers_recovering (numbers : Numbers Stmt.ids statement) :
    Numbers (fun found => Stmt.idsEach found.toList) (recovering statement) := by
  intro state found final parsed
  rw [recovering_apply] at parsed
  cases result : statement state with
  | ok stmt middle =>
      rw [result] at parsed
      rcases EStateM.Result.ok.inj parsed with ⟨rfl, rfl⟩
      have fresh := numbers result
      simpa [Stmt.idsEach] using fresh
  | error error middle =>
      rw [result] at parsed
      rcases EStateM.Result.ok.inj parsed with ⟨rfl, rfl⟩
      exact Fresh.nil

theorem numbers_partsOf (budget : Nat) : (partsOf budget).Numbers := by
  induction budget with
  | zero =>
      refine ⟨numbers_expression 1, ?_, ?_⟩
      · rw [partsOf, Parser.statement]
        exact (Collects.fail _).numbers
      · rw [partsOf, declaration]
        exact numbers_recovering (Collects.fail _).numbers
  | succ budget inductionHypothesis =>
      have advances := advancing_partsOf budget
      refine ⟨numbers_expression (budget + 2), ?_, ?_⟩
      · rw [partsOf, statement_succ]
        exact numbers_statementOf advances inductionHypothesis
      · rw [partsOf, declaration_succ]
        exact numbers_recovering (numbers_declarationOf advances inductionHypothesis)

theorem collects_declarations {declaration : Parser (Option Stmt)}
    (advances : Advancing declaration)
    (numbers : Numbers (fun found => Stmt.idsEach found.toList) declaration) (budget : Nat)
    (done : List Stmt) :
    Collects (Stmt.idsEach done) Stmt.idsEach (declarations declaration budget done) := by
  have reversed : ∀ id, (Stmt.idsEach done.reverse).count id ≤ (Stmt.idsEach done).count id :=
    fun id => Nat.le_of_eq (count_idsEach_reverse done id)
  induction budget generalizing done with
  | zero => exact .pure reversed
  | succ budget inductionHypothesis =>
      refine .after advancing_isAtEnd fun _ => .ite (.pure reversed) ?_
      refine .bind advances (numbers.collects advances) fun next => ?_
      have collects := inductionHypothesis (next.toList ++ done) fun id =>
        Nat.le_of_eq (count_idsEach_reverse _ id)
      intro low state value final parsed bounded fresh
      refine collects parsed bounded (fresh.of_count_le fun id => ?_)
      simp only [Stmt.idsEach_append, List.count_append]
      omega

theorem Advancing.run_nextId_le {parser : Parser α} (advances : Advancing parser)
    (nextId : UseId) (tokens : List Token) : nextId ≤ (Parser.read parser nextId tokens).2 := by
  have step := advances ⟨tokens, #[], nextId⟩
  unfold Parser.read
  split
  next value final result =>
    rw [result] at step
    exact step.nextId
  next error final result =>
    rw [result] at step
    exact step.nextId

end Parser

/-- The identities in a parsed program are those that parsing gave out, each at
most once. -/
theorem parseProgram_fresh {nextId finalId : UseId} {tokens : List Token}
    {program : List Stmt} (parsed : parseProgram nextId tokens = (.ok program, finalId)) :
    Fresh nextId finalId (Stmt.idsEach program) := by
  have collects := Parser.collects_declarations (Parser.advancing_declaration tokens.length)
    (Parser.numbers_partsOf tokens.length).declaration tokens.length []
  obtain ⟨final, ended, -, rfl⟩ := Parser.parseProgram_eq_ok parsed
  exact collects.numbers ended

/-- The identities in a parsed expression are those that parsing gave out, each at
most once. -/
theorem parseExpression_fresh {nextId finalId : UseId} {tokens : List Token} {expr : Expr}
    (parsed : parseExpression nextId tokens = (.ok expr, finalId)) :
    Fresh nextId finalId expr.uses := by
  obtain ⟨final, ended, -, rfl⟩ := Parser.parseExpression_eq_ok parsed
  exact Parser.numbers_expression tokens.length ended

/-- Parsing never takes identities back. -/
theorem parseProgram_nextId_le (nextId : UseId) (tokens : List Token) :
    nextId ≤ (parseProgram nextId tokens).2 := by
  rcases Parser.parseProgram_eq_read_or nextId tokens with same | stopped
  · rw [same]
    exact (Parser.advancing_declarations (Parser.advancing_declaration tokens.length)
      tokens.length []).run_nextId_le nextId tokens
  · exact Nat.le_of_eq (congrArg Prod.snd stopped).symm

/-- Parsing an expression never takes identities back. -/
theorem parseExpression_nextId_le (nextId : UseId) (tokens : List Token) :
    nextId ≤ (parseExpression nextId tokens).2 := by
  rcases Parser.parseExpression_eq_read_or nextId tokens with same | stopped
  · rw [same]
    exact (Parser.advancing_expression tokens.length).run_nextId_le nextId tokens
  · exact Nat.le_of_eq (congrArg Prod.snd stopped).symm

end Lox
