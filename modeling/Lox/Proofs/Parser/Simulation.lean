import Lox.Proofs.Parser.ListSource

/-!
# Parsing over any source

The grammar is the same over all sources of tokens.  So what parsing does over a list, it
does over every source whose states show the list and whose single steps do the same; but
a source may lose its way, where the list has an end.
-/

namespace Lox

namespace TokenSource

open Actions

variable {ε σ : Type} [TokenSource ε σ]

/-- Over the source and over the list there are the same values and the same errors, in
states that belong together, unless parsing was lost over the source. -/
inductive Agrees (shows : σ → ParserState → Prop) (lost : ε → Prop) {α : Type} :
    EStateM.Result ε σ α → EStateM.Result SyntaxError ParserState α → Prop where
  | ok {value final listed} : shows final listed →
      Agrees shows lost (.ok value final) (.ok value listed)
  | error {failure error final listed} : TokenSource.syntaxError? σ failure = some error →
      shows final listed → Agrees shows lost (.error failure final) (.error error listed)
  | lost {failure final result} : lost failure → Agrees shows lost (.error failure final) result

/-- Over the source the parser does what it does over the list. -/
def Mirrors (shows : σ → ParserState → Prop) (lost : ε → Prop) {α : Type}
    (parser : EStateM ε σ α) (onList : Parser α) : Prop :=
  ∀ state listed, shows state listed → Agrees shows lost (parser state) (onList listed)

/-- The single steps over the source are those over the list.  Before the end, these are
to look at the next token and to read it. -/
structure Simulates (shows : σ → ParserState → Prop) (lost : ε → Prop) : Prop where
  peek : Mirrors shows lost Parser.peek Parser.peek
  advance : ∀ {state listed}, shows state listed → listed.isAtEnd = false →
    Agrees shows lost (Parser.advance state) (Parser.advance listed)
  freshId : Mirrors shows lost Parser.freshId Parser.freshId
  record : ∀ {state listed} (error : SyntaxError), shows state listed →
    shows (TokenSource.record error state) (listed.record error)
  raise : ∀ error, TokenSource.syntaxError? σ (TokenSource.raise σ error) = some error
  stops : ∀ {failure : ε}, lost failure → TokenSource.syntaxError? σ failure = none

/-- Tokens may be skipped over the source, too.  What was read last at the end is not
known from the list, but does not matter there. -/
structure Recovers (shows : σ → ParserState → Prop) (lost : ε → Prop) : Prop
    extends Simulates shows lost where
  stay : ∀ {state listed}, shows state listed → listed.isAtEnd = true →
    (∃ token final, (Parser.advance : EStateM ε σ Token) state = .ok token final ∧
      shows final listed) ∨
    ∃ failure final, (Parser.advance : EStateM ε σ Token) state = .error failure final ∧
      lost failure
  remaining : ∀ {state listed}, shows state listed →
    listed.rest.length ≤ TokenSource.remaining state

variable {shows : σ → ParserState → Prop} {lost : ε → Prop} {α β : Type}

/-- States that belong together in a closer sense do so in a wider one. -/
theorem Agrees.mono {within : σ → ParserState → Prop} {result : EStateM.Result ε σ α}
    {result' : EStateM.Result SyntaxError ParserState α}
    (widens : ∀ {state listed}, within state listed → shows state listed)
    (agrees : Agrees within lost result result') : Agrees shows lost result result' := by
  cases agrees with
  | ok related => exact .ok (widens related)
  | error isError related => exact .error isError (widens related)
  | lost isLost => exact .lost isLost

namespace Mirrors

variable {first : EStateM ε σ α} {first' : Parser α} {next : α → EStateM ε σ β}
  {next' : α → Parser β}

theorem pure (value : α) : Mirrors shows lost (Pure.pure value) (Pure.pure value) :=
  fun _ _ related => .ok related

/-- What follows is only compared where the first parser ends. -/
theorem bindAt {state : σ} {listed : ParserState}
    (agrees : Agrees shows lost (first state) (first' listed))
    (rest : ∀ value final final', first' listed = .ok value final' → shows final final' →
      Agrees shows lost (next value final) (next' value final')) :
    Agrees shows lost ((first >>= next) state) ((first' >>= next') listed) := by
  rw [bind_apply, bind_apply]
  generalize first state = result at agrees
  generalize ended : first' listed = result' at agrees rest
  cases agrees with
  | ok related => exact rest _ _ _ rfl related
  | error isError related => exact .error isError related
  | lost isLost => exact .lost isLost

theorem bind (mirrors : Mirrors shows lost first first')
    (rest : ∀ value, Mirrors shows lost (next value) (next' value)) :
    Mirrors shows lost (first >>= next) (first' >>= next') :=
  fun state listed related =>
    bindAt (mirrors state listed related) fun value _ _ _ later => rest value _ _ later

theorem map (f : α → β) (mirrors : Mirrors shows lost first first') :
    Mirrors shows lost (f <$> first) (f <$> first') :=
  mirrors.bind fun value => pure (f value)

theorem ite {condition : Prop} [Decidable condition] {second : EStateM ε σ α}
    {second' : Parser α} (firstMirrors : Mirrors shows lost first first')
    (secondMirrors : Mirrors shows lost second second') :
    Mirrors shows lost (if condition then first else second)
      (if condition then first' else second') := by
  split
  · exact firstMirrors
  · exact secondMirrors

end Mirrors

namespace Simulates

open Lox.Parser

variable (simulates : Simulates shows lost)
include simulates

/-! ## Single tokens -/

theorem isAtEnd : Mirrors shows lost isAtEnd isAtEnd :=
  simulates.peek.bind fun _ => .pure _

theorem check (kind : TokenKind) : Mirrors shows lost (check kind) (check kind) :=
  simulates.isAtEnd.bind fun _ => .ite (.pure _) (simulates.peek.bind fun _ => .pure _)

/-- What follows the look at a token may depend on what is seen. -/
theorem look {next : Token → EStateM ε σ α} {next' : Token → Parser α}
    (rest : ∀ state listed, shows state listed →
      Agrees shows lost (next listed.peek state) (next' listed.peek listed)) :
    Mirrors shows lost (Parser.peek >>= next) (Parser.peek >>= next') := by
  intro state listed related
  refine Mirrors.bindAt (simulates.peek _ _ related) fun value final final' seen later => ?_
  cases seen
  exact rest _ _ later

/-- What follows may depend on whether the end has been reached. -/
theorem lookAtEnd {next : Bool → EStateM ε σ α} {next' : Bool → Parser α}
    (rest : ∀ state listed, shows state listed →
      Agrees shows lost (next listed.isAtEnd state) (next' listed.isAtEnd listed)) :
    Mirrors shows lost (Parser.isAtEnd >>= next) (Parser.isAtEnd >>= next') := by
  intro state listed related
  refine Mirrors.bindAt (simulates.isAtEnd _ _ related) fun atEnd final final' seen later => ?_
  rw [isAtEnd_apply] at seen
  cases seen
  exact rest _ _ later

/-- A token that was seen is read. -/
theorem take {next : EStateM ε σ α} {next' : Parser α} {kind : TokenKind} {state : σ}
    {listed : ParserState} (related : shows state listed) (seen : listed.peek.kind = kind)
    (notEnd : kind ≠ .endOfInput) (rest : Mirrors shows lost next next') :
    Agrees shows lost ((Parser.advance >>= fun _ => next) state)
      ((Parser.advance >>= fun _ => next') listed) := by
  have before : listed.isAtEnd = false := by
    rw [ParserState.isAtEnd, seen]
    exact decide_eq_false notEnd
  exact Mirrors.bindAt (simulates.advance related before) fun _ _ _ _ later => rest _ _ later

theorem acceptIf (accepts : TokenKind → Bool) :
    Mirrors shows lost (acceptIf accepts) (acceptIf accepts) := by
  apply simulates.lookAtEnd
  intro state listed related
  cases before : listed.isAtEnd with
  | true => exact .ok related
  | false =>
      refine Mirrors.bindAt (simulates.peek _ _ related) fun token final final' seen later => ?_
      cases seen
      split
      · exact Mirrors.bindAt (simulates.advance later before) fun _ _ _ _ later => .ok later
      · exact .ok later

theorem accept (kind : TokenKind) : Mirrors shows lost (accept kind) (accept kind) :=
  simulates.acceptIf _

theorem skip (kind : TokenKind) : Mirrors shows lost (skip kind) (skip kind) :=
  (simulates.accept kind).bind fun _ => .pure _

theorem fail (fault : SyntaxFault) :
    Mirrors shows lost (fail fault : EStateM ε σ α) (fail fault) :=
  simulates.look fun _ _ related => .error (simulates.raise _) related

theorem reportAt (token : Token) (fault : SyntaxFault) :
    Mirrors shows lost (reportAt token fault) (reportAt token fault) :=
  fun _ _ related => .ok (simulates.record _ related)

theorem report (fault : SyntaxFault) : Mirrors shows lost (report fault) (report fault) :=
  simulates.peek.bind fun _ => simulates.reportAt _ fault

theorem expect (kind : TokenKind) (fault : SyntaxFault) :
    Mirrors shows lost (expect kind fault) (expect kind fault) := by
  apply (simulates.accept kind).bind
  intro found
  cases found with
  | none => exact simulates.fail fault
  | some token => exact .pure token

theorem expectName (fault : SyntaxFault) :
    Mirrors shows lost (expectName fault) (expectName fault) :=
  (simulates.expect .identifier fault).bind fun _ => .pure _

theorem commaSeparated {item : EStateM ε σ α} {item' : Parser α} (fault : SyntaxFault)
    (mirrors : Mirrors shows lost item item') (budget : Nat) (done : List α) :
    Mirrors shows lost (commaSeparated item fault budget done)
      (commaSeparated item' fault budget done) := by
  have unfolded : ∀ {ε σ : Type} [TokenSource ε σ] (item : EStateM ε σ α) (budget : Nat)
      (done : List α),
      Parser.commaSeparated item fault (budget + 1) done =
        ((if maxArity ≤ done.length then Parser.report fault else Pure.pure ()) >>= fun _ =>
          item >>= fun next =>
            Parser.skip (.punct .comma) >>= fun more =>
              if more = true then Parser.commaSeparated item fault budget (next :: done)
              else Pure.pure (next :: done).reverse) := by
    intro ε σ _ item budget done
    rw [Parser.commaSeparated]
    split <;> rfl
  induction budget generalizing done with
  | zero => exact .pure _
  | succ budget inductionHypothesis =>
      rw [unfolded, unfolded]
      apply (Mirrors.ite (simulates.report fault) (.pure ())).bind
      intro _
      apply mirrors.bind
      intro next
      exact (simulates.skip _).bind fun _ => .ite (inductionHypothesis _) (.pure _)

/-! ## Expressions -/

section Expressions

variable {expression : EStateM ε σ Expr} {expression' : Parser Expr}

theorem primary (mirrors : Mirrors shows lost expression expression') :
    Mirrors shows lost (primary expression) (primary expression') := by
  apply simulates.look
  intro state listed related
  generalize seen : listed.peek.kind = kind
  split
  case h_6 =>
    apply simulates.take related seen nofun
    apply (simulates.expect _ _).bind
    intro _
    apply (simulates.expectName _).bind
    intro method
    exact simulates.freshId.bind fun _ => .pure _
  case h_7 => exact simulates.take related seen nofun (simulates.freshId.bind fun _ => .pure _)
  case h_8 => exact simulates.take related seen nofun (simulates.freshId.bind fun _ => .pure _)
  case h_9 =>
    apply simulates.take related seen nofun
    apply mirrors.bind
    intro inner
    exact (simulates.expect _ _).bind fun _ => .pure _
  case h_10 => exact simulates.fail _ _ _ related
  all_goals exact simulates.take related seen nofun (.pure _)

theorem arguments (mirrors : Mirrors shows lost expression expression') (budget : Nat) :
    Mirrors shows lost (arguments expression budget) (arguments expression' budget) :=
  (simulates.check _).bind fun _ =>
    .ite (.pure _) (simulates.commaSeparated _ mirrors budget [])

theorem suffixes (mirrors : Mirrors shows lost expression expression') (budget : Nat)
    (subject : Expr) :
    Mirrors shows lost (suffixes expression budget subject)
      (suffixes expression' budget subject) := by
  induction budget generalizing subject with
  | zero => exact .pure _
  | succ budget inductionHypothesis =>
      apply (simulates.skip _).bind
      intro called
      apply Mirrors.ite
      · apply (simulates.arguments mirrors budget).bind
        intro arguments
        exact (simulates.expect _ _).bind fun _ => inductionHypothesis _
      apply (simulates.skip _).bind
      intro accessed
      apply Mirrors.ite
      · exact (simulates.expectName _).bind fun _ => inductionHypothesis _
      · exact .pure _

theorem call (mirrors : Mirrors shows lost expression expression') (budget : Nat) :
    Mirrors shows lost (call expression budget) (call expression' budget) :=
  (simulates.primary mirrors).bind fun _ => simulates.suffixes mirrors budget _

theorem unary (mirrors : Mirrors shows lost expression expression') (budget depth : Nat) :
    Mirrors shows lost (unary expression budget depth) (unary expression' budget depth) := by
  induction depth with
  | zero => exact simulates.call mirrors budget
  | succ depth inductionHypothesis =>
      apply (simulates.acceptIf _).bind
      intro found
      cases found with
      | none => exact simulates.call mirrors budget
      | some operator => exact inductionHypothesis.bind fun _ => .pure _

theorem operations (level : Level) {operand : EStateM ε σ Expr} {operand' : Parser Expr}
    (mirrors : Mirrors shows lost operand operand') (budget : Nat) (left : Expr) :
    Mirrors shows lost (operations level operand budget left)
      (operations level operand' budget left) := by
  induction budget generalizing left with
  | zero => exact .pure _
  | succ budget inductionHypothesis =>
      apply (simulates.acceptIf _).bind
      intro found
      cases found with
      | none => exact .pure _
      | some operator => exact mirrors.bind fun _ => inductionHypothesis _

theorem infixLevels {operand : EStateM ε σ Expr} {operand' : Parser Expr}
    (mirrors : Mirrors shows lost operand operand') (budget : Nat) (levels : List Level) :
    Mirrors shows lost (infixLevels operand budget levels)
      (infixLevels operand' budget levels) := by
  induction levels with
  | nil => exact mirrors
  | cons level tighter inductionHypothesis =>
      exact inductionHypothesis.bind fun left =>
        simulates.operations level inductionHypothesis budget left

theorem assignTo (target : Expr) (equals : Token) (value : Expr) :
    Mirrors shows lost (assignTo target equals value) (assignTo target equals value) := by
  cases target with
  | var id name => exact simulates.freshId.bind fun _ => .pure _
  | get object name => exact .pure _
  | _ => exact (simulates.reportAt _ _).bind fun _ => .pure _

theorem assignment (mirrors : Mirrors shows lost expression expression') (budget : Nat) :
    Mirrors shows lost (assignment expression budget) (assignment expression' budget) := by
  apply (simulates.infixLevels (simulates.unary mirrors budget budget) budget levels).bind
  intro target
  apply (simulates.accept _).bind
  intro found
  cases found with
  | none => exact .pure _
  | some equals => exact mirrors.bind fun value => simulates.assignTo _ _ _

end Expressions

theorem expression (budget : Nat) :
    Mirrors shows lost (expression budget) (expression budget) := by
  induction budget with
  | zero => exact simulates.fail _
  | succ budget inductionHypothesis => exact simulates.assignment inductionHypothesis budget

/-! ## Statements -/

section Statements

variable {expression : EStateM ε σ Expr} {expression' : Parser Expr}
  {statement : EStateM ε σ Stmt} {statement' : Parser Stmt}

theorem varDeclaration (mirrors : Mirrors shows lost expression expression') :
    Mirrors shows lost (varDeclaration expression) (varDeclaration expression') := by
  apply (simulates.expectName _).bind
  intro name
  apply (simulates.skip _).bind
  intro initialized
  have ending : ∀ initializer : Option Expr, Mirrors shows lost
      (Parser.expect (.punct .semicolon) .expectVariableEnd >>= fun _ =>
        Pure.pure (Stmt.var name initializer))
      (Parser.expect (.punct .semicolon) .expectVariableEnd >>= fun _ =>
        Pure.pure (Stmt.var name initializer)) :=
    fun _ => (simulates.expect _ _).bind fun _ => .pure _
  exact .ite ((mirrors.map some).bind ending) ((Mirrors.pure none).bind ending)

theorem expressionStatement (mirrors : Mirrors shows lost expression expression') :
    Mirrors shows lost (expressionStatement expression) (expressionStatement expression') :=
  mirrors.bind fun _ => (simulates.expect _ _).bind fun _ => .pure _

theorem printStatement (mirrors : Mirrors shows lost expression expression') :
    Mirrors shows lost (printStatement expression) (printStatement expression') :=
  mirrors.bind fun _ => (simulates.expect _ _).bind fun _ => .pure _

theorem unlessNext (kind : TokenKind) (mirrors : Mirrors shows lost expression expression') :
    Mirrors shows lost (unlessNext kind expression) (unlessNext kind expression') :=
  (simulates.check _).bind fun _ => .ite (.pure _) (mirrors.map some)

theorem returnStatement (mirrors : Mirrors shows lost expression expression') (line : Nat) :
    Mirrors shows lost (returnStatement expression line) (returnStatement expression' line) :=
  (simulates.unlessNext _ mirrors).bind fun _ => (simulates.expect _ _).bind fun _ => .pure _

theorem ifStatement (mirrors : Mirrors shows lost expression expression')
    (mirrorsBranch : Mirrors shows lost statement statement') :
    Mirrors shows lost (ifStatement expression statement)
      (ifStatement expression' statement') := by
  apply (simulates.expect _ _).bind
  intro _
  apply mirrors.bind
  intro condition
  apply (simulates.expect _ _).bind
  intro _
  apply mirrorsBranch.bind
  intro thenBranch
  apply (simulates.skip _).bind
  intro more
  have ending : ∀ elseBranch : Option Stmt, Mirrors shows lost
      (Pure.pure (.if_ condition thenBranch elseBranch) : EStateM ε σ Stmt)
      (Pure.pure (.if_ condition thenBranch elseBranch)) :=
    fun _ => .pure _
  exact .ite ((mirrorsBranch.map some).bind ending) ((Mirrors.pure none).bind ending)

theorem whileStatement (mirrors : Mirrors shows lost expression expression')
    (mirrorsBody : Mirrors shows lost statement statement') :
    Mirrors shows lost (whileStatement expression statement)
      (whileStatement expression' statement') := by
  apply (simulates.expect _ _).bind
  intro _
  apply mirrors.bind
  intro condition
  apply (simulates.expect _ _).bind
  intro _
  exact mirrorsBody.bind fun _ => .pure _

theorem forInitializer (mirrors : Mirrors shows lost expression expression') :
    Mirrors shows lost (forInitializer expression) (forInitializer expression') := by
  apply (simulates.skip _).bind
  intro empty
  apply Mirrors.ite (.pure none)
  apply (simulates.skip _).bind
  intro declared
  exact .ite ((simulates.varDeclaration mirrors).map some)
    ((simulates.expressionStatement mirrors).map some)

theorem forStatement (mirrors : Mirrors shows lost expression expression')
    (mirrorsBody : Mirrors shows lost statement statement') :
    Mirrors shows lost (forStatement expression statement)
      (forStatement expression' statement') := by
  apply (simulates.expect _ _).bind
  intro _
  apply (simulates.forInitializer mirrors).bind
  intro first
  apply (simulates.unlessNext _ mirrors).bind
  intro condition
  apply (simulates.expect _ _).bind
  intro _
  apply (simulates.unlessNext _ mirrors).bind
  intro last
  apply (simulates.expect _ _).bind
  intro _
  exact mirrorsBody.bind fun _ => .pure _

theorem parameters (budget : Nat) :
    Mirrors shows lost (parameters budget) (parameters budget) :=
  (simulates.check _).bind fun _ =>
    .ite (.pure _) (simulates.commaSeparated _ (simulates.expectName _) budget [])

theorem superclassClause : Mirrors shows lost superclassClause superclassClause := by
  apply (simulates.skip _).bind
  intro named
  apply Mirrors.ite
  · apply (simulates.expectName _).bind
    intro name
    exact simulates.freshId.bind fun _ => .pure _
  · exact .pure none

end Statements

end Simulates

/-! ## Recovery -/

/-- The parsers for the parts of a statement do the same. -/
structure MirrorsParts (shows : σ → ParserState → Prop) (lost : ε → Prop)
    (parts : Parser.PartsOf ε σ) (parts' : Parser.Parts) : Prop where
  budget : parts.budget = parts'.budget
  expression : Mirrors shows lost parts.expression parts'.expression
  statement : Mirrors shows lost parts.statement parts'.statement
  declaration : Mirrors shows lost parts.declaration parts'.declaration

namespace Recovers

open Lox.Parser

variable (recovers : Recovers shows lost)
include recovers

theorem synchronizeBehind (budget : Nat) (passed : Token) :
    Mirrors shows lost (synchronizeBehind budget passed) (synchronizeBehind budget passed) := by
  induction budget generalizing passed with
  | zero => exact .pure ()
  | succ budget inductionHypothesis =>
      apply recovers.lookAtEnd
      intro state listed related
      cases before : listed.isAtEnd with
      | true => exact .ok related
      | false =>
          rw [if_neg Bool.false_ne_true, if_neg Bool.false_ne_true]
          by_cases closes : passed.kind = .punct .semicolon
          · rw [if_pos closes, if_pos closes]
            exact .ok related
          · rw [if_neg closes, if_neg closes]
            refine Mirrors.bindAt (recovers.peek _ _ related) fun next _ _ seen later => ?_
            rw [peek_apply] at seen
            cases seen
            split
            · exact .ok later
            · exact Mirrors.bindAt (recovers.advance later before) fun passed _ _ _ later =>
                inductionHypothesis passed _ _ later

/-- Behind the bound that the source knows of, nothing is left on the list either. -/
theorem synchronizeRemaining (passed : Token) {state : σ} {listed : ParserState}
    (related : shows state listed) :
    Agrees shows lost (Parser.synchronizeBehind (TokenSource.remaining state) passed state)
      (.ok () { listed with rest := skipBehind passed listed.rest }) := by
  have skipped := recovers.synchronizeBehind (TokenSource.remaining state) passed _ _ related
  rwa [synchronizeBehind_apply passed (recovers.remaining related)] at skipped

theorem synchronize : Mirrors shows lost synchronize synchronize := by
  intro state listed related
  cases before : listed.isAtEnd with
  | true =>
      rw [synchronize_apply, skipStatement_atEnd before, Parser.synchronize]
      rcases recovers.stay related before with
        ⟨token, final, stays, later⟩ | ⟨failure, final, fails, isLost⟩
      · have skipped := recovers.synchronizeRemaining token later
        rw [skipBehind_atEnd token before] at skipped
        rw [bind_of_ok stays]
        exact skipped
      · rw [bind_of_error fails]
        exact .lost isLost
  | false =>
      refine Mirrors.bindAt (recovers.advance related before) fun passed final final' _ later => ?_
      have skipped := recovers.synchronizeRemaining passed later
      rw [← synchronizeBehind_apply passed (Nat.le_refl final'.rest.length)] at skipped
      exact skipped

theorem recovering {statement : EStateM ε σ Stmt} {statement' : Parser Stmt}
    (mirrors : Mirrors shows lost statement statement') :
    Mirrors shows lost (recovering statement) (recovering statement') := by
  intro state listed related
  have agrees := mirrors _ _ related
  rw [Parser.recovering, Parser.recovering]
  generalize statement state = result at agrees
  generalize statement' listed = result' at agrees
  cases agrees with
  | ok related => exact .ok related
  | @error failure error final final' isError related =>
      have recorded := recovers.record error related
      have skipped := recovers.synchronize.bind (fun _ => Mirrors.pure (none : Option Stmt)) _ _
        recorded
      dsimp only
      rw [isError]
      exact skipped
  | lost isLost =>
      dsimp only
      rw [recovers.stops isLost]
      exact .lost isLost

/-! ## Declarations -/

theorem blockBody {declaration : EStateM ε σ (Option Stmt)}
    {declaration' : Parser (Option Stmt)} (mirrors : Mirrors shows lost declaration declaration')
    (budget : Nat) (done : List Stmt) :
    Mirrors shows lost (blockBody declaration budget done)
      (blockBody declaration' budget done) := by
  induction budget generalizing done with
  | zero => exact recovers.fail _
  | succ budget inductionHypothesis =>
      apply (recovers.check _).bind
      intro closes
      apply recovers.isAtEnd.bind
      intro atEnd
      apply Mirrors.ite
      · exact (recovers.expect _ _).bind fun _ => .pure _
      · exact mirrors.bind fun next => inductionHypothesis _

variable {parts : PartsOf ε σ} {parts' : Parts} (mirrors : MirrorsParts shows lost parts parts')
include mirrors

theorem functionDeclaration (role : FunctionRole) :
    Mirrors shows lost (functionDeclaration parts role) (functionDeclaration parts' role) := by
  apply (recovers.expectName _).bind
  intro name
  apply (recovers.expect _ _).bind
  intro _
  rw [mirrors.budget]
  apply (recovers.parameters _).bind
  intro params
  apply (recovers.expect _ _).bind
  intro _
  apply (recovers.expect _ _).bind
  intro _
  exact (recovers.blockBody mirrors.declaration _ _).bind fun _ => .pure _

theorem methods (budget : Nat) (done : List FunctionDecl) :
    Mirrors shows lost (methods parts budget done) (methods parts' budget done) := by
  induction budget generalizing done with
  | zero => exact recovers.fail _
  | succ budget inductionHypothesis =>
      apply (recovers.check _).bind
      intro closes
      apply recovers.isAtEnd.bind
      intro atEnd
      apply Mirrors.ite
      · exact (recovers.expect _ _).bind fun _ => .pure _
      · exact (recovers.functionDeclaration mirrors _).bind fun next => inductionHypothesis _

theorem classDeclaration :
    Mirrors shows lost (classDeclaration parts) (classDeclaration parts') := by
  apply (recovers.expectName _).bind
  intro name
  apply recovers.superclassClause.bind
  intro superclass
  apply (recovers.expect _ _).bind
  intro _
  rw [mirrors.budget]
  exact (recovers.methods mirrors _ _).bind fun _ => .pure _

theorem statementOf : Mirrors shows lost (statementOf parts) (statementOf parts') := by
  apply recovers.look
  intro state listed related
  generalize seen : listed.peek.kind = kind
  split
  · exact recovers.take related seen nofun
      (recovers.forStatement mirrors.expression mirrors.statement)
  · exact recovers.take related seen nofun
      (recovers.ifStatement mirrors.expression mirrors.statement)
  · exact recovers.take related seen nofun
      (recovers.whileStatement mirrors.expression mirrors.statement)
  · exact recovers.take related seen nofun (recovers.returnStatement mirrors.expression _)
  · rw [mirrors.budget]
    exact recovers.take related seen nofun
      ((recovers.blockBody mirrors.declaration _ _).bind fun _ => .pure _)
  · exact recovers.take related seen nofun (recovers.printStatement mirrors.expression)
  · exact recovers.expressionStatement mirrors.expression _ _ related

theorem declarationOf : Mirrors shows lost (declarationOf parts) (declarationOf parts') := by
  apply (recovers.skip _).bind
  intro isClass
  apply Mirrors.ite (recovers.classDeclaration mirrors)
  apply (recovers.skip _).bind
  intro isFunction
  apply Mirrors.ite ((recovers.functionDeclaration mirrors _).bind fun _ => .pure _)
  apply (recovers.skip _).bind
  intro isVar
  exact .ite (recovers.varDeclaration mirrors.expression) (recovers.statementOf mirrors)

omit mirrors

/-- Statements and declarations, with the same budget. -/
theorem statement_declaration (budget : Nat) :
    Mirrors shows lost (statement budget) (statement budget) ∧
      Mirrors shows lost (declaration budget) (declaration budget) := by
  induction budget with
  | zero =>
      constructor
      · rw [statement, statement]
        exact recovers.fail _
      · rw [declaration, declaration]
        exact recovers.recovering (recovers.fail _)
  | succ budget inductionHypothesis =>
      have parts : MirrorsParts shows lost
          ⟨budget + 1, expression (budget + 1), statement budget, declaration budget⟩
          ⟨budget + 1, expression (budget + 1), statement budget, declaration budget⟩ :=
        ⟨rfl, recovers.expression _, inductionHypothesis.1, inductionHypothesis.2⟩
      constructor
      · rw [statement, statement]
        exact recovers.statementOf parts
      · rw [declaration, declaration]
        exact recovers.recovering (recovers.declarationOf parts)

theorem declaration (budget : Nat) :
    Mirrors shows lost (declaration budget) (declaration budget) :=
  (recovers.statement_declaration budget).2

end Recovers

/-! ## Programs -/

/-- A program is read in the same way, if what is needed to skip tokens is given wherever
the end has not been reached. -/
theorem Simulates.declarations {within : σ → ParserState → Prop}
    (simulates : Simulates shows lost) (recovers : Recovers within lost)
    (enter : ∀ {state listed}, shows state listed → listed.isAtEnd = false → within state listed)
    (leave : ∀ {state listed}, within state listed → shows state listed) (limit budget : Nat)
    (done : List Stmt) :
    Mirrors shows lost (Parser.declarations (Parser.declaration limit) budget done)
      (Parser.declarations (Parser.declaration limit) budget done) := by
  induction budget generalizing done with
  | zero => exact .pure _
  | succ budget inductionHypothesis =>
      apply simulates.lookAtEnd
      intro state listed related
      cases before : listed.isAtEnd with
      | true => exact .ok related
      | false =>
          have agrees := recovers.declaration limit _ _ (enter related before)
          exact Mirrors.bindAt (agrees.mono leave) fun next _ _ _ later =>
            inductionHypothesis _ _ _ later

end TokenSource

end Lox
