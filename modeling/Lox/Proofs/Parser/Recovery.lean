import Lox.Proofs.Parser.Acceptance
import Lox.Proofs.Parser.Budget

/-!
# Recovery from a missing semicolon

A simple statement without its semicolon, before a token that starts a
statement, fails at that token.  Recovery skips this token as well before it
looks for a statement boundary, so what follows is read from its second token
on: the error stays alone exactly if what is left then is a program.
-/

namespace Lox

open Actions

namespace Grammar

/-! ## Simple statements -/

/-- The statements that have no statements as parts and end with a semicolon. -/
def isSimple : Stmt → Bool
  | .expression _ => true
  | .print _ => true
  | .var _ _ => true
  | .return_ _ _ => true
  | _ => false

/-- What is missed where the semicolon of a simple statement should stand and a
token follows with which no expression starts. -/
def missingEnd : Stmt → SyntaxFault
  | .print _ => .expectPrintEnd
  | .var _ _ => .expectVariableEnd
  | .return_ _ (some _) => .expectReturnEnd
  | .return_ _ none => .expectExpression
  | _ => .expectExpressionEnd

/-- A simple statement without its semicolon. -/
inductive Unfinished : List Token → Stmt → Prop
  | expression {tokens : List Token} {value : Expr} :
      Derives .assignment tokens value →
      Unfinished tokens (.expression value)
  | print {keyword : Token} {tokens : List Token} {value : Expr} :
      keyword.kind = .keyword .print_ →
      Derives .assignment tokens value →
      Unfinished (keyword :: tokens) (.print value)
  | plain {keyword name : Token} :
      keyword.kind = .keyword .var_ →
      name.kind = .identifier →
      Unfinished [keyword, name] (.var name.toName none)
  | initialized {keyword name equals : Token} {tokens : List Token} {value : Expr} :
      keyword.kind = .keyword .var_ →
      name.kind = .identifier →
      equals.kind = .punct .equal →
      Derives .assignment tokens value →
      Unfinished (keyword :: name :: equals :: tokens) (.var name.toName (some value))
  | bare {keyword : Token} :
      keyword.kind = .keyword .return_ →
      Unfinished [keyword] (.return_ keyword.line none)
  | returned {keyword : Token} {tokens : List Token} {value : Expr} :
      keyword.kind = .keyword .return_ →
      Derives .assignment tokens value →
      Unfinished (keyword :: tokens) (.return_ keyword.line (some value))

theorem not_isSimple_lowerFor (initializer : Option Stmt) (condition increment : Option Expr)
    (body : Stmt) : isSimple (lowerFor initializer condition increment body) = false := by
  cases initializer <;> rfl

variable {nearest : Bool} {tokens : List Token} {stmt : Stmt} {isOpen : Bool}

/-- A simple statement ends with its semicolon. -/
theorem DerivesStmt.exists_unfinished
    (derived : DerivesStmt nearest .declaration tokens stmt isOpen)
    (simple : isSimple stmt = true) :
    ∃ before semicolon, tokens = before ++ [semicolon] ∧
      semicolon.kind = .punct .semicolon ∧ Unfinished before stmt := by
  cases derived with
  | classDeclaration => cases simple
  | functionDeclaration _ derived =>
      obtain ⟨-, declaration, rfl⟩ := derived.function_inv
      cases simple
  | varDeclaration declared =>
      cases declared with
      | plain keywordKind nameKind semicolonKind =>
          exact ⟨[_, _], _, rfl, semicolonKind, .plain keywordKind nameKind⟩
      | initialized keywordKind nameKind equalsKind derived semicolonKind =>
          exact ⟨_ :: _ :: _ :: _, _, rfl, semicolonKind,
            .initialized keywordKind nameKind equalsKind derived⟩
  | noDeclaration derived =>
      cases derived with
      | expression stated =>
          obtain ⟨derived, semicolonKind⟩ := stated
          exact ⟨_, _, rfl, semicolonKind, .expression derived⟩
      | print keywordKind derived semicolonKind =>
          exact ⟨_ :: _, _, rfl, semicolonKind, .print keywordKind derived⟩
      | return_ keywordKind derived semicolonKind =>
          cases derived with
          | absent => exact ⟨[_], _, rfl, semicolonKind, .bare keywordKind⟩
          | present derived =>
              exact ⟨_ :: _, _, rfl, semicolonKind, .returned keywordKind derived⟩
      | forLoop =>
          rw [not_isSimple_lowerFor] at simple
          cases simple
      | _ => cases simple

theorem DerivesStmt.unfinished {semicolon : Token}
    (derived : DerivesStmt nearest .declaration (tokens ++ [semicolon]) stmt isOpen)
    (simple : isSimple stmt = true) : Unfinished tokens stmt := by
  obtain ⟨before, last, split, -, unfinished⟩ := derived.exists_unfinished simple
  obtain ⟨rfl, -⟩ := List.append_inj' split rfl
  exact unfinished

/-! ## Tokens inside a simple statement -/

/-- Recovery goes on behind a token of this kind if it stands before it. -/
def isInner (kind : TokenKind) : Bool :=
  kind ≠ .endOfInput && kind ≠ .punct .semicolon && !Parser.startsStatement kind

/-- The tokens have no statement boundary among them. -/
def Unbroken (tokens : List Token) : Prop :=
  ∀ token ∈ tokens, isInner token.kind = true

@[simp]
theorem unbroken_nil : Unbroken [] :=
  nofun

@[simp]
theorem unbroken_cons {token : Token} :
    Unbroken (token :: tokens) ↔ isInner token.kind = true ∧ Unbroken tokens := by
  simp [Unbroken]

@[simp]
theorem unbroken_append {after : List Token} :
    Unbroken (tokens ++ after) ↔ Unbroken tokens ∧ Unbroken after := by
  simp [Unbroken, or_imp, forall_and]

theorem Separated.unbroken {parts : List (List Token)} {whole : List Token}
    (separated : Separated parts whole) (inner : ∀ tokens ∈ parts, Unbroken tokens) :
    Unbroken whole := by
  induction separated with
  | empty => exact unbroken_nil
  | single tokens => exact inner tokens List.mem_cons_self
  | more commaKind _ inductionHypothesis =>
      have laterInner := inductionHypothesis fun tokens member =>
        inner tokens (List.mem_cons_of_mem _ member)
      have commaInner : isInner (.punct .comma) = true := by decide
      simp [commaKind, commaInner, laterInner, inner]

theorem isInner_operator {tier : Tier} {kind : TokenKind} (member : kind ∈ tier.operators) :
    isInner kind = true := by
  cases tier <;> simp only [Tier.operators, List.mem_cons, List.not_mem_nil, or_false] at member
  all_goals
    rcases member with rfl | rfl | rfl | rfl
    all_goals decide

/-- No statement starts or ends inside an expression. -/
theorem Derives.unbroken {phrase : Phrase} {tokens : List Token} {expr : Expr}
    (derived : Derives phrase tokens expr) : Unbroken tokens := by
  induction derived with
  | operation _ operatorKind _ leftInner rightInner =>
      simp [leftInner, rightInner, isInner_operator operatorKind]
  | unaryOperation operatorKind _ operandInner =>
      rcases operatorKind with kind | kind
      all_goals simp [kind, operandInner, isInner, Parser.startsStatement]
  | invocation _ openingKind _ _ separated closingKind calleeInner argumentsInner =>
      have joinedInner := separated.unbroken (by simpa using argumentsInner)
      simp [calleeInner, openingKind, joinedInner, closingKind, isInner, Parser.startsStatement]
  | _ => simp_all [isInner, Parser.startsStatement]

/-- Behind its first token, a simple statement has no boundary before its
semicolon. -/
theorem Unfinished.exists_cons (unfinished : Unfinished tokens stmt) :
    ∃ first inner, tokens = first :: inner ∧ opensDeclaration first.kind = true ∧
      Unbroken inner := by
  cases unfinished with
  | expression derived =>
      obtain ⟨first, later, rfl, starts, -⟩ := derived.head
      exact ⟨first, later, rfl,
        opensDeclaration_of_opensStatement (opensStatement_of_startsExpression starts),
        (unbroken_cons.mp derived.unbroken).2⟩
  | print kind derived => exact ⟨_, _, rfl, by rw [kind]; rfl, derived.unbroken⟩
  | plain kind nameKind =>
      exact ⟨_, _, rfl, by rw [kind]; rfl, by simp [nameKind, isInner, Parser.startsStatement]⟩
  | initialized kind nameKind equalsKind derived =>
      exact ⟨_, _, rfl, by rw [kind]; rfl, by
        simp [nameKind, equalsKind, derived.unbroken, isInner, Parser.startsStatement]⟩
  | bare kind => exact ⟨_, _, rfl, by rw [kind]; rfl, unbroken_nil⟩
  | returned kind derived => exact ⟨_, _, rfl, by rw [kind]; rfl, derived.unbroken⟩

theorem Unfinished.opens (unfinished : Unfinished tokens stmt) : Opens .declaration tokens := by
  obtain ⟨first, inner, rfl, opens, -⟩ := unfinished.exists_cons
  exact opens_declaration opens

end Grammar

namespace Parser

open Grammar

/-! ## Failing behind the tokens that could be read -/

/-- Before `next :: rest`, the parser takes exactly the given tokens and then fails at `next`,
with no error recorded before. -/
def FailsBehind {α : Type} (parser : Parser α) (tokens : List Token) (fault : SyntaxFault)
    (next : Token) (rest : List Token) : Prop :=
  ∀ errors nextId, ∃ finalId,
    parser ⟨tokens ++ next :: rest, errors, nextId⟩ =
      .error ⟨next, fault⟩ ⟨next :: rest, errors, finalId⟩

section Fails

variable {α β γ : Type} {shape : α → γ} {tokens rest : List Token} {fault : SyntaxFault}
  {next : Token}

theorem FailsBehind.first {first : Parser α} (later : α → Parser β)
    (fails : FailsBehind first tokens fault next rest) :
    FailsBehind (first >>= later) tokens fault next rest := by
  intro errors nextId
  obtain ⟨finalId, failed⟩ := fails errors nextId
  exact ⟨finalId, bind_of_error failed⟩

theorem FailsBehind.after {first : Parser α} {later : α → Parser β} {before : List Token}
    {value : α} (reads : Reads shape first before value (tokens ++ next :: rest))
    (fails : ∀ result, FailsBehind (later result) tokens fault next rest) :
    FailsBehind (first >>= later) (before ++ tokens) fault next rest := by
  intro errors nextId
  obtain ⟨result, middleId, parsed, -⟩ := reads errors nextId
  obtain ⟨finalId, failed⟩ := fails result errors middleId
  refine ⟨finalId, ?_⟩
  rw [List.append_assoc, bind_of_ok parsed, failed]

/-- A parser that takes one token, before one that fails. -/
theorem FailsBehind.cons {first : Parser α} {later : α → Parser β} {token : Token} {value : α}
    (taken : ∀ following errors nextId,
      first ⟨token :: following, errors, nextId⟩ = .ok value ⟨following, errors, nextId⟩)
    (fails : FailsBehind (later value) tokens fault next rest) :
    FailsBehind (first >>= later) (token :: tokens) fault next rest := by
  intro errors nextId
  rw [List.cons_append, bind_of_ok (taken _ errors nextId)]
  exact fails errors nextId

/-- A parser that only looks, before one that fails. -/
theorem FailsBehind.look {first : Parser α} {later : α → Parser β} {value : α}
    (looked : ∀ errors nextId, first ⟨tokens ++ next :: rest, errors, nextId⟩ =
      .ok value ⟨tokens ++ next :: rest, errors, nextId⟩)
    (fails : FailsBehind (later value) tokens fault next rest) :
    FailsBehind (first >>= later) tokens fault next rest := by
  intro errors nextId
  rw [bind_of_ok (looked errors nextId)]
  exact fails errors nextId

theorem fails_expect {kind : TokenKind} (different : next.kind ≠ kind) :
    FailsBehind (expect kind fault) [] fault next rest := by
  intro errors nextId
  have refused : accept kind ⟨next :: rest, errors, nextId⟩ =
      .ok none ⟨next :: rest, errors, nextId⟩ :=
    accept_of_ne different
  refine ⟨nextId, ?_⟩
  rw [List.nil_append, expect, bind_of_ok refused]
  rfl

theorem fails_primary {expression : Parser Expr} (startsNone : startsExpression next.kind = false) :
    FailsBehind (primary expression) [] .expectExpression next rest := by
  rw [primary]
  refine .look (fun _ _ => peek_mk_cons) ?_
  have startsNoCall : startsCall next.kind = false := by
    simp only [startsExpression, Bool.or_eq_false_iff] at startsNone
    exact startsNone.2
  split
  case h_10 => exact fun errors nextId => ⟨nextId, rfl⟩
  all_goals
    rename_i kind
    rw [kind] at startsNoCall
    cases startsNoCall

theorem fails_unary {expression : Parser Expr} {budget depth : Nat}
    (startsNone : startsExpression next.kind = false) :
    FailsBehind (unary expression budget depth) [] .expectExpression next rest := by
  have fails : FailsBehind (call expression budget) [] .expectExpression next rest :=
    .first _ (fails_primary startsNone)
  cases depth with
  | zero => exact fails
  | succ depth =>
      rw [unary]
      have refused : isUnaryOperator next.kind = false := by
        simp only [startsExpression, Bool.or_eq_false_iff] at startsNone
        simp only [isUnaryOperator, Bool.or_eq_false_iff]
        exact startsNone.1
      exact .look (fun _ _ => acceptIf_of_refused fun _ => refused) fails

theorem fails_infixLevels {operand : Parser Expr} {budget : Nat}
    (fails : FailsBehind operand [] fault next rest) (levels : List Level) :
    FailsBehind (infixLevels operand budget levels) [] fault next rest := by
  induction levels with
  | nil => exact fails
  | cons level tighter inductionHypothesis => exact .first _ inductionHypothesis

/-- No expression is read where none starts. -/
theorem fails_expression {budget : Nat} (startsNone : startsExpression next.kind = false) :
    FailsBehind (expression budget) [] .expectExpression next rest := by
  cases budget with
  | zero => exact fun errors nextId => ⟨nextId, rfl⟩
  | succ budget =>
      rw [expression, assignment]
      exact .first _ (fails_infixLevels (fails_unary startsNone) levels)

end Fails

/-! ## Unfinished statements fail at the token behind them -/

section Unfinished

variable {next : Token} {rest : List Token} {budget : Nat}

/-- No token that starts a statement goes on with an expression. -/
theorem stops_of_startsStatement (starts : startsStatement next.kind = true) :
    Stops .assignment (next :: rest) := by
  rw [stops_cons]
  unfold startsStatement at starts
  split at starts
  case h_9 => cases starts
  all_goals
    rename_i kind
    rw [kind]
    rfl

theorem startsExpression_of_startsStatement {kind : TokenKind}
    (starts : startsStatement kind = true) : startsExpression kind = false := by
  unfold startsStatement at starts
  split at starts
  case h_9 => cases starts
  all_goals rfl

theorem not_punct_of_startsStatement {kind : TokenKind} (starts : startsStatement kind = true)
    (punct : Punct) : kind ≠ .punct punct := by
  rintro rfl
  cases starts

/-- An expression and what is expected behind it, before a token that starts a statement. -/
theorem fails_behind_expression {α β γ : Type} {shape : α → γ} {first : Parser α}
    {later : α → Token → Parser β} {tokens : List Token} {value : α} {fault : SyntaxFault}
    (starts : startsStatement next.kind = true)
    (reads : Reads shape first tokens value (next :: rest)) :
    FailsBehind (first >>= fun result => expect (.punct .semicolon) fault >>= later result) tokens
      fault next rest := by
  rw [← List.append_nil tokens]
  exact .after reads fun result =>
    .first _ (fails_expect (not_punct_of_startsStatement starts .semicolon))

/-- A statement that declares nothing is tried behind the declarations. -/
theorem fails_noDeclaration {parts : Parts} {first : Token} {tokens : List Token}
    {fault : SyntaxFault} (opens : opensStatement first.kind = true)
    (fails : FailsBehind (statementOf parts) (first :: tokens) fault next rest) :
    FailsBehind (declarationOf parts) (first :: tokens) fault next rest := by
  have differs : ∀ kind, opensStatement kind = false → first.kind ≠ kind := by
    rintro kind opensNone rfl
    rw [opensNone] at opens
    cases opens
  rw [declarationOf]
  refine .look (fun _ _ => skip_of_ne (differs _ (by decide))) ?_
  refine .look (fun _ _ => skip_of_ne (differs _ (by decide))) ?_
  exact .look (fun _ _ => skip_of_ne (differs _ (by decide))) fails

theorem fails_varDeclaration {parts : Parts} {keyword : Token} {tokens : List Token}
    {fault : SyntaxFault} (keywordKind : keyword.kind = .keyword .var_)
    (fails : FailsBehind (varDeclaration parts.expression) tokens fault next rest) :
    FailsBehind (declarationOf parts) (keyword :: tokens) fault next rest := by
  rw [declarationOf]
  refine .look (fun _ _ => skip_of_ne ?_) ?_
  · rw [List.cons_append, ParserState.peek_cons, keywordKind]
    decide
  refine .look (fun _ _ => skip_of_ne ?_) ?_
  · rw [List.cons_append, ParserState.peek_cons, keywordKind]
    decide
  exact .cons (fun _ _ _ => skip_mk_cons keywordKind (by decide)) fails

theorem fails_returnStatement {parts : Parts} {keyword : Token} {tokens : List Token}
    {fault : SyntaxFault} (keywordKind : keyword.kind = .keyword .return_)
    (fails : FailsBehind (returnStatement parts.expression keyword.line) tokens fault next rest) :
    FailsBehind (declarationOf parts) (keyword :: tokens) fault next rest := by
  refine fails_noDeclaration (by rw [keywordKind]; rfl) ?_
  rw [statementOf]
  refine .look (fun _ _ => peek_mk_cons) ?_
  rw [keywordKind]
  exact .cons (fun _ _ _ => advance_mk_cons (by rw [keywordKind]; decide)) fails

/-- An unfinished statement fails at a token that starts a statement. -/
theorem fails_unfinished {tokens : List Token} {stmt : Stmt} (unfinished : Unfinished tokens stmt)
    (starts : startsStatement next.kind = true) (enough : tokens.length ≤ budget + 1) :
    FailsBehind (declarationOf (partsOf budget)) tokens (missingEnd stmt) next rest := by
  have stops : Stops .assignment (next :: rest) := stops_of_startsStatement starts
  have noSemicolon := not_punct_of_startsStatement starts .semicolon
  cases unfinished with
  | expression derived =>
      obtain ⟨first, later, rfl, startsFirst, -⟩ := derived.head
      refine fails_noDeclaration (opensStatement_of_startsExpression startsFirst) ?_
      rw [statementOf]
      refine .look (fun _ _ => peek_mk_cons) ?_
      split
      case h_7 =>
        exact fails_behind_expression starts (expression_complete derived enough stops)
      all_goals
        rename_i kind
        rw [kind] at startsFirst
        cases startsFirst
  | print keywordKind derived =>
      rw [List.length_cons] at enough
      refine fails_noDeclaration (by rw [keywordKind]; rfl) ?_
      rw [statementOf]
      refine .look (fun _ _ => peek_mk_cons) ?_
      rw [keywordKind]
      refine .cons (fun _ _ _ => advance_mk_cons (by rw [keywordKind]; decide)) ?_
      exact fails_behind_expression starts (expression_complete derived (by omega) stops)
  | plain keywordKind nameKind =>
      refine fails_varDeclaration keywordKind (.cons (fun _ _ _ => expectName_mk_cons nameKind) ?_)
      refine .look (fun _ _ => skip_of_ne (not_punct_of_startsStatement starts .equal)) ?_
      exact .look (fun _ _ => rfl) (.first _ (fails_expect noSemicolon))
  | initialized keywordKind nameKind equalsKind derived =>
      simp only [List.length_cons] at enough
      refine fails_varDeclaration keywordKind (.cons (fun _ _ _ => expectName_mk_cons nameKind) ?_)
      refine .cons (fun _ _ _ => skip_mk_cons equalsKind (by decide)) ?_
      exact fails_behind_expression starts (present_complete derived (by omega) stops)
  | bare keywordKind =>
      have looked : ∀ errors nextId,
          check (.punct .semicolon) ⟨[] ++ next :: rest, errors, nextId⟩ =
            .ok false ⟨[] ++ next :: rest, errors, nextId⟩ := by
        intro errors nextId
        rw [List.nil_append, check_mk_cons (by decide), decide_eq_false noSemicolon]
      refine fails_returnStatement keywordKind (.first _ (.look looked ?_))
      exact .first _ (fails_expression (startsExpression_of_startsStatement starts))
  | returned keywordKind derived =>
      rw [List.length_cons] at enough
      have reads : Reads (Option.map Expr.shape)
          (unlessNext (.punct .semicolon) (expression (budget + 1))) _ _ (next :: rest) :=
        .check_lacks (lacks_of_derives derived (by decide) _) (by decide)
          (present_complete derived (by omega) stops)
      exact fails_returnStatement keywordKind (fails_behind_expression starts reads)

end Unfinished

/-! ## Skipping -/

/-- A simple statement is skipped up to its semicolon. -/
theorem skipStatement_unbroken {first semicolon : Token} {tokens : List Token}
    (inside : first.kind ≠ .endOfInput) (ongoing : first.kind ≠ .punct .semicolon)
    (unbroken : Unbroken tokens) (semicolonKind : semicolon.kind = .punct .semicolon)
    (rest : List Token) :
    skipStatement (first :: (tokens ++ semicolon :: rest)) = rest := by
  induction tokens generalizing first with
  | nil => simp [skipStatement, inside, ongoing, semicolonKind, startsStatement]
  | cons token tokens inductionHypothesis =>
      obtain ⟨inner, unbroken⟩ := unbroken_cons.mp unbroken
      simp only [isInner, Bool.and_eq_true, decide_eq_true_eq, Bool.not_eq_true'] at inner
      obtain ⟨⟨tokenInside, tokenOngoing⟩, startsNone⟩ := inner
      rw [skipStatement, if_neg inside, if_neg ongoing, List.cons_append, List.head?_cons,
        Option.any_some, startsNone, if_neg (by decide)]
      exact inductionHypothesis tokenInside tokenOngoing unbroken

/-- The end of input is not skipped. -/
theorem skipStatement_append_end {tokens : List Token} {last : Token} (inside : Inside tokens)
    (lastKind : last.kind = .endOfInput) :
    skipStatement (tokens ++ [last]) = skipStatement tokens ++ [last] := by
  have lastStartsNone : startsStatement last.kind = false := by
    rw [lastKind]
    rfl
  induction tokens with
  | nil => simp [skipStatement, lastKind]
  | cons token tokens inductionHypothesis =>
      obtain ⟨tokenInside, tokensInside⟩ := inside_cons.mp inside
      have sameHead : (tokens ++ [last]).head?.any (fun next => startsStatement next.kind) =
          tokens.head?.any fun next => startsStatement next.kind := by
        cases tokens with
        | nil => simp [lastStartsNone]
        | cons => rfl
      rw [List.cons_append, skipStatement, skipStatement, if_neg tokenInside, if_neg tokenInside,
        sameHead, inductionHypothesis tokensInside]
      split
      · rfl
      · split <;> rfl

/-! ## Programs with an unfinished statement -/

section Programs

variable {declaration : Parser (Option Stmt)} {budget : Nat} {errors : Array SyntaxError}
  {nextId : UseId} {rest : List Token}

theorem isAtEnd_of_opens {clause : Clause} {tokens : List Token} (opens : Opens clause tokens) :
    (ParserState.mk (tokens ++ rest) errors nextId).isAtEnd = false := by
  have notAtEnd : Lacks .endOfInput (tokens ++ rest) := lacks_of_opens opens (by decide) rest
  obtain ⟨token, others, rfl, -⟩ := opens
  exact decide_eq_false (notAtEnd token rfl)

theorem declarations_step {found : Option Stmt} {state middle : ParserState}
    (before : state.isAtEnd = false) (read : declaration state = .ok found middle)
    (done : List Stmt) :
    declarations declaration (budget + 1) done state =
      declarations declaration budget (found.toList ++ done) middle := by
  have looked : isAtEnd state = .ok false state := by
    rw [← before]
    rfl
  rw [declarations, bind_of_ok looked, if_neg (by decide), bind_of_ok read]

/-- A program is read without an error up to what follows it. -/
theorem declarations_through {body : List Sentence}
    (bodyReads : ∀ part ∈ body, ReadsPart declaration part) (noElse : NoElse rest)
    (budget : Nat) (done : List Stmt) (nextId : UseId) :
    ∃ stmts finalId,
      declarations declaration (budget + body.length) done
          ⟨body.flatMap Sentence.tokens ++ rest, errors, nextId⟩ =
        declarations declaration budget stmts ⟨rest, errors, finalId⟩ := by
  induction body generalizing done nextId with
  | nil => exact ⟨done, nextId, rfl⟩
  | cons first later inductionHypothesis =>
      obtain ⟨opens, firstReads⟩ := bodyReads first List.mem_cons_self
      have laterReads : ∀ part ∈ later, ReadsPart declaration part :=
        fun part member => bodyReads part (List.mem_cons_of_mem _ member)
      obtain ⟨found, middleId, parsed, -⟩ := firstReads _
        (fun _ => noElse_of_parts laterReads noElse) errors nextId
      obtain ⟨stmts, finalId, remaining⟩ :=
        inductionHypothesis laterReads (found.toList ++ done) middleId
      refine ⟨stmts, finalId, ?_⟩
      rw [List.flatMap_cons, List.append_assoc, List.length_cons, ← Nat.add_assoc,
        declarations_step (isAtEnd_of_opens opens) parsed, remaining]

/-- Behind a program, an unfinished statement is recorded as an error at the token that starts
the next statement, and reading goes on behind what recovery skips. -/
theorem declarations_unfinished {body : List Sentence} {broken : List Token} {stmt : Stmt}
    {next : Token} (bodyReads : ∀ part ∈ body, ReadsPart (Parser.declaration (budget + 1)) part)
    (unfinished : Unfinished broken stmt) (starts : startsStatement next.kind = true)
    (enough : broken.length ≤ budget + 1) {total remaining : Nat}
    (budgets : total = remaining + 1 + body.length) (rest : List Token) (nextId : UseId) :
    ∃ stmts finalId,
      declarations (Parser.declaration (budget + 1)) total []
          ⟨body.flatMap Sentence.tokens ++ (broken ++ next :: rest), #[], nextId⟩ =
        declarations (Parser.declaration (budget + 1)) remaining stmts
          ⟨skipStatement (next :: rest), #[⟨next, missingEnd stmt⟩], finalId⟩ := by
  have noElse : NoElse (broken ++ next :: rest) := lacks_of_opens unfinished.opens (by decide) _
  obtain ⟨stmts, middleId, through⟩ :=
    declarations_through bodyReads noElse (remaining + 1) [] nextId
  obtain ⟨finalId, failed⟩ := fails_unfinished unfinished starts enough #[] middleId
  have recovered : Parser.declaration (budget + 1) ⟨broken ++ next :: rest, #[], middleId⟩ =
      .ok none ⟨skipStatement (next :: rest), #[⟨next, missingEnd stmt⟩], finalId⟩ := by
    rw [declaration_succ, recovering_apply, failed]
    rfl
  refine ⟨stmts, finalId, ?_⟩
  rw [budgets, through, declarations_step (isAtEnd_of_opens unfinished.opens) recovered]
  rfl

theorem read_of_errors {α : Type} {parser : Parser α} {tokens : List Token} {value : α}
    {final : ParserState} {error : SyntaxError} {later : List SyntaxError}
    (ended : parser ⟨tokens, #[], nextId⟩ = .ok value final)
    (recorded : final.errors.toList = error :: later) :
    read parser nextId tokens = (.error (error :: later), final.nextId) := by
  have notEmpty : ¬final.errors.isEmpty = true := by
    intro empty
    rw [Array.isEmpty_iff.mp empty] at recorded
    cases recorded
  rw [read, ended, ← recorded]
  exact congrArg (·, final.nextId) (if_neg notEmpty)

theorem readsParts_of_derives {body : List Sentence}
    (derived : ∀ part ∈ body, DerivesStmt true .declaration part.tokens part.tree part.isOpen)
    (enough : (body.flatMap Sentence.tokens).length ≤ budget) :
    ∀ part ∈ body, ReadsPart (Parser.declaration budget) part := by
  intro part member
  have shorter : part.tokens.length ≤ (body.flatMap Sentence.tokens).length :=
    length_le_of_mem_flatMap member
  exact (reads_of_derivesStmt (derived part member)).part (derived part member).head
    (Nat.le_trans shorter enough)

/-- What is left up to the end of input is read, and no error is added exactly if it is a
program. -/
theorem declarations_clean_iff {tokens : List Token} {last : Token} (inside : Inside tokens)
    (lastKind : last.kind = .endOfInput) (enough : tokens.length < budget) {remaining : Nat}
    (enoughRemaining : tokens.length < remaining) (larger : remaining ≤ budget) (done : List Stmt)
    (errors : Array SyntaxError) (nextId : UseId) :
    ∃ stmts final,
      declarations (Parser.declaration budget) remaining done ⟨tokens ++ [last], errors, nextId⟩ =
        .ok stmts final ∧
      errors.toList <+: final.errors.toList ∧
      (final.errors = errors ↔ ∃ tree, DerivesProgram true tokens tree) := by
  have lengths : (tokens ++ [last]).length = tokens.length + 1 := List.length_append
  have ended : ParserState.Ended ⟨tokens ++ [last], errors, nextId⟩ :=
    ⟨last, List.getLast?_concat, lastKind⟩
  have orderly : OrderlyBefore remaining (Parser.declaration budget)
      (Parser.declaration budget) :=
    orderly_declaration larger (Nat.le_refl _)
  obtain ⟨stmts, final, read, -⟩ := declarations_ok orderly (declaration_ok budget)
    (Nat.le_refl remaining) done ended (by simp only [lengths]; omega)
  have advances := advancing_declarations (advancing_declaration budget) remaining done
    ⟨tokens ++ [last], errors, nextId⟩
  rw [read] at advances
  refine ⟨stmts, final, read, advances.errors, ?_, ?_⟩
  · intro clean
    obtain ⟨before, restEquality, body, -, derived, rfl, atEnd⟩ :=
      declarations_sound (advancing_declaration budget) (declaration_sound budget) remaining larger
        done (by simp only [lengths]; omega) read clean
    have program : DerivesProgram true (body.flatMap Sentence.tokens) (body.map Sentence.tree) :=
      .mk derived
    rw [eq_of_append_atEnd inside program.inside lastKind atEnd restEquality]
    exact ⟨_, program⟩
  · rintro ⟨tree, ⟨derived⟩⟩
    rename_i body
    have bodyReads := readsParts_of_derives derived (Nat.le_of_lt enough)
    have fewer := length_le_flatMap bodyReads
    have atEnd : AtEnd [last] := by
      rintro token ⟨⟩
      exact lastKind
    obtain ⟨parsed, finalId, parsedAs, -⟩ := declarations_complete bodyReads atEnd
      (Nat.le_trans fewer (Nat.le_of_lt enoughRemaining)) done errors nextId
    rw [read] at parsedAs
    obtain ⟨-, rfl⟩ := EStateM.Result.ok.inj parsedAs
    rfl

end Programs

end Parser

open Grammar Lox.Parser

/-- A program whose first statement is simple is skipped up to its second statement. -/
theorem skipStatement_simple {nearest : Bool} {tokens : List Token} {stmt : Stmt}
    {stmts : List Stmt} (derived : DerivesProgram nearest tokens (stmt :: stmts))
    (simple : isSimple stmt = true) :
    DerivesProgram nearest (skipStatement tokens) stmts := by
  generalize tree : stmt :: stmts = program at derived
  obtain ⟨derived⟩ := derived
  rename_i body
  cases body with
  | nil => cases tree
  | cons first later =>
      obtain ⟨rfl, rfl⟩ := List.cons.inj tree
      obtain ⟨before, semicolon, tokensEquality, semicolonKind, unfinished⟩ :=
        (derived first List.mem_cons_self).exists_unfinished simple
      obtain ⟨token, inner, rfl, opens, unbroken⟩ := unfinished.exists_cons
      have differs : ∀ kind, opensDeclaration kind = false → token.kind ≠ kind := by
        rintro kind opensNone rfl
        rw [opensNone] at opens
        cases opens
      have skipped := skipStatement_unbroken (differs _ (by decide)) (differs _ (by decide))
        unbroken semicolonKind (later.flatMap Sentence.tokens)
      rw [List.flatMap_cons, tokensEquality, List.append_assoc, List.cons_append,
        List.singleton_append, skipped]
      exact .mk fun part member => derived part (List.mem_cons_of_mem _ member)

/-- What is skipped of the tokens of a program. -/
theorem skipStatement_inside {tokens : List Token} (inside : Inside tokens) :
    Inside (skipStatement tokens) :=
  fun token member => inside token ((skipStatement_suffix tokens).subset member)

/-- A simple statement without its semicolon, between a program and a program that starts with a
statement keyword, is reported at that keyword, with what is missed there.  No other error
follows exactly if what recovery leaves of the second program is a program; it is one if the
second program starts with a simple statement. -/
theorem unfinished_statement_reported (nextId : UseId) (before broken others : List Token)
    (semicolon first last : Token) (program following : List Stmt) (stmt : Stmt) (isOpen : Bool)
    (beforeDerived : DerivesProgram false before program)
    (brokenDerived : DerivesStmt false .declaration (broken ++ [semicolon]) stmt isOpen)
    (simple : isSimple stmt = true)
    (followingDerived : DerivesProgram false (first :: others) following)
    (starts : startsStatement first.kind = true) (lastKind : last.kind = .endOfInput) :
    ∃ later finalId,
      parseProgram nextId (before ++ (broken ++ (first :: others ++ [last]))) =
        (.error (⟨first, missingEnd stmt⟩ :: later), finalId) ∧
      (later = [] ↔ ∃ tree, DerivesProgram false (skipStatement (first :: others)) tree) ∧
      ((∃ head tail, following = head :: tail ∧ isSimple head = true) → later = []) := by
  obtain ⟨tree, derived⟩ := exists_derivesProgram_iff.mp ⟨_, beforeDerived⟩
  obtain ⟨derived⟩ := derived
  rename_i body
  have unfinished := brokenDerived.unfinished simple
  have inside := followingDerived.inside
  obtain ⟨size, sized⟩ : ∃ size,
      (body.flatMap Sentence.tokens ++ (broken ++ (first :: others ++ [last]))).length = size + 1 :=
    ⟨_, by simp only [List.length_append, List.length_cons, ← Nat.add_assoc]; rfl⟩
  have lengths := sized
  simp only [List.length_append, List.length_cons, List.length_nil] at lengths
  have bodyEnough : (body.flatMap Sentence.tokens).length ≤ size + 1 := by omega
  have bodyReads := readsParts_of_derives derived bodyEnough
  have fewer := length_le_flatMap bodyReads
  have brokenLength : 0 < broken.length := by
    obtain ⟨token, inner, rfl, -⟩ := unfinished.exists_cons
    exact Nat.succ_pos _
  obtain ⟨remaining, budgets⟩ : ∃ remaining, size + 1 = remaining + 1 + body.length :=
    ⟨size - body.length, by omega⟩
  have skippedLength := length_skipStatement_le (first :: others)
  rw [List.length_cons] at skippedLength
  have enough : (skipStatement (first :: others)).length < size + 1 := by omega
  have enoughRemaining : (skipStatement (first :: others)).length < remaining := by omega
  -- The first program is read, the unfinished statement recorded, and the rest is left.
  obtain ⟨done, middleId, reached⟩ := declarations_unfinished bodyReads unfinished starts
    (by omega) budgets (others ++ [last]) nextId
  have skipped : skipStatement (first :: (others ++ [last])) =
      skipStatement (first :: others) ++ [last] :=
    skipStatement_append_end inside lastKind
  obtain ⟨stmts, final, read, ⟨later, recorded⟩, clean⟩ :=
    declarations_clean_iff (skipStatement_inside inside) lastKind enough enoughRemaining (by omega)
      done #[⟨first, missingEnd stmt⟩] middleId
  have parsed := read_of_errors (reached.trans (skipped ▸ read)) recorded.symm
  have alone : later = [] ↔
      ∃ tree, DerivesProgram false (skipStatement (first :: others)) tree := by
    rw [exists_derivesProgram_iff, ← clean, ← Array.toList_inj, ← recorded]
    simp
  refine ⟨later, final.nextId, ?_, alone, ?_⟩
  · have ended : (body.flatMap Sentence.tokens ++
        (broken ++ (first :: others ++ [last]))).getLast? = some last := by
      rw [← List.append_assoc, ← List.append_assoc, List.getLast?_concat]
    rw [parseProgram_eq_read nextId ended lastKind, sized]
    exact parsed
  · rintro ⟨head, tail, rfl, headSimple⟩
    exact alone.mpr ⟨tail, skipStatement_simple followingDerived headSimple⟩

/-! ### Two programs behind `print a` -/

/-- The tokens of `print a`. -/
def unfinishedPrint : List Token :=
  [⟨.keyword .print_, "print", 1⟩, ⟨.identifier, "a", 1⟩]

/-- The tokens of `if (b) c; d;`. -/
def conditionalTokens : List Token :=
  [ ⟨.keyword .if_, "if", 2⟩, ⟨.punct .leftParen, "(", 2⟩, ⟨.identifier, "b", 2⟩,
    ⟨.punct .rightParen, ")", 2⟩, ⟨.identifier, "c", 2⟩, ⟨.punct .semicolon, ";", 2⟩,
    ⟨.identifier, "d", 2⟩, ⟨.punct .semicolon, ";", 2⟩ ]

/-- The tokens of a class with a method `m() { return; }`. -/
def classTokens : List Token :=
  [ ⟨.keyword .class_, "class", 2⟩, ⟨.identifier, "A", 2⟩, ⟨.punct .leftBrace, "\x7b", 2⟩,
    ⟨.identifier, "m", 2⟩, ⟨.punct .leftParen, "(", 2⟩, ⟨.punct .rightParen, ")", 2⟩,
    ⟨.punct .leftBrace, "\x7b", 2⟩, ⟨.keyword .return_, "return", 2⟩,
    ⟨.punct .semicolon, ";", 2⟩, ⟨.punct .rightBrace, "\x7d", 2⟩,
    ⟨.punct .rightBrace, "\x7d", 2⟩ ]

theorem unfinishedPrint_derived :
    DerivesStmt false .declaration (unfinishedPrint ++ [⟨.punct .semicolon, ";", 1⟩])
      (.print (.var 0 ⟨"a", 1⟩)) false :=
  .noDeclaration (.print rfl (Derives.of_call (.noSuffix (.identifier 0 rfl))) rfl)

theorem derivesProgram_nil : DerivesProgram false [] [] :=
  @DerivesProgram.mk false [] nofun

/-- Tokens that are parsed before an end of input derive from the grammar. -/
theorem exists_derives_of_parse {tokens : List Token}
    (inside : ∀ token ∈ tokens, token.kind ≠ .endOfInput)
    (parses : (parseProgram 0 (tokens ++ [Token.endOfInput 2])).1.toOption.isSome = true) :
    ∃ tree, DerivesProgram false tokens tree := by
  obtain ⟨program, parsed⟩ := Option.isSome_iff_exists.mp parses
  cases result : (parseProgram 0 (tokens ++ [Token.endOfInput 2])).1 with
  | error errors =>
      rw [result] at parsed
      cases parsed
  | ok tree =>
      have derived := derivesProgram_of_parse inside rfl (Prod.ext result rfl)
      exact exists_derivesProgram_iff.mpr ⟨tree, derived⟩

/-- Behind `if (b) c;` nothing is left of the first statement. -/
theorem conditional_keeps_error_alone :
    (∃ tree, DerivesProgram false conditionalTokens tree) ∧
      ∃ finalId,
        parseProgram 0 ([] ++ (unfinishedPrint ++ (conditionalTokens ++ [Token.endOfInput 2]))) =
          (.error [⟨⟨.keyword .if_, "if", 2⟩, .expectPrintEnd⟩], finalId) := by
  have derived : ∃ tree, DerivesProgram false conditionalTokens tree :=
    exists_derives_of_parse (by decide) (by decide +kernel)
  have rest : ∃ tree, DerivesProgram false (skipStatement conditionalTokens) tree :=
    exists_derives_of_parse (by decide) (by decide +kernel)
  obtain ⟨tree, conditionalDerived⟩ := derived
  obtain ⟨later, finalId, parsed, alone, -⟩ := unfinished_statement_reported 0 [] unfinishedPrint
    conditionalTokens.tail ⟨.punct .semicolon, ";", 1⟩ ⟨.keyword .if_, "if", 2⟩
    (Token.endOfInput 2) [] tree _ _ derivesProgram_nil unfinishedPrint_derived rfl
    conditionalDerived rfl rfl
  rw [alone.mpr rest] at parsed
  exact ⟨⟨tree, conditionalDerived⟩, finalId, parsed⟩

/-- Behind a class with a method that returns, the closing braces are read as a statement: an
error may be followed by another one though both programs derive from the grammar. -/
theorem class_spoils_recovery :
    ¬∀ (nextId : UseId) (before broken following : List Token) (semicolon last : Token)
        (program tree : List Stmt) (stmt : Stmt) (isOpen : Bool),
      DerivesProgram false before program →
      DerivesStmt false .declaration (broken ++ [semicolon]) stmt isOpen →
      isSimple stmt = true →
      DerivesProgram false following tree →
      (∃ first others, following = first :: others ∧ startsStatement first.kind = true) →
      last.kind = .endOfInput →
      ∃ error finalId, parseProgram nextId (before ++ (broken ++ (following ++ [last]))) =
        (.error [error], finalId) := by
  intro confined
  obtain ⟨tree, derived⟩ : ∃ tree, DerivesProgram false classTokens tree :=
    exists_derives_of_parse (by decide) (by decide +kernel)
  obtain ⟨error, finalId, parsed⟩ := confined 0 [] unfinishedPrint classTokens _
    (Token.endOfInput 2) [] tree _ _ derivesProgram_nil unfinishedPrint_derived rfl derived
    ⟨_, _, rfl, rfl⟩ rfl
  have reported : (parseProgram 0 ([] ++ (unfinishedPrint ++ (classTokens ++
      [Token.endOfInput 2])))).1 = .error
        [⟨⟨.keyword .class_, "class", 2⟩, .expectPrintEnd⟩,
          ⟨⟨.punct .rightBrace, "\x7d", 2⟩, .expectExpression⟩] := by
    rfl
  rw [parsed] at reported
  cases reported

end Lox
