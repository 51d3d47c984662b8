import Lox.Proofs.Parser.ExpressionReports

/-!
# Lists past the limit are reported item by item

Where lists of arguments and parameters may have any number of items, the parser still
takes all tokens of a program.  It reports a fault at each item past the limit of its
list, in the order in which they stand, and nothing else.  So a list is reported once if
it has one item too many, and more often if it has more.
-/

namespace Lox

namespace Parser

open Actions Grammar

variable {α β : Type} {rest tokens : List Token} {lists : List ItemList}
  {reports : List SyntaxError} {budget : Nat}

/-! ## Simple statements -/

theorem varDeclaration_passes {keyword : Token} {stmt : Stmt}
    (declared : LenientVar (keyword :: tokens) stmt lists) (enough : tokens.length ≤ budget) :
    Passes (varDeclaration (expression budget)) tokens (reportsOf lists) rest := by
  rw [varDeclaration]
  cases declared with
  | plain _ nameKind semicolonKind =>
      refine .expectName nameKind (.skip_lacks (lacks_cons ?_) (by decide) ?_)
      · rw [semicolonKind]
        decide
      · exact .expect semicolonKind (by decide) (.pure _)
  | initialized _ nameKind equalsKind derived semicolonKind =>
      simp only [List.length_cons, List.length_append] at enough
      refine .expectName nameKind (.skip equalsKind (by decide) ?_)
      have valuePasses : Passes (expression budget) _ _ (_ :: rest) :=
        expression_passes derived (by omega) (stops_of_semicolon semicolonKind)
      exact .before (valuePasses.map some) fun _ => .expect semicolonKind (by decide) (.pure _)

theorem expressionStatement_passes {stmt : Stmt} (stated : LenientExpression tokens stmt lists)
    (enough : tokens.length ≤ budget) :
    Passes (expressionStatement (expression budget)) tokens (reportsOf lists) rest := by
  obtain ⟨derived, semicolonKind⟩ := stated
  rw [List.length_append] at enough
  rw [expressionStatement]
  exact .before (expression_passes derived (by omega) (stops_of_semicolon semicolonKind)) fun _ =>
    .expect semicolonKind (by decide) (.pure _)

/-- An optional expression is read up to the token that closes it. -/
theorem unlessNext_passes {closing : Token} {kind : TokenKind} {value : Option Expr}
    (derived : LenientOptional tokens value lists) (closingKind : closing.kind = kind)
    (inside : kind ≠ .endOfInput) (startsNone : startsExpression kind = false)
    (stops : Stops .assignment (closing :: rest)) (enough : tokens.length ≤ budget) :
    Passes (unlessNext kind (expression budget)) tokens (reportsOf lists) (closing :: rest) := by
  rw [unlessNext]
  cases derived with
  | absent => exact .check rfl closingKind inside (.pure none)
  | present derived =>
      exact .check_lacks (lacks_of_lenient derived startsNone _) inside
        ((expression_passes derived enough stops).map some)

/-! ## Statements with parts -/

section Parts

variable {statement : Parser Stmt} {declaration : Parser (Option Stmt)}
  {testLists : List ItemList} {more : List SyntaxError}

theorem condition_passes {opening closing : Token} {tested last : List Token} {condition : Expr}
    {openingFault closingFault : SyntaxFault} {next : Expr → Parser β}
    (openingKind : opening.kind = .punct .leftParen)
    (derived : Lenient .assignment tested condition testLists) (enough : tested.length ≤ budget)
    (closingKind : closing.kind = .punct .rightParen)
    (nextPasses : ∀ test, Passes (next test) last more rest) :
    Passes
      (expect (.punct .leftParen) openingFault >>= fun _ =>
        expression budget >>= fun test =>
          expect (.punct .rightParen) closingFault >>= fun _ => next test)
      (opening :: (tested ++ closing :: last)) (reportsOf testLists ++ more) rest :=
  .expect openingKind (by decide)
    (.bind (expression_passes derived enough (stops_of_rightParen closingKind)) fun test =>
      .expect closingKind (by decide) (nextPasses test))

theorem ifThen_passes {opening closing : Token} {tested branch : List Token} {condition : Expr}
    (openingKind : opening.kind = .punct .leftParen)
    (derived : Lenient .assignment tested condition testLists) (enough : tested.length ≤ budget)
    (closingKind : closing.kind = .punct .rightParen)
    (branchPasses : Passes statement branch more rest) (noElse : NoElse rest) :
    Passes (ifStatement (expression budget) statement)
      (opening :: (tested ++ closing :: branch)) (reportsOf testLists ++ more) rest := by
  rw [ifStatement]
  refine condition_passes openingKind derived enough closingKind fun test => ?_
  rw [← List.append_nil branch]
  exact .before branchPasses fun _ => .skip_lacks noElse (by decide) (.pure _)

theorem ifThenElse_passes {opening closing otherwise : Token}
    {tested branch alternative : List Token} {condition : Expr}
    {alternativeReports : List SyntaxError} (openingKind : opening.kind = .punct .leftParen)
    (derived : Lenient .assignment tested condition testLists) (enough : tested.length ≤ budget)
    (closingKind : closing.kind = .punct .rightParen)
    (branchPasses : Passes statement branch more (otherwise :: (alternative ++ rest)))
    (otherwiseKind : otherwise.kind = .keyword .else_)
    (alternativePasses : Passes statement alternative alternativeReports rest) :
    Passes (ifStatement (expression budget) statement)
      (opening :: (tested ++ closing :: (branch ++ otherwise :: alternative)))
      (reportsOf testLists ++ (more ++ alternativeReports)) rest := by
  rw [ifStatement]
  refine condition_passes openingKind derived enough closingKind fun test => ?_
  refine .bind branchPasses fun thenBranch => .skip otherwiseKind (by decide) ?_
  exact .last (alternativePasses.map some) fun elseBranch => Stmt.if_ test thenBranch elseBranch

theorem whileStatement_passes {opening closing : Token} {tested last : List Token}
    {condition : Expr} (openingKind : opening.kind = .punct .leftParen)
    (derived : Lenient .assignment tested condition testLists) (enough : tested.length ≤ budget)
    (closingKind : closing.kind = .punct .rightParen)
    (bodyPasses : Passes statement last more rest) :
    Passes (whileStatement (expression budget) statement)
      (opening :: (tested ++ closing :: last)) (reportsOf testLists ++ more) rest := by
  rw [whileStatement]
  exact condition_passes openingKind derived enough closingKind fun test =>
    .last bodyPasses (Stmt.while_ test)

theorem forInitializer_passes {initializer : Option Stmt}
    (derived : LenientInitializer tokens initializer lists) (enough : tokens.length ≤ budget) :
    Passes (forInitializer (expression budget)) tokens (reportsOf lists) rest := by
  rw [forInitializer]
  cases derived with
  | absent semicolonKind => exact .skip semicolonKind (by decide) (.pure _)
  | declaration declared =>
      obtain ⟨keyword, later, rfl, keywordKind⟩ := declared.head
      rw [List.length_cons] at enough
      refine .skip_lacks (lacks_cons (by rw [keywordKind]; decide)) (by decide) ?_
      refine .skip keywordKind (by decide) ?_
      exact .map (varDeclaration_passes declared (by omega)) some
  | expression stated =>
      have lacks : ∀ kind, startsExpression kind = false → Lacks kind (tokens ++ rest) := by
        intro kind startsNone
        obtain ⟨derived, -⟩ := stated
        rw [List.append_assoc]
        exact lacks_of_lenient derived startsNone _
      refine .skip_lacks (lacks _ (by decide)) (by decide) ?_
      refine .skip_lacks (lacks _ (by decide)) (by decide) ?_
      exact .map (expressionStatement_passes stated enough) some

theorem forStatement_passes {opening semicolon closing : Token}
    {first second third last : List Token} {initializer : Option Stmt}
    {condition increment : Option Expr} {firstLists secondLists thirdLists : List ItemList}
    (openingKind : opening.kind = .punct .leftParen)
    (initializerDerived : LenientInitializer first initializer firstLists)
    (conditionDerived : LenientOptional second condition secondLists)
    (semicolonKind : semicolon.kind = .punct .semicolon)
    (incrementDerived : LenientOptional third increment thirdLists)
    (closingKind : closing.kind = .punct .rightParen)
    (bodyPasses : Passes statement last more rest)
    (firstEnough : first.length ≤ budget) (secondEnough : second.length ≤ budget)
    (thirdEnough : third.length ≤ budget) :
    Passes (forStatement (expression budget) statement)
      (opening :: (first ++ (second ++ semicolon :: (third ++ closing :: last))))
      (reportsOf firstLists ++ (reportsOf secondLists ++ (reportsOf thirdLists ++ more)))
      rest := by
  rw [forStatement]
  refine .expect openingKind (by decide) ?_
  refine .bind (forInitializer_passes initializerDerived firstEnough) fun _ => ?_
  refine .bind (unlessNext_passes conditionDerived semicolonKind (by decide) (by decide)
    (stops_of_semicolon semicolonKind) secondEnough) fun _ => ?_
  refine .expect semicolonKind (by decide) ?_
  refine .bind (unlessNext_passes incrementDerived closingKind (by decide) (by decide)
    (stops_of_rightParen closingKind) thirdEnough) fun _ => ?_
  exact .expect closingKind (by decide) (.last bodyPasses _)

/-! ## Bodies -/

theorem isAtEnd_eq_ok {state : ParserState} {ended : Bool} (same : state.isAtEnd = ended) :
    isAtEnd state = .ok ended state := by
  rw [← same]
  rfl

/-- A parser that looks for a closing brace does not find one before a declaration. -/
theorem Passes.beforePart {clause : Clause} {after : List Token} {close next : Parser β}
    (opens : Opens clause tokens) (nextPasses : Passes next (tokens ++ after) reports rest) :
    Passes
      (Parser.check (.punct .rightBrace) >>= fun closes =>
        isAtEnd >>= fun ended => if (closes || ended) = true then close else next)
      (tokens ++ after) reports rest := by
  have lacksBrace : Lacks (.punct .rightBrace) (tokens ++ after ++ rest) := by
    rw [List.append_assoc]
    exact lacks_of_opens opens (by decide) _
  have notAtEnd : ∀ errors nextId, isAtEnd ⟨tokens ++ after ++ rest, errors, nextId⟩ =
      .ok false ⟨tokens ++ after ++ rest, errors, nextId⟩ := by
    rw [List.append_assoc]
    exact fun errors nextId => isAtEnd_eq_ok (isAtEnd_of_opens opens)
  exact .check_lacks lacksBrace (by decide) (.look notAtEnd nextPasses)

theorem Passes.atBrace {closed : Token} {close next : Parser β}
    (closedKind : closed.kind = .punct .rightBrace)
    (closePasses : Passes close [closed] reports rest) :
    Passes
      (Parser.check (.punct .rightBrace) >>= fun closes =>
        isAtEnd >>= fun ended => if (closes || ended) = true then close else next)
      [closed] reports rest := by
  have inside : closed.kind ≠ .endOfInput := by
    rw [closedKind]
    decide
  have notAtEnd : ∀ errors nextId, isAtEnd ⟨[closed] ++ rest, errors, nextId⟩ =
      .ok false ⟨[closed] ++ rest, errors, nextId⟩ :=
    fun errors nextId => isAtEnd_eq_ok (decide_eq_false inside)
  exact .check rfl closedKind (by decide) (.look notAtEnd closePasses)

/-- What has to be known of the parser for a part of a body. -/
def PassesPart (declaration : Parser (Option Stmt)) (part : ListedSentence) : Prop :=
  Opens .declaration part.tokens ∧
    ∀ following, (part.isOpen = true → NoElse following) →
      Passes declaration part.tokens (reportsOf part.lists) following

/-- No part of a body starts with `else`. -/
theorem noElse_of_passesParts {body : List ListedSentence} {following : List Token}
    (bodyPasses : ∀ part ∈ body, PassesPart declaration part) (noElse : NoElse following) :
    NoElse (body.flatMap (·.tokens) ++ following) := by
  cases body with
  | nil => exact noElse
  | cons first later =>
      rw [List.flatMap_cons, List.append_assoc]
      exact lacks_of_opens (bodyPasses first List.mem_cons_self).1 (by decide) _

theorem reportsOf_cons_lists (first : ListedSentence) (later : List ListedSentence) :
    reportsOf ((first :: later).flatMap ListedSentence.lists) =
      reportsOf first.lists ++ reportsOf (later.flatMap ListedSentence.lists) := by
  rw [List.flatMap_cons, reportsOf_append]

theorem blockBody_passes {body : List ListedSentence} {closed : Token}
    (bodyPasses : ∀ part ∈ body, PassesPart declaration part)
    (closedKind : closed.kind = .punct .rightBrace) (enough : body.length < budget)
    (done : List Stmt) :
    Passes (blockBody declaration budget done) (body.flatMap (·.tokens) ++ [closed])
      (reportsOf (body.flatMap ListedSentence.lists)) rest := by
  induction body generalizing budget done with
  | nil =>
      obtain ⟨remaining, rfl⟩ : ∃ remaining, budget = remaining + 1 := ⟨budget - 1, by omega⟩
      rw [blockBody]
      exact .atBrace closedKind (.expect closedKind (by decide) (.pure _))
  | cons first later inductionHypothesis =>
      rw [List.length_cons] at enough
      obtain ⟨remaining, rfl⟩ : ∃ remaining, budget = remaining + 1 := ⟨budget - 1, by omega⟩
      obtain ⟨opens, firstPasses⟩ := bodyPasses first List.mem_cons_self
      have laterPasses : ∀ part ∈ later, PassesPart declaration part :=
        fun part member => bodyPasses part (List.mem_cons_of_mem _ member)
      have enoughLater : later.length < remaining := by omega
      have closedNoElse : NoElse (closed :: rest) := lacks_cons (by rw [closedKind]; decide)
      rw [blockBody, reportsOf_cons_lists, List.flatMap_cons, List.append_assoc]
      refine .beforePart opens (.bind (firstPasses _ fun _ => ?_) fun next => ?_)
      · rw [List.append_assoc]
        exact noElse_of_passesParts laterPasses closedNoElse
      · exact inductionHypothesis laterPasses enoughLater (next.toList ++ done)

theorem declarations_passes {body : List ListedSentence}
    (bodyPasses : ∀ part ∈ body, PassesPart declaration part) (atEnd : AtEnd rest)
    (enough : body.length ≤ budget) (done : List Stmt) :
    Passes (declarations declaration budget done) (body.flatMap (·.tokens))
      (reportsOf (body.flatMap ListedSentence.lists)) rest := by
  induction body generalizing budget done with
  | nil =>
      cases budget with
      | zero => exact .pure _
      | succ budget =>
          rw [declarations]
          have ended : ∀ errors nextId, isAtEnd ⟨[] ++ rest, errors, nextId⟩ =
              .ok true ⟨[] ++ rest, errors, nextId⟩ := by
            intro errors nextId
            apply isAtEnd_eq_ok
            cases rest with
            | nil => rfl
            | cons token rest => exact decide_eq_true (atEnd token rfl)
          exact .look ended (.pure _)
  | cons first later inductionHypothesis =>
      rw [List.length_cons] at enough
      obtain ⟨remaining, rfl⟩ : ∃ remaining, budget = remaining + 1 := ⟨budget - 1, by omega⟩
      obtain ⟨opens, firstPasses⟩ := bodyPasses first List.mem_cons_self
      have laterPasses : ∀ part ∈ later, PassesPart declaration part :=
        fun part member => bodyPasses part (List.mem_cons_of_mem _ member)
      have enoughLater : later.length ≤ remaining := by omega
      have noElse : NoElse rest := by
        intro token member kind
        rw [atEnd token member] at kind
        cases kind
      have notAtEnd : ∀ errors nextId, isAtEnd
          ⟨first.tokens ++ later.flatMap (·.tokens) ++ rest, errors, nextId⟩ =
            .ok false ⟨first.tokens ++ later.flatMap (·.tokens) ++ rest, errors, nextId⟩ := by
        rw [List.append_assoc]
        exact fun errors nextId => isAtEnd_eq_ok (isAtEnd_of_opens opens)
      rw [declarations, reportsOf_cons_lists, List.flatMap_cons]
      refine .look notAtEnd (.bind (firstPasses _ fun _ => ?_) fun next => ?_)
      · exact noElse_of_passesParts laterPasses noElse
      · exact inductionHypothesis laterPasses enoughLater (next.toList ++ done)

/-- No more parts than tokens. -/
theorem length_le_flatMap_tokens {body : List ListedSentence}
    (bodyPasses : ∀ part ∈ body, PassesPart declaration part) :
    body.length ≤ (body.flatMap (·.tokens)).length := by
  induction body with
  | nil => exact Nat.le_refl _
  | cons first later inductionHypothesis =>
      obtain ⟨token, others, tokensEquality, -⟩ := (bodyPasses first List.mem_cons_self).1
      have fewer := inductionHypothesis fun part member =>
        bodyPasses part (List.mem_cons_of_mem _ member)
      rw [List.flatMap_cons, List.length_append, List.length_cons, tokensEquality,
        List.length_cons]
      omega

/-- Parameters are read up to the closing parenthesis. -/
theorem parameters_passes {params joined : List Token} {closing : Token}
    (names : ∀ param ∈ params, param.kind = .identifier)
    (singles : SinglesOut .parameters (params.map ListedPart.parameter) lists)
    (separated : Separated (params.map ([·])) joined)
    (closingKind : closing.kind = .punct .rightParen) (enough : joined.length ≤ budget) :
    Passes (parameters budget) joined (reportsOf lists) (closing :: rest) := by
  rw [← partReports_eq singles, parameters]
  cases params with
  | nil =>
      obtain ⟨⟩ := separated
      exact .check rfl closingKind (by decide) (.pure [])
  | cons first later =>
      have partTokens : ((first :: later).map ListedPart.parameter).map ListedPart.tokens =
          (first :: later).map ([·]) := by
        rw [List.map_map]
        rfl
      have itemPasses : ∀ part ∈ (first :: later).map ListedPart.parameter, ∀ following, True →
          Passes (expectName .expectParameterName) part.tokens (reportsOf part.lists)
            following := by
        intro part member following _ errors nextId
        obtain ⟨param, paramMember, rfl⟩ := List.mem_map.mp member
        exact ⟨_, _, expectName_mk_cons (names param paramMember)⟩
      have fewer : ((first :: later).map ListedPart.parameter).length ≤ joined.length := by
        have counted := separated.count_le (by simp)
        simpa using counted
      have lacks : Lacks (.punct .rightParen) (joined ++ closing :: rest) := by
        obtain ⟨more, rfl⟩ := separated.exists_append
        exact lacks_cons (by rw [names first List.mem_cons_self]; decide)
      exact .check_lacks lacks (by decide)
        (commaSeparated_passes .tooManyParameters (fun _ => trivial) (partTokens ▸ separated)
          (by simp) (by simp [ListedPart.parameter]) itemPasses (Nat.le_trans fewer enough) []
          trivial (lacks_cons (by rw [closingKind]; decide)))

end Parts

/-! ## Clauses -/

/-- How the tokens of a clause are read, with a budget that covers them. -/
def PassesClause : Clause → List Token → Bool → List SyntaxError → Prop
  | .declaration, tokens, isOpen, reports =>
      ∀ budget rest, tokens.length ≤ budget + 1 → (isOpen = true → NoElse rest) →
        Passes (declarationOf (partsOf budget)) tokens reports rest
  | .statement, tokens, isOpen, reports =>
      ∀ budget rest, tokens.length ≤ budget + 1 → (isOpen = true → NoElse rest) →
        Passes (statementOf (partsOf budget)) tokens reports rest
  | .function, tokens, _, reports =>
      ∀ budget rest role, tokens.length ≤ budget + 1 →
        Passes (functionDeclaration (partsOf budget) role) tokens reports rest

/-- A nested statement is read with a smaller budget. -/
theorem PassesClause.statement {isOpen : Bool}
    (clause : PassesClause .statement tokens isOpen reports) (nonempty : tokens ≠ [])
    (enough : tokens.length ≤ budget) (follows : isOpen = true → NoElse rest) :
    Passes (Parser.statement budget) tokens reports rest := by
  have taken := List.length_pos_iff.mpr nonempty
  obtain ⟨later, rfl⟩ : ∃ later, budget = later + 1 := ⟨budget - 1, by omega⟩
  rw [statement_succ]
  exact clause later rest enough follows

/-- A declaration inside a body is read without recovery. -/
theorem PassesClause.part {part : ListedSentence} (opens : Opens .declaration part.tokens)
    (clause : PassesClause .declaration part.tokens part.isOpen (reportsOf part.lists))
    (enough : part.tokens.length ≤ budget) : PassesPart (Parser.declaration budget) part := by
  refine ⟨opens, ?_⟩
  intro following follows errors nextId
  obtain ⟨first, others, tokensEquality, -⟩ := opens
  obtain ⟨later, rfl⟩ : ∃ later, budget = later + 1 := by
    rw [tokensEquality, List.length_cons] at enough
    exact ⟨budget - 1, by omega⟩
  obtain ⟨stmt, finalId, parsed⟩ := clause later following enough follows errors nextId
  refine ⟨some stmt, finalId, ?_⟩
  rw [declaration_succ, recovering, parsed]

section Clauses

variable {body : List ListedSentence}

theorem passesParts_of_clauses
    (derived : ∀ part ∈ body,
      LenientStmt .declaration part.tokens part.tree part.isOpen part.lists)
    (clauses : ∀ part ∈ body,
      PassesClause .declaration part.tokens part.isOpen (reportsOf part.lists))
    (enough : (body.flatMap (·.tokens)).length ≤ budget) :
    ∀ part ∈ body, PassesPart (Parser.declaration budget) part := by
  intro part member
  have shorter : part.tokens.length ≤ (body.flatMap (·.tokens)).length :=
    @length_le_of_mem_flatMap ListedSentence (·.tokens) part body member
  exact (clauses part member).part (derived part member).head (Nat.le_trans shorter enough)

/-- The body of a block or a function is read up to its closing brace. -/
theorem body_passes {closed : Token}
    (derived : ∀ part ∈ body,
      LenientStmt .declaration part.tokens part.tree part.isOpen part.lists)
    (clauses : ∀ part ∈ body,
      PassesClause .declaration part.tokens part.isOpen (reportsOf part.lists))
    (closedKind : closed.kind = .punct .rightBrace)
    (enough : (body.flatMap (·.tokens)).length ≤ budget) :
    Passes (blockBody (Parser.declaration budget) (budget + 1) [])
      (body.flatMap (·.tokens) ++ [closed]) (reportsOf (body.flatMap ListedSentence.lists))
      rest := by
  have bodyPasses := passesParts_of_clauses derived clauses enough
  have fewer := length_le_flatMap_tokens bodyPasses
  exact blockBody_passes bodyPasses closedKind (by omega) []

theorem functionDeclaration_passes {name opening closing opened closed : Token}
    {joined params : List Token} (role : FunctionRole)
    (nameKind : name.kind = .identifier) (openingKind : opening.kind = .punct .leftParen)
    (names : ∀ param ∈ params, param.kind = .identifier)
    (singles : SinglesOut .parameters (params.map ListedPart.parameter) lists)
    (separated : Separated (params.map ([·])) joined)
    (closingKind : closing.kind = .punct .rightParen)
    (openedKind : opened.kind = .punct .leftBrace)
    (derived : ∀ part ∈ body,
      LenientStmt .declaration part.tokens part.tree part.isOpen part.lists)
    (clauses : ∀ part ∈ body,
      PassesClause .declaration part.tokens part.isOpen (reportsOf part.lists))
    (closedKind : closed.kind = .punct .rightBrace) (paramsEnough : joined.length ≤ budget)
    (bodyEnough : (body.flatMap (·.tokens)).length ≤ budget) :
    Passes (functionDeclaration (partsOf budget) role)
      (name :: opening ::
        (joined ++ closing :: opened :: (body.flatMap (·.tokens) ++ [closed])))
      (reportsOf lists ++ reportsOf (body.flatMap ListedSentence.lists)) rest := by
  rw [functionDeclaration]
  refine .expectName nameKind (.expect openingKind (by decide) ?_)
  have joinedEnough : joined.length ≤ (partsOf budget).budget := Nat.le_succ_of_le paramsEnough
  refine .bind (parameters_passes names singles separated closingKind joinedEnough) fun found => ?_
  refine .expect closingKind (by decide) (.expect openedKind (by decide) ?_)
  exact .last (body_passes derived clauses closedKind bodyEnough)
    (FunctionDecl.mk name.toName found)

/-- Methods are read up to the closing brace of their class. -/
theorem methods_passes {declared : List (ListedPart FunctionDecl)} {closing : Token}
    {remaining : Nat}
    (derived : ∀ method ∈ declared,
      LenientStmt .function method.tokens (.function method.tree) false method.lists)
    (clauses : ∀ method ∈ declared,
      PassesClause .function method.tokens false (reportsOf method.lists))
    (closingKind : closing.kind = .punct .rightBrace)
    (enough : (declared.flatMap ListedPart.tokens).length ≤ budget)
    (enoughMethods : (declared.flatMap ListedPart.tokens).length < remaining)
    (done : List FunctionDecl) :
    Passes (methods (partsOf budget) remaining done)
      (declared.flatMap ListedPart.tokens ++ [closing])
      (reportsOf (declared.flatMap ListedPart.lists)) rest := by
  induction declared generalizing remaining done with
  | nil =>
      obtain ⟨later, rfl⟩ : ∃ later, remaining = later + 1 := ⟨remaining - 1, by omega⟩
      rw [methods]
      exact .atBrace closingKind (.expect closingKind (by decide) (.pure _))
  | cons first others inductionHypothesis =>
      have firstDerived := derived first List.mem_cons_self
      have taken := List.length_pos_iff.mpr firstDerived.tokens_ne_nil
      rw [List.flatMap_cons, List.length_append] at enough enoughMethods
      obtain ⟨later, rfl⟩ : ∃ later, remaining = later + 1 := ⟨remaining - 1, by omega⟩
      have enoughLater : (others.flatMap ListedPart.tokens).length < later := by omega
      have firstPasses := clauses first List.mem_cons_self budget
        ((others.flatMap ListedPart.tokens ++ [closing]) ++ rest) .method (by omega)
      rw [methods, List.flatMap_cons, List.flatMap_cons, reportsOf_append, List.append_assoc]
      refine .beforePart firstDerived.head (.bind firstPasses fun method => ?_)
      exact inductionHypothesis
        (fun method member => derived method (List.mem_cons_of_mem _ member))
        (fun method member => clauses method (List.mem_cons_of_mem _ member)) (by omega)
        enoughLater (method :: done)

theorem classDeclaration_passes {name opening closing : Token} {clause : List Token}
    {superclass : Option Expr} {declared : List (ListedPart FunctionDecl)}
    (nameKind : name.kind = .identifier) (superclassDerived : SuperclassClause clause superclass)
    (openingKind : opening.kind = .punct .leftBrace)
    (derived : ∀ method ∈ declared,
      LenientStmt .function method.tokens (.function method.tree) false method.lists)
    (clauses : ∀ method ∈ declared,
      PassesClause .function method.tokens false (reportsOf method.lists))
    (closingKind : closing.kind = .punct .rightBrace)
    (enough : (declared.flatMap ListedPart.tokens).length ≤ budget) :
    Passes (classDeclaration (partsOf budget))
      (name :: (clause ++ opening :: (declared.flatMap ListedPart.tokens ++ [closing])))
      (reportsOf (declared.flatMap ListedPart.lists)) rest := by
  rw [classDeclaration]
  refine .expectName nameKind ?_
  have lacks : Lacks (.punct .less)
      (opening :: (declared.flatMap ListedPart.tokens ++ [closing]) ++ rest) :=
    lacks_cons (by rw [openingKind]; decide)
  refine .bind (superclassClause_complete superclassDerived lacks).passes fun found => ?_
  refine .expect openingKind (by decide) ?_
  have enoughMethods : (declared.flatMap ListedPart.tokens).length < budget + 1 := by omega
  exact .last (methods_passes derived clauses closingKind enough enoughMethods []) fun given =>
    Stmt.class_ name.toName found given

/-- A statement that starts with an expression is one. -/
theorem statementOf_passes {parts : Parts} {token : Token}
    (starts : startsExpression token.kind = true)
    (passes : Passes (expressionStatement parts.expression) (token :: tokens) reports rest) :
    Passes (statementOf parts) (token :: tokens) reports rest := by
  rw [statementOf]
  refine .peek ?_
  split
  case h_7 => exact passes
  all_goals
    rename_i kind
    rw [kind] at starts
    cases starts

/-- The tokens of every statement are read, and the lists that are singled out in it are
reported in the order in which they stand. -/
theorem passes_of_lenientStmt {clause : Clause} {stmt : Stmt} {isOpen : Bool}
    (derived : LenientStmt clause tokens stmt isOpen lists) :
    PassesClause clause tokens isOpen (reportsOf lists) := by
  induction derived with
  | classDeclaration keywordKind nameKind superclassDerived openingKind derived closingKind
      clauses =>
      intro budget rest enough _
      simp only [List.length_cons, List.length_append, List.length_nil] at enough
      rw [declarationOf]
      exact .skip keywordKind (by decide) (classDeclaration_passes nameKind superclassDerived
        openingKind derived clauses closingKind (by omega))
  | functionDeclaration keywordKind _ clause =>
      intro budget rest enough _
      rw [List.length_cons] at enough
      rw [declarationOf]
      refine .skip_lacks (lacks_cons (by rw [keywordKind]; decide)) (by decide) ?_
      refine .skip keywordKind (by decide) ?_
      exact .last (clause budget rest .function (by omega)) Stmt.function
  | varDeclaration declared =>
      intro budget rest enough _
      obtain ⟨keyword, later, rfl, keywordKind⟩ := declared.head
      rw [List.length_cons] at enough
      rw [declarationOf]
      refine .skip_lacks (lacks_cons (by rw [keywordKind]; decide)) (by decide) ?_
      refine .skip_lacks (lacks_cons (by rw [keywordKind]; decide)) (by decide) ?_
      refine .skip keywordKind (by decide) ?_
      exact varDeclaration_passes declared (by omega)
  | noDeclaration derived clause =>
      intro budget rest enough follows
      have opens := derived.head
      rw [declarationOf]
      refine .skip_lacks (lacks_of_opensStatement opens (by decide) _) (by decide) ?_
      refine .skip_lacks (lacks_of_opensStatement opens (by decide) _) (by decide) ?_
      refine .skip_lacks (lacks_of_opensStatement opens (by decide) _) (by decide) ?_
      exact clause budget rest enough follows
  | function nameKind openingKind names singles separated closingKind openedKind derived
      closedKind clauses =>
      intro budget rest role enough
      simp only [List.length_cons, List.length_append, List.length_nil] at enough
      rw [reportsOf_append]
      exact functionDeclaration_passes role nameKind openingKind names singles separated
        closingKind openedKind derived clauses closedKind (by omega) (by omega)
  | expression stated =>
      intro budget rest enough _
      obtain ⟨first, later, rfl, starts⟩ := stated.head
      exact statementOf_passes starts (expressionStatement_passes stated enough)
  | forLoop keywordKind openingKind initializerDerived conditionDerived semicolonKind
      incrementDerived closingKind bodyDerived clause =>
      intro budget rest enough follows
      simp only [List.length_cons, List.length_append] at enough
      rw [statementOf, reportsOf_append, reportsOf_append, reportsOf_append]
      refine .announced keywordKind (by decide) (by rw [keywordKind]) ?_
      exact forStatement_passes openingKind initializerDerived conditionDerived semicolonKind
        incrementDerived closingKind
        (clause.statement bodyDerived.tokens_ne_nil (by omega) follows) (by omega) (by omega)
        (by omega)
  | ifThen keywordKind openingKind derived closingKind branchDerived clause =>
      intro budget rest enough follows
      simp only [List.length_cons, List.length_append] at enough
      have noElse := follows rfl
      rw [statementOf, reportsOf_append]
      refine .announced keywordKind (by decide) (by rw [keywordKind]) ?_
      exact ifThen_passes openingKind derived (by omega) closingKind
        (clause.statement branchDerived.tokens_ne_nil (by omega) fun _ => noElse) noElse
  | ifThenElse keywordKind openingKind derived closingKind branchDerived otherwiseKind
      alternativeDerived clause alternativeClause =>
      intro budget rest enough follows
      simp only [List.length_cons, List.length_append] at enough
      rw [statementOf, reportsOf_append, reportsOf_append]
      refine .announced keywordKind (by decide) (by rw [keywordKind]) ?_
      exact ifThenElse_passes openingKind derived (by omega) closingKind
        (clause.statement branchDerived.tokens_ne_nil (by omega)
          fun closed => absurd closed Bool.false_ne_true) otherwiseKind
        (alternativeClause.statement alternativeDerived.tokens_ne_nil (by omega) follows)
  | print keywordKind derived semicolonKind =>
      intro budget rest enough _
      simp only [List.length_cons, List.length_append] at enough
      rw [statementOf]
      refine .announced keywordKind (by decide) (by rw [keywordKind]) ?_
      rw [printStatement]
      exact .before (expression_passes derived (by omega) (stops_of_semicolon semicolonKind))
        fun _ => .expect semicolonKind (by decide) (.pure _)
  | return_ keywordKind derived semicolonKind =>
      intro budget rest enough _
      simp only [List.length_cons, List.length_append] at enough
      rw [statementOf]
      refine .announced keywordKind (by decide) (by rw [keywordKind]) ?_
      rw [returnStatement]
      exact .before (unlessNext_passes derived semicolonKind (by decide) (by decide)
        (stops_of_semicolon semicolonKind) (by omega)) fun _ =>
          .expect semicolonKind (by decide) (.pure _)
  | whileLoop keywordKind openingKind derived closingKind bodyDerived clause =>
      intro budget rest enough follows
      simp only [List.length_cons, List.length_append] at enough
      rw [statementOf, reportsOf_append]
      refine .announced keywordKind (by decide) (by rw [keywordKind]) ?_
      exact whileStatement_passes openingKind derived (by omega) closingKind
        (clause.statement bodyDerived.tokens_ne_nil (by omega) follows)
  | block openedKind derived closedKind clauses =>
      intro budget rest enough _
      simp only [List.length_cons, List.length_append, List.length_nil] at enough
      rw [statementOf]
      refine .announced openedKind (by decide) (by rw [openedKind]) ?_
      exact .last (body_passes derived clauses closedKind (by omega)) Stmt.block

end Clauses

end Parser

/-! ## Programs -/

open Grammar

/-- What is recorded for a program is what is reported for the lists that are singled out
in it. -/
theorem Parser.declarations_reports {tokens : List Token} {last : Token} {program : List Stmt}
    {lists : List ItemList} (derived : LenientProgram tokens program lists)
    (lastKind : last.kind = .endOfInput) :
    Parser.Passes
      (Parser.declarations (Parser.declaration (tokens ++ [last]).length)
        (tokens ++ [last]).length [])
      tokens (reportsOf lists) [last] := by
  obtain ⟨derived⟩ := derived
  rename_i body
  have atEnd : Parser.AtEnd [last] := by
    rintro token ⟨⟩
    exact lastKind
  have longer : (body.flatMap (·.tokens)).length ≤
      (body.flatMap (·.tokens) ++ [last]).length := by
    rw [List.length_append]
    omega
  have bodyPasses := Parser.passesParts_of_clauses derived
    (fun part member => Parser.passes_of_lenientStmt (derived part member)) longer
  have fewer := Parser.length_le_flatMap_tokens bodyPasses
  exact Parser.declarations_passes bodyPasses atEnd (Nat.le_trans fewer longer) []

theorem Grammar.reportsOf_eq_nil_iff {lists : List ItemList} :
    reportsOf lists = [] ↔ Bounded lists := by
  simp [reportsOf, Bounded, List.flatMap_eq_nil_iff, ItemList.reports_eq_nil_iff]

theorem parseProgram_of_excess {tokens : List Token} {last : Token} {program : List Stmt}
    {lists : List ItemList} (derived : LenientProgram tokens program lists)
    (lastKind : last.kind = .endOfInput) (excess : ∃ list ∈ lists, maxArity < list.items.length)
    (nextId : UseId) :
    ∃ finalId, parseProgram nextId (tokens ++ [last]) = (.error (reportsOf lists), finalId) := by
  obtain ⟨list, member, tooLong⟩ := excess
  have notEmpty : reportsOf lists ≠ [] := by
    rw [Ne, reportsOf_eq_nil_iff]
    intro bounded
    exact absurd (bounded list member) (Nat.not_le.mpr tooLong)
  obtain ⟨error, later, reported⟩ := List.exists_cons_of_ne_nil notEmpty
  obtain ⟨stmts, finalId, parsed⟩ := Parser.declarations_reports derived lastKind #[] nextId
  refine ⟨finalId, ?_⟩
  rw [Parser.parseProgram_eq_read nextId List.getLast?_concat lastKind, reported]
  exact Parser.read_of_errors parsed (by simp [reported])

/-- A program in which lists may have any number of items is parsed without an error if
all of them keep to the limit.  If not, the errors are those of the lists, one after the
other: each list has as many of them as it has items past the limit, each at the first
token of such an item, and they say nothing but that there are too many. -/
theorem excess_items_are_reported {tokens : List Token} {last : Token} {program : List Stmt}
    {lists : List ItemList} (derived : LenientProgram tokens program lists)
    (lastKind : last.kind = .endOfInput) (nextId : UseId) :
    ((∀ list ∈ lists, list.items.length ≤ maxArity) →
        ∃ parsed finalId, parseProgram nextId (tokens ++ [last]) = (.ok parsed, finalId) ∧
          parsed.map Stmt.shape = program.map Stmt.shape) ∧
      ((∃ list ∈ lists, maxArity < list.items.length) →
        ∃ finalId, parseProgram nextId (tokens ++ [last]) =
          (.error (lists.flatMap ItemList.reports), finalId)) ∧
      ∀ list ∈ lists, list.reports.length = list.items.length - maxArity ∧
        ∀ error ∈ list.reports, error.fault = list.kind.fault := by
  refine ⟨?_, fun excess => parseProgram_of_excess derived lastKind excess nextId, ?_⟩
  · intro bounded
    exact parseProgram_complete (derived.derives bounded) lastKind nextId
  · intro list member
    refine ⟨list.length_reports, ?_⟩
    intro error reported
    obtain ⟨tokens, -, rfl⟩ := List.mem_map.mp reported
    rfl

/-! ### A call with many arguments -/

/-- The token that stands for each argument. -/
def argumentToken : Token :=
  ⟨.identifier, "x", 1⟩

/-- So many arguments with commas between them. -/
def argumentTokens : Nat → List Token
  | 0 => []
  | 1 => [argumentToken]
  | count + 2 => argumentToken :: ⟨.punct .comma, ",", 1⟩ :: argumentTokens (count + 1)

theorem argumentTokens_separated (count : Nat) :
    Separated (List.replicate count [argumentToken]) (argumentTokens count) := by
  induction count with
  | zero => exact .empty
  | succ count inductionHypothesis =>
      cases count with
      | zero => exact .single _
      | succ count => exact .more rfl inductionHypothesis

/-- The tokens of `f(x, …, x);`. -/
def callTokens (count : Nat) : List Token :=
  [⟨.identifier, "f", 1⟩] ++
    ⟨.punct .leftParen, "(", 1⟩ :: (argumentTokens count ++ [⟨.punct .rightParen, ")", 1⟩]) ++
    [⟨.punct .semicolon, ";", 1⟩]

/-- The tree of `f(x, …, x);`. -/
def callTree (count : Nat) : Stmt :=
  .expression (.call (.var 0 ⟨"f", 1⟩) 1 (List.replicate count (.var 0 ⟨"x", 1⟩)))

/-- The arguments of `f(x, …, x);`. -/
def argumentList (count : Nat) : ItemList :=
  ⟨.arguments, List.replicate count [argumentToken]⟩

theorem callTokens_lenient (count : Nat) :
    LenientProgram (callTokens count) [callTree count] [argumentList count] := by
  let part : ListedPart Expr := ⟨[argumentToken], .var 0 ⟨"x", 1⟩, []⟩
  have argumentDerived : ∀ argument ∈ List.replicate count part,
      Lenient .assignment argument.tokens argument.tree argument.lists := by
    intro argument member
    rw [List.eq_of_mem_replicate member]
    exact .strict (Derives.of_call (.noSuffix (.identifier 0 rfl)))
  have plain : ∀ argument ∈ List.replicate count part, argument.lists = [] := by
    intro argument member
    rw [List.eq_of_mem_replicate member]
  have separated : Separated ((List.replicate count part).map ListedPart.tokens)
      (argumentTokens count) := by
    rw [List.map_replicate]
    exact argumentTokens_separated count
  have called : Lenient .call
      ([⟨.identifier, "f", 1⟩] ++
        ⟨.punct .leftParen, "(", 1⟩ :: (argumentTokens count ++ [⟨.punct .rightParen, ")", 1⟩]))
      (.call (.var 0 ⟨"f", 1⟩) 1 ((List.replicate count part).map ListedPart.tree))
      ([] ++ [⟨.arguments, (List.replicate count part).map ListedPart.tokens⟩]) :=
    .invocation (.strict (.noSuffix (.identifier 0 rfl))) rfl argumentDerived (.single plain)
      separated rfl
  rw [List.map_replicate, List.map_replicate] at called
  have stated : LenientStmt .declaration (callTokens count) (callTree count) false
      [argumentList count] :=
    .noDeclaration (.expression (.mk called.of_call rfl))
  have program : LenientProgram
      ([⟨⟨callTokens count, callTree count, false⟩, [argumentList count]⟩].flatMap
        fun part : ListedSentence => part.tokens)
      [callTree count] ([argumentList count] ++ []) :=
    .mk (by
      intro sentence member
      rw [List.mem_singleton.mp member]
      exact stated)
  simpa using program

theorem length_argumentList (count : Nat) : (argumentList count).items.length = count :=
  List.length_replicate

theorem argumentList_reports (count : Nat) :
    (argumentList count).reports =
      List.replicate (count - maxArity) ⟨argumentToken, .tooManyArguments⟩ := by
  rw [ItemList.reports, argumentList, List.drop_replicate, List.map_replicate]
  rfl

/-- Two arguments past the limit are reported twice. -/
theorem callTokens_reported :
    LenientProgram (callTokens 257) [callTree 257] [argumentList 257] ∧
      (Token.endOfInput 1).kind = .endOfInput ∧
      ∃ finalId, parseProgram 0 (callTokens 257 ++ [Token.endOfInput 1]) =
        (.error [⟨argumentToken, .tooManyArguments⟩, ⟨argumentToken, .tooManyArguments⟩],
          finalId) := by
  have excess : ∃ list ∈ [argumentList 257], maxArity < list.items.length := by
    refine ⟨argumentList 257, List.mem_cons_self, ?_⟩
    rw [length_argumentList]
    decide
  have ended : (Token.endOfInput 1).kind = .endOfInput := rfl
  have reported := (excess_items_are_reported (callTokens_lenient 257) ended 0).2.1 excess
  rw [List.flatMap_singleton, argumentList_reports] at reported
  exact ⟨callTokens_lenient 257, ended, reported⟩

/-- A list that is too long is not always reported once. -/
theorem not_reported_once :
    ¬ ∀ (tokens : List Token) (program : List Stmt) (list : ItemList),
      LenientProgram tokens program [list] → maxArity < list.items.length →
        ∃ error finalId,
          parseProgram 0 (tokens ++ [Token.endOfInput 1]) = (.error [error], finalId) := by
  intro once
  have tooLong : maxArity < (argumentList 257).items.length := by
    rw [length_argumentList]
    decide
  obtain ⟨error, finalId, parsed⟩ := once _ _ _ (callTokens_lenient 257) tooLong
  have ended : (Token.endOfInput 1).kind = .endOfInput := rfl
  obtain ⟨otherId, reported⟩ := parseProgram_of_excess (callTokens_lenient 257) ended
    ⟨_, List.mem_cons_self, tooLong⟩ 0
  rw [reportsOf_singleton, argumentList_reports, parsed] at reported
  have sameErrors := Except.error.inj (Prod.mk.inj reported).1
  have sameLength := congrArg List.length sameErrors
  rw [List.length_singleton, List.length_replicate] at sameLength
  exact absurd sameLength (by decide)

end Lox
