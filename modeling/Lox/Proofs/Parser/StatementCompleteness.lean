import Lox.Proofs.Parser.ExpressionCompleteness
import Lox.Proofs.Parser.StatementSoundness

/-!
# Programs of the grammar are parsed

If tokens derive from a nonterminal for statements, with every `else` at the
nearest `if`, then its parser takes exactly these tokens, records no error, and
gives the tree of the derivation up to the identities of uses.  A statement that
ends with an `if` without `else` must not be followed by an `else`.
-/

namespace Lox

namespace Parser

open Actions Grammar

variable {α β γ δ : Type} {shape : α → γ} {otherShape : β → δ} {rest : List Token}

/-! ## Reading in sequence -/

theorem Reads.pure {result value : α} (same : shape result = shape value) :
    Reads shape (Pure.pure result) [] value rest :=
  fun _ nextId => ⟨result, nextId, rfl, same⟩

theorem Reads.bind {first : Parser α} {next : α → Parser β} {before after : List Token}
    {value : α} {later : β} (firstReads : Reads shape first before value (after ++ rest))
    (nextReads : ∀ result, shape result = shape value →
      Reads otherShape (next result) after later rest) :
    Reads otherShape (first >>= next) (before ++ after) later rest := by
  intro errors nextId
  obtain ⟨result, middleId, firstParsed, firstShape⟩ := firstReads errors nextId
  obtain ⟨final, finalId, nextParsed, nextShape⟩ :=
    nextReads result firstShape errors middleId
  refine ⟨final, finalId, ?_, nextShape⟩
  rw [List.append_assoc, bind_of_ok firstParsed, nextParsed]

theorem Reads.map {first : Parser α} {tokens : List Token} {value : α} (f : α → β)
    (firstReads : Reads shape first tokens value rest)
    (same : ∀ result, shape result = shape value → otherShape (f result) = otherShape (f value)) :
    Reads otherShape (f <$> first) tokens (f value) rest := by
  intro errors nextId
  obtain ⟨result, finalId, parsed, shapes⟩ := firstReads errors nextId
  exact ⟨f result, finalId, map_eq_ok_iff.mpr ⟨result, parsed, rfl⟩, same result shapes⟩

section Tokens

variable {token : Token} {kind : TokenKind} {tokens : List Token} {value : α}

theorem Reads.expect {fault : SyntaxFault} {next : Token → Parser α} (same : token.kind = kind)
    (inside : kind ≠ .endOfInput) (nextReads : Reads shape (next token) tokens value rest) :
    Reads shape (expect kind fault >>= next) (token :: tokens) value rest := by
  intro errors nextId
  rw [List.cons_append, bind_of_ok (expect_mk_cons same inside)]
  exact nextReads errors nextId

theorem Reads.expectName {fault : SyntaxFault} {next : Name → Parser α}
    (same : token.kind = .identifier)
    (nextReads : Reads shape (next token.toName) tokens value rest) :
    Reads shape (expectName fault >>= next) (token :: tokens) value rest := by
  intro errors nextId
  rw [List.cons_append, bind_of_ok (expectName_mk_cons same)]
  exact nextReads errors nextId

theorem Reads.advance {next : Token → Parser α} (inside : token.kind ≠ .endOfInput)
    (nextReads : Reads shape (next token) tokens value rest) :
    Reads shape (advance >>= next) (token :: tokens) value rest := by
  intro errors nextId
  rw [List.cons_append, bind_of_ok (advance_mk_cons inside)]
  exact nextReads errors nextId

theorem Reads.skip {next : Bool → Parser α} (same : token.kind = kind)
    (inside : kind ≠ .endOfInput) (nextReads : Reads shape (next true) tokens value rest) :
    Reads shape (skip kind >>= next) (token :: tokens) value rest := by
  intro errors nextId
  rw [List.cons_append, bind_of_ok (skip_mk_cons same inside)]
  exact nextReads errors nextId

theorem Reads.peek {next : Token → Parser α}
    (nextReads : Reads shape (next token) (token :: tokens) value rest) :
    Reads shape (peek >>= next) (token :: tokens) value rest :=
  fun errors nextId => nextReads errors nextId

/-- A token whose kind announces what is read behind it. -/
theorem Reads.announced {next later : Token → Parser α}
    (same : token.kind = kind) (inside : kind ≠ .endOfInput)
    (announces : next token = Parser.advance >>= later)
    (laterReads : Reads shape (later token) tokens value rest) :
    Reads shape (Parser.peek >>= next) (token :: tokens) value rest := by
  refine .peek ?_
  rw [announces]
  exact .advance (by rwa [same]) laterReads

/-- What follows does not start with a token of the given kind. -/
def Lacks (kind : TokenKind) (following : List Token) : Prop :=
  ∀ token ∈ following.head?, token.kind ≠ kind

theorem lacks_cons {following : List Token} (different : token.kind ≠ kind) :
    Lacks kind (token :: following) := by
  rintro found ⟨⟩
  exact different

theorem Lacks.peek {following : List Token} (lacks : Lacks kind following)
    (inside : kind ≠ .endOfInput) (errors : Array SyntaxError) (nextId : UseId) :
    (ParserState.mk following errors nextId).peek.kind ≠ kind := by
  cases following with
  | nil => exact inside.symm
  | cons token following => exact lacks token rfl

theorem Reads.skip_lacks {next : Bool → Parser α} (lacks : Lacks kind (tokens ++ rest))
    (inside : kind ≠ .endOfInput) (nextReads : Reads shape (next false) tokens value rest) :
    Reads shape (Parser.skip kind >>= next) tokens value rest := by
  intro errors nextId
  rw [bind_of_ok (skip_of_ne (lacks.peek inside errors nextId))]
  exact nextReads errors nextId

theorem Reads.check {next : Bool → Parser α} {found : Bool} (inside : kind ≠ .endOfInput)
    (tested : ∀ errors nextId,
      decide ((ParserState.mk (tokens ++ rest) errors nextId).peek.kind = kind) = found)
    (nextReads : Reads shape (next found) tokens value rest) :
    Reads shape (Parser.check kind >>= next) tokens value rest := by
  intro errors nextId
  rw [bind_of_ok (check_eq inside _), tested errors nextId]
  exact nextReads errors nextId

theorem Reads.isAtEnd {next : Bool → Parser α} {found : Bool}
    (tested : ∀ errors nextId,
      (ParserState.mk (tokens ++ rest) errors nextId).isAtEnd = found)
    (nextReads : Reads shape (next found) tokens value rest) :
    Reads shape (Parser.isAtEnd >>= next) tokens value rest := by
  intro errors nextId
  rw [bind_of_ok (isAtEnd_apply _), tested errors nextId]
  exact nextReads errors nextId

theorem Reads.check_lacks {next : Bool → Parser α} (lacks : Lacks kind (tokens ++ rest))
    (inside : kind ≠ .endOfInput) (nextReads : Reads shape (next false) tokens value rest) :
    Reads shape (Parser.check kind >>= next) tokens value rest :=
  .check inside (fun errors nextId => decide_eq_false (lacks.peek inside errors nextId)) nextReads

end Tokens

/-! ## Simple statements -/

theorem stops_of_semicolon {semicolon : Token} {following : List Token}
    (semicolonKind : semicolon.kind = .punct .semicolon) :
    Stops .assignment (semicolon :: following) := by
  rw [stops_cons, semicolonKind]
  rfl

theorem stops_of_rightParen {closing : Token} {following : List Token}
    (closingKind : closing.kind = .punct .rightParen) :
    Stops .assignment (closing :: following) := by
  rw [stops_cons, closingKind]
  rfl

/-- An expression starts with no token that starts none. -/
theorem lacks_of_derives {tokens : List Token} {expr : Expr} {kind : TokenKind}
    (derived : Derives .assignment tokens expr) (startsNone : startsExpression kind = false)
    (following : List Token) :
    Lacks kind (tokens ++ following) := by
  obtain ⟨first, later, rfl, starts, -⟩ := derived.head
  refine lacks_cons ?_
  intro same
  rw [same, startsNone] at starts
  cases starts

variable {budget : Nat}

theorem present_complete {tokens : List Token} {expr : Expr}
    (derived : Derives .assignment tokens expr) (enough : tokens.length ≤ budget)
    (stops : Stops .assignment rest) :
    Reads (Option.map Expr.shape) (some <$> expression budget) tokens (some expr) rest :=
  .map some (expression_complete derived enough stops) fun _ same => congrArg some same

/-- A variable declaration behind its keyword. -/
theorem varDeclaration_complete {keyword : Token} {tokens : List Token} {stmt : Stmt}
    (derived : VarDeclaration (keyword :: tokens) stmt) (enough : tokens.length ≤ budget) :
    Reads Stmt.shape (varDeclaration (expression budget)) tokens stmt rest := by
  rw [varDeclaration]
  cases derived with
  | plain _ nameKind semicolonKind =>
      refine .expectName nameKind (.skip_lacks (lacks_cons ?_) (by decide) ?_)
      · rw [semicolonKind]
        decide
      · exact .expect semicolonKind (by decide) (.pure rfl)
  | initialized _ nameKind equalsKind derived semicolonKind =>
      simp only [List.length_cons, List.length_append] at enough
      refine .expectName nameKind (.skip equalsKind (by decide) ?_)
      refine .bind (present_complete derived (by omega) (stops_of_semicolon semicolonKind)) ?_
      intro initializer same
      refine .expect semicolonKind (by decide) (.pure ?_)
      rw [Stmt.shape_var, Stmt.shape_var, same]

theorem expressionStatement_complete {tokens : List Token} {stmt : Stmt}
    (derived : ExpressionStatement tokens stmt) (enough : tokens.length ≤ budget) :
    Reads Stmt.shape (expressionStatement (expression budget)) tokens stmt rest := by
  rw [expressionStatement]
  obtain ⟨derived, semicolonKind⟩ := derived
  rw [List.length_append] at enough
  refine .bind (expression_complete derived (by omega) (stops_of_semicolon semicolonKind)) ?_
  intro value same
  refine .expect semicolonKind (by decide) (.pure ?_)
  rw [Stmt.shape_expression, Stmt.shape_expression, same]

theorem printStatement_complete {tokens : List Token} {semicolon : Token} {value : Expr}
    (derived : Derives .assignment tokens value) (semicolonKind : semicolon.kind = .punct .semicolon)
    (enough : tokens.length ≤ budget) :
    Reads Stmt.shape (printStatement (expression budget)) (tokens ++ [semicolon]) (.print value)
      rest := by
  rw [printStatement]
  refine .bind (expression_complete derived enough (stops_of_semicolon semicolonKind)) ?_
  intro result same
  refine .expect semicolonKind (by decide) (.pure ?_)
  rw [Stmt.shape_print, Stmt.shape_print, same]

/-- An optional expression is read up to the token that closes it. -/
theorem unlessNext_complete {tokens : List Token} {closing : Token} {kind : TokenKind}
    {value : Option Expr} (derived : DerivesOptional tokens value) (closingKind : closing.kind = kind)
    (inside : kind ≠ .endOfInput) (startsNone : startsExpression kind = false)
    (stops : Stops .assignment (closing :: rest)) (enough : tokens.length ≤ budget) :
    Reads (Option.map Expr.shape) (unlessNext kind (expression budget)) tokens value
      (closing :: rest) := by
  rw [unlessNext]
  cases derived with
  | absent => exact .check inside (fun _ _ => decide_eq_true closingKind) (.pure rfl)
  | present derived =>
      exact .check_lacks (lacks_of_derives derived startsNone _) inside
        (present_complete derived enough stops)

theorem returnStatement_complete {tokens : List Token} {semicolon : Token} {line : Nat}
    {value : Option Expr} (derived : DerivesOptional tokens value)
    (semicolonKind : semicolon.kind = .punct .semicolon) (enough : tokens.length ≤ budget) :
    Reads Stmt.shape (returnStatement (expression budget) line) (tokens ++ [semicolon])
      (.return_ line value) rest := by
  rw [returnStatement]
  refine .bind (unlessNext_complete derived semicolonKind (by decide) (by decide)
    (stops_of_semicolon semicolonKind) enough) ?_
  intro result same
  refine .expect semicolonKind (by decide) (.pure ?_)
  rw [Stmt.shape_return, Stmt.shape_return, same]

/-! ## Statements with parts -/

section Parts

variable {statement : Parser Stmt} {declaration : Parser (Option Stmt)}

/-- A condition in parentheses is read before what follows it. -/
theorem condition_complete {opening closing : Token} {tested last : List Token} {condition : Expr}
    {openingFault closingFault : SyntaxFault} {next : Expr → Parser α} {value : α}
    (openingKind : opening.kind = .punct .leftParen)
    (derived : Derives .assignment tested condition) (enough : tested.length ≤ budget)
    (closingKind : closing.kind = .punct .rightParen)
    (nextReads : ∀ test, test.shape = condition.shape →
      Reads shape (next test) last value rest) :
    Reads shape
      (expect (.punct .leftParen) openingFault >>= fun _ =>
        expression budget >>= fun test =>
          expect (.punct .rightParen) closingFault >>= fun _ => next test)
      (opening :: (tested ++ closing :: last)) value rest := by
  refine .expect openingKind (by decide) ?_
  refine .bind (expression_complete derived enough (stops_of_rightParen closingKind)) ?_
  intro test testSame
  exact .expect closingKind (by decide) (nextReads test testSame)

theorem ifThen_complete {opening closing : Token} {tested branch : List Token} {condition : Expr}
    {thenBranch : Stmt} (openingKind : opening.kind = .punct .leftParen)
    (derived : Derives .assignment tested condition) (enough : tested.length ≤ budget)
    (closingKind : closing.kind = .punct .rightParen)
    (branchReads : Reads Stmt.shape statement branch thenBranch rest) (noElse : NoElse rest) :
    Reads Stmt.shape (ifStatement (expression budget) statement)
      (opening :: (tested ++ closing :: branch)) (.if_ condition thenBranch none) rest := by
  rw [ifStatement]
  refine condition_complete openingKind derived enough closingKind ?_
  intro test testSame
  rw [← List.append_nil branch]
  refine .bind branchReads ?_
  intro result branchSame
  refine .skip_lacks noElse (by decide) (.pure ?_)
  rw [Stmt.shape_if, Stmt.shape_if, testSame, branchSame]

theorem ifThenElse_complete {opening closing otherwise : Token}
    {tested branch alternative : List Token} {condition : Expr} {thenBranch elseBranch : Stmt}
    (openingKind : opening.kind = .punct .leftParen)
    (derived : Derives .assignment tested condition) (enough : tested.length ≤ budget)
    (closingKind : closing.kind = .punct .rightParen)
    (branchReads :
      Reads Stmt.shape statement branch thenBranch (otherwise :: (alternative ++ rest)))
    (otherwiseKind : otherwise.kind = .keyword .else_)
    (alternativeReads : Reads Stmt.shape statement alternative elseBranch rest) :
    Reads Stmt.shape (ifStatement (expression budget) statement)
      (opening :: (tested ++ closing :: (branch ++ otherwise :: alternative)))
      (.if_ condition thenBranch (some elseBranch)) rest := by
  rw [ifStatement]
  refine condition_complete openingKind derived enough closingKind ?_
  intro test testSame
  refine .bind branchReads ?_
  intro result branchSame
  have alternativeSome :
      Reads (Option.map Stmt.shape) (some <$> statement) alternative (some elseBranch) rest :=
    .map some alternativeReads fun _ same => congrArg some same
  refine .skip otherwiseKind (by decide) ?_
  rw [← List.append_nil alternative]
  refine .bind alternativeSome ?_
  intro other otherSame
  refine .pure ?_
  rw [Stmt.shape_if, Stmt.shape_if, testSame, branchSame, otherSame]

theorem whileStatement_complete {opening closing : Token} {tested last : List Token}
    {condition : Expr} {body : Stmt} (openingKind : opening.kind = .punct .leftParen)
    (derived : Derives .assignment tested condition) (enough : tested.length ≤ budget)
    (closingKind : closing.kind = .punct .rightParen)
    (bodyReads : Reads Stmt.shape statement last body rest) :
    Reads Stmt.shape (whileStatement (expression budget) statement)
      (opening :: (tested ++ closing :: last)) (.while_ condition body) rest := by
  rw [whileStatement]
  refine condition_complete openingKind derived enough closingKind ?_
  intro test testSame
  rw [← List.append_nil last]
  refine .bind bodyReads ?_
  intro result bodySame
  refine .pure ?_
  rw [Stmt.shape_while, Stmt.shape_while, testSame, bodySame]

theorem forInitializer_complete {tokens : List Token} {initializer : Option Stmt}
    (derived : ForInitializer tokens initializer) (enough : tokens.length ≤ budget) :
    Reads (Option.map Stmt.shape) (forInitializer (expression budget)) tokens initializer rest := by
  rw [forInitializer]
  cases derived with
  | absent semicolonKind => exact .skip semicolonKind (by decide) (.pure rfl)
  | declaration declared =>
      obtain ⟨keyword, later, rfl, keywordKind⟩ := declared.head
      rw [List.length_cons] at enough
      refine .skip_lacks (lacks_cons (by rw [keywordKind]; decide)) (by decide) ?_
      refine .skip keywordKind (by decide) ?_
      exact .map some (varDeclaration_complete declared (by omega)) fun _ same =>
        congrArg some same
  | expression stated =>
      have lacks : ∀ kind, startsExpression kind = false → Lacks kind (tokens ++ rest) := by
        intro kind startsNone
        obtain ⟨derived, -⟩ := stated
        rw [List.append_assoc]
        exact lacks_of_derives derived startsNone _
      refine .skip_lacks (lacks _ (by decide)) (by decide) ?_
      refine .skip_lacks (lacks _ (by decide)) (by decide) ?_
      exact .map some (expressionStatement_complete stated enough) fun _ same =>
        congrArg some same

theorem lowerFor_shape {initializer otherInitializer : Option Stmt}
    {condition otherCondition increment otherIncrement : Option Expr} {body otherBody : Stmt}
    (initializerSame : initializer.map Stmt.shape = otherInitializer.map Stmt.shape)
    (conditionSame : condition.map Expr.shape = otherCondition.map Expr.shape)
    (incrementSame : increment.map Expr.shape = otherIncrement.map Expr.shape)
    (bodySame : body.shape = otherBody.shape) :
    (lowerFor initializer condition increment body).shape =
      (lowerFor otherInitializer otherCondition otherIncrement otherBody).shape := by
  have testSame : (condition.getD (.literal (.bool true))).shape =
      (otherCondition.getD (.literal (.bool true))).shape := by
    cases condition <;> cases otherCondition <;> simp_all
  cases initializer <;> cases otherInitializer <;> cases increment <;> cases otherIncrement <;>
    simp_all [lowerFor, Stmt.shape_while, Stmt.shape_block, Stmt.shape_expression]

theorem forStatement_complete {opening semicolon closing : Token}
    {first second third last : List Token} {initializer : Option Stmt}
    {condition increment : Option Expr} {body : Stmt}
    (openingKind : opening.kind = .punct .leftParen)
    (initializerDerived : ForInitializer first initializer)
    (conditionDerived : DerivesOptional second condition)
    (semicolonKind : semicolon.kind = .punct .semicolon)
    (incrementDerived : DerivesOptional third increment)
    (closingKind : closing.kind = .punct .rightParen)
    (bodyReads : Reads Stmt.shape statement last body rest)
    (firstEnough : first.length ≤ budget) (secondEnough : second.length ≤ budget)
    (thirdEnough : third.length ≤ budget) :
    Reads Stmt.shape (forStatement (expression budget) statement)
      (opening :: (first ++ (second ++ semicolon :: (third ++ closing :: last))))
      (lowerFor initializer condition increment body) rest := by
  rw [forStatement]
  refine .expect openingKind (by decide) ?_
  refine .bind (forInitializer_complete initializerDerived firstEnough) ?_
  intro firstResult firstSame
  refine .bind (unlessNext_complete conditionDerived semicolonKind (by decide) (by decide)
    (stops_of_semicolon semicolonKind) secondEnough) ?_
  intro secondResult secondSame
  refine .expect semicolonKind (by decide) ?_
  refine .bind (unlessNext_complete incrementDerived closingKind (by decide) (by decide)
    (stops_of_rightParen closingKind) thirdEnough) ?_
  intro thirdResult thirdSame
  refine .expect closingKind (by decide) ?_
  rw [← List.append_nil last]
  refine .bind bodyReads ?_
  intro bodyResult bodySame
  refine .pure ?_
  rw [forLoop_eq_lowerFor]
  exact lowerFor_shape firstSame secondSame thirdSame bodySame

/-! ## Blocks and declarations -/

/-- A declaration starts with no token that starts none. -/
theorem lacks_of_opens {clause : Clause} {tokens : List Token} {kind : TokenKind}
    (opens : Opens clause tokens) (opensNone : opensDeclaration kind = false)
    (following : List Token) :
    Lacks kind (tokens ++ following) := by
  obtain ⟨first, later, rfl, opensFirst, -⟩ := opens
  refine lacks_cons ?_
  intro same
  rw [same, opensNone] at opensFirst
  cases opensFirst

theorem lacks_of_opensStatement {tokens : List Token} {kind : TokenKind}
    (opens : Opens .statement tokens) (opensNone : opensStatement kind = false)
    (following : List Token) :
    Lacks kind (tokens ++ following) := by
  obtain ⟨first, later, rfl, -, opensFirst, -⟩ := opens
  refine lacks_cons ?_
  intro same
  rw [← same, opensFirst rfl] at opensNone
  cases opensNone

/-- A parser that looks for a closing brace does not find one before a
declaration. -/
theorem Reads.beforePart {clause : Clause} {tokens more : List Token} {value : α}
    {close next : Parser α} (opens : Opens clause tokens)
    (nextReads : Reads shape next (tokens ++ more) value rest) :
    Reads shape
      (Parser.check (.punct .rightBrace) >>= fun closes =>
        Parser.isAtEnd >>= fun ended => if (closes || ended) = true then close else next)
      (tokens ++ more) value rest := by
  have lacksBrace : Lacks (.punct .rightBrace) (tokens ++ more ++ rest) := by
    rw [List.append_assoc]
    exact lacks_of_opens opens (by decide) _
  obtain ⟨first, later, rfl, opensFirst, -⟩ := opens
  have before : ∀ errors nextId,
      (ParserState.mk (first :: later ++ more ++ rest) errors nextId).isAtEnd = false := by
    intro errors nextId
    refine decide_eq_false fun atEnd => ?_
    rw [List.cons_append, List.cons_append, ParserState.peek_cons] at atEnd
    rw [atEnd] at opensFirst
    cases opensFirst
  exact .check_lacks lacksBrace (by decide) (.isAtEnd before nextReads)

theorem Reads.atBrace {closed : Token} {value : α} {close next : Parser α}
    (closedKind : closed.kind = .punct .rightBrace)
    (closeReads : Reads shape close [closed] value rest) :
    Reads shape
      (Parser.check (.punct .rightBrace) >>= fun closes =>
        Parser.isAtEnd >>= fun ended => if (closes || ended) = true then close else next)
      [closed] value rest := by
  have before : ∀ errors nextId,
      (ParserState.mk ([closed] ++ rest) errors nextId).isAtEnd = false := by
    intro errors nextId
    refine decide_eq_false fun atEnd => ?_
    rw [List.cons_append, ParserState.peek_cons, closedKind] at atEnd
    cases atEnd
  exact .check (by decide) (fun _ _ => decide_eq_true closedKind) (.isAtEnd before closeReads)

/-- What has to be known of the parser for a part of a body. -/
def ReadsPart (declaration : Parser (Option Stmt)) (part : Sentence) : Prop :=
  Opens .declaration part.tokens ∧
    ∀ following, (part.isOpen = true → NoElse following) →
      Reads (Option.map Stmt.shape) declaration part.tokens (some part.tree) following

/-- No part of a body starts with `else`. -/
theorem noElse_of_parts {body : List Sentence} {following : List Token}
    (bodyReads : ∀ part ∈ body, ReadsPart declaration part) (noElse : NoElse following) :
    NoElse (body.flatMap Sentence.tokens ++ following) := by
  cases body with
  | nil => exact noElse
  | cons first later =>
      rw [List.flatMap_cons, List.append_assoc]
      exact lacks_of_opens (bodyReads first List.mem_cons_self).1 (by decide) _

theorem blockBody_complete {body : List Sentence} {closed : Token}
    (bodyReads : ∀ part ∈ body, ReadsPart declaration part)
    (closedKind : closed.kind = .punct .rightBrace) (enough : body.length < budget)
    (done : List Stmt) :
    Reads (List.map Stmt.shape) (blockBody declaration budget done)
      (body.flatMap Sentence.tokens ++ [closed]) (done.reverse ++ body.map Sentence.tree)
      rest := by
  induction body generalizing budget done with
  | nil =>
      obtain ⟨remaining, rfl⟩ : ∃ remaining, budget = remaining + 1 :=
        ⟨budget - 1, by omega⟩
      rw [blockBody]
      refine .atBrace closedKind ?_
      exact .expect closedKind (by decide) (.pure (by simp))
  | cons first later inductionHypothesis =>
      rw [List.length_cons] at enough
      obtain ⟨remaining, rfl⟩ : ∃ remaining, budget = remaining + 1 :=
        ⟨budget - 1, by omega⟩
      obtain ⟨opens, firstReads⟩ := bodyReads first List.mem_cons_self
      have laterReads : ∀ part ∈ later, ReadsPart declaration part :=
        fun part member => bodyReads part (List.mem_cons_of_mem _ member)
      have closedNoElse : NoElse (closed :: rest) :=
        lacks_cons (by rw [closedKind]; decide)
      rw [blockBody, List.flatMap_cons, List.append_assoc]
      refine .beforePart opens (.bind (firstReads _ fun _ => ?_) ?_)
      · rw [List.append_assoc]
        exact noElse_of_parts laterReads closedNoElse
      · intro found same
        obtain ⟨stmt, rfl, stmtSame⟩ : ∃ stmt, found = some stmt ∧ stmt.shape = first.tree.shape := by
          cases found with
          | none => cases same
          | some stmt => exact ⟨stmt, rfl, Option.some.inj same⟩
        have enoughLater : later.length < remaining := by omega
        intro errors nextId
        obtain ⟨stmts, finalId, parsed, shapes⟩ :=
          inductionHypothesis laterReads enoughLater (stmt :: done) errors nextId
        refine ⟨stmts, finalId, parsed, ?_⟩
        rw [shapes]
        simp [stmtSame]

/-- No more parts than tokens. -/
theorem length_le_flatMap {body : List Sentence}
    (bodyReads : ∀ part ∈ body, ReadsPart declaration part) :
    body.length ≤ (body.flatMap Sentence.tokens).length := by
  induction body with
  | nil => exact Nat.le_refl _
  | cons first later inductionHypothesis =>
      obtain ⟨token, others, tokensEquality, -⟩ := (bodyReads first List.mem_cons_self).1
      have fewer := inductionHypothesis fun part member =>
        bodyReads part (List.mem_cons_of_mem _ member)
      rw [List.flatMap_cons, List.length_append, List.length_cons, tokensEquality,
        List.length_cons]
      omega

/-- Parameters are read up to the closing parenthesis. -/
theorem parameters_complete {params joined : List Token} {closing : Token}
    (bounded : params.length ≤ Grammar.maxArity)
    (names : ∀ param ∈ params, param.kind = .identifier)
    (separated : Separated (params.map ([·])) joined)
    (closingKind : closing.kind = .punct .rightParen) (enough : joined.length ≤ budget) :
    Reads id (parameters budget) joined (params.map Token.toName) (closing :: rest) := by
  rw [parameters]
  cases params with
  | nil =>
      obtain ⟨⟩ := separated
      exact .check (by decide) (fun _ _ => decide_eq_true closingKind) (.pure rfl)
  | cons first later =>
      let items : List (List Token × Name) :=
        (first :: later).map fun param => ([param], param.toName)
      have itemTokens : items.map Prod.fst = (first :: later).map ([·]) := by
        simp [items]
      have itemNames : items.map Prod.snd = (first :: later).map Token.toName := by
        simp [items]
      have itemReads : ∀ pair ∈ items, ∀ following, True →
          Reads id (expectName .expectParameterName) pair.1 pair.2 following := by
        intro pair member following _ errors nextId
        obtain ⟨param, paramMember, rfl⟩ := List.mem_map.mp member
        exact ⟨_, _, expectName_mk_cons (names param paramMember), rfl⟩
      have fewer : items.length ≤ joined.length := by
        have counted := separated.count_le (by simp)
        simpa [items] using counted
      have room : ([] : List Name).length + items.length ≤ Grammar.maxArity := by
        simpa [items] using bounded
      have readItems : Reads (List.map id) _ joined _ (closing :: rest) :=
        commaSeparated_complete .tooManyParameters (fun _ => trivial) (itemTokens ▸ separated)
          (by simp [items]) itemReads (Nat.le_trans fewer enough) room trivial
          (by rintro token ⟨⟩; rw [closingKind]; decide)
      rw [List.map_id_fun, itemNames] at readItems
      have lacks : Lacks (.punct .rightParen) (joined ++ closing :: rest) := by
        have firstKind := names first List.mem_cons_self
        cases later with
        | nil =>
            obtain ⟨⟩ := separated
            exact lacks_cons (by rw [firstKind]; decide)
        | cons second more =>
            obtain ⟨comma, laterJoined, -, -, rfl⟩ := separated.cons_cons
            exact lacks_cons (by rw [firstKind]; decide)
      exact .check_lacks lacks (by decide) readItems

end Parts

/-! ## Clauses -/

/-- How the tokens of a clause are read, with a budget that covers them. -/
def ReadsClause : Clause → List Token → Stmt → Bool → Prop
  | .declaration, tokens, stmt, isOpen =>
      ∀ budget rest, tokens.length ≤ budget + 1 → (isOpen = true → NoElse rest) →
        Reads Stmt.shape (declarationOf (partsOf budget)) tokens stmt rest
  | .statement, tokens, stmt, isOpen =>
      ∀ budget rest, tokens.length ≤ budget + 1 → (isOpen = true → NoElse rest) →
        Reads Stmt.shape (statementOf (partsOf budget)) tokens stmt rest
  | .function, tokens, stmt, _ =>
      ∀ budget rest role, tokens.length ≤ budget + 1 →
        Reads Stmt.shape (Stmt.function <$> functionDeclaration (partsOf budget) role) tokens stmt
          rest

/-- A nested statement is read with a smaller budget. -/
theorem ReadsClause.statement {tokens : List Token} {stmt : Stmt} {isOpen : Bool}
    (clause : ReadsClause .statement tokens stmt isOpen) (nonempty : tokens ≠ [])
    (enough : tokens.length ≤ budget) (follows : isOpen = true → NoElse rest) :
    Reads Stmt.shape (Parser.statement budget) tokens stmt rest := by
  have taken := List.length_pos_iff.mpr nonempty
  obtain ⟨later, rfl⟩ : ∃ later, budget = later + 1 := ⟨budget - 1, by omega⟩
  rw [statement_succ]
  exact clause later rest enough follows

/-- A declaration inside a body is read without recovery. -/
theorem ReadsClause.part {part : Sentence} (opens : Opens .declaration part.tokens)
    (clause : ReadsClause .declaration part.tokens part.tree part.isOpen)
    (enough : part.tokens.length ≤ budget) :
    ReadsPart (Parser.declaration budget) part := by
  refine ⟨opens, ?_⟩
  intro following follows errors nextId
  obtain ⟨first, others, tokensEquality, -⟩ := opens
  obtain ⟨later, rfl⟩ : ∃ later, budget = later + 1 := by
    rw [tokensEquality, List.length_cons] at enough
    exact ⟨budget - 1, by omega⟩
  obtain ⟨stmt, finalId, parsed, shapes⟩ := clause later following enough follows errors nextId
  refine ⟨some stmt, finalId, ?_, congrArg some shapes⟩
  rw [declaration_succ, recovering, parsed]

theorem length_le_of_mem_flatMap {β : Type} {tokensOf : β → List Token} {part : β}
    {parts : List β} (member : part ∈ parts) :
    (tokensOf part).length ≤ (parts.flatMap tokensOf).length := by
  obtain ⟨before, after, rfl⟩ := List.append_of_mem member
  simp only [List.flatMap_append, List.flatMap_cons, List.length_append]
  omega

/-- The body of a block or a function is read up to its closing brace. -/
theorem body_complete {body : List Sentence} {closed : Token}
    (derived : ∀ part ∈ body, DerivesStmt true .declaration part.tokens part.tree part.isOpen)
    (clauses : ∀ part ∈ body, ReadsClause .declaration part.tokens part.tree part.isOpen)
    (closedKind : closed.kind = .punct .rightBrace)
    (enough : (body.flatMap Sentence.tokens).length ≤ budget) :
    Reads (List.map Stmt.shape) (blockBody (Parser.declaration budget) (budget + 1) [])
      (body.flatMap Sentence.tokens ++ [closed]) (body.map Sentence.tree) rest := by
  have bodyReads : ∀ part ∈ body, ReadsPart (Parser.declaration budget) part :=
    fun part member =>
      (clauses part member).part (derived part member).head
        (Nat.le_trans (length_le_of_mem_flatMap member) enough)
  have fewer := length_le_flatMap bodyReads
  exact blockBody_complete bodyReads closedKind (by omega) []

theorem functionDeclaration_complete {name opening closing opened closed : Token}
    {joined params : List Token} {body : List Sentence} (role : FunctionRole)
    (nameKind : name.kind = .identifier) (openingKind : opening.kind = .punct .leftParen)
    (bounded : params.length ≤ Grammar.maxArity)
    (names : ∀ param ∈ params, param.kind = .identifier)
    (separated : Separated (params.map ([·])) joined)
    (closingKind : closing.kind = .punct .rightParen)
    (openedKind : opened.kind = .punct .leftBrace)
    (derived : ∀ part ∈ body, DerivesStmt true .declaration part.tokens part.tree part.isOpen)
    (clauses : ∀ part ∈ body, ReadsClause .declaration part.tokens part.tree part.isOpen)
    (closedKind : closed.kind = .punct .rightBrace) (paramsEnough : joined.length ≤ budget)
    (bodyEnough : (body.flatMap Sentence.tokens).length ≤ budget) :
    Reads Stmt.functionShape (functionDeclaration (partsOf budget) role)
      (name :: opening ::
        (joined ++ closing :: opened :: (body.flatMap Sentence.tokens ++ [closed])))
      { name := name.toName, params := params.map Token.toName, body := body.map Sentence.tree }
      rest := by
  rw [functionDeclaration]
  refine .expectName nameKind (.expect openingKind (by decide) ?_)
  have joinedEnough : joined.length ≤ (partsOf budget).budget :=
    Nat.le_succ_of_le paramsEnough
  refine .bind (parameters_complete bounded names separated closingKind joinedEnough) ?_
  rintro paramNames rfl
  refine .expect closingKind (by decide) (.expect openedKind (by decide) ?_)
  rw [← List.append_nil (body.flatMap Sentence.tokens ++ [closed])]
  refine .bind (body_complete derived clauses closedKind bodyEnough) ?_
  intro stmts same
  refine .pure ?_
  rw [Stmt.functionShape_mk, Stmt.functionShape_mk, same]
  rfl

/-- Methods are read up to the closing brace of their class. -/
theorem methods_complete {declared : List (List Token × FunctionDecl)} {closing : Token}
    {remaining : Nat}
    (derived : ∀ method ∈ declared,
      DerivesStmt true .function method.1 (.function method.2) false)
    (clauses : ∀ method ∈ declared, ReadsClause .function method.1 (.function method.2) false)
    (closingKind : closing.kind = .punct .rightBrace)
    (enough : (declared.flatMap Prod.fst).length ≤ budget)
    (enoughMethods : (declared.flatMap Prod.fst).length < remaining) (done : List FunctionDecl) :
    Reads (List.map Stmt.functionShape) (methods (partsOf budget) remaining done)
      (declared.flatMap Prod.fst ++ [closing]) (done.reverse ++ declared.map Prod.snd) rest := by
  induction declared generalizing remaining done with
  | nil =>
      obtain ⟨later, rfl⟩ : ∃ later, remaining = later + 1 := ⟨remaining - 1, by omega⟩
      rw [methods]
      refine .atBrace closingKind ?_
      exact .expect closingKind (by decide) (.pure (by simp))
  | cons first others inductionHypothesis =>
      have firstDerived := derived first List.mem_cons_self
      have taken := List.length_pos_iff.mpr firstDerived.tokens_ne_nil
      rw [List.flatMap_cons, List.length_append] at enough enoughMethods
      obtain ⟨later, rfl⟩ : ∃ later, remaining = later + 1 := ⟨remaining - 1, by omega⟩
      have firstReads := clauses first List.mem_cons_self budget
        ((others.flatMap Prod.fst ++ [closing]) ++ rest) .method (by omega)
      have methodReads : Reads Stmt.functionShape (functionDeclaration (partsOf budget) .method)
          first.1 first.2 ((others.flatMap Prod.fst ++ [closing]) ++ rest) := by
        intro errors nextId
        obtain ⟨stmt, finalId, parsed, shapes⟩ := firstReads errors nextId
        obtain ⟨method, methodParsed, rfl⟩ := map_eq_ok_iff.mp parsed
        rw [Stmt.shape_function, Stmt.shape_function] at shapes
        exact ⟨method, finalId, methodParsed, Stmt.function.inj shapes⟩
      rw [methods, List.flatMap_cons, List.append_assoc]
      refine .beforePart firstDerived.head (.bind methodReads ?_)
      intro method same
      have enoughLater : (others.flatMap Prod.fst).length < later := by omega
      intro errors nextId
      obtain ⟨found, finalId, parsed, shapes⟩ :=
        inductionHypothesis (fun method member => derived method (List.mem_cons_of_mem _ member))
          (fun method member => clauses method (List.mem_cons_of_mem _ member)) (by omega)
          enoughLater (method :: done) errors nextId
      refine ⟨found, finalId, parsed, ?_⟩
      rw [shapes]
      simp [same]

theorem superclassClause_complete {tokens : List Token} {superclass : Option Expr}
    (derived : SuperclassClause tokens superclass) (lacks : Lacks (.punct .less) rest) :
    Reads (Option.map Expr.shape) superclassClause tokens superclass rest := by
  rw [superclassClause]
  cases derived with
  | absent => exact .skip_lacks lacks (by decide) (.pure rfl)
  | present id lessKind nameKind =>
      refine .skip lessKind (by decide) (.expectName nameKind ?_)
      intro errors nextId
      exact ⟨_, _, rfl, rfl⟩

theorem readsClause_class {keyword name opening closing : Token} {clause : List Token}
    {superclass : Option Expr} {declared : List (List Token × FunctionDecl)}
    (keywordKind : keyword.kind = .keyword .class_) (nameKind : name.kind = .identifier)
    (superclassDerived : SuperclassClause clause superclass)
    (openingKind : opening.kind = .punct .leftBrace)
    (derived : ∀ method ∈ declared,
      DerivesStmt true .function method.1 (.function method.2) false)
    (clauses : ∀ method ∈ declared, ReadsClause .function method.1 (.function method.2) false)
    (closingKind : closing.kind = .punct .rightBrace) :
    ReadsClause .declaration
      (keyword :: name :: (clause ++ opening :: (declared.flatMap Prod.fst ++ [closing])))
      (.class_ name.toName superclass (declared.map Prod.snd)) false := by
  intro budget rest enough _
  simp only [List.length_cons, List.length_append, List.length_nil] at enough
  rw [declarationOf]
  refine .skip keywordKind (by decide) ?_
  rw [if_pos rfl, classDeclaration]
  refine .expectName nameKind ?_
  refine .bind (superclassClause_complete superclassDerived
    (lacks_cons (by rw [openingKind]; decide))) ?_
  intro superclassResult superclassSame
  refine .expect openingKind (by decide) ?_
  rw [← List.append_nil (declared.flatMap Prod.fst ++ [closing])]
  have enoughMethods : (declared.flatMap Prod.fst).length < budget + 1 := by omega
  refine .bind (methods_complete derived clauses closingKind (by omega) enoughMethods []) ?_
  intro methodsResult methodsSame
  refine .pure ?_
  rw [Stmt.shape_class, Stmt.shape_class, superclassSame, methodsSame, List.reverse_nil,
    List.nil_append]

/-- A statement that starts with an expression is one. -/
theorem statementOf_of_startsExpression {parts : Parts} {token : Token} {tokens : List Token}
    {stmt : Stmt} (starts : startsExpression token.kind = true)
    (reads :
      Reads Stmt.shape (expressionStatement parts.expression) (token :: tokens) stmt rest) :
    Reads Stmt.shape (statementOf parts) (token :: tokens) stmt rest := by
  rw [statementOf]
  refine .peek ?_
  split
  case h_7 => exact reads
  all_goals
    rename_i kind
    rw [kind] at starts
    cases starts

/-- The tokens of every statement are read. -/
theorem reads_of_derivesStmt {clause : Clause} {tokens : List Token} {stmt : Stmt}
    {isOpen : Bool} (derived : DerivesStmt true clause tokens stmt isOpen) :
    ReadsClause clause tokens stmt isOpen := by
  induction derived with
  | classDeclaration keywordKind nameKind superclassDerived openingKind derived closingKind
      clauses =>
      exact readsClause_class keywordKind nameKind superclassDerived openingKind derived clauses
        closingKind
  | functionDeclaration keywordKind _ clause =>
      intro budget rest enough _
      rw [List.length_cons] at enough
      rw [declarationOf]
      refine .skip_lacks (lacks_cons (by rw [keywordKind]; decide)) (by decide) ?_
      refine .skip keywordKind (by decide) ?_
      exact clause budget rest .function (by omega)
  | varDeclaration declared =>
      intro budget rest enough _
      obtain ⟨keyword, later, rfl, keywordKind⟩ := declared.head
      rw [List.length_cons] at enough
      rw [declarationOf]
      refine .skip_lacks (lacks_cons (by rw [keywordKind]; decide)) (by decide) ?_
      refine .skip_lacks (lacks_cons (by rw [keywordKind]; decide)) (by decide) ?_
      refine .skip keywordKind (by decide) ?_
      exact varDeclaration_complete declared (by omega)
  | noDeclaration derived clause =>
      intro budget rest enough follows
      have opens := derived.head
      rw [declarationOf]
      refine .skip_lacks (lacks_of_opensStatement opens (by decide) _) (by decide) ?_
      refine .skip_lacks (lacks_of_opensStatement opens (by decide) _) (by decide) ?_
      refine .skip_lacks (lacks_of_opensStatement opens (by decide) _) (by decide) ?_
      exact clause budget rest enough follows
  | function nameKind openingKind bounded names separated closingKind openedKind derived
      closedKind clauses =>
      intro budget rest role enough
      simp only [List.length_cons, List.length_append, List.length_nil] at enough
      refine .map Stmt.function (functionDeclaration_complete role nameKind openingKind bounded
        names separated closingKind openedKind derived clauses closedKind (by omega) (by omega)) ?_
      intro declaration same
      rw [Stmt.shape_function, Stmt.shape_function, same]
  | expression stated =>
      intro budget rest enough _
      obtain ⟨first, later, rfl, starts⟩ := stated.head
      exact statementOf_of_startsExpression starts (expressionStatement_complete stated enough)
  | forLoop keywordKind openingKind initializerDerived conditionDerived semicolonKind
      incrementDerived closingKind bodyDerived clause =>
      intro budget rest enough follows
      simp only [List.length_cons, List.length_append] at enough
      rw [statementOf]
      refine .announced keywordKind (by decide) (by rw [keywordKind]) ?_
      exact forStatement_complete openingKind initializerDerived conditionDerived semicolonKind
        incrementDerived closingKind
        (clause.statement bodyDerived.tokens_ne_nil (by omega) follows) (by omega) (by omega)
        (by omega)
  | ifThen keywordKind openingKind derived closingKind branchDerived clause =>
      intro budget rest enough follows
      simp only [List.length_cons, List.length_append] at enough
      have noElse := follows rfl
      rw [statementOf]
      refine .announced keywordKind (by decide) (by rw [keywordKind]) ?_
      exact ifThen_complete openingKind derived (by omega) closingKind
        (clause.statement branchDerived.tokens_ne_nil (by omega) fun _ => noElse) noElse
  | ifThenElse keywordKind openingKind derived closingKind branchDerived closedBranch
      otherwiseKind alternativeDerived clause alternativeClause =>
      intro budget rest enough follows
      simp only [List.length_cons, List.length_append] at enough
      rw [statementOf]
      refine .announced keywordKind (by decide) (by rw [keywordKind]) ?_
      exact ifThenElse_complete openingKind derived (by omega) closingKind
        (clause.statement branchDerived.tokens_ne_nil (by omega) fun isOpen => by
          rw [closedBranch rfl] at isOpen
          cases isOpen)
        otherwiseKind
        (alternativeClause.statement alternativeDerived.tokens_ne_nil (by omega) follows)
  | print keywordKind derived semicolonKind =>
      intro budget rest enough _
      simp only [List.length_cons, List.length_append] at enough
      rw [statementOf]
      refine .announced keywordKind (by decide) (by rw [keywordKind]) ?_
      exact printStatement_complete derived semicolonKind (by omega)
  | return_ keywordKind derived semicolonKind =>
      intro budget rest enough _
      simp only [List.length_cons, List.length_append] at enough
      rw [statementOf]
      refine .announced keywordKind (by decide) (by rw [keywordKind]) ?_
      exact returnStatement_complete derived semicolonKind (by omega)
  | whileLoop keywordKind openingKind derived closingKind bodyDerived clause =>
      intro budget rest enough follows
      simp only [List.length_cons, List.length_append] at enough
      rw [statementOf]
      refine .announced keywordKind (by decide) (by rw [keywordKind]) ?_
      exact whileStatement_complete openingKind derived (by omega) closingKind
        (clause.statement bodyDerived.tokens_ne_nil (by omega) follows)
  | block openedKind derived closedKind clauses =>
      intro budget rest enough _
      simp only [List.length_cons, List.length_append, List.length_nil] at enough
      rw [statementOf]
      refine .announced openedKind (by decide) (by rw [openedKind]) ?_
      rw [← List.append_nil (_ ++ [_])]
      refine .bind (body_complete derived clauses closedKind (by omega)) ?_
      intro stmts same
      refine .pure ?_
      rw [Stmt.shape_block, Stmt.shape_block, same]

/-! ## Programs -/

theorem declarations_complete {declaration : Parser (Option Stmt)} {body : List Sentence}
    (bodyReads : ∀ part ∈ body, ReadsPart declaration part) (atEnd : AtEnd rest)
    (enough : body.length ≤ budget) (done : List Stmt) :
    Reads (List.map Stmt.shape) (declarations declaration budget done)
      (body.flatMap Sentence.tokens) (done.reverse ++ body.map Sentence.tree) rest := by
  induction body generalizing budget done with
  | nil =>
      cases budget with
      | zero => exact .pure (by simp)
      | succ budget =>
          rw [declarations]
          refine .isAtEnd (fun _ _ => decide_eq_true ?_) (.pure (by simp))
          cases rest with
          | nil => rfl
          | cons token rest => exact atEnd token rfl
  | cons first later inductionHypothesis =>
      rw [List.length_cons] at enough
      obtain ⟨remaining, rfl⟩ : ∃ remaining, budget = remaining + 1 :=
        ⟨budget - 1, by omega⟩
      obtain ⟨opens, firstReads⟩ := bodyReads first List.mem_cons_self
      have laterReads : ∀ part ∈ later, ReadsPart declaration part :=
        fun part member => bodyReads part (List.mem_cons_of_mem _ member)
      have noElse : NoElse rest := by
        intro token member kind
        rw [atEnd token member] at kind
        cases kind
      have notAtEnd : ∀ errors nextId, (ParserState.mk
          (first.tokens ++ later.flatMap Sentence.tokens ++ rest) errors nextId).isAtEnd =
            false := by
        intro errors nextId
        obtain ⟨token, others, tokensEquality, opensFirst, -⟩ := opens
        refine decide_eq_false ?_
        rw [tokensEquality, List.cons_append, List.cons_append, ParserState.peek_cons]
        intro kind
        rw [kind] at opensFirst
        cases opensFirst
      rw [declarations, List.flatMap_cons]
      refine .isAtEnd notAtEnd (.bind (firstReads _ fun _ => noElse_of_parts laterReads noElse) ?_)
      intro found same
      obtain ⟨stmt, rfl, stmtSame⟩ : ∃ stmt, found = some stmt ∧ stmt.shape = first.tree.shape := by
        cases found with
        | none => cases same
        | some stmt => exact ⟨stmt, rfl, Option.some.inj same⟩
      have enoughLater : later.length ≤ remaining := by omega
      intro errors nextId
      obtain ⟨stmts, finalId, parsed, shapes⟩ :=
        inductionHypothesis laterReads enoughLater (stmt :: done) errors nextId
      refine ⟨stmts, finalId, parsed, ?_⟩
      rw [shapes]
      simp [stmtSame]

end Parser

/-- A program of the grammar before the end of input is parsed into its tree. -/
theorem parseProgram_complete {before : List Token} {last : Token} {program : List Stmt}
    (derived : Grammar.DerivesProgram true before program) (isEnd : last.kind = .endOfInput)
    (nextId : UseId) :
    ∃ parsed finalId, parseProgram nextId (before ++ [last]) = (.ok parsed, finalId) ∧
      parsed.map Stmt.shape = program.map Stmt.shape := by
  obtain ⟨derived⟩ := derived
  rename_i body
  have atEnd : Parser.AtEnd [last] := by
    rintro token ⟨⟩
    exact isEnd
  have bodyReads : ∀ part ∈ body, Parser.ReadsPart
      (Parser.declaration (body.flatMap Grammar.Sentence.tokens ++ [last]).length) part := by
    intro part member
    have shorter : part.tokens.length ≤ (body.flatMap Grammar.Sentence.tokens).length :=
      Parser.length_le_of_mem_flatMap member
    refine (Parser.reads_of_derivesStmt (derived part member)).part (derived part member).head ?_
    rw [List.length_append]
    omega
  have enough : body.length ≤ (body.flatMap Grammar.Sentence.tokens ++ [last]).length := by
    have fewer := Parser.length_le_flatMap bodyReads
    rw [List.length_append]
    omega
  obtain ⟨parsed, finalId, result, shapes⟩ :=
    Parser.declarations_complete bodyReads atEnd enough [] #[] nextId
  refine ⟨parsed, finalId, ?_, shapes⟩
  rw [Parser.parseProgram_eq_read nextId List.getLast?_concat isEnd, Parser.read, result]
  rfl

end Lox
