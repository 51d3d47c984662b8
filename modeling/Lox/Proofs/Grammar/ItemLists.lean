import Lox.Parser.Basic
import Lox.Proofs.Grammar

/-!
# Lists of any length

The grammar with lists of arguments and parameters that may have any number of items.
Such a list is singled out, together with the tokens of its items; all others keep to
the limit.  No list is singled out inside the arguments of one that is.  Without lists
that are singled out, this is the grammar.  An `else` belongs to the nearest `if`.
-/

namespace Lox

namespace Grammar

/-! ## Lists that are singled out -/

/-- The two kinds of lists that have a limit. -/
inductive ListKind where
  | arguments
  | parameters

/-- What is wrong with too long a list. -/
def ListKind.fault : ListKind → SyntaxFault
  | .arguments => .tooManyArguments
  | .parameters => .tooManyParameters

/-- A list with the tokens of each of its items. -/
structure ItemList where
  kind : ListKind
  items : List (List Token)

namespace ItemList

/-- A fault at the first token of each item past the limit. -/
def reports (list : ItemList) : List SyntaxError :=
  (list.items.drop maxArity).map fun tokens => ⟨tokens.headD (.endOfInput 1), list.kind.fault⟩

theorem length_reports (list : ItemList) :
    list.reports.length = list.items.length - maxArity := by
  simp [reports]

theorem reports_eq_nil_iff {list : ItemList} :
    list.reports = [] ↔ list.items.length ≤ maxArity := by
  simp [reports]

end ItemList

/-- What is reported for the lists, one after the other. -/
def reportsOf (lists : List ItemList) : List SyntaxError :=
  lists.flatMap ItemList.reports

theorem reportsOf_nil : reportsOf [] = [] :=
  rfl

theorem reportsOf_singleton (list : ItemList) : reportsOf [list] = list.reports :=
  List.flatMap_singleton _ _

theorem reportsOf_append (lists more : List ItemList) :
    reportsOf (lists ++ more) = reportsOf lists ++ reportsOf more :=
  List.flatMap_append

/-- A list starts with its first item. -/
theorem Separated.exists_append {tokens whole : List Token} {later : List (List Token)}
    (separated : Separated (tokens :: later) whole) : ∃ more, whole = tokens ++ more := by
  cases separated with
  | single => exact ⟨[], (List.append_nil tokens).symm⟩
  | more => exact ⟨_, rfl⟩

/-- A part of a phrase or of a clause, with the lists that are singled out in it. -/
structure ListedPart (α : Type) where
  tokens : List Token
  tree : α
  lists : List ItemList

/-- A parameter. -/
def ListedPart.parameter (token : Token) : ListedPart Name :=
  ⟨[token], token.toName, []⟩

/-- A list with these items keeps to the limit, or it is singled out and no list in its
items is. -/
inductive SinglesOut {α : Type} (kind : ListKind) : List (ListedPart α) → List ItemList → Prop
  | bounded {parts : List (ListedPart α)} :
      parts.length ≤ maxArity →
      SinglesOut kind parts (parts.flatMap ListedPart.lists)
  | single {parts : List (ListedPart α)} :
      (∀ part ∈ parts, part.lists = []) →
      SinglesOut kind parts [⟨kind, parts.map ListedPart.tokens⟩]

/-! ## Expressions -/

/-- The tokens derive from the nonterminal with these lists singled out, and the
expression is the tree of that derivation. -/
inductive Lenient : Phrase → List Token → Expr → List ItemList → Prop
  | strict {phrase : Phrase} {tokens : List Token} {expr : Expr} :
      Derives phrase tokens expr →
      Lenient phrase tokens expr []
  | assign {name equals : Token} {tokens : List Token} {value : Expr} {lists : List ItemList}
      (id : UseId) :
      name.kind = .identifier →
      equals.kind = .punct .equal →
      Lenient .assignment tokens value lists →
      Lenient .assignment (name :: equals :: tokens) (.assign id name.toName value) lists
  | set {target tokens : List Token} {dot name equals : Token} {object value : Expr}
      {targetLists lists : List ItemList} :
      Lenient .call target object targetLists →
      dot.kind = .punct .dot →
      name.kind = .identifier →
      equals.kind = .punct .equal →
      Lenient .assignment tokens value lists →
      Lenient .assignment (target ++ dot :: name :: equals :: tokens)
        (.set object name.toName value) (targetLists ++ lists)
  | noAssignment {tokens : List Token} {expr : Expr} {lists : List ItemList} :
      Lenient (.tier .or) tokens expr lists →
      Lenient .assignment tokens expr lists
  | operand {tier : Tier} {tokens : List Token} {expr : Expr} {lists : List ItemList} :
      Lenient tier.operand tokens expr lists →
      Lenient (.tier tier) tokens expr lists
  | operation {tier : Tier} {before after : List Token} {operator : Token}
      {left right : Expr} {leftLists rightLists : List ItemList} :
      Lenient (.tier tier) before left leftLists →
      operator.kind ∈ tier.operators →
      Lenient tier.operand after right rightLists →
      Lenient (.tier tier) (before ++ operator :: after) (tier.node left operator right)
        (leftLists ++ rightLists)
  | unaryOperation {operator : Token} {tokens : List Token} {expr : Expr}
      {lists : List ItemList} :
      operator.kind = .punct .bang ∨ operator.kind = .punct .minus →
      Lenient .unary tokens expr lists →
      Lenient .unary (operator :: tokens) (.unary operator expr) lists
  | noOperation {tokens : List Token} {expr : Expr} {lists : List ItemList} :
      Lenient .call tokens expr lists →
      Lenient .unary tokens expr lists
  | invocation {callee joined : List Token} {opening closing : Token} {subject : Expr}
      {calleeLists lists : List ItemList} {arguments : List (ListedPart Expr)} :
      Lenient .call callee subject calleeLists →
      opening.kind = .punct .leftParen →
      (∀ argument ∈ arguments,
        Lenient .assignment argument.tokens argument.tree argument.lists) →
      SinglesOut .arguments arguments lists →
      Separated (arguments.map ListedPart.tokens) joined →
      closing.kind = .punct .rightParen →
      Lenient .call (callee ++ opening :: (joined ++ [closing]))
        (.call subject closing.line (arguments.map ListedPart.tree)) (calleeLists ++ lists)
  | property {target : List Token} {dot name : Token} {object : Expr}
      {lists : List ItemList} :
      Lenient .call target object lists →
      dot.kind = .punct .dot →
      name.kind = .identifier →
      Lenient .call (target ++ [dot, name]) (.get object name.toName) lists
  | noSuffix {tokens : List Token} {expr : Expr} {lists : List ItemList} :
      Lenient .primary tokens expr lists →
      Lenient .call tokens expr lists
  | group {opening closing : Token} {tokens : List Token} {inner : Expr}
      {lists : List ItemList} :
      opening.kind = .punct .leftParen →
      Lenient .assignment tokens inner lists →
      closing.kind = .punct .rightParen →
      Lenient .primary (opening :: (tokens ++ [closing])) (.group inner) lists

/-- The first token of a phrase. -/
theorem Lenient.head {phrase : Phrase} {tokens : List Token} {expr : Expr}
    {lists : List ItemList} (derived : Lenient phrase tokens expr lists) :
    ∃ first later, tokens = first :: later ∧ startsExpression first.kind = true ∧
      (phrase = .call ∨ phrase = .primary → startsCall first.kind = true) := by
  induction derived with
  | strict derived => exact derived.head
  | assign id nameKind => exact ⟨_, _, rfl, by rw [nameKind]; rfl, by simp⟩
  | unaryOperation operatorKind =>
      refine ⟨_, _, rfl, ?_, by simp⟩
      rcases operatorKind with kind | kind <;> rw [kind] <;> rfl
  | group kind => exact ⟨_, _, rfl, by rw [kind]; rfl, fun _ => by rw [kind]; rfl⟩
  | invocation _ _ _ _ _ _ inductionHypothesis =>
      obtain ⟨first, later, rfl, starts, startsToo⟩ := inductionHypothesis
      exact ⟨first, _, rfl, starts, fun _ => startsToo (.inl rfl)⟩
  | property _ _ _ inductionHypothesis =>
      obtain ⟨first, later, rfl, starts, startsToo⟩ := inductionHypothesis
      exact ⟨first, _, rfl, starts, fun _ => startsToo (.inl rfl)⟩
  | noSuffix _ inductionHypothesis =>
      obtain ⟨first, later, rfl, starts, startsToo⟩ := inductionHypothesis
      exact ⟨first, _, rfl, starts, fun _ => startsToo (.inr rfl)⟩
  | set _ _ _ _ _ inductionHypothesis =>
      obtain ⟨first, later, rfl, starts, -⟩ := inductionHypothesis
      exact ⟨first, _, rfl, starts, by simp⟩
  | operation _ _ _ inductionHypothesis =>
      obtain ⟨first, later, rfl, starts, -⟩ := inductionHypothesis
      exact ⟨first, _, rfl, starts, by simp⟩
  | noAssignment _ inductionHypothesis | operand _ inductionHypothesis
  | noOperation _ inductionHypothesis =>
      obtain ⟨first, later, rfl, starts, -⟩ := inductionHypothesis
      exact ⟨first, _, rfl, starts, by simp⟩

theorem Lenient.tokens_ne_nil {phrase : Phrase} {tokens : List Token} {expr : Expr}
    {lists : List ItemList} (derived : Lenient phrase tokens expr lists) : tokens ≠ [] := by
  obtain ⟨first, later, rfl, -⟩ := derived.head
  simp

/-- A call is an expression of every level. -/
theorem Lenient.of_call {tokens : List Token} {expr : Expr} {lists : List ItemList}
    (derived : Lenient .call tokens expr lists) : Lenient .assignment tokens expr lists := by
  have factor : Lenient (.tier .factor) tokens expr lists := .operand (.noOperation derived)
  have comparison : Lenient (.tier .comparison) tokens expr lists := .operand (.operand factor)
  have conjunct : Lenient (.tier .and) tokens expr lists := .operand (.operand comparison)
  exact .noAssignment (.operand conjunct)

/-! ### Lists that keep to the limit -/

/-- All lists keep to the limit. -/
def Bounded (lists : List ItemList) : Prop :=
  ∀ list ∈ lists, list.items.length ≤ maxArity

theorem bounded_append {lists more : List ItemList} :
    Bounded (lists ++ more) ↔ Bounded lists ∧ Bounded more := by
  simp [Bounded, or_imp, forall_and]

theorem bounded_flatMap {α : Type} {listsOf : α → List ItemList} {parts : List α} :
    Bounded (parts.flatMap listsOf) ↔ ∀ part ∈ parts, Bounded (listsOf part) := by
  simp only [Bounded, List.mem_flatMap, forall_exists_index, and_imp]
  exact ⟨fun bounded part member list inPart => bounded list part member inPart,
    fun bounded list part member inPart => bounded part member list inPart⟩

theorem SinglesOut.of_bounded {α : Type} {kind : ListKind} {parts : List (ListedPart α)}
    {lists : List ItemList} (singles : SinglesOut kind parts lists) (bounded : Bounded lists) :
    parts.length ≤ maxArity ∧ ∀ part ∈ parts, Bounded part.lists := by
  cases singles with
  | bounded short => exact ⟨short, bounded_flatMap.mp bounded⟩
  | single plain =>
      refine ⟨by simpa using bounded _ List.mem_cons_self, ?_⟩
      intro part member
      rw [plain part member]
      exact nofun

/-- If all lists keep to the limit, the tokens derive from the grammar. -/
theorem Lenient.derives {phrase : Phrase} {tokens : List Token} {expr : Expr}
    {lists : List ItemList} (derived : Lenient phrase tokens expr lists)
    (bounded : Bounded lists) : Derives phrase tokens expr := by
  induction derived with
  | strict derived => exact derived
  | assign id nameKind equalsKind _ value =>
      exact .assign id nameKind equalsKind (value bounded)
  | set _ dotKind nameKind equalsKind _ target value =>
      obtain ⟨targetBounded, valueBounded⟩ := bounded_append.mp bounded
      exact .set (target targetBounded) dotKind nameKind equalsKind (value valueBounded)
  | noAssignment _ inner => exact .noAssignment (inner bounded)
  | operand _ inner => exact .operand (inner bounded)
  | operation _ operatorKind _ left right =>
      obtain ⟨leftBounded, rightBounded⟩ := bounded_append.mp bounded
      exact .operation (left leftBounded) operatorKind (right rightBounded)
  | unaryOperation operatorKind _ inner => exact .unaryOperation operatorKind (inner bounded)
  | noOperation _ inner => exact .noOperation (inner bounded)
  | @invocation _ _ _ _ _ _ _ arguments _ openingKind _ singles separated closingKind callee
      given =>
      obtain ⟨calleeBounded, listsBounded⟩ := bounded_append.mp bounded
      obtain ⟨short, argumentsBounded⟩ := singles.of_bounded listsBounded
      let pairs := arguments.map fun argument => (argument.tokens, argument.tree)
      have tokensEquality : pairs.map Prod.fst = arguments.map ListedPart.tokens := by
        simp [pairs, Function.comp_def]
      have treesEquality : pairs.map Prod.snd = arguments.map ListedPart.tree := by
        simp [pairs, Function.comp_def]
      rw [← tokensEquality] at separated
      rw [← treesEquality]
      refine .invocation (callee calleeBounded) openingKind (by simpa [pairs] using short) ?_
        separated closingKind
      intro pair member
      obtain ⟨argument, inArguments, rfl⟩ := List.mem_map.mp member
      exact given argument inArguments (argumentsBounded argument inArguments)
  | property _ dotKind nameKind target => exact .property (target bounded) dotKind nameKind
  | noSuffix _ inner => exact .noSuffix (inner bounded)
  | group openingKind _ closingKind inner => exact .group openingKind (inner bounded) closingKind

/-! ## Statements -/

/-- An expression or nothing. -/
inductive LenientOptional : List Token → Option Expr → List ItemList → Prop
  | absent : LenientOptional [] none []
  | present {tokens : List Token} {expr : Expr} {lists : List ItemList} :
      Lenient .assignment tokens expr lists →
      LenientOptional tokens (some expr) lists

/-- A variable declaration. -/
inductive LenientVar : List Token → Stmt → List ItemList → Prop
  | plain {keyword name semicolon : Token} :
      keyword.kind = .keyword .var_ →
      name.kind = .identifier →
      semicolon.kind = .punct .semicolon →
      LenientVar [keyword, name, semicolon] (.var name.toName none) []
  | initialized {keyword name equals semicolon : Token} {tokens : List Token} {value : Expr}
      {lists : List ItemList} :
      keyword.kind = .keyword .var_ →
      name.kind = .identifier →
      equals.kind = .punct .equal →
      Lenient .assignment tokens value lists →
      semicolon.kind = .punct .semicolon →
      LenientVar (keyword :: name :: equals :: (tokens ++ [semicolon]))
        (.var name.toName (some value)) lists

/-- An expression and a semicolon. -/
inductive LenientExpression : List Token → Stmt → List ItemList → Prop
  | mk {tokens : List Token} {semicolon : Token} {value : Expr} {lists : List ItemList} :
      Lenient .assignment tokens value lists →
      semicolon.kind = .punct .semicolon →
      LenientExpression (tokens ++ [semicolon]) (.expression value) lists

/-- The first clause of a `for` loop. -/
inductive LenientInitializer : List Token → Option Stmt → List ItemList → Prop
  | absent {semicolon : Token} :
      semicolon.kind = .punct .semicolon →
      LenientInitializer [semicolon] none []
  | declaration {tokens : List Token} {stmt : Stmt} {lists : List ItemList} :
      LenientVar tokens stmt lists →
      LenientInitializer tokens (some stmt) lists
  | expression {tokens : List Token} {stmt : Stmt} {lists : List ItemList} :
      LenientExpression tokens stmt lists →
      LenientInitializer tokens (some stmt) lists

/-- A statement with its tokens and the lists that are singled out in it. -/
structure ListedSentence extends Sentence where
  lists : List ItemList

/-- The tokens derive from the nonterminal with these lists singled out and every `else`
at the nearest `if`, and the statement is the tree of that derivation.  The `Bool` says
whether the tokens end with an `if` that has no `else`. -/
inductive LenientStmt : Clause → List Token → Stmt → Bool → List ItemList → Prop
  | classDeclaration {keyword name opening closing : Token} {clause : List Token}
      {superclass : Option Expr} {methods : List (ListedPart FunctionDecl)} :
      keyword.kind = .keyword .class_ →
      name.kind = .identifier →
      SuperclassClause clause superclass →
      opening.kind = .punct .leftBrace →
      (∀ method ∈ methods,
        LenientStmt .function method.tokens (.function method.tree) false method.lists) →
      closing.kind = .punct .rightBrace →
      LenientStmt .declaration
        (keyword :: name :: (clause ++ opening :: (methods.flatMap ListedPart.tokens ++ [closing])))
        (.class_ name.toName superclass (methods.map ListedPart.tree)) false
        (methods.flatMap ListedPart.lists)
  | functionDeclaration {keyword : Token} {tokens : List Token} {stmt : Stmt}
      {lists : List ItemList} :
      keyword.kind = .keyword .fun_ →
      LenientStmt .function tokens stmt false lists →
      LenientStmt .declaration (keyword :: tokens) stmt false lists
  | varDeclaration {tokens : List Token} {stmt : Stmt} {lists : List ItemList} :
      LenientVar tokens stmt lists →
      LenientStmt .declaration tokens stmt false lists
  | noDeclaration {tokens : List Token} {stmt : Stmt} {isOpen : Bool} {lists : List ItemList} :
      LenientStmt .statement tokens stmt isOpen lists →
      LenientStmt .declaration tokens stmt isOpen lists
  | function {name opening closing opened closed : Token} {joined : List Token}
      {params : List Token} {body : List ListedSentence} {lists : List ItemList} :
      name.kind = .identifier →
      opening.kind = .punct .leftParen →
      (∀ param ∈ params, param.kind = .identifier) →
      SinglesOut .parameters (params.map ListedPart.parameter) lists →
      Separated (params.map ([·])) joined →
      closing.kind = .punct .rightParen →
      opened.kind = .punct .leftBrace →
      (∀ part ∈ body,
        LenientStmt .declaration part.tokens part.tree part.isOpen part.lists) →
      closed.kind = .punct .rightBrace →
      LenientStmt .function
        (name :: opening ::
          (joined ++ closing :: opened :: (body.flatMap (·.tokens) ++ [closed])))
        (.function
          { name := name.toName
            params := params.map Token.toName
            body := body.map (·.tree) }) false
        (lists ++ body.flatMap ListedSentence.lists)
  | expression {tokens : List Token} {stmt : Stmt} {lists : List ItemList} :
      LenientExpression tokens stmt lists →
      LenientStmt .statement tokens stmt false lists
  | forLoop {keyword opening semicolon closing : Token}
      {first second third last : List Token} {initializer : Option Stmt}
      {condition increment : Option Expr} {body : Stmt} {isOpen : Bool}
      {firstLists secondLists thirdLists lastLists : List ItemList} :
      keyword.kind = .keyword .for_ →
      opening.kind = .punct .leftParen →
      LenientInitializer first initializer firstLists →
      LenientOptional second condition secondLists →
      semicolon.kind = .punct .semicolon →
      LenientOptional third increment thirdLists →
      closing.kind = .punct .rightParen →
      LenientStmt .statement last body isOpen lastLists →
      LenientStmt .statement
        (keyword :: opening :: (first ++ (second ++ semicolon :: (third ++ closing :: last))))
        (lowerFor initializer condition increment body) isOpen
        (firstLists ++ (secondLists ++ (thirdLists ++ lastLists)))
  | ifThen {keyword opening closing : Token} {tested branch : List Token}
      {condition : Expr} {thenBranch : Stmt} {isOpen : Bool}
      {testLists branchLists : List ItemList} :
      keyword.kind = .keyword .if_ →
      opening.kind = .punct .leftParen →
      Lenient .assignment tested condition testLists →
      closing.kind = .punct .rightParen →
      LenientStmt .statement branch thenBranch isOpen branchLists →
      LenientStmt .statement (keyword :: opening :: (tested ++ closing :: branch))
        (.if_ condition thenBranch none) true (testLists ++ branchLists)
  | ifThenElse {keyword opening closing otherwise : Token}
      {tested branch alternative : List Token} {condition : Expr}
      {thenBranch elseBranch : Stmt} {isOpen : Bool}
      {testLists branchLists alternativeLists : List ItemList} :
      keyword.kind = .keyword .if_ →
      opening.kind = .punct .leftParen →
      Lenient .assignment tested condition testLists →
      closing.kind = .punct .rightParen →
      LenientStmt .statement branch thenBranch false branchLists →
      otherwise.kind = .keyword .else_ →
      LenientStmt .statement alternative elseBranch isOpen alternativeLists →
      LenientStmt .statement
        (keyword :: opening :: (tested ++ closing :: (branch ++ otherwise :: alternative)))
        (.if_ condition thenBranch (some elseBranch)) isOpen
        (testLists ++ (branchLists ++ alternativeLists))
  | print {keyword semicolon : Token} {tokens : List Token} {value : Expr}
      {lists : List ItemList} :
      keyword.kind = .keyword .print_ →
      Lenient .assignment tokens value lists →
      semicolon.kind = .punct .semicolon →
      LenientStmt .statement (keyword :: (tokens ++ [semicolon])) (.print value) false lists
  | return_ {keyword semicolon : Token} {tokens : List Token} {value : Option Expr}
      {lists : List ItemList} :
      keyword.kind = .keyword .return_ →
      LenientOptional tokens value lists →
      semicolon.kind = .punct .semicolon →
      LenientStmt .statement (keyword :: (tokens ++ [semicolon]))
        (.return_ keyword.line value) false lists
  | whileLoop {keyword opening closing : Token} {tested last : List Token}
      {condition : Expr} {body : Stmt} {isOpen : Bool} {testLists lastLists : List ItemList} :
      keyword.kind = .keyword .while_ →
      opening.kind = .punct .leftParen →
      Lenient .assignment tested condition testLists →
      closing.kind = .punct .rightParen →
      LenientStmt .statement last body isOpen lastLists →
      LenientStmt .statement (keyword :: opening :: (tested ++ closing :: last))
        (.while_ condition body) isOpen (testLists ++ lastLists)
  | block {opened closed : Token} {body : List ListedSentence} :
      opened.kind = .punct .leftBrace →
      (∀ part ∈ body,
        LenientStmt .declaration part.tokens part.tree part.isOpen part.lists) →
      closed.kind = .punct .rightBrace →
      LenientStmt .statement (opened :: (body.flatMap (·.tokens) ++ [closed]))
        (.block (body.map (·.tree))) false (body.flatMap ListedSentence.lists)

/-- The tokens derive from `program` with these lists singled out, and the statements are
the tree of that derivation. -/
inductive LenientProgram : List Token → List Stmt → List ItemList → Prop
  | mk {body : List ListedSentence} :
      (∀ part ∈ body,
        LenientStmt .declaration part.tokens part.tree part.isOpen part.lists) →
      LenientProgram (body.flatMap (·.tokens)) (body.map (·.tree))
        (body.flatMap ListedSentence.lists)

theorem LenientVar.head {tokens : List Token} {stmt : Stmt} {lists : List ItemList}
    (declared : LenientVar tokens stmt lists) :
    ∃ keyword later, tokens = keyword :: later ∧ keyword.kind = .keyword .var_ := by
  cases declared with
  | plain keywordKind => exact ⟨_, _, rfl, keywordKind⟩
  | initialized keywordKind => exact ⟨_, _, rfl, keywordKind⟩

theorem LenientExpression.head {tokens : List Token} {stmt : Stmt} {lists : List ItemList}
    (stated : LenientExpression tokens stmt lists) :
    ∃ first later, tokens = first :: later ∧ startsExpression first.kind = true := by
  obtain ⟨derived, -⟩ := stated
  obtain ⟨first, later, rfl, starts, -⟩ := derived.head
  exact ⟨first, _, rfl, starts⟩

/-- The first token of a declaration, a statement or a function. -/
theorem LenientStmt.head {clause : Clause} {tokens : List Token} {stmt : Stmt} {isOpen : Bool}
    {lists : List ItemList} (derived : LenientStmt clause tokens stmt isOpen lists) :
    Opens clause tokens := by
  induction derived with
  | classDeclaration kind | functionDeclaration kind =>
      exact opens_declaration (by rw [kind]; rfl)
  | varDeclaration declared =>
      obtain ⟨keyword, later, rfl, kind⟩ := declared.head
      exact opens_declaration (by rw [kind]; rfl)
  | noDeclaration _ inductionHypothesis =>
      obtain ⟨first, later, rfl, opens, -⟩ := inductionHypothesis
      exact opens_declaration opens
  | function kind => exact ⟨_, _, rfl, by rw [kind]; rfl, nofun, fun _ => kind⟩
  | expression stated =>
      obtain ⟨first, later, rfl, starts⟩ := stated.head
      exact opens_statement (opensStatement_of_startsExpression starts)
  | forLoop kind | ifThen kind | ifThenElse kind | print kind | return_ kind | whileLoop kind
  | block kind => exact opens_statement (by rw [kind]; rfl)

theorem LenientStmt.tokens_ne_nil {clause : Clause} {tokens : List Token} {stmt : Stmt}
    {isOpen : Bool} {lists : List ItemList}
    (derived : LenientStmt clause tokens stmt isOpen lists) : tokens ≠ [] := by
  obtain ⟨first, later, rfl, -⟩ := derived.head
  simp

/-! ### Lists that keep to the limit -/

section Bounded

variable {tokens : List Token} {lists : List ItemList}

theorem LenientOptional.derives {value : Option Expr} (derived : LenientOptional tokens value lists)
    (bounded : Bounded lists) : DerivesOptional tokens value := by
  cases derived with
  | absent => exact .absent
  | present derived => exact .present (derived.derives bounded)

theorem LenientVar.declares {stmt : Stmt} (declared : LenientVar tokens stmt lists)
    (bounded : Bounded lists) : VarDeclaration tokens stmt := by
  cases declared with
  | plain keywordKind nameKind semicolonKind => exact .plain keywordKind nameKind semicolonKind
  | initialized keywordKind nameKind equalsKind derived semicolonKind =>
      exact .initialized keywordKind nameKind equalsKind (derived.derives bounded) semicolonKind

theorem LenientExpression.states {stmt : Stmt} (stated : LenientExpression tokens stmt lists)
    (bounded : Bounded lists) : ExpressionStatement tokens stmt := by
  obtain ⟨derived, semicolonKind⟩ := stated
  exact ⟨derived.derives bounded, semicolonKind⟩

theorem LenientInitializer.derives {stmt : Option Stmt}
    (derived : LenientInitializer tokens stmt lists) (bounded : Bounded lists) :
    ForInitializer tokens stmt := by
  cases derived with
  | absent semicolonKind => exact .absent semicolonKind
  | declaration declared => exact .declaration (declared.declares bounded)
  | expression stated => exact .expression (stated.states bounded)

theorem derives_sentences {body : List ListedSentence}
    (derived : ∀ part ∈ body, Bounded part.lists →
      DerivesStmt true .declaration part.tokens part.tree part.isOpen)
    (bounded : Bounded (body.flatMap ListedSentence.lists)) :
    ∀ part ∈ body.map ListedSentence.toSentence,
      DerivesStmt true .declaration part.tokens part.tree part.isOpen := by
  intro part member
  obtain ⟨listed, inBody, rfl⟩ := List.mem_map.mp member
  exact derived listed inBody (bounded_flatMap.mp bounded listed inBody)

theorem flatMap_sentences (body : List ListedSentence) :
    body.flatMap (·.tokens) = (body.map ListedSentence.toSentence).flatMap Sentence.tokens := by
  rw [List.flatMap_map]

theorem map_sentences (body : List ListedSentence) :
    body.map (·.tree) = (body.map ListedSentence.toSentence).map Sentence.tree := by
  rw [List.map_map]
  rfl

/-- If all lists keep to the limit, the tokens derive from the grammar. -/
theorem LenientStmt.derives {clause : Clause} {stmt : Stmt} {isOpen : Bool}
    (derived : LenientStmt clause tokens stmt isOpen lists) (bounded : Bounded lists) :
    DerivesStmt true clause tokens stmt isOpen := by
  induction derived with
  | @classDeclaration _ _ _ _ _ _ methods keywordKind nameKind superclassDerived openingKind _
      closingKind derived =>
      let pairs := methods.map fun method => (method.tokens, method.tree)
      have tokensEquality : pairs.flatMap Prod.fst = methods.flatMap ListedPart.tokens := by
        simp [pairs, List.flatMap_map]
      have treesEquality : pairs.map Prod.snd = methods.map ListedPart.tree := by
        simp [pairs, Function.comp_def]
      rw [← tokensEquality, ← treesEquality]
      refine .classDeclaration keywordKind nameKind superclassDerived openingKind ?_ closingKind
      intro pair member
      obtain ⟨method, inMethods, rfl⟩ := List.mem_map.mp member
      exact derived method inMethods (bounded_flatMap.mp bounded method inMethods)
  | functionDeclaration keywordKind _ function =>
      exact .functionDeclaration keywordKind (function bounded)
  | varDeclaration declared => exact .varDeclaration (declared.declares bounded)
  | noDeclaration _ statement => exact .noDeclaration (statement bounded)
  | function nameKind openingKind names singles separated closingKind openedKind _ closedKind
      body =>
      obtain ⟨paramsBounded, bodyBounded⟩ := bounded_append.mp bounded
      have short := (singles.of_bounded paramsBounded).1
      rw [flatMap_sentences, map_sentences]
      exact .function nameKind openingKind (by simpa using short) names separated closingKind
        openedKind (derives_sentences body bodyBounded) closedKind
  | expression stated => exact .expression (stated.states bounded)
  | forLoop keywordKind openingKind initializer condition semicolonKind increment closingKind _
      body =>
      obtain ⟨firstBounded, laterBounded⟩ := bounded_append.mp bounded
      obtain ⟨secondBounded, restBounded⟩ := bounded_append.mp laterBounded
      obtain ⟨thirdBounded, lastBounded⟩ := bounded_append.mp restBounded
      exact .forLoop keywordKind openingKind (initializer.derives firstBounded)
        (condition.derives secondBounded) semicolonKind (increment.derives thirdBounded)
        closingKind (body lastBounded)
  | ifThen keywordKind openingKind condition closingKind _ branch =>
      obtain ⟨testBounded, branchBounded⟩ := bounded_append.mp bounded
      exact .ifThen keywordKind openingKind (condition.derives testBounded) closingKind
        (branch branchBounded)
  | ifThenElse keywordKind openingKind condition closingKind _ otherwiseKind _ branch
      alternative =>
      obtain ⟨testBounded, laterBounded⟩ := bounded_append.mp bounded
      obtain ⟨branchBounded, alternativeBounded⟩ := bounded_append.mp laterBounded
      exact .ifThenElse keywordKind openingKind (condition.derives testBounded) closingKind
        (branch branchBounded) (fun _ => rfl) otherwiseKind (alternative alternativeBounded)
  | print keywordKind value semicolonKind =>
      exact .print keywordKind (value.derives bounded) semicolonKind
  | return_ keywordKind value semicolonKind =>
      exact .return_ keywordKind (value.derives bounded) semicolonKind
  | whileLoop keywordKind openingKind condition closingKind _ body =>
      obtain ⟨testBounded, lastBounded⟩ := bounded_append.mp bounded
      exact .whileLoop keywordKind openingKind (condition.derives testBounded) closingKind
        (body lastBounded)
  | block openedKind _ closedKind body =>
      rw [flatMap_sentences, map_sentences]
      exact .block openedKind (derives_sentences body bounded) closedKind

theorem LenientProgram.derives {program : List Stmt}
    (derived : LenientProgram tokens program lists) (bounded : Bounded lists) :
    DerivesProgram true tokens program := by
  obtain ⟨derived⟩ := derived
  rw [flatMap_sentences, map_sentences]
  exact .mk (derives_sentences (fun part member => (derived part member).derives) bounded)

end Bounded

end Grammar

end Lox
