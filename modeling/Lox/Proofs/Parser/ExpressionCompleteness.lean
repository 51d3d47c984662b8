import Lox.Proofs.Parser.ExpressionSoundness

/-!
# Expressions of the grammar are parsed

If tokens derive from a nonterminal, then its parser takes exactly these tokens,
records no error, and gives the tree of the derivation up to the identities of
uses, provided that the next token would not be read as part of the phrase.  The
budget of a parser is enough as soon as it covers the number of tokens.
-/

namespace Lox

namespace Parser

open Actions Grammar

/-- Before `rest`, the parser takes exactly the given tokens, records no error, and
gives the value up to what `shape` forgets. -/
def Reads {α γ : Type} (shape : α → γ) (parser : Parser α) (tokens : List Token) (value : α)
    (rest : List Token) : Prop :=
  ∀ errors nextId, ∃ result finalId,
    parser ⟨tokens ++ rest, errors, nextId⟩ = .ok result ⟨rest, errors, finalId⟩ ∧
      shape result = shape value

/-! ## What can follow a phrase -/

/-- The tokens that go on with a call. -/
def extendsCall (kind : TokenKind) : Bool :=
  kind = .punct .leftParen || kind = .punct .dot

/-- A token of this kind behind the phrase would be read as part of it. -/
def extendsPhrase : Phrase → TokenKind → Bool
  | .primary, _ => false
  | .assignment, kind =>
      kind = .punct .equal || (levels.any fun level => level.operators.contains kind) ||
        extendsCall kind
  | .tier tier, kind =>
      ((levelsOf (.tier tier)).any fun level => level.operators.contains kind) ||
        extendsCall kind
  | .unary, kind => extendsCall kind
  | .call, kind => extendsCall kind

/-- What follows is not read as part of the phrase. -/
def Stops (phrase : Phrase) (rest : List Token) : Prop :=
  ∀ token ∈ rest.head?, extendsPhrase phrase token.kind = false

theorem stops_cons {phrase : Phrase} {token : Token} {rest : List Token} :
    Stops phrase (token :: rest) ↔ extendsPhrase phrase token.kind = false := by
  simp [Stops]

/-- The operators of a level extend its phrases; else only what extends its
operands does. -/
theorem extendsPhrase_tier (tier : Tier) (kind : TokenKind) :
    extendsPhrase (.tier tier) kind =
      (tier.operators.contains kind || extendsPhrase tier.operand kind) := by
  have operandPhrase : extendsPhrase tier.operand kind =
      (((levelsOf tier.operand).any fun level => level.operators.contains kind) ||
        extendsCall kind) := by
    cases tier <;> rfl
  rw [operandPhrase, ← Bool.or_assoc]
  rw [extendsPhrase, levelsOf_tier, List.any_cons, levelOf]

theorem extendsPhrase_endOfInput (phrase : Phrase) :
    extendsPhrase phrase .endOfInput = false := by
  cases phrase with
  | tier tier => cases tier <;> decide
  | _ => decide

variable {errors : Array SyntaxError} {nextId : UseId} {rest : List Token}

theorem Stops.peek {phrase : Phrase} (stops : Stops phrase rest) (errors : Array SyntaxError)
    (nextId : UseId) :
    extendsPhrase phrase (ParserState.mk rest errors nextId).peek.kind = false := by
  cases rest with
  | nil => exact extendsPhrase_endOfInput phrase
  | cons token rest => exact stops token rfl

theorem Stops.operand {tier : Tier} (stops : Stops (.tier tier) rest) :
    Stops tier.operand rest := by
  intro token member
  have stopped := stops token member
  rw [extendsPhrase_tier, Bool.or_eq_false_iff] at stopped
  exact stopped.2

theorem Stops.of_assignment (stops : Stops .assignment rest) : Stops (.tier .or) rest := by
  intro token member
  have stopped := stops token member
  rw [extendsPhrase, Bool.or_assoc, Bool.or_eq_false_iff] at stopped
  exact stopped.2

/-! ## Loops end -/

theorem suffixes_of_stops {expression : Parser Expr} (stops : Stops .unary rest)
    (budget : Nat) (subject : Expr) :
    suffixes expression budget subject ⟨rest, errors, nextId⟩ =
      .ok subject ⟨rest, errors, nextId⟩ := by
  have stopped := stops.peek errors nextId
  have different : ∀ kind, extendsCall kind = true →
      (ParserState.mk rest errors nextId).peek.kind ≠ kind := by
    rintro kind extending same
    have contradiction : extendsCall kind = false := by
      rw [← same]
      exact stopped
    rw [extending] at contradiction
    cases contradiction
  cases budget with
  | zero => rfl
  | succ budget =>
      rw [suffixes, bind_of_ok (skip_of_ne (different _ rfl)), if_neg (by decide),
        bind_of_ok (skip_of_ne (different _ rfl)), if_neg (by decide)]
      rfl

theorem operations_of_stops {tier : Tier} {operand : Parser Expr}
    (stops : Stops (.tier tier) rest) (budget : Nat) (left : Expr) :
    operations (levelOf tier) operand budget left ⟨rest, errors, nextId⟩ =
      .ok left ⟨rest, errors, nextId⟩ := by
  have stopped := stops.peek errors nextId
  rw [extendsPhrase_tier, Bool.or_eq_false_iff] at stopped
  cases budget with
  | zero => rfl
  | succ budget =>
      have refused : acceptIf (levelOf tier).operators.contains ⟨rest, errors, nextId⟩ =
          .ok none ⟨rest, errors, nextId⟩ :=
        acceptIf_of_refused fun _ => stopped.1
      rw [operations, bind_of_ok refused]
      rfl

/-! ## Lists with commas -/

/-- Items are read one by one, as long as a comma follows. -/
theorem commaSeparated_complete {α γ : Type} {shape : α → γ} {item : Parser α}
    {stopsItem : List Token → Prop} (fault : SyntaxFault)
    (stopsComma : ∀ {comma : Token} {later}, comma.kind = .punct .comma →
      stopsItem (comma :: later))
    {items : List (List Token × α)} {joined : List Token}
    (separated : Separated (items.map Prod.fst) joined) (nonempty : items ≠ [])
    (reads : ∀ pair ∈ items, ∀ following, stopsItem following →
      Reads shape item pair.1 pair.2 following)
    {budget : Nat} (enough : items.length ≤ budget) {done : List α}
    (room : done.length + items.length ≤ Grammar.maxArity)
    (stops : stopsItem rest) (noComma : ∀ token ∈ rest.head?, token.kind ≠ .punct .comma) :
    Reads (List.map shape) (commaSeparated item fault budget done) joined
      (done.reverse ++ items.map Prod.snd) rest := by
  intro errors nextId
  have limits : Parser.maxArity = Grammar.maxArity := rfl
  induction items generalizing joined budget done nextId with
  | nil => exact absurd rfl nonempty
  | cons first later inductionHypothesis =>
      obtain ⟨remaining, rfl⟩ : ∃ remaining, budget = remaining + 1 :=
        ⟨budget - 1, by rw [List.length_cons] at enough; omega⟩
      rw [List.length_cons] at enough room
      have notFull : ¬ Parser.maxArity ≤ done.length := by omega
      have firstReads := reads first List.mem_cons_self
      rw [commaSeparated_succ, if_neg notFull, bind_of_ok (pure_apply _ _)]
      cases later with
      | nil =>
          obtain ⟨⟩ := separated
          obtain ⟨value, afterId, valueParsed, valueShape⟩ := firstReads rest stops errors nextId
          have ended : skip (.punct .comma) ⟨rest, errors, afterId⟩ =
              .ok false ⟨rest, errors, afterId⟩ := by
            refine skip_of_ne ?_
            cases rest with
            | nil => exact nofun
            | cons token rest => exact noComma token rfl
          refine ⟨(value :: done).reverse, afterId, ?_, ?_⟩
          · rw [bind_of_ok valueParsed, bind_of_ok ended]
            rfl
          · simp [valueShape]
      | cons second more =>
          obtain ⟨comma, laterJoined, commaKind, laterSeparated, rfl⟩ := separated.cons_cons
          obtain ⟨value, afterId, valueParsed, valueShape⟩ :=
            firstReads (comma :: (laterJoined ++ rest)) (stopsComma commaKind) errors nextId
          have onward : skip (.punct .comma) ⟨comma :: (laterJoined ++ rest), errors, afterId⟩ =
              .ok true ⟨laterJoined ++ rest, errors, afterId⟩ :=
            skip_mk_cons commaKind (by decide)
          have enoughLater : (second :: more).length ≤ remaining := by omega
          have roomLater :
              (value :: done).length + (second :: more).length ≤ Grammar.maxArity := by
            have longer : (value :: done).length = done.length + 1 := List.length_cons
            omega
          obtain ⟨values, finalId, laterParsed, laterShape⟩ :=
            inductionHypothesis laterSeparated (by simp)
              (fun pair member => reads pair (List.mem_cons_of_mem _ member))
              enoughLater roomLater afterId
          refine ⟨values, finalId, ?_, ?_⟩
          · rw [List.append_assoc, List.cons_append, bind_of_ok valueParsed, bind_of_ok onward]
            exact laterParsed
          · rw [laterShape]
            simp [valueShape]

/-! ## Phrases -/

/-- The parser for a level of operators, or for an operand of the tightest one. -/
def levelParser (budget : Nat) (phrase : Phrase) : Parser Expr :=
  infixLevels (unary (expression budget) budget budget) budget (levelsOf phrase)

/-- How the tokens of a phrase are read.  Levels of operators and calls are read
in a loop; what is read of them leaves the loop with the tree so far and enough
budget for the tokens still to be read. -/
def ReadsPhrase : Phrase → List Token → Expr → Prop
  | .assignment, tokens, expr =>
      ∀ budget rest, tokens.length ≤ budget → Stops .assignment rest →
        Reads Expr.shape (expression budget) tokens expr rest
  | .tier tier, tokens, expr =>
      ∀ budget rest errors nextId, tokens.length ≤ budget + 1 → Stops tier.operand rest →
        ∃ left finalId remaining, budget + 1 ≤ remaining + tokens.length ∧
          levelParser budget (.tier tier) ⟨tokens ++ rest, errors, nextId⟩ =
            operations (levelOf tier) (levelParser budget tier.operand) remaining left
              ⟨rest, errors, finalId⟩ ∧
          left.shape = expr.shape
  | .unary, tokens, expr =>
      ∀ budget depth rest, tokens.length ≤ budget + 1 → tokens.length ≤ depth + 1 →
        Stops .unary rest →
          Reads Expr.shape (unary (expression budget) budget depth) tokens expr rest
  | .call, tokens, expr =>
      ∀ budget rest errors nextId, tokens.length ≤ budget + 1 →
        ∃ subject finalId remaining, budget + 1 ≤ remaining + tokens.length ∧
          call (expression budget) budget ⟨tokens ++ rest, errors, nextId⟩ =
            suffixes (expression budget) remaining subject ⟨rest, errors, finalId⟩ ∧
          subject.shape = expr.shape
  | .primary, tokens, expr =>
      ∀ budget rest, tokens.length ≤ budget + 1 →
        Reads Expr.shape (primary (expression budget)) tokens expr rest

theorem levelParser_tier (budget : Nat) (tier : Tier) :
    levelParser budget (.tier tier) =
      (levelParser budget tier.operand >>= fun left =>
        operations (levelOf tier) (levelParser budget tier.operand) budget left) := by
  rw [levelParser, levelsOf_tier, infixLevels, levelParser]

/-- A level whose loop has ended is read. -/
theorem ReadsPhrase.reads_tier {tier : Tier} {tokens : List Token} {expr : Expr}
    (phrase : ReadsPhrase (.tier tier) tokens expr) (budget : Nat)
    (enough : tokens.length ≤ budget + 1)
    (stops : Stops (.tier tier) rest) :
    Reads Expr.shape (levelParser budget (.tier tier)) tokens expr rest := by
  intro errors nextId
  obtain ⟨left, finalId, remaining, -, parsed, shapes⟩ :=
    phrase budget rest errors nextId enough stops.operand
  exact ⟨left, finalId, parsed.trans (operations_of_stops stops _ _), shapes⟩

/-- The operand of a level is read. -/
theorem ReadsPhrase.reads_operand {tier : Tier} {tokens : List Token} {expr : Expr}
    (phrase : ReadsPhrase tier.operand tokens expr) (budget : Nat)
    (enough : tokens.length ≤ budget + 1) (stops : Stops tier.operand rest) :
    Reads Expr.shape (levelParser budget tier.operand) tokens expr rest := by
  cases tier with
  | factor => exact phrase budget budget rest enough enough stops
  | _ => exact ReadsPhrase.reads_tier phrase budget enough stops

theorem readsPhrase_operand {tier : Tier} {tokens : List Token} {expr : Expr}
    (phrase : ReadsPhrase tier.operand tokens expr) (nonempty : tokens ≠ []) :
    ReadsPhrase (.tier tier) tokens expr := by
  intro budget rest errors nextId enough stops
  obtain ⟨left, finalId, parsed, shapes⟩ := phrase.reads_operand budget enough stops errors nextId
  refine ⟨left, finalId, budget, ?_, ?_, shapes⟩
  · have taken := List.length_pos_iff.mpr nonempty
    omega
  · rw [levelParser_tier, bind_of_ok parsed]

theorem readsPhrase_operation {tier : Tier} {before after : List Token} {operator : Token}
    {left right : Expr} (leftPhrase : ReadsPhrase (.tier tier) before left)
    (operatorKind : operator.kind ∈ tier.operators)
    (rightPhrase : ReadsPhrase tier.operand after right) :
    ReadsPhrase (.tier tier) (before ++ operator :: after) (tier.node left operator right) := by
  intro budget rest errors nextId enough stops
  rw [List.length_append, List.length_cons] at enough
  -- an operator of a level is not read as part of its operands
  have operatorStops : Stops tier.operand (operator :: (after ++ rest)) := by
    rw [stops_cons]
    revert operatorKind
    generalize operator.kind = kind
    intro member
    cases tier <;> simp only [Tier.operators, List.mem_cons, List.not_mem_nil, or_false] at member
    all_goals rcases member with rfl | rfl | rfl | rfl <;> rfl
  obtain ⟨leftResult, leftId, remaining, budgetLeft, leftParsed, leftShape⟩ :=
    leftPhrase budget (operator :: (after ++ rest)) errors nextId (by omega) operatorStops
  obtain ⟨later, rfl⟩ : ∃ later, remaining = later + 1 := ⟨remaining - 1, by omega⟩
  obtain ⟨rightResult, rightId, rightParsed, rightShape⟩ :=
    rightPhrase.reads_operand budget (by omega) stops errors leftId
  have inside : operator.kind ≠ .endOfInput := by
    intro ended
    rw [ended] at operatorKind
    cases tier <;> simp [Tier.operators] at operatorKind
  have accepted : acceptIf (levelOf tier).operators.contains
      ⟨operator :: (after ++ rest), errors, leftId⟩ =
        .ok (some operator) ⟨after ++ rest, errors, leftId⟩ :=
    acceptIf_mk_cons inside (by simpa [levelOf] using operatorKind)
  refine ⟨tier.node leftResult operator rightResult, rightId, later, ?_, ?_, ?_⟩
  · rw [List.length_append, List.length_cons]
    omega
  · rw [List.append_assoc, List.cons_append, leftParsed, operations, bind_of_ok accepted]
    dsimp only
    rw [bind_of_ok rightParsed]
    rfl
  · unfold Expr.shape at leftShape rightShape ⊢
    cases tier <;> simp only [Tier.node, Expr.relabel, leftShape, rightShape]

theorem readsPhrase_unaryOperation {operator : Token} {tokens : List Token} {expr : Expr}
    (operatorKind : operator.kind = .punct .bang ∨ operator.kind = .punct .minus)
    (phrase : ReadsPhrase .unary tokens expr) (nonempty : tokens ≠ []) :
    ReadsPhrase .unary (operator :: tokens) (.unary operator expr) := by
  intro budget depth rest enough deep stops errors nextId
  rw [List.length_cons] at enough deep
  have taken := List.length_pos_iff.mpr nonempty
  obtain ⟨shallower, rfl⟩ : ∃ shallower, depth = shallower + 1 := ⟨depth - 1, by omega⟩
  obtain ⟨operand, finalId, parsed, shapes⟩ :=
    phrase budget shallower rest (by omega) (by omega) stops errors nextId
  have accepted : acceptIf isUnaryOperator ⟨operator :: (tokens ++ rest), errors, nextId⟩ =
      .ok (some operator) ⟨tokens ++ rest, errors, nextId⟩ := by
    rcases operatorKind with kind | kind
    · exact acceptIf_mk_cons (by rw [kind]; decide) (by rw [kind]; decide)
    · exact acceptIf_mk_cons (by rw [kind]; decide) (by rw [kind]; decide)
  refine ⟨.unary operator operand, finalId, ?_, ?_⟩
  · rw [unary, List.cons_append, bind_of_ok accepted]
    dsimp only
    rw [bind_of_ok parsed]
    rfl
  · unfold Expr.shape at shapes ⊢
    simp only [Expr.relabel, shapes]

theorem readsPhrase_noOperation {tokens : List Token} {expr : Expr}
    (derived : Derives .call tokens expr) (phrase : ReadsPhrase .call tokens expr) :
    ReadsPhrase .unary tokens expr := by
  intro budget depth rest enough _ stops errors nextId
  obtain ⟨subject, finalId, remaining, -, parsed, shapes⟩ :=
    phrase budget rest errors nextId enough
  rw [suffixes_of_stops stops] at parsed
  refine ⟨subject, finalId, ?_, shapes⟩
  cases depth with
  | zero => exact parsed
  | succ depth =>
      obtain ⟨first, later, rfl, -, startsWith⟩ := derived.head
      have starts := startsWith (.inl rfl)
      have noOperator : isUnaryOperator first.kind = false := by
        revert starts
        generalize first.kind = kind
        intro starts
        rw [isUnaryOperator, Bool.or_eq_false_iff]
        constructor <;> exact decide_eq_false (by rintro rfl; cases starts)
      have refused : acceptIf isUnaryOperator ⟨first :: later ++ rest, errors, nextId⟩ =
          .ok none ⟨first :: later ++ rest, errors, nextId⟩ :=
        acceptIf_of_refused fun _ => noOperator
      rw [unary, bind_of_ok refused]
      exact parsed

/-- The arguments of a call are read up to the closing parenthesis. -/
theorem arguments_complete {budget remaining : Nat} {joined : List Token} {closing : Token}
    {given : List (List Token × Expr)} (bounded : given.length ≤ Grammar.maxArity)
    (derived : ∀ pair ∈ given, Derives .assignment pair.1 pair.2)
    (phrases : ∀ pair ∈ given, ReadsPhrase .assignment pair.1 pair.2)
    (separated : Separated (given.map Prod.fst) joined)
    (closingKind : closing.kind = .punct .rightParen)
    (enough : joined.length ≤ budget) (enoughItems : joined.length ≤ remaining) :
    Reads (List.map Expr.shape) (arguments (expression budget) remaining) joined
      (given.map Prod.snd) (closing :: rest) := by
  intro errors nextId
  cases given with
  | nil =>
      obtain ⟨⟩ := separated
      refine ⟨[], nextId, ?_, rfl⟩
      rw [arguments, List.nil_append, bind_of_ok (check_mk_cons (by decide)), decide_eq_true closingKind]
      rfl
  | cons first later =>
      have nonempty : ∀ tokens ∈ (first :: later).map Prod.fst, tokens ≠ [] := by
        intro tokens member
        obtain ⟨pair, pairMember, rfl⟩ := List.mem_map.mp member
        exact (derived pair pairMember).tokens_ne_nil
      have fewer := separated.count_le nonempty
      rw [List.length_map] at fewer
      -- an argument does not start with the closing parenthesis
      obtain ⟨token, following, joinedEquality, starts⟩ :
          ∃ token following, joined = token :: following ∧
            startsExpression token.kind = true := by
        obtain ⟨token, others, firstEquality, starts, -⟩ := (derived first List.mem_cons_self).head
        cases later with
        | nil =>
            obtain ⟨⟩ := separated
            exact ⟨token, others, firstEquality, starts⟩
        | cons second more =>
            obtain ⟨comma, laterJoined, -, -, rfl⟩ := separated.cons_cons
            exact ⟨token, others ++ comma :: laterJoined, by rw [firstEquality]; rfl, starts⟩
      have opensNothing : token.kind ≠ .punct .rightParen := by
        intro closes
        rw [closes] at starts
        cases starts
      have stopsClosing : Stops .assignment (closing :: rest) := by
        rw [stops_cons, closingKind]
        rfl
      have room : ([] : List Expr).length + (first :: later).length ≤ Grammar.maxArity := by
        simpa using bounded
      have itemReads : ∀ pair ∈ first :: later, ∀ following, Stops .assignment following →
          Reads Expr.shape (expression budget) pair.1 pair.2 following := by
        intro pair member following stops
        have shorter := separated.length_le_of_mem (List.mem_map_of_mem member)
        exact phrases pair member budget following (Nat.le_trans shorter enough) stops
      have readItems :=
        commaSeparated_complete .tooManyArguments
          (fun commaKind => by rw [stops_cons, commaKind]; rfl) separated (by simp) itemReads
          (Nat.le_trans fewer enoughItems) room stopsClosing
          (by rintro token ⟨⟩; rw [closingKind]; decide)
      obtain ⟨values, finalId, parsed, shapes⟩ := readItems errors nextId
      refine ⟨values, finalId, ?_, by simpa using shapes⟩
      subst joinedEquality
      rw [arguments, List.cons_append, bind_of_ok (check_mk_cons (by decide)),
        decide_eq_false opensNothing, if_neg (by decide)]
      exact parsed

theorem readsPhrase_invocation {callee joined : List Token} {opening closing : Token}
    {subject : Expr} {given : List (List Token × Expr)}
    (calleePhrase : ReadsPhrase .call callee subject)
    (openingKind : opening.kind = .punct .leftParen) (bounded : given.length ≤ Grammar.maxArity)
    (givenDerived : ∀ pair ∈ given, Derives .assignment pair.1 pair.2)
    (givenPhrases : ∀ pair ∈ given, ReadsPhrase .assignment pair.1 pair.2)
    (separated : Separated (given.map Prod.fst) joined)
    (closingKind : closing.kind = .punct .rightParen) (nonempty : callee ≠ []) :
    ReadsPhrase .call (callee ++ opening :: (joined ++ [closing]))
      (.call subject closing.line (given.map Prod.snd)) := by
  intro budget rest errors nextId enough
  simp only [List.length_append, List.length_cons, List.length_nil] at enough
  have taken := List.length_pos_iff.mpr nonempty
  obtain ⟨calleeResult, calleeId, remaining, budgetLeft, calleeParsed, calleeShape⟩ :=
    calleePhrase budget (opening :: (joined ++ closing :: rest)) errors nextId (by omega)
  obtain ⟨later, rfl⟩ : ∃ later, remaining = later + 1 := ⟨remaining - 1, by omega⟩
  have givenReads : Reads (List.map Expr.shape) (arguments (expression budget) later) joined
      (given.map Prod.snd) (closing :: rest) :=
    arguments_complete bounded givenDerived givenPhrases separated closingKind (by omega)
      (by omega)
  obtain ⟨values, finalId, givenParsed, givenShapes⟩ := givenReads errors calleeId
  refine ⟨.call calleeResult closing.line values, finalId, later, ?_, ?_, ?_⟩
  · simp only [List.length_append, List.length_cons, List.length_nil]
    omega
  · simp only [List.append_assoc, List.cons_append, List.nil_append]
    rw [calleeParsed, suffixes, bind_of_ok (skip_mk_cons openingKind (by decide)), if_pos rfl,
      bind_of_ok givenParsed, bind_of_ok (expect_mk_cons closingKind (by decide))]
  · simp only [Expr.shape, Expr.relabel, Expr.relabelEach_eq_map]
    rw [Expr.call.injEq]
    exact ⟨calleeShape, rfl, givenShapes⟩

theorem readsPhrase_property {target : List Token} {dot name : Token} {object : Expr}
    (targetPhrase : ReadsPhrase .call target object) (dotKind : dot.kind = .punct .dot)
    (nameKind : name.kind = .identifier) :
    ReadsPhrase .call (target ++ [dot, name]) (.get object name.toName) := by
  intro budget rest errors nextId enough
  simp only [List.length_append, List.length_cons, List.length_nil] at enough
  obtain ⟨subject, finalId, remaining, budgetLeft, targetParsed, targetShape⟩ :=
    targetPhrase budget (dot :: name :: rest) errors nextId (by omega)
  obtain ⟨later, rfl⟩ : ∃ later, remaining = later + 1 := ⟨remaining - 1, by omega⟩
  have notCalled : skip (.punct .leftParen) ⟨dot :: name :: rest, errors, finalId⟩ =
      .ok false ⟨dot :: name :: rest, errors, finalId⟩ :=
    skip_of_ne (by rw [ParserState.peek_cons, dotKind]; decide)
  refine ⟨.get subject name.toName, finalId, later, ?_, ?_, ?_⟩
  · simp only [List.length_append, List.length_cons, List.length_nil]
    omega
  · simp only [List.append_assoc, List.cons_append, List.nil_append]
    rw [targetParsed, suffixes, bind_of_ok notCalled, if_neg (by decide),
      bind_of_ok (skip_mk_cons dotKind (by decide)), if_pos rfl,
      bind_of_ok (expectName_mk_cons nameKind)]
  · unfold Expr.shape at targetShape ⊢
    simp only [Expr.relabel, targetShape]

theorem readsPhrase_noSuffix {tokens : List Token} {expr : Expr}
    (phrase : ReadsPhrase .primary tokens expr) (nonempty : tokens ≠ []) :
    ReadsPhrase .call tokens expr := by
  intro budget rest errors nextId enough
  obtain ⟨subject, finalId, parsed, shapes⟩ := phrase budget rest enough errors nextId
  refine ⟨subject, finalId, budget, ?_, ?_, shapes⟩
  · have taken := List.length_pos_iff.mpr nonempty
    omega
  · rw [call, bind_of_ok parsed]

/-! ## Primary expressions -/

/-- What a parser that looks at its next token does depends on that token. -/
theorem peek_bind_mk_cons {α : Type} {token : Token} (next : Token → Parser α) :
    (peek >>= next) ⟨token :: rest, errors, nextId⟩ = next token ⟨token :: rest, errors, nextId⟩ :=
  rfl

theorem readsPhrase_constant {token : Token} {value : Literal} (inside : token.kind ≠ .endOfInput)
    (dispatch : ∀ expression : Parser Expr, ∀ rest errors nextId,
      primary expression ⟨token :: rest, errors, nextId⟩ =
        constant value ⟨token :: rest, errors, nextId⟩) :
    ReadsPhrase .primary [token] (.literal value) := by
  intro budget rest _ errors nextId
  refine ⟨.literal value, nextId, ?_, rfl⟩
  rw [List.cons_append, List.nil_append, dispatch, constant, bind_of_ok (advance_mk_cons inside)]
  rfl

theorem readsPhrase_this {token : Token} (id : UseId) (kind : token.kind = .keyword .this_) :
    ReadsPhrase .primary [token] (.this id token.line) := by
  intro budget rest _ errors nextId
  refine ⟨.this nextId token.line, nextId + 1, ?_, rfl⟩
  rw [List.cons_append, List.nil_append, primary, peek_bind_mk_cons, kind]
  dsimp only
  rw [bind_of_ok (advance_mk_cons (by rw [kind]; decide))]
  rfl

theorem readsPhrase_identifier {token : Token} (id : UseId) (kind : token.kind = .identifier) :
    ReadsPhrase .primary [token] (.var id token.toName) := by
  intro budget rest _ errors nextId
  refine ⟨.var nextId token.toName, nextId + 1, ?_, rfl⟩
  rw [List.cons_append, List.nil_append, primary, peek_bind_mk_cons, kind]
  dsimp only
  rw [bind_of_ok (advance_mk_cons (by rw [kind]; decide))]
  rfl

theorem readsPhrase_group {opening closing : Token} {tokens : List Token} {inner : Expr}
    (openingKind : opening.kind = .punct .leftParen)
    (phrase : ReadsPhrase .assignment tokens inner)
    (closingKind : closing.kind = .punct .rightParen) :
    ReadsPhrase .primary (opening :: (tokens ++ [closing])) (.group inner) := by
  intro budget rest enough errors nextId
  simp only [List.length_cons, List.length_append, List.length_nil] at enough
  have stops : Stops .assignment (closing :: rest) := by
    rw [stops_cons, closingKind]
    rfl
  obtain ⟨result, finalId, parsed, shapes⟩ :=
    phrase budget (closing :: rest) (by omega) stops errors nextId
  refine ⟨.group result, finalId, ?_, ?_⟩
  · rw [List.cons_append, List.append_assoc, List.cons_append, List.nil_append, primary,
      peek_bind_mk_cons, openingKind]
    dsimp only
    rw [bind_of_ok (advance_mk_cons (by rw [openingKind]; decide)), bind_of_ok parsed,
      bind_of_ok (expect_mk_cons closingKind (by decide))]
    rfl
  · unfold Expr.shape at shapes ⊢
    simp only [Expr.relabel, shapes]

theorem readsPhrase_super {keyword dot method : Token} (id : UseId)
    (keywordKind : keyword.kind = .keyword .super_) (dotKind : dot.kind = .punct .dot)
    (methodKind : method.kind = .identifier) :
    ReadsPhrase .primary [keyword, dot, method] (.super id keyword.line method.toName) := by
  intro budget rest _ errors nextId
  refine ⟨.super nextId keyword.line method.toName, nextId + 1, ?_, rfl⟩
  simp only [List.cons_append, List.nil_append]
  rw [primary, peek_bind_mk_cons, keywordKind]
  dsimp only
  rw [bind_of_ok (advance_mk_cons (by rw [keywordKind]; decide)),
    bind_of_ok (expect_mk_cons dotKind (by decide)), bind_of_ok (expectName_mk_cons methodKind)]
  rfl

/-! ## Assignments -/

/-- A call that is not followed by an operator is an expression of every level. -/
theorem ReadsPhrase.reads_or {tokens : List Token} {expr : Expr}
    (derived : Derives .call tokens expr) (phrase : ReadsPhrase .call tokens expr) (budget : Nat)
    (enough : tokens.length ≤ budget + 1) (stops : Stops (.tier .or) rest) :
    Reads Expr.shape (levelParser budget (.tier .or)) tokens expr rest := by
  have nonempty := derived.tokens_ne_nil
  have unaryPhrase := readsPhrase_noOperation derived phrase
  have factorPhrase : ReadsPhrase (.tier .factor) tokens expr :=
    readsPhrase_operand unaryPhrase nonempty
  have termPhrase : ReadsPhrase (.tier .term) tokens expr :=
    readsPhrase_operand factorPhrase nonempty
  have comparisonPhrase : ReadsPhrase (.tier .comparison) tokens expr :=
    readsPhrase_operand termPhrase nonempty
  have equalityPhrase : ReadsPhrase (.tier .equality) tokens expr :=
    readsPhrase_operand comparisonPhrase nonempty
  have andPhrase : ReadsPhrase (.tier .and) tokens expr :=
    readsPhrase_operand equalityPhrase nonempty
  have orPhrase : ReadsPhrase (.tier .or) tokens expr :=
    readsPhrase_operand andPhrase nonempty
  exact orPhrase.reads_tier budget enough stops

/-- The parser for expressions reads a target and then looks for `=`. -/
theorem expression_succ (budget : Nat) :
    expression (budget + 1) =
      (levelParser budget (.tier .or) >>= fun target =>
        accept (.punct .equal) >>= fun found =>
          match found with
          | some equals => expression budget >>= assignTo target equals
          | none => pure target) := by
  rw [expression, assignment]
  rfl

theorem stops_or_of_equal {equals : Token} (equalsKind : equals.kind = .punct .equal) :
    Stops (.tier .or) (equals :: rest) := by
  rw [stops_cons, equalsKind]
  rfl

theorem readsPhrase_noAssignment {tokens : List Token} {expr : Expr}
    (phrase : ReadsPhrase (.tier .or) tokens expr) (nonempty : tokens ≠ []) :
    ReadsPhrase .assignment tokens expr := by
  intro budget rest enough stops errors nextId
  have taken := List.length_pos_iff.mpr nonempty
  obtain ⟨later, rfl⟩ : ∃ later, budget = later + 1 := ⟨budget - 1, by omega⟩
  obtain ⟨result, finalId, parsed, shapes⟩ :=
    phrase.reads_tier later enough stops.of_assignment errors nextId
  have noEquals : accept (.punct .equal) ⟨rest, errors, finalId⟩ =
      .ok none ⟨rest, errors, finalId⟩ := by
    refine accept_of_ne ?_
    intro same
    have stopped := stops.peek errors finalId
    rw [same] at stopped
    cases stopped
  refine ⟨result, finalId, ?_, shapes⟩
  rw [expression_succ, bind_of_ok parsed, bind_of_ok noEquals]
  rfl

theorem readsPhrase_assign {name equals : Token} {tokens : List Token} {value : Expr} (id : UseId)
    (nameKind : name.kind = .identifier) (equalsKind : equals.kind = .punct .equal)
    (valuePhrase : ReadsPhrase .assignment tokens value) :
    ReadsPhrase .assignment (name :: equals :: tokens) (.assign id name.toName value) := by
  intro budget rest enough stops errors nextId
  simp only [List.length_cons] at enough
  obtain ⟨later, rfl⟩ : ∃ later, budget = later + 1 := ⟨budget - 1, by omega⟩
  have targetDerived : Derives .call [name] (.var id name.toName) :=
    .noSuffix (.identifier id nameKind)
  have targetPhrase : ReadsPhrase .call [name] (.var id name.toName) :=
    readsPhrase_noSuffix (readsPhrase_identifier id nameKind) (by simp)
  have targetStops : Stops (.tier .or) (equals :: (tokens ++ rest)) :=
    stops_or_of_equal equalsKind
  obtain ⟨target, targetId, targetParsed, targetShape⟩ :=
    targetPhrase.reads_or targetDerived later (by simp) targetStops errors nextId
  obtain ⟨result, valueId, valueParsed, valueShape⟩ :=
    valuePhrase later rest (by omega) stops errors targetId
  obtain ⟨found, rfl⟩ : ∃ found, target = .var found name.toName := by
    cases target with
    | var found foundName =>
        simp only [Expr.shape, Expr.relabel, Name.moved_id, Expr.var.injEq, true_and] at targetShape
        exact ⟨found, by rw [targetShape]⟩
    | _ => simp [Expr.shape, Expr.relabel] at targetShape
  refine ⟨.assign valueId name.toName result, valueId + 1, ?_, ?_⟩
  · rw [List.cons_append, List.nil_append] at targetParsed
    rw [List.cons_append, List.cons_append, expression_succ, bind_of_ok targetParsed,
      bind_of_ok (accept_mk_cons equalsKind (by decide))]
    dsimp only
    rw [bind_of_ok valueParsed]
    rfl
  · unfold Expr.shape at valueShape ⊢
    simp only [Expr.relabel, valueShape]

theorem readsPhrase_set {target tokens : List Token} {dot name equals : Token}
    {object value : Expr} (targetDerived : Derives .call target object)
    (targetPhrase : ReadsPhrase .call target object) (dotKind : dot.kind = .punct .dot)
    (nameKind : name.kind = .identifier) (equalsKind : equals.kind = .punct .equal)
    (valuePhrase : ReadsPhrase .assignment tokens value) :
    ReadsPhrase .assignment (target ++ dot :: name :: equals :: tokens)
      (.set object name.toName value) := by
  intro budget rest enough stops errors nextId
  simp only [List.length_append, List.length_cons] at enough
  obtain ⟨later, rfl⟩ : ∃ later, budget = later + 1 := ⟨budget - 1, by omega⟩
  have propertyDerived : Derives .call (target ++ [dot, name]) (.get object name.toName) :=
    .property targetDerived dotKind nameKind
  have propertyPhrase : ReadsPhrase .call (target ++ [dot, name]) (.get object name.toName) :=
    readsPhrase_property targetPhrase dotKind nameKind
  have propertyEnough : (target ++ [dot, name]).length ≤ later + 1 := by
    simp only [List.length_append, List.length_cons, List.length_nil]
    omega
  have targetStops : Stops (.tier .or) (equals :: (tokens ++ rest)) :=
    stops_or_of_equal equalsKind
  obtain ⟨property, targetId, targetParsed, targetShape⟩ :=
    propertyPhrase.reads_or propertyDerived later propertyEnough targetStops errors nextId
  obtain ⟨result, valueId, valueParsed, valueShape⟩ :=
    valuePhrase later rest (by omega) stops errors targetId
  obtain ⟨found, rfl, foundShape⟩ :
      ∃ found, property = .get found name.toName ∧ found.shape = object.shape := by
    cases property with
    | get found foundName =>
        simp only [Expr.shape, Expr.relabel, Name.moved_id, Expr.get.injEq] at targetShape
        exact ⟨found, by rw [targetShape.2], targetShape.1⟩
    | _ => simp [Expr.shape, Expr.relabel] at targetShape
  refine ⟨.set found name.toName result, valueId, ?_, ?_⟩
  · simp only [List.append_assoc, List.cons_append, List.nil_append] at targetParsed ⊢
    rw [expression_succ, bind_of_ok targetParsed,
      bind_of_ok (accept_mk_cons equalsKind (by decide))]
    dsimp only
    rw [bind_of_ok valueParsed]
    rfl
  · unfold Expr.shape at valueShape foundShape ⊢
    simp only [Expr.relabel, valueShape, foundShape]

/-- The tokens of every phrase are read. -/
theorem reads_of_derives {phrase : Phrase} {tokens : List Token} {expr : Expr}
    (derived : Derives phrase tokens expr) :
    ReadsPhrase phrase tokens expr := by
  induction derived with
  | assign id nameKind equalsKind _ valuePhrase =>
      exact readsPhrase_assign id nameKind equalsKind valuePhrase
  | set targetDerived dotKind nameKind equalsKind _ targetPhrase valuePhrase =>
      exact readsPhrase_set targetDerived targetPhrase dotKind nameKind equalsKind valuePhrase
  | noAssignment derived phrase => exact readsPhrase_noAssignment phrase derived.tokens_ne_nil
  | operand derived phrase => exact readsPhrase_operand phrase derived.tokens_ne_nil
  | operation _ operatorKind _ leftPhrase rightPhrase =>
      exact readsPhrase_operation leftPhrase operatorKind rightPhrase
  | unaryOperation operatorKind derived phrase =>
      exact readsPhrase_unaryOperation operatorKind phrase derived.tokens_ne_nil
  | noOperation derived phrase => exact readsPhrase_noOperation derived phrase
  | invocation calleeDerived openingKind bounded givenDerived separated closingKind calleePhrase
      givenPhrases =>
      exact readsPhrase_invocation calleePhrase openingKind bounded givenDerived givenPhrases
        separated closingKind calleeDerived.tokens_ne_nil
  | property _ dotKind nameKind targetPhrase =>
      exact readsPhrase_property targetPhrase dotKind nameKind
  | noSuffix derived phrase => exact readsPhrase_noSuffix phrase derived.tokens_ne_nil
  | numberLiteral kind =>
      refine readsPhrase_constant (by rw [kind]; simp) fun _ _ _ _ => ?_
      rw [primary, peek_bind_mk_cons, kind]
  | stringLiteral kind =>
      refine readsPhrase_constant (by rw [kind]; simp) fun _ _ _ _ => ?_
      rw [primary, peek_bind_mk_cons, kind]
  | trueLiteral kind =>
      refine readsPhrase_constant (by rw [kind]; decide) fun _ _ _ _ => ?_
      rw [primary, peek_bind_mk_cons, kind]
  | falseLiteral kind =>
      refine readsPhrase_constant (by rw [kind]; decide) fun _ _ _ _ => ?_
      rw [primary, peek_bind_mk_cons, kind]
  | nilLiteral kind =>
      refine readsPhrase_constant (by rw [kind]; decide) fun _ _ _ _ => ?_
      rw [primary, peek_bind_mk_cons, kind]
  | this id kind => exact readsPhrase_this id kind
  | identifier id kind => exact readsPhrase_identifier id kind
  | group openingKind _ closingKind phrase =>
      exact readsPhrase_group openingKind phrase closingKind
  | super id keywordKind dotKind methodKind =>
      exact readsPhrase_super id keywordKind dotKind methodKind

/-- The tokens of an expression are read, unless the expression goes on behind
them. -/
theorem expression_complete {tokens : List Token} {expr : Expr}
    (derived : Derives .assignment tokens expr) {budget : Nat} (enough : tokens.length ≤ budget)
    (stops : Stops .assignment rest) :
    Reads Expr.shape (expression budget) tokens expr rest :=
  reads_of_derives derived budget rest enough stops

end Parser

end Lox
