import Lox.Proofs.Grammar.ItemLists
import Lox.Proofs.Parser.Recovery

/-!
# Expressions with lists of any length

Where lists of arguments may have any number of items, the parser still takes all tokens
of an expression.  It reports a fault at each argument past the limit of its list, and
nothing else: reading goes on as if the list were shorter.
-/

namespace Lox

namespace Parser

open Actions Grammar

variable {α β γ : Type} {rest : List Token}

/-! ## Reading with reports -/

/-- Before `rest`, the parser takes exactly the given tokens and records exactly the given
reports. -/
def Passes (parser : Parser α) (tokens : List Token) (reports : List SyntaxError)
    (rest : List Token) : Prop :=
  ∀ errors nextId, ∃ result finalId,
    parser ⟨tokens ++ rest, errors, nextId⟩ = .ok result ⟨rest, errors ++ reports, finalId⟩

theorem append_reports (errors : Array SyntaxError) (reports more : List SyntaxError) :
    errors ++ (reports ++ more) = errors ++ reports ++ more := by
  apply Array.toList_inj.mp
  simp

theorem Reads.passes {shape : α → γ} {parser : Parser α} {tokens : List Token} {value : α}
    (reads : Reads shape parser tokens value rest) : Passes parser tokens [] rest := by
  intro errors nextId
  obtain ⟨result, finalId, parsed, -⟩ := reads errors nextId
  exact ⟨result, finalId, parsed⟩

theorem Passes.pure (value : α) : Passes (Pure.pure value) [] [] rest :=
  fun _ nextId => ⟨value, nextId, rfl⟩

theorem Passes.bind {first : Parser α} {next : α → Parser β} {before after : List Token}
    {reports more : List SyntaxError} (firstPasses : Passes first before reports (after ++ rest))
    (nextPasses : ∀ result, Passes (next result) after more rest) :
    Passes (first >>= next) (before ++ after) (reports ++ more) rest := by
  intro errors nextId
  obtain ⟨result, middleId, firstParsed⟩ := firstPasses errors nextId
  obtain ⟨final, finalId, nextParsed⟩ := nextPasses result (errors ++ reports) middleId
  refine ⟨final, finalId, ?_⟩
  rw [List.append_assoc, bind_of_ok firstParsed, nextParsed, append_reports]

/-- Nothing is reported behind the first part. -/
theorem Passes.before {first : Parser α} {next : α → Parser β} {before after : List Token}
    {reports : List SyntaxError} (firstPasses : Passes first before reports (after ++ rest))
    (nextPasses : ∀ result, Passes (next result) after [] rest) :
    Passes (first >>= next) (before ++ after) reports rest := by
  rw [← List.append_nil reports]
  exact .bind firstPasses nextPasses

/-- Nothing is read behind the last part. -/
theorem Passes.last {first : Parser α} {tokens : List Token} {reports : List SyntaxError}
    (firstPasses : Passes first tokens reports rest) (build : α → β) :
    Passes (first >>= fun result => Pure.pure (build result)) tokens reports rest := by
  intro errors nextId
  obtain ⟨result, finalId, parsed⟩ := firstPasses errors nextId
  refine ⟨build result, finalId, ?_⟩
  rw [bind_of_ok parsed]
  rfl

theorem Passes.map {first : Parser α} {tokens : List Token} {reports : List SyntaxError}
    (firstPasses : Passes first tokens reports rest) (f : α → β) :
    Passes (f <$> first) tokens reports rest := by
  intro errors nextId
  obtain ⟨result, finalId, parsed⟩ := firstPasses errors nextId
  exact ⟨f result, finalId, map_eq_ok_iff.mpr ⟨result, parsed, rfl⟩⟩

section Tokens

variable {first : Parser α} {next : α → Parser β} {found : α} {token : Token}
  {tokens : List Token} {reports : List SyntaxError}

/-- A parser that takes one token. -/
theorem Passes.take
    (taken : ∀ following errors nextId,
      first ⟨token :: following, errors, nextId⟩ = .ok found ⟨following, errors, nextId⟩)
    (nextPasses : Passes (next found) tokens reports rest) :
    Passes (first >>= next) (token :: tokens) reports rest := by
  intro errors nextId
  rw [List.cons_append, bind_of_ok (taken _ errors nextId)]
  exact nextPasses errors nextId

/-- A parser that only looks. -/
theorem Passes.look
    (looked : ∀ errors nextId, first ⟨tokens ++ rest, errors, nextId⟩ =
      .ok found ⟨tokens ++ rest, errors, nextId⟩)
    (nextPasses : Passes (next found) tokens reports rest) :
    Passes (first >>= next) tokens reports rest := by
  intro errors nextId
  rw [bind_of_ok (looked errors nextId)]
  exact nextPasses errors nextId

theorem Passes.expect {next : Token → Parser β} {kind : TokenKind} {fault : SyntaxFault}
    (same : token.kind = kind) (inside : kind ≠ .endOfInput)
    (nextPasses : Passes (next token) tokens reports rest) :
    Passes (Parser.expect kind fault >>= next) (token :: tokens) reports rest :=
  .take (fun _ _ _ => expect_mk_cons same inside) nextPasses

theorem Passes.expectName {next : Name → Parser β} {fault : SyntaxFault}
    (same : token.kind = .identifier)
    (nextPasses : Passes (next token.toName) tokens reports rest) :
    Passes (Parser.expectName fault >>= next) (token :: tokens) reports rest :=
  .take (fun _ _ _ => expectName_mk_cons same) nextPasses

theorem Passes.advance {next : Token → Parser β} (inside : token.kind ≠ .endOfInput)
    (nextPasses : Passes (next token) tokens reports rest) :
    Passes (Parser.advance >>= next) (token :: tokens) reports rest :=
  .take (fun _ _ _ => advance_mk_cons inside) nextPasses

theorem Passes.peek {next : Token → Parser β}
    (nextPasses : Passes (next token) (token :: tokens) reports rest) :
    Passes (Parser.peek >>= next) (token :: tokens) reports rest :=
  .look (fun _ _ => peek_mk_cons) nextPasses

/-- A token whose kind announces what is read behind it. -/
theorem Passes.announced {next later : Token → Parser β} {kind : TokenKind}
    (same : token.kind = kind) (inside : kind ≠ .endOfInput)
    (announces : next token = Parser.advance >>= later)
    (laterPasses : Passes (later token) tokens reports rest) :
    Passes (Parser.peek >>= next) (token :: tokens) reports rest := by
  refine .peek ?_
  rw [announces]
  exact .advance (by rwa [same]) laterPasses

theorem Passes.skip {next : Bool → Parser β} {kind : TokenKind} (same : token.kind = kind)
    (inside : kind ≠ .endOfInput) (nextPasses : Passes (next true) tokens reports rest) :
    Passes (Parser.skip kind >>= next) (token :: tokens) reports rest :=
  .take (fun _ _ _ => skip_mk_cons same inside) nextPasses

theorem Passes.skip_lacks {next : Bool → Parser β} {kind : TokenKind}
    (lacks : Lacks kind (tokens ++ rest)) (inside : kind ≠ .endOfInput)
    (nextPasses : Passes (next false) tokens reports rest) :
    Passes (Parser.skip kind >>= next) tokens reports rest :=
  .look (fun errors nextId => skip_of_ne (lacks.peek inside errors nextId)) nextPasses

theorem Passes.check {next : Bool → Parser β} {kind : TokenKind} {following : List Token}
    (starts : tokens ++ rest = token :: following) (same : token.kind = kind)
    (inside : kind ≠ .endOfInput) (nextPasses : Passes (next true) tokens reports rest) :
    Passes (Parser.check kind >>= next) tokens reports rest := by
  refine .look (fun errors nextId => ?_) nextPasses
  rw [starts, check_mk_cons inside, decide_eq_true same]

theorem Passes.check_lacks {next : Bool → Parser β} {kind : TokenKind}
    (lacks : Lacks kind (tokens ++ rest)) (inside : kind ≠ .endOfInput)
    (nextPasses : Passes (next false) tokens reports rest) :
    Passes (Parser.check kind >>= next) tokens reports rest := by
  refine .look (fun errors nextId => ?_) nextPasses
  rw [check_eq inside, decide_eq_false (lacks.peek inside errors nextId)]

end Tokens

/-! ## Lists with commas -/

/-- What is reported while the parts of a list are read behind `count` others: a fault at
each part past the limit, and what is reported inside the parts. -/
def partReports (fault : SyntaxFault) : Nat → List (ListedPart α) → List SyntaxError
  | _, [] => []
  | count, part :: later =>
      (if Grammar.maxArity ≤ count then [⟨part.tokens.headD (.endOfInput 1), fault⟩] else []) ++
        (reportsOf part.lists ++ partReports fault (count + 1) later)

theorem partReports_of_bounded (fault : SyntaxFault) {count : Nat} {parts : List (ListedPart α)}
    (room : count + parts.length ≤ Grammar.maxArity) :
    partReports fault count parts = reportsOf (parts.flatMap ListedPart.lists) := by
  induction parts generalizing count with
  | nil => rfl
  | cons part later inductionHypothesis =>
      rw [List.length_cons] at room
      have notFull : ¬ Grammar.maxArity ≤ count := by omega
      have roomLater : count + 1 + later.length ≤ Grammar.maxArity := by omega
      rw [partReports, if_neg notFull, List.nil_append, inductionHypothesis roomLater,
        List.flatMap_cons, reportsOf_append]

theorem partReports_of_single (fault : SyntaxFault) (count : Nat) {parts : List (ListedPart α)}
    (plain : ∀ part ∈ parts, part.lists = []) :
    partReports fault count parts =
      ((parts.map ListedPart.tokens).drop (Grammar.maxArity - count)).map
        fun tokens => ⟨tokens.headD (.endOfInput 1), fault⟩ := by
  induction parts generalizing count with
  | nil => simp [partReports]
  | cons part later inductionHypothesis =>
      have laterPlain : ∀ part ∈ later, part.lists = [] :=
        fun part member => plain part (List.mem_cons_of_mem _ member)
      rw [partReports, inductionHypothesis (count + 1) laterPlain, plain part List.mem_cons_self,
        reportsOf_nil, List.nil_append, List.map_cons]
      by_cases full : Grammar.maxArity ≤ count
      · have noRoom : Grammar.maxArity - count = 0 := by omega
        have noRoomLater : Grammar.maxArity - (count + 1) = 0 := by omega
        rw [if_pos full, noRoom, noRoomLater]
        rfl
      · obtain ⟨room, roomEquality⟩ : ∃ room, Grammar.maxArity - count = room + 1 :=
          ⟨Grammar.maxArity - count - 1, by omega⟩
        have roomLater : Grammar.maxArity - (count + 1) = room := by omega
        rw [if_neg full, roomEquality, roomLater]
        rfl

/-- What is reported for a list is what is reported for those that are singled out. -/
theorem partReports_eq {kind : ListKind} {parts : List (ListedPart α)} {lists : List ItemList}
    (singles : SinglesOut kind parts lists) :
    partReports kind.fault 0 parts = reportsOf lists := by
  cases singles with
  | bounded short => exact partReports_of_bounded kind.fault (by omega)
  | single plain =>
      rw [partReports_of_single kind.fault 0 plain, reportsOf_singleton]
      rfl

/-- A fault is reported behind enough items, at the first token that follows. -/
theorem passes_report (fault : SyntaxFault) (count : Nat) {tokens : List Token}
    (nonempty : tokens ≠ []) :
    Passes (if Parser.maxArity ≤ count then report fault else Pure.pure ()) []
      (if Grammar.maxArity ≤ count then [⟨tokens.headD (.endOfInput 1), fault⟩] else [])
      (tokens ++ rest) := by
  obtain ⟨first, later, rfl⟩ := List.exists_cons_of_ne_nil nonempty
  change Passes (if Grammar.maxArity ≤ count then report fault else Pure.pure ()) _ _ _
  by_cases full : Grammar.maxArity ≤ count
  · rw [if_pos full, if_pos full]
    exact fun errors nextId => ⟨(), nextId, rfl⟩
  · rw [if_neg full, if_neg full]
    exact .pure ()

/-- Items are read one by one, however many there are. -/
theorem commaSeparated_passes {item : Parser α} {stopsItem : List Token → Prop}
    (fault : SyntaxFault)
    (stopsComma : ∀ {comma : Token} {later}, comma.kind = .punct .comma →
      stopsItem (comma :: later))
    {parts : List (ListedPart β)} {joined : List Token}
    (separated : Separated (parts.map ListedPart.tokens) joined) (nonempty : parts ≠ [])
    (taken : ∀ part ∈ parts, part.tokens ≠ [])
    (passes : ∀ part ∈ parts, ∀ following, stopsItem following →
      Passes item part.tokens (reportsOf part.lists) following)
    {budget : Nat} (enough : parts.length ≤ budget) (done : List α) (stops : stopsItem rest)
    (noComma : Lacks (.punct .comma) rest) :
    Passes (commaSeparated item fault budget done) joined
      (partReports fault done.length parts) rest := by
  induction parts generalizing joined budget done with
  | nil => exact absurd rfl nonempty
  | cons first later inductionHypothesis =>
      rw [List.length_cons] at enough
      obtain ⟨remaining, rfl⟩ : ∃ remaining, budget = remaining + 1 := ⟨budget - 1, by omega⟩
      have firstPasses := passes first List.mem_cons_self
      have firstTaken := taken first List.mem_cons_self
      rw [commaSeparated_succ, partReports]
      cases later with
      | nil =>
          obtain ⟨⟩ := separated
          rw [← List.nil_append first.tokens]
          refine .bind (passes_report fault done.length firstTaken) fun _ => ?_
          rw [partReports, ← List.append_nil first.tokens]
          refine .bind (firstPasses rest stops) fun value => ?_
          exact .skip_lacks noComma (by decide) (.pure _)
      | cons second more =>
          obtain ⟨comma, laterJoined, commaKind, laterSeparated, rfl⟩ := separated.cons_cons
          have enoughLater : (second :: more).length ≤ remaining := by omega
          have laterPasses := inductionHypothesis laterSeparated (by simp)
            (fun part member => taken part (List.mem_cons_of_mem _ member))
            (fun part member => passes part (List.mem_cons_of_mem _ member)) enoughLater
          rw [← List.nil_append (first.tokens ++ comma :: laterJoined)]
          refine .bind ?_ fun _ => ?_
          · rw [List.append_assoc]
            exact passes_report fault done.length firstTaken
          refine .bind (firstPasses _ (stopsComma commaKind)) fun value => ?_
          exact .skip commaKind (by decide) (laterPasses (value :: done))

/-! ## Phrases -/

/-- How the tokens of a phrase are read, with the reports for the lists in it.  Levels of
operators and calls are read in a loop, which is left with enough budget for the tokens
still to be read. -/
def PassesPhrase : Phrase → List Token → List SyntaxError → Prop
  | .assignment, tokens, reports =>
      ∀ budget rest, tokens.length ≤ budget → Stops .assignment rest →
        Passes (expression budget) tokens reports rest
  | .tier tier, tokens, reports =>
      ∀ budget rest errors nextId, tokens.length ≤ budget + 1 → Stops tier.operand rest →
        ∃ left finalId remaining, budget + 1 ≤ remaining + tokens.length ∧
          levelParser budget (.tier tier) ⟨tokens ++ rest, errors, nextId⟩ =
            operations (levelOf tier) (levelParser budget tier.operand) remaining left
              ⟨rest, errors ++ reports, finalId⟩
  | .unary, tokens, reports =>
      ∀ budget depth rest, tokens.length ≤ budget + 1 → tokens.length ≤ depth + 1 →
        Stops .unary rest →
          Passes (unary (expression budget) budget depth) tokens reports rest
  | .call, tokens, reports =>
      ∀ budget rest errors nextId, tokens.length ≤ budget + 1 →
        ∃ subject finalId remaining, budget + 1 ≤ remaining + tokens.length ∧
          call (expression budget) budget ⟨tokens ++ rest, errors, nextId⟩ =
            suffixes (expression budget) remaining subject ⟨rest, errors ++ reports, finalId⟩
  | .primary, tokens, reports =>
      ∀ budget rest, tokens.length ≤ budget + 1 →
        Passes (primary (expression budget)) tokens reports rest

theorem ReadsPhrase.passes {phrase : Phrase} {tokens : List Token} {expr : Expr}
    (reads : ReadsPhrase phrase tokens expr) : PassesPhrase phrase tokens [] := by
  cases phrase with
  | assignment => exact fun budget rest enough stops => (reads budget rest enough stops).passes
  | tier tier =>
      intro budget rest errors nextId enough stops
      obtain ⟨left, finalId, remaining, budgetLeft, parsed, -⟩ :=
        reads budget rest errors nextId enough stops
      exact ⟨left, finalId, remaining, budgetLeft, parsed⟩
  | unary =>
      exact fun budget depth rest enough deep stops =>
        (reads budget depth rest enough deep stops).passes
  | call =>
      intro budget rest errors nextId enough
      obtain ⟨subject, finalId, remaining, budgetLeft, parsed, -⟩ :=
        reads budget rest errors nextId enough
      exact ⟨subject, finalId, remaining, budgetLeft, parsed⟩
  | primary => exact fun budget rest enough => (reads budget rest enough).passes

section Phrases

variable {tokens : List Token} {reports : List SyntaxError}

theorem PassesPhrase.passes_tier {tier : Tier} (phrase : PassesPhrase (.tier tier) tokens reports)
    (budget : Nat) (enough : tokens.length ≤ budget + 1) (stops : Stops (.tier tier) rest) :
    Passes (levelParser budget (.tier tier)) tokens reports rest := by
  intro errors nextId
  obtain ⟨left, finalId, remaining, -, parsed⟩ :=
    phrase budget rest errors nextId enough stops.operand
  exact ⟨left, finalId, parsed.trans (operations_of_stops stops _ _)⟩

theorem PassesPhrase.passes_operand {tier : Tier}
    (phrase : PassesPhrase tier.operand tokens reports) (budget : Nat)
    (enough : tokens.length ≤ budget + 1) (stops : Stops tier.operand rest) :
    Passes (levelParser budget tier.operand) tokens reports rest := by
  cases tier with
  | factor => exact phrase budget budget rest enough enough stops
  | _ => exact PassesPhrase.passes_tier phrase budget enough stops

theorem passesPhrase_operand {tier : Tier} (phrase : PassesPhrase tier.operand tokens reports)
    (nonempty : tokens ≠ []) : PassesPhrase (.tier tier) tokens reports := by
  intro budget rest errors nextId enough stops
  have taken := List.length_pos_iff.mpr nonempty
  obtain ⟨left, finalId, parsed⟩ := phrase.passes_operand budget enough stops errors nextId
  refine ⟨left, finalId, budget, by omega, ?_⟩
  rw [levelParser_tier, bind_of_ok parsed]

/-- An operator of a level is not read as part of its operands. -/
theorem stops_operator {tier : Tier} {operator : Token}
    (operatorKind : operator.kind ∈ tier.operators) :
    Stops tier.operand (operator :: rest) := by
  rw [stops_cons]
  revert operatorKind
  generalize operator.kind = kind
  intro member
  cases tier <;> simp only [Tier.operators, List.mem_cons, List.not_mem_nil, or_false] at member
  all_goals rcases member with rfl | rfl | rfl | rfl <;> rfl

theorem passesPhrase_operation {tier : Tier} {before after : List Token} {operator : Token}
    {leftReports rightReports : List SyntaxError}
    (leftPhrase : PassesPhrase (.tier tier) before leftReports)
    (operatorKind : operator.kind ∈ tier.operators)
    (rightPhrase : PassesPhrase tier.operand after rightReports) :
    PassesPhrase (.tier tier) (before ++ operator :: after) (leftReports ++ rightReports) := by
  intro budget rest errors nextId enough stops
  rw [List.length_append, List.length_cons] at enough
  obtain ⟨left, leftId, remaining, budgetLeft, leftParsed⟩ :=
    leftPhrase budget (operator :: (after ++ rest)) errors nextId (by omega)
      (stops_operator operatorKind)
  obtain ⟨later, rfl⟩ : ∃ later, remaining = later + 1 := ⟨remaining - 1, by omega⟩
  obtain ⟨right, rightId, rightParsed⟩ :=
    rightPhrase.passes_operand budget (by omega) stops (errors ++ leftReports) leftId
  have accepted : acceptIf (levelOf tier).operators.contains
      ⟨operator :: (after ++ rest), errors ++ leftReports, leftId⟩ =
        .ok (some operator) ⟨after ++ rest, errors ++ leftReports, leftId⟩ :=
    acceptIf_mk_cons (Tier.inside operatorKind) (by simpa [levelOf] using operatorKind)
  refine ⟨(levelOf tier).combine left operator right, rightId, later, ?_, ?_⟩
  · rw [List.length_append, List.length_cons]
    omega
  · rw [List.append_assoc, List.cons_append, leftParsed, operations, bind_of_ok accepted]
    dsimp only
    rw [bind_of_ok rightParsed, append_reports]

theorem passesPhrase_unaryOperation {operator : Token}
    (operatorKind : operator.kind = .punct .bang ∨ operator.kind = .punct .minus)
    (phrase : PassesPhrase .unary tokens reports) (nonempty : tokens ≠ []) :
    PassesPhrase .unary (operator :: tokens) reports := by
  intro budget depth rest enough deep stops
  rw [List.length_cons] at enough deep
  have taken := List.length_pos_iff.mpr nonempty
  obtain ⟨shallower, rfl⟩ : ∃ shallower, depth = shallower + 1 := ⟨depth - 1, by omega⟩
  have accepted : ∀ following errors nextId,
      acceptIf isUnaryOperator ⟨operator :: following, errors, nextId⟩ =
        .ok (some operator) ⟨following, errors, nextId⟩ := by
    intro following errors nextId
    rcases operatorKind with kind | kind
    · exact acceptIf_mk_cons (by rw [kind]; decide) (by rw [kind]; decide)
    · exact acceptIf_mk_cons (by rw [kind]; decide) (by rw [kind]; decide)
  rw [unary]
  exact .take accepted
    (.last (phrase budget shallower rest (by omega) (by omega) stops) (Expr.unary operator))

/-- No operator stands before a call. -/
theorem unary_of_startsCall {expression : Parser Expr} {first : Token} {later : List Token}
    (starts : startsCall first.kind = true) (budget depth : Nat) (errors : Array SyntaxError)
    (nextId : UseId) :
    unary expression budget depth ⟨first :: later, errors, nextId⟩ =
      call expression budget ⟨first :: later, errors, nextId⟩ := by
  cases depth with
  | zero => rfl
  | succ depth =>
      have noOperator : isUnaryOperator first.kind = false := by
        revert starts
        generalize first.kind = kind
        intro starts
        rw [isUnaryOperator, Bool.or_eq_false_iff]
        constructor <;> exact decide_eq_false (by rintro rfl; cases starts)
      have refused : acceptIf isUnaryOperator ⟨first :: later, errors, nextId⟩ =
          .ok none ⟨first :: later, errors, nextId⟩ :=
        acceptIf_of_refused fun _ => noOperator
      rw [unary, bind_of_ok refused]

theorem passesPhrase_noOperation {expr : Expr} {lists : List ItemList}
    (derived : Lenient .call tokens expr lists) (phrase : PassesPhrase .call tokens reports) :
    PassesPhrase .unary tokens reports := by
  intro budget depth rest enough _ stops errors nextId
  obtain ⟨subject, finalId, remaining, -, parsed⟩ := phrase budget rest errors nextId enough
  rw [suffixes_of_stops stops] at parsed
  obtain ⟨first, later, rfl, -, starts⟩ := derived.head
  exact ⟨subject, finalId, (unary_of_startsCall (starts (.inl rfl)) _ _ _ _).trans parsed⟩

/-! ### Calls -/

/-- An expression starts with no token that starts none. -/
theorem lacks_of_lenient {expr : Expr} {lists : List ItemList} {kind : TokenKind}
    (derived : Lenient .assignment tokens expr lists) (startsNone : startsExpression kind = false)
    (following : List Token) : Lacks kind (tokens ++ following) := by
  obtain ⟨first, later, rfl, starts, -⟩ := derived.head
  apply lacks_cons
  intro same
  rw [same, startsNone] at starts
  cases starts

/-- The arguments of a call are read up to the closing parenthesis. -/
theorem arguments_passes {budget remaining : Nat} {joined : List Token} {closing : Token}
    {given : List (ListedPart Expr)} {lists : List ItemList}
    (derived : ∀ part ∈ given, Lenient .assignment part.tokens part.tree part.lists)
    (phrases : ∀ part ∈ given, PassesPhrase .assignment part.tokens (reportsOf part.lists))
    (singles : SinglesOut .arguments given lists)
    (separated : Separated (given.map ListedPart.tokens) joined)
    (closingKind : closing.kind = .punct .rightParen)
    (enough : joined.length ≤ budget) (enoughItems : joined.length ≤ remaining) :
    Passes (arguments (expression budget) remaining) joined (reportsOf lists)
      (closing :: rest) := by
  rw [← partReports_eq singles, arguments]
  cases given with
  | nil =>
      obtain ⟨⟩ := separated
      exact .check rfl closingKind (by decide) (.pure [])
  | cons first later =>
      have taken : ∀ part ∈ first :: later, part.tokens ≠ [] :=
        fun part member => (derived part member).tokens_ne_nil
      have fewer := separated.count_le (by simpa using taken)
      rw [List.length_map] at fewer
      have itemPasses : ∀ part ∈ first :: later, ∀ following, Stops .assignment following →
          Passes (expression budget) part.tokens (reportsOf part.lists) following := by
        intro part member following stops
        have shorter := separated.length_le_of_mem (List.mem_map_of_mem member)
        exact phrases part member budget following (Nat.le_trans shorter enough) stops
      have lacks : Lacks (.punct .rightParen) (joined ++ closing :: rest) := by
        obtain ⟨more, rfl⟩ := separated.exists_append
        rw [List.append_assoc]
        exact lacks_of_lenient (derived first List.mem_cons_self) (by decide) _
      exact .check_lacks lacks (by decide)
        (commaSeparated_passes .tooManyArguments
          (fun commaKind => by rw [stops_cons, commaKind]; rfl) separated (by simp) taken itemPasses
          (Nat.le_trans fewer enoughItems) [] (stops_of_rightParen closingKind)
          (lacks_cons (by rw [closingKind]; decide)))

theorem passesPhrase_invocation {callee joined : List Token} {opening closing : Token}
    {given : List (ListedPart Expr)} {lists : List ItemList}
    (calleePhrase : PassesPhrase .call callee reports) (nonempty : callee ≠ [])
    (openingKind : opening.kind = .punct .leftParen)
    (derived : ∀ part ∈ given, Lenient .assignment part.tokens part.tree part.lists)
    (phrases : ∀ part ∈ given, PassesPhrase .assignment part.tokens (reportsOf part.lists))
    (singles : SinglesOut .arguments given lists)
    (separated : Separated (given.map ListedPart.tokens) joined)
    (closingKind : closing.kind = .punct .rightParen) :
    PassesPhrase .call (callee ++ opening :: (joined ++ [closing]))
      (reports ++ reportsOf lists) := by
  intro budget rest errors nextId enough
  simp only [List.length_append, List.length_cons, List.length_nil] at enough
  have taken := List.length_pos_iff.mpr nonempty
  obtain ⟨subject, calleeId, remaining, budgetLeft, calleeParsed⟩ :=
    calleePhrase budget (opening :: (joined ++ closing :: rest)) errors nextId (by omega)
  obtain ⟨later, rfl⟩ : ∃ later, remaining = later + 1 := ⟨remaining - 1, by omega⟩
  have givenPasses : Passes (arguments (expression budget) later) joined (reportsOf lists)
      (closing :: rest) :=
    arguments_passes derived phrases singles separated closingKind (by omega) (by omega)
  obtain ⟨values, finalId, givenParsed⟩ := givenPasses (errors ++ reports) calleeId
  refine ⟨.call subject closing.line values, finalId, later, ?_, ?_⟩
  · simp only [List.length_append, List.length_cons, List.length_nil]
    omega
  · simp only [List.append_assoc, List.cons_append, List.nil_append]
    rw [calleeParsed, suffixes, bind_of_ok (skip_mk_cons openingKind (by decide)), if_pos rfl,
      bind_of_ok givenParsed, bind_of_ok (expect_mk_cons closingKind (by decide)), append_reports]

/-- A property access is read in the loop of a call. -/
theorem suffixes_property {expression : Parser Expr} {dot name : Token} (remaining : Nat)
    (subject : Expr) (errors : Array SyntaxError) (nextId : UseId)
    (dotKind : dot.kind = .punct .dot) (nameKind : name.kind = .identifier) :
    suffixes expression (remaining + 1) subject ⟨dot :: name :: rest, errors, nextId⟩ =
      suffixes expression remaining (.get subject name.toName) ⟨rest, errors, nextId⟩ := by
  have notCalled : skip (.punct .leftParen) ⟨dot :: name :: rest, errors, nextId⟩ =
      .ok false ⟨dot :: name :: rest, errors, nextId⟩ :=
    skip_of_ne (by rw [ParserState.peek_cons, dotKind]; decide)
  rw [suffixes, bind_of_ok notCalled, if_neg (by decide),
    bind_of_ok (skip_mk_cons dotKind (by decide)), if_pos rfl,
    bind_of_ok (expectName_mk_cons nameKind)]

theorem passesPhrase_property {dot name : Token} (targetPhrase : PassesPhrase .call tokens reports)
    (dotKind : dot.kind = .punct .dot) (nameKind : name.kind = .identifier) :
    PassesPhrase .call (tokens ++ [dot, name]) reports := by
  intro budget rest errors nextId enough
  simp only [List.length_append, List.length_cons, List.length_nil] at enough
  obtain ⟨subject, finalId, remaining, budgetLeft, parsed⟩ :=
    targetPhrase budget (dot :: name :: rest) errors nextId (by omega)
  obtain ⟨later, rfl⟩ : ∃ later, remaining = later + 1 := ⟨remaining - 1, by omega⟩
  refine ⟨.get subject name.toName, finalId, later, ?_, ?_⟩
  · simp only [List.length_append, List.length_cons, List.length_nil]
    omega
  · simp only [List.append_assoc, List.cons_append, List.nil_append]
    rw [parsed, suffixes_property later subject _ _ dotKind nameKind]

theorem passesPhrase_noSuffix (phrase : PassesPhrase .primary tokens reports)
    (nonempty : tokens ≠ []) : PassesPhrase .call tokens reports := by
  intro budget rest errors nextId enough
  have taken := List.length_pos_iff.mpr nonempty
  obtain ⟨subject, finalId, parsed⟩ := phrase budget rest enough errors nextId
  refine ⟨subject, finalId, budget, by omega, ?_⟩
  rw [call, bind_of_ok parsed]

theorem passesPhrase_group {opening closing : Token}
    (openingKind : opening.kind = .punct .leftParen)
    (phrase : PassesPhrase .assignment tokens reports)
    (closingKind : closing.kind = .punct .rightParen) :
    PassesPhrase .primary (opening :: (tokens ++ [closing])) reports := by
  intro budget rest enough
  simp only [List.length_cons, List.length_append, List.length_nil] at enough
  rw [primary]
  refine .announced openingKind (by decide) (by rw [openingKind]) ?_
  exact .before (phrase budget _ (by omega) (stops_of_rightParen closingKind)) fun _ =>
    .expect closingKind (by decide) (.pure _)

/-! ### Assignments -/

theorem levelParser_of_operand {tier : Tier} {budget : Nat} {state : ParserState} {result : Expr}
    {errors : Array SyntaxError} {nextId : UseId}
    (parsed : levelParser budget tier.operand state = .ok result ⟨rest, errors, nextId⟩)
    (stops : Stops (.tier tier) rest) :
    levelParser budget (.tier tier) state = .ok result ⟨rest, errors, nextId⟩ := by
  rw [levelParser_tier, bind_of_ok parsed]
  exact operations_of_stops stops budget result

/-- What is read before a token that is no operator is read at every level. -/
theorem levelParser_or_of_unary {budget : Nat} {state : ParserState} {result : Expr}
    {errors : Array SyntaxError} {nextId : UseId}
    (parsed : unary (expression budget) budget budget state = .ok result ⟨rest, errors, nextId⟩)
    (stops : Stops (.tier .or) rest) :
    levelParser budget (.tier .or) state = .ok result ⟨rest, errors, nextId⟩ := by
  have factor : levelParser budget (.tier .factor) state = .ok result ⟨rest, errors, nextId⟩ :=
    levelParser_of_operand parsed stops.operand.operand.operand.operand.operand
  have term : levelParser budget (.tier .term) state = .ok result ⟨rest, errors, nextId⟩ :=
    levelParser_of_operand factor stops.operand.operand.operand.operand
  have comparison : levelParser budget (.tier .comparison) state =
      .ok result ⟨rest, errors, nextId⟩ :=
    levelParser_of_operand term stops.operand.operand.operand
  have equality : levelParser budget (.tier .equality) state =
      .ok result ⟨rest, errors, nextId⟩ :=
    levelParser_of_operand comparison stops.operand.operand
  have conjunct : levelParser budget (.tier .and) state = .ok result ⟨rest, errors, nextId⟩ :=
    levelParser_of_operand equality stops.operand
  exact levelParser_of_operand conjunct stops

theorem passesPhrase_noAssignment (phrase : PassesPhrase (.tier .or) tokens reports)
    (nonempty : tokens ≠ []) : PassesPhrase .assignment tokens reports := by
  intro budget rest enough stops errors nextId
  have taken := List.length_pos_iff.mpr nonempty
  obtain ⟨later, rfl⟩ : ∃ later, budget = later + 1 := ⟨budget - 1, by omega⟩
  obtain ⟨result, finalId, parsed⟩ :=
    phrase.passes_tier later enough stops.of_assignment errors nextId
  have noEquals : accept (.punct .equal) ⟨rest, errors ++ reports, finalId⟩ =
      .ok none ⟨rest, errors ++ reports, finalId⟩ := by
    apply accept_of_ne
    intro same
    have stopped := stops.peek (errors ++ reports) finalId
    rw [same] at stopped
    cases stopped
  refine ⟨result, finalId, ?_⟩
  rw [expression_succ, bind_of_ok parsed, bind_of_ok noEquals]
  rfl

/-- An assignment is read if its target is a variable or a property. -/
theorem passes_assignment {target : List Token} {equals : Token} {subject : Expr} {later : Nat}
    {targetReports : List SyntaxError} {errors : Array SyntaxError} {nextId targetId : UseId}
    (targetParsed : unary (expression later) later later
      ⟨target ++ equals :: (tokens ++ rest), errors, nextId⟩ =
        .ok subject ⟨equals :: (tokens ++ rest), errors ++ targetReports, targetId⟩)
    (isTarget : ∀ value state, ∃ result finalId,
      assignTo subject equals value state = .ok result ⟨state.rest, state.errors, finalId⟩)
    (equalsKind : equals.kind = .punct .equal)
    (valuePasses : Passes (expression later) tokens reports rest) :
    ∃ result finalId,
      expression (later + 1) ⟨target ++ equals :: tokens ++ rest, errors, nextId⟩ =
        .ok result ⟨rest, errors ++ (targetReports ++ reports), finalId⟩ := by
  have leveled := levelParser_or_of_unary targetParsed (stops_or_of_equal equalsKind)
  obtain ⟨value, valueId, valueParsed⟩ := valuePasses (errors ++ targetReports) targetId
  obtain ⟨result, finalId, assigned⟩ :=
    isTarget value ⟨rest, errors ++ targetReports ++ reports, valueId⟩
  refine ⟨result, finalId, ?_⟩
  rw [List.append_assoc, List.cons_append, expression_succ, bind_of_ok leveled,
    bind_of_ok (accept_mk_cons equalsKind (by decide))]
  dsimp only
  rw [bind_of_ok valueParsed, assigned, append_reports]

theorem passesPhrase_assign {name equals : Token} (nameKind : name.kind = .identifier)
    (equalsKind : equals.kind = .punct .equal)
    (valuePhrase : PassesPhrase .assignment tokens reports) :
    PassesPhrase .assignment (name :: equals :: tokens) reports := by
  intro budget rest enough stops errors nextId
  simp only [List.length_cons] at enough
  obtain ⟨later, rfl⟩ : ∃ later, budget = later + 1 := ⟨budget - 1, by omega⟩
  have read : primary (expression later) ⟨name :: equals :: (tokens ++ rest), errors, nextId⟩ =
      .ok (.var nextId name.toName) ⟨equals :: (tokens ++ rest), errors, nextId + 1⟩ := by
    rw [primary, peek_bind_mk_cons, nameKind]
    dsimp only
    rw [bind_of_ok (advance_mk_cons (by rw [nameKind]; decide))]
    rfl
  have unread : Stops .unary (equals :: (tokens ++ rest)) := by
    rw [stops_cons, equalsKind]
    rfl
  have targetParsed : unary (expression later) later later
      ⟨[name] ++ equals :: (tokens ++ rest), errors, nextId⟩ =
        .ok (.var nextId name.toName)
          ⟨equals :: (tokens ++ rest), errors ++ ([] : List SyntaxError), nextId + 1⟩ := by
    rw [List.cons_append, unary_of_startsCall (by rw [nameKind]; rfl), call]
    exact (bind_of_ok read).trans (suffixes_of_stops unread later _)
  exact passes_assignment targetParsed (fun _ state => ⟨_, state.nextId + 1, rfl⟩) equalsKind
    (valuePhrase later rest (by omega) stops)

theorem passesPhrase_set {target : List Token} {dot name equals : Token} {object : Expr}
    {lists : List ItemList} {targetReports : List SyntaxError}
    (targetDerived : Lenient .call target object lists)
    (targetPhrase : PassesPhrase .call target targetReports) (dotKind : dot.kind = .punct .dot)
    (nameKind : name.kind = .identifier) (equalsKind : equals.kind = .punct .equal)
    (valuePhrase : PassesPhrase .assignment tokens reports) :
    PassesPhrase .assignment (target ++ dot :: name :: equals :: tokens)
      (targetReports ++ reports) := by
  intro budget rest enough stops errors nextId
  simp only [List.length_append, List.length_cons] at enough
  obtain ⟨later, rfl⟩ : ∃ later, budget = later + 1 := ⟨budget - 1, by omega⟩
  obtain ⟨subject, targetId, remaining, budgetLeft, parsed⟩ :=
    targetPhrase later (dot :: name :: equals :: (tokens ++ rest)) errors nextId (by omega)
  obtain ⟨left, rfl⟩ : ∃ left, remaining = left + 1 := ⟨remaining - 1, by omega⟩
  have unread : Stops .unary (equals :: (tokens ++ rest)) := by
    rw [stops_cons, equalsKind]
    rfl
  rw [suffixes_property left subject _ _ dotKind nameKind, suffixes_of_stops unread] at parsed
  have targetParsed : unary (expression later) later later
      ⟨(target ++ [dot, name]) ++ equals :: (tokens ++ rest), errors, nextId⟩ =
        .ok (.get subject name.toName)
          ⟨equals :: (tokens ++ rest), errors ++ targetReports, targetId⟩ := by
    obtain ⟨first, others, rfl, -, starts⟩ := targetDerived.head
    rw [List.append_assoc]
    exact (unary_of_startsCall (starts (.inl rfl)) _ _ _ _).trans parsed
  have assigned := passes_assignment targetParsed (fun _ state => ⟨_, state.nextId, rfl⟩)
    equalsKind (valuePhrase later rest (by omega) stops)
  simpa using assigned

/-- The tokens of every phrase are read, and the lists that are singled out in it are
reported in the order in which they stand. -/
theorem passes_of_lenient {phrase : Phrase} {expr : Expr} {lists : List ItemList}
    (derived : Lenient phrase tokens expr lists) :
    PassesPhrase phrase tokens (reportsOf lists) := by
  induction derived with
  | strict derived => exact (reads_of_derives derived).passes
  | assign id nameKind equalsKind _ valuePhrase =>
      exact passesPhrase_assign nameKind equalsKind valuePhrase
  | set targetDerived dotKind nameKind equalsKind _ targetPhrase valuePhrase =>
      rw [reportsOf_append]
      exact passesPhrase_set targetDerived targetPhrase dotKind nameKind equalsKind valuePhrase
  | noAssignment derived phrase => exact passesPhrase_noAssignment phrase derived.tokens_ne_nil
  | operand derived phrase => exact passesPhrase_operand phrase derived.tokens_ne_nil
  | operation _ operatorKind _ leftPhrase rightPhrase =>
      rw [reportsOf_append]
      exact passesPhrase_operation leftPhrase operatorKind rightPhrase
  | unaryOperation operatorKind derived phrase =>
      exact passesPhrase_unaryOperation operatorKind phrase derived.tokens_ne_nil
  | noOperation derived phrase => exact passesPhrase_noOperation derived phrase
  | invocation calleeDerived openingKind givenDerived singles separated closingKind calleePhrase
      givenPhrases =>
      rw [reportsOf_append]
      exact passesPhrase_invocation calleePhrase calleeDerived.tokens_ne_nil openingKind
        givenDerived givenPhrases singles separated closingKind
  | property _ dotKind nameKind targetPhrase =>
      exact passesPhrase_property targetPhrase dotKind nameKind
  | noSuffix derived phrase => exact passesPhrase_noSuffix phrase derived.tokens_ne_nil
  | group openingKind _ closingKind phrase =>
      exact passesPhrase_group openingKind phrase closingKind

/-- The tokens of an expression are read, unless the expression goes on behind them. -/
theorem expression_passes {expr : Expr} {lists : List ItemList} {budget : Nat}
    (derived : Lenient .assignment tokens expr lists) (enough : tokens.length ≤ budget)
    (stops : Stops .assignment rest) :
    Passes (expression budget) tokens (reportsOf lists) rest :=
  passes_of_lenient derived budget rest enough stops

end Phrases

end Parser

end Lox
