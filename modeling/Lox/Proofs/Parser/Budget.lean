import Lox.Proofs.Parser.Progress

/-!
# Budgets of parsers

On every token list that ends with the end of input, well-formed or not, a budget of the
number of tokens is never used up: larger ones make no difference.  A parser stays in front of
the end of input, and whatever it reads takes tokens.  Every declaration that is begun takes
one, also if it is given up and tokens are skipped.
-/

namespace Lox

open Actions

namespace ParserState

variable {state : ParserState}

theorem Ended.length_pos (ended : state.Ended) : 0 < state.rest.length :=
  List.length_pos_iff.mpr ended.ne_nil

theorem Ended.length_tail (ended : state.Ended) :
    state.rest.tail.length + 1 = state.rest.length := by
  rw [List.length_tail]
  exact Nat.sub_add_cancel ended.length_pos

/-- A single token is the end of input. -/
theorem Ended.isAtEnd_of_length (ended : state.Ended) (short : state.rest.length ≤ 1) :
    state.isAtEnd = true := by
  cases before : state.isAtEnd with
  | true => rfl
  | false =>
      have later := (ended.tail before).length_pos
      have shorter := ended.length_tail
      dsimp only at later
      omega

end ParserState

namespace Parser

/-! ## Orderly runs -/

section Orderly

variable {α β : Type}

/-- Run from the state, the parser leaves the end of input in front of it and only moves
forward, takes at least so many tokens if it succeeds, and does what the other one does, which
has a larger budget. -/
structure Orderly (count : Nat) (parser larger : Parser α) (state : ParserState) : Prop where
  same : larger state = parser state
  ended : (endState (parser state)).Ended
  forward : (endState (parser state)).rest <:+ state.rest
  takes : ∀ {value final}, parser state = .ok value final →
    final.rest.length + count ≤ state.rest.length

/-- The parser is orderly from all states with at most so many tokens to be read. -/
def OrderlyUpTo (limit count : Nat) (parser larger : Parser α) : Prop :=
  ∀ state : ParserState, state.Ended → state.rest.length ≤ limit →
    Orderly count parser larger state

variable {state : ParserState} {limit count more : Nat}
  {parser larger first first' : Parser α} {next next' : α → Parser β}

namespace Orderly

theorem final_ended (orderly : Orderly count parser larger state) {value : α}
    {final : ParserState} (succeeded : parser state = .ok value final) : final.Ended := by
  have ended := orderly.ended
  rw [succeeded] at ended
  exact ended

theorem of_le (orderly : Orderly count parser larger state) (fewer : more ≤ count) :
    Orderly more parser larger state where
  same := orderly.same
  ended := orderly.ended
  forward := orderly.forward
  takes succeeded := Nat.le_trans (Nat.add_le_add_left fewer _) (orderly.takes succeeded)

/-- Nothing is taken by a parser that stays where it is. -/
theorem stay (ended : state.Ended) {value : α} (stays : parser state = .ok value state) :
    Orderly 0 parser parser state where
  same := rfl
  ended := by
    rw [stays]
    exact ended
  forward := by
    rw [stays]
    exact List.suffix_refl _
  takes succeeded := by
    rw [stays] at succeeded
    cases succeeded
    exact Nat.le_refl _

/-- A token that was seen is taken. -/
theorem take (ended : state.Ended) (before : state.isAtEnd = false) {value : α}
    (moves : parser state = .ok value { state with rest := state.rest.tail }) :
    Orderly 1 parser parser state where
  same := rfl
  ended := by
    rw [moves]
    exact ended.tail before
  forward := by
    rw [moves]
    exact List.tail_suffix _
  takes succeeded := by
    rw [moves] at succeeded
    cases succeeded
    exact Nat.le_of_eq ended.length_tail

theorem bind (firstOrderly : Orderly count first first' state)
    (rest : ∀ value middle, first state = .ok value middle → middle.Ended →
      middle.rest.length + count ≤ state.rest.length →
      Orderly more (next value) (next' value) middle) :
    Orderly (count + more) (first >>= next) (first' >>= next') state := by
  have same := firstOrderly.same
  have ended := firstOrderly.ended
  have forward := firstOrderly.forward
  cases result : first state with
  | error error middle =>
      rw [result] at same ended forward
      refine ⟨?_, ?_, ?_, ?_⟩
      · rw [bind_of_error result, bind_of_error same]
      · rw [bind_of_error result]
        exact ended
      · rw [bind_of_error result]
        exact forward
      · intro value final succeeded
        rw [bind_of_error result] at succeeded
        cases succeeded
  | ok value middle =>
      rw [result] at same ended forward
      have later := rest value middle result ended (firstOrderly.takes result)
      refine ⟨?_, ?_, ?_, ?_⟩
      · rw [bind_of_ok result, bind_of_ok same, later.same]
      · rw [bind_of_ok result]
        exact later.ended
      · rw [bind_of_ok result]
        exact later.forward.trans forward
      · intro value' final succeeded
        rw [bind_of_ok result] at succeeded
        have taken := firstOrderly.takes result
        have takenLater := later.takes succeeded
        omega

end Orderly

namespace OrderlyUpTo

/-- There is nothing to be read from no tokens. -/
theorem zero : OrderlyUpTo 0 count parser larger := by
  intro state ended empty
  exact absurd (Nat.lt_of_lt_of_le ended.length_pos empty) (Nat.lt_irrefl 0)

theorem mono (orderly : OrderlyUpTo limit count parser larger) {limit' : Nat}
    (lower : limit' ≤ limit) : OrderlyUpTo limit' count parser larger :=
  fun state ended short => orderly state ended (Nat.le_trans short lower)

theorem of_le (orderly : OrderlyUpTo limit count parser larger) (fewer : more ≤ count) :
    OrderlyUpTo limit more parser larger :=
  fun state ended short => (orderly state ended short).of_le fewer

/-- What follows has fewer tokens to be read. -/
theorem bindBelow (firstOrderly : OrderlyUpTo limit count first first')
    (rest : ∀ value, OrderlyUpTo (limit - count) more (next value) (next' value)) :
    OrderlyUpTo limit count (first >>= next) (first' >>= next') := by
  intro state ended short
  have both : Orderly (count + more) (first >>= next) (first' >>= next') state := by
    apply (firstOrderly state ended short).bind
    intro value middle _ middleEnded taken
    exact rest value middle middleEnded (by omega)
  exact both.of_le (Nat.le_add_right _ _)

theorem bind (firstOrderly : OrderlyUpTo limit count first first')
    (rest : ∀ value, OrderlyUpTo limit more (next value) (next' value)) :
    OrderlyUpTo limit count (first >>= next) (first' >>= next') :=
  firstOrderly.bindBelow fun value => (rest value).mono (Nat.sub_le _ _)

/-- The tokens that are taken later count. -/
theorem after (firstOrderly : OrderlyUpTo limit count first first')
    (rest : ∀ value, OrderlyUpTo limit more (next value) (next' value)) :
    OrderlyUpTo limit more (first >>= next) (first' >>= next') := by
  intro state ended short
  have both : Orderly (0 + more) (first >>= next) (first' >>= next') state := by
    apply ((firstOrderly state ended short).of_le (Nat.zero_le _)).bind
    intro value middle _ middleEnded taken
    exact rest value middle middleEnded (by omega)
  exact both.of_le (Nat.le_add_left _ _)

theorem ite {condition : Prop} [Decidable condition] {second second' : Parser α}
    (firstOrderly : OrderlyUpTo limit count first first')
    (secondOrderly : OrderlyUpTo limit count second second') :
    OrderlyUpTo limit count (if condition then first else second)
      (if condition then first' else second') := by
  split
  · exact firstOrderly
  · exact secondOrderly

theorem pure (value : α) :
    OrderlyUpTo limit 0 (Pure.pure value : Parser α) (Pure.pure value) :=
  fun _ ended _ => .stay ended rfl

theorem map (f : α → β) (orderly : OrderlyUpTo limit count first first') :
    OrderlyUpTo limit count (f <$> first) (f <$> first') :=
  orderly.bind fun value => pure (f value)

/-- What follows a parser that only looks may depend on what it sees. -/
theorem look {sees : ParserState → α} (orderly : OrderlyUpTo limit 0 first first)
    (looks : ∀ state, first state = .ok (sees state) state)
    (rest : ∀ state : ParserState, state.Ended → state.rest.length ≤ limit →
      Orderly count (next (sees state)) (next' (sees state)) state) :
    OrderlyUpTo limit count (first >>= next) (first >>= next') := by
  intro state ended short
  have both : Orderly (0 + count) (first >>= next) (first >>= next') state := by
    apply (orderly state ended short).bind
    intro value middle seen _ _
    rw [looks] at seen
    cases seen
    exact rest state ended short
  exact both.of_le (Nat.le_add_left _ _)

end OrderlyUpTo

end Orderly

/-! ## Single tokens -/

section Tokens

variable {α β : Type} {state : ParserState} {limit count more : Nat}

theorem orderly_peek : OrderlyUpTo limit 0 peek peek :=
  fun _ ended _ => .stay ended rfl

theorem orderly_isAtEnd : OrderlyUpTo limit 0 isAtEnd isAtEnd :=
  fun _ ended _ => .stay ended rfl

theorem orderly_check (kind : TokenKind) : OrderlyUpTo limit 0 (check kind) (check kind) :=
  fun state ended _ => .stay ended (check_apply state kind)

theorem orderly_fail (fault : SyntaxFault) :
    OrderlyUpTo limit count (fail fault : Parser α) (fail fault) :=
  fun _ ended _ => ⟨rfl, ended, List.suffix_refl _, nofun⟩

theorem orderly_reportAt (token : Token) (fault : SyntaxFault) :
    OrderlyUpTo limit 0 (reportAt token fault) (reportAt token fault) := by
  intro state ended _
  refine ⟨rfl, ended, List.suffix_refl _, ?_⟩
  intro value final succeeded
  cases succeeded
  exact Nat.le_refl _

theorem orderly_report (fault : SyntaxFault) : OrderlyUpTo limit 0 (report fault) (report fault) :=
  orderly_peek.bind fun _ => orderly_reportAt _ _

theorem orderly_freshId : OrderlyUpTo limit 0 freshId freshId := by
  intro state ended _
  refine ⟨rfl, ended, List.suffix_refl _, ?_⟩
  intro id final succeeded
  cases succeeded
  exact Nat.le_refl _

theorem orderly_advance (ended : state.Ended) (before : state.isAtEnd = false) :
    Orderly 1 advance advance state := by
  have moves : advance state = .ok state.peek { state with rest := state.rest.tail } := by
    rw [advance_apply, ParserState.advance, before]
    rfl
  exact .take ended before moves

theorem acceptIf_cases (accepts : TokenKind → Bool) (state : ParserState) :
    (state.isAtEnd = false ∧
      acceptIf accepts state = .ok (some state.peek) { state with rest := state.rest.tail }) ∨
    acceptIf accepts state = .ok none state := by
  by_cases passed : (!state.isAtEnd && accepts state.peek.kind) = true
  · left
    have both := passed
    rw [Bool.and_eq_true, Bool.not_eq_true'] at both
    exact ⟨both.1, by rw [acceptIf_apply, if_pos passed]⟩
  · right
    rw [acceptIf_apply, if_neg passed]

/-- What follows a token that was accepted has fewer tokens to be read. -/
theorem orderly_acceptIf (accepts : TokenKind → Bool) {next next' : Option Token → Parser β}
    (taken : ∀ token,
      OrderlyUpTo (limit - 1) count (next (some token)) (next' (some token)))
    (left : OrderlyUpTo limit more (next none) (next' none)) (fewer : more ≤ count + 1) :
    OrderlyUpTo limit more (acceptIf accepts >>= next) (acceptIf accepts >>= next') := by
  intro state ended short
  rcases acceptIf_cases accepts state with ⟨before, moves⟩ | stays
  · have accepted : Orderly 1 (acceptIf accepts) (acceptIf accepts) state :=
      .take ended before moves
    have both : Orderly (1 + count) (acceptIf accepts >>= next) (acceptIf accepts >>= next')
        state := by
      apply accepted.bind
      intro value middle succeeded middleEnded shorter
      rw [moves] at succeeded
      cases succeeded
      exact taken _ _ middleEnded (by omega)
    exact both.of_le (by omega)
  · have refused : Orderly 0 (acceptIf accepts) (acceptIf accepts) state := .stay ended stays
    have both : Orderly (0 + more) (acceptIf accepts >>= next) (acceptIf accepts >>= next')
        state := by
      apply refused.bind
      intro value middle succeeded middleEnded shorter
      rw [stays] at succeeded
      cases succeeded
      exact left _ middleEnded (by omega)
    exact both.of_le (by omega)

theorem orderly_skip (kind : TokenKind) {next next' : Bool → Parser β}
    (taken : OrderlyUpTo (limit - 1) count (next true) (next' true))
    (left : OrderlyUpTo limit more (next false) (next' false)) (fewer : more ≤ count + 1) :
    OrderlyUpTo limit more (skip kind >>= next) (skip kind >>= next') := by
  have unfolded : ∀ next : Bool → Parser β,
      skip kind >>= next = accept kind >>= fun found => next found.isSome := by
    intro next
    rw [skip, bind_assoc]
    rfl
  rw [unfolded, unfolded]
  exact orderly_acceptIf _ (fun _ => taken) left fewer

theorem orderly_expect (kind : TokenKind) (fault : SyntaxFault) :
    OrderlyUpTo limit 1 (expect kind fault) (expect kind fault) :=
  orderly_acceptIf _ (fun token => .pure token) (orderly_fail fault) (Nat.le_refl _)

theorem orderly_expectName (fault : SyntaxFault) :
    OrderlyUpTo limit 1 (expectName fault) (expectName fault) :=
  (orderly_expect .identifier fault).bind fun _ => .pure _

/-- Budgets that last for one more token have a step to take, and last for the rest. -/
theorem exists_step {budget budget' : Nat} (enough : limit + 1 ≤ budget)
    (larger : budget ≤ budget') :
    ∃ less less', budget = less + 1 ∧ budget' = less' + 1 ∧ limit ≤ less ∧ less ≤ less' :=
  ⟨budget - 1, budget' - 1, by omega, by omega, by omega, by omega⟩

/-- One or more items with commas between them; each takes a token, so the budget lasts. -/
theorem orderly_commaSeparated {item item' : Parser α} (fault : SyntaxFault)
    (orderly : OrderlyUpTo limit 1 item item') {budget budget' : Nat}
    (enough : limit ≤ budget) (larger : budget ≤ budget') (done : List α) :
    OrderlyUpTo limit 1 (commaSeparated item fault budget done)
      (commaSeparated item' fault budget' done) := by
  induction limit generalizing budget budget' done with
  | zero => exact .zero
  | succ limit inductionHypothesis =>
      rcases exists_step enough larger with ⟨budget, budget', rfl, rfl, enoughBelow, largerBelow⟩
      rw [commaSeparated_succ, commaSeparated_succ]
      have reporting : OrderlyUpTo (limit + 1) 0
          (if maxArity ≤ done.length then report fault else Pure.pure ())
          (if maxArity ≤ done.length then report fault else Pure.pure ()) :=
        .ite (orderly_report fault) (.pure ())
      apply reporting.after
      intro _
      apply orderly.bind
      intro next
      have rest := inductionHypothesis (orderly.mono (Nat.le_succ _)) enoughBelow largerBelow
        (next :: done)
      exact orderly_skip _ rest (.pure _) (Nat.zero_le _)

end Tokens

variable {limit count budget budget' : Nat}

/-! ## Seen tokens -/

section Seen

variable {β : Type} {state : ParserState}

/-- A token that was seen is taken. -/
theorem orderly_take {next next' : Parser β} {kind : TokenKind} (ended : state.Ended)
    (short : state.rest.length ≤ limit + 1) (seen : state.peek.kind = kind)
    (notEnd : kind ≠ .endOfInput) (rest : OrderlyUpTo limit count next next') :
    Orderly 1 (advance >>= fun _ => next) (advance >>= fun _ => next') state := by
  have before : state.isAtEnd = false := by
    rw [ParserState.isAtEnd, seen]
    exact decide_eq_false notEnd
  have both : Orderly (1 + count) (advance >>= fun _ => next) (advance >>= fun _ => next')
      state := by
    apply (orderly_advance ended before).bind
    intro _ middle _ middleEnded taken
    exact rest middle middleEnded (by omega)
  exact both.of_le (Nat.le_add_right _ _)

end Seen

/-! ## Expressions -/

section Expressions

variable {expression expression' : Parser Expr}

theorem orderly_primary (orderly : OrderlyUpTo limit 1 expression expression') :
    OrderlyUpTo (limit + 1) 1 (primary expression) (primary expression') := by
  apply orderly_peek.look peek_apply
  intro state ended short
  generalize seen : state.peek.kind = kind
  split
  case h_6 =>
    apply orderly_take ended short seen nofun
    apply (orderly_expect _ _).bind
    intro _
    apply (orderly_expectName _).bind
    intro method
    exact orderly_freshId.bind fun _ => .pure _
  case h_7 => exact orderly_take ended short seen nofun (orderly_freshId.bind fun _ => .pure _)
  case h_8 => exact orderly_take ended short seen nofun (orderly_freshId.bind fun _ => .pure _)
  case h_9 =>
    apply orderly_take ended short seen nofun
    apply orderly.bind
    intro inner
    exact (orderly_expect _ _).bind fun _ => .pure _
  case h_10 => exact orderly_fail _ state ended short
  all_goals exact orderly_take ended short seen nofun (.pure _)

theorem orderly_arguments (orderly : OrderlyUpTo limit 1 expression expression')
    (enough : limit ≤ budget) (larger : budget ≤ budget') :
    OrderlyUpTo limit 0 (arguments expression budget) (arguments expression' budget') := by
  apply (orderly_check _).bind
  intro _
  have some := orderly_commaSeparated .tooManyArguments orderly enough larger []
  exact .ite (.pure _) (some.of_le (Nat.zero_le _))

/-- Every call and every property takes a token, so the budget lasts. -/
theorem orderly_suffixes (orderly : OrderlyUpTo limit 1 expression expression')
    (enough : limit ≤ budget) (larger : budget ≤ budget') (subject : Expr) :
    OrderlyUpTo limit 0 (suffixes expression budget subject)
      (suffixes expression' budget' subject) := by
  induction limit generalizing budget budget' subject with
  | zero => exact .zero
  | succ limit inductionHypothesis =>
      rcases exists_step enough larger with ⟨budget, budget', rfl, rfl, enoughBelow, largerBelow⟩
      have below := orderly.mono (Nat.le_succ limit)
      have again := inductionHypothesis below enoughBelow largerBelow
      have called : OrderlyUpTo limit 0
          (arguments expression budget >>= fun arguments =>
            expect (.punct .rightParen) .expectArgumentsEnd >>= fun close =>
              suffixes expression budget (.call subject close.line arguments))
          (arguments expression' budget' >>= fun arguments =>
            expect (.punct .rightParen) .expectArgumentsEnd >>= fun close =>
              suffixes expression' budget' (.call subject close.line arguments)) := by
        apply (orderly_arguments below enoughBelow largerBelow).bind
        intro arguments
        exact (orderly_expect _ _).bind fun close => again _
      have accessed : OrderlyUpTo limit 1
          (expectName .expectPropertyName >>= fun name =>
            suffixes expression budget (.get subject name))
          (expectName .expectPropertyName >>= fun name =>
            suffixes expression' budget' (.get subject name)) :=
        (orderly_expectName _).bind fun name => again _
      refine orderly_skip _ called ?_ (Nat.zero_le _)
      exact orderly_skip _ accessed (.pure _) (Nat.zero_le _)

theorem orderly_call (orderly : OrderlyUpTo limit 1 expression expression')
    (enough : limit ≤ budget) (larger : budget ≤ budget') :
    OrderlyUpTo (limit + 1) 1 (call expression budget) (call expression' budget') :=
  (orderly_primary orderly).bindBelow fun subject =>
    orderly_suffixes orderly enough larger subject

/-- At the end of input no operator follows. -/
theorem unary_atEnd {state : ParserState} (atEnd : state.isAtEnd = true) (budget depth : Nat) :
    unary expression budget depth state = call expression budget state := by
  cases depth with
  | zero => rfl
  | succ depth =>
      have refused : acceptIf isUnaryOperator state = .ok none state := by
        rw [acceptIf_apply, atEnd]
        rfl
      rw [unary, bind_of_ok refused]

theorem orderly_unary
    (orderly : OrderlyUpTo (limit + 1) 1 (call expression budget) (call expression' budget'))
    {depth depth' : Nat} (enough : limit ≤ depth) (larger : depth ≤ depth') :
    OrderlyUpTo (limit + 1) 1 (unary expression budget depth)
      (unary expression' budget' depth') := by
  induction limit generalizing depth depth' with
  | zero =>
      -- Only the end of input is left, where the depth makes no difference.
      intro state ended short
      have atEnd := ended.isAtEnd_of_length short
      cases depth with
      | zero =>
          have called := orderly state ended short
          exact ⟨(unary_atEnd atEnd budget' depth').trans called.same, called.ended, called.forward,
            called.takes⟩
      | succ depth =>
          cases depth' with
          | zero => cases larger
          | succ depth' =>
              exact orderly_acceptIf _ (fun _ => .zero) orderly (Nat.le_succ 1) state ended short
  | succ limit inductionHypothesis =>
      rcases exists_step enough larger with ⟨depth, depth', rfl, rfl, enoughBelow, largerBelow⟩
      have operand := inductionHypothesis (orderly.mono (Nat.le_succ _)) enoughBelow largerBelow
      exact orderly_acceptIf _ (fun _ => operand.bind fun _ => .pure _) orderly (Nat.le_succ 1)

/-- Every operator takes a token, so the budget lasts. -/
theorem orderly_operations (level : Level) {operand operand' : Parser Expr}
    (orderly : OrderlyUpTo limit 1 operand operand') (enough : limit ≤ budget)
    (larger : budget ≤ budget') (left : Expr) :
    OrderlyUpTo limit 0 (operations level operand budget left)
      (operations level operand' budget' left) := by
  induction limit generalizing budget budget' left with
  | zero => exact .zero
  | succ limit inductionHypothesis =>
      rcases exists_step enough larger with ⟨budget, budget', rfl, rfl, enoughBelow, largerBelow⟩
      have below := orderly.mono (Nat.le_succ limit)
      have again := inductionHypothesis below enoughBelow largerBelow
      exact orderly_acceptIf _ (fun _ => below.bind fun _ => again _) (.pure _) (Nat.zero_le _)

theorem orderly_infixLevels {operand operand' : Parser Expr}
    (orderly : OrderlyUpTo (limit + 1) 1 operand operand') (enough : limit ≤ budget)
    (larger : budget ≤ budget') (levels : List Level) :
    OrderlyUpTo (limit + 1) 1 (infixLevels operand budget levels)
      (infixLevels operand' budget' levels) := by
  induction levels with
  | nil => exact orderly
  | cons level tighter inductionHypothesis =>
      have operandBelow := inductionHypothesis.mono (Nat.le_succ limit)
      exact inductionHypothesis.bindBelow fun left =>
        orderly_operations level operandBelow enough larger left

theorem orderly_assignTo (target : Expr) (equals : Token) (value : Expr) :
    OrderlyUpTo limit 0 (assignTo target equals value) (assignTo target equals value) := by
  unfold assignTo
  split
  · exact orderly_freshId.bind fun _ => .pure _
  · exact .pure _
  · exact (orderly_reportAt _ _).bind fun _ => .pure _

theorem orderly_assignment (orderly : OrderlyUpTo limit 1 expression expression')
    (enough : limit ≤ budget) (larger : budget ≤ budget') :
    OrderlyUpTo (limit + 1) 1 (assignment expression budget)
      (assignment expression' budget') := by
  have operand := orderly_unary (orderly_call orderly enough larger) enough larger
  apply (orderly_infixLevels operand enough larger levels).bind
  intro target
  exact orderly_acceptIf _ (fun equals => orderly.bind fun value => orderly_assignTo _ _ _)
    (.pure _) (Nat.zero_le _)

end Expressions

/-- A budget of the number of tokens lasts for an expression. -/
theorem orderly_expression (enough : limit ≤ budget) (larger : budget ≤ budget') :
    OrderlyUpTo limit 1 (expression budget) (expression budget') := by
  induction limit generalizing budget budget' with
  | zero => exact .zero
  | succ limit inductionHypothesis =>
      rcases exists_step enough larger with ⟨budget, budget', rfl, rfl, enoughBelow, largerBelow⟩
      exact orderly_assignment (inductionHypothesis enoughBelow largerBelow) enoughBelow largerBelow

/-! ## Statements -/

section Statements

variable {expression expression' : Parser Expr} {statement statement' : Parser Stmt}

theorem orderly_varDeclaration (orderly : OrderlyUpTo limit 1 expression expression') :
    OrderlyUpTo limit 1 (varDeclaration expression) (varDeclaration expression') := by
  have ending : ∀ (name : Name) (initializer : Option Expr),
      OrderlyUpTo limit 1
        (expect (.punct .semicolon) .expectVariableEnd >>= fun _ =>
          pure (Stmt.var name initializer))
        (expect (.punct .semicolon) .expectVariableEnd >>= fun _ =>
          pure (Stmt.var name initializer)) :=
    fun _ _ => (orderly_expect _ _).bind fun _ => .pure _
  apply (orderly_expectName _).bind
  intro name
  have initialized := (orderly.map some).bind (ending name)
  exact orderly_skip _ (initialized.mono (Nat.sub_le _ _)) ((OrderlyUpTo.pure none).after
    (ending name)) (Nat.le_succ 1)

theorem orderly_expressionStatement (orderly : OrderlyUpTo limit 1 expression expression') :
    OrderlyUpTo limit 1 (expressionStatement expression)
      (expressionStatement expression') :=
  orderly.bind fun _ => (orderly_expect _ _).bind fun _ => .pure _

theorem orderly_printStatement (orderly : OrderlyUpTo limit 1 expression expression') :
    OrderlyUpTo limit 1 (printStatement expression) (printStatement expression') :=
  orderly.bind fun _ => (orderly_expect _ _).bind fun _ => .pure _

theorem orderly_unlessNext (kind : TokenKind)
    (orderly : OrderlyUpTo limit 1 expression expression') :
    OrderlyUpTo limit 0 (unlessNext kind expression) (unlessNext kind expression') :=
  (orderly_check _).bind fun _ => .ite (.pure _) ((orderly.map some).of_le (Nat.zero_le _))

theorem orderly_returnStatement (orderly : OrderlyUpTo limit 1 expression expression')
    (line : Nat) :
    OrderlyUpTo limit 1 (returnStatement expression line)
      (returnStatement expression' line) :=
  (orderly_unlessNext _ orderly).after fun _ => (orderly_expect _ _).bind fun _ => .pure _

theorem orderly_ifStatement (orderly : OrderlyUpTo limit 1 expression expression')
    (orderlyBranch : OrderlyUpTo limit 1 statement statement') :
    OrderlyUpTo limit 1 (ifStatement expression statement)
      (ifStatement expression' statement') := by
  apply (orderly_expect _ _).bind
  intro _
  apply orderly.bind
  intro condition
  apply (orderly_expect _ _).bind
  intro _
  apply orderlyBranch.bind
  intro thenBranch
  have ending : ∀ elseBranch : Option Stmt, OrderlyUpTo limit 0
      (pure (.if_ condition thenBranch elseBranch) : Parser Stmt)
      (pure (.if_ condition thenBranch elseBranch)) :=
    fun _ => .pure _
  have alternative := (orderlyBranch.map some).bind ending
  exact orderly_skip _ (alternative.mono (Nat.sub_le _ _)) ((OrderlyUpTo.pure none).bind ending)
    (Nat.zero_le _)

theorem orderly_whileStatement (orderly : OrderlyUpTo limit 1 expression expression')
    (orderlyBody : OrderlyUpTo limit 1 statement statement') :
    OrderlyUpTo limit 1 (whileStatement expression statement)
      (whileStatement expression' statement') := by
  apply (orderly_expect _ _).bind
  intro _
  apply orderly.bind
  intro condition
  apply (orderly_expect _ _).bind
  intro _
  exact orderlyBody.bind fun _ => .pure _

theorem orderly_forInitializer (orderly : OrderlyUpTo limit 1 expression expression') :
    OrderlyUpTo limit 1 (forInitializer expression) (forInitializer expression') := by
  have declared := ((orderly_varDeclaration orderly).map some).mono (Nat.sub_le limit 1)
  have evaluated := (orderly_expressionStatement orderly).map some
  refine orderly_skip _ (.pure none) ?_ (Nat.le_refl 1)
  exact orderly_skip _ declared evaluated (Nat.le_succ 1)

theorem orderly_forStatement (orderly : OrderlyUpTo limit 1 expression expression')
    (orderlyBody : OrderlyUpTo limit 1 statement statement') :
    OrderlyUpTo limit 1 (forStatement expression statement)
      (forStatement expression' statement') := by
  apply (orderly_expect _ _).bind
  intro _
  apply (orderly_forInitializer orderly).bind
  intro first
  apply (orderly_unlessNext _ orderly).bind
  intro condition
  apply (orderly_expect _ _).bind
  intro _
  apply (orderly_unlessNext _ orderly).bind
  intro last
  apply (orderly_expect _ _).bind
  intro _
  exact orderlyBody.bind fun _ => .pure _

theorem orderly_parameters (enough : limit ≤ budget) (larger : budget ≤ budget') :
    OrderlyUpTo limit 0 (parameters budget) (parameters budget') := by
  apply (orderly_check _).bind
  intro _
  have name : OrderlyUpTo limit 1 (expectName .expectParameterName)
    (expectName .expectParameterName) := orderly_expectName _
  have some := orderly_commaSeparated .tooManyParameters name enough larger []
  exact .ite (.pure _) (some.of_le (Nat.zero_le _))

theorem orderly_superclassClause :
    OrderlyUpTo limit 0 superclassClause superclassClause := by
  have named : OrderlyUpTo (limit - 1) 1
      (expectName .expectSuperclassName >>= fun name => freshId >>= fun id =>
        pure (some (Expr.var id name)))
      (expectName .expectSuperclassName >>= fun name => freshId >>= fun id =>
        pure (some (Expr.var id name))) :=
    (orderly_expectName _).bind fun _ => orderly_freshId.bind fun _ => .pure _
  exact orderly_skip _ named (.pure none) (Nat.zero_le _)

end Statements

/-! ## Recovery -/

section Recovery

variable {statement statement' : Parser Stmt} {state middle : ParserState}

theorem length_skipStatement_le (tokens : List Token) :
    (skipStatement tokens).length ≤ tokens.length :=
  (skipStatement_suffix tokens).length_le

/-- A token that is not the end of input is skipped. -/
theorem length_skipStatement_lt (before : state.isAtEnd = false) :
    (skipStatement state.rest).length < state.rest.length := by
  obtain ⟨token, later, rest, notEnd, -, -⟩ := exists_next before
  rw [rest, skipStatement, if_neg notEnd, List.length_cons]
  split
  · exact Nat.lt_succ_self _
  · split
    · exact Nat.lt_succ_self _
    · exact Nat.lt_succ_of_le (length_skipStatement_le later)

/-- What was begun before the end of input and has come to it has taken a token. -/
theorem length_lt_of_atEnd (before : state.isAtEnd = false) (forward : middle.rest <:+ state.rest)
    (atEnd : middle.isAtEnd = true) : middle.rest.length < state.rest.length := by
  apply Nat.lt_of_le_of_ne forward.length_le
  intro sameLength
  rw [ParserState.isAtEnd, ParserState.peek, forward.eq_of_length sameLength] at atEnd
  rw [ParserState.isAtEnd, ParserState.peek, atEnd] at before
  cases before

/-- What was begun before the end of input and is given up has taken a token, or one is
skipped. -/
theorem length_skipStatement_lt_of_begun (before : state.isAtEnd = false)
    (forward : middle.rest <:+ state.rest) :
    (skipStatement middle.rest).length < state.rest.length := by
  cases atEnd : middle.isAtEnd with
  | false => exact Nat.lt_of_lt_of_le (length_skipStatement_lt atEnd) forward.length_le
  | true =>
      exact Nat.lt_of_le_of_lt (length_skipStatement_le _)
        (length_lt_of_atEnd before forward atEnd)

/-- The end of input is never skipped. -/
theorem skipStatement_ended (ended : state.Ended) :
    ({ state with rest := skipStatement state.rest } : ParserState).Ended := by
  obtain ⟨last, found, isEnd⟩ := ended
  exact ⟨last, getLast?_skipStatement found isEnd, isEnd⟩

/-- From every state before the end of input, the parser is orderly and takes a token. -/
def OrderlyBefore {α : Type} (limit : Nat) (parser larger : Parser α) :
    Prop :=
  ∀ state : ParserState, state.Ended → state.isAtEnd = false → state.rest.length ≤ limit →
    Orderly 1 parser larger state

theorem OrderlyBefore.mono {α : Type} {parser larger : Parser α}
    (orderly : OrderlyBefore limit parser larger) {limit' : Nat} (lower : limit' ≤ limit) :
    OrderlyBefore limit' parser larger :=
  fun state ended before short => orderly state ended before (Nat.le_trans short lower)

/-- A statement that was begun takes a token, also if it is given up. -/
theorem orderly_recovering (orderly : OrderlyUpTo limit 1 statement statement') :
    OrderlyBefore limit (recovering statement) (recovering statement') := by
  intro state ended before short
  have run := orderly state ended short
  have same : recovering statement' state = recovering statement state := by
    rw [recovering_apply, recovering_apply, run.same]
  have middleEnded := run.ended
  have forward := run.forward
  cases result : statement state with
  | ok stmt final =>
      rw [result] at middleEnded forward
      have ends : recovering statement state = .ok (some stmt) final := by
        rw [recovering_apply, result]
      refine ⟨same, ?_, ?_, ?_⟩
      · rw [ends]
        exact middleEnded
      · rw [ends]
        exact forward
      · intro value last succeeded
        rw [ends] at succeeded
        cases succeeded
        exact run.takes result
  | error error middle =>
      rw [result] at middleEnded forward
      have ends : recovering statement state =
          .ok none { middle.record error with rest := skipStatement middle.rest } := by
        rw [recovering_apply, result]
        rfl
      refine ⟨same, ?_, ?_, ?_⟩
      · rw [ends]
        exact skipStatement_ended middleEnded
      · rw [ends]
        exact (skipStatement_suffix _).trans forward
      · intro value last succeeded
        rw [ends] at succeeded
        cases succeeded
        exact length_skipStatement_lt_of_begun before forward

end Recovery

/-! ## Repetitions -/

section Repetitions

/-- Unless the repetition is over, an item takes a token and the repetition goes on. -/
theorem orderly_unlessOver {α β : Type} {more : Nat} (closes : Bool) {closed closed' : Parser α}
    {item item' : Parser β} {next next' : β → Parser α}
    (ending : OrderlyUpTo limit count closed closed')
    (orderly : OrderlyBefore limit item item')
    (rest : ∀ value, OrderlyUpTo (limit - 1) more (next value) (next' value))
    (fewer : count ≤ 1 + more) :
    OrderlyUpTo limit count
      (isAtEnd >>= fun atEnd => if (closes || atEnd) = true then closed else item >>= next)
      (isAtEnd >>= fun atEnd => if (closes || atEnd) = true then closed' else item' >>= next') := by
  apply orderly_isAtEnd.look isAtEnd_apply
  intro state ended short
  by_cases isOver : (closes || state.isAtEnd) = true
  · rw [if_pos isOver, if_pos isOver]
    exact ending state ended short
  · rw [if_neg isOver, if_neg isOver]
    rw [Bool.or_eq_true, not_or, Bool.not_eq_true, Bool.not_eq_true] at isOver
    have both : Orderly (1 + more) (item >>= next) (item' >>= next') state := by
      apply (orderly state ended isOver.2 short).bind
      intro value middle _ middleEnded taken
      exact rest value middle middleEnded (by omega)
    exact both.of_le fewer

/-- Every statement of a block takes a token, so the budget lasts. -/
theorem orderly_blockBody {declaration declaration' : Parser (Option Stmt)}
    (orderly : OrderlyBefore limit declaration declaration') (enough : limit ≤ budget)
    (larger : budget ≤ budget') (done : List Stmt) :
    OrderlyUpTo limit 1 (blockBody declaration budget done)
      (blockBody declaration' budget' done) := by
  induction limit generalizing budget budget' done with
  | zero => exact .zero
  | succ limit inductionHypothesis =>
      rcases exists_step enough larger with ⟨budget, budget', rfl, rfl, enoughBelow, largerBelow⟩
      have below := orderly.mono (Nat.le_succ limit)
      have again := inductionHypothesis below enoughBelow largerBelow
      apply (orderly_check _).after
      intro closes
      exact orderly_unlessOver closes ((orderly_expect _ _).bind fun _ => .pure _) orderly
        (fun next => again _) (Nat.le_add_right _ _)

theorem orderly_declarations {declaration declaration' : Parser (Option Stmt)}
    (orderly : OrderlyBefore limit declaration declaration') (enough : limit ≤ budget)
    (larger : budget ≤ budget') (done : List Stmt) :
    OrderlyUpTo limit 0 (declarations declaration budget done)
      (declarations declaration' budget' done) := by
  induction limit generalizing budget budget' done with
  | zero => exact .zero
  | succ limit inductionHypothesis =>
      rcases exists_step enough larger with ⟨budget, budget', rfl, rfl, enoughBelow, largerBelow⟩
      have below := orderly.mono (Nat.le_succ limit)
      have again := inductionHypothesis below enoughBelow largerBelow
      exact orderly_unlessOver false (.pure _) orderly (fun next => again _) (Nat.zero_le _)

end Repetitions

/-! ## Declarations -/

section Parts

/-- The parsers for the parts of a statement with so many tokens behind its first one. -/
structure OrderlyParts (limit : Nat) (parts parts' : Parts) : Prop where
  enough : limit ≤ parts.budget
  larger : parts.budget ≤ parts'.budget
  expression : OrderlyUpTo (limit + 1) 1 parts.expression parts'.expression
  statement : OrderlyUpTo limit 1 parts.statement parts'.statement
  declaration : OrderlyBefore limit parts.declaration parts'.declaration

variable {parts parts' : Parts}

theorem OrderlyParts.expressionBelow (orderly : OrderlyParts limit parts parts') :
    OrderlyUpTo limit 1 parts.expression parts'.expression :=
  orderly.expression.mono (Nat.le_succ limit)

theorem OrderlyParts.body (orderly : OrderlyParts limit parts parts') :
    OrderlyUpTo limit 1 (blockBody parts.declaration parts.budget [])
      (blockBody parts'.declaration parts'.budget []) :=
  orderly_blockBody orderly.declaration orderly.enough orderly.larger []

theorem orderly_statementOf (orderly : OrderlyParts limit parts parts') :
    OrderlyUpTo (limit + 1) 1 (statementOf parts) (statementOf parts') := by
  have nested := orderly.expressionBelow
  apply orderly_peek.look peek_apply
  intro state ended short
  generalize seen : state.peek.kind = kind
  split
  · exact orderly_take ended short seen nofun (orderly_forStatement nested orderly.statement)
  · exact orderly_take ended short seen nofun (orderly_ifStatement nested orderly.statement)
  · exact orderly_take ended short seen nofun (orderly_whileStatement nested orderly.statement)
  · exact orderly_take ended short seen nofun (orderly_returnStatement nested _)
  · exact orderly_take ended short seen nofun (orderly.body.bind fun _ => .pure _)
  · exact orderly_take ended short seen nofun (orderly_printStatement nested)
  · exact orderly_expressionStatement orderly.expression state ended short

theorem orderly_functionDeclaration (orderly : OrderlyParts limit parts parts')
    (role : FunctionRole) :
    OrderlyUpTo limit 1 (functionDeclaration parts role)
      (functionDeclaration parts' role) := by
  apply (orderly_expectName _).bind
  intro name
  apply (orderly_expect _ _).bind
  intro _
  apply (orderly_parameters orderly.enough orderly.larger).bind
  intro params
  apply (orderly_expect _ _).bind
  intro _
  apply (orderly_expect _ _).bind
  intro _
  exact orderly.body.bind fun _ => .pure _

/-- Every method takes a token, so the budget lasts. -/
theorem orderly_methods (orderly : OrderlyParts count parts parts') (fewer : limit ≤ count)
    (enough : limit ≤ budget) (larger : budget ≤ budget') (done : List FunctionDecl) :
    OrderlyUpTo limit 1 (methods parts budget done) (methods parts' budget' done) := by
  induction limit generalizing budget budget' done with
  | zero => exact .zero
  | succ limit inductionHypothesis =>
      rcases exists_step enough larger with ⟨budget, budget', rfl, rfl, enoughBelow, largerBelow⟩
      have again := inductionHypothesis (Nat.le_of_succ_le fewer) enoughBelow largerBelow
      have method : OrderlyBefore (limit + 1) (functionDeclaration parts .method)
          (functionDeclaration parts' .method) := fun state ended _ short =>
        (orderly_functionDeclaration orderly .method).mono fewer state ended short
      apply (orderly_check _).after
      intro closes
      exact orderly_unlessOver closes ((orderly_expect _ _).bind fun _ => .pure _) method
        (fun next => again _) (Nat.le_add_right _ _)

theorem orderly_classDeclaration (orderly : OrderlyParts limit parts parts') :
    OrderlyUpTo limit 1 (classDeclaration parts) (classDeclaration parts') := by
  apply (orderly_expectName _).bind
  intro name
  apply orderly_superclassClause.bind
  intro superclass
  apply (orderly_expect _ _).bind
  intro _
  have methods := orderly_methods orderly (Nat.le_refl _) orderly.enough orderly.larger []
  exact methods.bind fun _ => .pure _

theorem orderly_declarationOf (orderly : OrderlyParts limit parts parts') :
    OrderlyUpTo (limit + 1) 1 (declarationOf parts) (declarationOf parts') := by
  have function := (orderly_functionDeclaration orderly .function).bind fun declaration =>
    OrderlyUpTo.pure (Stmt.function declaration)
  refine orderly_skip _ (orderly_classDeclaration orderly) ?_ (Nat.le_succ 1)
  refine orderly_skip _ function ?_ (Nat.le_succ 1)
  exact orderly_skip _ (orderly_varDeclaration orderly.expressionBelow)
    (orderly_statementOf orderly) (Nat.le_succ 1)

end Parts

/-- A budget of the number of tokens lasts for statements and declarations. -/
theorem orderly_partsOf (enough : limit ≤ budget) (larger : budget ≤ budget') :
    OrderlyParts limit (partsOf budget) (partsOf budget') := by
  induction limit generalizing budget budget' with
  | zero =>
      exact ⟨Nat.zero_le _, Nat.succ_le_succ larger,
        orderly_expression (Nat.succ_pos _) (Nat.succ_le_succ larger), .zero,
        fun state ended _ => OrderlyUpTo.zero state ended⟩
  | succ limit inductionHypothesis =>
      rcases exists_step enough larger with ⟨budget, budget', rfl, rfl, enoughBelow, largerBelow⟩
      have below := inductionHypothesis enoughBelow largerBelow
      refine ⟨Nat.le_succ_of_le enough, Nat.succ_le_succ larger,
        orderly_expression (Nat.succ_le_succ enough) (Nat.succ_le_succ larger), ?_, ?_⟩
      · rw [partsOf, partsOf, statement_succ, statement_succ]
        exact orderly_statementOf below
      · rw [partsOf, partsOf, declaration_succ, declaration_succ]
        exact orderly_recovering (orderly_declarationOf below)

theorem orderly_declaration (enough : limit ≤ budget) (larger : budget ≤ budget') :
    OrderlyBefore limit (declaration budget) (declaration budget') :=
  (orderly_partsOf enough larger).declaration

/-! ## Programs -/

/-- Declarations never fail: what is wrong in them is recorded. -/
theorem declaration_ok (budget : Nat) (state : ParserState) :
    ∃ result final, declaration budget state = .ok result final := by
  have recovers : ∀ statement : Parser Stmt,
      ∃ result final, recovering statement state = .ok result final := by
    intro statement
    rw [recovering_apply]
    cases statement state with
    | ok result final => exact ⟨_, _, rfl⟩
    | error error final => exact ⟨_, _, rfl⟩
  cases budget with
  | zero =>
      rw [declaration]
      exact recovers _
  | succ budget =>
      rw [declaration_succ]
      exact recovers _

/-- Programs are read up to the end of input. -/
theorem declarations_ok {declaration declaration' : Parser (Option Stmt)}
    (orderly : OrderlyBefore limit declaration declaration')
    (succeeds : ∀ state, ∃ result final, declaration state = .ok result final)
    (enough : limit ≤ budget) (done : List Stmt) {state : ParserState}
    (ended : state.Ended) (short : state.rest.length ≤ limit) :
    ∃ statements final, declarations declaration budget done state = .ok statements final ∧
      final.isAtEnd = true := by
  induction limit generalizing budget done state with
  | zero => exact absurd (Nat.lt_of_lt_of_le ended.length_pos short) (Nat.lt_irrefl 0)
  | succ limit inductionHypothesis =>
      rcases exists_step enough (Nat.le_refl _) with ⟨budget, _, rfl, -, enoughBelow, -⟩
      have looked := isAtEnd_apply state
      cases atEnd : state.isAtEnd with
      | true =>
          rw [atEnd] at looked
          exact ⟨done.reverse, state, by rw [declarations, bind_of_ok looked]; rfl, atEnd⟩
      | false =>
          rw [atEnd] at looked
          rcases succeeds state with ⟨next, middle, read⟩
          have run := orderly state ended atEnd short
          have taken := run.takes read
          rcases inductionHypothesis (orderly.mono (Nat.le_succ limit)) enoughBelow
            (next.toList ++ done) (run.final_ended read) (by omega) with
            ⟨statements, final, rest, isOver⟩
          refine ⟨statements, final, ?_, isOver⟩
          rw [declarations, bind_of_ok looked, ← rest]
          exact bind_of_ok read

end Parser

end Lox
