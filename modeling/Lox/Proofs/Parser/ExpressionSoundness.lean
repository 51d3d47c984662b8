import Lox.Proofs.Grammar
import Lox.Proofs.Parser.Progress

/-!
# Parsed expressions derive from the grammar

If a parser for expressions succeeds without recording an error, then the tokens
it took derive from its nonterminal, and its result is the tree of that
derivation.  The levels of operators and the calls are read in a loop that
extends the tree to the left, as left recursion in the grammar does.
-/

namespace Lox

namespace Parser

open Actions Grammar

/-- With at most `bound` tokens to read, what the parser gives without recording
an error is related to the tokens it took and to those that follow. -/
def Sound {α : Type} (bound : Nat) (derives : List Token → α → List Token → Prop)
    (parser : Parser α) : Prop :=
  ∀ ⦃state final : ParserState⦄ ⦃value : α⦄, state.rest.length ≤ bound →
    parser state = .ok value final → final.errors = state.errors →
      ∃ tokens, state.rest = tokens ++ final.rest ∧ derives tokens value final.rest

/-- With at most `bound` tokens to read and without errors, the parser gives the
tree of what it took. -/
abbrev SoundFor (bound : Nat) (phrase : Phrase) (parser : Parser Expr) : Prop :=
  Sound bound (fun tokens expr _ => Derives phrase tokens expr) parser

variable {expression : Parser Expr} {bound : Nat}

/-- As `Sound`, where the next token has been seen already. -/
def SoundAt {α : Type} (bound : Nat) (token : Token)
    (derives : List Token → α → List Token → Prop) (parser : Parser α) : Prop :=
  ∀ ⦃state final : ParserState⦄ ⦃value : α⦄, state.peek = token →
    state.rest.length ≤ bound → parser state = .ok value final →
      final.errors = state.errors →
        ∃ tokens, state.rest = tokens ++ final.rest ∧ derives tokens value final.rest

theorem Sound.of_peek {α : Type} {bound : Nat} {derives : List Token → α → List Token → Prop}
    {next : Token → Parser α} (soundAt : ∀ token, SoundAt bound token derives (next token)) :
    Sound bound derives (peek >>= next) := by
  intro state final value short parsed clean
  rw [bind_eq_ok_iff] at parsed
  obtain ⟨token, seen, peeked, parsed⟩ := parsed
  obtain ⟨tokenEquality, rfl⟩ := peek_ok peeked
  exact soundAt token tokenEquality short parsed clean

/-! ## Primary expressions and calls -/

/-- A constant takes the one token that was seen. -/
theorem constant_soundAt {token : Token} (inside : token.kind ≠ .endOfInput)
    {value : Literal} (derived : Derives .primary [token] (.literal value)) :
    SoundAt bound token (fun tokens expr _ => Derives .primary tokens expr)
      (constant value) := by
  intro state final expr next _ parsed _
  rw [constant, bind_eq_ok_iff] at parsed
  obtain ⟨_, middle, advanced, finished⟩ := parsed
  obtain ⟨rfl, rfl⟩ := pure_eq_ok_iff.mp finished
  obtain ⟨restEquality, -, -⟩ := advance_ok next inside advanced
  exact ⟨[token], restEquality, derived⟩

/-- A use of a variable takes the one token that was seen, and an identity. -/
theorem freshUse_soundAt {token : Token} (inside : token.kind ≠ .endOfInput)
    {node : UseId → Expr} (derived : ∀ id, Derives .primary [token] (node id)) :
    SoundAt bound token (fun tokens expr _ => Derives .primary tokens expr)
      (advance >>= fun _ => freshId >>= fun id => pure (node id)) := by
  intro state final expr next _ parsed _
  rw [bind_eq_ok_iff] at parsed
  obtain ⟨_, afterToken, advanced, parsed⟩ := parsed
  rw [bind_eq_ok_iff] at parsed
  obtain ⟨id, afterId, idGiven, finished⟩ := parsed
  obtain ⟨rfl, rfl⟩ := pure_eq_ok_iff.mp finished
  obtain ⟨-, rfl⟩ := freshId_ok idGiven
  obtain ⟨restEquality, -, -⟩ := advance_ok next inside advanced
  exact ⟨[token], restEquality, derived id⟩

theorem primary_sound (sound : SoundFor bound .assignment expression) :
    SoundFor (bound + 1) .primary (primary expression) := by
  refine Sound.of_peek ?_
  intro token
  split
  case h_1 kind =>
    exact constant_soundAt (by rw [kind]; decide) (Derives.falseLiteral kind)
  case h_2 kind =>
    exact constant_soundAt (by rw [kind]; decide) (Derives.trueLiteral kind)
  case h_3 kind =>
    exact constant_soundAt (by rw [kind]; decide) (Derives.nilLiteral kind)
  case h_4 value kind =>
    exact constant_soundAt (by rw [kind]; nofun) (Derives.numberLiteral kind)
  case h_5 contents kind =>
    exact constant_soundAt (by rw [kind]; nofun) (Derives.stringLiteral kind)
  case h_6 kind =>
    intro state final expr next short parsed clean
    rw [bind_eq_ok_iff] at parsed
    obtain ⟨_, afterKeyword, advanced, parsed⟩ := parsed
    rw [bind_eq_ok_iff] at parsed
    obtain ⟨dot, afterDot, dotRead, parsed⟩ := parsed
    rw [bind_eq_ok_iff] at parsed
    obtain ⟨method, afterMethod, methodRead, parsed⟩ := parsed
    rw [bind_eq_ok_iff] at parsed
    obtain ⟨id, afterId, idGiven, finished⟩ := parsed
    obtain ⟨keywordRest, -, -⟩ := advance_ok next (by rw [kind]; decide) advanced
    obtain ⟨dotRest, dotKind, -, -⟩ := expect_ok dotRead
    obtain ⟨methodToken, methodRest, methodKind, rfl, -, -⟩ := expectName_ok methodRead
    obtain ⟨-, rfl⟩ := freshId_ok idGiven
    obtain ⟨rfl, rfl⟩ := pure_eq_ok_iff.mp finished
    refine ⟨[token, dot, methodToken], ?_, Derives.super id kind dotKind methodKind⟩
    rw [keywordRest, dotRest, methodRest]
    rfl
  case h_7 kind =>
    exact freshUse_soundAt (by rw [kind]; decide) fun id => Derives.this id kind
  case h_8 kind =>
    exact freshUse_soundAt (by rw [kind]; decide) fun id => Derives.identifier id kind
  case h_9 kind =>
    intro state final expr next short parsed clean
    rw [bind_eq_ok_iff] at parsed
    obtain ⟨_, afterOpening, advanced, parsed⟩ := parsed
    rw [bind_eq_ok_iff] at parsed
    obtain ⟨inner, afterInner, innerParsed, parsed⟩ := parsed
    rw [bind_eq_ok_iff] at parsed
    obtain ⟨closing, afterClosing, closingRead, finished⟩ := parsed
    obtain ⟨openingRest, openingErrors, -⟩ := advance_ok next (by rw [kind]; decide) advanced
    obtain ⟨closingRest, closingKind, closingErrors, -⟩ := expect_ok closingRead
    obtain ⟨rfl, rfl⟩ := pure_eq_ok_iff.mp finished
    have innerClean : afterInner.errors = afterOpening.errors := by
      rw [← closingErrors, clean, openingErrors]
    have innerShort : afterOpening.rest.length ≤ bound := by
      rw [openingRest, List.length_cons] at short
      omega
    obtain ⟨tokens, innerRest, derived⟩ := sound innerShort innerParsed innerClean
    refine ⟨token :: (tokens ++ [closing]), ?_, Derives.group kind derived closingKind⟩
    rw [openingRest, innerRest, closingRest]
    simp only [List.cons_append, List.append_assoc, List.nil_append]
  case h_10 =>
    intro state final expr next short parsed clean
    cases parsed

/-- Without errors, a list with commas is read as items that derive one by one;
no more are read than a list may have. -/
theorem commaSeparated_sound {α : Type} {derives : List Token → α → Prop} {item : Parser α}
    (fault : SyntaxFault) (advances : Advancing item)
    (sound : Sound bound (fun tokens value _ => derives tokens value) item)
    (nonempty : ∀ {tokens value}, derives tokens value → tokens ≠ [])
    (budget : Nat) (enough : budget ≤ bound) (positive : 0 < budget) (done : List α) :
    Sound budget
      (fun tokens values _ => ∃ items : List (List Token × α),
        values = done.reverse ++ items.map Prod.snd ∧ items ≠ [] ∧
          done.length + items.length ≤ Grammar.maxArity ∧
          (∀ item ∈ items, derives item.1 item.2) ∧
          Separated (items.map Prod.fst) tokens)
      (commaSeparated item fault budget done) := by
  induction budget generalizing done with
  | zero => omega
  | succ budget inductionHypothesis =>
      intro state final values short parsed clean
      rw [commaSeparated_succ] at parsed
      have tailAdvances : ∀ next, Advancing (skip (.punct .comma) >>= fun more =>
          if more = true then commaSeparated item fault budget (next :: done)
          else pure (next :: done).reverse) :=
        fun next => (advancing_skip _).bind fun _ =>
          Advancing.ite (advancing_commaSeparated fault advances _ _) (Advancing.pure _)
      obtain ⟨_, begun, reported, reportClean, parsed, clean⟩ :=
        bind_clean (Advancing.ite (advancing_report fault) (Advancing.pure _))
          (fun _ => advances.bind tailAdvances) parsed clean
      split at reported
      next full =>
        -- an item past the limit is recorded, so there would be an error
        rw [report_apply] at reported
        injection reported with _ begunEquality
        subst begunEquality
        have longer := congrArg Array.size reportClean
        simp [ParserState.record] at longer
      next notFull =>
        obtain ⟨-, rfl⟩ := pure_eq_ok_iff.mp reported
        obtain ⟨next, afterNext, nextParsed, nextClean, parsed, clean⟩ :=
          bind_clean advances tailAdvances parsed clean
        obtain ⟨tokens, nextRest, nextDerived⟩ := sound (by omega) nextParsed nextClean
        rw [bind_eq_ok_iff] at parsed
        obtain ⟨more, afterMore, moreRead, parsed⟩ := parsed
        have limits : Parser.maxArity = Grammar.maxArity := rfl
        cases more with
        | true =>
            obtain ⟨comma, commaRest, commaKind, commaErrors, -⟩ := skip_true moreRead
            have restClean : final.errors = afterMore.errors := by
              rw [clean, commaErrors]
            -- the item and the comma take two tokens, so that budget is left
            have taken : 0 < tokens.length :=
              List.length_pos_iff.mpr (nonempty nextDerived)
            have lengths := congrArg List.length nextRest
            rw [commaRest, List.length_append, List.length_cons] at lengths
            obtain ⟨joined, restRest, items, valuesEquality, itemsNonempty, bounded, derived,
              separated⟩ :=
              inductionHypothesis (by omega) (by omega) (next :: done) (by omega) parsed restClean
            refine ⟨tokens ++ comma :: joined, ?_, (tokens, next) :: items, ?_, by simp, ?_, ?_, ?_⟩
            · rw [nextRest, commaRest, restRest, List.append_assoc, List.cons_append]
            · rw [valuesEquality]
              simp
            · simp only [List.length_cons] at bounded ⊢
              omega
            · intro item member
              rcases List.mem_cons.mp member with rfl | later
              · exact nextDerived
              · exact derived item later
            · cases items with
              | nil => exact absurd rfl itemsNonempty
              | cons second later => exact Separated.more commaKind separated
        | false =>
            obtain ⟨rfl, -⟩ := skip_false (by decide) moreRead
            obtain ⟨rfl, rfl⟩ := pure_eq_ok_iff.mp parsed
            refine ⟨tokens, nextRest, [(tokens, next)], by simp, by simp, ?_, ?_,
              Separated.single tokens⟩
            · rw [List.length_singleton]
              omega
            · intro item member
              rw [List.mem_singleton.mp member]
              exact nextDerived

/-- Without errors, the arguments of a call are expressions with commas between them. -/
theorem arguments_sound (advances : Advancing expression)
    (sound : SoundFor bound .assignment expression) (budget : Nat) (enough : budget ≤ bound)
    (positive : 0 < budget) :
    Sound budget
      (fun tokens given _ => ∃ items : List (List Token × Expr),
        given = items.map Prod.snd ∧ items.length ≤ Grammar.maxArity ∧
          (∀ item ∈ items, Derives .assignment item.1 item.2) ∧
          Separated (items.map Prod.fst) tokens)
      (arguments expression budget) := by
  intro state final given short parsed clean
  rw [arguments, bind_eq_ok_iff] at parsed
  obtain ⟨closes, checked, closingChecked, parsed⟩ := parsed
  obtain rfl := check_ok closingChecked
  cases closes with
  | true =>
      obtain ⟨rfl, rfl⟩ := pure_eq_ok_iff.mp parsed
      exact ⟨[], rfl, [], rfl, by simp, by simp, Separated.empty⟩
  | false =>
      obtain ⟨joined, argumentsRest, items, givenEquality, -, bounded, derived, separated⟩ :=
        commaSeparated_sound .tooManyArguments advances sound
          (fun derived => derived.tokens_ne_nil) budget enough positive [] short parsed clean
      exact ⟨joined, argumentsRest, items, by simpa using givenEquality, by simpa using bounded,
        derived, separated⟩

/-- Without errors, the calls and property accesses behind an expression extend
its derivation. -/
theorem suffixes_sound (advances : Advancing expression)
    (sound : SoundFor bound .assignment expression)
    (budget : Nat) (enough : budget ≤ bound) {before : List Token} {subject : Expr}
    (subjectDerived : Derives .call before subject) :
    Sound budget (fun tokens expr _ => Derives .call (before ++ tokens) expr)
      (suffixes expression budget subject) := by
  induction budget generalizing before subject with
  | zero =>
      intro state final expr _ parsed _
      obtain ⟨rfl, rfl⟩ := pure_eq_ok_iff.mp parsed
      exact ⟨[], rfl, by simpa using subjectDerived⟩
  | succ budget inductionHypothesis =>
      intro state final expr short parsed clean
      rw [suffixes] at parsed
      rw [bind_eq_ok_iff] at parsed
      obtain ⟨opens, afterOpening, openingRead, parsed⟩ := parsed
      cases opens with
      | true =>
          obtain ⟨opening, openingRest, openingKind, openingErrors, -⟩ := skip_true openingRead
          rw [if_pos rfl] at parsed
          obtain ⟨given, afterArguments, argumentsParsed, argumentsClean, parsed, clean⟩ :=
            bind_clean (advancing_arguments advances budget)
              (fun _ => (advancing_expect _ _).bind fun _ =>
                advancing_suffixes advances budget _)
              parsed (clean.trans openingErrors.symm)
          rw [bind_eq_ok_iff] at parsed
          obtain ⟨closing, afterClosing, closingRead, parsed⟩ := parsed
          obtain ⟨closingRest, closingKind, closingErrors, -⟩ := expect_ok closingRead
          rw [openingRest, List.length_cons] at short
          -- the closing parenthesis is still to be read, so budget is left
          have argumentsStep := advancing_arguments advances budget afterOpening
          rw [argumentsParsed] at argumentsStep
          have remaining := argumentsStep.rest.length_le
          rw [endState_ok, closingRest, List.length_cons] at remaining
          obtain ⟨joined, argumentsRest, items, rfl, bounded, derived, separated⟩ :=
            arguments_sound advances sound budget (by omega) (by omega) (by omega)
              argumentsParsed argumentsClean
          have called := Derives.invocation subjectDerived openingKind bounded derived separated
            closingKind
          obtain ⟨tokens, suffixRest, extended⟩ :=
            inductionHypothesis (by omega) called (by omega) parsed
              (clean.trans closingErrors.symm)
          refine ⟨opening :: (joined ++ closing :: tokens), ?_, ?_⟩
          · rw [openingRest, argumentsRest, closingRest, suffixRest]
            simp
          · simpa using extended
      | false =>
          obtain ⟨rfl, -⟩ := skip_false (by decide) openingRead
          rw [if_neg (by decide)] at parsed
          rw [bind_eq_ok_iff] at parsed
          obtain ⟨dotted, afterDot, dotRead, parsed⟩ := parsed
          cases dotted with
          | true =>
              rw [if_pos rfl] at parsed
              obtain ⟨dot, dotRest, dotKind, dotErrors, -⟩ := skip_true dotRead
              rw [bind_eq_ok_iff] at parsed
              obtain ⟨name, afterName, nameRead, parsed⟩ := parsed
              obtain ⟨token, nameRest, nameKind, rfl, nameErrors, -⟩ := expectName_ok nameRead
              have accessed := Derives.property subjectDerived dotKind nameKind
              rw [dotRest, nameRest, List.length_cons, List.length_cons] at short
              obtain ⟨tokens, suffixRest, extended⟩ :=
                inductionHypothesis (by omega) accessed (by omega) parsed (by
                  rw [clean, nameErrors, dotErrors])
              refine ⟨dot :: token :: tokens, ?_, ?_⟩
              · rw [dotRest, nameRest, suffixRest]
                rfl
              · simpa using extended
          | false =>
              rw [if_neg (by decide)] at parsed
              obtain ⟨rfl, -⟩ := skip_false (by decide) dotRead
              obtain ⟨rfl, rfl⟩ := pure_eq_ok_iff.mp parsed
              exact ⟨[], rfl, by simpa using subjectDerived⟩

theorem call_sound (advances : Advancing expression)
    (sound : SoundFor bound .assignment expression) :
    SoundFor (bound + 1) .call (call expression bound) := by
  intro state final expr short parsed clean
  obtain ⟨subject, afterPrimary, primaryParsed, primaryClean, parsed, clean⟩ :=
    bind_clean (advancing_primary advances) (fun _ => advancing_suffixes advances bound _)
      parsed clean
  obtain ⟨before, primaryRest, subjectDerived⟩ := primary_sound sound short primaryParsed primaryClean
  have taken : 0 < before.length := List.length_pos_iff.mpr subjectDerived.tokens_ne_nil
  rw [primaryRest, List.length_append] at short
  obtain ⟨tokens, suffixRest, derived⟩ :=
    suffixes_sound advances sound bound (Nat.le_refl _) (Derives.noSuffix subjectDerived)
      (by omega) parsed clean
  refine ⟨before ++ tokens, ?_, derived⟩
  rw [primaryRest, suffixRest, List.append_assoc]

/-! ## Operators -/

theorem unary_sound (advances : Advancing expression)
    (sound : SoundFor bound .assignment expression) (depth : Nat) :
    SoundFor (bound + 1) .unary (unary expression bound depth) := by
  induction depth with
  | zero =>
      intro state final expr short parsed clean
      obtain ⟨tokens, restEquality, derived⟩ := call_sound advances sound short parsed clean
      exact ⟨tokens, restEquality, Derives.noOperation derived⟩
  | succ depth inductionHypothesis =>
      intro state final expr short parsed clean
      rw [unary, bind_eq_ok_iff] at parsed
      obtain ⟨found, afterOperator, operatorRead, parsed⟩ := parsed
      cases found with
      | none =>
          obtain ⟨rfl, -⟩ := acceptIf_none operatorRead
          obtain ⟨tokens, restEquality, derived⟩ := call_sound advances sound short parsed clean
          exact ⟨tokens, restEquality, Derives.noOperation derived⟩
      | some operator =>
          obtain ⟨operatorRest, accepted, operatorErrors, -⟩ := acceptIf_some operatorRead
          rw [bind_eq_ok_iff] at parsed
          obtain ⟨operand, afterOperand, operandParsed, finished⟩ := parsed
          obtain ⟨rfl, rfl⟩ := pure_eq_ok_iff.mp finished
          rw [operatorRest, List.length_cons] at short
          obtain ⟨tokens, operandRest, derived⟩ :=
            inductionHypothesis (by omega) operandParsed (clean.trans operatorErrors.symm)
          have operatorKind :
              operator.kind = .punct .bang ∨ operator.kind = .punct .minus := by
            simpa [isUnaryOperator] using accepted
          refine ⟨operator :: tokens, ?_, Derives.unaryOperation operatorKind derived⟩
          rw [operatorRest, operandRest, List.cons_append]

/-- The parser's description of a level of operators. -/
def levelOf (tier : Tier) : Level where
  operators := tier.operators
  combine := tier.node

/-- How many levels are looser. -/
def rank : Tier → Nat
  | .or => 0
  | .and => 1
  | .equality => 2
  | .comparison => 3
  | .term => 4
  | .factor => 5

/-- The levels of operators in a phrase. -/
def levelsOf : Phrase → List Level
  | .tier tier => levels.drop (rank tier)
  | _ => []

theorem levelsOf_tier (tier : Tier) :
    levelsOf (.tier tier) = levelOf tier :: levelsOf tier.operand := by
  cases tier <;> rfl

theorem operations_sound {tier : Tier} {operand : Parser Expr}
    (advances : Advancing operand) (sound : SoundFor bound tier.operand operand)
    (budget : Nat) {before : List Token} {left : Expr}
    (leftDerived : Derives (.tier tier) before left) :
    Sound bound (fun tokens expr _ => Derives (.tier tier) (before ++ tokens) expr)
      (operations (levelOf tier) operand budget left) := by
  induction budget generalizing before left with
  | zero =>
      intro state final expr _ parsed _
      obtain ⟨rfl, rfl⟩ := pure_eq_ok_iff.mp parsed
      exact ⟨[], rfl, by simpa using leftDerived⟩
  | succ budget inductionHypothesis =>
      intro state final expr short parsed clean
      rw [operations, bind_eq_ok_iff] at parsed
      obtain ⟨found, afterOperator, operatorRead, parsed⟩ := parsed
      cases found with
      | none =>
          obtain ⟨rfl, -⟩ := acceptIf_none operatorRead
          obtain ⟨rfl, rfl⟩ := pure_eq_ok_iff.mp parsed
          exact ⟨[], rfl, by simpa using leftDerived⟩
      | some operator =>
          obtain ⟨operatorRest, accepted, operatorErrors, -⟩ := acceptIf_some operatorRead
          have operatorKind : operator.kind ∈ tier.operators := by
            simpa [levelOf] using accepted
          obtain ⟨right, afterRight, rightParsed, rightClean, parsed, clean⟩ :=
            bind_clean advances (fun _ => advancing_operations _ advances _ _) parsed
              (clean.trans operatorErrors.symm)
          rw [operatorRest, List.length_cons] at short
          obtain ⟨after, rightRest, rightDerived⟩ := sound (by omega) rightParsed rightClean
          have combined := Derives.operation leftDerived operatorKind rightDerived
          rw [rightRest, List.length_append] at short
          obtain ⟨tokens, restEquality, extended⟩ :=
            inductionHypothesis combined (by omega) parsed clean
          refine ⟨operator :: (after ++ tokens), ?_, ?_⟩
          · rw [operatorRest, rightRest, restEquality]
            simp
          · simpa using extended

theorem tier_sound (tier : Tier) {operand : Parser Expr} (advances : Advancing operand)
    (budget : Nat)
    (sound : SoundFor bound tier.operand (infixLevels operand budget (levelsOf tier.operand))) :
    SoundFor bound (.tier tier) (infixLevels operand budget (levelsOf (.tier tier))) := by
  intro state final expr short parsed clean
  have operandAdvances := advancing_infixLevels advances budget (levelsOf tier.operand)
  rw [levelsOf_tier, infixLevels] at parsed
  obtain ⟨left, afterLeft, leftParsed, leftClean, parsed, clean⟩ :=
    bind_clean operandAdvances (fun _ => advancing_operations _ operandAdvances _ _) parsed clean
  obtain ⟨before, leftRest, leftDerived⟩ := sound short leftParsed leftClean
  rw [leftRest, List.length_append] at short
  obtain ⟨tokens, restEquality, derived⟩ :=
    operations_sound operandAdvances sound budget (Derives.operand leftDerived) (by omega)
      parsed clean
  refine ⟨before ++ tokens, ?_, derived⟩
  rw [leftRest, restEquality, List.append_assoc]

theorem infixLevels_sound {operand : Parser Expr} (advances : Advancing operand) (budget : Nat)
    (sound : SoundFor bound .unary operand) :
    SoundFor bound (.tier .or) (infixLevels operand budget levels) := by
  have factors := tier_sound .factor advances budget sound
  have terms := tier_sound .term advances budget factors
  have comparisons := tier_sound .comparison advances budget terms
  have equalities := tier_sound .equality advances budget comparisons
  have conjunctions := tier_sound .and advances budget equalities
  exact tier_sound .or advances budget conjunctions

/-! ## Assignment -/

/-- A variable stands for itself at every level but that of assignments. -/
theorem derives_var {phrase : Phrase} {tokens : List Token} {id : UseId} {name : Name}
    (derived : Derives phrase tokens (.var id name)) :
    ∃ token : Token, tokens = [token] ∧ token.kind = .identifier ∧ name = token.toName := by
  generalize exprEquality : Expr.var id name = expr at derived
  induction derived with
  | noAssignment _ inductionHypothesis => exact inductionHypothesis exprEquality
  | operand _ inductionHypothesis => exact inductionHypothesis exprEquality
  | @operation tier => cases tier <;> cases exprEquality
  | noOperation _ inductionHypothesis => exact inductionHypothesis exprEquality
  | noSuffix _ inductionHypothesis => exact inductionHypothesis exprEquality
  | identifier _ kind =>
      injection exprEquality with _ nameEquality
      exact ⟨_, rfl, kind, nameEquality⟩
  | _ => cases exprEquality

/-- A property access is a call, a dot and a name. -/
theorem derives_get {phrase : Phrase} {tokens : List Token} {object : Expr} {name : Name}
    (derived : Derives phrase tokens (.get object name)) :
    ∃ (target : List Token) (dot token : Token), tokens = target ++ [dot, token] ∧
      Derives .call target object ∧ dot.kind = .punct .dot ∧ token.kind = .identifier ∧
      name = token.toName := by
  generalize exprEquality : Expr.get object name = expr at derived
  induction derived with
  | noAssignment _ inductionHypothesis => exact inductionHypothesis exprEquality
  | operand _ inductionHypothesis => exact inductionHypothesis exprEquality
  | @operation tier => cases tier <;> cases exprEquality
  | noOperation _ inductionHypothesis => exact inductionHypothesis exprEquality
  | noSuffix _ inductionHypothesis => exact inductionHypothesis exprEquality
  | property targetDerived dotKind nameKind =>
      injection exprEquality with objectEquality nameEquality
      exact ⟨_, _, _, rfl, objectEquality ▸ targetDerived, dotKind, nameKind, nameEquality⟩
  | _ => cases exprEquality

/-- Without errors, an expression before `=` is a variable or a property. -/
theorem assignTo_sound {before after : List Token} {equals : Token} {target value : Expr}
    (targetDerived : Derives (.tier .or) before target)
    (equalsKind : equals.kind = .punct .equal)
    (valueDerived : Derives .assignment after value)
    {state final : ParserState} {expr : Expr}
    (parsed : assignTo target equals value state = .ok expr final)
    (clean : final.errors = state.errors) :
    final.rest = state.rest ∧
      Derives .assignment (before ++ equals :: after) expr := by
  cases target with
  | var id name =>
      obtain ⟨token, rfl, nameKind, rfl⟩ := derives_var targetDerived
      rw [assignTo, bind_eq_ok_iff] at parsed
      obtain ⟨fresh, afterId, idGiven, finished⟩ := parsed
      obtain ⟨rfl, rfl⟩ := pure_eq_ok_iff.mp finished
      obtain ⟨-, rfl⟩ := freshId_ok idGiven
      exact ⟨rfl, Derives.assign fresh nameKind equalsKind valueDerived⟩
  | get object name =>
      obtain ⟨targetTokens, dot, token, rfl, objectDerived, dotKind, nameKind, rfl⟩ :=
        derives_get targetDerived
      rw [assignTo, pure_eq_ok_iff] at parsed
      obtain ⟨rfl, rfl⟩ := parsed
      refine ⟨rfl, ?_⟩
      have assigned := Derives.set objectDerived dotKind nameKind equalsKind valueDerived
      simpa using assigned
  | _ =>
      rw [assignTo, bind_eq_ok_iff] at parsed
      · obtain ⟨_, reported, reporting, finished⟩ := parsed
        obtain ⟨-, rfl⟩ := pure_eq_ok_iff.mp finished
        rw [reportAt_apply] at reporting
        injection reporting with _ reportedEquality
        subst reportedEquality
        have longer := congrArg Array.size clean
        simp [ParserState.record] at longer
      · intro _ _ isVar
        cases isVar
      · intro _ _ isGet
        cases isGet

theorem assignment_sound (advances : Advancing expression)
    (sound : SoundFor bound .assignment expression) :
    SoundFor (bound + 1) .assignment (assignment expression bound) := by
  intro state final expr short parsed clean
  have operandAdvances := advancing_unary advances bound bound
  have targetAdvances := advancing_infixLevels operandAdvances bound levels
  have targetSound := infixLevels_sound operandAdvances bound (unary_sound advances sound bound)
  rw [assignment] at parsed
  obtain ⟨target, afterTarget, targetParsed, targetClean, parsed, clean⟩ :=
    bind_clean targetAdvances (fun target => (advancing_accept _).bind fun found => by
      cases found with
      | none => exact Advancing.pure _
      | some equals => exact advances.bind fun _ => advancing_assignTo _ _ _) parsed clean
  obtain ⟨before, targetRest, targetDerived⟩ := targetSound short targetParsed targetClean
  rw [bind_eq_ok_iff] at parsed
  obtain ⟨found, afterEquals, equalsRead, parsed⟩ := parsed
  cases found with
  | none =>
      obtain ⟨rfl, -⟩ := accept_none (by decide) equalsRead
      obtain ⟨rfl, rfl⟩ := pure_eq_ok_iff.mp parsed
      exact ⟨before, targetRest, Derives.noAssignment targetDerived⟩
  | some equals =>
      obtain ⟨equalsRest, equalsKind, equalsErrors, -⟩ := accept_some equalsRead
      obtain ⟨value, afterValue, valueParsed, valueClean, parsed, clean⟩ :=
        bind_clean advances (fun _ => advancing_assignTo _ _ _) parsed
          (clean.trans equalsErrors.symm)
      rw [targetRest, equalsRest, List.length_append, List.length_cons] at short
      obtain ⟨after, valueRest, valueDerived⟩ := sound (by omega) valueParsed valueClean
      obtain ⟨finalRest, derived⟩ :=
        assignTo_sound targetDerived equalsKind valueDerived parsed clean
      refine ⟨before ++ equals :: after, ?_, derived⟩
      rw [targetRest, equalsRest, valueRest, finalRest]
      simp

/-- Without errors, an expression is the tree of the tokens it took. -/
theorem expression_sound (budget : Nat) :
    SoundFor budget .assignment (Parser.expression budget) := by
  induction budget with
  | zero =>
      intro state final expr _ parsed _
      cases parsed
  | succ budget inductionHypothesis =>
      exact assignment_sound (advancing_expression budget) inductionHypothesis

end Parser

end Lox
