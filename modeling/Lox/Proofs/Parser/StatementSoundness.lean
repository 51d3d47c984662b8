import Lox.Proofs.Parser.ExpressionSoundness

/-!
# Parsed programs derive from the grammar

If a parser for statements succeeds without recording an error, then the tokens
it took derive from its nonterminal, with every `else` at the nearest `if`, and
its result is the tree of that derivation.  Recovery records an error, so it
plays no part here.
-/

namespace Lox

namespace Parser

open Actions Grammar

/-- No `else` follows. -/
def NoElse (rest : List Token) : Prop :=
  ∀ token ∈ rest.head?, token.kind ≠ .keyword .else_

theorem noElse_of_peek {state : ParserState} (next : state.peek.kind ≠ .keyword .else_) :
    NoElse state.rest := by
  intro token member
  have found := Option.mem_def.mp member
  rw [ParserState.peek, List.headD_eq_head?_getD, found] at next
  exact next

/-- What is derived from a nonterminal for statements; an `if` at the end that
could take an `else` is not followed by one. -/
abbrev DerivesBefore (clause : Clause) (tokens : List Token) (stmt : Stmt)
    (rest : List Token) : Prop :=
  ∃ isOpen, DerivesStmt true clause tokens stmt isOpen ∧ (isOpen = true → NoElse rest)

/-- The statement of a declaration that did not fail. -/
abbrev DerivesDeclaration (tokens : List Token) (found : Option Stmt) (_ : List Token) : Prop :=
  ∃ stmt isOpen, found = some stmt ∧ DerivesStmt true .declaration tokens stmt isOpen

variable {expression : Parser Expr} {statement : Parser Stmt}
  {declaration : Parser (Option Stmt)} {bound : Nat}

/-! ## Simple statements -/

theorem varDeclaration_sound (sound : SoundFor bound .assignment expression) :
    Sound bound
      (fun tokens stmt _ => ∀ keyword : Token, keyword.kind = .keyword .var_ →
        VarDeclaration (keyword :: tokens) stmt)
      (varDeclaration expression) := by
  intro state final stmt short parsed clean
  rw [varDeclaration, bind_eq_ok_iff] at parsed
  obtain ⟨name, afterName, nameRead, parsed⟩ := parsed
  rw [bind_eq_ok_iff] at parsed
  obtain ⟨assigned, afterEquals, equalsRead, parsed⟩ := parsed
  obtain ⟨token, nameRest, nameKind, rfl, nameErrors, -⟩ := expectName_ok nameRead
  cases assigned with
  | true =>
      rw [if_pos rfl, bind_eq_ok_iff] at parsed
      obtain ⟨initializer, afterValue, valueParsed, parsed⟩ := parsed
      rw [bind_eq_ok_iff] at parsed
      obtain ⟨semicolon, afterEnd, endRead, finished⟩ := parsed
      obtain ⟨value, expressionParsed, rfl⟩ := map_eq_ok_iff.mp valueParsed
      obtain ⟨equals, equalsRest, equalsKind, equalsErrors, -⟩ := skip_true equalsRead
      obtain ⟨endRest, endKind, endErrors, -⟩ := expect_ok endRead
      obtain ⟨rfl, rfl⟩ := pure_eq_ok_iff.mp finished
      rw [nameRest, equalsRest, List.length_cons, List.length_cons] at short
      obtain ⟨tokens, valueRest, derived⟩ := sound (by omega) expressionParsed (by
        rw [← endErrors, clean, equalsErrors, nameErrors])
      refine ⟨token :: equals :: (tokens ++ [semicolon]), ?_, ?_⟩
      · rw [nameRest, equalsRest, valueRest, endRest]
        simp
      · intro keyword keywordKind
        exact VarDeclaration.initialized keywordKind nameKind equalsKind derived endKind
  | false =>
      rw [if_neg (by decide), bind_eq_ok_iff] at parsed
      obtain ⟨initializer, afterValue, valueGiven, parsed⟩ := parsed
      rw [bind_eq_ok_iff] at parsed
      obtain ⟨semicolon, afterEnd, endRead, finished⟩ := parsed
      obtain ⟨rfl, rfl⟩ := pure_eq_ok_iff.mp valueGiven
      obtain ⟨rfl, -⟩ := skip_false (by decide) equalsRead
      obtain ⟨endRest, endKind, -, -⟩ := expect_ok endRead
      obtain ⟨rfl, rfl⟩ := pure_eq_ok_iff.mp finished
      refine ⟨[token, semicolon], ?_, ?_⟩
      · rw [nameRest, endRest]
        rfl
      · intro keyword keywordKind
        exact VarDeclaration.plain keywordKind nameKind endKind

theorem expressionStatement_sound (sound : SoundFor bound .assignment expression) :
    Sound bound (fun tokens stmt _ => ExpressionStatement tokens stmt)
      (expressionStatement expression) := by
  intro state final stmt short parsed clean
  rw [expressionStatement, bind_eq_ok_iff] at parsed
  obtain ⟨value, afterValue, valueParsed, parsed⟩ := parsed
  rw [bind_eq_ok_iff] at parsed
  obtain ⟨semicolon, afterEnd, endRead, finished⟩ := parsed
  obtain ⟨endRest, endKind, endErrors, -⟩ := expect_ok endRead
  obtain ⟨rfl, rfl⟩ := pure_eq_ok_iff.mp finished
  obtain ⟨tokens, valueRest, derived⟩ := sound short valueParsed (by rw [← endErrors, clean])
  refine ⟨tokens ++ [semicolon], ?_, ExpressionStatement.mk derived endKind⟩
  rw [valueRest, endRest]
  simp

theorem printStatement_sound (sound : SoundFor bound .assignment expression) :
    Sound bound
      (fun tokens stmt _ => ∀ keyword : Token, keyword.kind = .keyword .print_ →
        DerivesStmt true .statement (keyword :: tokens) stmt false)
      (printStatement expression) := by
  intro state final stmt short parsed clean
  rw [printStatement, bind_eq_ok_iff] at parsed
  obtain ⟨value, afterValue, valueParsed, parsed⟩ := parsed
  rw [bind_eq_ok_iff] at parsed
  obtain ⟨semicolon, afterEnd, endRead, finished⟩ := parsed
  obtain ⟨endRest, endKind, endErrors, -⟩ := expect_ok endRead
  obtain ⟨rfl, rfl⟩ := pure_eq_ok_iff.mp finished
  obtain ⟨tokens, valueRest, derived⟩ := sound short valueParsed (by rw [← endErrors, clean])
  refine ⟨tokens ++ [semicolon], ?_, fun keyword keywordKind =>
    DerivesStmt.print keywordKind derived endKind⟩
  rw [valueRest, endRest]
  simp

theorem unlessNext_sound (kind : TokenKind) (sound : SoundFor bound .assignment expression) :
    Sound bound (fun tokens found _ => DerivesOptional tokens found)
      (unlessNext kind expression) := by
  intro state final found short parsed clean
  rw [unlessNext, bind_eq_ok_iff] at parsed
  obtain ⟨next, checked, nextChecked, parsed⟩ := parsed
  obtain rfl := check_ok nextChecked
  cases next with
  | true =>
      obtain ⟨rfl, rfl⟩ := pure_eq_ok_iff.mp parsed
      exact ⟨[], rfl, DerivesOptional.absent⟩
  | false =>
      rw [if_neg (by decide)] at parsed
      obtain ⟨value, valueParsed, rfl⟩ := map_eq_ok_iff.mp parsed
      obtain ⟨tokens, valueRest, derived⟩ := sound short valueParsed clean
      exact ⟨tokens, valueRest, DerivesOptional.present derived⟩

theorem returnStatement_sound (sound : SoundFor bound .assignment expression) (line : Nat) :
    Sound bound
      (fun tokens stmt _ => ∀ keyword : Token, keyword.kind = .keyword .return_ →
        keyword.line = line → DerivesStmt true .statement (keyword :: tokens) stmt false)
      (returnStatement expression line) := by
  intro state final stmt short parsed clean
  rw [returnStatement, bind_eq_ok_iff] at parsed
  obtain ⟨value, afterValue, valueParsed, parsed⟩ := parsed
  rw [bind_eq_ok_iff] at parsed
  obtain ⟨semicolon, afterEnd, endRead, finished⟩ := parsed
  obtain ⟨endRest, endKind, endErrors, -⟩ := expect_ok endRead
  obtain ⟨rfl, rfl⟩ := pure_eq_ok_iff.mp finished
  obtain ⟨tokens, valueRest, derived⟩ :=
    unlessNext_sound _ sound short valueParsed (by rw [← endErrors, clean])
  refine ⟨tokens ++ [semicolon], ?_, ?_⟩
  · rw [valueRest, endRest]
    simp
  · rintro keyword keywordKind rfl
    exact DerivesStmt.return_ keywordKind derived endKind

/-! ## Statements with parts -/

theorem blockBody_sound (advances : Advancing declaration)
    (sound : Sound bound DerivesDeclaration declaration)
    (budget : Nat) (done : List Stmt) :
    Sound bound
      (fun tokens stmts _ => ∃ (body : List Sentence) (closed : Token),
        stmts = done.reverse ++ body.map Sentence.tree ∧
          (∀ part ∈ body,
            DerivesStmt true .declaration part.tokens part.tree part.isOpen) ∧
          closed.kind = .punct .rightBrace ∧
          tokens = body.flatMap Sentence.tokens ++ [closed])
      (blockBody declaration budget done) := by
  induction budget generalizing done with
  | zero =>
      intro state final stmts _ parsed _
      cases parsed
  | succ budget inductionHypothesis =>
      intro state final stmts short parsed clean
      rw [blockBody, bind_eq_ok_iff] at parsed
      obtain ⟨closes, checked, closingChecked, parsed⟩ := parsed
      obtain rfl := check_ok closingChecked
      rw [bind_eq_ok_iff] at parsed
      obtain ⟨ended, afterEnd, endSeen, parsed⟩ := parsed
      injection endSeen with _ stateEquality
      subst stateEquality
      split at parsed
      · rw [bind_eq_ok_iff] at parsed
        obtain ⟨closed, afterClosed, closedRead, finished⟩ := parsed
        obtain ⟨closedRest, closedKind, -, -⟩ := expect_ok closedRead
        obtain ⟨rfl, rfl⟩ := pure_eq_ok_iff.mp finished
        exact ⟨[closed], closedRest, [], closed, by simp, by simp, closedKind, rfl⟩
      · obtain ⟨found, afterNext, nextParsed, nextClean, parsed, clean⟩ :=
          bind_clean advances (fun _ => advancing_blockBody advances _ _) parsed clean
        obtain ⟨tokens, nextRest, stmt, isOpen, rfl, derived⟩ := sound short nextParsed nextClean
        rw [nextRest, List.length_append] at short
        obtain ⟨later, bodyRest, body, closed, rfl, bodyDerived, closedKind, rfl⟩ :=
          inductionHypothesis _ (by omega) parsed clean
        refine ⟨tokens ++ (body.flatMap Sentence.tokens ++ [closed]), ?_,
          ⟨tokens, stmt, isOpen⟩ :: body, closed, ?_, ?_, closedKind, ?_⟩
        · rw [nextRest, bodyRest]
          simp only [List.append_assoc]
        · simp
        · intro part member
          rcases List.mem_cons.mp member with rfl | later
          · exact derived
          · exact bodyDerived part later
        · simp

/-- Without errors, a condition in parentheses is read before what follows it. -/
theorem condition_read {α : Type} {next : Expr → Parser α} {openingFault closingFault : SyntaxFault}
    {state final : ParserState} {value : α} (advances : Advancing expression)
    (nextAdvances : ∀ condition, Advancing (next condition))
    (sound : SoundFor bound .assignment expression) (short : state.rest.length ≤ bound)
    (parsed :
      (expect (.punct .leftParen) openingFault >>= fun _ =>
        expression >>= fun condition =>
          expect (.punct .rightParen) closingFault >>= fun _ => next condition) state =
        .ok value final)
    (clean : final.errors = state.errors) :
    ∃ opening tested condition closing middle, opening.kind = .punct .leftParen ∧
      Derives .assignment tested condition ∧ closing.kind = .punct .rightParen ∧
      state.rest = opening :: (tested ++ closing :: middle.rest) ∧
      next condition middle = .ok value final ∧ final.errors = middle.errors := by
  rw [bind_eq_ok_iff] at parsed
  obtain ⟨opening, afterOpening, openingRead, parsed⟩ := parsed
  obtain ⟨openingRest, openingKind, openingErrors, -⟩ := expect_ok openingRead
  obtain ⟨condition, afterCondition, conditionParsed, conditionClean, parsed, clean⟩ :=
    bind_clean advances (fun _ => (advancing_expect _ _).bind fun _ => nextAdvances _) parsed
      (clean.trans openingErrors.symm)
  rw [bind_eq_ok_iff] at parsed
  obtain ⟨closing, afterClosing, closingRead, parsed⟩ := parsed
  obtain ⟨closingRest, closingKind, closingErrors, -⟩ := expect_ok closingRead
  rw [openingRest, List.length_cons] at short
  obtain ⟨tested, conditionRest, conditionDerived⟩ :=
    sound (by omega) conditionParsed conditionClean
  refine ⟨opening, tested, condition, closing, afterClosing, openingKind, conditionDerived,
    closingKind, ?_, parsed, clean.trans closingErrors.symm⟩
  rw [openingRest, conditionRest, closingRest]

/-- What is read behind the first branch of an `if`. -/
def elsePart (statement : Parser Stmt) (condition : Expr) (thenBranch : Stmt) : Parser Stmt := do
  let elseBranch ← if ← skip (.keyword .else_) then some <$> statement else pure none
  return .if_ condition thenBranch elseBranch

theorem advancing_elsePart (advances : Advancing statement) (condition : Expr)
    (thenBranch : Stmt) : Advancing (elsePart statement condition thenBranch) :=
  (advancing_skip _).bind fun _ =>
    Advancing.ite ((advances.map _).bind fun _ => Advancing.pure _)
      ((Advancing.pure _).bind fun _ => Advancing.pure _)

/-- Without errors, `else` and a branch are read, or nothing where there is no `else`. -/
theorem elsePart_sound (statementSound : Sound bound (DerivesBefore .statement) statement)
    (condition : Expr) (thenBranch : Stmt) :
    Sound bound
      (fun tokens stmt rest =>
        (tokens = [] ∧ stmt = .if_ condition thenBranch none ∧ NoElse rest) ∨
          ∃ otherwise alternative elseBranch, tokens = otherwise :: alternative ∧
            otherwise.kind = .keyword .else_ ∧
            stmt = .if_ condition thenBranch (some elseBranch) ∧
            DerivesBefore .statement alternative elseBranch rest)
      (elsePart statement condition thenBranch) := by
  intro state final stmt short parsed clean
  rw [elsePart, bind_eq_ok_iff] at parsed
  obtain ⟨hasElse, afterElse, elseRead, parsed⟩ := parsed
  cases hasElse with
  | true =>
      obtain ⟨otherwise, elseRest, elseKind, elseErrors, -⟩ := skip_true elseRead
      rw [if_pos rfl, bind_eq_ok_iff] at parsed
      obtain ⟨found, afterBranch, branchParsed, finished⟩ := parsed
      obtain ⟨elseBranch, elseParsed, rfl⟩ := map_eq_ok_iff.mp branchParsed
      obtain ⟨rfl, rfl⟩ := pure_eq_ok_iff.mp finished
      rw [elseRest, List.length_cons] at short
      obtain ⟨alternative, branchRest, derived⟩ :=
        statementSound (by omega) elseParsed (clean.trans elseErrors.symm)
      refine ⟨otherwise :: alternative, ?_, .inr ⟨otherwise, alternative, elseBranch, rfl, elseKind,
        rfl, derived⟩⟩
      rw [elseRest, branchRest, List.cons_append]
  | false =>
      obtain ⟨rfl, nextKind⟩ := skip_false (by decide) elseRead
      rw [if_neg (by decide), bind_eq_ok_iff] at parsed
      obtain ⟨found, afterBranch, noneGiven, finished⟩ := parsed
      obtain ⟨rfl, rfl⟩ := pure_eq_ok_iff.mp noneGiven
      obtain ⟨rfl, rfl⟩ := pure_eq_ok_iff.mp finished
      exact ⟨[], rfl, .inl ⟨rfl, rfl, noElse_of_peek nextKind⟩⟩

theorem ifStatement_sound (advances : Advancing expression)
    (statementAdvances : Advancing statement)
    (sound : SoundFor bound .assignment expression)
    (statementSound : Sound bound (DerivesBefore .statement) statement) :
    Sound bound
      (fun tokens stmt rest => ∀ keyword : Token, keyword.kind = .keyword .if_ →
        DerivesBefore .statement (keyword :: tokens) stmt rest)
      (ifStatement expression statement) := by
  intro state final stmt short parsed clean
  rw [ifStatement] at parsed
  obtain ⟨opening, tested, condition, closing, middle, openingKind, conditionDerived, closingKind,
    testedRest, parsed, clean⟩ :=
    condition_read advances
      (fun _ => statementAdvances.bind fun _ => advancing_elsePart statementAdvances _ _) sound
      short parsed clean
  obtain ⟨thenBranch, afterThen, thenParsed, thenClean, elseParsed, clean⟩ :=
    bind_clean statementAdvances (fun _ => advancing_elsePart statementAdvances _ _) parsed clean
  rw [testedRest, List.length_cons, List.length_append, List.length_cons] at short
  obtain ⟨branch, thenRest, thenOpen, thenDerived, thenNoElse⟩ :=
    statementSound (by omega) thenParsed thenClean
  rw [thenRest, List.length_append] at short
  obtain ⟨later, elseRest, read⟩ :=
    elsePart_sound statementSound condition thenBranch (by omega) elseParsed clean
  refine ⟨opening :: (tested ++ closing :: (branch ++ later)), ?_, ?_⟩
  · rw [testedRest, thenRest, elseRest]
    simp
  intro keyword keywordKind
  rcases read with ⟨rfl, rfl, noElse⟩ |
    ⟨otherwise, alternative, elseBranch, rfl, elseKind, rfl, isOpen, elseDerived, elseNoElse⟩
  · rw [List.append_nil]
    exact ⟨true, DerivesStmt.ifThen keywordKind openingKind conditionDerived closingKind
      thenDerived, fun _ => noElse⟩
  · -- the branch before `else` is followed by `else`, so it cannot be open
    have thenClosed : thenOpen = false := by
      cases thenOpen with
      | false => rfl
      | true =>
          have nothing := thenNoElse rfl otherwise (by rw [elseRest]; rfl)
          exact absurd elseKind nothing
    exact ⟨isOpen, DerivesStmt.ifThenElse keywordKind openingKind conditionDerived closingKind
      thenDerived (fun _ => thenClosed) elseKind elseDerived, elseNoElse⟩

theorem whileStatement_sound (advances : Advancing expression)
    (statementAdvances : Advancing statement)
    (sound : SoundFor bound .assignment expression)
    (statementSound : Sound bound (DerivesBefore .statement) statement) :
    Sound bound
      (fun tokens stmt rest => ∀ keyword : Token, keyword.kind = .keyword .while_ →
        DerivesBefore .statement (keyword :: tokens) stmt rest)
      (whileStatement expression statement) := by
  intro state final stmt short parsed clean
  rw [whileStatement] at parsed
  obtain ⟨opening, tested, condition, closing, middle, openingKind, conditionDerived, closingKind,
    testedRest, parsed, clean⟩ :=
    condition_read advances (fun _ => statementAdvances.bind fun _ => Advancing.pure _) sound short
      parsed clean
  rw [bind_eq_ok_iff] at parsed
  obtain ⟨body, afterBody, bodyParsed, finished⟩ := parsed
  obtain ⟨rfl, rfl⟩ := pure_eq_ok_iff.mp finished
  rw [testedRest, List.length_cons, List.length_append, List.length_cons] at short
  obtain ⟨last, bodyRest, isOpen, bodyDerived, bodyNoElse⟩ :=
    statementSound (by omega) bodyParsed clean
  refine ⟨opening :: (tested ++ closing :: last), ?_, ?_⟩
  · rw [testedRest, bodyRest]
    simp
  · intro keyword keywordKind
    exact ⟨isOpen, DerivesStmt.whileLoop keywordKind openingKind conditionDerived closingKind
      bodyDerived, bodyNoElse⟩

theorem forInitializer_sound (sound : SoundFor bound .assignment expression) :
    Sound bound (fun tokens found _ => ForInitializer tokens found)
      (forInitializer expression) := by
  intro state final found short parsed clean
  rw [forInitializer, bind_eq_ok_iff] at parsed
  obtain ⟨empty, afterSemicolon, semicolonRead, parsed⟩ := parsed
  cases empty with
  | true =>
      obtain ⟨semicolon, semicolonRest, semicolonKind, -, -⟩ := skip_true semicolonRead
      obtain ⟨rfl, rfl⟩ := pure_eq_ok_iff.mp parsed
      exact ⟨[semicolon], semicolonRest, ForInitializer.absent semicolonKind⟩
  | false =>
      obtain ⟨rfl, -⟩ := skip_false (by decide) semicolonRead
      rw [if_neg (by decide), bind_eq_ok_iff] at parsed
      obtain ⟨declares, afterVar, varRead, parsed⟩ := parsed
      cases declares with
      | true =>
          obtain ⟨keyword, varRest, varKind, varErrors, -⟩ := skip_true varRead
          rw [if_pos rfl] at parsed
          obtain ⟨stmt, stmtParsed, rfl⟩ := map_eq_ok_iff.mp parsed
          rw [varRest, List.length_cons] at short
          obtain ⟨tokens, stmtRest, derived⟩ :=
            varDeclaration_sound sound (by omega) stmtParsed (clean.trans varErrors.symm)
          refine ⟨keyword :: tokens, ?_, ForInitializer.declaration (derived keyword varKind)⟩
          rw [varRest, stmtRest, List.cons_append]
      | false =>
          obtain ⟨rfl, -⟩ := skip_false (by decide) varRead
          rw [if_neg (by decide)] at parsed
          obtain ⟨stmt, stmtParsed, rfl⟩ := map_eq_ok_iff.mp parsed
          obtain ⟨tokens, stmtRest, derived⟩ :=
            expressionStatement_sound sound short stmtParsed clean
          exact ⟨tokens, stmtRest, ForInitializer.expression derived⟩

theorem forLoop_eq_lowerFor (initializer : Option Stmt) (condition increment : Option Expr)
    (body : Stmt) :
    forLoop initializer condition increment body =
      lowerFor initializer condition increment body :=
  rfl

theorem forStatement_sound (advances : Advancing expression)
    (statementAdvances : Advancing statement)
    (sound : SoundFor bound .assignment expression)
    (statementSound : Sound bound (DerivesBefore .statement) statement) :
    Sound bound
      (fun tokens stmt rest => ∀ keyword : Token, keyword.kind = .keyword .for_ →
        DerivesBefore .statement (keyword :: tokens) stmt rest)
      (forStatement expression statement) := by
  intro state final stmt short parsed clean
  rw [forStatement, bind_eq_ok_iff] at parsed
  obtain ⟨opening, afterOpening, openingRead, parsed⟩ := parsed
  obtain ⟨openingRest, openingKind, openingErrors, -⟩ := expect_ok openingRead
  obtain ⟨initializer, afterFirst, firstParsed, firstClean, parsed, clean⟩ :=
    bind_clean (advancing_forInitializer advances)
      (fun _ => (advancing_unlessNext _ advances).bind fun _ => (advancing_expect _ _).bind fun _ =>
        (advancing_unlessNext _ advances).bind fun _ => (advancing_expect _ _).bind fun _ =>
          statementAdvances.bind fun _ => Advancing.pure _)
      parsed (clean.trans openingErrors.symm)
  obtain ⟨condition, afterSecond, secondParsed, secondClean, parsed, clean⟩ :=
    bind_clean (advancing_unlessNext _ advances)
      (fun _ => (advancing_expect _ _).bind fun _ =>
        (advancing_unlessNext _ advances).bind fun _ => (advancing_expect _ _).bind fun _ =>
          statementAdvances.bind fun _ => Advancing.pure _)
      parsed clean
  rw [bind_eq_ok_iff] at parsed
  obtain ⟨semicolon, afterSemicolon, semicolonRead, parsed⟩ := parsed
  obtain ⟨semicolonRest, semicolonKind, semicolonErrors, -⟩ := expect_ok semicolonRead
  obtain ⟨increment, afterThird, thirdParsed, thirdClean, parsed, clean⟩ :=
    bind_clean (advancing_unlessNext _ advances)
      (fun _ => (advancing_expect _ _).bind fun _ =>
          statementAdvances.bind fun _ => Advancing.pure _)
      parsed (clean.trans semicolonErrors.symm)
  rw [bind_eq_ok_iff] at parsed
  obtain ⟨closing, afterClosing, closingRead, parsed⟩ := parsed
  obtain ⟨closingRest, closingKind, closingErrors, -⟩ := expect_ok closingRead
  rw [bind_eq_ok_iff] at parsed
  obtain ⟨body, afterBody, bodyParsed, finished⟩ := parsed
  obtain ⟨rfl, rfl⟩ := pure_eq_ok_iff.mp finished
  rw [openingRest, List.length_cons] at short
  obtain ⟨first, firstRest, firstDerived⟩ :=
    forInitializer_sound sound (by omega) firstParsed firstClean
  rw [firstRest, List.length_append] at short
  obtain ⟨second, secondRest, secondDerived⟩ :=
    unlessNext_sound _ sound (by omega) secondParsed secondClean
  rw [secondRest, semicolonRest, List.length_append, List.length_cons] at short
  obtain ⟨third, thirdRest, thirdDerived⟩ :=
    unlessNext_sound _ sound (by omega) thirdParsed thirdClean
  rw [thirdRest, closingRest, List.length_append, List.length_cons] at short
  obtain ⟨last, bodyRest, isOpen, bodyDerived, bodyNoElse⟩ :=
    statementSound (by omega) bodyParsed (clean.trans closingErrors.symm)
  refine ⟨opening :: (first ++ (second ++ semicolon :: (third ++ closing :: last))), ?_, ?_⟩
  · rw [openingRest, firstRest, secondRest, semicolonRest, thirdRest, closingRest, bodyRest]
    simp
  · intro keyword keywordKind
    rw [forLoop_eq_lowerFor]
    exact ⟨isOpen, DerivesStmt.forLoop keywordKind openingKind firstDerived secondDerived
      semicolonKind thirdDerived closingKind bodyDerived, bodyNoElse⟩

namespace Parts

/-- The parsers for the parts of a statement are sound with at most `bound`
tokens to read, and the one for expressions with one more. -/
structure SoundWithin (parts : Parts) (bound : Nat) : Prop where
  budget : parts.budget = bound + 1
  expression : SoundFor (bound + 1) .assignment parts.expression
  statement : Sound bound (DerivesBefore .statement) parts.statement
  declaration : Sound bound DerivesDeclaration parts.declaration

end Parts

variable {parts : Parts}

/-- Behind a keyword that was seen, one token less is to be read. -/
theorem SoundAt.of_advance {α : Type} {token : Token} (inside : token.kind ≠ .endOfInput)
    {parser : Parser α} {behind derives : List Token → α → List Token → Prop}
    (sound : Sound bound behind parser)
    (derived : ∀ {tokens value rest}, behind tokens value rest →
      derives (token :: tokens) value rest) :
    SoundAt (bound + 1) token derives (advance >>= fun _ => parser) := by
  intro state final value next short parsed clean
  rw [bind_eq_ok_iff] at parsed
  obtain ⟨_, afterToken, advanced, parsed⟩ := parsed
  obtain ⟨tokenRest, tokenErrors, -⟩ := advance_ok next inside advanced
  rw [tokenRest, List.length_cons] at short
  obtain ⟨tokens, restEquality, behindDerived⟩ :=
    sound (by omega) parsed (clean.trans tokenErrors.symm)
  refine ⟨token :: tokens, ?_, derived behindDerived⟩
  rw [tokenRest, restEquality, List.cons_append]

/-- With fewer tokens to read a parser stays sound. -/
theorem Sound.mono {α : Type} {derives : List Token → α → List Token → Prop}
    {parser : Parser α} {larger : Nat} (sound : Sound larger derives parser)
    (smaller : bound ≤ larger) :
    Sound bound derives parser :=
  fun _ _ _ short parsed clean => sound (Nat.le_trans short smaller) parsed clean

theorem statementOf_sound (advances : parts.Advancing) (sound : parts.SoundWithin bound) :
    Sound (bound + 1) (DerivesBefore .statement) (statementOf parts) := by
  have expressionSound : SoundFor bound .assignment parts.expression :=
    sound.expression.mono (Nat.le_succ _)
  refine Sound.of_peek ?_
  intro token
  split
  case h_1 kind =>
    exact SoundAt.of_advance (by rw [kind]; decide)
      (forStatement_sound advances.expression advances.statement expressionSound sound.statement)
      fun derived => derived token kind
  case h_2 kind =>
    exact SoundAt.of_advance (by rw [kind]; decide)
      (ifStatement_sound advances.expression advances.statement expressionSound sound.statement)
      fun derived => derived token kind
  case h_3 kind =>
    exact SoundAt.of_advance (by rw [kind]; decide)
      (whileStatement_sound advances.expression advances.statement expressionSound
        sound.statement)
      fun derived => derived token kind
  case h_4 kind =>
    exact SoundAt.of_advance (by rw [kind]; decide)
      (returnStatement_sound expressionSound token.line)
      fun derived => ⟨false, derived token kind rfl, nofun⟩
  case h_5 kind =>
    have bodySound := blockBody_sound advances.declaration sound.declaration parts.budget []
    intro state final stmt next short parsed clean
    rw [bind_eq_ok_iff] at parsed
    obtain ⟨_, afterOpened, advanced, parsed⟩ := parsed
    obtain ⟨openedRest, openedErrors, -⟩ := advance_ok next (by rw [kind]; decide) advanced
    rw [bind_eq_ok_iff] at parsed
    obtain ⟨stmts, afterBody, bodyParsed, finished⟩ := parsed
    obtain ⟨rfl, rfl⟩ := pure_eq_ok_iff.mp finished
    rw [openedRest, List.length_cons] at short
    obtain ⟨tokens, bodyRest, body, closed, rfl, derived, closedKind, rfl⟩ :=
      bodySound (by omega) bodyParsed (clean.trans openedErrors.symm)
    refine ⟨token :: (body.flatMap Sentence.tokens ++ [closed]), ?_, false, ?_, nofun⟩
    · rw [openedRest, bodyRest, List.cons_append]
    · simpa using DerivesStmt.block kind derived closedKind
  case h_6 kind =>
    exact SoundAt.of_advance (by rw [kind]; decide) (printStatement_sound expressionSound)
      fun derived => ⟨false, derived token kind, nofun⟩
  case h_7 =>
    intro state final stmt _ short parsed clean
    obtain ⟨tokens, restEquality, derived⟩ :=
      expressionStatement_sound sound.expression short parsed clean
    exact ⟨tokens, restEquality, false, DerivesStmt.expression derived, nofun⟩

/-! ## Declarations -/

theorem expectName_sound (bound : Nat) (fault : SyntaxFault) :
    Sound bound
      (fun tokens name _ => ∃ token : Token, tokens = [token] ∧ token.kind = .identifier ∧
        name = token.toName)
      (expectName fault) := by
  intro state final name _ parsed _
  obtain ⟨token, nameRest, nameKind, nameEquality, -, -⟩ := expectName_ok parsed
  exact ⟨[token], nameRest, token, rfl, nameKind, nameEquality⟩

/-- Names that were read one by one are names of identifiers. -/
theorem params_of_items {items : List (List Token × Name)}
    (derived : ∀ item ∈ items, ∃ token : Token, item.1 = [token] ∧
      token.kind = .identifier ∧ item.2 = token.toName) :
    ∃ params : List Token, items.map Prod.fst = params.map ([·]) ∧
      items.map Prod.snd = params.map Token.toName ∧
      ∀ param ∈ params, param.kind = .identifier := by
  induction items with
  | nil => exact ⟨[], rfl, rfl, by simp⟩
  | cons first rest inductionHypothesis =>
      obtain ⟨token, tokensEquality, tokenKind, nameEquality⟩ := derived first List.mem_cons_self
      obtain ⟨params, tokensEach, namesEach, kinds⟩ :=
        inductionHypothesis fun item member => derived item (List.mem_cons_of_mem _ member)
      refine ⟨token :: params, ?_, ?_, ?_⟩
      · rw [List.map_cons, List.map_cons, tokensEquality, tokensEach]
      · rw [List.map_cons, List.map_cons, nameEquality, namesEach]
      · intro param member
        rcases List.mem_cons.mp member with rfl | later
        · exact tokenKind
        · exact kinds param later

theorem parameters_sound (budget : Nat) (positive : 0 < budget) :
    Sound budget
      (fun tokens names _ => ∃ params : List Token, names = params.map Token.toName ∧
        params.length ≤ Grammar.maxArity ∧ (∀ param ∈ params, param.kind = .identifier) ∧
        Separated (params.map ([·])) tokens)
      (parameters budget) := by
  intro state final names short parsed clean
  rw [parameters, bind_eq_ok_iff] at parsed
  obtain ⟨closes, checked, closingChecked, parsed⟩ := parsed
  obtain rfl := check_ok closingChecked
  cases closes with
  | true =>
      obtain ⟨rfl, rfl⟩ := pure_eq_ok_iff.mp parsed
      exact ⟨[], rfl, [], rfl, by simp, by simp, Separated.empty⟩
  | false =>
      obtain ⟨joined, restEquality, items, rfl, -, bounded, derived, separated⟩ :=
        commaSeparated_sound .tooManyParameters (advancing_expectName _)
          (expectName_sound budget _)
          (by rintro tokens name ⟨token, rfl, -, -⟩; simp) budget (Nat.le_refl _) positive []
          short parsed clean
      obtain ⟨params, tokensEach, namesEach, kinds⟩ := params_of_items derived
      refine ⟨joined, restEquality, params, by simpa using namesEach, ?_, kinds, ?_⟩
      · have lengths := congrArg List.length namesEach
        simp only [List.length_map] at lengths
        simpa [lengths] using bounded
      · rw [← tokensEach]
        exact separated

theorem functionDeclaration_sound (advances : parts.Advancing) (sound : parts.SoundWithin bound)
    (role : FunctionRole) :
    Sound (bound + 1)
      (fun tokens declaration _ =>
        DerivesStmt true .function tokens (.function declaration) false)
      (functionDeclaration parts role) := by
  intro state final declaration short parsed clean
  have bodyAdvances := advancing_blockBody advances.declaration parts.budget []
  have bodySound := blockBody_sound advances.declaration sound.declaration parts.budget []
  rw [functionDeclaration, bind_eq_ok_iff] at parsed
  obtain ⟨name, afterName, nameRead, parsed⟩ := parsed
  obtain ⟨token, nameRest, nameKind, rfl, nameErrors, -⟩ := expectName_ok nameRead
  rw [bind_eq_ok_iff] at parsed
  obtain ⟨opening, afterOpening, openingRead, parsed⟩ := parsed
  obtain ⟨openingRest, openingKind, openingErrors, -⟩ := expect_ok openingRead
  obtain ⟨names, afterParams, paramsParsed, paramsClean, parsed, clean⟩ :=
    bind_clean (advancing_parameters _)
      (fun _ => (advancing_expect _ _).bind fun _ => (advancing_expect _ _).bind fun _ =>
        bodyAdvances.bind fun _ => Advancing.pure _)
      parsed (by rw [clean, openingErrors, nameErrors])
  rw [bind_eq_ok_iff] at parsed
  obtain ⟨closing, afterClosing, closingRead, parsed⟩ := parsed
  obtain ⟨closingRest, closingKind, closingErrors, -⟩ := expect_ok closingRead
  rw [bind_eq_ok_iff] at parsed
  obtain ⟨opened, afterOpened, openedRead, parsed⟩ := parsed
  obtain ⟨openedRest, openedKind, openedErrors, -⟩ := expect_ok openedRead
  rw [bind_eq_ok_iff] at parsed
  obtain ⟨stmts, afterBody, bodyParsed, finished⟩ := parsed
  obtain ⟨rfl, rfl⟩ := pure_eq_ok_iff.mp finished
  rw [nameRest, openingRest, List.length_cons, List.length_cons] at short
  obtain ⟨joined, paramsRest, params, rfl, bounded, kinds, separated⟩ :=
    parameters_sound parts.budget (by rw [sound.budget]; omega) (by rw [sound.budget]; omega)
      paramsParsed paramsClean
  rw [paramsRest, closingRest, openedRest, List.length_append, List.length_cons,
    List.length_cons] at short
  obtain ⟨tokens, bodyRest, body, closed, rfl, derived, closedKind, rfl⟩ :=
    bodySound (by omega) bodyParsed (by rw [clean, openedErrors, closingErrors])
  refine ⟨token :: opening ::
    (joined ++ closing :: opened :: (body.flatMap Sentence.tokens ++ [closed])), ?_, ?_⟩
  · rw [nameRest, openingRest, paramsRest, closingRest, openedRest, bodyRest]
    simp
  · simpa using DerivesStmt.function nameKind openingKind bounded kinds separated closingKind
      openedKind derived closedKind

theorem methods_sound (advances : parts.Advancing) (sound : parts.SoundWithin bound)
    (budget : Nat) (done : List FunctionDecl) :
    Sound (bound + 1)
      (fun tokens declarations _ => ∃ (methods : List (List Token × FunctionDecl))
        (closing : Token), declarations = done.reverse ++ methods.map Prod.snd ∧
          (∀ method ∈ methods,
            DerivesStmt true .function method.1 (.function method.2) false) ∧
          closing.kind = .punct .rightBrace ∧
          tokens = methods.flatMap Prod.fst ++ [closing])
      (methods parts budget done) := by
  induction budget generalizing done with
  | zero =>
      intro state final declarations _ parsed _
      cases parsed
  | succ budget inductionHypothesis =>
      intro state final declarations short parsed clean
      rw [methods, bind_eq_ok_iff] at parsed
      obtain ⟨closes, checked, closingChecked, parsed⟩ := parsed
      obtain rfl := check_ok closingChecked
      rw [bind_eq_ok_iff] at parsed
      obtain ⟨ended, afterEnd, endSeen, parsed⟩ := parsed
      injection endSeen with _ stateEquality
      subst stateEquality
      split at parsed
      · rw [bind_eq_ok_iff] at parsed
        obtain ⟨closing, afterClosing, closingRead, finished⟩ := parsed
        obtain ⟨closingRest, closingKind, -, -⟩ := expect_ok closingRead
        obtain ⟨rfl, rfl⟩ := pure_eq_ok_iff.mp finished
        exact ⟨[closing], closingRest, [], closing, by simp, by simp, closingKind, rfl⟩
      · obtain ⟨next, afterNext, nextParsed, nextClean, parsed, clean⟩ :=
          bind_clean (advancing_functionDeclaration advances _)
            (fun _ => advancing_methods advances _ _) parsed clean
        obtain ⟨tokens, nextRest, derived⟩ :=
          functionDeclaration_sound advances sound _ short nextParsed nextClean
        rw [nextRest, List.length_append] at short
        obtain ⟨later, methodsRest, methods, closing, rfl, methodsDerived, closingKind, rfl⟩ :=
          inductionHypothesis _ (by omega) parsed clean
        refine ⟨tokens ++ (methods.flatMap Prod.fst ++ [closing]), ?_,
          (tokens, next) :: methods, closing, ?_, ?_, closingKind, ?_⟩
        · rw [nextRest, methodsRest]
          simp only [List.append_assoc]
        · simp
        · intro method member
          rcases List.mem_cons.mp member with rfl | later
          · exact derived
          · exact methodsDerived method later
        · simp

theorem superclassClause_sound (bound : Nat) :
    Sound bound (fun tokens found _ => SuperclassClause tokens found) superclassClause := by
  intro state final found _ parsed _
  rw [superclassClause, bind_eq_ok_iff] at parsed
  obtain ⟨inherits, afterLess, lessRead, parsed⟩ := parsed
  cases inherits with
  | true =>
      obtain ⟨less, lessRest, lessKind, -, -⟩ := skip_true lessRead
      rw [if_pos rfl, bind_eq_ok_iff] at parsed
      obtain ⟨name, afterName, nameRead, parsed⟩ := parsed
      obtain ⟨token, nameRest, nameKind, rfl, -, -⟩ := expectName_ok nameRead
      rw [bind_eq_ok_iff] at parsed
      obtain ⟨id, afterId, idGiven, finished⟩ := parsed
      obtain ⟨-, rfl⟩ := freshId_ok idGiven
      obtain ⟨rfl, rfl⟩ := pure_eq_ok_iff.mp finished
      refine ⟨[less, token], ?_, SuperclassClause.present id lessKind nameKind⟩
      rw [lessRest, nameRest]
      rfl
  | false =>
      obtain ⟨rfl, -⟩ := skip_false (by decide) lessRead
      obtain ⟨rfl, rfl⟩ := pure_eq_ok_iff.mp parsed
      exact ⟨[], rfl, SuperclassClause.absent⟩

theorem classDeclaration_sound (advances : parts.Advancing) (sound : parts.SoundWithin bound) :
    Sound bound
      (fun tokens stmt _ => ∀ keyword : Token, keyword.kind = .keyword .class_ →
        DerivesStmt true .declaration (keyword :: tokens) stmt false)
      (classDeclaration parts) := by
  intro state final stmt short parsed clean
  have methodsAdvances := advancing_methods advances parts.budget []
  rw [classDeclaration, bind_eq_ok_iff] at parsed
  obtain ⟨name, afterName, nameRead, parsed⟩ := parsed
  obtain ⟨token, nameRest, nameKind, rfl, nameErrors, -⟩ := expectName_ok nameRead
  obtain ⟨superclass, afterClause, clauseParsed, clauseClean, parsed, clean⟩ :=
    bind_clean advancing_superclassClause
      (fun _ => (advancing_expect _ _).bind fun _ => methodsAdvances.bind fun _ =>
        Advancing.pure _)
      parsed (clean.trans nameErrors.symm)
  rw [bind_eq_ok_iff] at parsed
  obtain ⟨opening, afterOpening, openingRead, parsed⟩ := parsed
  obtain ⟨openingRest, openingKind, openingErrors, -⟩ := expect_ok openingRead
  rw [bind_eq_ok_iff] at parsed
  obtain ⟨declarations, afterMethods, methodsParsed, finished⟩ := parsed
  obtain ⟨rfl, rfl⟩ := pure_eq_ok_iff.mp finished
  rw [nameRest, List.length_cons] at short
  obtain ⟨clause, clauseRest, clauseDerived⟩ :=
    superclassClause_sound bound (by omega) clauseParsed clauseClean
  rw [clauseRest, openingRest, List.length_append, List.length_cons] at short
  obtain ⟨tokens, methodsRest, methods, closing, rfl, derived, closingKind, rfl⟩ :=
    methods_sound advances sound parts.budget [] (by omega) methodsParsed
      (clean.trans openingErrors.symm)
  refine ⟨token :: (clause ++ opening :: (methods.flatMap Prod.fst ++ [closing])), ?_, ?_⟩
  · rw [nameRest, clauseRest, openingRest, methodsRest]
    simp
  · intro keyword keywordKind
    simpa using DerivesStmt.classDeclaration keywordKind nameKind clauseDerived openingKind
      derived closingKind

theorem declarationOf_sound (advances : parts.Advancing) (sound : parts.SoundWithin bound) :
    Sound (bound + 1)
      (fun tokens stmt _ => ∃ isOpen, DerivesStmt true .declaration tokens stmt isOpen)
      (declarationOf parts) := by
  intro state final stmt short parsed clean
  rw [declarationOf, bind_eq_ok_iff] at parsed
  obtain ⟨isClass, afterClass, classRead, parsed⟩ := parsed
  cases isClass with
  | true =>
      obtain ⟨keyword, keywordRest, keywordKind, keywordErrors, -⟩ := skip_true classRead
      rw [keywordRest, List.length_cons] at short
      obtain ⟨tokens, restEquality, derived⟩ :=
        classDeclaration_sound advances sound (by omega) parsed
          (clean.trans keywordErrors.symm)
      refine ⟨keyword :: tokens, ?_, false, derived keyword keywordKind⟩
      rw [keywordRest, restEquality, List.cons_append]
  | false =>
      obtain ⟨rfl, -⟩ := skip_false (by decide) classRead
      rw [if_neg (by decide), bind_eq_ok_iff] at parsed
      obtain ⟨isFunction, afterFun, funRead, parsed⟩ := parsed
      cases isFunction with
      | true =>
          obtain ⟨keyword, keywordRest, keywordKind, keywordErrors, -⟩ := skip_true funRead
          rw [if_pos rfl, bind_eq_ok_iff] at parsed
          obtain ⟨declaration, afterFunction, functionParsed, finished⟩ := parsed
          obtain ⟨rfl, rfl⟩ := pure_eq_ok_iff.mp finished
          rw [keywordRest, List.length_cons] at short
          obtain ⟨tokens, restEquality, derived⟩ :=
            functionDeclaration_sound advances sound _ (by omega) functionParsed
              (clean.trans keywordErrors.symm)
          refine ⟨keyword :: tokens, ?_, false,
            DerivesStmt.functionDeclaration keywordKind derived⟩
          rw [keywordRest, restEquality, List.cons_append]
      | false =>
          obtain ⟨rfl, -⟩ := skip_false (by decide) funRead
          rw [if_neg (by decide), bind_eq_ok_iff] at parsed
          obtain ⟨isVar, afterVar, varRead, parsed⟩ := parsed
          cases isVar with
          | true =>
              obtain ⟨keyword, keywordRest, keywordKind, keywordErrors, -⟩ := skip_true varRead
              rw [if_pos rfl] at parsed
              rw [keywordRest, List.length_cons] at short
              obtain ⟨tokens, restEquality, derived⟩ :=
                varDeclaration_sound sound.expression (by omega) parsed
                  (clean.trans keywordErrors.symm)
              refine ⟨keyword :: tokens, ?_, false,
                DerivesStmt.varDeclaration (derived keyword keywordKind)⟩
              rw [keywordRest, restEquality, List.cons_append]
          | false =>
              obtain ⟨rfl, -⟩ := skip_false (by decide) varRead
              rw [if_neg (by decide)] at parsed
              obtain ⟨tokens, restEquality, isOpen, derived, -⟩ :=
                statementOf_sound advances sound short parsed clean
              exact ⟨tokens, restEquality, isOpen, DerivesStmt.noDeclaration derived⟩

/-- Recovery records an error, so without errors there was none. -/
theorem recovering_sound
    (sound : Sound bound
      (fun tokens stmt _ => ∃ isOpen, DerivesStmt true .declaration tokens stmt isOpen)
      statement)
    (advances : Advancing statement) :
    Sound bound DerivesDeclaration (recovering statement) := by
  intro state final found short parsed clean
  have step := advances state
  rw [recovering_apply] at parsed
  cases result : statement state with
  | ok stmt middle =>
      rw [result] at parsed
      obtain ⟨rfl, rfl⟩ := EStateM.Result.ok.inj parsed
      obtain ⟨tokens, restEquality, isOpen, derived⟩ := sound short result clean
      exact ⟨tokens, restEquality, stmt, isOpen, rfl, derived⟩
  | error error middle =>
      rw [result] at parsed step
      obtain ⟨-, rfl⟩ := EStateM.Result.ok.inj parsed
      have longer := step.errors.length_le
      have sizes := congrArg Array.size clean
      simp only [ParserState.record, Array.size_push] at sizes
      simp only [endState_error, Array.length_toList] at longer
      omega

/-! ## Programs -/

theorem partsOf_sound (budget : Nat) : (partsOf budget).SoundWithin budget := by
  induction budget with
  | zero =>
      refine ⟨rfl, expression_sound 1, ?_, ?_⟩
      · intro state final stmt _ parsed _
        rw [partsOf, Parser.statement] at parsed
        cases parsed
      · rw [partsOf, Parser.declaration]
        refine recovering_sound ?_ (advancing_fail _)
        intro state final stmt _ parsed _
        cases parsed
  | succ budget inductionHypothesis =>
      have advances := advancing_partsOf budget
      refine ⟨rfl, expression_sound (budget + 2), ?_, ?_⟩
      · rw [partsOf, statement_succ]
        exact statementOf_sound advances inductionHypothesis
      · rw [partsOf, declaration_succ]
        exact recovering_sound (declarationOf_sound advances inductionHypothesis)
          (advancing_declarationOf advances)

theorem declaration_sound (budget : Nat) :
    Sound budget DerivesDeclaration (Parser.declaration budget) :=
  (partsOf_sound budget).declaration

/-- Nothing but the end of input is left. -/
def AtEnd (rest : List Token) : Prop :=
  ∀ token ∈ rest.head?, token.kind = .endOfInput

theorem declarations_sound (advances : Advancing declaration)
    (sound : Sound bound DerivesDeclaration declaration)
    (budget : Nat) (enough : budget ≤ bound) (done : List Stmt) :
    Sound budget
      (fun tokens stmts rest => ∃ body : List Sentence,
        stmts = done.reverse ++ body.map Sentence.tree ∧
          (∀ part ∈ body,
            DerivesStmt true .declaration part.tokens part.tree part.isOpen) ∧
          tokens = body.flatMap Sentence.tokens ∧ AtEnd rest)
      (declarations declaration budget done) := by
  induction budget generalizing done with
  | zero =>
      intro state final stmts short parsed _
      obtain ⟨rfl, rfl⟩ := pure_eq_ok_iff.mp parsed
      have nothing : state.rest = [] := List.eq_nil_of_length_eq_zero (by omega)
      refine ⟨[], by simp, [], by simp, by simp, rfl, ?_⟩
      simp [AtEnd, nothing]
  | succ budget inductionHypothesis =>
      intro state final stmts short parsed clean
      rw [declarations, bind_eq_ok_iff] at parsed
      obtain ⟨ended, afterEnd, endSeen, parsed⟩ := parsed
      rw [isAtEnd_apply] at endSeen
      obtain ⟨endEquality, rfl⟩ := EStateM.Result.ok.inj endSeen
      cases ended with
      | true =>
          obtain ⟨rfl, rfl⟩ := pure_eq_ok_iff.mp parsed
          refine ⟨[], by simp, [], by simp, by simp, rfl, ?_⟩
          intro token member
          have isNext : state.peek = token := by
            rw [ParserState.peek, List.headD_eq_head?_getD, Option.mem_def.mp member]
            rfl
          rw [ParserState.isAtEnd, isNext] at endEquality
          exact of_decide_eq_true endEquality
      | false =>
          rw [if_neg (by decide)] at parsed
          obtain ⟨found, afterNext, nextParsed, nextClean, parsed, clean⟩ :=
            bind_clean advances (fun _ => advancing_declarations advances _ _) parsed clean
          obtain ⟨tokens, nextRest, stmt, isOpen, rfl, derived⟩ :=
            sound (by omega) nextParsed nextClean
          have taken : 0 < tokens.length := List.length_pos_iff.mpr derived.tokens_ne_nil
          rw [nextRest, List.length_append] at short
          obtain ⟨later, bodyRest, body, rfl, bodyDerived, rfl, atEnd⟩ :=
            inductionHypothesis (by omega) _ (by omega) parsed clean
          refine ⟨tokens ++ body.flatMap Sentence.tokens, ?_, ⟨tokens, stmt, isOpen⟩ :: body,
            ?_, ?_, by simp, atEnd⟩
          · rw [nextRest, bodyRest, List.append_assoc]
          · simp
          · intro part member
            rcases List.mem_cons.mp member with rfl | later
            · exact derived
            · exact bodyDerived part later

end Parser

/-- The statements that `parseProgram` gives are the tree of the tokens before
the end of input. -/
theorem parseProgram_sound {nextId finalId : UseId} {tokens : List Token}
    {program : List Stmt} (parsed : parseProgram nextId tokens = (.ok program, finalId)) :
    ∃ before rest, tokens = before ++ rest ∧ Parser.AtEnd rest ∧
      Grammar.DerivesProgram true before program := by
  obtain ⟨final, result, clean, -⟩ := Parser.parseProgram_eq_ok parsed
  obtain ⟨before, restEquality, body, rfl, derived, rfl, atEnd⟩ :=
    Parser.declarations_sound (Parser.advancing_declaration tokens.length)
      (Parser.declaration_sound tokens.length) tokens.length (Nat.le_refl _) []
      (Nat.le_refl _) result clean
  refine ⟨_, final.rest, restEquality, atEnd, ?_⟩
  simpa using Grammar.DerivesProgram.mk derived

end Lox
