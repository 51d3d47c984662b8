import Lox.Parser.Statement
import Lox.Proofs.Actions

/-!
# Parsers over a token list

What parsers do is told most simply of a list of tokens that still have to be read: they
are taken from its front, and behind its end nothing but the end of input is seen.
-/

namespace Lox

open Actions

/-- The tokens that a parser has still to read and what it has found so far. -/
structure ParserState where
  /-- The tokens still to be read. -/
  rest : List Token
  /-- The errors recorded so far, in order. -/
  errors : Array SyntaxError
  /-- The identity for the next use of a variable. -/
  nextId : UseId

/-- A parser over a token list. -/
abbrev Parser (α : Type) :=
  EStateM SyntaxError ParserState α

namespace ParserState

/-- The token to be read next. -/
def peek (state : ParserState) : Token :=
  state.rest.headD (Token.endOfInput 1)

/-- Whether all tokens but the end of input have been read. -/
def isAtEnd (state : ParserState) : Bool :=
  state.peek.kind = .endOfInput

/-- Record an error. -/
def record (state : ParserState) (error : SyntaxError) : ParserState :=
  { state with errors := state.errors.push error }

/-- The state behind the next token, unless that is the end of input. -/
def advance (state : ParserState) : ParserState :=
  if state.isAtEnd then state else { state with rest := state.rest.tail }

@[default_instance]
instance : TokenSource SyntaxError ParserState where
  peek state := .ok state.peek state
  advance state := .ok state.peek state.advance
  remaining state := state.rest.length
  record error state := state.record error
  freshId state := .ok state.nextId { state with nextId := state.nextId + 1 }
  raise error := error
  syntaxError? error := some error

/-! ## Lists with an end -/

/-- The last token is the end of input. -/
def Ended (state : ParserState) : Prop :=
  ∃ last, state.rest.getLast? = some last ∧ last.kind = .endOfInput

variable {state : ParserState}

theorem Ended.ne_nil (ended : state.Ended) : state.rest ≠ [] := by
  rcases ended with ⟨last, found, -⟩
  intro empty
  rw [empty] at found
  cases found

/-- The end of input is last, so something follows every other token. -/
theorem Ended.tail (ended : state.Ended) (inside : state.isAtEnd = false) :
    ({ state with rest := state.rest.tail } : ParserState).Ended := by
  rcases ended with ⟨last, found, isEnd⟩
  refine ⟨last, ?_, isEnd⟩
  cases tokens : state.rest with
  | nil =>
      rw [tokens] at found
      cases found
  | cons token later =>
      cases later with
      | nil =>
          rw [tokens] at found
          cases found
          simp only [ParserState.isAtEnd, ParserState.peek, tokens, List.headD_cons,
            decide_eq_false_iff_not] at inside
          exact absurd isEnd inside
      | cons next later =>
          rw [tokens, List.getLast?_cons_cons] at found
          exact found

end ParserState

namespace Parser

/-- The parsers for the parts of a statement. -/
abbrev Parts :=
  PartsOf SyntaxError ParserState

/-- Skip the first token, and go on skipping until a semicolon has been skipped
or a token follows that starts a statement.  The end of input is never
skipped. -/
def skipStatement : List Token → List Token
  | [] => []
  | token :: rest =>
      if token.kind = .endOfInput then token :: rest
      else if token.kind = .punct .semicolon then rest
      else if rest.head?.any fun next => startsStatement next.kind then rest
      else skipStatement rest

/-- Run a parser on a token list.  The result is a value, or all errors if there
were any; beside it stands the next free identity. -/
def read {α : Type} (parser : Parser α) (nextId : UseId) (tokens : List Token) :
    Except (List SyntaxError) α × UseId :=
  match parser { rest := tokens, errors := #[], nextId } with
  | .ok value state =>
      (if state.errors.isEmpty then .ok value else .error state.errors.toList, state.nextId)
  | .error error state => (.error (state.record error).errors.toList, state.nextId)

/-! ## Single tokens -/

section Tokens

variable {α : Type} (state : ParserState)

theorem peek_apply : (peek : Parser Token) state = .ok state.peek state :=
  rfl

theorem isAtEnd_apply : (isAtEnd : Parser Bool) state = .ok state.isAtEnd state :=
  rfl

theorem advance_apply : (advance : Parser Token) state = .ok state.peek state.advance :=
  rfl

theorem check_apply (kind : TokenKind) :
    (check kind : Parser Bool) state =
      .ok (!state.isAtEnd && decide (state.peek.kind = kind)) state := by
  rw [check, bind_of_ok (isAtEnd_apply state)]
  cases state.isAtEnd with
  | true => rfl
  | false => rfl

theorem acceptIf_apply (accepts : TokenKind → Bool) :
    (acceptIf accepts : Parser (Option Token)) state =
      if !state.isAtEnd && accepts state.peek.kind then
        .ok (some state.peek) { state with rest := state.rest.tail }
      else
        .ok none state := by
  rw [acceptIf, bind_of_ok (isAtEnd_apply state)]
  cases atEnd : state.isAtEnd with
  | true => rfl
  | false =>
      rw [if_neg Bool.false_ne_true, bind_of_ok (peek_apply state), Bool.not_false, Bool.true_and]
      cases accepted : accepts state.peek.kind with
      | true =>
          rw [if_pos rfl, if_pos rfl, bind_of_ok (advance_apply state), ParserState.advance, atEnd]
          rfl
      | false => rfl

theorem reportAt_apply (token : Token) (fault : SyntaxFault) :
    (reportAt token fault : Parser Unit) state = .ok () (state.record { token, fault }) :=
  rfl

theorem report_apply (fault : SyntaxFault) :
    (report fault : Parser Unit) state =
      .ok () (state.record { token := state.peek, fault }) :=
  rfl

end Tokens

/-! ## Recovery -/

/-- What is left behind a token that was skipped. -/
def skipBehind (passed : Token) (rest : List Token) : List Token :=
  if passed.kind = .punct .semicolon then rest
  else if rest.head?.any fun next => startsStatement next.kind then rest
  else skipStatement rest

theorem skipStatement_cons {token : Token} (inside : token.kind ≠ .endOfInput)
    (rest : List Token) : skipStatement (token :: rest) = skipBehind token rest := by
  rw [skipStatement, if_neg inside, skipBehind]

theorem skipStatement_atEnd {state : ParserState} (atEnd : state.isAtEnd = true) :
    skipStatement state.rest = state.rest := by
  obtain ⟨rest, errors, nextId⟩ := state
  cases rest with
  | nil => rfl
  | cons token rest =>
      have isEnd : token.kind = .endOfInput := of_decide_eq_true atEnd
      rw [skipStatement, if_pos isEnd]

theorem skipBehind_atEnd (passed : Token) {state : ParserState} (atEnd : state.isAtEnd = true) :
    skipBehind passed state.rest = state.rest := by
  rw [skipBehind, skipStatement_atEnd atEnd]
  split
  · rfl
  · split <;> rfl

/-- A state that is not at the end has a next token. -/
theorem exists_next {state : ParserState} (before : state.isAtEnd = false) :
    ∃ token rest, state.rest = token :: rest ∧ token.kind ≠ .endOfInput ∧ state.peek = token ∧
      state.advance = { state with rest } := by
  have moves : state.advance = { state with rest := state.rest.tail } := by
    rw [ParserState.advance, before]
    rfl
  obtain ⟨rest, errors, nextId⟩ := state
  cases rest with
  | nil => cases before
  | cons token rest => exact ⟨token, rest, rfl, of_decide_eq_false before, rfl, moves⟩

theorem synchronizeBehind_apply (passed : Token) {state : ParserState} {budget : Nat}
    (enough : state.rest.length ≤ budget) :
    (synchronizeBehind budget passed : Parser Unit) state =
      .ok () { state with rest := skipBehind passed state.rest } := by
  induction budget generalizing state passed with
  | zero =>
      have isEmpty := List.eq_nil_of_length_eq_zero (Nat.le_zero.mp enough)
      have atEnd : state.isAtEnd = true := by
        rw [ParserState.isAtEnd, ParserState.peek, isEmpty]
        rfl
      rw [skipBehind_atEnd passed atEnd]
      rfl
  | succ budget inductionHypothesis =>
      rw [synchronizeBehind, bind_of_ok (isAtEnd_apply state)]
      cases atEnd : state.isAtEnd with
      | true =>
          rw [skipBehind_atEnd passed atEnd]
          rfl
      | false =>
          obtain ⟨token, rest, isRest, inside, isPeek, moves⟩ := exists_next atEnd
          rw [if_neg Bool.false_ne_true, skipBehind, isRest, List.head?_cons, Option.any_some]
          split
          next semicolon =>
            rw [← isRest]
            rfl
          next other =>
            rw [bind_of_ok (peek_apply state), isPeek]
            split
            next starts =>
              rw [← isRest]
              rfl
            next continues =>
              rw [bind_of_ok (advance_apply state), isPeek, moves, skipStatement_cons inside]
              rw [isRest] at enough
              exact inductionHypothesis token (Nat.le_of_succ_le_succ enough)

theorem synchronize_apply (state : ParserState) :
    (synchronize : Parser Unit) state =
      .ok () { state with rest := skipStatement state.rest } := by
  rw [synchronize, bind_of_ok (advance_apply state)]
  have looked : (get : Parser ParserState) state.advance = .ok state.advance state.advance := rfl
  have skipped := synchronizeBehind_apply state.peek (Nat.le_refl state.advance.rest.length)
  rw [bind_of_ok looked]
  refine skipped.trans ?_
  cases atEnd : state.isAtEnd with
  | true =>
      have stays : state.advance = state := by
        rw [ParserState.advance, if_pos atEnd]
      rw [stays, skipStatement_atEnd atEnd, skipBehind_atEnd _ atEnd]
  | false =>
      obtain ⟨token, rest, isRest, inside, isPeek, moves⟩ := exists_next atEnd
      rw [moves, isPeek, isRest, skipStatement_cons inside]

/-- Run a parser for a statement; if it fails, record the error and skip to the next
statement boundary. -/
theorem recovering_apply (statement : Parser Stmt) (state : ParserState) :
    recovering statement state =
      match statement state with
      | .ok result state => .ok (some result) state
      | .error error state =>
          let state := state.record error
          .ok none { state with rest := skipStatement state.rest } := by
  rw [recovering]
  cases statement state with
  | ok result final => rfl
  | error error final => exact bind_of_ok (synchronize_apply (final.record error))

end Parser

end Lox
