import Lox.Proofs.Parser.Simulation

/-!
# Reading by place and from a list

A reader that keeps the place of its next token shows what is left of the tokens from there
on.  On any tokens it parses like the list, as long as it does not look outside them; on
tokens that end with the end of input it never does.
-/

namespace Lox

open Actions
open TokenSource (Agrees Mirrors Recovers Simulates)

namespace TokenReader

variable {tokens : List Token} {reader : TokenReader} {listed : ParserState} {token : Token}
  {rest : List Token}

/-! ## Steps of a reader -/

/-- What the reader has before it is the list, and it has found the same. -/
structure Shows (tokens : List Token) (reader : TokenReader) (listed : ParserState) : Prop where
  isTokens : reader.tokens.toList = tokens
  rest : listed.rest = tokens.drop reader.current
  errors : reader.errors = listed.errors
  nextId : reader.nextId = listed.nextId

namespace Shows

theorem start (tokens : List Token) (nextId : UseId) :
    Shows tokens (.start tokens nextId) { rest := tokens, errors := #[], nextId } :=
  ⟨rfl, rfl, rfl, rfl⟩

theorem getElem? (shows : Shows tokens reader listed) :
    reader.tokens[reader.current]? = listed.rest.head? := by
  rw [shows.rest, List.head?_drop, ← shows.isTokens, Array.getElem?_toList]

theorem peek_cons (shows : Shows tokens reader listed) (isRest : listed.rest = token :: rest) :
    peek reader = .ok token reader := by
  rw [peek, tokenAt, shows.getElem?, isRest]
  rfl

/-- Nothing is left only where there is no token at the place. -/
theorem peek_nil (shows : Shows tokens reader listed) (isRest : listed.rest = []) :
    peek reader = .error .outOfRange reader := by
  rw [peek, tokenAt, shows.getElem?, isRest]
  rfl

theorem next (shows : Shows tokens reader listed) (isRest : listed.rest = token :: rest) :
    Shows tokens { reader with current := reader.current + 1 } { listed with rest } := by
  refine ⟨shows.isTokens, ?_, shows.errors, shows.nextId⟩
  rw [← List.tail_drop, ← shows.rest, isRest]
  rfl

/-- Before the end, the token that was looked at is read, and then it is the last one. -/
theorem advance_cons (shows : Shows tokens reader listed) (isRest : listed.rest = token :: rest)
    (inside : token.kind ≠ .endOfInput) :
    advance reader = .ok token { reader with current := reader.current + 1 } := by
  have found : reader.tokens[reader.current]? = some token := by
    rw [shows.getElem?, isRest]
    rfl
  rw [advance, bind_of_ok (shows.peek_cons isRest), if_pos inside]
  change tokenAt reader.current { reader with current := reader.current + 1 } = _
  rw [tokenAt, found]

/-- At the end the reader stays where it is. -/
theorem advance_end (shows : Shows tokens reader listed) (isRest : listed.rest = token :: rest)
    (isEnd : token.kind = .endOfInput) : advance reader = previous reader := by
  rw [advance, bind_of_ok (shows.peek_cons isRest), if_neg (not_not_intro isEnd)]

end Shows

/-- There is a token that was read last, unless the place is the first one. -/
theorem previous_of_pos (begun : 0 < reader.current)
    (inside : reader.current ≤ reader.tokens.size) :
    ∃ token, previous reader = .ok token reader := by
  obtain ⟨place, isPlace⟩ := Nat.exists_eq_add_one_of_ne_zero (Nat.ne_of_gt begun)
  have below : place < reader.tokens.size := by omega
  refine ⟨reader.tokens[place], ?_⟩
  rw [previous, isPlace]
  change tokenAt place reader = _
  rw [tokenAt, Array.getElem?_eq_getElem below]

/-- Looking back gives a token or fails for want of one. -/
theorem previous_cases (reader : TokenReader) :
    (∃ token, previous reader = .ok token reader) ∨
      previous reader = .error .outOfRange reader := by
  have looked : ∀ place, (∃ token, tokenAt place reader = .ok token reader) ∨
      tokenAt place reader = .error .outOfRange reader := by
    intro place
    rw [tokenAt]
    cases reader.tokens[place]? with
    | some token => exact .inl ⟨token, rfl⟩
    | none => exact .inr rfl
  rw [previous]
  cases reader.current with
  | zero => exact .inr rfl
  | succ place => exact looked place

theorem exists_end (atEnd : listed.isAtEnd = true) (nonempty : listed.rest ≠ []) :
    ∃ token rest, listed.rest = token :: rest ∧ token.kind = .endOfInput := by
  cases isRest : listed.rest with
  | nil => exact absurd isRest nonempty
  | cons token rest =>
      rw [ParserState.isAtEnd, ParserState.peek, isRest] at atEnd
      exact ⟨token, rest, rfl, of_decide_eq_true atEnd⟩

/-! ## Readers that follow a list -/

/-- A relation that a reader and a list keep, step by step, until the reader is lost. -/
structure Follows (tokens : List Token) (lost : ParserStop → Prop)
    (relation : TokenReader → ParserState → Prop) : Prop where
  shows : ∀ {reader listed}, relation reader listed → Shows tokens reader listed
  /-- Where nothing is left, the reader is lost. -/
  nothing : ∀ {reader listed}, relation reader listed → listed.rest = [] → lost .outOfRange
  next : ∀ {reader listed token rest}, relation reader listed → listed.rest = token :: rest →
    token.kind ≠ .endOfInput →
    relation { reader with current := reader.current + 1 } { listed with rest }
  /-- What was found makes no difference. -/
  found : ∀ {reader listed} (errors : Array SyntaxError) (nextId : UseId), relation reader listed →
    relation { reader with errors, nextId } { listed with errors, nextId }
  outOfRange : ∀ {failure}, lost failure → failure = .outOfRange

namespace Follows

variable {lost : ParserStop → Prop} {relation : TokenReader → ParserState → Prop}

theorem simulates (follows : Follows tokens lost relation) : Simulates relation lost where
  peek := by
    intro reader listed related
    have shows := follows.shows related
    change Agrees _ _ (peek reader) _
    cases isRest : listed.rest with
    | nil =>
        rw [shows.peek_nil isRest]
        exact .lost (follows.nothing related isRest)
    | cons token rest =>
        have isPeek : listed.peek = token := by
          rw [ParserState.peek, isRest]
          rfl
        rw [shows.peek_cons isRest, Parser.peek_apply, isPeek]
        exact .ok related
  advance := by
    intro reader listed related before
    obtain ⟨token, rest, isRest, inside, isPeek, moves⟩ := Parser.exists_next before
    change Agrees _ _ (advance reader) _
    rw [(follows.shows related).advance_cons isRest inside, Parser.advance_apply, isPeek, moves]
    exact .ok (follows.next related isRest inside)
  freshId := by
    rintro ⟨tokens, current, errors, nextId⟩ ⟨rest, errors', nextId'⟩ related
    cases (follows.shows related).errors
    cases (follows.shows related).nextId
    exact .ok (follows.found errors (nextId + 1) related)
  record := by
    rintro ⟨tokens, current, errors, nextId⟩ ⟨rest, errors', nextId'⟩ error related
    cases (follows.shows related).errors
    cases (follows.shows related).nextId
    exact follows.found (errors.push error) nextId related
  raise := fun _ => rfl
  stops := by
    intro failure isLost
    rw [follows.outOfRange isLost]
    rfl

/-- Tokens are skipped if at the end there is one that was read last, or the reader may be
lost. -/
theorem recovers (follows : Follows tokens lost relation)
    (begun : ∀ {reader listed}, relation reader listed → listed.isAtEnd = true →
      previous reader = .error .outOfRange reader → lost .outOfRange) :
    Recovers relation lost where
  toSimulates := follows.simulates
  stay := by
    intro reader listed related atEnd
    have shows := follows.shows related
    by_cases isEmpty : listed.rest = []
    · exact .inr ⟨_, reader, bind_of_error (shows.peek_nil isEmpty),
        follows.nothing related isEmpty⟩
    · obtain ⟨token, rest, isRest, isEnd⟩ := exists_end atEnd isEmpty
      have stays := shows.advance_end isRest isEnd
      rcases previous_cases reader with ⟨before, read⟩ | missing
      · exact .inl ⟨before, reader, stays.trans read, related⟩
      · exact .inr ⟨_, reader, stays.trans missing, begun related atEnd missing⟩
  remaining := by
    intro reader listed related
    have shows := follows.shows related
    rw [shows.rest, List.length_drop, ← shows.isTokens, Array.length_toList]
    exact Nat.le_refl _

end Follows

/-- On any tokens the reader parses like the list, unless it looks where there is no token. -/
theorem shows_follows (tokens : List Token) :
    Follows tokens (· = .outOfRange) (Shows tokens) where
  shows := id
  nothing := fun _ _ => rfl
  next := fun shows isRest _ => shows.next isRest
  found := fun _ _ shows => ⟨shows.isTokens, shows.rest, rfl, rfl⟩
  outOfRange := id

theorem shows_recovers (tokens : List Token) : Recovers (Shows tokens) (· = .outOfRange) :=
  (shows_follows tokens).recovers fun _ _ _ => rfl

/-! ## Tokens that end with the end of input -/

/-- The reader shows the list and stands at one of the tokens, the last of which is the end of
input. -/
structure Stands (tokens : List Token) (reader : TokenReader) (listed : ParserState) : Prop
    extends Shows tokens reader listed where
  inside : reader.current < tokens.length
  ended : listed.Ended

namespace Stands

theorem start (nextId : UseId) {last : Token} (ended : tokens.getLast? = some last)
    (isEnd : last.kind = .endOfInput) :
    Stands tokens (.start tokens nextId) { rest := tokens, errors := #[], nextId } := by
  refine ⟨.start tokens nextId, List.length_pos_iff.mpr fun isEmpty => ?_, last, ended, isEnd⟩
  rw [isEmpty] at ended
  cases ended

/-- A list is shown from one place only. -/
theorem unique {reader' : TokenReader} (stands : Stands tokens reader listed)
    (stands' : Stands tokens reader' listed) : reader = reader' := by
  have sameTokens := Array.toList_inj.mp (stands.isTokens.trans stands'.isTokens.symm)
  have left := congrArg List.length stands.rest
  have left' := congrArg List.length stands'.rest
  rw [List.length_drop] at left left'
  have samePlace : reader.current = reader'.current := by
    have inside := stands.inside
    have inside' := stands'.inside
    omega
  have sameErrors := stands.errors.trans stands'.errors.symm
  have sameId := stands.nextId.trans stands'.nextId.symm
  cases reader
  cases reader'
  cases sameTokens
  cases samePlace
  cases sameErrors
  cases sameId
  rfl

theorem next (stands : Stands tokens reader listed) (isRest : listed.rest = token :: rest)
    (inside : token.kind ≠ .endOfInput) :
    Stands tokens { reader with current := reader.current + 1 } { listed with rest } := by
  have before : listed.isAtEnd = false := by
    rw [ParserState.isAtEnd, ParserState.peek, isRest]
    exact decide_eq_false inside
  have ended := stands.ended.tail before
  rw [isRest] at ended
  have later := stands.toShows.next isRest
  refine ⟨later, ?_, ended⟩
  -- The end of input is still to come.
  have left : 0 < rest.length := List.length_pos_iff.mpr ended.ne_nil
  have isRest : rest = tokens.drop (reader.current + 1) := later.rest
  rw [isRest, List.length_drop] at left
  exact Nat.lt_of_sub_pos left

theorem found (errors : Array SyntaxError) (nextId : UseId)
    (stands : Stands tokens reader listed) :
    Stands tokens { reader with errors, nextId } { listed with errors, nextId } :=
  ⟨⟨stands.isTokens, stands.rest, rfl, rfl⟩, stands.inside, stands.ended⟩

end Stands

/-- The reader never leaves tokens that end with the end of input. -/
theorem stands_follows (tokens : List Token) :
    Follows tokens (fun _ => False) (Stands tokens) where
  shows := Stands.toShows
  nothing := fun stands isEmpty => stands.ended.ne_nil isEmpty
  next := Stands.next
  found := Stands.found
  outOfRange := False.elim

/-- The reader has also read a token, unless it can read one. -/
structure Moves (tokens : List Token) (reader : TokenReader) (listed : ParserState) : Prop
    extends Stands tokens reader listed where
  begun : listed.isAtEnd = true → 0 < reader.current

/-- Tokens are skipped from a place at which there is one that was read last. -/
theorem moves_recovers (tokens : List Token) : Recovers (Moves tokens) (fun _ => False) := by
  have follows : Follows tokens (fun _ => False) (Moves tokens) :=
    { shows := fun moves => moves.toShows
      nothing := fun moves isEmpty => moves.ended.ne_nil isEmpty
      next := fun moves isRest inside =>
        ⟨moves.toStands.next isRest inside, fun _ => Nat.succ_pos _⟩
      found := fun errors nextId moves => ⟨moves.toStands.found errors nextId, moves.begun⟩
      outOfRange := False.elim }
  refine follows.recovers fun {reader listed} moves atEnd missing => ?_
  have inside : reader.current ≤ reader.tokens.size := by
    rw [← Array.length_toList, moves.isTokens]
    exact Nat.le_of_lt moves.inside
  obtain ⟨token, found⟩ := previous_of_pos (moves.begun atEnd) inside
  rw [found] at missing
  cases missing

end TokenReader

namespace Parser

variable {α : Type} {tokens : List Token} {parser : EStateM ParserStop TokenReader α}
  {onList : Parser α}

/-! ## Runs -/

/-- A run over the list gives the same as a run by place, unless this one is lost. -/
theorem run_eq_of_agrees {shows : TokenReader → ParserState → Prop} {lost : ParserStop → Prop}
    {nextId : UseId} (widens : ∀ {reader listed}, shows reader listed →
      reader.errors = listed.errors ∧ reader.nextId = listed.nextId)
    (outOfRange : ∀ {failure}, lost failure → failure = .outOfRange)
    (agrees : Agrees shows lost (parser (.start tokens nextId))
      (onList { rest := tokens, errors := #[], nextId })) :
    run parser nextId tokens = read onList nextId tokens ∨
      lost .outOfRange ∧ run parser nextId tokens = (.error [], nextId) := by
  rw [run, read]
  generalize parser (.start tokens nextId) = result at agrees
  generalize onList { rest := tokens, errors := #[], nextId } = result' at agrees
  cases agrees with
  | @ok value final final' related =>
      obtain ⟨sameErrors, sameId⟩ := widens related
      refine .inl ?_
      dsimp only
      rw [sameErrors, sameId]
  | @error failure error final final' isError related =>
      obtain ⟨sameErrors, sameId⟩ := widens related
      cases failure with
      | outOfRange => cases isError
      | syntactic other =>
          cases isError
          refine .inl ?_
          dsimp only
          rw [TokenReader.record, ParserState.record, sameErrors, sameId]
  | lost isLost =>
      cases outOfRange isLost
      exact .inr ⟨isLost, rfl⟩

/-- On any tokens a run is the one over the list, or it has looked outside the tokens. -/
theorem run_eq_read_or
    (mirrors : Mirrors (TokenReader.Shows tokens) (· = .outOfRange) parser onList)
    (nextId : UseId) :
    run parser nextId tokens = read onList nextId tokens ∨
      run parser nextId tokens = (.error [], nextId) := by
  have agrees := mirrors _ _ (.start tokens nextId)
  rcases run_eq_of_agrees (fun shows => ⟨shows.errors, shows.nextId⟩) id agrees with same | stopped
  · exact .inl same
  · exact .inr stopped.2

/-- On tokens that end with the end of input a run is the one over the list. -/
theorem run_eq_read {last : Token} (ended : tokens.getLast? = some last)
    (isEnd : last.kind = .endOfInput)
    (mirrors : Mirrors (TokenReader.Stands tokens) (fun _ => False) parser onList)
    (nextId : UseId) : run parser nextId tokens = read onList nextId tokens := by
  have agrees := mirrors _ _ (.start nextId ended isEnd)
  rcases run_eq_of_agrees (fun stands => ⟨stands.errors, stands.nextId⟩) False.elim agrees with
    same | ⟨impossible, -⟩
  · exact same
  · exact impossible.elim

theorem run_of_ok {nextId : UseId} {value : α} {final : TokenReader}
    (ended : parser (.start tokens nextId) = .ok value final) :
    (run parser nextId tokens).1 =
      if final.errors = #[] then .ok value else .error final.errors.toList := by
  rw [run, ended]
  dsimp only
  by_cases clean : final.errors = #[]
  · rw [if_pos clean, if_pos (Array.isEmpty_iff.mpr clean)]
  · rw [if_neg clean, if_neg fun isEmpty => clean (Array.isEmpty_iff.mp isEmpty)]

theorem run_of_error {nextId : UseId} {error : SyntaxError} {final : TokenReader}
    (ended : parser (.start tokens nextId) = .error (.syntactic error) final) :
    (run parser nextId tokens).1 = .error (final.errors.toList ++ [error]) := by
  rw [run, ended]
  exact congrArg Except.error Array.toList_push

/-- Two runs from the same state with the same outcome give the same. -/
theorem read_congr {larger : Parser α} {nextId : UseId}
    (same : larger { rest := tokens, errors := #[], nextId } =
      onList { rest := tokens, errors := #[], nextId }) :
    read larger nextId tokens = read onList nextId tokens := by
  rw [read, read, same]

theorem read_eq_ok {nextId finalId : UseId} {value : α}
    (parsed : read onList nextId tokens = (.ok value, finalId)) :
    ∃ final, onList { rest := tokens, errors := #[], nextId } = .ok value final ∧
      final.errors = #[] ∧ final.nextId = finalId := by
  rw [read] at parsed
  split at parsed
  next result final ended =>
    split at parsed
    next clean =>
      rcases Prod.mk.inj parsed with ⟨valueEquality, idEquality⟩
      cases Except.ok.inj valueEquality
      exact ⟨final, ended, Array.isEmpty_iff.mp clean, idEquality⟩
    next => cases (Prod.mk.inj parsed).1
  next => cases (Prod.mk.inj parsed).1

/-! ## Whole inputs -/

/-- The reader parses programs like the list, unless it is lost. -/
theorem program_shown (tokens : List Token) (limit budget : Nat) :
    Mirrors (TokenReader.Shows tokens) (· = .outOfRange)
      (declarations (declaration limit) budget []) (declarations (declaration limit) budget []) :=
  (TokenReader.shows_follows tokens).simulates.declarations (TokenReader.shows_recovers tokens)
    (fun shows _ => shows) id limit budget []

/-- Where declarations are begun, a token can be read. -/
theorem program_stands (tokens : List Token) (limit budget : Nat) :
    Mirrors (TokenReader.Stands tokens) (fun _ => False)
      (declarations (declaration limit) budget []) (declarations (declaration limit) budget []) := by
  refine (TokenReader.stands_follows tokens).simulates.declarations
    (TokenReader.moves_recovers tokens) (fun stands before => ⟨stands, fun atEnd => ?_⟩)
    (fun moves => moves.toStands) limit budget []
  rw [atEnd] at before
  cases before

/-- A program is parsed as from the list, or the tokens have no end. -/
theorem parseProgram_eq_read_or (nextId : UseId) (tokens : List Token) :
    parseProgram nextId tokens =
      read (declarations (declaration tokens.length) tokens.length []) nextId tokens ∨
    parseProgram nextId tokens = (.error [], nextId) :=
  run_eq_read_or (program_shown tokens _ _) nextId

theorem parseProgram_eq_read (nextId : UseId) {last : Token} (ended : tokens.getLast? = some last)
    (isEnd : last.kind = .endOfInput) :
    parseProgram nextId tokens =
      read (declarations (declaration tokens.length) tokens.length []) nextId tokens :=
  run_eq_read ended isEnd (program_stands tokens _ _) nextId

/-- A program is the one that is parsed from the list, on any tokens. -/
theorem parseProgram_eq_ok {nextId finalId : UseId} {program : List Stmt}
    (parsed : parseProgram nextId tokens = (.ok program, finalId)) :
    ∃ final, declarations (declaration tokens.length) tokens.length []
        { rest := tokens, errors := #[], nextId } = .ok program final ∧
      final.errors = #[] ∧ final.nextId = finalId := by
  rcases parseProgram_eq_read_or nextId tokens with same | stopped
  · exact read_eq_ok (same.symm.trans parsed)
  · cases stopped.symm.trans parsed

/-- An expression is parsed as from the list, or the tokens have no end. -/
theorem parseExpression_eq_read_or (nextId : UseId) (tokens : List Token) :
    parseExpression nextId tokens = read (expression tokens.length) nextId tokens ∨
    parseExpression nextId tokens = (.error [], nextId) :=
  run_eq_read_or ((TokenReader.shows_follows tokens).simulates.expression _) nextId

theorem parseExpression_eq_read (nextId : UseId) {last : Token}
    (ended : tokens.getLast? = some last) (isEnd : last.kind = .endOfInput) :
    parseExpression nextId tokens = read (expression tokens.length) nextId tokens :=
  run_eq_read ended isEnd ((TokenReader.stands_follows tokens).simulates.expression _) nextId

/-- An expression is the one that is parsed from the list, on any tokens. -/
theorem parseExpression_eq_ok {nextId finalId : UseId} {expr : Expr}
    (parsed : parseExpression nextId tokens = (.ok expr, finalId)) :
    ∃ final, expression tokens.length { rest := tokens, errors := #[], nextId } =
        .ok expr final ∧
      final.errors = #[] ∧ final.nextId = finalId := by
  rcases parseExpression_eq_read_or nextId tokens with same | stopped
  · exact read_eq_ok (same.symm.trans parsed)
  · cases stopped.symm.trans parsed

end Parser

end Lox
