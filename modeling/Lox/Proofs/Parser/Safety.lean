import Lox.Proofs.Parser.Budget

/-!
# Safety of parsing

On every token list that ends with the end of input, well-formed or not, parsing looks at
tokens of the list only and comes to an end: no look fails and no budget is ever used up.
The place in the list never moves back, as a reader tells that is watched at every step.
Every declaration that is begun takes a token, also if it is given up and tokens are skipped.
Parsing fails exactly if an error was recorded.
-/

namespace Lox

open Actions
open TokenSource (Agrees Mirrors Recovers Simulates)

namespace TokenReader

/-! ## Steps move forward -/

/-- The second reader does not stand in front of the first one. -/
def Forward (reader later : TokenReader) : Prop :=
  reader.current ≤ later.current

theorem forward_order : StepOrder Forward where
  refl _ := Nat.le_refl _
  trans := Nat.le_trans

theorem forward_tokenAt (place : Nat) : Respects Forward (tokenAt place) := by
  intro reader
  rw [tokenAt]
  cases reader.tokens[place]? with
  | some token => exact Nat.le_refl _
  | none => exact Nat.le_refl _

theorem forward_peek : Respects Forward peek :=
  fun reader => forward_tokenAt reader.current reader

theorem forward_previous : Respects Forward previous := by
  intro reader
  rw [previous]
  cases reader.current with
  | zero => exact Nat.le_refl _
  | succ place => exact forward_tokenAt place reader

theorem forward_advance : Respects Forward advance := by
  have moves : Respects Forward
      (modify fun reader => { reader with current := reader.current + 1 } :
        EStateM ParserStop TokenReader Unit) := fun _ => Nat.le_succ _
  refine .bind forward_order forward_peek fun token => ?_
  exact .ite (.bind forward_order moves fun _ => forward_previous)
    (.bind forward_order (.pure forward_order ()) fun _ => forward_previous)

theorem forward_freshId : Respects Forward freshId :=
  fun _ => Nat.le_refl _

end TokenReader

/-! ## Watched readers -/

/-- A reader, and the place at which it stood after each of its steps. -/
structure WatchedReader where
  reader : TokenReader
  places : Array Nat

namespace WatchedReader

/-- The start of parsing, before the first step. -/
def start (tokens : List Token) (nextId : UseId) : WatchedReader :=
  { reader := .start tokens nextId, places := #[] }

/-- Do what the reader does, and note where it stands then. -/
def watching {α : Type} (step : EStateM ParserStop TokenReader α) :
    EStateM ParserStop WatchedReader α := fun watched =>
  match step watched.reader with
  | .ok value reader => .ok value { reader, places := watched.places.push reader.current }
  | .error stop reader => .error stop { reader, places := watched.places.push reader.current }

instance : TokenSource ParserStop WatchedReader where
  peek := watching TokenReader.peek
  advance := watching TokenReader.advance
  remaining watched := TokenSource.remaining watched.reader
  record error watched := { watched with reader := watched.reader.record error }
  freshId := watching TokenReader.freshId
  raise := .syntactic
  syntaxError? := TokenSource.syntaxError? TokenReader

/-- The reader has never moved back. -/
structure Steady (watched : WatchedReader) : Prop where
  ascending : watched.places.toList.Pairwise (· ≤ ·)
  reached : ∀ place ∈ watched.places, place ≤ watched.reader.current

/-- The reader and the list belong together, and the reader has never moved back. -/
structure Watches (relation : TokenReader → ParserState → Prop) (watched : WatchedReader)
    (listed : ParserState) : Prop where
  related : relation watched.reader listed
  steady : watched.Steady

variable {α : Type} {relation : TokenReader → ParserState → Prop} {lost : ParserStop → Prop}
  {watched : WatchedReader} {listed : ParserState}

theorem start_steady (tokens : List Token) (nextId : UseId) : (start tokens nextId).Steady :=
  ⟨.nil, nofun⟩

theorem Steady.push (steady : watched.Steady) {reader : TokenReader}
    (forward : watched.reader.current ≤ reader.current) :
    Steady { reader, places := watched.places.push reader.current } := by
  have below : ∀ place ∈ watched.places, place ≤ reader.current := fun place member =>
    Nat.le_trans (steady.reached place member) forward
  constructor
  · rw [Array.toList_push]
    refine List.pairwise_append.mpr ⟨steady.ascending, List.pairwise_singleton _ _, ?_⟩
    intro earlier isEarlier later isLater
    rw [List.mem_singleton.mp isLater]
    exact below earlier (Array.mem_toList_iff.mp isEarlier)
  · intro place member
    rcases Array.mem_push.mp member with earlier | rfl
    · exact below place earlier
    · exact Nat.le_refl _

/-- A step that does not move back keeps the reader steady. -/
theorem agrees_watching {step : EStateM ParserStop TokenReader α} {onList : Parser α}
    (forward : Respects TokenReader.Forward step) (steady : watched.Steady)
    (agrees : Agrees relation lost (step watched.reader) (onList listed)) :
    Agrees (Watches relation) lost (watching step watched) (onList listed) := by
  have later := forward watched.reader
  rw [watching]
  generalize step watched.reader = result at agrees later
  generalize onList listed = result' at agrees
  cases agrees with
  | ok related => exact .ok ⟨related, steady.push later⟩
  | error isError related => exact .error isError ⟨related, steady.push later⟩
  | lost isLost => exact .lost isLost

/-- A watched reader parses like the reader. -/
theorem watches_simulates (simulates : Simulates relation lost) :
    Simulates (Watches relation) lost where
  peek := fun _ _ watches =>
    agrees_watching TokenReader.forward_peek watches.steady (simulates.peek _ _ watches.related)
  advance := fun watches before =>
    agrees_watching TokenReader.forward_advance watches.steady
      (simulates.advance watches.related before)
  freshId := fun _ _ watches =>
    agrees_watching TokenReader.forward_freshId watches.steady
      (simulates.freshId _ _ watches.related)
  record := fun error watches =>
    ⟨simulates.record error watches.related, watches.steady.ascending, watches.steady.reached⟩
  raise := simulates.raise
  stops := simulates.stops

theorem watches_recovers (recovers : Recovers relation lost) :
    Recovers (Watches relation) lost where
  toSimulates := watches_simulates recovers.toSimulates
  stay := by
    intro watched listed watches atEnd
    have forward := TokenReader.forward_advance watched.reader
    change (∃ token final, watching TokenReader.advance watched = .ok token final ∧ _) ∨
      ∃ failure final, watching TokenReader.advance watched = .error failure final ∧ _
    rw [watching]
    rcases recovers.stay watches.related atEnd with
      ⟨token, final, stays, related⟩ | ⟨failure, final, fails, isLost⟩
    · have read : TokenReader.advance watched.reader = .ok token final := stays
      rw [read] at forward ⊢
      exact .inl ⟨token, _, rfl, related, watches.steady.push forward⟩
    · have read : TokenReader.advance watched.reader = .error failure final := fails
      rw [read]
      exact .inr ⟨failure, _, rfl, isLost⟩
  remaining := fun watches => recovers.remaining watches.related

end WatchedReader

/-- Places of tokens, none of them in front of an earlier one. -/
structure InOrder (tokens : List Token) (places : Array Nat) : Prop where
  ascending : places.toList.Pairwise (· ≤ ·)
  inRange : ∀ place ∈ places, place < tokens.length

namespace TokenReader

open WatchedReader (Watches)

variable {α : Type} {tokens : List Token} {nextId : UseId} {reader : TokenReader}
  {listed : ParserState}

theorem Stands.inOrder {watched : WatchedReader}
    (watches : Watches (Stands tokens) watched listed) : InOrder tokens watched.places :=
  ⟨watches.steady.ascending, fun place member =>
    Nat.lt_of_le_of_lt (watches.steady.reached place member) watches.related.inside⟩

/-! ## Runs of watched readers -/

theorem eq_syntactic {failure : ParserStop} {error : SyntaxError}
    (isError : TokenSource.syntaxError? TokenReader failure = some error) :
    failure = .syntactic error := by
  cases failure with
  | syntactic other => exact congrArg _ (Option.some.inj isError)
  | outOfRange => cases isError

/-- A watched reader ends like the reader, in a state that shows that of the list, and what it
has noted are places in order. -/
theorem watched_run {parser : EStateM ParserStop TokenReader α}
    {watching : EStateM ParserStop WatchedReader α} {onList : Parser α}
    (plain : Agrees (Stands tokens) (fun _ => False) (parser (.start tokens nextId))
      (onList { rest := tokens, errors := #[], nextId }))
    (watched : Agrees (Watches (Stands tokens)) (fun _ => False)
      (watching (.start tokens nextId)) (onList { rest := tokens, errors := #[], nextId })) :
    ∃ final places listed, InOrder tokens places ∧ Stands tokens final listed ∧
      ((∃ value, onList { rest := tokens, errors := #[], nextId } = .ok value listed ∧
          parser (.start tokens nextId) = .ok value final ∧
          watching (.start tokens nextId) = .ok value { reader := final, places }) ∨
        ∃ error, onList { rest := tokens, errors := #[], nextId } = .error error listed ∧
          parser (.start tokens nextId) = .error (.syntactic error) final ∧
          watching (.start tokens nextId) =
            .error (.syntactic error) { reader := final, places }) := by
  generalize parser (.start tokens nextId) = result at plain
  generalize watching (.start tokens nextId) = watchedResult at watched
  generalize onList { rest := tokens, errors := #[], nextId } = result' at plain watched
  cases plain with
  | @ok value final listed stands =>
      cases watched with
      | @ok _ watched _ watches =>
          cases watches.related.unique stands
          exact ⟨_, watched.places, listed, Stands.inOrder watches, stands,
            .inl ⟨value, rfl, rfl, rfl⟩⟩
      | lost impossible => exact impossible.elim
  | @error failure error final listed isError stands =>
      cases watched with
      | @error failure' _ watched _ isError' watches =>
          cases watches.related.unique stands
          cases eq_syntactic isError
          cases eq_syntactic isError'
          exact ⟨_, watched.places, listed, Stands.inOrder watches, stands,
            .inr ⟨error, rfl, rfl, rfl⟩⟩
      | lost impossible => exact impossible.elim
  | lost impossible => exact impossible.elim

theorem program_watched (tokens : List Token) (limit budget : Nat) :
    Mirrors (Watches (Stands tokens)) (fun _ => False)
      (Parser.declarations (Parser.declaration limit) budget [])
      (Parser.declarations (Parser.declaration limit) budget []) := by
  refine (WatchedReader.watches_simulates (stands_follows tokens).simulates).declarations
    (WatchedReader.watches_recovers (moves_recovers tokens)) (fun watches before => ?_)
    (fun watches => ⟨watches.related.toStands, watches.steady⟩) limit budget []
  refine ⟨⟨watches.related, fun atEnd => ?_⟩, watches.steady⟩
  rw [atEnd] at before
  cases before

/-- A reader is at the end if the list is. -/
theorem Stands.isAtEnd (stands : Stands tokens reader listed) :
    (Parser.isAtEnd : EStateM ParserStop TokenReader Bool) reader =
      .ok listed.isAtEnd reader := by
  have agrees := (stands_follows tokens).simulates.isAtEnd _ _ stands
  rw [Parser.isAtEnd_apply] at agrees
  generalize looked : (Parser.isAtEnd : EStateM ParserStop TokenReader Bool) reader = result
    at agrees
  cases agrees with
  | ok later => rw [later.unique stands]
  | lost impossible => exact impossible.elim

/-- Before the end a reader shows tokens up to the end of input. -/
theorem exists_moves {last : Token} (ended : tokens.getLast? = some last)
    (isEnd : last.kind = .endOfInput) (isTokens : reader.tokens.toList = tokens)
    (before : (Parser.isAtEnd : EStateM ParserStop TokenReader Bool) reader = .ok false reader) :
    ∃ listed, Moves tokens reader listed ∧ listed.isAtEnd = false := by
  have shows : Shows tokens reader ⟨tokens.drop reader.current, reader.errors, reader.nextId⟩ :=
    ⟨isTokens, rfl, rfl, rfl⟩
  obtain ⟨token, middle, peeked, seen⟩ := bind_eq_ok_iff.mp before
  obtain ⟨notEnd, rfl⟩ := pure_eq_ok_iff.mp seen
  cases rest : tokens.drop middle.current with
  | nil => cases (shows.peek_nil rest).symm.trans peeked
  | cons next later =>
      cases (shows.peek_cons rest).symm.trans peeked
      have inside : middle.current < tokens.length := by
        refine Nat.lt_of_not_le fun outside => ?_
        rw [List.drop_eq_nil_of_le outside] at rest
        cases rest
      have inFront : (ParserState.mk (tokens.drop middle.current) middle.errors
          middle.nextId).isAtEnd = false := by
        rw [ParserState.isAtEnd, ParserState.peek, rest]
        exact notEnd
      refine ⟨_, ⟨⟨shows, inside, last, ?_, isEnd⟩, fun atEnd => ?_⟩, inFront⟩
      · rw [List.getLast?_drop, if_neg (Nat.not_le_of_lt inside), ended]
      · rw [atEnd] at inFront
        cases inFront

/-- A declaration that is begun before the end ends, and leads to a later place, with every
budget that lasts for the tokens that are left. -/
theorem declaration_moves (moves : Moves tokens reader listed)
    (inFront : listed.isAtEnd = false) :
    ∃ result final,
      (∀ budget, tokens.length - reader.current ≤ budget →
        Parser.declaration budget reader = .ok result final) ∧
      final.tokens = reader.tokens ∧ reader.current < final.current ∧
      final.current < tokens.length := by
  obtain ⟨result, listedFinal, onList⟩ := Parser.declaration_ok listed.rest.length listed
  have orderly : ∀ budget, listed.rest.length ≤ budget → Parser.Orderly 1
      (Parser.declaration listed.rest.length) (Parser.declaration budget) listed :=
    fun budget larger => Parser.orderly_declaration (Nat.le_refl _) larger listed moves.ended
      inFront (Nat.le_refl _)
  have ends : ∀ budget, listed.rest.length ≤ budget → ∃ final,
      Parser.declaration budget reader = .ok result final ∧
        Stands tokens final listedFinal := by
    intro budget larger
    have agrees := (moves_recovers tokens).declaration budget _ _ moves
    rw [(orderly budget larger).same, onList] at agrees
    generalize read : Parser.declaration budget reader = outcome at agrees
    cases agrees with
    | ok later => exact ⟨_, rfl, later.toStands⟩
    | lost impossible => exact impossible.elim
  have left : listed.rest.length = tokens.length - reader.current := by
    rw [moves.rest, List.length_drop]
  obtain ⟨final, -, stands⟩ := ends _ (Nat.le_refl _)
  refine ⟨result, final, fun budget larger => ?_, ?_, ?_, stands.inside⟩
  · obtain ⟨other, read, otherStands⟩ := ends budget (left ▸ larger)
    rw [read, otherStands.unique stands]
  · exact Array.toList_inj.mp (stands.isTokens.trans moves.isTokens.symm)
  · have taken := (orderly _ (Nat.le_refl _)).takes onList
    rw [stands.rest, List.length_drop, left] at taken
    have inside := moves.inside
    omega

end TokenReader

/-- Parsing is safe.  On a token list that ends with the end of input, no budget is used up:
larger ones give the same result.  A program is read up to the end of input, without a look at
a place where there is no token; a watched reader ends in the same way, at places in order; and
the result is an error exactly if errors were recorded.  An expression is read in the same way,
or given up with one more error.  Wherever a declaration is begun before the end of input, it
ends, and it takes a token. -/
theorem parsing_is_safe (tokens : List Token) (last : Token) (nextId : UseId)
    (ended : tokens.getLast? = some last) (isEnd : last.kind = .endOfInput) :
    (∀ budget, tokens.length ≤ budget →
      Parser.run (Parser.declarations (Parser.declaration budget) budget []) nextId tokens =
        parseProgram nextId tokens ∧
      Parser.run (Parser.expression budget) nextId tokens = parseExpression nextId tokens) ∧
    (∃ statements final places,
      Parser.declarations (Parser.declaration tokens.length) tokens.length []
        (TokenReader.start tokens nextId) = .ok statements final ∧
      Parser.declarations (Parser.declaration tokens.length) tokens.length []
        (WatchedReader.start tokens nextId) = .ok statements { reader := final, places } ∧
      InOrder tokens places ∧ Parser.isAtEnd final = .ok true final ∧
      (parseProgram nextId tokens).1 =
        if final.errors = #[] then .ok statements else .error final.errors.toList) ∧
    (∃ final places, InOrder tokens places ∧
      ((∃ expr,
          Parser.expression tokens.length (TokenReader.start tokens nextId) = .ok expr final ∧
          Parser.expression tokens.length (WatchedReader.start tokens nextId) =
            .ok expr { reader := final, places } ∧
          (parseExpression nextId tokens).1 =
            if final.errors = #[] then .ok expr else .error final.errors.toList) ∨
        ∃ error,
          Parser.expression tokens.length (TokenReader.start tokens nextId) =
            .error (.syntactic error) final ∧
          Parser.expression tokens.length (WatchedReader.start tokens nextId) =
            .error (.syntactic error) { reader := final, places } ∧
          (parseExpression nextId tokens).1 = .error (final.errors.toList ++ [error]))) ∧
    ∀ reader : TokenReader, reader.tokens.toList = tokens →
      Parser.isAtEnd reader = .ok false reader → ∃ result final,
        (∀ budget, tokens.length - reader.current ≤ budget →
          Parser.declaration budget reader = .ok result final) ∧
        final.tokens = reader.tokens ∧ reader.current < final.current ∧
        final.current < tokens.length := by
  have listEnded : ParserState.Ended { rest := tokens, errors := #[], nextId } :=
    ⟨last, ended, isEnd⟩
  have stands := TokenReader.Stands.start nextId ended isEnd
  have watches : WatchedReader.Watches (TokenReader.Stands tokens)
      (WatchedReader.start tokens nextId) { rest := tokens, errors := #[], nextId } :=
    ⟨stands, WatchedReader.start_steady tokens nextId⟩
  refine ⟨?_, ?_, ?_, ?_⟩
  · intro budget larger
    constructor
    · rw [Parser.parseProgram_eq_read nextId ended isEnd,
        Parser.run_eq_read ended isEnd (Parser.program_stands tokens budget budget) nextId]
      refine Parser.read_congr ?_
      exact (Parser.orderly_declarations (Parser.orderly_declaration (Nat.le_refl _) larger)
        (Nat.le_refl _) larger [] _ listEnded (Nat.le_refl _)).same
    · rw [Parser.parseExpression_eq_read nextId ended isEnd,
        Parser.run_eq_read ended isEnd
          ((TokenReader.stands_follows tokens).simulates.expression budget) nextId]
      refine Parser.read_congr ?_
      exact (Parser.orderly_expression (Nat.le_refl _) larger _ listEnded (Nat.le_refl _)).same
  · obtain ⟨statements, listed, onList, isOver⟩ :=
      Parser.declarations_ok (Parser.orderly_declaration (Nat.le_refl _) (Nat.le_refl _))
        (Parser.declaration_ok tokens.length) (Nat.le_refl _) [] listEnded (Nat.le_refl _)
    obtain ⟨final, places, _, inOrder, stands, ⟨_, read, plain, watched⟩ | ⟨_, failed, -⟩⟩ :=
      TokenReader.watched_run (Parser.program_stands tokens _ _ _ _ stands)
        (TokenReader.program_watched tokens _ _ _ _ watches)
    · cases onList.symm.trans read
      refine ⟨statements, final, places, plain, watched, inOrder, ?_, ?_⟩
      · rw [stands.isAtEnd, isOver]
      · exact Parser.run_of_ok plain
    · cases onList.symm.trans failed
  · obtain ⟨final, places, listed, inOrder, -,
        ⟨expr, -, plain, watched⟩ | ⟨error, -, plain, watched⟩⟩ :=
      TokenReader.watched_run
        ((TokenReader.stands_follows tokens).simulates.expression _ _ _ stands)
        ((WatchedReader.watches_simulates
          (TokenReader.stands_follows tokens).simulates).expression _ _ _ watches)
    · exact ⟨final, places, inOrder, .inl ⟨expr, plain, watched, Parser.run_of_ok plain⟩⟩
    · exact ⟨final, places, inOrder, .inr ⟨error, plain, watched, Parser.run_of_error plain⟩⟩
  · intro reader isTokens before
    obtain ⟨listed, moves, inFront⟩ := TokenReader.exists_moves ended isEnd isTokens before
    exact TokenReader.declaration_moves moves inFront

/-! ### A block that is never closed -/

/-- The tokens of a block in which skipping passes over the closing brace. -/
def unclosedTokens : List Token :=
  [⟨.punct .leftBrace, "\x7b", 1⟩, ⟨.punct .rightParen, ")", 1⟩, ⟨.punct .rightBrace, "\x7d", 1⟩,
    Token.endOfInput 1]

theorem unclosedTokens_parsed_safely :
    unclosedTokens.getLast? = some (Token.endOfInput 1) ∧
      (Token.endOfInput 1).kind = .endOfInput ∧
      ∃ statements final places,
        Parser.declarations (Parser.declaration 4) 4 [] (TokenReader.start unclosedTokens 0) =
          .ok statements final ∧
        Parser.declarations (Parser.declaration 4) 4 [] (WatchedReader.start unclosedTokens 0) =
          .ok statements { reader := final, places } ∧
        InOrder unclosedTokens places ∧
        final.errors.toList =
          [⟨⟨.punct .rightParen, ")", 1⟩, .expectExpression⟩,
            ⟨Token.endOfInput 1, .expectBlockEnd⟩] := by
  have safe := parsing_is_safe unclosedTokens (Token.endOfInput 1) 0 rfl rfl
  obtain ⟨statements, final, places, plain, watched, inOrder, -, outcome⟩ := safe.2.1
  have failed : (parseProgram 0 unclosedTokens).1 = .error
      [⟨⟨.punct .rightParen, ")", 1⟩, .expectExpression⟩,
        ⟨Token.endOfInput 1, .expectBlockEnd⟩] := by
    rfl
  refine ⟨rfl, rfl, statements, final, places, plain, watched, inOrder, ?_⟩
  rw [failed] at outcome
  split at outcome
  · cases outcome
  · exact (Except.error.inj outcome).symm

end Lox
