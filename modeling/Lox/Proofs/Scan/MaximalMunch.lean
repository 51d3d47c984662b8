import Lox.Proofs.Scan.Lexemes
import Lox.Proofs.Scan.Rounds

/-!
# Maximal munch

The reference for scanning: at each position white space and comments are skipped,
and otherwise the longest lexeme is taken; a quote that is never closed takes the
rest, and a character at which no lexeme starts is a fault of its own.  Scanning
cuts a text exactly as this reference does.
-/

namespace Lox

open Lox.Span

/-! ## The reference -/

/-- The text is a lexeme at the front of the input, and no longer text is. -/
structure Longest (input text : List Char) (kind : TokenKind) : Prop where
  front : text <+: input
  lexeme : Lexeme text kind
  longest : ∀ {other otherKind}, other <+: input → Lexeme other otherKind →
    other.length ≤ text.length

/-- What is to be taken at the front of the input. -/
inductive Takes : List Char → Span → Prop where
  | blank {c rest} : isBlank c = true → Takes (c :: rest) ⟨[c], .blank⟩
  /-- A comment goes up to the line break, which is left. -/
  | comment {body rest} : '\n' ∉ body → (rest = [] ∨ rest.head? = some '\n') →
      Takes ('/' :: '/' :: body ++ rest) ⟨'/' :: '/' :: body, .blank⟩
  | token {c rest text kind} : ¬ Skipped c rest → Longest (c :: rest) text kind →
      Takes (c :: rest) ⟨text, .token kind⟩
  | unterminated {rest} : '"' ∉ rest →
      Takes ('"' :: rest) ⟨'"' :: rest, .fault .unterminatedString⟩
  | unexpected {c rest} : ¬ Skipped c rest → c ≠ '"' →
      (∀ text kind, text <+: c :: rest → ¬ Lexeme text kind) →
      Takes (c :: rest) ⟨[c], .fault (.unexpectedCharacter c)⟩

/-- Behind the text that has been read, the input is cut into these spans and yields
these items.  An item is on the line on which its text ends. -/
inductive Lexes : List Char → List Char → List Span → List ScanItem → Prop where
  | done {read} : Lexes read [] [] [.ok ⟨.endOfInput, "", 1 + lineBreaks read⟩]
  | skip {read text rest cut found} : Takes (text ++ rest) ⟨text, .blank⟩ →
      Lexes (read ++ text) rest cut found →
      Lexes read (text ++ rest) (⟨text, .blank⟩ :: cut) found
  | token {read text rest kind cut found} : Takes (text ++ rest) ⟨text, .token kind⟩ →
      Lexes (read ++ text) rest cut found →
      Lexes read (text ++ rest) (⟨text, .token kind⟩ :: cut)
        (.ok ⟨kind, String.ofList text, 1 + lineBreaks (read ++ text)⟩ :: found)
  | fault {read text rest cause cut found} : Takes (text ++ rest) ⟨text, .fault cause⟩ →
      Lexes (read ++ text) rest cut found →
      Lexes read (text ++ rest) (⟨text, .fault cause⟩ :: cut)
        (.error ⟨1 + lineBreaks (read ++ text), cause⟩ :: found)

/-! ## One span -/

theorem next_isFront (c : Char) (rest : List Char) : (next c rest).1.text <+: c :: rest :=
  ⟨(next c rest).2, next_append c rest⟩

/-- A lexeme at the front of a text that is not skipped is part of the token there. -/
theorem covers_of_front {c : Char} {rest text : List Char} {kind : TokenKind}
    (kept : ¬ Skipped c rest) (front : text <+: c :: rest) (lexeme : Lexeme text kind) :
    (next c rest).1.IsLexeme ∧ text.length ≤ (next c rest).1.text.length := by
  rcases lexeme.exists_cons with ⟨first, tail, rfl⟩
  rcases front with ⟨more, joined⟩
  rw [List.cons_append] at joined
  obtain ⟨rfl, rfl⟩ := List.cons.inj joined
  exact lexeme.next_covers kept

theorem comment_eq {body rest : List Char} (inside : '\n' ∉ body)
    (ends : rest = [] ∨ rest.head? = some '\n') :
    comment ('/' :: (body ++ rest)) = (⟨'/' :: '/' :: body, .blank⟩, rest) := by
  have kept : ∀ c ∈ '/' :: body, decide (c ≠ '\n') = true := by
    intro c member
    rcases List.mem_cons.mp member with rfl | inBody
    · decide
    · have different : c ≠ '\n' := fun same => inside (same ▸ inBody)
      simpa using different
  have stops : rest.takeWhile (· ≠ '\n') = [] ∧ rest.dropWhile (· ≠ '\n') = rest := by
    rcases ends with rfl | isBreak
    · exact ⟨rfl, rfl⟩
    · rcases List.head?_eq_some_iff.mp isBreak with ⟨tail, rfl⟩
      exact ⟨rfl, rfl⟩
  rw [comment, ← List.cons_append, List.takeWhile_append_of_pos kept,
    List.dropWhile_append_of_pos kept, stops.1, stops.2, List.append_nil]

theorem takes_comment (tail : List Char) :
    Takes ('/' :: '/' :: tail) (comment ('/' :: tail)).1 := by
  have split := List.takeWhile_append_dropWhile (p := (· ≠ '\n')) (l := tail)
  have inside : '\n' ∉ tail.takeWhile (· ≠ '\n') := by
    intro member
    simpa using List.mem_takeWhile_imp member
  have ends : tail.dropWhile (· ≠ '\n') = [] ∨ (tail.dropWhile (· ≠ '\n')).head? = some '\n' := by
    cases remaining : tail.dropWhile (· ≠ '\n') with
    | nil => exact .inl rfl
    | cons c rest =>
        have stopped := List.head?_dropWhile_not (· ≠ '\n') tail
        rw [remaining] at stopped
        exact .inr (by simpa using stopped)
  have taken := Takes.comment inside ends
  rw [← split]
  rw [comment_eq inside ends]
  exact taken

/-- The span that scanning cuts off is the one to be taken, and no other is. -/
theorem takes_iff {c : Char} {rest : List Char} {span : Span} :
    Takes (c :: rest) span ↔ span = (next c rest).1 := by
  constructor
  · generalize isInput : c :: rest = input
    intro takes
    cases takes with
    | blank blank =>
        cases isInput
        rw [next_blank blank]
    | @comment body rest inside ends =>
        cases isInput
        change _ = (comment ('/' :: (body ++ rest))).1
        rw [comment_eq inside ends]
    | @token _ _ text kind kept longest =>
        cases isInput
        rcases covers_of_front kept longest.front longest.lexeme with
          ⟨⟨other, piece, lexeme⟩, longer⟩
        have sameLength := Nat.le_antisymm longer (longest.longest (next_isFront c rest) lexeme)
        have sameText : text = (next c rest).1.text :=
          (List.prefix_of_prefix_length_le longest.front (next_isFront c rest) longer).eq_of_length
            sameLength
        subst sameText
        rw [longest.lexeme.kind_unique lexeme, ← piece]
    | unterminated unclosed =>
        cases isInput
        rw [next_quote, quoted_of_not_mem unclosed]
    | unexpected kept notQuote noLexeme =>
        cases isInput
        rcases next_cases c rest with ⟨blank, -⟩ | ⟨tail, rfl, rfl⟩ | ⟨-, kind, -, lexeme⟩ |
          ⟨isQuote, -⟩ | ⟨-, -, isNext⟩
        · exact absurd (.inl blank) kept
        · exact absurd (.inr ⟨rfl, rfl⟩) kept
        · exact absurd lexeme (noLexeme _ _ (next_isFront c rest))
        · exact absurd isQuote notQuote
        · rw [isNext]
  · rintro rfl
    rcases next_cases c rest with ⟨blank, isNext⟩ | ⟨tail, rfl, rfl⟩ | ⟨kept, kind, piece, lexeme⟩ |
      ⟨rfl, unclosed⟩ | ⟨kept, notQuote, isNext⟩
    · rw [isNext]
      exact .blank blank
    · exact takes_comment tail
    · have taken : Takes (c :: rest) ⟨(next c rest).1.text, .token kind⟩ :=
        .token kept ⟨next_isFront c rest, lexeme, fun front other =>
          (covers_of_front kept front other).2⟩
      rw [← piece] at taken
      exact taken
    · rw [next_quote, quoted_of_not_mem unclosed]
      exact .unterminated unclosed
    · have noLexeme : ∀ text kind, text <+: c :: rest → ¬ Lexeme text kind := by
        intro text kind front lexeme
        rcases covers_of_front kept front lexeme with ⟨⟨other, piece, -⟩, -⟩
        rw [isNext] at piece
        cases piece
      rw [isNext]
      exact .unexpected kept notQuote noLexeme

theorem Takes.lexeme {input text : List Char} {kind : TokenKind}
    (takes : Takes input ⟨text, .token kind⟩) : Lexeme text kind := by
  cases takes with
  | token _ longest => exact longest.lexeme

/-! ## Whole texts -/

theorem not_takes_nil {span : Span} : ¬ Takes [] span := by
  generalize isInput : [] = input
  intro takes
  cases takes
  all_goals cases isInput

/-- What is taken is what scanning cuts off, and scanning goes on behind it. -/
theorem Takes.spans_eq {text rest : List Char} {piece : Piece}
    (takes : Takes (text ++ rest) ⟨text, piece⟩) :
    spans (text ++ rest) = ⟨text, piece⟩ :: spans rest := by
  cases isInput : text ++ rest with
  | nil =>
      rw [isInput] at takes
      exact absurd takes not_takes_nil
  | cons c tail =>
      rw [isInput] at takes
      have isNext := takes_iff.mp takes
      have joined := next_append c tail
      rw [← isNext, ← isInput] at joined
      rw [spans_cons, ← isNext, List.append_cancel_left joined]

theorem Lexes.eq {read input : List Char} {cut : List Span} {found : List ScanItem}
    (lexes : Lexes read input cut found) :
    cut = spans input ∧ found = items (1 + lineBreaks read) (spans input) := by
  have further : ∀ read text : List Char,
      1 + lineBreaks (read ++ text) = 1 + lineBreaks read + lineBreaks text := by
    intro read text
    rw [lineBreaks, List.count_append, ← Nat.add_assoc]
    rfl
  induction lexes with
  | done =>
      rw [spans_nil, items_nil]
      exact ⟨rfl, rfl⟩
  | skip takes _ inductionHypothesis
  | token takes _ inductionHypothesis
  | fault takes _ inductionHypothesis =>
      rcases inductionHypothesis with ⟨rfl, rfl⟩
      rw [takes.spans_eq, items_cons, further]
      exact ⟨rfl, rfl⟩

theorem exists_lexes (read input : List Char) : ∃ cut found, Lexes read input cut found := by
  match input with
  | [] => exact ⟨_, _, .done⟩
  | c :: rest =>
      rcases exists_lexes (read ++ (next c rest).1.text) (next c rest).2 with ⟨cut, found, lexes⟩
      have takes : Takes (c :: rest) (next c rest).1 := takes_iff.mpr rfl
      rw [← next_append c rest] at takes ⊢
      generalize next c rest = taken at takes lexes ⊢
      rcases taken with ⟨⟨text, piece⟩, after⟩
      cases piece with
      | blank => exact ⟨_, _, .skip takes lexes⟩
      | token kind => exact ⟨_, _, .token takes lexes⟩
      | fault cause => exact ⟨_, _, .fault takes lexes⟩
termination_by input.length
decreasing_by exact length_next_lt c rest

/-- A text is scanned as the reference says, and the reference leaves no choice. -/
theorem lexes_iff {source : String} {cut : List Span} {found : List ScanItem} :
    Lexes [] source.toList cut found ↔ cut = spans source.toList ∧ found = scan source := by
  rw [scan_eq]
  constructor
  · exact Lexes.eq
  · rintro ⟨rfl, rfl⟩
    rcases exists_lexes [] source.toList with ⟨cut, found, lexes⟩
    rcases lexes.eq with ⟨rfl, rfl⟩
    exact lexes

theorem Lexeme.ne_endOfInput {text : List Char} {kind : TokenKind} (lexeme : Lexeme text kind) :
    kind ≠ .endOfInput := by
  cases lexeme
  all_goals exact nofun

/-- The end of input is the last item and no other one. -/
theorem Lexes.exists_end {read input : List Char} {cut : List Span} {found : List ScanItem}
    (lexes : Lexes read input cut found) :
    ∃ before, found = before ++ [.ok (Token.endOfInput (1 + lineBreaks (read ++ input)))] ∧
      ∀ token, .ok token ∈ before → token.kind ≠ .endOfInput := by
  induction lexes with
  | done =>
      rw [List.append_nil]
      exact ⟨[], rfl, nofun⟩
  | skip _ _ inductionHypothesis =>
      rw [← List.append_assoc]
      exact inductionHypothesis
  | @token read text rest kind cut found takes _ inductionHypothesis =>
      rcases inductionHypothesis with ⟨before, rfl, noEnd⟩
      rw [← List.append_assoc]
      refine ⟨_ :: before, rfl, ?_⟩
      intro token member
      rcases List.mem_cons.mp member with isFirst | inBefore
      · cases isFirst
        exact takes.lexeme.ne_endOfInput
      · exact noEnd token inBefore
  | fault _ _ inductionHypothesis =>
      rcases inductionHypothesis with ⟨before, rfl, noEnd⟩
      rw [← List.append_assoc]
      refine ⟨_ :: before, rfl, ?_⟩
      intro token member
      rcases List.mem_cons.mp member with isFirst | inBefore
      · cases isFirst
      · exact noEnd token inBefore

/-- After any number of rounds the cursor stands between two characters, and its line is
that of the text it has passed. -/
theorem Cursor.Rounds.reached {source : String} {first : List Span} {middle : Cursor}
    (rounds : Cursor.Rounds source .initial first middle) :
    first <+: spans source.toList ∧ String.Pos.Raw.IsValid source ⟨middle.position⟩ ∧
      middle.line = 1 + lineBreaks (first.flatMap Span.text) := by
  rcases rounds.between (Cursor.between_initial source) with ⟨left, between, isCut, line⟩
  exact ⟨⟨spans left, isCut.symm⟩, between.isValid, line⟩

/-- Scanning is maximal munch and loses nothing.  The cursor goes in rounds through the
whole source, and the spans that they cut it into, one behind the other, are the source;
after each of them the cursor stands between two characters, on the line of the text that
it has passed.  The items that it yields, and these spans, are the only ones of the
reference; and the last item is the one end of input, on the last line, after which
nothing is yielded any more. -/
theorem scan_is_maximal_munch (source : String) :
    ∃ cut last ended,
      Cursor.Rounds source .initial cut last ∧ last.atEnd source = true ∧
      cut.flatMap Span.text = source.toList ∧
      (∀ first middle, Cursor.Rounds source .initial first middle →
        first <+: cut ∧ String.Pos.Raw.IsValid source ⟨middle.position⟩ ∧
          middle.line = 1 + lineBreaks (first.flatMap Span.text)) ∧
      Cursor.Yields source .initial (scan source) ended ∧
      ended.next? source = some (none, ended) ∧
      (∀ taken found, Lexes [] source.toList taken found ↔ taken = cut ∧ found = scan source) ∧
      LexicalFault.unterminatedString.message = "Unterminated string." ∧
      ∃ before, scan source = before ++ [.ok (Token.endOfInput (1 + lineBreaks source.toList))] ∧
        ∀ token, .ok token ∈ before → token.kind ≠ .endOfInput := by
  have between := Cursor.between_initial source
  rcases between.rounds with ⟨last, rounds, atEnd⟩
  rcases between.yields rfl with ⟨ended, yields, finished⟩
  have lexes : Lexes [] source.toList (spans source.toList) (scan source) :=
    lexes_iff.mpr ⟨rfl, rfl⟩
  refine ⟨spans source.toList, last, ended, rounds, atEnd, flatMap_text_spans _,
    fun first middle => Cursor.Rounds.reached, ?_, Cursor.next?_finished finished,
    fun cut found => lexes_iff, rfl, lexes.exists_end⟩
  rw [scan_eq]
  exact yields

end Lox
