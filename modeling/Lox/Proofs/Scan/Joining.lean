import Lox.Proofs.Scan.Rounds
import Lox.Proofs.Syntax.Relabel

/-!
# Texts joined by a line break

A line break ends every span except an unterminated string.  So the spans of two
texts joined by a line break are those of the first text, the line break, and those
of the second text, whose tokens stand further down.
-/

namespace Lox

/-! ## One span -/

section Seam

variable {keeps : Char → Bool} {before : List Char}
  (stops : before.dropWhile keeps = [] → keeps '\n' = false) (after : List Char)

include stops

theorem takeWhile_lineBreak :
    (before ++ '\n' :: after).takeWhile keeps = before.takeWhile keeps := by
  induction before with
  | nil => simp [stops rfl]
  | cons c rest inductionHypothesis =>
      rw [List.dropWhile_cons] at stops
      rw [List.cons_append, List.takeWhile_cons, List.takeWhile_cons]
      by_cases kept : keeps c
      · rw [if_pos kept] at stops
        rw [inductionHypothesis stops]
      · rw [if_neg kept, if_neg kept]

theorem dropWhile_lineBreak :
    (before ++ '\n' :: after).dropWhile keeps = before.dropWhile keeps ++ '\n' :: after := by
  induction before with
  | nil => simp [stops rfl]
  | cons c rest inductionHypothesis =>
      rw [List.dropWhile_cons] at stops
      rw [List.cons_append, List.dropWhile_cons, List.dropWhile_cons]
      by_cases kept : keeps c
      · rw [if_pos kept] at stops
        rw [if_pos kept, if_pos kept, inductionHypothesis stops]
      · rw [if_neg kept, if_neg kept, List.cons_append]

end Seam

namespace Span

/-- The same span, with a line break and more text behind what follows it. -/
def joined (cut : Span × List Char) (after : List Char) : Span × List Char :=
  (cut.1, cut.2 ++ '\n' :: after)

theorem comment_joined (rest after : List Char) :
    comment (rest ++ '\n' :: after) = joined (comment rest) after := by
  rw [comment, takeWhile_lineBreak fun _ => by decide, dropWhile_lineBreak fun _ => by decide]
  rfl

theorem mark_joined (c : Char) (punct : Punct) (rest after : List Char) :
    mark c punct (rest ++ '\n' :: after) = joined (mark c punct rest) after := by
  unfold mark
  cases punct.withEqual? with
  | none => rfl
  | some double =>
      cases rest with
      | nil => rfl
      | cons next others =>
          by_cases isEqual : next = '='
          · subst isEqual
            rfl
          · simp [joined, isEqual]

theorem quoted_joined {rest : List Char} (after : List Char)
    (terminated : (quoted rest).1.piece ≠ .fault .unterminatedString) :
    quoted (rest ++ '\n' :: after) = joined (quoted rest) after := by
  unfold quoted at terminated ⊢
  cases remaining : rest.dropWhile (· ≠ '"') with
  | nil =>
      rw [remaining] at terminated
      exact absurd rfl terminated
  | cons quote tail =>
      have closed : rest.dropWhile (· ≠ '"') = [] → decide ('\n' ≠ '"') = false := by
        rw [remaining]
        exact nofun
      rw [takeWhile_lineBreak closed, dropWhile_lineBreak closed, remaining]
      rfl

theorem number_joined (c : Char) (rest after : List Char) :
    number c (rest ++ '\n' :: after) = joined (number c rest) after := by
  unfold number
  rw [takeWhile_lineBreak fun _ => by decide, dropWhile_lineBreak fun _ => by decide]
  cases remaining : rest.dropWhile Char.isDigit with
  | nil => rfl
  | cons point fraction =>
      by_cases isPoint : point = '.'
      · subst isPoint
        cases fraction with
        | nil => rfl
        | cons digit tail =>
            have taken : (tail ++ '\n' :: after).takeWhile Char.isDigit =
                tail.takeWhile Char.isDigit := takeWhile_lineBreak (fun _ => by decide) after
            have dropped : (tail ++ '\n' :: after).dropWhile Char.isDigit =
                tail.dropWhile Char.isDigit ++ '\n' :: after :=
              dropWhile_lineBreak (fun _ => by decide) after
            by_cases isDigit : digit.isDigit
            · simp [joined, isDigit, taken, dropped]
            · simp [joined, isDigit]
      · simp [joined, isPoint]

theorem word_joined (c : Char) (rest after : List Char) :
    word c (rest ++ '\n' :: after) = joined (word c rest) after := by
  rw [word, takeWhile_lineBreak fun _ => by decide, dropWhile_lineBreak fun _ => by decide]
  rfl

/-- A line break ends the span at the front of a text. -/
theorem next_joined {c : Char} {rest : List Char} (after : List Char)
    (terminated : (next c rest).1.piece ≠ .fault .unterminatedString) :
    next c (rest ++ '\n' :: after) = joined (next c rest) after := by
  have sameHead : (rest ++ '\n' :: after).head? = some '/' ↔ rest.head? = some '/' := by
    cases rest <;> simp
  unfold next at terminated ⊢
  by_cases blank : isBlank c = true
  · rw [if_pos blank, if_pos blank]
    rfl
  rw [if_neg blank] at terminated ⊢
  rw [if_neg blank]
  simp only [sameHead]
  by_cases slashes : (c = '/' && rest.head? = some '/') = true
  · rw [if_pos slashes, if_pos slashes]
    exact comment_joined rest after
  rw [if_neg slashes] at terminated ⊢
  rw [if_neg slashes]
  cases single : Punct.single? c with
  | some punct => exact mark_joined c punct rest after
  | none =>
      rw [single] at terminated
      dsimp only at terminated ⊢
      by_cases quote : c = '"'
      · rw [if_pos quote] at terminated ⊢
        rw [if_pos quote]
        exact quoted_joined after terminated
      rw [if_neg quote, if_neg quote]
      by_cases digit : c.isDigit = true
      · rw [if_pos digit, if_pos digit]
        exact number_joined c rest after
      rw [if_neg digit, if_neg digit]
      by_cases start : isWordStart c = true
      · rw [if_pos start, if_pos start]
        exact word_joined c rest after
      · rw [if_neg start, if_neg start]
        rfl

end Span

/-! ## All spans -/

/-- The span of a line break. -/
def Span.lineBreak : Span :=
  { text := ['\n'], piece := .blank }

theorem spans_joined {before : List Char} (after : List Char)
    (terminated : ∀ span ∈ spans before, span.piece ≠ .fault .unterminatedString) :
    spans (before ++ '\n' :: after) = spans before ++ Span.lineBreak :: spans after := by
  match before with
  | [] =>
      rw [List.nil_append, spans_cons, spans_nil, List.nil_append]
      rfl
  | c :: rest =>
      rw [spans_cons] at terminated
      rw [List.cons_append, spans_cons, spans_cons,
        Span.next_joined after (terminated _ List.mem_cons_self), Span.joined,
        spans_joined after fun span member => terminated span (List.mem_cons_of_mem _ member)]
      rfl
termination_by before.length
decreasing_by exact Span.length_next_lt c rest

/-! ## Items -/

/-- An item further down. -/
def movedItem (offset : Nat) : ScanItem → ScanItem
  | .ok token => .ok (token.moved (· + offset))
  | .error error => .error { error with line := error.line + offset }

theorem items_moved (offset line : Nat) (spans : List Span) :
    items (line + offset) spans = (items line spans).map (movedItem offset) := by
  induction spans generalizing line with
  | nil => simp [movedItem, Token.moved, Token.endOfInput]
  | cons span rest inductionHypothesis =>
      have further : line + offset + lineBreaks span.text =
          line + lineBreaks span.text + offset := by omega
      have moved : span.item? (line + lineBreaks span.text + offset) =
          (span.item? (line + lineBreaks span.text)).map (movedItem offset) := by
        unfold Span.item?
        cases span.piece <;> rfl
      rw [items_cons, items_cons, further, inductionHypothesis, moved, List.map_append,
        Option.toList_map]

/-- The items of spans before others are the same, but for the end of input. -/
theorem items_append (line : Nat) (first : List Span) :
    ∃ found, items line first =
        found ++ [.ok (Token.endOfInput (line + lineBreaks (first.flatMap Span.text)))] ∧
      ∀ second, items line (first ++ second) =
        found ++ items (line + lineBreaks (first.flatMap Span.text)) second := by
  induction first generalizing line with
  | nil => exact ⟨[], by simp [lineBreaks], fun second => by simp [lineBreaks]⟩
  | cons span rest inductionHypothesis =>
      rcases inductionHypothesis (line + lineBreaks span.text) with ⟨found, own, joined⟩
      have further : line + lineBreaks ((span :: rest).flatMap Span.text) =
          line + lineBreaks span.text + lineBreaks (rest.flatMap Span.text) := by
        rw [List.flatMap_cons, lineBreaks, List.count_append, ← Nat.add_assoc]
        rfl
      refine ⟨(span.item? (line + lineBreaks span.text)).toList ++ found, ?_, ?_⟩
      · rw [items_cons, own, further, List.append_assoc]
      · intro second
        rw [List.cons_append, items_cons, joined, further, List.append_assoc]

/-! ## Source texts -/

/-- No error of the text is that of a string without an end. -/
def StringsEnd (source : String) : Prop :=
  ∀ error ∈ scanErrors source, error.cause ≠ .unterminatedString

theorem stringsEnd_of_lexical {source : String} (lexical : scanErrors source = []) :
    StringsEnd source := by
  intro error member
  rw [lexical] at member
  cases member

theorem items_terminated {line : Nat} {spans : List Span}
    (ended : ∀ error ∈ (items line spans).filterMap lexError?,
      error.cause ≠ .unterminatedString) :
    ∀ span ∈ spans, span.piece ≠ .fault .unterminatedString := by
  induction spans generalizing line with
  | nil => exact fun span member => absurd member List.not_mem_nil
  | cons first rest inductionHypothesis =>
      intro span member isFault
      rw [items_cons, List.filterMap_append] at ended
      rcases List.mem_cons.mp member with rfl | inRest
      · simp [Span.item?, isFault, lexError?] at ended
      · exact inductionHypothesis (fun error later => ended error (List.mem_append_right _ later))
          span inRest isFault

/-- The number of lines by which a text joined to a source text is moved down. -/
def lineCount (source : String) : Nat :=
  lineBreaks source.toList + 1

/-- Joining a text to one whose strings end replaces the end of input by the items of
the text, further down. -/
theorem scan_joined {first : String} (second : String) (stringsEnd : StringsEnd first) :
    ∃ found last, scan first = found ++ [.ok (Token.endOfInput last)] ∧
      scan (first ++ "\n" ++ second) =
        found ++ (scan second).map (movedItem (lineCount first)) := by
  have text : (first ++ "\n" ++ second).toList = first.toList ++ '\n' :: second.toList := by
    simp
  rcases items_append 1 (spans first.toList) with ⟨found, own, joined⟩
  rw [← scan_eq] at own
  refine ⟨found, _, own, ?_⟩
  rw [flatMap_text_spans] at joined
  rw [StringsEnd, scanErrors_eq] at stringsEnd
  rw [scan_eq, text, spans_joined _ (items_terminated stringsEnd), joined, items_cons, scan_eq,
    ← items_moved]
  have further : 1 + lineBreaks first.toList + lineBreaks Span.lineBreak.text =
      1 + lineCount first := Nat.add_assoc _ _ _
  rw [further]
  rfl

theorem token?_movedItem (offset : Nat) (item : ScanItem) :
    token? (movedItem offset item) = (token? item).map (Token.moved (· + offset)) := by
  cases item <;> rfl

theorem lexError?_movedItem (offset : Nat) (item : ScanItem) :
    (lexError? (movedItem offset item)).isSome = (lexError? item).isSome := by
  cases item <;> rfl

theorem tokens_moved (offset : Nat) (found : List ScanItem) :
    (found.map (movedItem offset)).filterMap token? =
      (found.filterMap token?).map (Token.moved (· + offset)) := by
  rw [List.filterMap_map, List.map_filterMap]
  exact congrArg (List.filterMap · found) (funext (token?_movedItem offset))

theorem errors_moved {offset : Nat} {found : List ScanItem}
    (lexical : found.filterMap lexError? = []) :
    (found.map (movedItem offset)).filterMap lexError? = [] := by
  rw [List.filterMap_eq_nil_iff] at lexical ⊢
  intro item member
  rcases List.mem_map.mp member with ⟨original, inFound, rfl⟩
  rw [← Option.not_isSome_iff_eq_none, lexError?_movedItem, lexical original inFound]
  exact Bool.false_ne_true

theorem scanTokens_joined {first : String} (second : String) (lexical : scanErrors first = []) :
    ∃ tokens last, scanTokens first = tokens ++ [Token.endOfInput last] ∧
      scanTokens (first ++ "\n" ++ second) =
        tokens ++ (scanTokens second).map (Token.moved (· + lineCount first)) := by
  rcases scan_joined second (stringsEnd_of_lexical lexical) with ⟨found, last, own, joined⟩
  refine ⟨found.filterMap token?, last, ?_, ?_⟩
  · rw [scanTokens, own, List.filterMap_append]
    rfl
  · rw [scanTokens, joined, List.filterMap_append, tokens_moved, scanTokens]

theorem scanErrors_joined {first second : String} (lexical : scanErrors first = [])
    (lexical' : scanErrors second = []) : scanErrors (first ++ "\n" ++ second) = [] := by
  rcases scan_joined second (stringsEnd_of_lexical lexical) with ⟨found, last, own, joined⟩
  rw [scanErrors, own, List.filterMap_append, List.append_eq_nil_iff] at lexical
  rw [scanErrors, joined, List.filterMap_append, lexical.1, errors_moved lexical', List.append_nil]

/-! ## Lines -/

/-- Scanning goes line by line: unless a string of the first text is without an end, the
items of two texts joined by a line break are those of the first one, but for its end of
input, and those of the second one, moved down by the lines before it. -/
theorem scanning_is_linewise (first second : String) (stringsEnd : StringsEnd first) :
    (∃ last, (scan first).getLast? = some (.ok (Token.endOfInput last))) ∧
      scan (first ++ "\n" ++ second) =
        (scan first).dropLast ++
          (scan second).map (movedItem (lineBreaks first.toList + 1)) := by
  rcases scan_joined second stringsEnd with ⟨found, last, own, joined⟩
  refine ⟨⟨last, ?_⟩, ?_⟩
  · rw [own, List.getLast?_concat]
  · rw [own, List.dropLast_concat]
    exact joined

/-- A first text with an error in it, whose last mark could go on behind the line break. -/
theorem brokenMark_is_linewise :
    scanErrors "1.\né !" = [⟨2, .unexpectedCharacter 'é'⟩] ∧
      scan ("1.\né !" ++ "\n" ++ "=2") =
        (scan "1.\né !").dropLast ++ (scan "=2").map (movedItem 2) := by
  have errors : scanErrors "1.\né !" = [⟨2, .unexpectedCharacter 'é'⟩] := by decide +kernel
  have stringsEnd : StringsEnd "1.\né !" := by
    intro error member
    rw [errors, List.mem_singleton] at member
    rw [member]
    exact nofun
  exact ⟨errors, (scanning_is_linewise "1.\né !" "=2" stringsEnd).2⟩

end Lox
