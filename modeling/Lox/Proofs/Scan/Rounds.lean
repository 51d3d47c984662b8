import Lox.Proofs.Scan.Cursor
import Lox.Scan

/-!
# Rounds and items

From the start of a source a cursor goes through it in rounds, and gives out the items
of the spans that it has taken.  No round before the end fails, and the items are those
of the spans that the source is cut into.
-/

namespace Lox

namespace Cursor

/-- The rounds from a cursor to another one cut the source into these spans. -/
inductive Rounds (source : String) : Cursor → List Span → Cursor → Prop where
  | stop {cursor : Cursor} : Rounds source cursor [] cursor
  | more {cursor middle last : Cursor} {piece : Piece} {text : String} {cut : List Span} :
      cursor.atEnd source = false → cursor.round? source = some (piece, middle) →
      slice? source cursor.position middle.position = some text →
      Rounds source middle cut last → Rounds source cursor (⟨text.toList, piece⟩ :: cut) last

/-- The items that a cursor yields on its way to another one. -/
inductive Yields (source : String) : Cursor → List ScanItem → Cursor → Prop where
  | stop {cursor : Cursor} : Yields source cursor [] cursor
  | more {cursor middle last : Cursor} {item : ScanItem} {found : List ScanItem} :
      cursor.next? source = some (some item, middle) →
      Yields source middle found last → Yields source cursor (item :: found) last

variable {source : String} {cursor : Cursor} {before rest : List Char}

/-! ## Rounds -/

/-- No round fails before the end of the text. -/
theorem Between.rounds {cursor : Cursor} {before rest : List Char}
    (between : Between source cursor before rest) :
    ∃ last, Rounds source cursor (spans rest) last ∧ last.atEnd source = true := by
  match rest with
  | [] =>
      rw [spans_nil]
      exact ⟨cursor, .stop, between.atEnd_iff.mpr rfl⟩
  | c :: rest =>
      rcases between.behindNext.rounds with ⟨last, rounds, atEnd⟩
      have more := Rounds.more between.inside between.round? between.slice?_next rounds
      rw [String.toList_ofList] at more
      rw [spans_cons]
      exact ⟨last, more, atEnd⟩
termination_by rest.length
decreasing_by exact Span.length_next_lt c rest

/-- Rounds cut off the first spans of the text, and leave the cursor between them and
those that follow. -/
theorem Rounds.between {cut : List Span} {last : Cursor} (rounds : Rounds source cursor cut last)
    (between : Between source cursor before rest) :
    ∃ left, Between source last (before ++ cut.flatMap Span.text) left ∧
      spans rest = cut ++ spans left ∧
      last.line = cursor.line + lineBreaks (cut.flatMap Span.text) := by
  induction rounds generalizing before rest with
  | stop =>
      rw [List.flatMap_nil, List.append_nil]
      exact ⟨rest, between, rfl, rfl⟩
  | @more cursor middle last piece text cut inside read sliced _ inductionHypothesis =>
      cases rest with
      | nil =>
          rw [between.atEnd_iff.mpr rfl] at inside
          cases inside
      | cons c rest =>
          have isRound := read.symm.trans between.round?
          cases isRound
          have isText := sliced.symm.trans between.slice?_next
          cases isText
          rcases inductionHypothesis between.behindNext with ⟨left, behind, isCut, line⟩
          rw [String.toList_ofList, spans_cons, isCut, List.flatMap_cons, ← List.append_assoc,
            lineBreaks_append, ← Nat.add_assoc]
          exact ⟨left, behind, rfl, line⟩

/-! ## Items -/

theorem next?_atEnd (goesOn : cursor.finished = false) (atEnd : cursor.atEnd source = true) :
    cursor.next? source =
      some (some (.ok (Token.endOfInput cursor.line)), { cursor with finished := true }) := by
  rw [next?, if_neg (Bool.eq_false_iff.mp goesOn), dif_pos atEnd]

theorem next?_finished (ended : cursor.finished = true) :
    cursor.next? source = some (none, cursor) := by
  rw [next?, if_pos ended]

/-- A span without an item is passed over. -/
theorem Between.next? {c : Char} (between : Between source cursor before (c :: rest))
    (goesOn : cursor.finished = false) :
    cursor.next? source =
      match (Span.next c rest).1.item? (cursor.behindNext c rest).line with
      | none => (cursor.behindNext c rest).next? source
      | some item => some (some item, cursor.behindNext c rest) := by
  have isRound := between.round?
  have lexeme : (cursor.behindNext c rest).lexeme? source = _ := between.slice?_next
  rw [Cursor.next?, if_neg (Bool.eq_false_iff.mp goesOn),
    dif_neg (Bool.eq_false_iff.mp between.inside)]
  split
  · next failed =>
    rw [isRound] at failed
    cases failed
  · next after read =>
    rcases Prod.mk.inj (Option.some.inj (isRound.symm.trans read)) with ⟨isBlank, rfl⟩
    rw [Span.item?, isBlank]
  · next kind after read =>
    rcases Prod.mk.inj (Option.some.inj (isRound.symm.trans read)) with ⟨isToken, rfl⟩
    rw [lexeme, Span.item?, isToken]
    rfl
  · next cause after read =>
    rcases Prod.mk.inj (Option.some.inj (isRound.symm.trans read)) with ⟨isFault, rfl⟩
    rw [Span.item?, isFault]

/-- Cursors with the same next item yield the same items. -/
theorem Yields.of_next?_eq {other last : Cursor} {found : List ScanItem}
    (yields : Yields source other found last) (nonempty : found ≠ [])
    (same : cursor.next? source = other.next? source) : Yields source cursor found last := by
  cases yields with
  | stop => exact absurd rfl nonempty
  | more isNext further => exact .more (same.trans isNext) further

theorem items_ne_nil (line : Nat) (cut : List Span) : items line cut ≠ [] := by
  induction cut generalizing line with
  | nil => exact List.cons_ne_nil _ _
  | cons span rest inductionHypothesis =>
      rw [items_cons]
      exact List.append_ne_nil_of_right_ne_nil _ (inductionHypothesis _)

/-- A cursor yields the items of the spans of the text that is left. -/
theorem Between.yields {cursor : Cursor} {before rest : List Char}
    (between : Between source cursor before rest) (goesOn : cursor.finished = false) :
    ∃ last, Yields source cursor (items cursor.line (spans rest)) last ∧ last.finished = true := by
  match rest with
  | [] =>
      rw [spans_nil, items_nil]
      exact ⟨_, .more (next?_atEnd goesOn (between.atEnd_iff.mpr rfl)) .stop, rfl⟩
  | c :: rest =>
      have isNext := between.next? goesOn
      have line : (cursor.behindNext c rest).line =
        cursor.line + lineBreaks (Span.next c rest).1.text := rfl
      rcases between.behindNext.yields goesOn with ⟨last, yields, ended⟩
      rw [spans_cons, items_cons, ← line]
      refine ⟨last, ?_, ended⟩
      cases isItem : (Span.next c rest).1.item? (cursor.behindNext c rest).line with
      | none =>
          rw [isItem] at isNext
          exact yields.of_next?_eq (items_ne_nil _ _) isNext
      | some item =>
          rw [isItem] at isNext
          exact .more isNext yields
termination_by rest.length
decreasing_by exact Span.length_next_lt c rest

/-- All items that a cursor yields are collected. -/
theorem Yields.collect? {found : List ScanItem} {last : Cursor}
    (yields : Yields source cursor found last) (ended : last.finished = true)
    (done : List ScanItem) :
    cursor.collect? source done = some (done.reverse ++ found) := by
  induction yields generalizing done with
  | @stop cursor =>
      have isEnd : cursor.next? source = some (none, cursor) := next?_finished ended
      rw [Cursor.collect?, List.append_nil]
      split
      · next failed =>
        rw [isEnd] at failed
        cases failed
      · rfl
      · next item after yielded =>
        rw [isEnd] at yielded
        cases yielded
  | more isNext _ inductionHypothesis =>
      rw [Cursor.collect?]
      split
      · next failed =>
        rw [isNext] at failed
        cases failed
      · next after yielded =>
        rw [isNext] at yielded
        cases yielded
      · next item after yielded =>
        rw [isNext] at yielded
        cases yielded
        rw [inductionHypothesis ended, List.reverse_cons, List.append_assoc]
        rfl

end Cursor

/-- Scanning yields the items of the spans that the source is cut into. -/
theorem scan_eq (source : String) : scan source = items 1 (spans source.toList) := by
  rcases (Cursor.between_initial source).yields rfl with ⟨last, yields, ended⟩
  rw [scan, yields.collect? ended]
  rfl

theorem scanTokens_eq (source : String) :
    scanTokens source = (items 1 (spans source.toList)).filterMap token? := by
  rw [scanTokens, scan_eq]

theorem scanErrors_eq (source : String) :
    scanErrors source = (items 1 (spans source.toList)).filterMap lexError? := by
  rw [scanErrors, scan_eq]

end Lox
